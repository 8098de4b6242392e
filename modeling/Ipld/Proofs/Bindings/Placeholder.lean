import Mathlib
import Ipld.Proofs.Bindings.Values
import Ipld.Proofs.Repr.Written
import Ipld.Proofs.Json.Decoding
import Ipld.Proofs.Compile.Stages

/-!
# Reading placeholders back from JSON

Minimal bindings read a placeholder out of a JSON value with a derived deserializer
(`placeholderOfJson`). Read at the shape of a full value `v`, a JSON value that `v` stands as
(`JsonOf`) gives the placeholder of `v` (`placeholderOfJson_jsonOf`), as long as every float of
`v` is finite: a float that is not finite stands as null, which a float does not read from.
Two rules of the schema are needed: the fields of a struct have distinct names, and the
members of a union distinct types, since the deserializer finds a field and a member by name.

Reading takes a few steps at one JSON value before it reads the value's parts: one for an
option and two for a declared type (`Shape.steps`). Between a value and one of its parts it
takes at most six, so six steps of fuel per unit of weight are enough (`Reads`), and the
proof is an induction on the fuel.
-/

namespace Ipld.Typed

open Schema

-- The proofs below unfold these definitions side by side; tagging them for a moment has
-- their equations generated here, once, rather than by each proof at the same time.
attribute [local simp] JsonOf native placeholderOfJson FieldsJson EntriesJson nativeFields
  TypedValue.floats
attribute [-simp] JsonOf native placeholderOfJson FieldsJson EntriesJson nativeFields
  TypedValue.floats

/-! ## Shapes with one option at a time -/

/-- Whether a shape is an option. -/
def Shape.isOption : Shape → Bool
  | .option _ => true
  | _ => false

/-- The shapes that references give: no option directly inside another, at any depth. -/
def Shape.Simple : Shape → Prop
  | .option s => s.isOption = false ∧ s.Simple
  | .vec item => item.Simple
  | .indexMap k v => k.Simple ∧ v.Simple
  | _ => True

/-- The steps reading takes at a JSON value before it reads the value's parts: one for an
option and two for a declared type, its name and then its definition. -/
def Shape.steps : Shape → Nat
  | .option s => s.steps + 1
  | .declared _ => 2
  | _ => 0

theorem Shape.ofName_simple (n : String) : (Shape.ofName n).Simple ∧ (Shape.ofName n).isOption = false := by
  unfold Shape.ofName
  split <;> simp [Shape.Simple, Shape.isOption]

theorem Shape.ofRef_simple : ∀ r : Ref, (Shape.ofRef r).Simple ∧ (Shape.ofRef r).isOption = false
  | .named n => by simpa [Shape.ofRef] using Shape.ofName_simple n
  | .list v n => by
    have := Shape.ofRef_simple v
    cases n <;> simp_all [Shape.ofRef, Shape.optionIf, Shape.Simple, Shape.isOption]
  | .map k v n => by
    have := Shape.ofRef_simple v
    have := Shape.ofName_simple k
    cases n <;> simp_all [Shape.ofRef, Shape.optionIf, Shape.Simple, Shape.isOption]
  | .link _ => by simp [Shape.ofRef, Shape.Simple, Shape.isOption]

theorem Shape.optionIf_ofRef_simple (n : Bool) (r : Ref) : (Shape.optionIf n (Shape.ofRef r)).Simple := by
  have := Shape.ofRef_simple r
  cases n <;> simp_all [Shape.optionIf, Shape.Simple]

theorem wrapperShape_simple {t : SchemaType} {s : Shape} (h : wrapperShape t = some s) :
    s.Simple ∧ s.isOption = false := by
  cases t <;> simp only [wrapperShape, Option.some.injEq, reduceCtorEq] at h <;> subst h <;>
    simp [Shape.Simple, Shape.isOption, Shape.optionIf_ofRef_simple, (Shape.ofName_simple _).1]

theorem Shape.steps_le_two {s : Shape} (h : s.isOption = false) : s.steps ≤ 2 := by
  cases s <;> simp_all [Shape.isOption, Shape.steps]

/-- A simple shape takes at most three steps: an option, then a declared type. -/
theorem Shape.steps_le_three : {s : Shape} → s.Simple → s.steps ≤ 3
  | .option s, ⟨h, _⟩ => by
    have := Shape.steps_le_two h
    simp only [Shape.steps]
    omega
  | .declared _, _ => by simp [Shape.steps]
  | .bool, _ | .int, _ | .float, _ | .string, _ | .bytes, _ | .link, _ | .vec _, _
  | .indexMap _ _, _ => by simp [Shape.steps]

theorem wrapperShape_steps {t : SchemaType} {s : Shape} (h : wrapperShape t = some s) : s.steps = 0 := by
  cases t <;> simp only [wrapperShape, Option.some.injEq, reduceCtorEq] at h <;> subst h <;> rfl

/-! ## Finite values -/

section Floats

theorem mem_floatsList {x : Binary64} {items : List TypedValue} :
    x ∈ TypedValue.floatsList items ↔ ∃ v ∈ items, x ∈ v.floats := by
  induction items with
  | nil => simp [TypedValue.floatsList]
  | cons v rest ih => simp [TypedValue.floatsList, ih]

theorem mem_floatsEntries {x : Binary64} {entries : List (TypedValue × TypedValue)} :
    x ∈ TypedValue.floatsEntries entries ↔ ∃ e ∈ entries, x ∈ e.1.floats ∨ x ∈ e.2.floats := by
  induction entries with
  | nil => simp [TypedValue.floatsEntries]
  | cons e rest ih =>
    obtain ⟨a, b⟩ := e
    simp [TypedValue.floatsEntries, ih, or_assoc]

theorem finite_some {x : TypedValue} (h : (TypedValue.some x).Finite) : x.Finite := by
  simpa [TypedValue.Finite, TypedValue.floats] using h

theorem finite_wrapped {x : TypedValue} (h : (TypedValue.wrapped x).Finite) : x.Finite := by
  simpa [TypedValue.Finite, TypedValue.floats] using h

theorem finite_variant {i : Nat} {x : TypedValue} (h : (TypedValue.variant i x).Finite) : x.Finite := by
  simpa [TypedValue.Finite, TypedValue.floats] using h

theorem finite_of_mem_vec {items : List TypedValue} (h : (TypedValue.vec items).Finite) :
    ∀ v ∈ items, v.Finite := by
  intro v hv x hx
  exact h x (by simpa [TypedValue.floats] using mem_floatsList.2 ⟨v, hv, hx⟩)

theorem finite_of_mem_record {values : List TypedValue} (h : (TypedValue.record values).Finite) :
    ∀ v ∈ values, v.Finite := by
  intro v hv x hx
  exact h x (by simpa [TypedValue.floats] using mem_floatsList.2 ⟨v, hv, hx⟩)

theorem finite_of_mem_indexMap {entries : List (TypedValue × TypedValue)}
    (h : (TypedValue.indexMap entries).Finite) : ∀ e ∈ entries, e.1.Finite ∧ e.2.Finite := by
  intro e he
  refine ⟨fun x hx => h x ?_, fun x hx => h x ?_⟩ <;>
    simpa [TypedValue.floats] using mem_floatsEntries.2 ⟨e, he, by simp [hx]⟩

end Floats

/-! ## What null and strings stand for -/

section Standing

variable {ts : TypeSystem}

theorem native_none (s : Shape) : native ts s .none = .unit := by
  cases s <;> simp [native]

/-- Null stands only for `None`, or for a float that is not finite. -/
theorem native_of_jsonOf_null : (v : TypedValue) → (s : Shape) → JsonOf ts s v .null → v.Finite →
    native ts s v = .unit
  | .float x, s, h, hfin => by
    have hx : x.isFinite = true := hfin x (by simp [TypedValue.floats])
    cases s <;> simp_all [JsonOf]
  | .some x, s, h, hfin => by
    cases s with
    | option s' =>
      simp only [JsonOf] at h
      simpa [native] using native_of_jsonOf_null x s' h (finite_some hfin)
    | _ => simp [JsonOf] at h
  | .wrapped x, s, h, hfin => by
    cases s with
    | declared name =>
      simp only [JsonOf] at h
      obtain ⟨t, s', ht, hs', hx⟩ := h
      simp [native, ht, hs', native_of_jsonOf_null x s' hx (finite_wrapped hfin)]
    | _ => simp [JsonOf] at h
  | .none, s, _, _ => native_none s
  | .bool _, s, h, _ | .int _, s, h, _ | .string _, s, h, _ | .bytes _, s, h, _
  | .link _, s, h, _ | .vec _, s, h, _ | .indexMap _, s, h, _ | .record _, s, h, _
  | .variant _ _, s, h, _ | .member _, s, h, _ => by cases s <;> simp_all [JsonOf]

/-- Of a finite value, only an option stands as null. -/
theorem isOption_of_jsonOf_null : (v : TypedValue) → (s : Shape) → JsonOf ts s v .null → v.Finite →
    s.isOption = true
  | .float x, s, h, hfin => by
    have hx : x.isFinite = true := hfin x (by simp [TypedValue.floats])
    cases s <;> simp_all [JsonOf]
  | .wrapped x, s, h, hfin => by
    cases s with
    | declared name =>
      simp only [JsonOf] at h
      obtain ⟨t, s', ht, hs', hx⟩ := h
      have := isOption_of_jsonOf_null x s' hx (finite_wrapped hfin)
      simp [(wrapperShape_simple hs').2] at this
    | _ => simp_all [JsonOf]
  | .none, s, h, _ | .some _, s, h, _ | .bool _, s, h, _ | .int _, s, h, _ | .string _, s, h, _
  | .bytes _, s, h, _ | .link _, s, h, _ | .vec _, s, h, _ | .indexMap _, s, h, _
  | .record _, s, h, _ | .variant _ _, s, h, _ | .member _, s, h, _ => by
    cases s <;> simp_all [JsonOf, Shape.isOption]

theorem not_jsonOf_ofRef_null {r : Ref} {v : TypedValue} (h : JsonOf ts (Shape.ofRef r) v .null)
    (hfin : v.Finite) : False := by
  have := isOption_of_jsonOf_null v _ h hfin
  simp [(Shape.ofRef_simple r).2] at this

/-- A JSON string stands for a text or an enum member: its placeholder is that text or the
member's bare variant. -/
theorem native_of_jsonOf_string : (v : TypedValue) → (s : Shape) → (key : String) →
    JsonOf ts s v (.string key) → native ts s v = .text key ∨ native ts s v = .bareVariant key
  | .string _, s, key, h | .link _, s, key, h => by cases s <;> simp_all [JsonOf, native]
  | .some x, s, key, h => by
    cases s with
    | option s' =>
      simp only [JsonOf] at h
      simpa [native] using native_of_jsonOf_string x s' key h
    | _ => simp [JsonOf] at h
  | .wrapped x, s, key, h => by
    cases s with
    | declared name =>
      simp only [JsonOf] at h
      obtain ⟨t, s', ht, hs', hx⟩ := h
      simpa [native, ht, hs'] using native_of_jsonOf_string x s' key hx
    | _ => simp [JsonOf] at h
  | .member i, s, key, h => by
    cases s with
    | declared name =>
      simp only [JsonOf] at h
      obtain ⟨members, strategy, hget, -, rfl⟩ := h
      simp [native, hget]
    | _ => simp [JsonOf] at h
  | .float _, s, key, h | .none, s, key, h | .bool _, s, key, h | .int _, s, key, h
  | .bytes _, s, key, h | .vec _, s, key, h | .indexMap _, s, key, h | .record _, s, key, h
  | .variant _ _, s, key, h => by cases s <;> simp_all [JsonOf]

/-- Below an option, a value that does not stand as null is `Some`. -/
theorem jsonOf_optionIf {n : Bool} {s : Shape} {v : TypedValue} {j : Json}
    (h : JsonOf ts (Shape.optionIf n s) v j) (hj : j ≠ .null) :
    ∃ x, JsonOf ts s x j ∧ native ts (Shape.optionIf n s) v = native ts s x ∧
      (v.Finite → x.Finite) := by
  cases n with
  | false => exact ⟨v, h, rfl, id⟩
  | true =>
    cases v with
    | none => simp_all [Shape.optionIf, JsonOf]
    | some x => exact ⟨x, by simpa [Shape.optionIf, JsonOf] using h, by simp [Shape.optionIf, native],
        finite_some⟩
    | _ => simp [Shape.optionIf, JsonOf] at h

/-- A struct field that does not stand as null holds a value of the field's type. -/
theorem jsonOf_ofField {f : StructField} {v : TypedValue} {j : Json}
    (h : JsonOf ts (Shape.ofField f) v j) (hj : j ≠ .null) :
    ∃ x, JsonOf ts (Shape.ofRef f.type) x j ∧ native ts (Shape.ofField f) v = native ts (Shape.ofRef f.type) x ∧
      (v.Finite → x.Finite) := by
  obtain ⟨y, hy, hny, hfy⟩ := jsonOf_optionIf h hj
  obtain ⟨x, hx, hnx, hfx⟩ := jsonOf_optionIf hy hj
  exact ⟨x, hx, hny.trans hnx, hfx ∘ hfy⟩

end Standing

/-! ## Fields and entries in order -/

section Lists

variable {ts : TypeSystem}

theorem nativeFields_absent {f : StructField} {fields : List StructField} {values : List TypedValue}
    (h : f.optional = true) :
    nativeFields ts (f :: fields) (.none :: values) = nativeFields ts fields values := by
  simp [nativeFields, h]

theorem nativeFields_present {f : StructField} {fields : List StructField} {v : TypedValue}
    {values : List TypedValue} (h : ¬(f.optional = true ∧ v = .none)) :
    nativeFields ts (f :: fields) (v :: values) =
      (f.name, native ts (Shape.ofField f) v) :: nativeFields ts fields values := by
  cases v <;> simp_all [nativeFields, native_none]

/-- The names a struct's JSON object holds are the names of the fields its placeholder
keeps. -/
theorem fieldsJson_names : ∀ {fields : List StructField} {values : List TypedValue}
    {js : List (String × Json)}, FieldsJson ts fields values js →
    js.map (·.1) = (nativeFields ts fields values).map (·.1)
  | [], [], js, h => by simp_all [FieldsJson, nativeFields]
  | f :: fields, v :: values, js, h => by
    simp only [FieldsJson] at h
    rcases h with ⟨hopt, rfl, h⟩ | ⟨hpresent, j, rest, rfl, -, h⟩
    · rw [nativeFields_absent hopt]
      exact fieldsJson_names h
    · rw [nativeFields_present hpresent]
      simp [fieldsJson_names h]
  | [], _ :: _, _, h | _ :: _, [], _, h => by simp [FieldsJson] at h

theorem nativeFields_names_sublist : ∀ (fields : List StructField) (values : List TypedValue),
    ((nativeFields ts fields values).map (·.1)).Sublist (fields.map (·.name))
  | [], _ => by simp [nativeFields]
  | _ :: _, [] => by simp [nativeFields]
  | f :: fields, v :: values => by
    by_cases h : f.optional = true ∧ v = .none
    · obtain ⟨hopt, rfl⟩ := h
      rw [nativeFields_absent hopt]
      exact (nativeFields_names_sublist fields values).cons _
    · rw [nativeFields_present h]
      exact (nativeFields_names_sublist fields values).cons_cons _

/-- A fold that appends one result per element, each under a key not yet there. -/
theorem foldlM_eq_append {α K V ε : Type} {step : List (K × V) → α → Except ε (List (K × V))} :
    ∀ {l : List α} {R : List (K × V)} (acc : List (K × V)),
      List.Forall₂ (fun a r => ∀ acc', r.1 ∉ acc'.map (·.1) → step acc' a = .ok (acc' ++ [r])) l R →
      ((acc ++ R).map (·.1)).Nodup → l.foldlM step acc = .ok (acc ++ R)
  | [], [], acc, _, _ => by rw [List.append_nil]; rfl
  | a :: l, r :: R, acc, .cons hr hrest, hnd => by
    have hfresh : r.1 ∉ acc.map (·.1) := by
      intro hmem
      simp only [List.map_append, List.map_cons] at hnd
      exact (List.nodup_append.1 hnd).2.2 _ hmem _ (by simp) rfl
    have hnd' : (((acc ++ [r]) ++ R).map (·.1)).Nodup := by simpa using hnd
    rw [List.foldlM_cons, hr acc hfresh, Repr.ok_bind, foldlM_eq_append (acc ++ [r]) hrest hnd']
    simp

/-- A `mapM` over numbered items whose every step succeeds, whatever the number. -/
theorem mapM_zipIdx_eq_ok {α β ε : Type} {f : α × Nat → Except ε β} :
    ∀ {l : List α} {R : List β} (n : Nat), List.Forall₂ (fun a r => ∀ i, f (a, i) = .ok r) l R →
      (l.zipIdx n).mapM f = .ok R
  | [], [], _, _ => rfl
  | a :: l, r :: R, n, .cons hr hrest => by
    rw [List.zipIdx_cons, List.mapM_cons, hr n, Repr.ok_bind, mapM_zipIdx_eq_ok (n + 1) hrest]
    rfl

theorem lookup_map_some {β γ : Type} (f : β → γ) (k : String) :
    ∀ l : List (String × β), (l.map fun p => (p.1, f p.2)).lookup k = (l.lookup k).map f
  | [] => rfl
  | (k', b) :: rest => by
    simp only [List.map_cons, List.lookup_cons]
    cases k == k' <;> simp [lookup_map_some f k rest]

end Lists

/-! ## Scalars -/

theorem signed64_of_inInt64 (path : Json.Path) {i : Int} (h : Decimal.inInt64 i = true) :
    signed64 path (.int i) = .ok (.int i) := by
  have e63 : Int.pow 2 63 = 9223372036854775808 := by decide
  simp only [Decimal.inInt64, decide_eq_true_eq, e63] at h
  unfold signed64 unexpectedOf.numberOfInt
  by_cases h0 : 0 ≤ i
  · have h2 : i.toNat < 9223372036854775808 := by omega
    simp [h0, show i < 18446744073709551616 by omega, h2, Int.toNat_of_nonneg h0]
  · simp [h0, h.1, show i < 0 by omega]

theorem numberOfInt_of_lt {i : Int} (h0 : 0 ≤ i) (h : i < 256) :
    unexpectedOf.numberOfInt i = .unsigned i.toNat := by
  have e64 : Int.pow 2 64 = 18446744073709551616 := by decide
  unfold unexpectedOf.numberOfInt
  rw [e64, if_pos ⟨h0, by omega⟩]

theorem byteOfJson_of_lt (path : Json.Path) {i : Int} (h0 : 0 ≤ i) (h : i < 256) :
    byteOfJson path (.int i) = .ok (.int i) := by
  have hn : i.toNat < 256 := by omega
  simp only [byteOfJson, numberOfInt_of_lt h0 h, hn, ↓reduceIte, Int.toNat_of_nonneg h0]

/-- The bytes of a placeholder are read back from their JSON array of integers. -/
theorem mapM_byteOfJson (path : Json.Path) (bs : List UInt8) :
    ((bs.map fun b => Json.int b.toNat).zipIdx 0).mapM (fun p => byteOfJson (atIndex path p.2) p.1) =
      .ok (bs.map fun b => NativeValue.int b.toNat) := by
  refine mapM_zipIdx_eq_ok 0 ?_
  rw [List.forall₂_map_left_iff, List.forall₂_map_right_iff]
  refine List.forall₂_same.2 fun b _ i => ?_
  exact byteOfJson_of_lt _ (by omega) (by have := b.toNat_lt; omega)

/-! ## Reading at every sufficient fuel -/

/-- Reading at fuel `k` gives the placeholder of every finite value a JSON value stands
for, when the fuel covers six steps per unit of the JSON value's weight and the steps the
shape takes first. -/
def Reads (ts : TypeSystem) (k : Nat) : Prop :=
  ∀ (s : Shape) (v : TypedValue) (j : Json) (path : Json.Path), s.Simple → JsonOf ts s v j →
    v.Finite → 6 * j.weight + s.steps ≤ k → placeholderOfJson ts k path s j = .ok (native ts s v)

section Field

variable {ts : TypeSystem}

theorem fieldOfJson_of_ne_null {k : Nat} {path : Json.Path} {f : StructField} {j : Json}
    (h : j ≠ .null) :
    fieldOfJson ts (k + 1) path f j = (placeholderOfJson ts k path (Shape.ofRef f.type) j).map some := by
  cases j <;> simp_all [fieldOfJson]

/-- A present field is read as the placeholder of its value. Null is read by the field's
flags alone; of a finite value it stands only for `None` below a nullable field. -/
theorem reads_field {k : Nat} (ih : Reads ts k) {path : Json.Path} {f : StructField}
    {v : TypedValue} {j : Json} (hj : JsonOf ts (Shape.ofField f) v j) (hfin : v.Finite)
    (hpresent : ¬(f.optional = true ∧ v = .none)) (hk : 6 * j.weight + 2 ≤ k) :
    fieldOfJson ts (k + 1) path f j = .ok (some (native ts (Shape.ofField f) v)) := by
  by_cases hnull : j = .null
  · subst hnull
    cases hnullable : f.nullable
    · exfalso
      cases hopt : f.optional
      · simp only [Shape.ofField, Shape.ofFieldValue, hopt, hnullable, Shape.optionIf,
          Bool.false_eq_true, ↓reduceIte] at hj
        exact not_jsonOf_ofRef_null hj hfin
      · cases v with
        | none => exact hpresent ⟨hopt, rfl⟩
        | some x =>
          simp only [Shape.ofField, Shape.ofFieldValue, hopt, hnullable, Shape.optionIf,
            Bool.false_eq_true, ↓reduceIte, JsonOf] at hj
          exact not_jsonOf_ofRef_null hj (finite_some hfin)
        | _ => simp [Shape.ofField, Shape.ofFieldValue, hopt, hnullable, Shape.optionIf, JsonOf] at hj
    · simp [fieldOfJson, hnullable, native_of_jsonOf_null v _ hj hfin]
  · obtain ⟨x, hx, hnx, hfx⟩ := jsonOf_ofField hj hnull
    have hsteps := Shape.steps_le_two (Shape.ofRef_simple f.type).2
    rw [fieldOfJson_of_ne_null hnull, hnx,
      ih _ x j path (Shape.ofRef_simple f.type).1 hx (hfx hfin) (by omega)]
    rfl

end Field

/-! ## Struct fields by name -/

section Fields

variable {ts : TypeSystem}

theorem fieldsJson_length : ∀ {fields : List StructField} {values : List TypedValue}
    {js : List (String × Json)}, FieldsJson ts fields values js → fields.length = values.length
  | [], [], _, _ => rfl
  | _ :: _, _ :: _, js, h => by
    simp only [FieldsJson] at h
    rcases h with ⟨-, -, h⟩ | ⟨-, j, rest, -, -, h⟩ <;> simp [fieldsJson_length h]
  | [], _ :: _, _, h | _ :: _, [], _, h => by simp [FieldsJson] at h

/-- The placeholder of a struct keeps each present field under its name. -/
theorem lookup_nativeFields : ∀ {fields : List StructField} {values : List TypedValue}
    {f : StructField} {v : TypedValue}, (fields.map (·.name)).Nodup → (f, v) ∈ fields.zip values →
    (nativeFields ts fields values).lookup f.name =
      if f.optional = true ∧ v = .none then none else some (native ts (Shape.ofField f) v)
  | g :: fields, w :: values, f, v, hnames, hmem => by
    simp only [List.map_cons, List.nodup_cons] at hnames
    have hrest : f.name ∉ (nativeFields ts fields values).map (·.1) → 
        (nativeFields ts fields values).lookup f.name = none := by
      intro hnot
      refine List.lookup_eq_none_iff.2 fun p hp => ?_
      simp only [bne_iff_ne, ne_eq]
      intro h
      apply hnot
      rw [h]
      exact List.mem_map_of_mem hp
    rcases List.mem_cons.1 (List.zip_cons_cons ▸ hmem) with heq | hmem
    · obtain ⟨rfl, rfl⟩ := Prod.mk.inj heq
      have hnot : f.name ∉ (nativeFields ts fields values).map (·.1) :=
        fun h => hnames.1 ((nativeFields_names_sublist fields values).subset h)
      by_cases h : f.optional = true ∧ v = .none
      · rw [if_pos h]
        obtain ⟨hopt, rfl⟩ := h
        rw [nativeFields_absent hopt, hrest hnot]
      · rw [nativeFields_present h, if_neg h]
        simp
    · have hne : g.name ≠ f.name := by
        intro h
        exact hnames.1 (h ▸ List.mem_map_of_mem (List.of_mem_zip hmem).1)
      have ih := lookup_nativeFields hnames.2 hmem
      by_cases h : g.optional = true ∧ w = .none
      · obtain ⟨hopt, rfl⟩ := h
        rw [nativeFields_absent hopt, ih]
      · have hbeq : (f.name == g.name) = false := by simpa using Ne.symm hne
        rw [nativeFields_present h, List.lookup_cons, hbeq, ih]
  | [], _, _, _, _, hmem | _ :: _, [], _, _, _, hmem => by simp at hmem

/-- The fields read one by one: every present field is read under its name. -/
theorem forall₂_fieldsJson {k : Nat} (ih : Reads ts k) (path : Json.Path)
    {fields : List StructField}
    {step : List (String × Option NativeValue) → String × Json →
      Except Json.Failure (List (String × Option NativeValue))}
    (hstep : ∀ f ∈ fields, ∀ (j : Json) acc o, f.name ∉ acc.map (·.1) →
      fieldOfJson ts (k + 1) (atKey path f.name) f j = .ok o → step acc (f.name, j) = .ok (acc ++ [(f.name, o)])) :
    ∀ {fs : List StructField} {vs : List TypedValue} {js : List (String × Json)},
      (∀ f ∈ fs, f ∈ fields) → FieldsJson ts fs vs js → (∀ v ∈ vs, v.Finite) →
      6 * Json.weightEntries js + 2 ≤ k →
      List.Forall₂ (fun a r => ∀ acc', r.1 ∉ acc'.map (·.1) → step acc' a = .ok (acc' ++ [r])) js
        ((nativeFields ts fs vs).map fun p => (p.1, some p.2))
  | [], [], js, _, h, _, _ => by simp_all [FieldsJson, nativeFields]
  | f :: fs, v :: vs, js, hsub, h, hfin, hk => by
    have hsub' : ∀ g ∈ fs, g ∈ fields := fun g hg => hsub g (List.mem_cons_of_mem f hg)
    have hfin' : ∀ w ∈ vs, w.Finite := fun w hw => hfin w (List.mem_cons_of_mem v hw)
    simp only [FieldsJson] at h
    rcases h with ⟨hopt, rfl, h⟩ | ⟨hpresent, j, rest, rfl, hj, h⟩
    · rw [nativeFields_absent hopt]
      exact forall₂_fieldsJson ih path hstep hsub' h hfin' hk
    · rw [nativeFields_present hpresent, List.map_cons]
      simp only [Json.weightEntries] at hk
      refine List.Forall₂.cons (fun acc hfresh => ?_) (forall₂_fieldsJson ih path hstep hsub' h hfin' (by omega))
      exact hstep f (hsub f List.mem_cons_self) j acc _ hfresh
        (reads_field ih hj (hfin v List.mem_cons_self) hpresent (by omega))
  | [], _ :: _, _, _, h, _, _ | _ :: _, [], _, _, h, _, _ => by simp [FieldsJson] at h

/-- The fields looked up after reading: each present field gives its placeholder and each
absent one, optional, gives nothing. -/
theorem mapM_fields {ε : Type} {g : StructField → Except ε (Option (String × NativeValue))} :
    ∀ {fields : List StructField} {values : List TypedValue}, fields.length = values.length →
      (∀ p ∈ fields.zip values, (p.1.optional = true ∧ p.2 = .none ∧ g p.1 = .ok none) ∨
        (¬(p.1.optional = true ∧ p.2 = .none) ∧
          g p.1 = .ok (some (p.1.name, native ts (Shape.ofField p.1) p.2)))) →
      ∃ os, fields.mapM g = .ok os ∧ os.reduceOption = nativeFields ts fields values
  | [], [], _, _ => ⟨[], rfl, rfl⟩
  | f :: fields, v :: values, hlen, hg => by
    have ih : ∃ os, fields.mapM g = .ok os ∧ os.reduceOption = nativeFields ts fields values :=
      mapM_fields (by simpa using hlen) (fun p hp => hg p (by simp [hp]))
    obtain ⟨os, hos, hred⟩ := ih
    rcases hg (f, v) (by simp) with ⟨hopt, rfl, hf⟩ | ⟨hpresent, hf⟩
    · refine ⟨none :: os, ?_, by simp [hred, nativeFields_absent hopt]⟩
      rw [List.mapM_cons, hf, Repr.ok_bind, hos, Repr.ok_bind]
      rfl
    · refine ⟨some (f.name, native ts (Shape.ofField f) v) :: os, ?_, ?_⟩
      · rw [List.mapM_cons, hf, Repr.ok_bind, hos, Repr.ok_bind]
        rfl
      · simp [hred, nativeFields_present hpresent]
  | [], _ :: _, hlen, _ | _ :: _, [], hlen, _ => by simp at hlen

theorem mapM_fields_record {ε : Type} {g : StructField → Except ε (Option (String × NativeValue))}
    {fields : List StructField} {values : List TypedValue} (hlen : fields.length = values.length)
    (hg : ∀ p ∈ fields.zip values, (p.1.optional = true ∧ p.2 = .none ∧ g p.1 = .ok none) ∨
      (¬(p.1.optional = true ∧ p.2 = .none) ∧
        g p.1 = .ok (some (p.1.name, native ts (Shape.ofField p.1) p.2)))) :
    (fields.mapM g >>= fun os => pure (NativeValue.record os.reduceOption)) =
      (.ok (.record (nativeFields ts fields values)) : Except ε NativeValue) := by
  obtain ⟨os, hos, hred⟩ := mapM_fields hlen hg
  rw [hos, Repr.ok_bind, hred]
  rfl

/-- A struct is read from an object holding its present fields: each read under its name,
then the fields looked up in order. -/
theorem reads_record {k : Nat} (ih : Reads ts k) {path : Json.Path} {fields : List StructField}
    {values : List TypedValue} {js : List (String × Json)} (hnames : (fields.map (·.name)).Nodup)
    (hjs : FieldsJson ts fields values js) (hfin : ∀ v ∈ values, v.Finite)
    (hk : 6 * Json.weightEntries js + 2 ≤ k) :
    recordOfEntries ts (k + 2) path fields js = .ok (.record (nativeFields ts fields values)) := by
  have hkeys : (((nativeFields ts fields values).map fun p => (p.1, some p.2)).map (·.1)).Nodup := by
    rw [List.map_map]
    exact (nativeFields_names_sublist fields values).nodup hnames
  rw [recordOfEntries, foldlM_eq_append [] (forall₂_fieldsJson ih path ?_ (fun f hf => hf) hjs hfin hk)
    (by simpa using hkeys), List.nil_append, Repr.ok_bind]
  · refine mapM_fields_record (fieldsJson_length hjs) ?_
    rintro ⟨f, v⟩ hp
    have hlookup : (nativeFields ts fields values).lookup f.name = _ := lookup_nativeFields hnames hp
    rw [lookup_map_some, hlookup]
    by_cases h : f.optional = true ∧ v = .none
    · refine .inl ⟨h.1, h.2, ?_⟩
      rw [if_pos h]
      simp only [Option.map_none, h.1, ↓reduceIte]
      rfl
    · refine .inr ⟨h, ?_⟩
      rw [if_neg h]
      rfl
  · intro f hf j acc o hfresh hread
    have hany : acc.any (·.1 == f.name) = false := by
      refine List.any_eq_false.2 fun p hp h => hfresh ?_
      rw [← beq_iff_eq.1 h]
      exact List.mem_map_of_mem hp
    simp only [find?_key (·.name) hnames hf, hany, hread, Bool.false_eq_true, ↓reduceIte,
      Repr.ok_bind]
    rfl

end Fields

/-! ## Lists and maps -/

section Containers

variable {ts : TypeSystem}

/-- The items of a list are read one by one, each at its index. -/
theorem forall₂_items {k : Nat} (ih : Reads ts k) (path : Json.Path) {item : Shape}
    (hitem : item.Simple) {f : Json × Nat → Except Json.Failure NativeValue}
    (hf : ∀ j i, f (j, i) = placeholderOfJson ts k (atIndex path i) item j) :
    ∀ {items : List TypedValue} {js : List Json}, ItemsJson ts item items js →
      (∀ v ∈ items, v.Finite) → 6 * Json.weightList js + 3 ≤ k →
      List.Forall₂ (fun j r => ∀ i, f (j, i) = .ok r) js (nativeList ts item items)
  | [], js, h, _, _ => by simp_all [ItemsJson, nativeList]
  | v :: items, j :: js, h, hfin, hk => by
    simp only [ItemsJson] at h
    simp only [Json.weightList] at hk
    have hsteps := Shape.steps_le_three hitem
    refine List.Forall₂.cons (fun i => ?_) (forall₂_items ih path hitem hf h.2
      (fun w hw => hfin w (List.mem_cons_of_mem v hw)) (by omega))
    rw [hf]
    exact ih item v j _ hitem h.1 (hfin v List.mem_cons_self) (by omega)
  | _ :: _, [], h, _, _ => by simp [ItemsJson] at h

/-- An entry not yet in a map is added at its end. -/
theorem insertEntry_fresh {entries : List (NativeValue × NativeValue)} {k v : NativeValue}
    (h : k ∉ entries.map (·.1)) : insertEntry entries k v = entries ++ [(k, v)] := by
  have hany : entries.any (·.1 == k) = false := by
    refine List.any_eq_false.2 fun p hp hk => h ?_
    rw [← beq_iff_eq.1 hk]
    exact List.mem_map_of_mem hp
  simp [insertEntry, hany]

/-- The keys of a map's placeholder are the texts or bare variants of the JSON keys. -/
theorem keys_nativeEntries {kk w : Shape} : ∀ {entries : List (TypedValue × TypedValue)}
    {js : List (String × Json)}, EntriesJson ts kk w entries js →
    ∀ x ∈ (nativeEntries ts kk w entries).map (·.1), ∃ key ∈ js.map (·.1),
      x = .text key ∨ x = .bareVariant key
  | [], js, _ => by simp [nativeEntries]
  | (a, b) :: entries, (key, j) :: js, h => by
    simp only [EntriesJson] at h
    intro x hx
    simp only [nativeEntries, List.map_cons, List.mem_cons] at hx
    rcases hx with rfl | hx
    · exact ⟨key, by simp, native_of_jsonOf_string a kk key h.1⟩
    · obtain ⟨key', hkey', hx'⟩ := keys_nativeEntries h.2.2 x hx
      exact ⟨key', by simp [hkey'], hx'⟩
  | _ :: _, [], h => by simp [EntriesJson] at h

/-- A JSON object holds each key once, so the keys of the placeholder read from it are
distinct. -/
theorem nativeEntries_keys_nodup {kk w : Shape} : ∀ {entries : List (TypedValue × TypedValue)}
    {js : List (String × Json)}, EntriesJson ts kk w entries js → (js.map (·.1)).Nodup →
    ((nativeEntries ts kk w entries).map (·.1)).Nodup
  | [], js, _, _ => by simp [nativeEntries]
  | (a, b) :: entries, (key, j) :: js, h, hnd => by
    simp only [EntriesJson] at h
    simp only [List.map_cons, List.nodup_cons] at hnd
    simp only [nativeEntries, List.map_cons, List.nodup_cons]
    refine ⟨fun hmem => ?_, nativeEntries_keys_nodup h.2.2 hnd.2⟩
    obtain ⟨key', hkey', hx⟩ := keys_nativeEntries h.2.2 _ hmem
    have : key = key' := by
      rcases native_of_jsonOf_string a kk key h.1 with ha | ha <;> rw [ha] at hx <;>
        rcases hx with hx | hx <;> simp_all
    exact hnd.1 (this ▸ hkey')
  | _ :: _, [], h, _ => by simp [EntriesJson] at h

/-- The entries of a map are read one by one, each added at the end. -/
theorem forall₂_entries {k : Nat} (ih : Reads ts k) (path : Json.Path) {kk w : Shape}
    (hkk : kk.Simple) (hw : w.Simple)
    {step : List (NativeValue × NativeValue) → String × Json →
      Except Json.Failure (List (NativeValue × NativeValue))}
    (hstep : ∀ key j acc kv vv, kv ∉ acc.map (·.1) →
      placeholderOfJson ts k (atKey path key) kk (.string key) = .ok kv →
      placeholderOfJson ts k (atKey path key) w j = .ok vv →
      step acc (key, j) = .ok (acc ++ [(kv, vv)])) :
    ∀ {entries : List (TypedValue × TypedValue)} {js : List (String × Json)},
      EntriesJson ts kk w entries js → (∀ e ∈ entries, e.1.Finite ∧ e.2.Finite) →
      6 * Json.weightEntries js + 5 ≤ k →
      List.Forall₂ (fun a r => ∀ acc', r.1 ∉ acc'.map (·.1) → step acc' a = .ok (acc' ++ [r])) js
        (nativeEntries ts kk w entries)
  | [], js, h, _, _ => by simp_all [EntriesJson, nativeEntries]
  | (a, b) :: entries, (key, j) :: js, h, hfin, hk => by
    simp only [EntriesJson] at h
    simp only [Json.weightEntries] at hk
    have hj := Json.weight_pos j
    have hkk3 := Shape.steps_le_three hkk
    have hw3 := Shape.steps_le_three hw
    have hab := hfin (a, b) List.mem_cons_self
    refine List.Forall₂.cons (fun acc hfresh => hstep key j acc _ _ hfresh ?_ ?_)
      (forall₂_entries ih path hkk hw hstep h.2.2 (fun e he => hfin e (List.mem_cons_of_mem _ he))
        (by omega))
    · exact ih kk a (.string key) _ hkk h.1 hab.1 (by simp only [Json.weight]; omega)
    · exact ih w b j _ hw h.2.1 hab.2 (by omega)
  | _ :: _, [], h, _, _ => by simp [EntriesJson] at h

end Containers

/-! ## Declared types -/

section Declared

variable {ts : TypeSystem}

theorem placeholderOfJson_option_of_ne_null {k : Nat} {path : Json.Path} {s : Shape} {j : Json}
    (h : j ≠ .null) : placeholderOfJson ts (k + 1) path (.option s) j = placeholderOfJson ts k path s j := by
  cases j <;> simp_all [placeholderOfJson]

theorem declaredOfJson_wrapped {k : Nat} {path : Json.Path} {name : String} {t : SchemaType}
    {s : Shape} {j : Json} (h : wrapperShape t = some s) :
    declaredOfJson ts (k + 1) path name t j = placeholderOfJson ts k path s j := by
  cases t <;> simp_all [wrapperShape, declaredOfJson]

theorem nth_mem {α : Type} [Inhabited α] {xs : List α} {i : Nat} (h : i < xs.length) : nth xs i ∈ xs := by
  simp [nth, List.getElem?_eq_getElem h]

theorem placeholderOfJson_declared {k : Nat} {path : Json.Path} {name : String} {t : SchemaType}
    {j : Json} (h : ts.get? name = some t) :
    placeholderOfJson ts (k + 1) path (.declared name) j = declaredOfJson ts k path name t j := by
  cases j <;> simp [placeholderOfJson, h]

/-- An option reads null as `None` and anything else as its inner shape. -/
theorem reads_option {k : Nat} (ih : Reads ts k) {path : Json.Path} {s : Shape} {v : TypedValue}
    {j : Json} (hs : (Shape.option s).Simple) (hj : JsonOf ts (.option s) v j) (hfin : v.Finite)
    (hk : 6 * j.weight + (Shape.option s).steps ≤ k + 1) :
    placeholderOfJson ts (k + 1) path (.option s) j = .ok (native ts (.option s) v) := by
  by_cases hnull : j = .null
  · subst hnull
    simp [placeholderOfJson, native_of_jsonOf_null v _ hj hfin]
  · obtain ⟨x, hx, hnx, hfx⟩ := jsonOf_optionIf (n := true) hj hnull
    simp only [Shape.steps] at hk
    rw [placeholderOfJson_option_of_ne_null hnull]
    exact (ih s x j path hs.2 hx (hfx hfin) (by omega)).trans (congrArg Except.ok hnx.symm)

/-- A declared type is read by its definition: the wrapped shape, the struct's fields, the
union member named by the object's one key, or the enum member named by the string. -/
theorem reads_declared
    (hnames : ∀ name fields strategy, ts.get? name = some (.struct fields strategy) →
      (fields.map (·.name)).Nodup)
    (hmembers : ∀ name members strategy, ts.get? name = some (.union members strategy) →
      (members.map (·.type)).Nodup)
    {k : Nat} (ih : ∀ m ≤ k + 2, Reads ts m) {path : Json.Path} {name : String} {v : TypedValue}
    {j : Json} (hj : JsonOf ts (.declared name) v j) (hfin : v.Finite)
    (hk : 6 * j.weight + 2 ≤ k + 4) :
    placeholderOfJson ts (k + 4) path (.declared name) j = .ok (native ts (.declared name) v) := by
  cases v with
  | wrapped x =>
    simp only [JsonOf] at hj
    obtain ⟨t, s, ht, hs, hx⟩ := hj
    rw [placeholderOfJson_declared ht, declaredOfJson_wrapped hs]
    simp only [native, ht, Option.bind_some, hs]
    exact ih (k + 2) le_rfl s x j path (wrapperShape_simple hs).1 hx (finite_wrapped hfin)
      (by rw [wrapperShape_steps hs]; omega)
  | record values =>
    cases j with
    | object js =>
      simp only [JsonOf] at hj
      obtain ⟨fields, strategy, ht, hfields⟩ := hj
      simp only [Json.weight] at hk
      rw [placeholderOfJson_declared ht]
      simp only [declaredOfJson, native, ht]
      exact reads_record (ih k (by omega)) (hnames name fields strategy ht) hfields
        (finite_of_mem_record hfin) (by omega)
    | _ => simp [JsonOf] at hj
  | variant i x =>
    cases j with
    | object js =>
      rcases js with _ | ⟨⟨key, jv⟩, _ | ⟨_, _⟩⟩
      · simp [JsonOf] at hj
      · simp only [JsonOf] at hj
        obtain ⟨members, strategy, ht, hi, rfl, hx⟩ := hj
        have hfind : unionMember? members (nth members i).type = some (nth members i) := by
          unfold unionMember?
          exact find?_key (·.type) (hmembers name members strategy ht) (nth_mem hi)
        simp only [Json.weight, Json.weightEntries] at hk
        have hread := ih (k + 2) le_rfl _ x jv (atKey path (nth members i).type)
          (Shape.ofName_simple _).1 hx (finite_variant hfin)
          (by have := Shape.steps_le_two (Shape.ofName_simple (nth members i).type).2; omega)
        rw [placeholderOfJson_declared ht]
        simp only [declaredOfJson, hfind, hread, native, ht]
        rfl
      · simp [JsonOf] at hj
    | _ => simp [JsonOf] at hj
  | member i =>
    cases j with
    | string s =>
      simp only [JsonOf] at hj
      obtain ⟨members, strategy, ht, hi, rfl⟩ := hj
      have hcontains : (members.map (·.name)).contains (nth members i).name = true := by
        simpa using ⟨nth members i, nth_mem hi, rfl⟩
      rw [placeholderOfJson_declared ht]
      simp only [declaredOfJson, hcontains, ↓reduceIte, native, ht]
    | _ => simp [JsonOf] at hj
  | bool _ | int _ | float _ | string _ | bytes _ | link _ | none | some _ | vec _
  | indexMap _ => simp [JsonOf] at hj

end Declared

/-! ## Objects with each key once -/

section Collapse

open Json

/-- Collapsing a list whose keys are distinct changes nothing. -/
theorem collapseEntries_of_nodup {es : List (String × Json)} (h : (es.map (·.1)).Nodup) :
    collapseEntries es = es := by
  induction es using List.reverseRecOn with
  | nil => rfl
  | append_singleton es e ih =>
    obtain ⟨k, v⟩ := e
    rw [List.map_append, List.nodup_append] at h
    obtain ⟨hes, -, hk⟩ := h
    have hfresh : (es.any fun e => e.1 == k) = false := by
      simp only [List.any_eq_false, beq_iff_eq]
      intro e he hek
      exact hk e.1 (List.mem_map.2 ⟨e, he, rfl⟩) k (by simp) hek
    simp only [collapseEntries] at ih ⊢
    rw [List.foldl_append, ih hes]
    simp [hfresh]

/-- Collapsing keeps each key once, each entry one of the list's. -/
theorem collapseEntries_nodup_sub (es : List (String × Json)) :
    ((collapseEntries es).map (·.1)).Nodup ∧ ∀ p ∈ collapseEntries es, p ∈ es := by
  induction es using List.reverseRecOn with
  | nil => simp [collapseEntries]
  | append_singleton es e ih =>
    obtain ⟨k, v⟩ := e
    obtain ⟨hnd, hsub⟩ := ih
    simp only [collapseEntries] at hnd hsub ⊢
    rw [List.foldl_append]
    simp only [List.foldl_cons, List.foldl_nil]
    split
    · refine ⟨?_, fun p hp => ?_⟩
      · rw [List.map_map]
        convert hnd using 1
        refine List.map_congr_left fun e _ => ?_
        by_cases h : e.1 = k <;> simp [h]
      · obtain ⟨e, he, rfl⟩ := List.mem_map.1 hp
        by_cases h : e.1 = k
        · simp [h]
        · simp only [beq_iff_eq, h, ↓reduceIte]
          exact List.mem_append_left _ (hsub e he)
    · rename_i hnew
      refine ⟨?_, fun p hp => ?_⟩
      · rw [List.map_append, List.nodup_append]
        refine ⟨hnd, by simp, fun a ha b hb heq => ?_⟩
        obtain ⟨e, he, rfl⟩ := List.mem_map.1 ha
        simp only [List.map_cons, List.map_nil, List.mem_singleton] at hb
        subst hb
        exact hnew (List.any_eq_true.2 ⟨e, he, by simp [heq]⟩)
      · rcases List.mem_append.1 hp with hp | hp
        · exact List.mem_append_left _ (hsub p hp)
        · simp_all

theorem collapseListEntries_of_fixed : ∀ {es : List (String × Json)},
    (∀ p ∈ es, p.2.collapse = p.2) → collapseListEntries es = es
  | [], _ => rfl
  | (k, j) :: rest, h => by
    simp only [collapseListEntries, h (k, j) List.mem_cons_self,
      collapseListEntries_of_fixed fun p hp => h p (List.mem_cons_of_mem _ hp)]

mutual

/-- Collapsing twice is collapsing once. -/
theorem collapse_collapse : (j : Json) → j.collapse.collapse = j.collapse
  | .array items => by
    simp only [collapse]
    rw [collapseList_collapseList items]
  | .object es => by
    simp only [collapse]
    obtain ⟨hnd, hsub⟩ := collapseEntries_nodup_sub (collapseListEntries es)
    rw [collapseListEntries_of_fixed fun p hp => fixed_collapseListEntries es p (hsub p hp),
      collapseEntries_of_nodup hnd]
  | .null | .bool _ | .int _ | .float _ | .string _ => rfl

theorem collapseList_collapseList : (items : List Json) →
    collapseList (collapseList items) = collapseList items
  | [] => rfl
  | j :: rest => by simp only [collapseList, collapse_collapse j, collapseList_collapseList rest]

theorem fixed_collapseListEntries : (es : List (String × Json)) →
    ∀ p ∈ collapseListEntries es, p.2.collapse = p.2
  | [] => by simp [collapseListEntries]
  | (k, j) :: rest => by
    intro p hp
    simp only [collapseListEntries, List.mem_cons] at hp
    rcases hp with rfl | hp
    · exact collapse_collapse j
    · exact fixed_collapseListEntries rest p hp

end

end Collapse

/-! ## Reading a placeholder back -/

section Main

variable {ts : TypeSystem}
  (hnames : ∀ name fields strategy, ts.get? name = some (.struct fields strategy) →
    (fields.map (·.name)).Nodup)
  (hmembers : ∀ name members strategy, ts.get? name = some (.union members strategy) →
    (members.map (·.type)).Nodup)
include hnames hmembers

/-- Reading succeeds at every fuel that covers the value; the induction is on the fuel, one
case per shape. -/
theorem reads : ∀ k, Reads ts k := by
  intro k
  induction k using Nat.strong_induction_on with
  | _ k ih =>
  intro s v j path hs hj hfin hk
  have hw := Json.weight_pos j
  cases s with
  | option s =>
    obtain ⟨k, rfl⟩ : ∃ m, k = m + 1 := ⟨k - 1, by simp only [Shape.steps] at hk; omega⟩
    exact reads_option (ih k (by omega)) hs hj hfin hk
  | declared name =>
    obtain ⟨k, rfl⟩ : ∃ m, k = m + 4 := ⟨k - 4, by simp only [Shape.steps] at hk; omega⟩
    exact reads_declared hnames hmembers (fun m hm => ih m (by omega)) hj hfin hk
  | vec item =>
    obtain ⟨k, rfl⟩ : ∃ m, k = m + 1 := ⟨k - 1, by omega⟩
    cases v with
    | vec items =>
      cases j with
      | array js =>
        simp only [JsonOf] at hj
        simp only [Json.weight, Shape.steps] at hk
        simp only [placeholderOfJson, native]
        rw [mapM_zipIdx_eq_ok 0 (forall₂_items (ih k (by omega)) path (show item.Simple from hs)
          (fun _ _ => rfl) hj
          (finite_of_mem_vec hfin) (by omega))]
        rfl
      | _ => simp [JsonOf] at hj
    | _ => simp [JsonOf] at hj
  | indexMap kk w =>
    obtain ⟨k, rfl⟩ : ∃ m, k = m + 1 := ⟨k - 1, by omega⟩
    cases v with
    | indexMap entries =>
      cases j with
      | object js =>
        simp only [JsonOf] at hj
        simp only [Json.weight, Shape.steps] at hk
        simp only [placeholderOfJson, native]
        rw [foldlM_eq_append [] (forall₂_entries (ih k (by omega)) path hs.1 hs.2 ?_ hj.1
          (finite_of_mem_indexMap hfin) (by omega)) (by simpa using nativeEntries_keys_nodup hj.1 hj.2)]
        · rfl
        · intro key j acc kv vv hfresh hkv hvv
          simp only [hkv, hvv, Repr.ok_bind, insertEntry_fresh hfresh]
          rfl
      | _ => simp [JsonOf] at hj
    | _ => simp [JsonOf] at hj
  | bool | string | link =>
    obtain ⟨k, rfl⟩ : ∃ m, k = m + 1 := ⟨k - 1, by omega⟩
    cases v <;> simp only [JsonOf] at hj
    all_goals subst hj; simp [placeholderOfJson, native]
  | int =>
    obtain ⟨k, rfl⟩ : ∃ m, k = m + 1 := ⟨k - 1, by omega⟩
    cases v <;> simp only [JsonOf] at hj
    obtain ⟨hrange, rfl⟩ := hj
    simp [placeholderOfJson, native, signed64_of_inInt64 _ hrange]
  | float =>
    obtain ⟨k, rfl⟩ : ∃ m, k = m + 1 := ⟨k - 1, by omega⟩
    cases v <;> simp only [JsonOf] at hj
    rename_i x
    rcases hj with ⟨-, rfl⟩ | ⟨hx, -⟩ | ⟨i, rfl, rfl⟩
    · simp [placeholderOfJson, floatOfJson, native]
    · simp [hfin x (by simp [TypedValue.floats])] at hx
    · simp [placeholderOfJson, floatOfJson, native]
  | bytes =>
    obtain ⟨k, rfl⟩ : ∃ m, k = m + 1 := ⟨k - 1, by omega⟩
    cases v <;> simp only [JsonOf] at hj
    subst hj
    simp only [placeholderOfJson, native]
    rw [mapM_byteOfJson]
    rfl

/-- The placeholder of a declared type is read back from a collapsed JSON value that a finite
value stands as, at the fuel the bindings give. -/
theorem placeholderOf_jsonOf {name : String} {v : TypedValue} {j : Json}
    (hj : JsonOf ts (.declared name) v j) (hcollapse : j.collapse = j) (hfin : v.Finite) :
    placeholderOf ts name j = .ok (native ts (.declared name) v) := by
  unfold placeholderOf placeholderFuel
  simp only [hcollapse]
  have hfuel : (j.weight + 2) * 2 ≤ (j.weight + 2) * (ts.size + 2) := Nat.mul_le_mul_left _ (by omega)
  exact reads hnames hmembers _ _ v j [] trivial hj hfin (by simp only [Shape.steps]; omega)

end Main

end Ipld.Typed
