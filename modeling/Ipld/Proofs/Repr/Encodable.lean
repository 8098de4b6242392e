import Mathlib
import Ipld.Proofs.Cycles.Search
import Ipld.Proofs.Repr.Written

/-!
# Every compiled type has a value

No type of a compiled system is empty: each has a shape whose representation can be written
(`Document.compile_exists_toRepr_ok`). The rules of the compiler together make this so. The
recursion check makes every type finite (`TypeSystem.Compiled.finite_of_mem`), and the
shape is built along the derivation of finiteness:

* a scalar takes its simplest value, a list or a map is empty, a link is an empty text;
* an enum takes its first member, which exists, and whose value is an integer when the enum
  is written as one;
* a struct takes a shape for each required field and leaves every other field out; when the
  struct is written as a string, its fields have string forms, which its shapes write;
* a union takes a finite member, which exists; an `inline` union's member writes a map,
  and a `stringprefix` union's member a node with a string form.
-/

namespace Ipld.Repr

open Ipld.Schema

variable {ts : TypeSystem}

/-- `v` is a shape of `r`: it is not null, and its representation is written at every fuel
above its weight. -/
structure Encodes (ts : TypeSystem) (r : Ref) (v : Node) : Prop where
  ne_null : v ≠ .null
  writes : ∀ fuel, v.weight < fuel → ∃ out, toReprWithin ts fuel r v = .ok out

/-- A shape's representation is written with the fuel `toRepr` gives. -/
theorem Encodes.toRepr_ok {r : Ref} {v : Node} (h : Encodes ts r v) :
    ∃ out, ts.toRepr r v = .ok out :=
  h.writes _ (Nat.lt_succ_self _)

/-- A shape is one if it writes at every fuel from its weight up, counting the first level. -/
theorem encodes_of_succ {r : Ref} {v : Node} (hne : v ≠ .null)
    (h : ∀ fuel, v.weight ≤ fuel → ∃ out, toReprWithin ts (fuel + 1) r v = .ok out) :
    Encodes ts r v := by
  refine ⟨hne, fun fuel hfuel => ?_⟩
  cases fuel with
  | zero => omega
  | succ fuel => exact h fuel (by omega)

/-- An entry of a map weighs less than the map. -/
theorem weight_lt_of_mem {entries : List (String × Node)} {k : String} {v : Node}
    (h : (k, v) ∈ entries) : v.weight < (Node.map entries).weight := by
  have hle : ∀ es : List (String × Node), (k, v) ∈ es → v.weight ≤ Node.weightEntries es := by
    intro es
    induction es with
    | nil => simp
    | cons e es ih =>
      intro hmem
      obtain ⟨k', v'⟩ := e
      rcases List.mem_cons.1 hmem with heq | hmem
      · cases heq
        simp only [Node.weightEntries]
        omega
      · have := ih hmem
        simp only [Node.weightEntries]
        omega
  have := hle entries h
  simp only [Node.weight]
  omega

/-! ## References written in place and unknown names -/

/-- A shape for a reference, taking `g n` for a name `n`: an empty list or map written in
place, an empty link text. -/
def refShape (g : String → Node) : Ref → Node
  | .named n => g n
  | .list _ _ => .list []
  | .map _ _ _ => .map []
  | .link _ => .string ""

/-- A name the system does not know is written as a link, from its text. -/
theorem encodes_unknown {n : String} (h : ts.get? n = none) : Encodes ts (.named n) (.string "") :=
  encodes_of_succ (by simp) fun fuel _ => ⟨.link "", by simp [toReprWithin, target, h, linkOf]⟩

/-- A reference written in place has a shape, and so does a name with one. -/
theorem encodes_refShape {g : String → Node} {r : Ref}
    (hg : ∀ n, r = .named n → Encodes ts (.named n) (g n)) : Encodes ts r (refShape g r) := by
  cases r with
  | named n => exact hg n rfl
  | list _ _ =>
    exact encodes_of_succ (by simp [refShape]) fun fuel _ =>
      ⟨.list [], by simp [refShape, toReprWithin, target, expectItems, ok_bind, pure, Except.pure]⟩
  | map _ _ _ =>
    exact encodes_of_succ (by simp [refShape]) fun fuel _ =>
      ⟨.map [], by simp [refShape, toReprWithin, target, expectEntries, ok_bind, pure, Except.pure]⟩
  | link _ =>
    exact encodes_of_succ (by simp [refShape]) fun fuel _ =>
      ⟨.link "", by simp [refShape, toReprWithin, target, linkOf]⟩

/-! ## Types with no parts to build -/

/-- A scalar, list, map, link or enum type that keeps its rules has a shape. -/
theorem exists_encodes_leaf {n : String} {t : SchemaType} (hget : ts.get? n = some t)
    (hs : ∀ fields strategy, t ≠ .struct fields strategy)
    (hu : ∀ members strategy, t ≠ .union members strategy) (hrules : ts.violations t = []) :
    ∃ v, Encodes ts (.named n) v := by
  cases t with
  | bool =>
    exact ⟨.bool false, encodes_of_succ (by simp) fun _ _ =>
      ⟨.bool false, by simp [toReprWithin, target, hget, expectKind, Node.kind]⟩⟩
  | int =>
    exact ⟨.int 0, encodes_of_succ (by simp) fun _ _ =>
      ⟨.int 0, by simp [toReprWithin, target, hget, expectKind, Node.kind]⟩⟩
  | float =>
    exact ⟨.float ⟨0⟩, encodes_of_succ (by simp) fun _ _ =>
      ⟨.float ⟨0⟩, by simp [toReprWithin, target, hget, expectKind, Node.kind]⟩⟩
  | string =>
    exact ⟨.string "", encodes_of_succ (by simp) fun _ _ =>
      ⟨.string "", by simp [toReprWithin, target, hget, expectKind, Node.kind]⟩⟩
  | bytes =>
    exact ⟨.bytes [], encodes_of_succ (by simp) fun _ _ =>
      ⟨.bytes [], by simp [toReprWithin, target, hget, bytesOf]⟩⟩
  | link _ =>
    exact ⟨.string "", encodes_of_succ (by simp) fun _ _ =>
      ⟨.link "", by simp [toReprWithin, target, hget, linkOf]⟩⟩
  | list _ _ =>
    exact ⟨.list [], encodes_of_succ (by simp) fun _ _ =>
      ⟨.list [], by simp [toReprWithin, target, hget, expectItems, ok_bind, pure, Except.pure]⟩⟩
  | map _ _ _ strategy =>
    refine ⟨.map [], encodes_of_succ (by simp) fun _ _ => ?_⟩
    cases strategy with
    | map =>
      exact ⟨.map [], by simp [toReprWithin, target, hget, expectEntries, ok_bind, pure, Except.pure]⟩
    | stringpairs inner entry =>
      exact ⟨.string (joinPairs [] inner entry), by
        simp [toReprWithin, target, hget, expectEntries, ok_bind, textPairs, pure, Except.pure]⟩
    | listpairs =>
      exact ⟨listOfPairs [], by
        simp [toReprWithin, target, hget, expectEntries, ok_bind, pure, Except.pure]⟩
  | enum members strategy =>
    have hrules' : TypeSystem.enumViolations members strategy = [] := hrules
    obtain ⟨m, rest, rfl⟩ := List.exists_cons_of_ne_nil (TypeSystem.members_ne_nil_of_enumViolations hrules')
    refine ⟨.string m.name, encodes_of_succ (by simp) fun _ _ => ?_⟩
    simp only [toReprWithin, target, hget, enumToRepr, expectText, ok_bind, List.find?_cons,
      beq_self_eq_true]
    cases strategy with
    | string => exact ⟨_, rfl⟩
    | int =>
      obtain ⟨i, hi⟩ := Option.isSome_iff_exists.1 (TypeSystem.int_enum_values hrules' m List.mem_cons_self)
      exact ⟨.int i, by simp [readInt, hi, bind, Except.bind, pure, Except.pure]⟩
  | struct fields strategy => exact absurd rfl (hs fields strategy)
  | union members strategy => exact absurd rfl (hu members strategy)

/-! ## Structs -/

/-- The entries of a struct's shape: each required field with a shape of its type, taking
`g n` for a name `n`. -/
def structEntries (g : String → Node) (fields : List StructField) : List (String × Node) :=
  fields.filterMap fun f => if f.optional || f.nullable then none else some (f.name, refShape g f.type)

theorem structEntries_cons_required {g : String → Node} {f : StructField}
    {fields : List StructField} (h : (f.optional || f.nullable) = false) :
    structEntries g (f :: fields) = (f.name, refShape g f.type) :: structEntries g fields := by
  simp only [structEntries, List.filterMap_cons, h, Bool.false_eq_true, if_false]

theorem structEntries_cons_skipped {g : String → Node} {f : StructField}
    {fields : List StructField} (h : (f.optional || f.nullable) = true) :
    structEntries g (f :: fields) = structEntries g fields := by
  simp only [structEntries, List.filterMap_cons, h, if_true]

theorem mem_structEntries {g : String → Node} {fields : List StructField} {e : String × Node} :
    e ∈ structEntries g fields ↔
      ∃ f ∈ fields, (f.optional || f.nullable) = false ∧ e = (f.name, refShape g f.type) := by
  induction fields with
  | nil => simp [structEntries]
  | cons f fields ih =>
    cases hreq : (f.optional || f.nullable)
    · rw [structEntries_cons_required hreq, List.mem_cons, ih]
      constructor
      · rintro (rfl | ⟨f', hf', hreq', rfl⟩)
        · exact ⟨f, List.mem_cons_self, hreq, rfl⟩
        · exact ⟨f', List.mem_cons_of_mem f hf', hreq', rfl⟩
      · rintro ⟨f', hf', hreq', rfl⟩
        rcases List.mem_cons.1 hf' with rfl | hf'
        · exact .inl rfl
        · exact .inr ⟨f', hf', hreq', rfl⟩
    · rw [structEntries_cons_skipped hreq, ih]
      constructor
      · rintro ⟨f', hf', hreq', rfl⟩
        exact ⟨f', List.mem_cons_of_mem f hf', hreq', rfl⟩
      · rintro ⟨f', hf', hreq', rfl⟩
        rcases List.mem_cons.1 hf' with rfl | hf'
        · rw [hreq] at hreq'
          cases hreq'
        · exact ⟨f', hf', hreq', rfl⟩

theorem lookupEntry_cons_self {β : Type} {k : String} {v : β} {es : List (String × β)} :
    lookupEntry ((k, v) :: es) k = some v := by
  simp [lookupEntry]

theorem lookupEntry_cons_of_ne {β : Type} {k key : String} {v : β} {es : List (String × β)}
    (h : k ≠ key) : lookupEntry ((k, v) :: es) key = lookupEntry es key := by
  simp [lookupEntry, h]

/-- A field absent from the struct's fields is absent from its shape. -/
theorem lookupEntry_structEntries_none {g : String → Node} {fields : List StructField}
    {name : String} (h : name ∉ fields.map (·.name)) :
    lookupEntry (structEntries g fields) name = none := by
  induction fields with
  | nil => rfl
  | cons f fields ih =>
    simp only [List.map_cons, List.mem_cons, not_or] at h
    cases hreq : (f.optional || f.nullable)
    · rw [structEntries_cons_required hreq, lookupEntry_cons_of_ne (Ne.symm h.1)]
      exact ih h.2
    · rw [structEntries_cons_skipped hreq]
      exact ih h.2

/-- In a struct of distinct field names, the shape holds a required field's shape and no
entry for any other field. -/
theorem lookupEntry_structEntries {g : String → Node} {fields : List StructField}
    (hnd : (fields.map (·.name)).Nodup) {f : StructField} (hf : f ∈ fields) :
    lookupEntry (structEntries g fields) f.name =
      if f.optional || f.nullable then none else some (refShape g f.type) := by
  induction fields with
  | nil => cases hf
  | cons f' fields ih =>
    rw [List.map_cons, List.nodup_cons] at hnd
    rcases List.mem_cons.1 hf with rfl | hf
    · cases hreq : (f.optional || f.nullable)
      · rw [structEntries_cons_required hreq, lookupEntry_cons_self]
        rfl
      · rw [structEntries_cons_skipped hreq, lookupEntry_structEntries_none hnd.1]
        rfl
    · have hne : f'.name ≠ f.name := fun h => hnd.1 (h ▸ List.mem_map_of_mem hf)
      rw [← ih hnd.2 hf]
      cases hreq : (f'.optional || f'.nullable)
      · rw [structEntries_cons_required hreq, lookupEntry_cons_of_ne hne]
      · rw [structEntries_cons_skipped hreq]

/-- Every field of a struct of distinct field names is written, given a shape for each
required field that writes with the property `P`, and `P` of null for a required field that
may be null. -/
theorem filterMapM_fieldToRepr {go : Ref → Node → Except DecodeError Node} {g : String → Node}
    {fields : List StructField} (hnd : (fields.map (·.name)).Nodup)
    (P : String × Node → Prop)
    (hreq : ∀ f ∈ fields, f.optional = false → f.nullable = false →
      refShape g f.type ≠ .null ∧ ∃ w, go f.type (refShape g f.type) = .ok w ∧ P (f.name, w))
    (hnull : ∀ f ∈ fields, f.optional = false → f.nullable = true → P (f.name, .null)) :
    ∃ values, fields.filterMapM (fieldToRepr go (structEntries g fields)) = .ok values ∧
      ∀ e ∈ values, P e := by
  apply filterMapM_eq_ok_of_forall
  intro f hf
  have hlookup := lookupEntry_structEntries (g := g) hnd hf
  cases hopt : f.optional with
  | true =>
    simp only [hopt, Bool.true_or, if_true] at hlookup
    exact ⟨none, fieldToRepr_absent hlookup hopt, by simp⟩
  | false =>
    cases hnl : f.nullable with
    | true =>
      simp only [hopt, hnl, Bool.or_true, if_true] at hlookup
      exact ⟨_, fieldToRepr_absent_nullable hlookup hopt hnl, fun e he => by
        cases he
        exact hnull f hf hopt hnl⟩
    | false =>
      simp only [hopt, hnl, Bool.or_false, Bool.false_eq_true, if_false] at hlookup
      obtain ⟨hne, w, hw, hP⟩ := hreq f hf hopt hnl
      exact ⟨_, fieldToRepr_present hlookup hne hw, fun e he => by
        cases he
        exact hP⟩

/-- A struct that keeps its rules has a shape, given a shape of the type of each required
field. -/
theorem encodes_struct {n : String} {fields : List StructField} {strategy : StructStrategy}
    {g : String → Node} (hget : ts.get? n = some (.struct fields strategy))
    (hrules : ts.structViolations fields strategy = [])
    (hg : ∀ f ∈ fields, f.optional = false → f.nullable = false →
      Encodes ts f.type (refShape g f.type)) :
    Encodes ts (.named n) (.map (structEntries g fields)) := by
  have hnd := TypeSystem.nodup_of_structViolations hrules
  refine encodes_of_succ (by simp) fun fuel hfuel => ?_
  have hknown : ∀ e ∈ structEntries g fields, ∃ f ∈ fields, f.name = e.1 := by
    intro e he
    obtain ⟨f, hf, -, rfl⟩ := mem_structEntries.1 he
    exact ⟨f, hf, rfl⟩
  simp only [toReprWithin, target, hget]
  rw [structToRepr_map hknown]
  have hwrites : ∀ f ∈ fields, f.optional = false → f.nullable = false →
      refShape g f.type ≠ .null ∧ ∃ w, toReprWithin ts fuel f.type (refShape g f.type) = .ok w := by
    intro f hf hopt hnl
    have hmem : (f.name, refShape g f.type) ∈ structEntries g fields :=
      mem_structEntries.2 ⟨f, hf, by simp [hopt, hnl], rfl⟩
    have hlt := weight_lt_of_mem hmem
    exact ⟨(hg f hf hopt hnl).ne_null, (hg f hf hopt hnl).writes fuel (by omega)⟩
  have htext : (∀ f ∈ fields, f.nullable = false ∧ ts.isStringifiable f.type = true) →
      ∃ values, fields.filterMapM (fieldToRepr (toReprWithin ts fuel) (structEntries g fields)) =
        .ok values ∧ ∀ e ∈ values, ∃ s, embeddedText e.2 = .ok s := by
    intro hfields
    apply filterMapM_fieldToRepr hnd
    · intro f hf hopt hnl
      obtain ⟨hne, w, hw⟩ := hwrites f hf hopt hnl
      exact ⟨hne, w, hw, embeddedText_of_toReprWithin (hfields f hf).2 hw⟩
    · intro f hf _ hnl
      simp [(hfields f hf).1] at hnl
  cases strategy with
  | map | tuple | listpairs =>
    obtain ⟨values, hvalues, -⟩ := filterMapM_fieldToRepr hnd (fun _ => True)
      (fun f hf hopt hnl => (hwrites f hf hopt hnl).imp_right (Exists.imp fun _ hw => ⟨hw, trivial⟩))
      (fun _ _ _ _ => trivial)
    rw [hvalues, ok_bind]
    exact ⟨_, rfl⟩
  | stringjoin join =>
    have hfields := TypeSystem.stringjoin_fields hrules
    obtain ⟨values, hvalues, htexts⟩ := htext fun f hf => (hfields f hf).2
    rw [hvalues, ok_bind]
    exact structOfValues_ok htexts
  | stringpairs inner entry =>
    obtain ⟨values, hvalues, htexts⟩ := htext (TypeSystem.stringpairs_fields hrules)
    rw [hvalues, ok_bind]
    exact structOfValues_ok htexts

/-! ## Unions -/

/-- A union that keeps its rules, with known member types, has a shape given a shape of one
member's type. -/
theorem encodes_union {n : String} {members : List UnionMember} {strategy : UnionStrategy}
    {m : UnionMember} {v : Node} (hget : ts.get? n = some (.union members strategy))
    (hrules : ts.unionViolations members strategy = [])
    (hknown : ∀ m ∈ members, ts.contains m.type = true) (hm : m ∈ members)
    (hv : Encodes ts (.named m.type) v) : Encodes ts (.named n) (.map [(m.type, v)]) := by
  refine encodes_of_succ (by simp) fun fuel hfuel => ?_
  obtain ⟨m', hfind⟩ : ∃ m', members.find? (·.type == m.type) = some m' :=
    Option.isSome_iff_exists.1 (List.find?_isSome.2 ⟨m, hm, beq_self_eq_true _⟩)
  have hm' : m' ∈ members := List.mem_of_find?_eq_some hfind
  have htype : m'.type = m.type := by simpa using List.find?_some hfind
  obtain ⟨w, hw⟩ := hv.writes fuel (by
    have := weight_lt_of_mem (List.mem_singleton_self (m.type, v))
    omega)
  rw [← htype] at hw
  simp only [toReprWithin, target, hget, unionToRepr, singleEntry, ok_bind, hfind, hw, inPart]
  cases strategy with
  | keyed | kinded | envelope _ _ => exact ⟨_, rfl⟩
  | inline key =>
    obtain ⟨fs, hfs⟩ := TypeSystem.inline_members hrules m' hm' (hknown m' hm')
    obtain ⟨es, rfl⟩ := eq_map_of_toReprWithin hfs hw
    exact ⟨_, rfl⟩
  | stringPrefix =>
    obtain ⟨s, hs⟩ := embeddedText_of_toReprWithin
      (TypeSystem.stringPrefix_members hrules m' hm' (hknown m' hm')) hw
    exact ⟨.string (m'.discriminant ++ s), by simp [hs, bind, Except.bind, pure, Except.pure]⟩

end Ipld.Repr

/-! ## Every type -/

namespace Ipld.Schema.TypeSystem

open Ipld.Repr

variable {ts : TypeSystem}

/-- In a compiled system a declared type is the one its name looks up. -/
theorem Compiled.get?_of_mem_declared (hc : ts.Compiled) {n : String} {t : SchemaType}
    (h : (n, t) ∈ ts.declared) : ts.get? n = some t :=
  get?_eq_of_mem hc.nodup (List.mem_of_mem_drop h)

/-- A finite type of a compiled system has a shape. -/
theorem Compiled.exists_encodes (hc : ts.Compiled) {n : String} (hfin : ts.Finite n) :
    ∃ v, Encodes ts (.named n) v := by
  have hrules : ∀ {n t}, (n, t) ∈ ts.declared → ts.violations t = [] :=
    fun h => hc.rules _ (List.mem_of_mem_drop h)
  induction hfin with
  | @prelude n hn =>
    obtain ⟨rest, hts⟩ := hc.prelude_first
    obtain ⟨⟨n', t⟩, hp, rfl⟩ := List.mem_map.1 (prelude_names ▸ hn)
    have hget : ts.get? n' = some t := get?_eq_of_mem hc.nodup (hts ▸ List.mem_append_left rest hp)
    simp only [prelude, List.mem_cons, Prod.mk.injEq, List.not_mem_nil, or_false] at hp
    rcases hp with ⟨rfl, rfl⟩ | ⟨rfl, rfl⟩ | ⟨rfl, rfl⟩ | ⟨rfl, rfl⟩ | ⟨rfl, rfl⟩ | ⟨rfl, rfl⟩ <;>
      exact exists_encodes_leaf hget (by simp) (by simp) (by simp [violations])
  | @struct n fields strategy hmem _ ih =>
    have hshape : ∀ m, ∃ v, m ∈ (SchemaType.struct fields strategy).required →
        Encodes ts (.named m) v := by
      intro m
      cases hknown : ts.contains m with
      | true =>
        by_cases hm : m ∈ (SchemaType.struct fields strategy).required
        · obtain ⟨v, hv⟩ := ih m hm hknown
          exact ⟨v, fun _ => hv⟩
        · exact ⟨.null, fun h => absurd h hm⟩
      | false =>
        have hnone : ts.get? m = none := by simpa [contains] using hknown
        exact ⟨_, fun _ => encodes_unknown hnone⟩
    choose g hg using hshape
    have hviol := hrules hmem
    simp only [violations, List.append_eq_nil_iff] at hviol
    refine ⟨_, encodes_struct (g := g) (hc.get?_of_mem_declared hmem) hviol.1 ?_⟩
    intro f hf hopt hnl
    apply encodes_refShape
    intro m hty
    apply hg
    simp only [SchemaType.required, List.mem_filterMap, List.mem_filter]
    exact ⟨f, ⟨hf, by simp [hopt, hnl]⟩, by simp [hty, Ref.name?]⟩
  | @unionEmpty n strategy hmem =>
    have hviol : ts.unionViolations [] strategy = [] := hrules hmem
    exact absurd rfl (TypeSystem.members_ne_nil_of_unionViolations hviol)
  | @union n members strategy m hmem hm _ ih =>
    have hknown : ∀ m ∈ members, ts.contains m.type = true := fun m' hm' =>
      hc.contains_of_mem_mentions (hc.get?_of_mem_declared hmem)
        (by simp [SchemaType.mentions, List.mem_map_of_mem hm'])
    obtain ⟨v, hv⟩ := ih (hknown m hm)
    exact ⟨_, encodes_union (hc.get?_of_mem_declared hmem) (hrules hmem) hknown hm hv⟩
  | @other n t hmem hs hu =>
    exact exists_encodes_leaf (hc.get?_of_mem_declared hmem) hs hu (hrules hmem)

end Ipld.Schema.TypeSystem

namespace Ipld.Schema.Document

open Ipld.Repr

/-- Every type of a compiled document has a shape whose representation can be written. -/
theorem compile_exists_toRepr_ok {d : Document} {ts : TypeSystem} (h : d.compile = .ok ts)
    (n : String) (hn : n ∈ ts.names) : ∃ v out, ts.toRepr (.named n) v = .ok out := by
  have hc := compile_compiled h
  obtain ⟨v, hv⟩ := hc.exists_encodes (hc.finite_of_mem n hn)
  exact ⟨v, hv.toRepr_ok⟩

/-- A tree whose label is a union of a string and another tree, with a list of subtrees and
an optional parent. -/
def treeDocument : Document :=
  ⟨[("Tree", .struct [("label", ⟨.named "Label", false, false⟩),
      ("kids", ⟨.list (.named "Tree") false, false, false⟩),
      ("parent", ⟨.named "Tree", true, false⟩)] none),
    ("Label", .union [⟨"s", "String"⟩, ⟨"t", "Tree"⟩] (some ⟨"keyed", []⟩))]⟩

/-- The system `treeDocument` compiles to. -/
def treeSystem : TypeSystem :=
  ⟨prelude ++ [("Tree", .struct [⟨"label", .named "Label", false, false⟩,
      ⟨"kids", .list (.named "Tree") false, false, false⟩,
      ⟨"parent", .named "Tree", true, false⟩] .map),
    ("Label", .union [⟨"s", "String"⟩, ⟨"t", "Tree"⟩] .keyed)]⟩

/-- The recursive type `Tree` has a shape that writes. -/
theorem compile_exists_toRepr_ok_tree :
    treeDocument.compile = .ok treeSystem ∧ "Tree" ∈ treeSystem.names ∧
      ∃ v out, treeSystem.toRepr (.named "Tree") v = .ok out := by
  have h : treeDocument.compile = .ok treeSystem := by cbv
  have hn : "Tree" ∈ treeSystem.names := by decide
  exact ⟨h, hn, compile_exists_toRepr_ok h "Tree" hn⟩

end Ipld.Schema.Document
