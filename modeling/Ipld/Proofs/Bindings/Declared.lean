import Mathlib
import Ipld.Proofs.Bindings.Decoders
import Ipld.Proofs.Repr.Rewrite

/-!
# The two readers on declared types

The steps of `Decoders` for the parts of declared types: the fields of a struct, the member
of a union and the member of an enum, read from a node or from a string. A struct's fields
agree one by one (`FieldCorresponds`): an absent optional field is `None` in the full value
and left out of the shape, any other field is in both. A union's member agrees when both
readers choose the member by the same discriminant, the first whose discriminant matches, and
read it alike.
-/

namespace Ipld.Typed

open Schema Ipld.Repr

-- The proofs below unfold `declaredFromNode` side by side; tagging it for a moment has its
-- equations generated here, once, rather than by each of them at the same time.
attribute [local simp] declaredFromNode
attribute [-simp] declaredFromNode

/-- A struct field as the full reader holds it and the shape reader lists it: an optional
field that is absent is `None` and left out, any other field is listed under its name with a
shape that its value corresponds to. -/
def FieldCorresponds (ts : TypeSystem) (f : StructField) (v : TypedValue)
    (o : Option (String × Node)) : Prop :=
  (f.optional = true ∧ v = .none ∧ o = none) ∨
    (¬(f.optional = true ∧ v = .none) ∧ ∃ y, o = some (f.name, y) ∧ Corresponds ts (Shape.ofField f) v y)

/-! ## Declared names -/

section Names

variable {ts : TypeSystem} {K : Nat} {name : String} {t : SchemaType}

theorem fromNode_declared (hget : ts.get? name = some t) (n : Node) :
    fromNode ts (K + 1) (.declared name) n = declaredFromNode ts K name t n := by
  simp [fromNode, hget]

theorem fromText_declared (hget : ts.get? name = some t) (s : String) :
    fromText ts (K + 1) (.declared name) s = declaredFromText ts K t s := by
  simp [fromText, hget]

/-- The shape of a name of a bindable system: the declared type, or the scalar a prelude name
stands for. -/
theorem ofName_cases (hb : ts.bindable = true) (hget : ts.get? name = some t) :
    Shape.ofName name = .declared name ∨ (wrapperShape t = some (Shape.ofName name) ∧
      ((t = .bool ∨ t = .int ∨ t = .float ∨ t = .string ∨ t = .bytes) ∨ ∃ e, t = .link e)) := by
  obtain ⟨hbool, hint, hfloat, hstring, hbytes, e, hlink⟩ := TypeSystem.bindable_prelude hb
  unfold Shape.ofName
  split
  case h_7 => exact .inl rfl
  all_goals
    right
    simp_all [wrapperShape]

end Names

/-! ## Struct fields -/

section Fields

variable {ts : TypeSystem}

/-- The fields a JSON object of a struct holds are some of the struct's fields, in order. -/
theorem FieldsJson.keys_sublist : ∀ {fields : List StructField} {values : List TypedValue}
    {js : List (String × Json)}, FieldsJson ts fields values js →
      (js.map (·.1)).Sublist (fields.map (·.name)) := by
  intro fields
  induction fields with
  | nil =>
    intro values js h
    cases values <;> simp_all [FieldsJson]
  | cons f fields ih =>
    intro values js h
    cases values with
    | nil => simp [FieldsJson] at h
    | cons v values =>
      rcases h with ⟨-, -, hrest⟩ | ⟨-, j, rest, rfl, -, hrest⟩
      · exact (ih hrest).cons _
      · exact (ih hrest).cons_cons _

/-- The full reader reads every field, the shape reader lists the fields it finds: when they
agree field by field, the full record's JSON object is the shape's entries. -/
theorem agree_fields {read : StructField → Except DecodeError TypedValue}
    {decode : StructField → Except DecodeError (Option (String × Node))} {fields : List StructField}
    (h : ∀ f ∈ fields, Agree (FieldCorresponds ts f) (read f) (decode f)) :
    Agree (fun values out => FieldsJson ts fields values (out.map fun e => (e.1, e.2.toValue)))
      (fields.mapM read) (fields.filterMapM decode) := by
  induction fields with
  | nil => simp [FieldsJson, pure, Except.pure]
  | cons f fields ih =>
    have hrest := ih fun g hg => h g (List.mem_cons_of_mem f hg)
    rw [List.mapM_cons, List.filterMapM_cons]
    refine (h f List.mem_cons_self).bind fun v o hvo => ?_
    rcases hvo with ⟨hopt, rfl, rfl⟩ | ⟨hpresent, y, rfl, hy⟩
    · exact Agree.bind_pure_left hrest fun values out h' => .inl ⟨hopt, rfl, h'⟩
    · exact Agree.bind hrest fun values out h' => .inr ⟨hpresent, y.toValue, _, rfl, hy, h'⟩

/-- A struct's shape is the map of the fields the shape reader lists: its JSON object is
the full record's when the fields correspond, since the field names are distinct. -/
theorem corresponds_record {name : String} {fields : List StructField} {strategy : StructStrategy}
    (hget : ts.get? name = some (.struct fields strategy)) (hnd : (fields.map (·.name)).Nodup)
    {values : List TypedValue} {out : List (String × Node)}
    (h : FieldsJson ts fields values (out.map fun e => (e.1, e.2.toValue))) :
    Corresponds ts (.declared name) (.record values) (.map out) := by
  have hkeys : ((out.map fun e => (e.1, e.2.toValue)).map (·.1)).Nodup := h.keys_sublist.nodup hnd
  unfold Corresponds
  rw [Node.toValue_map, collapseEntries_of_nodup hkeys]
  exact jsonOf_record hget h

/-- A struct read by field name: both readers refuse an unknown field first, then the full
reader reads every field and the shape reader lists those it finds. -/
theorem agree_record {name : String} {fields : List StructField} {strategy : StructStrategy}
    (hget : ts.get? name = some (.struct fields strategy)) (hnd : (fields.map (·.name)).Nodup)
    {β : Type} (entries : List (String × β)) {read : StructField → Except DecodeError TypedValue}
    {decode : StructField → Except DecodeError (Option (String × Node))}
    (h : ∀ f ∈ fields, Agree (FieldCorresponds ts f) (read f) (decode f)) :
    Agree (Corresponds ts (.declared name))
      (do
        rejectUnknownKeys entries (fields.map (·.name))
        let values ← fields.mapM read
        pure (.record values))
      (do
        rejectUnknown entries (fields.map (·.name))
        let out ← fields.filterMapM decode
        pure (.map out)) := by
  rw [rejectUnknownKeys_eq]
  refine agree_bind_same fun _ _ => ?_
  exact Agree.bind (agree_fields h) fun _ _ hv => agree_pure (corresponds_record hget hnd hv)

theorem Shape.ofField_of_required {f : StructField} (h : f.optional = false) :
    Shape.ofField f = Shape.ofFieldValue f := by
  simp [Shape.ofField, Shape.optionIf, h]

variable {f : StructField} {x : Except DecodeError TypedValue} {y : Except DecodeError Node}

/-- An optional field that is present: `Some` of its value. -/
theorem agree_field_optional (hopt : f.optional = true)
    (h : Agree (Corresponds ts (Shape.ofFieldValue f)) x y) :
    Agree (FieldCorresponds ts f) (inPart (.field f.name) (x.map .some))
      (inPart (.field f.name) y >>= fun v => pure (some (f.name, v))) := by
  cases x <;> cases y <;> simp_all [Agree, inPart, Except.map, FieldCorresponds, bind, Except.bind,
    pure, Except.pure, Corresponds, Shape.ofField, Shape.optionIf, JsonOf]

/-- A field that is not optional: its value. -/
theorem agree_field_required (hopt : f.optional = false)
    (h : Agree (Corresponds ts (Shape.ofFieldValue f)) x y) :
    Agree (FieldCorresponds ts f) (inPart (.field f.name) x)
      (inPart (.field f.name) y >>= fun v => pure (some (f.name, v))) := by
  cases x <;> cases y <;> simp_all [Agree, inPart, FieldCorresponds, bind, Except.bind,
    pure, Except.pure, Shape.ofField_of_required hopt]

/-- Fields read in order, one from each part, none of them optional: every field is present
for both readers. -/
theorem agree_zip_fields {β : Type} {read : StructField × β → Except DecodeError TypedValue}
    {decode : StructField × β → Except DecodeError Node} :
    ∀ {fields : List StructField} {parts : List β}, fields.length = parts.length →
      (∀ f ∈ fields, f.optional = false) →
      (∀ p ∈ fields.zip parts, Agree (Corresponds ts (Shape.ofField p.1)) (read p) (decode p)) →
      Agree (fun values out => FieldsJson ts fields values (out.map fun e => (e.1, e.2.toValue)))
        ((fields.zip parts).mapM fun p => inPart (.field p.1.name) (read p))
        ((fields.zip parts).mapM fun p => do
          let y ← inPart (.field p.1.name) (decode p)
          pure (p.1.name, y)) := by
  intro fields
  induction fields with
  | nil =>
    intro parts _ _ _
    simp [FieldsJson, pure, Except.pure]
  | cons f fields ih =>
    intro parts hlen hreq h
    cases parts with
    | nil => cases hlen
    | cons b parts =>
      have hrest := ih (Nat.succ.inj hlen) (fun g hg => hreq g (List.mem_cons_of_mem f hg))
        fun p hp => h p (by rw [List.zip_cons_cons]; exact List.mem_cons_of_mem _ hp)
      have hf : f.optional = false := hreq f List.mem_cons_self
      rw [List.zip_cons_cons, List.mapM_cons, List.mapM_cons]
      refine Agree.bind (((h (f, b) (by simp)).inPart_left _).inPart_right _ |>.bind_pure_right
        (S := fun v q => q.1 = f.name ∧ Corresponds ts (Shape.ofField f) v q.2) fun v y hv => ⟨rfl, hv⟩)
        fun v q hq => Agree.bind hrest fun values out h' => ?_
      obtain ⟨q1, q2⟩ := q
      obtain ⟨rfl, hq⟩ := hq
      exact .inr ⟨by simp [hf], q2.toValue, _, rfl, hq, h'⟩

end Fields

/-! ## Structs -/

section Structs

variable {ts : TypeSystem} {k K : Nat}

/-- A struct read by field name from entries whose values the fuels cover: field by field,
both readers take the value under the field's name. -/
theorem agree_struct_entries (ih : ReadersAgree ts k) (hb : ts.bindable = true) {name : String}
    {fields : List StructField} {strategy : StructStrategy}
    (hget : ts.get? name = some (.struct fields strategy)) {entries : List (String × Node)}
    (hparts : ∀ e ∈ entries, e.2.IntsIn64 ∧ 2 * e.2.weight + 1 ≤ k ∧ 16 * e.2.weight + 9 ≤ K) :
    Agree (Corresponds ts (.declared name))
      (declaredFromNode ts (K + 1) name (.struct fields .map) (.map entries))
      (structFromRepr (fromReprWithin ts k) (Repr.fromText ts (fromReprWithin ts k)) fields .map
        (.map entries)) := by
  obtain ⟨hnd, hbound⟩ := TypeSystem.struct_fields_of_get? hb hget
  simp only [declaredFromNode, structFromRepr, expectEntries, Repr.expectEntries, ok_bind]
  refine agree_record hget hnd entries fun f hf => ?_
  rw [lookupFirst_eq, lookupNeeded_eq]
  cases hlook : lookupEntry entries f.name with
  | none =>
    cases hopt : f.optional <;> simp [lookupRequired, hlook, hopt, Agree, FieldCorresponds, pure,
      Except.pure, bind, Except.bind]
  | some b =>
    obtain ⟨hx, hk, hK⟩ := hparts _ (mem_of_lookupEntry hlook)
    have hval : Agree (Corresponds ts (Shape.ofFieldValue f)) (fromNode ts K (Shape.ofFieldValue f) b)
        (if (f.nullable && b == .null) = true then pure .null else fromReprWithin ts k f.type b) :=
      agree_value ih (hbound f hf) hx hk hK
    cases hopt : f.optional
    · simp only [lookupRequired, hlook, ok_bind, Bool.false_eq_true, if_false]
      rw [Shape.ofField_of_required hopt]
      exact agree_field_required hopt hval
    · simp only [if_true]
      exact agree_field_optional hopt hval

/-- A struct written as a map. -/
theorem agree_struct_map (ih : ReadersAgree ts k) (hb : ts.bindable = true) {name : String}
    {fields : List StructField} (hget : ts.get? name = some (.struct fields .map)) {n : Node}
    (hn : n.IntsIn64) (hk : 2 * n.weight ≤ k + 1) (hK : 16 * n.weight ≤ K) :
    Agree (Corresponds ts (.declared name)) (declaredFromNode ts (K + 1) name (.struct fields .map) n)
      (structFromRepr (fromReprWithin ts k) (Repr.fromText ts (fromReprWithin ts k)) fields .map n) := by
  cases n with
  | map entries =>
    refine agree_struct_entries ih hb hget fun e he => ⟨hn.of_mem_map he, ?_⟩
    have hlt := Node.length_add_weight_lt he
    omega
  | _ => simp [declaredFromNode, structFromRepr, expectEntries, Repr.expectEntries, wrongKind, Agree,
      bind, Except.bind]

/-- A struct written as a list of `[name, value]` pairs reads as the map of its pairs. -/
theorem agree_struct_listpairs (ih : ReadersAgree ts k) (hb : ts.bindable = true) {name : String}
    {fields : List StructField} (hget : ts.get? name = some (.struct fields .listpairs)) {n : Node}
    (hn : n.IntsIn64) (hk : 2 * n.weight ≤ k + 1) (hK : 16 * n.weight ≤ K) :
    Agree (Corresponds ts (.declared name))
      (declaredFromNode ts (K + 1) name (.struct fields .listpairs) n)
      (structFromRepr (fromReprWithin ts k) (Repr.fromText ts (fromReprWithin ts k)) fields .listpairs n) := by
  have hfull : declaredFromNode ts (K + 1) name (.struct fields .listpairs) n = Repr.pairEntries n >>=
      fun entries => declaredFromNode ts (K + 1) name (.struct fields .map) (.map entries) := by
    simp [declaredFromNode, pairEntries_eq, expectEntries, ok_bind]
  have hshape : structFromRepr (fromReprWithin ts k) (Repr.fromText ts (fromReprWithin ts k)) fields
      .listpairs n = Repr.pairEntries n >>= fun entries => structFromRepr (fromReprWithin ts k)
        (Repr.fromText ts (fromReprWithin ts k)) fields .map (.map entries) := by
    simp [structFromRepr, Repr.expectEntries, ok_bind]
  rw [hfull, hshape]
  refine agree_bind_same fun pairs hpairs => agree_struct_entries ih hb hget fun e he => ?_
  obtain ⟨hlt, hints⟩ := Node.pairEntries_part hpairs he
  exact ⟨hints hn, by omega, by omega⟩

theorem list_of_expectItemsOf {len : Nat} {n : Node} {items : List Node}
    (h : expectItemsOf len n = .ok items) : n = .list items := by
  cases n with
  | list xs =>
    simp only [expectItemsOf, Repr.expectItems, ok_bind] at h
    split at h
    · cases pure_eq_ok.1 h
      rfl
    · cases h
  | _ => simp_all [expectItemsOf, Repr.expectItems, wrongKind, bind, Except.bind]

/-- A struct written as a list of its field values in order. -/
theorem agree_struct_tuple (ih : ReadersAgree ts k) (hb : ts.bindable = true) {name : String}
    {fields : List StructField} (hget : ts.get? name = some (.struct fields .tuple)) {n : Node}
    (hn : n.IntsIn64) (hk : 2 * n.weight ≤ k + 1) (hK : 16 * n.weight ≤ K) :
    Agree (Corresponds ts (.declared name)) (declaredFromNode ts (K + 1) name (.struct fields .tuple) n)
      (structFromRepr (fromReprWithin ts k) (Repr.fromText ts (fromReprWithin ts k)) fields .tuple n) := by
  have ht := TypeSystem.bindableType_of_get? hb hget
  simp only [bindableType, Bool.and_eq_true, decide_eq_true_eq, List.all_eq_true,
    Bool.not_eq_eq_eq_not, Bool.not_true] at ht
  obtain ⟨⟨hnd, hbound⟩, hreq⟩ := ht
  simp only [declaredFromNode, structFromRepr, expectItems_eq]
  refine agree_bind_same fun items hitems => ?_
  obtain rfl := list_of_expectItemsOf hitems
  refine Agree.bind (agree_zip_fields (length_of_expectItemsOf hitems).symm hreq fun p hp => ?_)
    fun _ _ h => agree_pure (corresponds_record hget hnd h)
  obtain ⟨hf, hitem⟩ := List.of_mem_zip hp
  have hlt := Node.weight_lt_of_mem_items hitem
  rw [Shape.ofField_of_required (hreq p.1 hf)]
  exact agree_value ih (hbound p.1 hf) (hn.of_mem_list hitem) (by omega) (by omega)

/-- A struct written as its field values joined by a separator: both readers cut the text
into as many parts as there are fields and read each field from its part. -/
theorem agree_struct_stringjoin (iht : TextsAgree ts k) (hb : ts.bindable = true) {name : String}
    {fields : List StructField} {join : String}
    (hget : ts.get? name = some (.struct fields (.stringjoin join))) (s : String)
    (hk : 2 * s.length + 1 ≤ k) (hK : 16 * s.length + 8 ≤ K) :
    Agree (Corresponds ts (.declared name)) (declaredFromText ts (K + 1) (.struct fields (.stringjoin join)) s)
      (structFromRepr (fromReprWithin ts k) (Repr.fromText ts (fromReprWithin ts k)) fields
        (.stringjoin join) (.string s)) := by
  have ht := TypeSystem.bindableType_of_get? hb hget
  simp only [bindableType, Bool.and_eq_true, decide_eq_true_eq, List.all_eq_true, bne_iff_ne, ne_eq,
    Bool.not_eq_eq_eq_not, Bool.not_true] at ht
  obtain ⟨⟨hnd, -⟩, ⟨hsep, htwo⟩, hparts⟩ := ht
  have hnonempty : fields.isEmpty = false := by
    cases fields with
    | nil => simp at htwo
    | cons _ _ => rfl
  simp only [declaredFromText, structFromRepr, Repr.expectText, ok_bind, hnonempty, Bool.false_eq_true,
    if_false]
  refine agree_bind_same fun parts hsplit => ?_
  refine Agree.bind (agree_zip_fields (splitJoin_length hsplit).symm (fun f hf => (hparts f hf).1.1)
    fun p hp => ?_) fun _ _ h => agree_pure (corresponds_record hget hnd h)
  obtain ⟨hf, hpart⟩ := List.of_mem_zip hp
  obtain ⟨⟨hopt, hnull⟩, htext⟩ := hparts p.1 hf
  have hlt := splitJoin_lt hsep htwo hsplit p.2 hpart
  have hlevel := Shape.level_ofRef_le ts p.1.type
  have hshape : Shape.ofField p.1 = Shape.ofRef p.1.type := by
    simp [Shape.ofField, Shape.ofFieldValue, Shape.optionIf, hopt, hnull]
  rw [hshape]
  exact iht p.1.type p.2 K htext (by omega) (by omega)

/-- A struct written as `name<inner>value` pairs joined by `entry`: field by field, both
readers take the text of the pair with the field's name. -/
theorem agree_struct_stringpairs (iht : TextsAgree ts k) (hb : ts.bindable = true) {name : String}
    {fields : List StructField} {inner entry : String}
    (hget : ts.get? name = some (.struct fields (.stringpairs inner entry))) (s : String)
    (hk : 2 * s.length + 1 ≤ k) (hK : 16 * s.length + 8 ≤ K) :
    Agree (Corresponds ts (.declared name))
      (declaredFromText ts (K + 1) (.struct fields (.stringpairs inner entry)) s)
      (structFromRepr (fromReprWithin ts k) (Repr.fromText ts (fromReprWithin ts k)) fields
        (.stringpairs inner entry) (.string s)) := by
  have ht := TypeSystem.bindableType_of_get? hb hget
  simp only [bindableType, Bool.and_eq_true, decide_eq_true_eq, List.all_eq_true, bne_iff_ne, ne_eq,
    Bool.not_eq_eq_eq_not, Bool.not_true] at ht
  obtain ⟨⟨hnd, -⟩, ⟨hinner, -⟩, hparts⟩ := ht
  simp only [declaredFromText, structFromRepr, Repr.expectText, ok_bind]
  refine agree_bind_same fun pairs hsplit => agree_record hget hnd pairs fun f hf => ?_
  obtain ⟨hnull, htext⟩ := hparts f hf
  rw [lookupFirst_eq, lookupNeeded_eq]
  cases hlook : lookupEntry pairs f.name with
  | none =>
    cases hopt : f.optional <;> simp [lookupRequired, hlook, hopt, Agree, FieldCorresponds, pure,
      Except.pure, bind, Except.bind]
  | some p =>
    have hlt := splitPairs_lt hinner hsplit _ (mem_of_lookupEntry hlook)
    have hlevel := Shape.level_ofRef_le ts f.type
    have hshape : Shape.ofFieldValue f = Shape.ofRef f.type := by
      simp [Shape.ofFieldValue, Shape.optionIf, hnull]
    have hval : Agree (Corresponds ts (Shape.ofFieldValue f)) (fromText ts K (Shape.ofFieldValue f) p)
        (Repr.fromText ts (fromReprWithin ts k) f.type p) := by
      rw [hshape]
      exact iht f.type p K htext (by simp only at hlt; omega) (by simp only at hlt; omega)
    cases hopt : f.optional
    · simp only [lookupRequired, hlook, ok_bind, Bool.false_eq_true, if_false]
      rw [Shape.ofField_of_required hopt]
      exact agree_field_required hopt hval
    · simp only [if_true]
      exact agree_field_optional hopt hval

end Structs

/-! ## Maps written as pairs -/

section Maps

variable {ts : TypeSystem} {k K : Nat} {name kt : String} {v r : Ref} {nullable : Bool}

/-- A map written as a list of `[key, value]` pairs reads as the map of its pairs. -/
theorem agree_map_listpairs (ih : ReadersAgree ts k) (hb : ts.bindable = true)
    (hget : ts.get? name = some (.map kt v nullable .listpairs))
    (hr : target ts r = .named (.map kt v nullable .listpairs)) {n : Node} (hn : n.IntsIn64)
    (hk : 2 * n.weight ≤ k + 1) (hK : 16 * n.weight ≤ K) :
    Agree (Corresponds ts (.declared name))
      (declaredFromNode ts (K + 1) name (.map kt v nullable .listpairs) n) (fromReprWithin ts (k + 1) r n) := by
  have ht := TypeSystem.bindableType_of_get? hb hget
  simp only [bindableType, Bool.and_eq_true] at ht
  obtain ⟨⟨hkt, hv⟩, -⟩ := ht
  have hpos := Node.weight_pos n
  have hshape : fromReprWithin ts (k + 1) r n = (do
      let es ← Repr.pairEntries n
      let l ← es.mapM fun e => do
        let y ← inPart (.key e.1)
          (if (nullable && e.2 == .null) = true then pure .null else fromReprWithin ts k v e.2)
        let key ← keyFromRepr ts kt e.1
        pure (key, y)
      pure (.map l)) := by
    simp [fromReprWithin, hr]
  rw [hshape]
  simp only [declaredFromNode, pairEntries_eq]
  refine agree_bind_same fun pairs hpairs => Agree.bind (agree_entries hb hkt
    (Shape.optionIf nullable (Shape.ofRef v)) pairs (fun e _ => agree_key hb hkt e.1 (by omega))
    fun e he => ?_) fun _ _ h => agree_pure ?_
  · obtain ⟨hlt, hints⟩ := Node.pairEntries_part hpairs he
    exact (agree_value ih hv (hints hn) (by omega) (by omega)).inPart_right _
  · exact jsonOf_wrapped hget rfl h

/-- A map written as `key<inner>value` pairs joined by `entry` reads as the map of its pairs,
each value read from its text. -/
theorem agree_map_stringpairs (iht : TextsAgree ts k) (hb : ts.bindable = true) {inner entry : String}
    (hget : ts.get? name = some (.map kt v nullable (.stringpairs inner entry)))
    (hr : target ts r = .named (.map kt v nullable (.stringpairs inner entry))) (s : String)
    (hk : 2 * s.length + 1 ≤ k) (hK : 16 * s.length + 8 ≤ K) :
    Agree (Corresponds ts (.declared name))
      (declaredFromText ts (K + 1) (.map kt v nullable (.stringpairs inner entry)) s)
      (fromReprWithin ts (k + 1) r (.string s)) := by
  have ht := TypeSystem.bindableType_of_get? hb hget
  simp only [bindableType, Bool.and_eq_true, bne_iff_ne, ne_eq, Bool.not_eq_eq_eq_not,
    Bool.not_true] at ht
  obtain ⟨⟨hkt, -⟩, ⟨⟨hinner, -⟩, rfl⟩, htext⟩ := ht
  have hlevel := Shape.level_ofRef_le ts v
  simp only [declaredFromText, fromReprWithin, hr, Repr.expectText, ok_bind]
  refine agree_bind_same fun pairs hsplit => Agree.bind (agree_entries hb hkt
    (Shape.optionIf false (Shape.ofRef v)) pairs (fun e _ => agree_key hb hkt e.1 (by omega))
    fun e he => ?_) fun _ _ h => agree_pure ?_
  · have hlt := splitPairs_lt hinner hsplit e he
    exact (iht v e.2 K htext (by omega) (by omega)).inPart_right _
  · exact jsonOf_wrapped hget rfl h

end Maps

/-! ## Unions -/

theorem map_of_expectEntries {n : Node} {entries : List (String × Node)}
    (h : Repr.expectEntries n = .ok entries) : n = .map entries := by
  cases n <;> simp_all [Repr.expectEntries, wrongKind]

theorem string_of_expectText {n : Node} {s : String} (h : Repr.expectText n = .ok s) :
    n = .string s := by
  cases n <;> simp_all [Repr.expectText, wrongKind]

theorem mem_of_lookupRequired {β : Type} {entries : List (String × β)} {key : String} {v : β}
    (h : lookupRequired entries key = .ok v) : (key, v) ∈ entries := by
  unfold lookupRequired at h
  split at h
  · cases h
    exact mem_of_lookupEntry ‹_›
  · cases h

section Unions

variable {ts : TypeSystem} {k K : Nat}

/-- The member a union's value is read as: when its value agrees, the variant of the full
reader and the single entry of the shape reader agree. -/
theorem agree_variant {name : String} {members : List UnionMember} {strategy : UnionStrategy}
    (hget : ts.get? name = some (.union members strategy)) {i : Nat} {m : UnionMember}
    (hi : i < members.length) (hm : nth members i = m) {x : Except DecodeError TypedValue}
    {y : Except DecodeError Node} (h : Agree (Corresponds ts (Shape.ofName m.type)) x y) :
    Agree (Corresponds ts (.declared name)) ((inPart (.variant m.type) x).map (.variant i))
      (y >>= fun v => pure (.map [(m.type, v)])) := by
  refine Agree.map_bind_pure (h.inPart_left _) fun a b hab => ?_
  subst hm
  have hone : Json.collapseEntries [((nth members i).type, b.toValue)] = [((nth members i).type, b.toValue)] :=
    collapseEntries_of_nodup (by simp)
  unfold Corresponds
  rw [Node.toValue_map, List.map_singleton, hone]
  exact jsonOf_variant hget hi hab

/-- A kinded union: both readers choose the member by the kind of the node and read the
member from the node itself. -/
theorem agree_union_kinded (ih : ReadersAgree ts k) (hb : ts.bindable = true) {name : String}
    {members : List UnionMember} (hget : ts.get? name = some (.union members .kinded)) {n : Node}
    (hn : n.IntsIn64) (hk : 2 * n.weight ≤ k) (hK : 16 * n.weight + 6 ≤ K) :
    Agree (Corresponds ts (.declared name)) (declaredFromNode ts (K + 1) name (.union members .kinded) n)
      (unionFromRepr (fromReprWithin ts k) (Repr.fromText ts (fromReprWithin ts k)) members .kinded n) := by
  have ht := TypeSystem.bindableType_of_get? hb hget
  simp only [bindableType, Bool.and_eq_true, decide_eq_true_eq, List.all_eq_true,
    Bool.not_eq_eq_eq_not, Bool.not_true] at ht
  obtain ⟨⟨-, hknown⟩, hflat⟩ := ht
  simp only [declaredFromNode, unionFromRepr]
  cases hmf : memberFor members n.kind.name with
  | none => simp [memberFor_none hmf, Agree, bind, Except.bind]
  | some p =>
    obtain ⟨i, m⟩ := p
    obtain ⟨hi, hm, hfind⟩ := memberFor_some hmf
    have hmem := List.mem_of_find?_eq_some hfind
    have hbonus : kindedBonus ts (.named m.type) = 0 := by simp [kindedBonus, hflat m hmem]
    have hlevel := Shape.level_ofName_of_not_kinded (hflat m hmem)
    simp only [hfind, ok_bind, pure_bind]
    exact agree_variant hget hi hm (ih (.named m.type) n K (hknown m hmem) hn (by simp only [hbonus]; omega)
      (by simp only [Shape.ofRef]; omega))

/-- A keyed union, a map of one entry: both readers choose the member by the entry's key and
read it from the entry's value. -/
theorem agree_union_keyed (ih : ReadersAgree ts k) (hb : ts.bindable = true) {name : String}
    {members : List UnionMember} (hget : ts.get? name = some (.union members .keyed)) {n : Node}
    (hn : n.IntsIn64) (hk : 2 * n.weight ≤ k + 1) (hK : 16 * n.weight ≤ K) :
    Agree (Corresponds ts (.declared name)) (declaredFromNode ts (K + 1) name (.union members .keyed) n)
      (unionFromRepr (fromReprWithin ts k) (Repr.fromText ts (fromReprWithin ts k)) members .keyed n) := by
  obtain ⟨-, hknown⟩ := TypeSystem.union_members_of_get? hb hget
  cases n with
  | map es =>
    simp only [declaredFromNode, unionFromRepr, expectEntries, Repr.expectEntries, ok_bind]
    rcases es with _ | ⟨⟨key, v⟩, _ | ⟨e, rest⟩⟩
    · simp [Agree]
    · have hmem : (key, v) ∈ [(key, v)] := List.mem_singleton_self _
      have hlt := Node.length_add_weight_lt hmem
      cases hmf : memberFor members key with
      | none => simp [hmf, memberFor_none hmf, Agree, bind, Except.bind]
      | some p =>
        obtain ⟨i, m⟩ := p
        obtain ⟨hi, hm, hfind⟩ := memberFor_some hmf
        have hm' := List.mem_of_find?_eq_some hfind
        have hbonus := kindedBonus_le_one ts (.named m.type)
        have hlevel := Shape.level_ofName_le ts m.type
        simp only [hmf, hfind, ok_bind, pure_bind]
        exact agree_variant hget hi hm (ih (.named m.type) v K (hknown m hm') (hn.of_mem_map hmem)
          (by simp only at hlt; omega) (by simp only [Shape.ofRef] at hlevel ⊢; simp only at hlt; omega))
    · simp [Agree]
  | _ => simp [declaredFromNode, unionFromRepr, expectEntries, Repr.expectEntries, wrongKind, Agree,
      bind, Except.bind]

/-- An inline union: both readers choose the member by the text under the discriminant key
and read it from the other entries. -/
theorem agree_union_inline (ih : ReadersAgree ts k) (hb : ts.bindable = true) {name key : String}
    {members : List UnionMember} (hget : ts.get? name = some (.union members (.inline key))) {n : Node}
    (hn : n.IntsIn64) (hk : 2 * n.weight ≤ k + 1) (hK : 16 * n.weight ≤ K) :
    Agree (Corresponds ts (.declared name))
      (declaredFromNode ts (K + 1) name (.union members (.inline key)) n)
      (unionFromRepr (fromReprWithin ts k) (Repr.fromText ts (fromReprWithin ts k)) members
        (.inline key) n) := by
  obtain ⟨-, hknown⟩ := TypeSystem.union_members_of_get? hb hget
  simp only [declaredFromNode, unionFromRepr, expectEntries_eq, lookupNeeded_eq, expectText_eq]
  refine agree_bind_same fun entries hentries => ?_
  obtain rfl := map_of_expectEntries hentries
  refine agree_bind_same fun x hx => agree_bind_same fun d _ => ?_
  have hlt := Node.weight_filter_lt (mem_of_lookupRequired hx)
  cases hmf : memberFor members d with
  | none => simp [memberFor_none hmf, Agree, bind, Except.bind]
  | some p =>
    obtain ⟨i, m⟩ := p
    obtain ⟨hi, hm, hfind⟩ := memberFor_some hmf
    have hm' := List.mem_of_find?_eq_some hfind
    have hbonus := kindedBonus_le_one ts (.named m.type)
    have hlevel := Shape.level_ofName_le ts m.type
    simp only [hfind, ok_bind, pure_bind]
    exact agree_variant hget hi hm (ih (.named m.type) _ K (hknown m hm') (hn.filter _) (by omega)
      (by simp only [Shape.ofRef]; omega))

/-- An envelope union: both readers choose the member by the text under the discriminant key
and read it from the value under the content key. -/
theorem agree_union_envelope (ih : ReadersAgree ts k) (hb : ts.bindable = true)
    {name key content : String} {members : List UnionMember}
    (hget : ts.get? name = some (.union members (.envelope key content))) {n : Node}
    (hn : n.IntsIn64) (hk : 2 * n.weight ≤ k + 1) (hK : 16 * n.weight ≤ K) :
    Agree (Corresponds ts (.declared name))
      (declaredFromNode ts (K + 1) name (.union members (.envelope key content)) n)
      (unionFromRepr (fromReprWithin ts k) (Repr.fromText ts (fromReprWithin ts k)) members
        (.envelope key content) n) := by
  obtain ⟨-, hknown⟩ := TypeSystem.union_members_of_get? hb hget
  simp only [declaredFromNode, unionFromRepr, expectEntries_eq, lookupNeeded_eq, expectText_eq,
    rejectUnknownKeys_eq]
  refine agree_bind_same fun entries hentries => ?_
  obtain rfl := map_of_expectEntries hentries
  refine agree_bind_same fun _ _ => agree_bind_same fun x _ => agree_bind_same fun d _ => ?_
  cases hc : lookupRequired entries content with
  | error e =>
    cases hfind : members.find? (·.discriminant == d) <;> simp [Agree, bind, Except.bind]
  | ok c =>
    have hmem := mem_of_lookupRequired hc
    have hlt := Node.length_add_weight_lt hmem
    simp only [ok_bind]
    cases hmf : memberFor members d with
    | none => simp [memberFor_none hmf, Agree, bind, Except.bind]
    | some p =>
      obtain ⟨i, m⟩ := p
      obtain ⟨hi, hm, hfind⟩ := memberFor_some hmf
      have hm' := List.mem_of_find?_eq_some hfind
      have hbonus := kindedBonus_le_one ts (.named m.type)
      have hlevel := Shape.level_ofName_le ts m.type
      simp only [hfind, ok_bind, pure_bind]
      exact agree_variant hget hi hm (ih (.named m.type) c K (hknown m hm') (hn.of_mem_map hmem)
        (by simp only at hlt; omega) (by simp only [Shape.ofRef]; simp only at hlt; omega))

/-- A union written as its member's text after the member's prefix: both readers take the
first member whose prefix the text starts with, and read it from the rest of the text. -/
theorem agree_union_stringPrefix (iht : TextsAgree ts k) (hb : ts.bindable = true) {name : String}
    {members : List UnionMember} (hget : ts.get? name = some (.union members .stringPrefix))
    (s : String) (hk : 2 * s.length + 1 ≤ k) (hK : 16 * s.length + 8 ≤ K) :
    Agree (Corresponds ts (.declared name)) (declaredFromText ts (K + 1) (.union members .stringPrefix) s)
      (unionFromRepr (fromReprWithin ts k) (Repr.fromText ts (fromReprWithin ts k)) members
        .stringPrefix (.string s)) := by
  have ht := TypeSystem.bindableType_of_get? hb hget
  simp only [bindableType, Bool.and_eq_true, decide_eq_true_eq, List.all_eq_true, bne_iff_ne,
    ne_eq] at ht
  obtain ⟨-, hprefixed⟩ := ht
  simp only [declaredFromText, unionFromRepr, Repr.expectText, ok_bind, findSome?_dropPrefix]
  cases hz : members.zipIdx.find? (fun x => s.startsWith x.1.discriminant) with
  | none =>
    simp [find?_zipIdx_none (p := fun m : UnionMember => s.startsWith m.discriminant) hz, Agree,
      bind, Except.bind]
  | some p =>
    obtain ⟨m, i⟩ := p
    obtain ⟨hfind, hgeti, -⟩ := find?_zipIdx_some (p := fun m : UnionMember => s.startsWith m.discriminant) hz
    rw [Nat.sub_zero] at hgeti
    obtain ⟨hi, hgeti⟩ := List.getElem?_eq_some_iff.1 hgeti
    have hm : nth members i = m := by rw [nth_eq_getElem hi]; exact hgeti
    obtain ⟨hne, htext⟩ := hprefixed m (List.mem_of_find?_eq_some hfind)
    have hstarts : s.startsWith m.discriminant = true :=
      List.find?_some (p := fun m : UnionMember => s.startsWith m.discriminant) hfind
    have hlt := drop_prefix_lt hne hstarts
    have hlevel := Shape.level_ofName_le ts m.type
    simp only [hfind, Option.map_some, pure_bind]
    exact agree_variant hget hi hm (iht (.named m.type) _ K (by simpa [textRef] using htext)
      (by omega) (by simp only [Shape.ofRef]; omega))

end Unions

/-! ## Scalars read from text -/

section ScalarTexts

variable {ts : TypeSystem} {k K : Nat} {r : Ref}

/-- An integer read from text is a 64-bit integer. -/
theorem inInt64_of_readInt64 {s : String} {i : Int} (h : Decimal.readInt64 s = some i) :
    Decimal.inInt64 i = true := by
  unfold Decimal.readInt64 at h
  rcases hspan : Decimal.spanSign s.toList with ⟨neg, body⟩
  simp only [hspan, Option.ite_none_left_eq_some, Option.ite_none_right_eq_some] at h
  obtain ⟨-, hin, hi⟩ := h
  rw [Option.some.injEq] at hi
  exact hi ▸ hin

/-- A scalar read from text: both readers read the text as the scalar, and the shape reader
then checks the scalar it made. -/
theorem agree_scalar_text {t : SchemaType} (hr : target ts r = .named t)
    (ht : t = .bool ∨ t = .int ∨ t = .float ∨ t = .string) {sh : Shape} (hs : wrapperShape t = some sh)
    (s : String) :
    Agree (Corresponds ts sh) (fromText ts (K + 1) sh s) (Repr.fromText ts (fromReprWithin ts (k + 1)) r s) := by
  rcases ht with rfl | rfl | rfl | rfl <;> cases hs
  · cases hread : readBool s <;> simp [fromText, Repr.fromText, hr, hread, fromReprWithin, expectKind,
      Node.kind, Agree, Corresponds, JsonOf, Except.map, bind, Except.bind, pure, Except.pure]
  · cases hread : readInt s with
    | error e => simp [fromText, Repr.fromText, hr, hread, Agree, Except.map, bind, Except.bind]
    | ok i =>
      have hin : Decimal.inInt64 i = true := by
        unfold readInt at hread
        split at hread
        · cases hread
          exact inInt64_of_readInt64 ‹_›
        · cases hread
      simp [fromText, Repr.fromText, hr, hread, ok_bind, fromReprWithin, expectKind, Node.kind, Agree,
        Corresponds, JsonOf, Except.map, pure, Except.pure, hin]
  · cases hread : readFloat s with
    | error e => simp [fromText, Repr.fromText, hr, hread, Agree, Except.map, bind, Except.bind]
    | ok x =>
      by_cases hx : x.isFinite <;> simp [fromText, Repr.fromText, hr, hread, ok_bind, fromReprWithin,
        expectKind, Node.kind, Agree, Corresponds, JsonOf, Except.map, pure, Except.pure, hx]
  · simp [fromText, Repr.fromText, hr, ok_bind, fromReprWithin, expectKind, Node.kind, Agree,
      Corresponds, JsonOf, pure, Except.pure]

/-- A scalar read from text through its name: a prelude name reads the scalar, a declared
scalar type wraps it. -/
theorem agree_named_scalar_text (hb : ts.bindable = true) {name : String} {t : SchemaType}
    (hget : ts.get? name = some t) (ht : t = .bool ∨ t = .int ∨ t = .float ∨ t = .string)
    (s : String) (hK : (Shape.ofName name).level ts ≤ K) :
    Agree (Corresponds ts (Shape.ofName name)) (fromText ts K (Shape.ofName name) s)
      (Repr.fromText ts (fromReprWithin ts (k + 1)) (.named name) s) := by
  have hr : target ts (.named name) = .named t := by simp [target, hget]
  rcases ofName_cases hb hget with hdecl | ⟨hs, -⟩
  · rw [hdecl] at hK ⊢
    have hsix := Shape.six_le_level_declared ts name
    obtain ⟨K, rfl⟩ : ∃ K', K = K' + 3 := ⟨K - 3, by omega⟩
    rw [fromText_declared hget]
    rcases ht with rfl | rfl | rfl | rfl <;> simp only [declaredFromText] <;>
      exact (agree_scalar_text hr (by simp) rfl s).map_left fun _ _ h => jsonOf_wrapped hget rfl h
  · have htwo := Shape.two_le_level ts (Shape.ofName name)
    obtain ⟨K, rfl⟩ : ∃ K', K = K' + 1 := ⟨K - 1, by omega⟩
    exact agree_scalar_text hr ht hs s

/-- A declared type other than a scalar, read from text: the name's shape is the declared
type, which reads the text itself. -/
theorem agree_declared_text (hb : ts.bindable = true) {name : String} {t : SchemaType}
    (hget : ts.get? name = some t)
    (hnot : ¬((t = .bool ∨ t = .int ∨ t = .float ∨ t = .string ∨ t = .bytes) ∨ ∃ e, t = .link e))
    {s : String} {y : Except DecodeError Node}
    (h : ∀ K, 16 * s.length + 8 ≤ K → Agree (Corresponds ts (.declared name)) (declaredFromText ts (K + 1) t s) y)
    (hK : 16 * s.length + (Shape.ofName name).level ts + 4 ≤ K) :
    Agree (Corresponds ts (Shape.ofName name)) (fromText ts K (Shape.ofName name) s) y := by
  have hdecl : Shape.ofName name = .declared name :=
    (ofName_cases hb hget).resolve_right fun h => hnot h.2
  rw [hdecl] at hK ⊢
  have hsix := Shape.six_le_level_declared ts name
  obtain ⟨K, rfl⟩ : ∃ K', K = K' + 2 := ⟨K - 2, by omega⟩
  rw [fromText_declared hget]
  exact h K (by omega)

end ScalarTexts

/-! ## Enums -/

section Enums

variable {ts : TypeSystem} {k K : Nat} {name : String} {members : List EnumValue}

/-- An enum written as its member's value: the full reader's index and the shape reader's
name are of the first member with that value. -/
theorem agree_enum_string {strategy : EnumStrategy}
    (hget : ts.get? name = some (.enum members strategy)) (s : String) :
    Agree (Corresponds ts (.declared name)) (declaredFromText ts (K + 1) (.enum members strategy) s)
      (enumFromRepr members .string (.string s)) := by
  simp only [declaredFromText, enumFromRepr, Repr.expectText, ok_bind]
  cases hfind : members.findIdx? (·.value == s) with
  | some i =>
    obtain ⟨hi, hm⟩ := find?_of_findIdx? hfind
    simp only [hm]
    exact jsonOf_member hget hi
  | none => simp [find?_of_findIdx?_none hfind, Agree]

/-- An enum written as an integer: both readers take the first member whose value reads as
the integer. -/
theorem agree_enum_int (hget : ts.get? name = some (.enum members .int)) (n : Node) :
    Agree (Corresponds ts (.declared name)) (declaredFromNode ts (K + 1) name (.enum members .int) n)
      (enumFromRepr members .int n) := by
  cases n with
  | int i =>
    simp only [declaredFromNode, enumFromRepr, expectInt, ok_bind, intMemberFor]
    cases hfind : members.findIdx? (fun m => Decimal.readInt64 m.value == some i) with
    | some idx =>
      obtain ⟨hi, hm⟩ := find?_of_findIdx? hfind
      simp only [hm]
      exact jsonOf_member hget hi
    | none => simp [find?_of_findIdx?_none hfind, Agree]
  | _ => simp [declaredFromNode, enumFromRepr, expectInt, wrongKind, Agree, bind, Except.bind]

end Enums

/-! ## Declared types -/

section Declared

variable {ts : TypeSystem} {k K : Nat} {name : String} {t : SchemaType}

/-- A type written as a string: the full reader reads the string form of the node's text, the
shape reader takes the node's text too. -/
theorem agree_via_text (hget : ts.get? name = some t)
    (hvia : ∀ n, declaredFromNode ts (K + 2) name t n = expectText n >>= fun s =>
      fromText ts (K + 1) (.declared name) s)
    {read : Node → Except DecodeError Node}
    (hread : ∀ n, read n = Repr.expectText n >>= fun s => read (.string s)) {n : Node}
    (h : ∀ s, n = .string s →
      Agree (Corresponds ts (.declared name)) (declaredFromText ts K t s) (read (.string s))) :
    Agree (Corresponds ts (.declared name)) (declaredFromNode ts (K + 2) name t n) (read n) := by
  rw [hvia, hread, expectText_eq]
  refine agree_bind_same fun s hs => ?_
  rw [fromText_declared hget]
  exact h s (string_of_expectText hs)

variable {n : Node}

/-- A declared struct, in each of its representations. -/
theorem agree_declared_struct (ih : ReadersAgree ts k) (iht : TextsAgree ts k) (hb : ts.bindable = true)
    {fields : List StructField} {strategy : StructStrategy}
    (hget : ts.get? name = some (.struct fields strategy)) (hn : n.IntsIn64) (hk : 2 * n.weight ≤ k + 1)
    (hK : 16 * n.weight + 3 ≤ K) :
    Agree (Corresponds ts (.declared name)) (declaredFromNode ts (K + 2) name (.struct fields strategy) n)
      (fromReprWithin ts (k + 1) (.named name) n) := by
  have hshape : ∀ n, fromReprWithin ts (k + 1) (.named name) n = structFromRepr (fromReprWithin ts k)
      (Repr.fromText ts (fromReprWithin ts k)) fields strategy n := by
    intro n
    simp [fromReprWithin, target, hget]
  obtain ⟨K, rfl⟩ : ∃ K', K = K' + 1 := ⟨K - 1, by omega⟩
  simp only [hshape]
  cases strategy with
  | map => exact agree_struct_map ih hb hget hn hk (by omega)
  | listpairs => exact agree_struct_listpairs ih hb hget hn hk (by omega)
  | tuple => exact agree_struct_tuple ih hb hget hn hk (by omega)
  | stringjoin join =>
    refine agree_via_text hget (fun _ => rfl) (fun n => by simp [structFromRepr, Repr.expectText, ok_bind])
      fun s hs => ?_
    subst hs
    exact agree_struct_stringjoin iht hb hget s (by simp [Node.weight] at hk; omega)
      (by simp [Node.weight] at hK; omega)
  | stringpairs inner entry =>
    refine agree_via_text hget (fun _ => rfl) (fun n => by simp [structFromRepr, Repr.expectText, ok_bind])
      fun s hs => ?_
    subst hs
    exact agree_struct_stringpairs iht hb hget s (by simp [Node.weight] at hk; omega)
      (by simp [Node.weight] at hK; omega)

/-- A declared map, in each of its representations. -/
theorem agree_declared_map (ih : ReadersAgree ts k) (iht : TextsAgree ts k) (hb : ts.bindable = true)
    {kt : String} {v : Ref} {nullable : Bool} {strategy : MapStrategy}
    (hget : ts.get? name = some (.map kt v nullable strategy)) (hn : n.IntsIn64)
    (hk : 2 * n.weight ≤ k + 1) (hK : 16 * n.weight + 3 ≤ K) :
    Agree (Corresponds ts (.declared name)) (declaredFromNode ts (K + 2) name (.map kt v nullable strategy) n)
      (fromReprWithin ts (k + 1) (.named name) n) := by
  have hr : target ts (.named name) = .named (.map kt v nullable strategy) := by simp [target, hget]
  have ht := TypeSystem.bindableType_of_get? hb hget
  simp only [bindableType, Bool.and_eq_true] at ht
  obtain ⟨⟨hkt, hv⟩, -⟩ := ht
  obtain ⟨K, rfl⟩ : ∃ K', K = K' + 1 := ⟨K - 1, by omega⟩
  cases strategy with
  | map =>
    simp only [declaredFromNode]
    exact (agree_map ih hb (.inr hr) hkt hv hn hk (by omega)).map_left fun _ _ h => jsonOf_wrapped hget rfl h
  | listpairs => exact agree_map_listpairs ih hb hget hr hn hk (by omega)
  | stringpairs inner entry =>
    refine agree_via_text hget (fun _ => rfl)
      (fun n => by simp [fromReprWithin, hr, Repr.expectText, ok_bind]) fun s hs => ?_
    subst hs
    exact agree_map_stringpairs iht hb hget hr s (by simp [Node.weight] at hk; omega)
      (by simp [Node.weight] at hK; omega)

/-- A declared union, in each of its representations. -/
theorem agree_declared_union (ih : ReadersAgree ts k) (iht : TextsAgree ts k) (hb : ts.bindable = true)
    {members : List UnionMember} {strategy : UnionStrategy}
    (hget : ts.get? name = some (.union members strategy)) (hn : n.IntsIn64)
    (hk : 2 * n.weight + kindedBonus ts (.named name) ≤ k + 1)
    (hK : 16 * n.weight + (Shape.declared name).level ts ≤ K + 3) :
    Agree (Corresponds ts (.declared name)) (declaredFromNode ts (K + 2) name (.union members strategy) n)
      (fromReprWithin ts (k + 1) (.named name) n) := by
  have hshape : ∀ n, fromReprWithin ts (k + 1) (.named name) n = unionFromRepr (fromReprWithin ts k)
      (Repr.fromText ts (fromReprWithin ts k)) members strategy n := by
    intro n
    simp [fromReprWithin, target, hget]
  have hsix := Shape.six_le_level_declared ts name
  obtain ⟨K, rfl⟩ : ∃ K', K = K' + 1 := ⟨K - 1, by omega⟩
  simp only [hshape]
  cases strategy with
  | kinded =>
    have hkinded : kindedName ts name = true := by simp [kindedName, hget]
    simp only [kindedBonus, hkinded, if_true] at hk
    simp only [Shape.level, hkinded, if_true] at hK
    exact agree_union_kinded ih hb hget hn (by omega) (by omega)
  | keyed => exact agree_union_keyed ih hb hget hn (by omega) (by omega)
  | inline key => exact agree_union_inline ih hb hget hn (by omega) (by omega)
  | envelope key content => exact agree_union_envelope ih hb hget hn (by omega) (by omega)
  | stringPrefix =>
    refine agree_via_text hget (fun _ => rfl)
      (fun n => by simp [unionFromRepr, Repr.expectText, ok_bind]) fun s hs => ?_
    subst hs
    exact agree_union_stringPrefix iht hb hget s (by simp [Node.weight] at hk; omega)
      (by simp [Node.weight] at hK; omega)

/-- A declared enum, in each of its representations. -/
theorem agree_declared_enum {members : List EnumValue} {strategy : EnumStrategy}
    (hget : ts.get? name = some (.enum members strategy)) (hK : 1 ≤ K) :
    Agree (Corresponds ts (.declared name)) (declaredFromNode ts (K + 2) name (.enum members strategy) n)
      (fromReprWithin ts (k + 1) (.named name) n) := by
  have hshape : ∀ n, fromReprWithin ts (k + 1) (.named name) n = enumFromRepr members strategy n := by
    intro n
    simp [fromReprWithin, target, hget]
  obtain ⟨K, rfl⟩ : ∃ K', K = K' + 1 := ⟨K - 1, by omega⟩
  simp only [hshape]
  cases strategy with
  | int => exact agree_enum_int hget n
  | string =>
    exact agree_via_text hget (fun _ => rfl)
      (fun n => by simp [enumFromRepr, Repr.expectText, ok_bind]) fun s _ => agree_enum_string hget s

/-- A declared type: the full reader reads through the name to the type, the shape reader
reads the type's representation. -/
theorem agree_declared (ih : ReadersAgree ts k) (iht : TextsAgree ts k) (hb : ts.bindable = true)
    (hget : ts.get? name = some t) (hn : n.IntsIn64)
    (hk : 2 * n.weight + kindedBonus ts (.named name) ≤ k + 1)
    (hK : 16 * n.weight + (Shape.declared name).level ts ≤ K) :
    Agree (Corresponds ts (.declared name)) (fromNode ts K (.declared name) n)
      (fromReprWithin ts (k + 1) (.named name) n) := by
  have hr : target ts (.named name) = .named t := by simp [target, hget]
  have hsix := Shape.six_le_level_declared ts name
  have hpos := Node.weight_pos n
  have hk' : 2 * n.weight ≤ k + 1 := by omega
  obtain ⟨K, rfl⟩ : ∃ K', K = K' + 3 := ⟨K - 3, by omega⟩
  rw [fromNode_declared hget]
  cases t with
  | bool | int | float | string | bytes =>
    simp only [declaredFromNode]
    exact (agree_scalar hr (by simp) hn rfl).map_left fun _ _ h => jsonOf_wrapped hget rfl h
  | link e =>
    simp only [declaredFromNode]
    exact (agree_link (.inr ⟨e, hr⟩)).map_left fun _ _ h => jsonOf_wrapped hget rfl h
  | list v nullable =>
    have hv : refBound ts v = true := by simpa [bindableType] using TypeSystem.bindableType_of_get? hb hget
    simp only [declaredFromNode]
    exact (agree_items ih (.inr hr) hv hn hk' (by omega)).map_left fun _ _ h => jsonOf_wrapped hget rfl h
  | map kt v nullable strategy => exact agree_declared_map ih iht hb hget hn hk' (by omega)
  | struct fields strategy => exact agree_declared_struct ih iht hb hget hn hk' (by omega)
  | union members strategy => exact agree_declared_union ih iht hb hget hn hk (by omega)
  | enum members strategy => exact agree_declared_enum hget (by omega)

end Declared

/-! ## Every fuel -/

section Steps

variable {ts : TypeSystem} {k : Nat}

/-- Values read from a string agree one shape-reader step further: a scalar is read from the
text by both, any other type held in a string takes the text apart in both. -/
theorem textsAgree_succ (hb : ts.bindable = true) (iht : TextsAgree ts k) :
    TextsAgree ts (k + 1) := by
  intro r s K hr hk hK
  cases r with
  | named name =>
    simp only [textRef, Shape.ofRef] at hr hK ⊢
    have hk' : 2 * s.length + 1 ≤ k := by omega
    unfold textName at hr
    split at hr
    next hget => exact agree_named_scalar_text hb hget (by simp) s (by omega)
    next hget => exact agree_named_scalar_text hb hget (by simp) s (by omega)
    next hget => exact agree_named_scalar_text hb hget (by simp) s (by omega)
    next hget => exact agree_named_scalar_text hb hget (by simp) s (by omega)
    next members hget =>
      refine agree_declared_text hb hget (by simp) (fun K _ => ?_) hK
      simp only [Repr.fromText, target, hget, fromReprWithin, pure_bind]
      exact agree_enum_string hget s
    next kt v nullable inner entry hget =>
      refine agree_declared_text hb hget (by simp) (fun K hK' => ?_) hK
      simp only [Repr.fromText, target, hget, pure_bind]
      exact agree_map_stringpairs iht hb hget (by simp [target, hget]) s hk' hK'
    next fields join hget =>
      refine agree_declared_text hb hget (by simp) (fun K hK' => ?_) hK
      simp only [Repr.fromText, target, hget, fromReprWithin, pure_bind]
      exact agree_struct_stringjoin iht hb hget s hk' hK'
    next fields inner entry hget =>
      refine agree_declared_text hb hget (by simp) (fun K hK' => ?_) hK
      simp only [Repr.fromText, target, hget, fromReprWithin, pure_bind]
      exact agree_struct_stringpairs iht hb hget s hk' hK'
    next members hget =>
      refine agree_declared_text hb hget (by simp) (fun K hK' => ?_) hK
      simp only [Repr.fromText, target, hget, fromReprWithin, pure_bind]
      exact agree_union_stringPrefix iht hb hget s hk' hK'
    next => cases hr
  | _ => simp [textRef] at hr

/-- The two readers agree one shape-reader step further: a step of the shape reader on each
kind of reference is matched by the steps of the full reader. -/
theorem readersAgree_succ (hb : ts.bindable = true) (ih : ReadersAgree ts k) (iht : TextsAgree ts k) :
    ReadersAgree ts (k + 1) := by
  intro r n K hr hn hk hK
  have hpos := Node.weight_pos n
  cases r with
  | named name =>
    obtain ⟨t, hget⟩ := Option.isSome_iff_exists.1 hr
    have htarget : target ts (.named name) = .named t := by simp [target, hget]
    simp only [Shape.ofRef] at hK ⊢
    rcases ofName_cases hb hget with hdecl | ⟨hs, ht⟩
    · rw [hdecl] at hK ⊢
      exact agree_declared ih iht hb hget hn hk hK
    · have htwo := Shape.two_le_level ts (Shape.ofName name)
      obtain ⟨K, rfl⟩ : ∃ K', K = K' + 1 := ⟨K - 1, by omega⟩
      rcases ht with hscalar | ⟨e, rfl⟩
      · exact agree_scalar htarget hscalar hn hs
      · simp only [wrapperShape, Option.some.injEq] at hs
        rw [← hs]
        exact agree_link (.inr ⟨e, htarget⟩)
  | list v nullable =>
    simp only [refBound] at hr
    simp only [Shape.ofRef, Shape.level, kindedBonus] at hK hk ⊢
    obtain ⟨K, rfl⟩ : ∃ K', K = K' + 1 := ⟨K - 1, by omega⟩
    exact agree_items ih (.inl rfl) hr hn (by omega) (by omega)
  | map kt v nullable =>
    simp only [refBound, Bool.and_eq_true] at hr
    simp only [Shape.ofRef, Shape.level, kindedBonus] at hK hk ⊢
    obtain ⟨K, rfl⟩ : ∃ K', K = K' + 1 := ⟨K - 1, by omega⟩
    exact agree_map ih hb (.inl rfl) hr.1 hr.2 hn (by omega) (by omega)
  | link e =>
    simp only [Shape.ofRef, Shape.level] at hK ⊢
    obtain ⟨K, rfl⟩ : ∃ K', K = K' + 1 := ⟨K - 1, by omega⟩
    exact agree_link (.inl rfl)

/-- The two readers agree at every fuel of the shape reader: by induction on the fuel, each
step from the agreement one step before; no node fits in no fuel. -/
theorem readersAgree (hb : ts.bindable = true) : ∀ k, ReadersAgree ts k ∧ TextsAgree ts k := by
  intro k
  induction k with
  | zero =>
    constructor
    · intro r n K _ _ hk _
      have := Node.weight_pos n
      omega
    · intro r s K _ hk _
      omega
  | succ k ih =>
    have hr := readersAgree_succ hb ih.1 ih.2
    exact ⟨hr, textsAgree_succ hb ih.2⟩

end Steps

end Ipld.Typed
