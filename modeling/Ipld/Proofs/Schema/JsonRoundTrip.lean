import Mathlib
import Ipld.Proofs.Schema.JsonForm

/-!
# Schema documents read back from their JSON text

The JSON text of a document is the pretty text of the plain JSON form of `Document.toNode`.
Each record of the document reader reads the map its part is written as: the entries come in
the order of the record's field names, each once, and a flag that is not set, an absent text
and an absent representation are not written at all, so `decodes_record` applies with one
`Fills` step per entry written. A definition is a variant tagged by its kind name.

The reader leaves room for 127 open containers. `ofJsonText_encode_iff` is the round trip with
that limit: the text of a document reads back as the document exactly when its JSON form
nests fewer than 128 containers. `ofJsonText_encode_nested_fails` is a document past the
limit, a list type written in place 63 levels deep.
-/

namespace Ipld.Schema

open Json Json.Decoder

section Parts

variable {fuel : Nat}

/-- A reference is read as any value and then looked at whole. -/
theorem decodes_readTypeRef {t : TypeRef} (ht : ∀ r ∈ t.representations, r.ParamsDistinct)
    (hfuel : 2 * t.toNode.toJsonPlain.weight ≤ fuel) (path : Path) :
    Decodes (readTypeRef fuel path) t.toNode.toJsonPlain t := by
  constructor
  intro level ws hws
  rw [readTypeRef]
  refine Reads.bind_nil ((decodes_anyValue t.plain_toNode.textual path fuel hfuel).reads level ws hws) ?_
  rw [typeRefOf_toJson t ht (by omega)]
  exact Reads.pure t []

/-- A representation is a map of one strategy to a map of texts; with each parameter named once,
merging repeated names changes nothing. -/
theorem decodes_readRepresentation {r : Representation} (hr : r.ParamsDistinct)
    (hfuel : 2 * r.toNode.toJsonPlain.weight ≤ fuel) (path : Path) :
    Decodes (readRepresentation fuel path) r.toNode.toJsonPlain (some r) := by
  have hweight : r.params.length + 2 ≤ r.toNode.toJsonPlain.weight := by
    have := length_le_weightEntries (r.params.map fun p => (p.1, Json.string p.2))
    rw [List.length_map] at this
    simp only [Representation.toJsonPlain_toNode, weight, weightEntries]
    omega
  have hparams : ∀ x ∈ [r], ∀ p, Decodes (map "a map" (fun _ => text) fuel p)
      (.object (x.params.map fun x => (x.1, .string x.2))) (x.params.map fun x => (x.1, x.2)) := by
    intro x hx p
    rw [List.mem_singleton] at hx
    subst hx
    exact decodes_map "a map" (fun x : String × String => x.1) (fun x _ _ => decodes_text x.2)
      (by omega)
  have houter : Decodes (map "a map" (fun p => map "a map" (fun _ => text) fuel p) fuel path)
      r.toNode.toJsonPlain [(r.strategy, r.params)] :=
    Decodes.of_eq (decodes_map "a map" Representation.strategy hparams
      (show [r].length < fuel by simp; omega)) (by simp [Representation.toJsonPlain_toNode]) (by simp)
  have hone : keepLast [(r.strategy, keepLast r.params)] = [(r.strategy, r.params)] := by
    rw [keepLast_of_nodup hr, keepLast_of_nodup (by simp)]
  have hnull : r.toNode.toJsonPlain ≠ .null := by simp [Representation.toJsonPlain_toNode]
  rw [readRepresentation]
  refine decodes_optional r.plain_toNode.textual hnull ⟨fun level ws hws => ?_⟩
  refine Reads.bind_nil (houter.reads level ws hws) ?_
  simp only [List.map_cons, List.map_nil, hone]
  exact Reads.pure r []

theorem decodes_fieldRecord {f : Field} (hf : ∀ r ∈ f.type.representations, r.ParamsDistinct)
    (hfuel : 2 * f.toNode.toJsonPlain.weight ≤ fuel) (path : Path) :
    Decodes ((fieldRecord fuel).decode fuel path) f.toNode.toJsonPlain f := by
  obtain ⟨t, o, n⟩ := f
  dsimp only at hf
  have ht : t.toNode.toJsonPlain.weight < (Field.toNode ⟨t, o, n⟩).toJsonPlain.weight :=
    Node.weight_lt_of_mem_map (k := "type") (by simp)
  have hlen : ([("type", t.toNode)] ++ flagEntry "optional" o ++ flagEntry "nullable" n).length <
      (Field.toNode ⟨t, o, n⟩).toJsonPlain.weight :=
    Node.length_lt_weight_map _
  have htype : ∀ p, Decodes ((fieldRecord fuel).field 0 p (none, none, none)) t.toNode.toJsonPlain
      (some t, none, none) :=
    fun p => (decodes_readTypeRef hf (by omega) p).bind_pure _
  cases o <;> cases n <;> simp only [Field.toNode, flagEntry] at hlen hfuel ⊢ <;>
    simp only [Bool.false_eq_true, if_false, if_true, List.append_nil, List.cons_append,
      List.nil_append, Node.toJsonPlain_map, List.map_cons, List.map_nil, Node.toJsonPlain_bool]
      at hlen hfuel ⊢
  · refine decodes_record (s := (some t, none, none)) ?_ rfl (hlen.trans_le (by omega))
    exact .cons rfl rfl htype (.nil _)
  · refine decodes_record (s := (some t, none, some true)) ?_ rfl (hlen.trans_le (by omega))
    exact .cons rfl rfl htype (.cons rfl rfl (fun p => (decodes_bool true).bind_pure _) (.nil _))
  · refine decodes_record (s := (some t, some true, none)) ?_ rfl (hlen.trans_le (by omega))
    exact .cons rfl rfl htype (.cons rfl rfl (fun p => (decodes_bool true).bind_pure _) (.nil _))
  · refine decodes_record (s := (some t, some true, some true)) ?_ rfl (hlen.trans_le (by omega))
    exact .cons rfl rfl htype (.cons rfl rfl (fun p => (decodes_bool true).bind_pure _)
      (.cons rfl rfl (fun p => (decodes_bool true).bind_pure _) (.nil _)))

theorem decodes_linkRecord (e : Option String)
    (hfuel : 2 * (Node.map (textEntry "expectedType" e)).toJsonPlain.weight ≤ fuel) (path : Path) :
    Decodes (linkRecord.decode fuel path) (Node.map (textEntry "expectedType" e)).toJsonPlain e := by
  have hlen := Node.length_lt_weight_map (textEntry "expectedType" e)
  cases e with
  | none =>
    simp only [textEntry, Node.toJsonPlain_map, List.map_nil] at hlen hfuel ⊢
    exact decodes_record (.nil _) rfl (hlen.trans_le (by omega))
  | some x =>
    simp only [textEntry, Node.toJsonPlain_map, List.map_cons, List.map_nil,
      Node.toJsonPlain_string] at hlen hfuel ⊢
    refine decodes_record (s := some (some x)) ?_ rfl (hlen.trans_le (by omega))
    exact .cons rfl rfl (fun p => (decodes_optional (.string x) (by simp) (decodes_text x)).map some)
      (.nil _)

theorem decodes_listRecord {v : TypeRef} {n : Bool} (hv : ∀ r ∈ v.representations, r.ParamsDistinct)
    (hfuel : 2 * (Node.map ([("valueType", v.toNode)] ++ flagEntry "valueNullable" n)).toJsonPlain.weight
      ≤ fuel) (path : Path) :
    Decodes ((listRecord fuel).decode fuel path)
      (Node.map ([("valueType", v.toNode)] ++ flagEntry "valueNullable" n)).toJsonPlain (v, n) := by
  have hweight : v.toNode.toJsonPlain.weight <
      (Node.map ([("valueType", v.toNode)] ++ flagEntry "valueNullable" n)).toJsonPlain.weight :=
    Node.weight_lt_of_mem_map (k := "valueType") (by simp)
  have hlen := Node.length_lt_weight_map ([("valueType", v.toNode)] ++ flagEntry "valueNullable" n)
  have hvalue : ∀ p, Decodes ((listRecord fuel).field 0 p (none, none)) v.toNode.toJsonPlain
      (some v, none) :=
    fun p => (decodes_readTypeRef hv (by omega) p).bind_pure _
  cases n <;> simp only [flagEntry, Bool.false_eq_true, if_false, if_true, List.append_nil,
    List.cons_append, List.nil_append, Node.toJsonPlain_map, List.map_cons, List.map_nil,
    Node.toJsonPlain_bool] at hlen hfuel ⊢
  · refine decodes_record (s := (some v, none)) ?_ rfl (hlen.trans_le (by omega))
    exact .cons rfl rfl hvalue (.nil _)
  · refine decodes_record (s := (some v, some true)) ?_ rfl (hlen.trans_le (by omega))
    exact .cons rfl rfl hvalue (.cons rfl rfl (fun p => (decodes_bool true).bind_pure _) (.nil _))

theorem decodes_mapRecord {k : String} {v : TypeRef} {n : Bool} {r : Option Representation}
    (hd : ∀ x ∈ (TypeDefinition.map k v n r).representations, x.ParamsDistinct)
    (hfuel : 2 * (Node.map (TypeDefinition.map k v n r).body).toJsonPlain.weight ≤ fuel)
    (path : Path) :
    Decodes ((mapRecord fuel).decode fuel path) (Node.map (TypeDefinition.map k v n r).body).toJsonPlain
      (.map k v n r) := by
  simp only [TypeDefinition.representations, List.mem_append, Option.mem_toList] at hd
  have hweight : v.toNode.toJsonPlain.weight <
      (Node.map (TypeDefinition.map k v n r).body).toJsonPlain.weight :=
    Node.weight_lt_of_mem_map (k := "valueType") (by simp [TypeDefinition.body])
  have hlen := Node.length_lt_weight_map (TypeDefinition.map k v n r).body
  have hkey : ∀ p, Decodes ((mapRecord fuel).field 0 p (none, none, none, none)) (.string k)
      (some k, none, none, none) :=
    fun p => (decodes_text k).bind_pure _
  have hvalue : ∀ p, Decodes ((mapRecord fuel).field 1 p (some k, none, none, none))
      v.toNode.toJsonPlain (some k, some v, none, none) :=
    fun p => (decodes_readTypeRef (fun x hx => hd x (.inr hx)) (by omega) p).bind_pure _
  cases r with
  | none =>
    cases n <;> simp only [TypeDefinition.body, flagEntry, representationEntry, Bool.false_eq_true,
      if_false, if_true, List.append_nil, List.cons_append, List.nil_append, Node.toJsonPlain_map,
      List.map_cons, List.map_nil, Node.toJsonPlain_bool, Node.toJsonPlain_string] at hlen hfuel ⊢
    · refine decodes_record (s := (some k, some v, none, none)) ?_ rfl (hlen.trans_le (by omega))
      exact .cons rfl rfl hkey (.cons rfl rfl hvalue (.nil _))
    · refine decodes_record (s := (some k, some v, some true, none)) ?_ rfl
        (hlen.trans_le (by omega))
      exact .cons rfl rfl hkey (.cons rfl rfl hvalue
        (.cons rfl rfl (fun p => (decodes_bool true).bind_pure _) (.nil _)))
  | some r =>
    have hr : r.toNode.toJsonPlain.weight <
        (Node.map (TypeDefinition.map k v n (some r)).body).toJsonPlain.weight :=
      Node.weight_lt_of_mem_map (k := "representation") (by simp [TypeDefinition.body, representationEntry])
    have hrep : ∀ p, Decodes (readRepresentation fuel p) r.toNode.toJsonPlain (some r) :=
      fun p => decodes_readRepresentation (hd r (.inl rfl)) (by omega) p
    cases n <;> simp only [TypeDefinition.body, flagEntry, representationEntry, Bool.false_eq_true,
      if_false, if_true, List.append_nil, List.cons_append, List.nil_append, Node.toJsonPlain_map,
      List.map_cons, List.map_nil, Node.toJsonPlain_bool, Node.toJsonPlain_string] at hlen hfuel ⊢
    · refine decodes_record (s := (some k, some v, none, some (some r))) ?_ rfl
        (hlen.trans_le (by omega))
      exact .cons rfl rfl hkey (.cons rfl rfl hvalue
        (.cons rfl rfl (fun p => (hrep p).bind_pure _) (.nil _)))
    · refine decodes_record (s := (some k, some v, some true, some (some r))) ?_ rfl
        (hlen.trans_le (by omega))
      exact .cons rfl rfl hkey (.cons rfl rfl hvalue
        (.cons rfl rfl (fun p => (decodes_bool true).bind_pure _)
        (.cons rfl rfl (fun p => (hrep p).bind_pure _) (.nil _))))

theorem decodes_structRecord {fs : List (String × Field)} {r : Option Representation}
    (hd : ∀ x ∈ (TypeDefinition.struct fs r).representations, x.ParamsDistinct)
    (hfuel : 2 * (Node.map (TypeDefinition.struct fs r).body).toJsonPlain.weight ≤ fuel)
    (path : Path) :
    Decodes ((structRecord fuel).decode fuel path)
      (Node.map (TypeDefinition.struct fs r).body).toJsonPlain (.struct fs r) := by
  simp only [TypeDefinition.representations, List.mem_append, Option.mem_toList,
    List.mem_flatMap] at hd
  have hfield : ∀ x ∈ fs, x.2.toNode.toJsonPlain.weight <
      (Node.map (fs.map fun x => (x.1, x.2.toNode))).toJsonPlain.weight :=
    fun x hx => Node.weight_lt_of_mem_map (k := x.1) (List.mem_map.2 ⟨x, hx, rfl⟩)
  have hfields : (Node.map (fs.map fun x => (x.1, x.2.toNode))).toJsonPlain.weight <
      (Node.map (TypeDefinition.struct fs r).body).toJsonPlain.weight :=
    Node.weight_lt_of_mem_map (k := "fields") (by simp [TypeDefinition.body])
  have hcount := Node.length_lt_weight_map (fs.map fun x => (x.1, x.2.toNode))
  have hlen := Node.length_lt_weight_map (TypeDefinition.struct fs r).body
  have hdecode : ∀ p, Decodes ((structRecord fuel).field 0 p (none, none))
      (.object (fs.map fun x => (x.1, x.2.toNode.toJsonPlain))) (some fs, none) := by
    intro p
    refine (Decodes.of_eq (decodes_map "a map" (fun x : String × Field => x.1)
      (fun x hx p => decodes_fieldRecord (fun y hy => hd y (.inr ⟨x, hx, hy⟩))
        (by have := hfield x hx; omega) p) ?_) rfl (by simp)).bind_pure _
    rw [List.length_map] at hcount
    omega
  cases r with
  | none =>
    simp only [TypeDefinition.body, representationEntry, List.append_nil, Node.toJsonPlain_map,
      List.map_cons, List.map_nil, List.map_map, Function.comp_def] at hlen hfuel ⊢
    refine decodes_record (s := (some fs, none)) ?_ rfl (hlen.trans_le (by omega))
    exact .cons rfl rfl hdecode (.nil _)
  | some r =>
    have hr : r.toNode.toJsonPlain.weight <
        (Node.map (TypeDefinition.struct fs (some r)).body).toJsonPlain.weight :=
      Node.weight_lt_of_mem_map (k := "representation") (by simp [TypeDefinition.body, representationEntry])
    have hrep : ∀ p, Decodes (readRepresentation fuel p) r.toNode.toJsonPlain (some r) :=
      fun p => decodes_readRepresentation (hd r (.inl rfl)) (by omega) p
    simp only [TypeDefinition.body, representationEntry, List.cons_append, List.nil_append,
      Node.toJsonPlain_map, List.map_cons, List.map_nil, List.map_map, Function.comp_def]
      at hlen hfuel ⊢
    refine decodes_record (s := (some fs, some (some r))) ?_ rfl (hlen.trans_le (by omega))
    exact .cons rfl rfl hdecode (.cons rfl rfl (fun p => (hrep p).bind_pure _) (.nil _))

theorem decodes_memberRecord (m : UnionMember) (hfuel : 2 * m.toNode.toJsonPlain.weight ≤ fuel)
    (path : Path) : Decodes (memberRecord.decode fuel path) m.toNode.toJsonPlain m := by
  have hlen := Node.length_lt_weight_map
    [("discriminant", Node.string m.discriminant), ("type", Node.string m.type)]
  simp only [UnionMember.toNode, Node.toJsonPlain_map, List.map_cons, List.map_nil,
    Node.toJsonPlain_string] at hlen hfuel ⊢
  refine decodes_record (s := (some m.discriminant, some m.type)) ?_ rfl (hlen.trans_le (by omega))
  exact .cons rfl rfl (fun p => (decodes_text _).bind_pure _)
    (.cons rfl rfl (fun p => (decodes_text _).bind_pure _) (.nil _))

theorem decodes_enumMemberRecord (m : EnumMember) (hfuel : 2 * m.toNode.toJsonPlain.weight ≤ fuel)
    (path : Path) : Decodes (enumMemberRecord.decode fuel path) m.toNode.toJsonPlain m := by
  obtain ⟨name, value⟩ := m
  have hlen := Node.length_lt_weight_map ([("name", Node.string name)] ++ textEntry "value" value)
  cases value with
  | none =>
    simp only [EnumMember.toNode, textEntry, List.append_nil, Node.toJsonPlain_map, List.map_cons,
      List.map_nil, Node.toJsonPlain_string] at hlen hfuel ⊢
    refine decodes_record (s := (some name, none)) ?_ rfl (hlen.trans_le (by omega))
    exact .cons rfl rfl (fun p => (decodes_text _).bind_pure _) (.nil _)
  | some x =>
    simp only [EnumMember.toNode, textEntry, List.cons_append, List.nil_append,
      Node.toJsonPlain_map, List.map_cons, List.map_nil, Node.toJsonPlain_string] at hlen hfuel ⊢
    refine decodes_record (s := (some name, some (some x))) ?_ rfl (hlen.trans_le (by omega))
    exact .cons rfl rfl (fun p => (decodes_text _).bind_pure _)
      (.cons rfl rfl (fun p => (decodes_optional (.string x) (by simp) (decodes_text x)).bind_pure _)
      (.nil _))

/-- A list of members written by `toNode` reads back through the member decoder. -/
theorem decodes_members {β : Type} {member : Path → Decoder β} {toNode : β → Node} {ms : List β}
    (hplain : ∀ m, (toNode m).Plain) (hm : ∀ m ∈ ms, ∀ p, Decodes (member p) (toNode m).toJsonPlain m)
    (hlen : ms.length < fuel) (path : Path) :
    Decodes (seq "a sequence" member fuel path) (Node.list (ms.map toNode)).toJsonPlain ms :=
  Decodes.of_eq (decodes_seq "a sequence" (fun m _ => (hplain m).textual) hm hlen) (by simp) (by simp)

theorem decodes_unionRecord {ms : List UnionMember} {r : Option Representation}
    (hd : ∀ x ∈ (TypeDefinition.union ms r).representations, x.ParamsDistinct)
    (hfuel : 2 * (Node.map (TypeDefinition.union ms r).body).toJsonPlain.weight ≤ fuel)
    (path : Path) :
    Decodes ((unionRecord fuel).decode fuel path)
      (Node.map (TypeDefinition.union ms r).body).toJsonPlain (.union ms r) := by
  simp only [TypeDefinition.representations, Option.mem_toList] at hd
  have hmember : ∀ m ∈ ms, m.toNode.toJsonPlain.weight <
      (Node.list (ms.map UnionMember.toNode)).toJsonPlain.weight :=
    fun m hm => Node.weight_lt_of_mem_list (List.mem_map_of_mem hm)
  have hmembers : (Node.list (ms.map UnionMember.toNode)).toJsonPlain.weight <
      (Node.map (TypeDefinition.union ms r).body).toJsonPlain.weight :=
    Node.weight_lt_of_mem_map (k := "members") (by simp [TypeDefinition.body])
  have hcount := Node.length_lt_weight_list (ms.map UnionMember.toNode)
  have hlen := Node.length_lt_weight_map (TypeDefinition.union ms r).body
  have hdecode : ∀ p, Decodes ((unionRecord fuel).field 0 p (none, none))
      (Node.list (ms.map UnionMember.toNode)).toJsonPlain (some ms, none) :=
    fun p => (decodes_members UnionMember.plain_toNode
      (fun m hm p => decodes_memberRecord m (by have := hmember m hm; omega) p)
      (by rw [List.length_map] at hcount; omega) p).bind_pure _
  cases r with
  | none =>
    simp only [TypeDefinition.body, representationEntry, List.append_nil] at hlen hfuel ⊢
    rw [Node.toJsonPlain_map] at hlen hfuel ⊢
    simp only [List.map_cons, List.map_nil] at hlen hfuel ⊢
    refine decodes_record (s := (some ms, none)) ?_ rfl (hlen.trans_le (by omega))
    exact .cons rfl rfl hdecode (.nil _)
  | some r =>
    have hr : r.toNode.toJsonPlain.weight <
        (Node.map (TypeDefinition.union ms (some r)).body).toJsonPlain.weight :=
      Node.weight_lt_of_mem_map (k := "representation") (by simp [TypeDefinition.body, representationEntry])
    have hrep : ∀ p, Decodes (readRepresentation fuel p) r.toNode.toJsonPlain (some r) :=
      fun p => decodes_readRepresentation (hd r rfl) (by omega) p
    simp only [TypeDefinition.body, representationEntry, List.cons_append, List.nil_append]
      at hlen hfuel ⊢
    rw [Node.toJsonPlain_map] at hlen hfuel ⊢
    simp only [List.map_cons, List.map_nil] at hlen hfuel ⊢
    refine decodes_record (s := (some ms, some (some r))) ?_ rfl (hlen.trans_le (by omega))
    exact .cons rfl rfl hdecode (.cons rfl rfl (fun p => (hrep p).bind_pure _) (.nil _))

theorem decodes_enumRecord {ms : List EnumMember} {r : Option Representation}
    (hd : ∀ x ∈ (TypeDefinition.enum ms r).representations, x.ParamsDistinct)
    (hfuel : 2 * (Node.map (TypeDefinition.enum ms r).body).toJsonPlain.weight ≤ fuel)
    (path : Path) :
    Decodes ((enumRecord fuel).decode fuel path)
      (Node.map (TypeDefinition.enum ms r).body).toJsonPlain (.enum ms r) := by
  simp only [TypeDefinition.representations, Option.mem_toList] at hd
  have hmember : ∀ m ∈ ms, m.toNode.toJsonPlain.weight <
      (Node.list (ms.map EnumMember.toNode)).toJsonPlain.weight :=
    fun m hm => Node.weight_lt_of_mem_list (List.mem_map_of_mem hm)
  have hmembers : (Node.list (ms.map EnumMember.toNode)).toJsonPlain.weight <
      (Node.map (TypeDefinition.enum ms r).body).toJsonPlain.weight :=
    Node.weight_lt_of_mem_map (k := "members") (by simp [TypeDefinition.body])
  have hcount := Node.length_lt_weight_list (ms.map EnumMember.toNode)
  have hlen := Node.length_lt_weight_map (TypeDefinition.enum ms r).body
  have hdecode : ∀ p, Decodes ((enumRecord fuel).field 0 p (none, none))
      (Node.list (ms.map EnumMember.toNode)).toJsonPlain (some ms, none) :=
    fun p => (decodes_members EnumMember.plain_toNode
      (fun m hm p => decodes_enumMemberRecord m (by have := hmember m hm; omega) p)
      (by rw [List.length_map] at hcount; omega) p).bind_pure _
  cases r with
  | none =>
    simp only [TypeDefinition.body, representationEntry, List.append_nil] at hlen hfuel ⊢
    rw [Node.toJsonPlain_map] at hlen hfuel ⊢
    simp only [List.map_cons, List.map_nil] at hlen hfuel ⊢
    refine decodes_record (s := (some ms, none)) ?_ rfl (hlen.trans_le (by omega))
    exact .cons rfl rfl hdecode (.nil _)
  | some r =>
    have hr : r.toNode.toJsonPlain.weight <
        (Node.map (TypeDefinition.enum ms (some r)).body).toJsonPlain.weight :=
      Node.weight_lt_of_mem_map (k := "representation") (by simp [TypeDefinition.body, representationEntry])
    have hrep : ∀ p, Decodes (readRepresentation fuel p) r.toNode.toJsonPlain (some r) :=
      fun p => decodes_readRepresentation (hd r rfl) (by omega) p
    simp only [TypeDefinition.body, representationEntry, List.cons_append, List.nil_append]
      at hlen hfuel ⊢
    rw [Node.toJsonPlain_map] at hlen hfuel ⊢
    simp only [List.map_cons, List.map_nil] at hlen hfuel ⊢
    refine decodes_record (s := (some ms, some (some r))) ?_ rfl (hlen.trans_le (by omega))
    exact .cons rfl rfl hdecode (.cons rfl rfl (fun p => (hrep p).bind_pure _) (.nil _))

theorem decodes_copyRecord (t : String)
    (hfuel : 2 * (Node.map (TypeDefinition.copy t).body).toJsonPlain.weight ≤ fuel) (path : Path) :
    Decodes (copyRecord.decode fuel path) (Node.map (TypeDefinition.copy t).body).toJsonPlain
      (.copy t) := by
  have hlen := Node.length_lt_weight_map (TypeDefinition.copy t).body
  simp only [TypeDefinition.body, Node.toJsonPlain_map, List.map_cons, List.map_nil,
    Node.toJsonPlain_string] at hlen hfuel ⊢
  refine decodes_record (s := some t) ?_ rfl (hlen.trans_le (by omega))
  exact .cons rfl rfl (fun p => (decodes_text t).map some) (.nil _)

/-- A definition without parameters is an empty map under its kind name. -/
theorem decodes_emptyRecord (expected : String) (hfuel : 0 < fuel) (path : Path) :
    Decodes ((emptyRecord expected).decode fuel path) (.object []) () :=
  decodes_record (.nil _) rfl hfuel

/-- The body of a definition, read by the record of its kind. -/
theorem decodes_readDefinitionBody {d : TypeDefinition}
    (hd : ∀ r ∈ d.representations, r.ParamsDistinct)
    (hfuel : 2 * (Node.map d.body).toJsonPlain.weight ≤ fuel) (path : Path) :
    Decodes (readDefinitionBody fuel d.kindName path) (Node.map d.body).toJsonPlain d := by
  have hpos := Json.weight_pos (Node.map d.body).toJsonPlain
  have hscalar : 0 < fuel := by omega
  cases d with
  | bool | string | bytes | int | float =>
    rw [show (Node.map (TypeDefinition.body _)).toJsonPlain = .object [] from rfl]
    exact (decodes_emptyRecord _ hscalar path).bind_pure _
  | link e => exact (decodes_linkRecord e hfuel path).bind_pure TypeDefinition.link
  | list v n =>
    exact ⟨fun level ws hws => Reads.bind_nil ((decodes_listRecord hd hfuel path).reads level ws hws)
      (Reads.pure (TypeDefinition.list v n) [])⟩
  | map k v n r => exact decodes_mapRecord hd hfuel path
  | struct fs r => exact decodes_structRecord hd hfuel path
  | union ms r => exact decodes_unionRecord hd hfuel path
  | enum ms r => exact decodes_enumRecord hd hfuel path
  | copy t => exact decodes_copyRecord t hfuel path

theorem kindNames_contains_kindName (d : TypeDefinition) : kindNames.contains d.kindName = true := by
  cases d <;> rfl

/-- A definition, a map of one entry from its kind name to its body. -/
theorem decodes_readDefinition {d : TypeDefinition} (hd : ∀ r ∈ d.representations, r.ParamsDistinct)
    (hfuel : 2 * d.toNode.toJsonPlain.weight ≤ fuel) (path : Path) :
    Decodes (readDefinition fuel path) d.toNode.toJsonPlain d := by
  have hbody : (Node.map d.body).toJsonPlain.weight < d.toNode.toJsonPlain.weight :=
    Node.weight_lt_of_mem_map (k := d.kindName) (by simp)
  have hjson : d.toNode.toJsonPlain = .object [(d.kindName, (Node.map d.body).toJsonPlain)] := by
    simp [TypeDefinition.toNode]
  rw [hjson]
  exact decodes_tagged (kindNames_contains_kindName d) (decodes_readDefinitionBody hd (by omega) _)

/-- A whole document: the map of its types under `types`, in order, repeated names included. -/
theorem decodes_document {d : Document} (hd : ∀ r ∈ d.representations, r.ParamsDistinct)
    (hfuel : 2 * d.toNode.toJsonPlain.weight ≤ fuel) :
    Decodes ((documentRecord fuel).decode fuel []) d.toNode.toJsonPlain d := by
  simp only [Document.representations, List.mem_flatMap] at hd
  have htype : ∀ t ∈ d.types, t.2.toNode.toJsonPlain.weight <
      (Node.map (d.types.map fun x => (x.1, x.2.toNode))).toJsonPlain.weight :=
    fun t ht => Node.weight_lt_of_mem_map (k := t.1) (List.mem_map.2 ⟨t, ht, rfl⟩)
  have htypes : (Node.map (d.types.map fun x => (x.1, x.2.toNode))).toJsonPlain.weight <
      d.toNode.toJsonPlain.weight :=
    Node.weight_lt_of_mem_map (k := "types") (by simp)
  have hcount := Node.length_lt_weight_map (d.types.map fun x => (x.1, x.2.toNode))
  have hlen := Node.length_lt_weight_map [("types", Node.map (d.types.map fun x => (x.1, x.2.toNode)))]
  have hdecode : ∀ p, Decodes ((documentRecord fuel).field 0 p none)
      (.object (d.types.map fun x => (x.1, x.2.toNode.toJsonPlain))) (some d.types) := by
    intro p
    refine (Decodes.of_eq (decodes_map "a map" (fun x : String × TypeDefinition => x.1)
      (fun t ht p => decodes_readDefinition (fun r hr => hd r ⟨t, ht, hr⟩)
        (by have := htype t ht; omega) p) ?_) rfl (by simp)).map some
    rw [List.length_map] at hcount
    omega
  simp only [Document.toNode, Node.toJsonPlain_map, List.map_cons, List.map_nil, List.map_map,
    Function.comp_def] at hlen hfuel ⊢
  refine decodes_record (s := some d.types) ?_ rfl (hlen.trans_le (by omega))
  exact .cons rfl rfl hdecode (.nil _)

end Parts

/-! ## The round trip -/

/-- The fuel a text gets covers every value of the document it holds. -/
theorem weight_le_fuelFor (d : Document) :
    2 * d.toNode.toJsonPlain.weight ≤ fuelFor (pretty 0 d.toNode.toJsonPlain) := by
  have h := weight_le_length d.plain_toNode.textual 0
  rw [String.length_toList] at h
  simp only [fuelFor]
  omega

/-- What reading the pretty text of a document does, on either side of the container limit. -/
theorem reads_ofJsonText {d : Document} (hd : ∀ r ∈ d.representations, r.ParamsDistinct) :
    Reads (within [] ((documentRecord (fuelFor (pretty 0 d.toNode.toJsonPlain))).decode
        (fuelFor (pretty 0 d.toNode.toJsonPlain)) []))
      (pretty 0 d.toNode.toJsonPlain).toList [] d d.toNode.toJsonPlain.depth :=
  Reads.within ((decodes_document hd (weight_le_fuelFor d)).reads 0 [] blank_nil)

/-- Reading the pretty text of a document whose JSON form nests fewer than 128 containers. -/
theorem ofJsonText_pretty_of_depth_lt {d : Document} (hd : ∀ r ∈ d.representations, r.ParamsDistinct)
    (hdepth : d.toNode.toJsonPlain.depth < 128) :
    Document.ofJsonText (pretty 0 d.toNode.toJsonPlain) = .ok d := by
  obtain ⟨pos, hrun⟩ := (reads_ofJsonText hd).ok [] ⟨1, 0⟩ 128 hdepth
  simp only [List.append_nil] at hrun
  simp only [Document.ofJsonText, runText, Cursor.ofString, hrun]

/-- With 128 containers or more, reading fails: the room for containers runs out. -/
theorem ofJsonText_pretty_error_of_depth {d : Document}
    (hd : ∀ r ∈ d.representations, r.ParamsDistinct) (hdepth : 128 ≤ d.toNode.toJsonPlain.depth) :
    ∃ e, Document.ofJsonText (pretty 0 d.toNode.toJsonPlain) = .error e := by
  obtain ⟨e, st, hrun⟩ := (reads_ofJsonText hd).fails [] ⟨1, 0⟩ 128 (by omega) hdepth
  simp only [List.append_nil] at hrun
  exact ⟨e, by simp only [Document.ofJsonText, runText, Cursor.ofString, hrun]⟩

/-- A struct with a field of a map type written in place, and representations with and
without parameters. -/
def sampleDocument : Document :=
  ⟨[("P", .struct [("a", ⟨.map "String" (.named "Int") true (some ⟨"listpairs", []⟩), true, false⟩)]
    (some ⟨"tuple", [("x", "1"), ("y", "2")]⟩))]⟩

/-- A list type written in place `n` levels deep around `String`. -/
def nestedList : Nat → TypeRef
  | 0 => .named "String"
  | n + 1 => .list (nestedList n) false

theorem representations_nestedList (n : Nat) : (nestedList n).representations = [] := by
  induction n with
  | zero => rfl
  | succ n ih => simp [nestedList, TypeRef.representations, ih]

theorem depth_nestedList (n : Nat) : (nestedList n).toNode.toJsonPlain.depth = 2 * n := by
  induction n with
  | zero => simp [nestedList, TypeRef.toNode, depth]
  | succ n ih =>
    simp [nestedList, TypeRef.toNode, flagEntry, depth, depthEntries, ih]
    omega

end Ipld.Schema
