import Mathlib
import Ipld.Proofs.Json.Decoding
import Ipld.Schema.DocumentJson
import Ipld.Codec.Encoder

/-!
# The JSON form of a schema document

`Document.toNode` builds a document out of maps, lists, strings and booleans only. Such a
value is accepted by the JSON encoder, which writes the pretty text of its plain JSON form
(`Node.Plain.encode_json`), and that form holds no number (`Node.Plain.textual`), so the
untyped reader takes it back whole.

References are read whole and looked at afterwards (`typeRefOf`), representations through
a keyed map that keeps the first position and the last value of a name. Both give back what
was written (`typeRefOf_toJson`, `representationOf_toJson`) when each representation names
its parameters once, the only documents a keyed map of parameters can hold.
-/

namespace Ipld

namespace Node

/-- A value built from null, booleans, strings, lists and maps: no number, byte string or
link anywhere in it. -/
inductive Plain : Node → Prop
  | null : Plain .null
  | bool (b : Bool) : Plain (.bool b)
  | string (s : String) : Plain (.string s)
  | list {items : List Node} : (∀ n ∈ items, Plain n) → Plain (.list items)
  | map {entries : List (String × Node)} : (∀ e ∈ entries, Plain e.2) → Plain (.map entries)

@[simp] theorem toJsonPlainList_eq_map (items : List Node) :
    toJsonPlainList items = items.map toJsonPlain := by
  induction items with
  | nil => rfl
  | cons n rest ih => simp [toJsonPlainList, ih]

@[simp] theorem toJsonPlainEntries_eq_map (entries : List (String × Node)) :
    toJsonPlainEntries entries = entries.map fun e => (e.1, e.2.toJsonPlain) := by
  induction entries with
  | nil => rfl
  | cons e rest ih =>
    obtain ⟨k, n⟩ := e
    simp [toJsonPlainEntries, ih]

@[simp] theorem toJsonPlain_map (entries : List (String × Node)) :
    (map entries).toJsonPlain = .object (entries.map fun e => (e.1, e.2.toJsonPlain)) := by
  simp [toJsonPlain]

@[simp] theorem toJsonPlain_list (items : List Node) :
    (list items).toJsonPlain = .array (items.map toJsonPlain) := by
  simp [toJsonPlain]

@[simp] theorem toJsonPlain_string (s : String) : (string s).toJsonPlain = .string s := by
  simp [toJsonPlain]

@[simp] theorem toJsonPlain_bool (b : Bool) : (bool b).toJsonPlain = .bool b := by
  simp [toJsonPlain]

theorem weight_lt_of_mem_map {entries : List (String × Node)} {k : String} {n : Node}
    (h : (k, n) ∈ entries) : n.toJsonPlain.weight < (map entries).toJsonPlain.weight := by
  have := Json.weight_le_weightEntries (List.mem_map_of_mem (f := fun e => (e.1, e.2.toJsonPlain)) h)
  dsimp only at this
  simp only [toJsonPlain_map, Json.weight]
  omega

theorem length_lt_weight_map (entries : List (String × Node)) :
    entries.length < (map entries).toJsonPlain.weight := by
  have := Json.length_le_weightEntries (entries.map fun e => (e.1, e.2.toJsonPlain))
  simp only [List.length_map] at this
  simp only [toJsonPlain_map, Json.weight]
  omega

theorem weight_lt_of_mem_list {items : List Node} {n : Node} (h : n ∈ items) :
    n.toJsonPlain.weight < (list items).toJsonPlain.weight := by
  have := Json.weight_le_weightList (List.mem_map_of_mem (f := toJsonPlain) h)
  simp only [toJsonPlain_list, Json.weight]
  omega

theorem length_lt_weight_list (items : List Node) : items.length < (list items).toJsonPlain.weight := by
  have := Json.length_le_weightList (items.map toJsonPlain)
  simp only [List.length_map] at this
  simp only [toJsonPlain_list, Json.weight]
  omega

theorem Plain.textual {n : Node} (h : Plain n) : Json.Textual n.toJsonPlain := by
  induction h with
  | null => exact .null
  | bool b => exact .bool b
  | string s => exact .string s
  | list _ ih =>
    rw [toJsonPlain_list]
    exact .array (by simpa using ih)
  | map _ ih =>
    rw [toJsonPlain_map]
    refine .object fun e he => ?_
    obtain ⟨e', he', rfl⟩ := List.mem_map.1 he
    exact ih e' he'

theorem findKindList_eq_none {k : Kind} {items : List Node} (h : ∀ n ∈ items, findKind k n = none) :
    findKindList k items = none := by
  induction items with
  | nil => rfl
  | cons n rest ih => simp [findKindList, h n (by simp), ih (fun m hm => h m (by simp [hm]))]

theorem findKindEntries_eq_none {k : Kind} {entries : List (String × Node)}
    (h : ∀ e ∈ entries, findKind k e.2 = none) : findKindEntries k entries = none := by
  induction entries with
  | nil => rfl
  | cons e rest ih =>
    obtain ⟨key, n⟩ := e
    simp [findKindEntries, h (key, n) (by simp), ih (fun m hm => h m (by simp [hm]))]

/-- A plain value holds no byte string and no link. -/
theorem Plain.findKind_eq_none {n : Node} (h : Plain n) {k : Kind} (hk : k = .bytes ∨ k = .link) :
    findKind k n = none := by
  have hne : ∀ m : Kind, m ∈ [Kind.null, .bool, .string, .list, .map] → (m == k) = false := by
    rcases hk with rfl | rfl <;> decide
  induction h with
  | null => simp [findKind, kind, hne]
  | bool b => simp [findKind, kind, hne]
  | string s => simp [findKind, kind, hne]
  | list _ ih => simp [findKind, kind, hne, findKindList_eq_none ih]
  | map _ ih => simp [findKind, kind, hne, findKindEntries_eq_none ih]

theorem firstNonFiniteList_eq_none {items : List Node} (h : ∀ n ∈ items, firstNonFinite n = none) :
    firstNonFiniteList items = none := by
  induction items with
  | nil => rfl
  | cons n rest ih => simp [firstNonFiniteList, h n (by simp), ih (fun m hm => h m (by simp [hm]))]

theorem firstNonFiniteEntries_eq_none {entries : List (String × Node)}
    (h : ∀ e ∈ entries, firstNonFinite e.2 = none) : firstNonFiniteEntries entries = none := by
  induction entries with
  | nil => rfl
  | cons e rest ih =>
    obtain ⟨key, n⟩ := e
    simp [firstNonFiniteEntries, h (key, n) (by simp), ih (fun m hm => h m (by simp [hm]))]

/-- A plain value holds no float, finite or not. -/
theorem Plain.firstNonFinite_eq_none {n : Node} (h : Plain n) : firstNonFinite n = none := by
  induction h with
  | null | bool _ | string _ => rfl
  | list _ ih => exact firstNonFiniteList_eq_none ih
  | map _ ih => exact firstNonFiniteEntries_eq_none ih

/-- The JSON encoder writes a plain value as the pretty text of its plain JSON form. -/
theorem Plain.encode_json {n : Node} (h : Plain n) :
    Encoder.json.encode n = .ok (.text (Json.pretty 0 n.toJsonPlain)) := by
  have hbytes : n.contains .bytes = false := by
    simp [contains, h.findKind_eq_none (.inl rfl)]
  have hlink : n.contains .link = false := by
    simp [contains, h.findKind_eq_none (.inr rfl)]
  simp [Encoder.encode, Encoder.rejectKinds, Encoder.rejectNonFinite, hbytes, hlink,
    h.firstNonFinite_eq_none]
  rfl

end Node

namespace Schema

open Node (Plain)

/-- Each parameter of a representation is named once, as in the keyed map its parameters are
read into. -/
def Representation.ParamsDistinct (r : Representation) : Prop := (r.params.map (·.1)).Nodup

instance (r : Representation) : Decidable r.ParamsDistinct :=
  inferInstanceAs (Decidable (List.Nodup _))

/-- The representations written in a reference: those of the maps written in place. -/
def TypeRef.representations : TypeRef → List Representation
  | .named _ | .link _ => []
  | .list v _ => v.representations
  | .map _ v _ r => r.toList ++ v.representations

/-- The representations written in a definition, those of its inline types included. -/
def TypeDefinition.representations : TypeDefinition → List Representation
  | .list v _ => v.representations
  | .map _ v _ r => r.toList ++ v.representations
  | .struct fs r => r.toList ++ fs.flatMap fun f => f.2.type.representations
  | .union _ r | .enum _ r => r.toList
  | _ => []

/-- The representations written anywhere in a document. -/
def Document.representations (d : Document) : List Representation :=
  d.types.flatMap fun t => t.2.representations

/-! ## Documents are plain -/

theorem plain_flagEntry (key : String) (b : Bool) : ∀ e ∈ flagEntry key b, e.2.Plain := by
  cases b <;> simp [flagEntry, Plain.bool]

theorem plain_textEntry (key : String) (o : Option String) : ∀ e ∈ textEntry key o, e.2.Plain := by
  cases o <;> simp [textEntry, Plain.string]

theorem Representation.plain_toNode (r : Representation) : r.toNode.Plain := by
  refine .map ?_
  simp only [List.mem_singleton, forall_eq]
  refine .map fun e he => ?_
  obtain ⟨p, -, rfl⟩ := List.mem_map.1 he
  exact .string _

theorem plain_representationEntry (o : Option Representation) :
    ∀ e ∈ representationEntry o, e.2.Plain := by
  cases o <;> simp [representationEntry, Representation.plain_toNode]

theorem TypeRef.plain_toNode (t : TypeRef) : t.toNode.Plain := by
  induction t with
  | named s => exact .string s
  | list v n ih =>
    refine .map ?_
    simp only [List.mem_singleton, forall_eq]
    refine .map ?_
    simp only [List.mem_append, List.mem_singleton]
    rintro e (rfl | he)
    · exact ih
    · exact plain_flagEntry _ _ e he
  | map k v n r ih =>
    refine .map ?_
    simp only [List.mem_singleton, forall_eq]
    refine .map ?_
    simp only [List.mem_append, List.mem_cons, List.not_mem_nil, or_false]
    rintro e ((((rfl | rfl) | he) | he))
    · exact .string k
    · exact ih
    · exact plain_flagEntry _ _ e he
    · exact plain_representationEntry _ e he
  | link e =>
    refine .map ?_
    simp only [List.mem_singleton, forall_eq]
    exact .map (plain_textEntry _ _)

theorem Field.plain_toNode (f : Field) : f.toNode.Plain := by
  refine .map ?_
  simp only [List.mem_append, List.mem_singleton]
  rintro e ((rfl | he) | he)
  · exact f.type.plain_toNode
  · exact plain_flagEntry _ _ e he
  · exact plain_flagEntry _ _ e he

theorem UnionMember.plain_toNode (m : UnionMember) : m.toNode.Plain := by
  refine .map ?_
  simp only [List.mem_cons, List.not_mem_nil, or_false]
  rintro e (rfl | rfl)
  · exact .string _
  · exact .string _

theorem EnumMember.plain_toNode (m : EnumMember) : m.toNode.Plain := by
  refine .map ?_
  simp only [List.mem_append, List.mem_singleton]
  rintro e (rfl | he)
  · exact .string _
  · exact plain_textEntry _ _ e he

theorem TypeDefinition.plain_body (d : TypeDefinition) : ∀ e ∈ d.body, e.2.Plain := by
  cases d with
  | link e => exact plain_textEntry _ _
  | list v n =>
    simp only [TypeDefinition.body, List.mem_append, List.mem_singleton]
    rintro e (rfl | he)
    · exact v.plain_toNode
    · exact plain_flagEntry _ _ e he
  | map k v n r =>
    simp only [TypeDefinition.body, List.mem_append, List.mem_cons, List.not_mem_nil, or_false]
    rintro e ((((rfl | rfl) | he) | he))
    · exact .string k
    · exact v.plain_toNode
    · exact plain_flagEntry _ _ e he
    · exact plain_representationEntry _ e he
  | struct fs r =>
    simp only [TypeDefinition.body, List.mem_append, List.mem_singleton]
    rintro e (rfl | he)
    · refine .map fun e he => ?_
      obtain ⟨f, -, rfl⟩ := List.mem_map.1 he
      exact f.2.plain_toNode
    · exact plain_representationEntry _ e he
  | union ms r =>
    simp only [TypeDefinition.body, List.mem_append, List.mem_singleton]
    rintro e (rfl | he)
    · refine .list fun n hn => ?_
      obtain ⟨m, -, rfl⟩ := List.mem_map.1 hn
      exact m.plain_toNode
    · exact plain_representationEntry _ e he
  | enum ms r =>
    simp only [TypeDefinition.body, List.mem_append, List.mem_singleton]
    rintro e (rfl | he)
    · refine .list fun n hn => ?_
      obtain ⟨m, -, rfl⟩ := List.mem_map.1 hn
      exact m.plain_toNode
    · exact plain_representationEntry _ e he
  | copy t =>
    simp only [TypeDefinition.body, List.mem_singleton]
    rintro e rfl
    exact .string t
  | bool | string | bytes | int | float => simp [TypeDefinition.body]

theorem TypeDefinition.plain_toNode (d : TypeDefinition) : d.toNode.Plain := by
  refine .map ?_
  simp only [List.mem_singleton, forall_eq]
  exact .map d.plain_body

theorem Document.plain_toNode (d : Document) : d.toNode.Plain := by
  refine .map ?_
  simp only [List.mem_singleton, forall_eq]
  refine .map fun e he => ?_
  obtain ⟨t, -, rfl⟩ := List.mem_map.1 he
  exact t.2.plain_toNode

/-! ## References and representations read whole -/

theorem Representation.toJsonPlain_toNode (r : Representation) :
    r.toNode.toJsonPlain =
      .object [(r.strategy, .object (r.params.map fun p => (p.1, .string p.2)))] := by
  simp [Representation.toNode]

/-- Merging repeated names changes nothing when no name repeats. -/
theorem keepLast_of_nodup {α : Type} {es : List (String × α)} (h : (es.map (·.1)).Nodup) :
    keepLast es = es := by
  induction es using List.reverseRecOn with
  | nil => rfl
  | append_singleton es e ih =>
    obtain ⟨k, v⟩ := e
    rw [List.map_append, List.nodup_append] at h
    obtain ⟨hes, -, hk⟩ := h
    have hfresh : (es.any fun e => e.1 == k) = false := by
      simp only [List.any_eq_false, beq_iff_eq]
      intro e he hek
      exact hk e.1 (List.mem_map.2 ⟨e, he, rfl⟩) k (by simp) hek
    simp only [keepLast] at ih ⊢
    rw [List.foldl_append, ih hes]
    simp [hfresh]

theorem representationOf_toJson {r : Representation} (h : r.ParamsDistinct) :
    representationOf (some r.toNode.toJsonPlain) = some (some r) := by
  have hparams : r.params.mapM some = some r.params := by
    simpa using List.mapM_pure (m := Option) (l := r.params) (f := id)
  have hone : keepLast [(r.strategy, r.params)] = [(r.strategy, r.params)] :=
    keepLast_of_nodup (by simp)
  rw [Representation.toJsonPlain_toNode]
  simp [representationOf, Function.comp_def, hparams, keepLast_of_nodup h, hone]

/-- A reference reads whole as itself, given fuel for each value in its JSON form. -/
theorem typeRefOf_toJson (t : TypeRef) (ht : ∀ r ∈ t.representations, r.ParamsDistinct) {fuel : Nat}
    (hfuel : t.toNode.toJsonPlain.weight ≤ fuel) : typeRefOf fuel t.toNode.toJsonPlain = some t := by
  induction t generalizing fuel with
  | named s =>
    obtain ⟨f, rfl⟩ : ∃ f, fuel = f + 1 := ⟨fuel - 1, by simp [TypeRef.toNode, Json.weight] at hfuel; omega⟩
    rfl
  | list v n ih =>
    obtain ⟨f, rfl⟩ : ∃ f, fuel = f + 1 := ⟨fuel - 1, by simp [TypeRef.toNode, Json.weight] at hfuel; omega⟩
    have hv : v.toNode.toJsonPlain.weight ≤ f := by
      cases n <;> simp [TypeRef.toNode, flagEntry, Json.weight, Json.weightEntries] at hfuel <;> omega
    cases n <;> simp [typeRefOf, TypeRef.toNode, flagEntry, slotsOf, List.lookup, flagOf, ih ht hv]
  | map k v n r ih =>
    obtain ⟨f, rfl⟩ : ∃ f, fuel = f + 1 := ⟨fuel - 1, by simp [TypeRef.toNode, Json.weight] at hfuel; omega⟩
    simp only [TypeRef.representations, List.mem_append, Option.mem_toList] at ht
    have hv : v.toNode.toJsonPlain.weight ≤ f := by
      cases n <;> cases r <;>
        simp [TypeRef.toNode, flagEntry, representationEntry, Json.weight, Json.weightEntries] at hfuel <;> omega
    have hvalue := ih (fun r' hr' => ht r' (.inr hr')) hv
    cases r with
    | none =>
      cases n <;> simp [typeRefOf, TypeRef.toNode, flagEntry, representationEntry, slotsOf,
        List.lookup, flagOf, textOf, representationOf, hvalue]
    | some r =>
      cases n <;> simp [typeRefOf, TypeRef.toNode, flagEntry, representationEntry, slotsOf,
        List.lookup, flagOf, textOf, representationOf_toJson (ht r (.inl rfl)), hvalue]
  | link e =>
    obtain ⟨f, rfl⟩ : ∃ f, fuel = f + 1 := ⟨fuel - 1, by simp [TypeRef.toNode, Json.weight] at hfuel; omega⟩
    cases e <;> simp [typeRefOf, TypeRef.toNode, textEntry, slotsOf, List.lookup, optionalTextOf]

end Schema

end Ipld
