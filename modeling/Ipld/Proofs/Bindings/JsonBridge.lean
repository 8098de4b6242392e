import Mathlib
import Ipld.Proofs.Bindings.Reading
import Ipld.Proofs.Codec.Refusals

/-!
# Nodes and JSON values

A JSON value becomes a node by the serializer (`NativeValue.toNode` of `NativeValue.ofJson`)
or by conversion (`Node.ofJson`), and a node becomes a JSON value by `Node.toValue`. The three
agree (`jsonValue_bridges_agree`) on what they carry alike: JSON values with 64-bit integers,
finite floats and each key once (`Json.Exact`), and nodes with the same integers, floats and
maps and no bytes or links (`Node.Exact`). An integer stays an integer and a float with an
integral value stays a float.

Each part is an induction over the value, one case per constructor, the hypotheses passing to
the parts through the document-order subvalues.
-/

namespace Ipld

namespace Json

mutual

/-- The values of a JSON value in document order: the value itself, then the values of each
item or entry in turn. -/
def subvalues : Json → List Json
  | array items => array items :: subvaluesList items
  | object entries => object entries :: subvaluesEntries entries
  | j => [j]

/-- The values of a list of items in document order. -/
def subvaluesList : List Json → List Json
  | [] => []
  | j :: rest => subvalues j ++ subvaluesList rest

/-- The values of the entries of an object in document order. -/
def subvaluesEntries : List (String × Json) → List Json
  | [] => []
  | (_, j) :: rest => subvalues j ++ subvaluesEntries rest

end

@[simp] theorem subvaluesList_eq_flatMap (items : List Json) :
    subvaluesList items = items.flatMap subvalues := by
  induction items with
  | nil => rfl
  | cons j rest ih => simp [subvaluesList, ih]

@[simp] theorem subvaluesEntries_eq_flatMap (entries : List (String × Json)) :
    subvaluesEntries entries = entries.flatMap fun e => e.2.subvalues := by
  induction entries with
  | nil => rfl
  | cons e rest ih =>
    obtain ⟨k, j⟩ := e
    simp [subvaluesEntries, ih]

theorem mem_subvalues_self (v : Json) : v ∈ v.subvalues := by
  cases v <;> simp [subvalues]

theorem subvalues_subset_of_mem_array {items : List Json} {j : Json} (h : j ∈ items) :
    j.subvalues ⊆ (array items).subvalues := fun w hw => by
  simp only [subvalues, subvaluesList_eq_flatMap]
  exact List.mem_cons_of_mem _ (List.mem_flatMap.2 ⟨j, h, hw⟩)

theorem subvalues_subset_of_mem_object {entries : List (String × Json)} {e : String × Json}
    (h : e ∈ entries) : e.2.subvalues ⊆ (object entries).subvalues := fun w hw => by
  simp only [subvalues, subvaluesEntries_eq_flatMap]
  exact List.mem_cons_of_mem _ (List.mem_flatMap.2 ⟨e, h, hw⟩)

/-- Every integer of the value is a 64-bit integer. -/
def IntsIn64 (v : Json) : Prop := ∀ i, int i ∈ v.subvalues → Decimal.inInt64 i = true

/-- A JSON value that a node holds the same way: every integer within 64 bits, every float
finite, and every object with each key once. These are the key-indexed JSON values whose
integers are 64-bit: such a value has no number that is not finite and no repeated key. -/
structure Exact (v : Json) : Prop where
  ints : v.IntsIn64
  floats : ∀ x, float x ∈ v.subvalues → x.isFinite = true
  keys : ∀ entries, object entries ∈ v.subvalues → (entries.map (·.1)).Nodup

theorem IntsIn64.mono {v w : Json} (h : w.IntsIn64) (hsub : v.subvalues ⊆ w.subvalues) :
    v.IntsIn64 :=
  fun i hi => h i (hsub hi)

theorem Exact.mono {v w : Json} (h : w.Exact) (hsub : v.subvalues ⊆ w.subvalues) : v.Exact :=
  ⟨h.ints.mono hsub, fun x hx => h.floats x (hsub hx), fun es hes => h.keys es (hsub hes)⟩

end Json

namespace Node

/-- A float's JSON value is the float when it is finite and null otherwise. -/
@[simp] theorem toValue_float (x : Binary64) :
    (float x).toValue = if x.isFinite then .float x else .null := by
  by_cases hx : x.isFinite <;> simp [toValue, toJsonPlain, hx, Json.collapse]

theorem mem_subnodes_self (n : Node) : n ∈ n.subnodes := by
  cases n <;> simp [subnodes]

theorem subnodes_subset_of_mem_list {items : List Node} {n : Node} (h : n ∈ items) :
    n.subnodes ⊆ (list items).subnodes := fun m hm => by
  rw [subnodes_list]
  exact List.mem_cons_of_mem _ (List.mem_flatMap.2 ⟨n, h, hm⟩)

theorem subnodes_subset_of_mem_map {entries : List (String × Node)} {e : String × Node}
    (h : e ∈ entries) : e.2.subnodes ⊆ (map entries).subnodes := fun m hm => by
  rw [subnodes_map]
  exact List.mem_cons_of_mem _ (List.mem_flatMap.2 ⟨e, h, hm⟩)

theorem Holds.mono {k : Kind} {n m : Node} (h : n.Holds k) (hsub : n.subnodes ⊆ m.subnodes) :
    m.Holds k :=
  let ⟨p, hp, hk⟩ := h
  ⟨p, hsub hp, hk⟩

/-- A node that a JSON value holds the same way: every integer within 64 bits, every float
finite, every map with each key once, and no byte string or link, which a JSON value only
holds as an array of numbers or as text. -/
structure Exact (n : Node) : Prop where
  ints : n.IntsIn64
  floats : ∀ x, float x ∈ n.subnodes → x.isFinite = true
  keys : ∀ entries, map entries ∈ n.subnodes → (entries.map (·.1)).Nodup
  noBytes : ¬ n.Holds .bytes
  noLinks : ¬ n.Holds .link

/-- The parts of an exact node whose integers are 64-bit are exact. -/
theorem Exact.of_subnodes {n m : Node} (h : m.Exact) (hsub : n.subnodes ⊆ m.subnodes)
    (hints : n.IntsIn64) : n.Exact :=
  ⟨hints, fun x hx => h.floats x (hsub hx), fun es hes => h.keys es (hsub hes),
    fun hb => h.noBytes (hb.mono hsub), fun hl => h.noLinks (hl.mono hsub)⟩

theorem Exact.of_mem_list {items : List Node} {n : Node} (h : (list items).Exact)
    (hn : n ∈ items) : n.Exact :=
  h.of_subnodes (subnodes_subset_of_mem_list hn) (h.ints.of_mem_list hn)

theorem Exact.of_mem_map {entries : List (String × Node)} {e : String × Node}
    (h : (map entries).Exact) (he : e ∈ entries) : e.2.Exact :=
  h.of_subnodes (subnodes_subset_of_mem_map he) (h.ints.of_mem_map he)

end Node

/-! ## Serializing a JSON value is converting it -/

namespace NativeValue

mutual

/-- The serializer's node of a JSON value with 64-bit integers is the node it converts to. -/
theorem toNode_ofJson : (v : Json) → v.IntsIn64 → (ofJson v).toNode = .ok (Node.ofJson v)
  | .int i, h => by
    have hi : Decimal.inInt64 i = true := h i (Json.mem_subvalues_self _)
    simp [ofJson, toNode, Node.ofJson, hi]
  | .array items, h => by
    rw [ofJson, toNode, seqToNode_ofJsonList items fun j hj =>
      h.mono (Json.subvalues_subset_of_mem_array hj)]
    rfl
  | .object entries, h => by
    rw [ofJson, toNode, mapToNode_ofJsonEntries entries fun e he =>
      h.mono (Json.subvalues_subset_of_mem_object he)]
    rfl
  | .null, _ | .bool _, _ | .float _, _ | .string _, _ => rfl

theorem seqToNode_ofJsonList : (items : List Json) → (∀ j ∈ items, j.IntsIn64) →
    seqToNode (ofJsonList items) = .ok (Node.ofJsonList items)
  | [], _ => rfl
  | j :: rest, h => by
    rw [ofJsonList, seqToNode, toNode_ofJson j (h j List.mem_cons_self),
      seqToNode_ofJsonList rest fun j hj => h j (List.mem_cons_of_mem _ hj)]
    rfl

theorem mapToNode_ofJsonEntries : (entries : List (String × Json)) →
    (∀ e ∈ entries, e.2.IntsIn64) →
      mapToNode (ofJsonEntries entries) = .ok (Node.ofJsonEntries entries)
  | [], _ => rfl
  | (k, j) :: rest, h => by
    rw [ofJsonEntries, mapToNode, toNode_ofJson j (h (k, j) List.mem_cons_self),
      mapToNode_ofJsonEntries rest fun e he => h e (List.mem_cons_of_mem _ he)]
    rfl

end

end NativeValue

/-! ## Converting there and back -/

namespace Node

mutual

/-- An exact JSON value converted to a node converts back to itself. -/
theorem toValue_ofJson : (v : Json) → v.Exact → (ofJson v).toValue = v
  | .int i, h => by
    simp [ofJson, h.ints i (Json.mem_subvalues_self _)]
  | .float x, h => by
    have hx : x.isFinite = true := h.floats x (Json.mem_subvalues_self _)
    simp [ofJson, hx]
  | .array items, h => by
    rw [ofJson, toValue_list, map_toValue_ofJsonList items fun j hj =>
      h.mono (Json.subvalues_subset_of_mem_array hj)]
  | .object entries, h => by
    rw [ofJson, toValue_map, map_toValue_ofJsonEntries entries fun e he =>
      h.mono (Json.subvalues_subset_of_mem_object he),
      Typed.collapseEntries_of_nodup (h.keys entries (Json.mem_subvalues_self _))]
  | .null, _ | .bool _, _ | .string _, _ => rfl

theorem map_toValue_ofJsonList : (items : List Json) → (∀ j ∈ items, j.Exact) →
    (ofJsonList items).map toValue = items
  | [], _ => rfl
  | j :: rest, h => by
    rw [ofJsonList, List.map_cons, toValue_ofJson j (h j List.mem_cons_self),
      map_toValue_ofJsonList rest fun j hj => h j (List.mem_cons_of_mem _ hj)]

theorem map_toValue_ofJsonEntries : (entries : List (String × Json)) →
    (∀ e ∈ entries, e.2.Exact) →
      (ofJsonEntries entries).map (fun e => (e.1, e.2.toValue)) = entries
  | [], _ => rfl
  | (k, j) :: rest, h => by
    rw [ofJsonEntries, List.map_cons, toValue_ofJson j (h (k, j) List.mem_cons_self),
      map_toValue_ofJsonEntries rest fun e he => h e (List.mem_cons_of_mem _ he)]

end

mutual

/-- An exact node converted to a JSON value converts back to itself. -/
theorem ofJson_toValue : (n : Node) → n.Exact → ofJson n.toValue = n
  | int i, h => by
    simp [ofJson, h.ints i (by simp [ints])]
  | float x, h => by
    have hx : x.isFinite = true := h.floats x (mem_subnodes_self _)
    simp [ofJson, hx]
  | bytes _, h => (h.noBytes ⟨_, mem_subnodes_self _, rfl⟩).elim
  | link _, h => (h.noLinks ⟨_, mem_subnodes_self _, rfl⟩).elim
  | list items, h => by
    rw [toValue_list, ofJson, ofJsonList_map_toValue items fun n hn => h.of_mem_list hn]
  | map entries, h => by
    have hkeys : ((entries.map fun e => (e.1, e.2.toValue)).map (·.1)).Nodup := by
      simpa [List.map_map, Function.comp_def] using h.keys entries (mem_subnodes_self _)
    rw [toValue_map, Typed.collapseEntries_of_nodup hkeys, ofJson,
      ofJsonEntries_map_toValue entries fun e he => h.of_mem_map he]
  | null, _ | bool _, _ | string _, _ => rfl

theorem ofJsonList_map_toValue : (items : List Node) → (∀ n ∈ items, n.Exact) →
    ofJsonList (items.map toValue) = items
  | [], _ => rfl
  | n :: rest, h => by
    rw [List.map_cons, ofJsonList, ofJson_toValue n (h n List.mem_cons_self),
      ofJsonList_map_toValue rest fun n hn => h n (List.mem_cons_of_mem _ hn)]

theorem ofJsonEntries_map_toValue : (entries : List (String × Node)) →
    (∀ e ∈ entries, e.2.Exact) →
      ofJsonEntries (entries.map fun e => (e.1, e.2.toValue)) = entries
  | [], _ => rfl
  | (k, n) :: rest, h => by
    rw [List.map_cons, ofJsonEntries, ofJson_toValue n (h (k, n) List.mem_cons_self),
      ofJsonEntries_map_toValue rest fun e he => h e (List.mem_cons_of_mem _ he)]

end

/-- The three bridges between JSON values and nodes agree: serializing a JSON value with
64-bit integers gives the node it converts to; an exact JSON value converted to a node and
back is itself; and an exact node converted to a JSON value and back is itself, so an integer
stays an integer and a float with an integral value stays a float. -/
theorem jsonValue_bridges_agree :
    (∀ v : Json, v.IntsIn64 → (NativeValue.ofJson v).toNode = .ok (ofJson v)) ∧
    (∀ v : Json, v.Exact → (ofJson v).toValue = v) ∧
    (∀ n : Node, n.Exact → ofJson n.toValue = n) :=
  ⟨NativeValue.toNode_ofJson, toValue_ofJson, ofJson_toValue⟩

/-- The object of the bridge's test, `{"zeta": 1, "alpha": [true, null, 1.5]}`: its keys out
of order, an integer, and a float that is not integral. -/
def bridgeSample : Json :=
  .object [("zeta", .int 1), ("alpha", .array [.bool true, .null, .float ⟨0x3FF8000000000000⟩])]

/-- A list of the integer 2, the float 2 and a map whose keys are out of order. -/
def integralSample : Node :=
  .list [.int 2, .float ⟨0x4000000000000000⟩, .map [("b", .null), ("a", .string "x")]]

theorem jsonValue_bridges_agree_samples :
    bridgeSample.IntsIn64 ∧ bridgeSample.Exact ∧ integralSample.Exact ∧
      (NativeValue.ofJson bridgeSample).toNode = .ok (ofJson bridgeSample) ∧
      (ofJson bridgeSample).toValue = bridgeSample ∧
      ofJson integralSample.toValue = integralSample := by
  have hints : bridgeSample.IntsIn64 := by
    intro i hi
    simp [bridgeSample, Json.subvalues] at hi
    subst hi
    decide
  have hv : bridgeSample.Exact := by
    refine ⟨hints, fun x hx => ?_, fun es hes => ?_⟩
    · simp [bridgeSample, Json.subvalues] at hx
      subst hx
      decide
    · simp [bridgeSample, Json.subvalues] at hes
      subst hes
      decide
  have hn : integralSample.Exact := by
    refine ⟨?_, fun x hx => ?_, fun es hes => ?_, ?_, ?_⟩
    · intro i hi
      simp [integralSample, ints, intsList, intsEntries] at hi
      subst hi
      decide
    · simp [integralSample, subnodes] at hx
      subst hx
      decide
    · simp [integralSample, subnodes] at hes
      subst hes
      decide
    · simp [integralSample, Holds, subnodes, kind]
    · simp [integralSample, Holds, subnodes, kind]
  exact ⟨hints, hv, hn, jsonValue_bridges_agree.1 _ hints, jsonValue_bridges_agree.2.1 _ hv,
    jsonValue_bridges_agree.2.2 _ hn⟩

end Node

end Ipld
