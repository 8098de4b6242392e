import Mathlib
import Ipld.Codec.Encoder

/-!
# What each encoder refuses

The encoders check a value before they write it. `json` refuses a byte string anywhere in
the value, then a link anywhere, then a float that is not finite; `dag-json` refuses only
floats that are not finite, `cbor` only links, `dag-cbor` links and then floats that are not
finite, and `debug` writes everything. A refused float is reported by value: the first
one in document order.

"Anywhere" and "first" are about the nodes of a value in document order (`subnodes`): a
value, then the nodes of each of its items or entry values in turn. The searches the encoders
run, `findKind` and `firstNonFinite`, are the first-match searches over that list
(`findKind_eq_find?`, `firstNonFinite_eq_findSome?`), so each encoder fails exactly with the
refusal the rules above give and otherwise writes the value (`encode_refuses_exactly`).
-/

namespace Ipld

namespace Node

mutual

/-- The nodes of a value in document order: the value itself, then the nodes of each item or
entry value in turn. -/
def subnodes : Node → List Node
  | list items => list items :: subnodesList items
  | map entries => map entries :: subnodesEntries entries
  | n => [n]

/-- The nodes of a list of items in document order. -/
def subnodesList : List Node → List Node
  | [] => []
  | n :: rest => subnodes n ++ subnodesList rest

/-- The nodes of the values of a list of entries in document order. -/
def subnodesEntries : List (String × Node) → List Node
  | [] => []
  | (_, n) :: rest => subnodes n ++ subnodesEntries rest

end

@[simp] theorem subnodesList_eq_flatMap (items : List Node) :
    subnodesList items = items.flatMap subnodes := by
  induction items with
  | nil => rfl
  | cons n rest ih => simp [subnodesList, ih]

@[simp] theorem subnodesEntries_eq_flatMap (entries : List (String × Node)) :
    subnodesEntries entries = entries.flatMap fun e => e.2.subnodes := by
  induction entries with
  | nil => rfl
  | cons e rest ih =>
    obtain ⟨k, n⟩ := e
    simp [subnodesEntries, ih]

theorem subnodes_list (items : List Node) :
    (list items).subnodes = list items :: items.flatMap subnodes := by
  simp [subnodes]

theorem subnodes_map (entries : List (String × Node)) :
    (map entries).subnodes = map entries :: entries.flatMap fun e => e.2.subnodes := by
  simp [subnodes]

/-- The value a float stands for when it is not finite. -/
def nonFiniteValue : Node → Option Binary64
  | float x => if x.isFinite then none else some x
  | _ => none

/-- Whether some node of the value has kind `k`. -/
def Holds (k : Kind) (n : Node) : Prop := ∃ m ∈ n.subnodes, m.kind = k

instance (k : Kind) (n : Node) : Decidable (n.Holds k) :=
  inferInstanceAs (Decidable (∃ m ∈ n.subnodes, m.kind = k))

/-- The first float of the value, in document order, that is not finite. -/
def firstNonFiniteInOrder (n : Node) : Option Binary64 :=
  n.subnodes.findSome? nonFiniteValue

/-! ## The encoders' searches are first matches in document order -/

mutual

theorem findKind_eq_find? (k : Kind) : (n : Node) → findKind k n = n.subnodes.find? (·.kind == k)
  | list items => by
    rw [findKind, subnodes, List.find?_cons, findKindList_eq_find? k items]
    cases (list items).kind == k <;> rfl
  | map entries => by
    rw [findKind, subnodes, List.find?_cons, findKindEntries_eq_find? k entries]
    cases (map entries).kind == k <;> rfl
  | null | bool _ | int _ | float _ | string _ | bytes _ | link _ => by
    unfold findKind subnodes
    split
    · rw [List.find?_cons_of_pos ‹_›]
    · rw [List.find?_cons_of_neg ‹_›]
      rfl

theorem findKindList_eq_find? (k : Kind) :
    (items : List Node) → findKindList k items = (subnodesList items).find? (·.kind == k)
  | [] => rfl
  | n :: rest => by
    rw [findKindList, subnodesList, List.find?_append, ← findKind_eq_find? k n,
      ← findKindList_eq_find? k rest]
    cases findKind k n <;> rfl

theorem findKindEntries_eq_find? (k : Kind) :
    (entries : List (String × Node)) →
      findKindEntries k entries = (subnodesEntries entries).find? (·.kind == k)
  | [] => rfl
  | (_, n) :: rest => by
    rw [findKindEntries, subnodesEntries, List.find?_append, ← findKind_eq_find? k n,
      ← findKindEntries_eq_find? k rest]
    cases findKind k n <;> rfl

end

/-- `contains k` asks whether some node has kind `k`. -/
theorem contains_iff_holds (k : Kind) (n : Node) : n.contains k = true ↔ n.Holds k := by
  simp [contains, findKind_eq_find?, Holds, List.find?_isSome]

mutual

theorem firstNonFinite_eq_findSome? :
    (n : Node) → firstNonFinite n = n.subnodes.findSome? nonFiniteValue
  | list items => by
    rw [firstNonFinite, subnodes, List.findSome?_cons, firstNonFiniteList_eq_findSome? items]
    rfl
  | map entries => by
    rw [firstNonFinite, subnodes, List.findSome?_cons, firstNonFiniteEntries_eq_findSome? entries]
    rfl
  | null | bool _ | int _ | float _ | string _ | bytes _ | link _ => by
    simp [firstNonFinite, subnodes, nonFiniteValue]

theorem firstNonFiniteList_eq_findSome? :
    (items : List Node) → firstNonFiniteList items = (subnodesList items).findSome? nonFiniteValue
  | [] => rfl
  | n :: rest => by
    rw [firstNonFiniteList, subnodesList, List.findSome?_append, ← firstNonFinite_eq_findSome? n,
      ← firstNonFiniteList_eq_findSome? rest]
    cases firstNonFinite n <;> rfl

theorem firstNonFiniteEntries_eq_findSome? :
    (entries : List (String × Node)) →
      firstNonFiniteEntries entries = (subnodesEntries entries).findSome? nonFiniteValue
  | [] => rfl
  | (_, n) :: rest => by
    rw [firstNonFiniteEntries, subnodesEntries, List.findSome?_append,
      ← firstNonFinite_eq_findSome? n, ← firstNonFiniteEntries_eq_findSome? rest]
    cases firstNonFinite n <;> rfl

end

end Node

namespace Encoder

open Node

/-- The refusal the documentation gives each encoder for a value, in its order of checks:
`json` a byte string, a link, then the first float that is not finite; `dag-json` that float;
`cbor` a link; `dag-cbor` a link, then that float; `debug` nothing. -/
def refusal : Encoder → Node → Option EncodeError
  | json, n =>
    if n.Holds .bytes then some (.unsupported "json" .bytes)
    else if n.Holds .link then some (.unsupported "json" .link)
    else n.firstNonFiniteInOrder.map (.nonFinite "json")
  | dagJson, n => n.firstNonFiniteInOrder.map (.nonFinite "dag-json")
  | cbor, n => if n.Holds .link then some (.unsupported "cbor" .link) else none
  | dagCbor, n =>
    if n.Holds .link then some (.unsupported "dag-cbor" .link)
    else n.firstNonFiniteInOrder.map (.nonFinite "dag-cbor")
  | debug, _ => none

theorem rejectKinds_eq (codec : String) (n : Node) (kinds : List Kind) :
    rejectKinds codec n kinds =
      match kinds.find? (n.Holds ·) with
      | some k => .error (.unsupported codec k)
      | none => .ok () := by
  induction kinds with
  | nil => rfl
  | cons k rest ih =>
    by_cases hk : n.Holds k
    · simp [rejectKinds, (contains_iff_holds k n).2 hk, hk, throw, throwThe, MonadExceptOf.throw]
    · have hc : n.contains k = false :=
        Bool.eq_false_iff.2 fun h => hk ((contains_iff_holds k n).1 h)
      simp [rejectKinds, hc, hk, ih]

theorem rejectNonFinite_eq (codec : String) (n : Node) :
    rejectNonFinite codec n =
      match n.firstNonFiniteInOrder with
      | some x => .error (.nonFinite codec x)
      | none => .ok () := by
  rw [rejectNonFinite, firstNonFinite_eq_findSome?, firstNonFiniteInOrder]
  rfl

/-- Each encoder writes a value unless the value has a refusal, and then fails with it. -/
theorem encode_eq_refusal (e : Encoder) (n : Node) :
    ∃ out, e.encode n =
      match e.refusal n with
      | some err => .error err
      | none => .ok out := by
  cases e with
  | json =>
    refine ⟨.text (Json.pretty 0 n.toJsonPlain), ?_⟩
    simp only [encode, refusal, rejectKinds_eq, rejectNonFinite_eq]
    by_cases hb : n.Holds .bytes
    · simp [hb, bind, Except.bind]
    by_cases hl : n.Holds .link
    · simp [hb, hl, bind, Except.bind]
    cases n.firstNonFiniteInOrder <;> simp [hb, hl, bind, Except.bind, pure, Except.pure]
  | dagJson =>
    refine ⟨.text (Json.compact (n.sortMaps bytewiseLe).toDagJson), ?_⟩
    simp only [encode, refusal, rejectNonFinite_eq]
    cases n.firstNonFiniteInOrder <;> simp [bind, Except.bind, pure, Except.pure]
  | cbor =>
    refine ⟨.binary (Cbor.encode n), ?_⟩
    simp only [encode, refusal, rejectKinds_eq]
    by_cases hl : n.Holds .link <;> simp [hl, bind, Except.bind, pure, Except.pure]
  | dagCbor =>
    refine ⟨.binary (Cbor.encode (n.sortMaps lengthFirstLe)), ?_⟩
    simp only [encode, refusal, rejectKinds_eq, rejectNonFinite_eq]
    by_cases hl : n.Holds .link
    · simp [hl, bind, Except.bind]
    cases n.firstNonFiniteInOrder <;> simp [hl, bind, Except.bind, pure, Except.pure]
  | debug => exact ⟨.text (n.dump 0), rfl⟩

/-- Each encoder fails on a value exactly with the refusal its rules give, first check
first, and writes every value it does not refuse. -/
theorem encode_refuses_exactly (e : Encoder) (n : Node) :
    (∀ err, e.encode n = .error err ↔ e.refusal n = some err) ∧
      ((∃ out, e.encode n = .ok out) ↔ e.refusal n = none) := by
  obtain ⟨out, hout⟩ := encode_eq_refusal e n
  rw [hout]
  cases e.refusal n with
  | some err => simp
  | none => simp

/-- A byte string is refused before a float that is not finite, though the float comes
first. -/
example :
    Encoder.json.encode (.map [("a", .float Binary64.infinity), ("b", .bytes [])]) =
      .error (.unsupported "json" .bytes) := rfl

end Encoder

end Ipld
