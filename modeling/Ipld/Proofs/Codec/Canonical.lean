import Mathlib
import Ipld.Proofs.Codec.Refusals

/-!
# The dag codecs are canonical

`dag-json` and `dag-cbor` write every map with its entries stably sorted by key (bytewise, or
length first). Two lists that agree on the order of entries under each key sort to the same
list (`mergeSort_eq_of_keyStable`). A reordering of a value (`Node.Reordered`), at any depth
and keeping that order, therefore sorts to the same value (`Reordered.sortMaps_eq`) and moves
no node in or out, so each dag codec fails on both or writes the same output for both
(`dagCodecs_canonical`).
-/

namespace Ipld

/-! ## Sorting entries by key -/

/-- A Boolean order on keys that is transitive, total and antisymmetric. -/
structure KeyOrder (le : String → String → Bool) : Prop where
  trans : ∀ a b c, le a b = true → le b c = true → le a c = true
  total : ∀ a b, (le a b || le b a) = true
  antisymm : ∀ a b, le a b = true → le b a = true → a = b

theorem KeyOrder.refl {le : String → String → Bool} (h : KeyOrder le) (a : String) :
    le a a = true := by
  simpa using h.total a a

/-- Keys in bytewise order, as `dag-json` sorts them. -/
theorem bytewiseLe_keyOrder : KeyOrder bytewiseLe where
  trans a b c hab hbc := by
    simp only [bytewiseLe, decide_eq_true_eq] at hab hbc ⊢
    exact String.le_trans hab hbc
  total a b := by
    simp only [bytewiseLe, Bool.or_eq_true, decide_eq_true_eq]
    exact String.le_total a b
  antisymm a b hab hba := by
    simp only [bytewiseLe, decide_eq_true_eq] at hab hba
    exact String.le_antisymm hab hba

/-- Keys by length, then bytewise, as `dag-cbor` sorts them. -/
theorem lengthFirstLe_keyOrder : KeyOrder lengthFirstLe where
  trans a b c hab hbc := by
    simp only [lengthFirstLe, bytewiseLe, Bool.or_eq_true, Bool.and_eq_true, beq_iff_eq,
      decide_eq_true_eq] at hab hbc ⊢
    rcases hab with hab | ⟨hab, hab'⟩ <;> rcases hbc with hbc | ⟨hbc, hbc'⟩
    · exact .inl (by omega)
    · exact .inl (by omega)
    · exact .inl (by omega)
    · exact .inr ⟨by omega, String.le_trans hab' hbc'⟩
  total a b := by
    simp only [lengthFirstLe, bytewiseLe, Bool.or_eq_true, Bool.and_eq_true, beq_iff_eq,
      decide_eq_true_eq]
    rcases Nat.lt_trichotomy a.utf8ByteSize b.utf8ByteSize with hlt | heq | hgt
    · exact .inl (.inl hlt)
    · rcases String.le_total a b with hab | hba
      · exact .inl (.inr ⟨heq, hab⟩)
      · exact .inr (.inr ⟨heq.symm, hba⟩)
    · exact .inr (.inl hgt)
  antisymm a b hab hba := by
    simp only [lengthFirstLe, bytewiseLe, Bool.or_eq_true, Bool.and_eq_true, beq_iff_eq,
      decide_eq_true_eq] at hab hba
    rcases hab with hab | ⟨hsize, hab⟩
    · rcases hba with hba | ⟨hba, -⟩ <;> omega
    · rcases hba with hba | ⟨-, hba⟩
      · omega
      · exact String.le_antisymm hab hba

section Entries

variable {α β : Type} {le : String → String → Bool}

/-- `es'` holds the entries of `es`, the entries under each key in the order they have
in `es`. -/
def KeyStable (es es' : List (String × α)) : Prop :=
  ∀ k, es.filter (·.1 == k) = es'.filter (·.1 == k)

theorem KeyStable.mem_iff {es es' : List (String × α)} (h : KeyStable es es')
    {e : String × α} : e ∈ es ↔ e ∈ es' := by
  have hk := congrArg (e ∈ ·) (h e.1)
  simpa using hk

/-- Changing the values but not the keys keeps the order under each key. -/
theorem KeyStable.map {es es' : List (String × α)} (h : KeyStable es es') (f : α → β) :
    KeyStable (es.map fun e => (e.1, f e.2)) (es'.map fun e => (e.1, f e.2)) := by
  intro k
  simp only [List.filter_map]
  exact congrArg (List.map _) (h k)

/-- Sorting keeps the order of the entries under each key: they are in order already, so
they stay a sublist of the sorted list. -/
theorem keyStable_mergeSort (hle : KeyOrder le) (es : List (String × α)) :
    KeyStable (es.mergeSort fun a b => le a.1 b.1) es := by
  intro k
  have htrans : ∀ a b c : String × α, le a.1 b.1 = true → le b.1 c.1 = true → le a.1 c.1 = true :=
    fun a b c => hle.trans a.1 b.1 c.1
  have htotal : ∀ a b : String × α, (le a.1 b.1 || le b.1 a.1) = true :=
    fun a b => hle.total a.1 b.1
  have hsorted : (es.filter (·.1 == k)).Pairwise fun a b => le a.1 b.1 = true := by
    refine List.pairwise_of_forall_mem_list fun a ha b hb => ?_
    simp only [List.mem_filter, beq_iff_eq] at ha hb
    rw [ha.2, hb.2]
    exact hle.refl k
  have hsub := (List.sublist_mergeSort htrans htotal hsorted List.filter_sublist).filter
    (·.1 == k)
  simp only [List.filter_filter, Bool.and_self] at hsub
  have hlen := ((List.mergeSort_perm es fun a b => le a.1 b.1).filter (·.1 == k)).length_eq
  exact (hsub.eq_of_length hlen.symm).symm

/-- A list sorted by key is fixed by the order of its entries under each key. -/
theorem eq_of_pairwise_of_keyStable (hle : KeyOrder le) :
    ∀ {l₁ l₂ : List (String × α)}, l₁.Pairwise (fun a b => le a.1 b.1 = true) →
      l₂.Pairwise (fun a b => le a.1 b.1 = true) → KeyStable l₁ l₂ → l₁ = l₂
  | [], [], _, _, _ => rfl
  | [], _ :: _, _, _, h => absurd (h.mem_iff.2 List.mem_cons_self) List.not_mem_nil
  | _ :: _, [], _, _, h => absurd (h.mem_iff.1 List.mem_cons_self) List.not_mem_nil
  | a :: l₁, b :: l₂, h₁, h₂, h => by
    have hab : le a.1 b.1 = true := by
      rcases List.mem_cons.1 (h.mem_iff.2 List.mem_cons_self) with rfl | hb
      · exact hle.refl _
      · exact List.rel_of_pairwise_cons h₁ hb
    have hba : le b.1 a.1 = true := by
      rcases List.mem_cons.1 (h.mem_iff.1 List.mem_cons_self) with rfl | ha
      · exact hle.refl _
      · exact List.rel_of_pairwise_cons h₂ ha
    have hkey : a.1 = b.1 := hle.antisymm _ _ hab hba
    have hhead := h a.1
    simp only [List.filter_cons, beq_self_eq_true, if_true, hkey] at hhead
    obtain ⟨rfl, -⟩ := List.cons_eq_cons.1 hhead
    have hrest : KeyStable l₁ l₂ := by
      intro k
      have hk := h k
      by_cases hak : a.1 = k
      · simp only [List.filter_cons, hak, beq_self_eq_true, if_true, List.cons.injEq,
          true_and] at hk
        exact hk
      · simpa [List.filter_cons, hak] using hk
    rw [eq_of_pairwise_of_keyStable hle h₁.of_cons h₂.of_cons hrest]

/-- Lists that agree on the order under each key sort to the same list. -/
theorem mergeSort_eq_of_keyStable (hle : KeyOrder le) {es es' : List (String × α)}
    (h : KeyStable es es') :
    es.mergeSort (fun a b => le a.1 b.1) = es'.mergeSort (fun a b => le a.1 b.1) := by
  have htrans : ∀ a b c : String × α, le a.1 b.1 = true → le b.1 c.1 = true → le a.1 c.1 = true :=
    fun a b c => hle.trans a.1 b.1 c.1
  have htotal : ∀ a b : String × α, (le a.1 b.1 || le b.1 a.1) = true :=
    fun a b => hle.total a.1 b.1
  refine eq_of_pairwise_of_keyStable hle (List.pairwise_mergeSort htrans htotal es)
    (List.pairwise_mergeSort htrans htotal es') fun k => ?_
  rw [keyStable_mergeSort hle es k, h k, keyStable_mergeSort hle es' k]

end Entries

namespace Node

/-! ## Reordering the maps of a value -/

/-- One map of a value, at any depth, with its entries reordered, the entries under each key
keeping their order. -/
inductive ReorderStep : Node → Node → Prop
  /-- The entries of this map. -/
  | entries {es es' : List (String × Node)} : KeyStable es es' → ReorderStep (.map es) (.map es')
  /-- A map inside an item of this list. -/
  | item {x y : Node} (pre post : List Node) :
      ReorderStep x y → ReorderStep (.list (pre ++ x :: post)) (.list (pre ++ y :: post))
  /-- A map inside an entry value of this map. -/
  | value {x y : Node} (pre post : List (String × Node)) (k : String) :
      ReorderStep x y → ReorderStep (.map (pre ++ (k, x) :: post)) (.map (pre ++ (k, y) :: post))

/-- `n'` is `n` with the entries of any of its maps reordered, at any depth, the entries
under each key keeping their order. -/
def Reordered (n n' : Node) : Prop := Relation.ReflTransGen ReorderStep n n'

@[simp] theorem sortMapsList_eq_map (le : String → String → Bool) (items : List Node) :
    sortMapsList le items = items.map (sortMaps le) := by
  induction items with
  | nil => rfl
  | cons n rest ih => simp [sortMapsList, ih]

@[simp] theorem sortMapsEntries_eq_map (le : String → String → Bool)
    (entries : List (String × Node)) :
    sortMapsEntries le entries = entries.map fun e => (e.1, sortMaps le e.2) := by
  induction entries with
  | nil => rfl
  | cons e rest ih =>
    obtain ⟨k, n⟩ := e
    simp [sortMapsEntries, ih]

theorem sortMaps_list (le : String → String → Bool) (items : List Node) :
    (list items).sortMaps le = list (items.map (sortMaps le)) := by
  simp [sortMaps]

theorem sortMaps_map (le : String → String → Bool) (entries : List (String × Node)) :
    (map entries).sortMaps le =
      map ((entries.map fun e => (e.1, sortMaps le e.2)).mergeSort fun a b => le a.1 b.1) := by
  simp [sortMaps]

variable {x y n n' : Node} {le : String → String → Bool}

/-- A step changes nothing once every map is sorted. -/
theorem ReorderStep.sortMaps_eq (hle : KeyOrder le) (h : ReorderStep x y) :
    x.sortMaps le = y.sortMaps le := by
  induction h with
  | entries hes => rw [sortMaps_map, sortMaps_map, mergeSort_eq_of_keyStable hle (hes.map _)]
  | item pre post _ ih => simp [sortMaps_list, ih]
  | value pre post k _ ih => simp [sortMaps_map, ih]

/-- A step keeps a property of every node that every list and map has: it moves no other
node in or out of the tree. -/
theorem ReorderStep.forall_subnodes_iff {P : Node → Prop} (hlist : ∀ items, P (list items))
    (hmap : ∀ es, P (map es)) (h : ReorderStep x y) :
    (∀ m ∈ x.subnodes, P m) ↔ (∀ m ∈ y.subnodes, P m) := by
  induction h with
  | entries hes =>
    simp only [subnodes_map, List.forall_mem_cons, hmap, true_and, List.mem_flatMap,
      forall_exists_index, and_imp]
    exact forall_congr' fun _ => forall_congr' fun _ => (imp_congr_left hes.mem_iff)
  | item pre post _ ih =>
    simp only [subnodes_list, List.forall_mem_cons, hlist, true_and, List.flatMap_append,
      List.flatMap_cons, List.forall_mem_append]
    rw [ih]
  | value pre post k _ ih =>
    simp only [subnodes_map, List.forall_mem_cons, hmap, true_and, List.flatMap_append,
      List.flatMap_cons, List.forall_mem_append]
    rw [ih]

theorem Reordered.sortMaps_eq (hle : KeyOrder le) (h : n.Reordered n') :
    n.sortMaps le = n'.sortMaps le := by
  induction h with
  | refl => rfl
  | tail _ hstep ih => exact ih.trans (hstep.sortMaps_eq hle)

theorem Reordered.firstNonFinite_eq_none_iff (h : n.Reordered n') :
    n.firstNonFinite = none ↔ n'.firstNonFinite = none := by
  induction h with
  | refl => rfl
  | tail _ hstep ih =>
    rw [ih]
    simp only [firstNonFinite_eq_findSome?, List.findSome?_eq_none_iff]
    exact hstep.forall_subnodes_iff (fun _ => rfl) (fun _ => rfl)

theorem Reordered.contains_link_eq (h : n.Reordered n') :
    n.contains .link = n'.contains .link := by
  induction h with
  | refl => rfl
  | tail _ hstep ih =>
    rw [ih, Bool.eq_iff_iff, contains_iff_holds, contains_iff_holds, ← not_iff_not]
    simp only [Holds, not_exists, not_and]
    exact hstep.forall_subnodes_iff (fun _ => by simp [kind]) (fun _ => by simp [kind])

end Node

namespace Encoder

open Node

theorem dagJson_toOption (n : Node) :
    (dagJson.encode n).toOption =
      if n.firstNonFinite = none then some (.text (Json.compact (n.sortMaps bytewiseLe).toDagJson))
      else none := by
  simp only [encode, rejectNonFinite]
  cases n.firstNonFinite <;> rfl

theorem dagCbor_toOption (n : Node) :
    (dagCbor.encode n).toOption =
      if n.contains .link = false ∧ n.firstNonFinite = none then
        some (.binary (Cbor.encode (n.sortMaps lengthFirstLe)))
      else none := by
  simp only [encode, rejectNonFinite, rejectKinds]
  cases n.contains .link <;> cases n.firstNonFinite <;> rfl

/-- The dag codecs are canonical: on a value and any reordering of the entries of its maps,
keeping the order of entries under each key, `dag-json` fails on both or writes the same text
for both, and so does `dag-cbor` with its bytes. -/
theorem dagCodecs_canonical {n n' : Node} (h : n.Reordered n') :
    (dagJson.encode n).toOption = (dagJson.encode n').toOption ∧
      (dagCbor.encode n).toOption = (dagCbor.encode n').toOption := by
  rw [dagJson_toOption, dagJson_toOption, dagCbor_toOption, dagCbor_toOption,
    h.sortMaps_eq bytewiseLe_keyOrder, h.sortMaps_eq lengthFirstLe_keyOrder,
    h.contains_link_eq]
  simp only [h.firstNonFinite_eq_none_iff, and_self]

/-- A map with a repeated key, and the same map with its other key moved first. -/
theorem dagCodecs_canonical_repeatedKey :
    Node.Reordered (.map [("a", .int 1), ("b", .int 0), ("a", .int 2)])
        (.map [("b", .int 0), ("a", .int 1), ("a", .int 2)]) ∧
      (dagJson.encode (.map [("a", .int 1), ("b", .int 0), ("a", .int 2)])).toOption =
          (dagJson.encode (.map [("b", .int 0), ("a", .int 1), ("a", .int 2)])).toOption ∧
        (dagCbor.encode (.map [("a", .int 1), ("b", .int 0), ("a", .int 2)])).toOption =
          (dagCbor.encode (.map [("b", .int 0), ("a", .int 1), ("a", .int 2)])).toOption := by
  have hstable : KeyStable [("a", Node.int 1), ("b", .int 0), ("a", .int 2)]
      [("b", .int 0), ("a", .int 1), ("a", .int 2)] := by
    intro k
    by_cases ha : "a" = k
    · subst ha
      simp
    · by_cases hb : "b" = k <;> simp_all
  have h : Node.Reordered (.map [("a", .int 1), ("b", .int 0), ("a", .int 2)])
      (.map [("b", .int 0), ("a", .int 1), ("a", .int 2)]) :=
    .single (.entries hstable)
  exact ⟨h, dagCodecs_canonical h⟩

end Encoder

end Ipld
