import Mathlib
import Ipld.Proofs.Bindings.Agree
import Ipld.Proofs.Bindings.Bindable
import Ipld.Proofs.Bindings.Placeholder
import Ipld.Proofs.Schema.JsonForm
import Ipld.Proofs.Repr.Encodable
import Ipld.Repr.Convert

/-!
# What the two readers share

The reader of generated bindings (`fromNode`) and the shape reader of minimal bindings
(`fromReprWithin`) are written separately but make the same checks. This module lines them
up piece by piece:

* the node checks, the pair lists and the field lookups of the two are the same functions;
* a union member is chosen by the same first match of its discriminant or prefix, and an
  enum member by the same first match of its value;
* the shape reader's result is looked at through its plain JSON value, which is the JSON of
  each part, with repeated map keys collapsed;
* the integers of a node are 64-bit as the data model has them, and every part of a node
  weighs less than the node.
-/

namespace Ipld.Typed

open Schema Ipld.Repr

/-! ## Shared checks -/

theorem expectText_eq (n : Node) : expectText n = Repr.expectText n := by
  cases n <;> rfl

theorem expectEntries_eq (n : Node) : expectEntries n = Repr.expectEntries n := by
  cases n <;> rfl

theorem expectItems_eq (len : Nat) (n : Node) : expectItems len n = Repr.expectItemsOf len n := by
  cases n with
  | list items =>
    simp only [expectItems, Repr.expectItemsOf, Repr.expectItems, beq_iff_eq, ok_bind]
    split <;> rfl
  | _ => rfl

theorem pairEntries_eq (n : Node) : pairEntries n = Repr.pairEntries n := by
  cases n with
  | list items =>
    simp only [pairEntries, Repr.pairEntries, Repr.expectItems, expectItems_eq]
    rfl
  | _ => rfl

theorem lookupFirst_eq {α : Type} (entries : List (String × α)) (key : String) :
    lookupFirst entries key = lookupEntry entries key := rfl

theorem lookupNeeded_eq {α : Type} (entries : List (String × α)) (key : String) :
    lookupNeeded entries key = lookupRequired entries key := rfl

theorem rejectUnknownKeys_eq {α : Type} (entries : List (String × α)) (known : List String) :
    rejectUnknownKeys entries known = rejectUnknown entries known := rfl

/-! ## Choosing a member -/

theorem nth_eq_getElem {α : Type} [Inhabited α] {l : List α} {i : Nat} (h : i < l.length) :
    nth l i = l[i] := by
  simp [nth, List.getElem?_eq_getElem h]

section Find

variable {α : Type} {p : α → Bool}

/-- The first item of a numbered list that satisfies `p` is the first item of the list that
does, numbered by its place. -/
theorem find?_zipIdx_some : ∀ {l : List α} {k i : Nat} {a : α},
    (l.zipIdx k).find? (fun x => p x.1) = some (a, i) → l.find? p = some a ∧ l[i - k]? = some a ∧ k ≤ i
  | [], _, _, _, h => by simp at h
  | b :: l, k, i, a, h => by
    rw [List.zipIdx_cons, List.find?_cons] at h
    by_cases hb : p b = true
    · simp only [hb] at h
      obtain ⟨rfl, rfl⟩ := Prod.mk.inj (Option.some.inj h)
      simp [hb]
    · simp only [hb] at h
      obtain ⟨hfind, hget, hle⟩ := find?_zipIdx_some h
      refine ⟨by simp [hb, hfind], ?_, by omega⟩
      obtain ⟨j, rfl⟩ : ∃ j, i = k + 1 + j := ⟨i - (k + 1), by omega⟩
      simpa [show k + 1 + j - k = j + 1 by omega] using hget

theorem find?_zipIdx_none : ∀ {l : List α} {k : Nat},
    (l.zipIdx k).find? (fun x => p x.1) = none → l.find? p = none
  | [], _, _ => rfl
  | b :: l, k, h => by
    rw [List.zipIdx_cons, List.find?_cons] at h
    by_cases hb : p b = true
    · simp [hb] at h
    · simp only [hb] at h
      simp [hb, find?_zipIdx_none h]

theorem find?_of_findIdx? [Inhabited α] {l : List α} {i : Nat} (h : l.findIdx? p = some i) :
    i < l.length ∧ l.find? p = some (nth l i) := by
  obtain ⟨hi, hp, hbefore⟩ := List.findIdx?_eq_some_iff_getElem.mp h
  refine ⟨hi, ?_⟩
  rw [List.find?_eq_some_iff_getElem]
  have hnth : nth l i = l[i] := nth_eq_getElem hi
  refine ⟨by simpa [hnth] using hp, i, hi, hnth.symm, ?_⟩
  intro j hj
  simpa using hbefore j hj

theorem find?_of_findIdx?_none {l : List α} (h : l.findIdx? p = none) : l.find? p = none := by
  rw [List.findIdx?_eq_none_iff] at h
  exact List.find?_eq_none.mpr fun a ha => by simpa using h a ha

end Find

/-- The member `memberFor` chooses by its index is the first with the discriminant. -/
theorem memberFor_some {members : List UnionMember} {d : String} {i : Nat} {m : UnionMember}
    (h : memberFor members d = some (i, m)) :
    i < members.length ∧ nth members i = m ∧ members.find? (·.discriminant == d) = some m := by
  obtain ⟨⟨m', i'⟩, hfind, heq⟩ := Option.map_eq_some_iff.mp h
  obtain ⟨rfl, rfl⟩ := Prod.mk.inj heq
  obtain ⟨hfirst, hget, -⟩ := find?_zipIdx_some (p := fun m : UnionMember => m.discriminant == d) hfind
  obtain ⟨hi, hget⟩ := List.getElem?_eq_some_iff.mp (by simpa using hget)
  exact ⟨hi, by rw [nth_eq_getElem hi, hget], hfirst⟩

theorem memberFor_none {members : List UnionMember} {d : String} (h : memberFor members d = none) :
    members.find? (·.discriminant == d) = none := by
  rw [memberFor, Option.map_eq_none_iff] at h
  exact find?_zipIdx_none (p := fun m : UnionMember => m.discriminant == d) h

theorem startsWith_eq (s pre : String) : s.startsWith pre = pre.toList.isPrefixOf s.toList := by
  rw [Bool.eq_iff_iff, String.startsWith_string_iff, List.isPrefixOf_iff_prefix]

/-- The member whose prefix the shape reader strips is the first whose prefix starts the
string. -/
theorem findSome?_dropPrefix (s : String) : ∀ members : List UnionMember,
    members.findSome? (fun m => (dropPrefix? s m.discriminant).map (m, ·)) =
      (members.find? fun m => s.startsWith m.discriminant).map
        fun m => (m, String.ofList (s.toList.drop m.discriminant.length))
  | [] => rfl
  | m :: rest => by
    rw [List.findSome?_cons, List.find?_cons, startsWith_eq]
    unfold dropPrefix?
    cases m.discriminant.toList.isPrefixOf s.toList
    · exact findSome?_dropPrefix s rest
    · rfl

end Ipld.Typed

namespace Ipld.Node

/-! ## Plain JSON values of shapes -/

theorem collapseList_map_toJsonPlain : ∀ items : List Node,
    Json.collapseList (items.map toJsonPlain) = items.map toValue := by
  intro items
  induction items with
  | nil => rfl
  | cons n rest ih => simp only [List.map_cons, Json.collapseList, ih, toValue]

theorem collapseListEntries_map_toJsonPlain : ∀ entries : List (String × Node),
    Json.collapseListEntries (entries.map fun e => (e.1, e.2.toJsonPlain)) =
      entries.map fun e => (e.1, e.2.toValue) := by
  intro entries
  induction entries with
  | nil => rfl
  | cons e rest ih =>
    obtain ⟨k, n⟩ := e
    simp only [List.map_cons, Json.collapseListEntries, ih, toValue]

@[simp] theorem toValue_list (items : List Node) : (list items).toValue = .array (items.map toValue) := by
  simp only [toValue, toJsonPlain_list, Json.collapse, collapseList_map_toJsonPlain]

@[simp] theorem toValue_map (entries : List (String × Node)) :
    (map entries).toValue =
      .object (Json.collapseEntries (entries.map fun e => (e.1, e.2.toValue))) := by
  simp only [toValue, toJsonPlain_map, Json.collapse, collapseListEntries_map_toJsonPlain]

@[simp] theorem toValue_null : null.toValue = .null := rfl
@[simp] theorem toValue_bool (b : Bool) : (bool b).toValue = .bool b := rfl
@[simp] theorem toValue_int (i : Int) : (int i).toValue = .int i := rfl
@[simp] theorem toValue_string (s : String) : (string s).toValue = .string s := rfl

/-! ## Integers and weights of nodes -/

mutual

/-- The integers a node holds. -/
def ints : Node → List Int
  | int i => [i]
  | list items => intsList items
  | map entries => intsEntries entries
  | _ => []

/-- The integers of each item. -/
def intsList : List Node → List Int
  | [] => []
  | n :: rest => n.ints ++ intsList rest

/-- The integers of each entry value. -/
def intsEntries : List (String × Node) → List Int
  | [] => []
  | (_, n) :: rest => n.ints ++ intsEntries rest

end

/-- Every integer the node holds is a 64-bit integer, as the data model has them. -/
def IntsIn64 (n : Node) : Prop := ∀ i ∈ n.ints, Decimal.inInt64 i = true

theorem mem_intsList {i : Int} : ∀ {items : List Node}, i ∈ intsList items ↔ ∃ n ∈ items, i ∈ n.ints := by
  intro items
  induction items with
  | nil => simp [intsList]
  | cons n rest ih => simp [intsList, ih]

theorem mem_intsEntries {i : Int} :
    ∀ {entries : List (String × Node)}, i ∈ intsEntries entries ↔ ∃ e ∈ entries, i ∈ e.2.ints := by
  intro entries
  induction entries with
  | nil => simp [intsEntries]
  | cons e rest ih =>
    obtain ⟨k, n⟩ := e
    simp [intsEntries, ih]

theorem IntsIn64.of_mem_list {items : List Node} {n : Node} (h : (list items).IntsIn64)
    (hn : n ∈ items) : n.IntsIn64 :=
  fun i hi => h i (by simpa [ints] using mem_intsList.mpr ⟨n, hn, hi⟩)

theorem IntsIn64.of_mem_map {entries : List (String × Node)} {e : String × Node}
    (h : (map entries).IntsIn64) (he : e ∈ entries) : e.2.IntsIn64 :=
  fun i hi => h i (by simpa [ints] using mem_intsEntries.mpr ⟨e, he, hi⟩)

theorem IntsIn64.filter {entries : List (String × Node)} (h : (map entries).IntsIn64)
    (q : String × Node → Bool) : (map (entries.filter q)).IntsIn64 := by
  intro i hi
  obtain ⟨e, he, hie⟩ := mem_intsEntries.mp (by simpa [ints] using hi)
  exact h.of_mem_map (List.mem_filter.mp he).1 i hie

theorem weight_pos (n : Node) : 0 < n.weight := by
  cases n <;> simp [weight]

theorem weight_lt_of_mem_items {items : List Node} {n : Node} (h : n ∈ items) :
    n.weight < (list items).weight := by
  have hle : ∀ xs : List Node, n ∈ xs → n.weight ≤ weightList xs := by
    intro xs hxs
    induction xs with
    | nil => cases hxs
    | cons x xs ih =>
      rcases List.mem_cons.mp hxs with rfl | hmem
      · simp only [weightList]; omega
      · have := ih hmem
        simp only [weightList]; omega
  have := hle items h
  simp only [weight]
  omega

theorem weightEntries_filter_le (q : String × Node → Bool) :
    ∀ entries : List (String × Node), weightEntries (entries.filter q) ≤ weightEntries entries := by
  intro entries
  induction entries with
  | nil => exact le_rfl
  | cons e rest ih =>
    obtain ⟨k, n⟩ := e
    by_cases hq : q (k, n) = true
    · simp only [List.filter_cons, hq, if_true, weightEntries]; omega
    · simp only [List.filter_cons, hq, if_false, weightEntries, Bool.false_eq_true]; omega

/-- Leaving out the entries of a key that is there makes a map lighter. -/
theorem weight_filter_lt {key : String} {v : Node} :
    ∀ {entries : List (String × Node)}, (key, v) ∈ entries →
      (map (entries.filter (·.1 != key))).weight < (map entries).weight
  | [], h => by cases h
  | (k, n) :: rest, h => by
    have hpos := weight_pos n
    by_cases hk : k = key
    · have := weightEntries_filter_le (·.1 != key) rest
      simp only [weight, List.filter_cons, hk, bne_self_eq_false, if_false, weightEntries,
        Bool.false_eq_true] at this ⊢
      omega
    · rcases List.mem_cons.mp h with heq | hmem
      · cases heq; exact absurd rfl hk
      · have := weight_filter_lt hmem
        have hne : (k != key) = true := by simpa using hk
        simp only [weight, List.filter_cons, hne, if_true, weightEntries] at this ⊢
        omega

/-- The value of a pair read from a list of pairs is part of the list. -/
theorem pairEntries_part {n : Node} {pairs : List (String × Node)}
    (h : Repr.pairEntries n = .ok pairs) {e : String × Node} (he : e ∈ pairs) :
    e.2.weight < n.weight ∧ (n.IntsIn64 → e.2.IntsIn64) := by
  obtain ⟨k, v⟩ := e
  unfold Repr.pairEntries at h
  rw [Repr.bind_eq_ok] at h
  obtain ⟨items, hitems, hmap⟩ := h
  cases n with
  | list items' =>
    cases hitems
    obtain ⟨pair, hpair, hstep⟩ := Repr.exists_of_mapM_eq_ok hmap (k, v) he
    rw [Repr.bind_eq_ok] at hstep
    obtain ⟨xs, hxs, hstep⟩ := hstep
    have hlist : pair = .list xs := by
      unfold Repr.expectItemsOf at hxs
      rw [Repr.bind_eq_ok] at hxs
      obtain ⟨ys, hys, hlen⟩ := hxs
      cases pair with
      | list zs =>
        cases hys
        split at hlen
        · exact (Repr.pure_eq_ok.mp hlen) ▸ rfl
        · exact absurd hlen Repr.throw_ne_ok
      | _ => cases hys
    subst hlist
    match xs, hstep with
    | [k', v'], hstep =>
      rw [Repr.bind_eq_ok] at hstep
      obtain ⟨k'', -, hret⟩ := hstep
      obtain ⟨-, rfl⟩ := Prod.mk.inj (Repr.pure_eq_ok.mp hret)
      have hv : v' ∈ [k', v'] := by simp
      refine ⟨(weight_lt_of_mem_items hv).trans (weight_lt_of_mem_items hpair), fun hn => ?_⟩
      exact (hn.of_mem_list hpair).of_mem_list hv
  | _ => cases hitems

end Ipld.Node

namespace Ipld.Typed

open Schema Ipld.Repr

/-! ## Lists and maps of values -/

section Containers

variable {ts : TypeSystem}

theorem itemsJson_iff {item : Shape} : ∀ {items : List TypedValue} {js : List Json},
    ItemsJson ts item items js ↔ List.Forall₂ (JsonOf ts item) items js
  | [], js => by cases js <;> simp [ItemsJson]
  | v :: rest, js => by
    cases js with
    | nil => simp [ItemsJson]
    | cons j js => simp [ItemsJson, itemsJson_iff]

theorem entriesJson_iff {k w : Shape} : ∀ {entries : List (TypedValue × TypedValue)}
    {js : List (String × Json)}, EntriesJson ts k w entries js ↔
      List.Forall₂ (fun p q => JsonOf ts k p.1 (.string q.1) ∧ JsonOf ts w p.2 q.2) entries js
  | [], js => by cases js <;> simp [EntriesJson]
  | (a, b) :: rest, js => by
    cases js with
    | nil => simp [EntriesJson]
    | cons q js =>
      obtain ⟨key, j⟩ := q
      simp [EntriesJson, entriesJson_iff, and_assoc]

/-! Reading a map keeps the last value of a repeated key at the key's first place, in both
styles: `insertKeep` on full values, `collapseEntries` on JSON. The two folds go in lockstep
as long as keys correspond one to one. -/

section Lockstep

variable {K : TypedValue → String → Prop} {V : TypedValue → Json → Prop}

/-- Entries whose keys and values correspond. -/
abbrev EntriesRel (K : TypedValue → String → Prop) (V : TypedValue → Json → Prop) :
    List (TypedValue × TypedValue) → List (String × Json) → Prop :=
  List.Forall₂ fun p q => K p.1 q.1 ∧ V p.2 q.2

variable (hfun : ∀ a x y, K a x → K a y → x = y) (hinj : ∀ a b x, K a x → K b x → a = b)
include hfun hinj

theorem any_key_eq {acc : List (TypedValue × TypedValue)} {accJ : List (String × Json)}
    (hl : EntriesRel K V acc accJ) {a : TypedValue} {key : String} (ha : K a key) :
    acc.any (·.1 == a) = accJ.any (·.1 == key) := by
  induction hl with
  | nil => rfl
  | @cons p q acc accJ hpq _ ih =>
    have hiff : p.1 = a ↔ q.1 = key :=
      ⟨fun h => hfun a q.1 key (h ▸ hpq.1) ha, fun h => hinj p.1 a key (h ▸ hpq.1) ha⟩
    have hbeq : (p.1 == a) = (q.1 == key) := by simp only [beq_eq_beq, hiff]
    simp only [List.any_cons, hbeq, ih]

theorem insertKeep_step {acc : List (TypedValue × TypedValue)} {accJ : List (String × Json)}
    (hl : EntriesRel K V acc accJ) (hnd : (accJ.map (·.1)).Nodup) {a b : TypedValue}
    {key : String} {j : Json} (ha : K a key) (hb : V b j) :
    EntriesRel K V (insertKeep acc a b)
        (if accJ.any (·.1 == key) then accJ.map (fun e => if e.1 == key then (key, j) else e)
          else accJ ++ [(key, j)]) ∧
      ((if accJ.any (·.1 == key) then accJ.map (fun e => if e.1 == key then (key, j) else e)
          else accJ ++ [(key, j)]).map (·.1)).Nodup := by
  unfold insertKeep
  rw [any_key_eq hfun hinj hl ha]
  split
  case isTrue =>
    refine ⟨?_, ?_⟩
    · refine List.forall₂_map_left_iff.mpr (List.forall₂_map_right_iff.mpr (hl.imp ?_))
      intro p q hpq
      have hiff : p.1 = a ↔ q.1 = key :=
        ⟨fun h => hfun a q.1 key (h ▸ hpq.1) ha, fun h => hinj p.1 a key (h ▸ hpq.1) ha⟩
      by_cases hq : q.1 = key
      · simp [hq, hiff.mpr hq, ha, hb]
      · have hp : ¬p.1 = a := fun h => hq (hiff.mp h)
        simp [hq, hp, hpq]
    · have hkeys : (accJ.map (fun e => if e.1 == key then (key, j) else e)).map (·.1) =
          accJ.map (·.1) := by
        rw [List.map_map]
        refine List.map_congr_left fun e _ => ?_
        by_cases he : e.1 = key <;> simp [he]
      rw [hkeys]
      exact hnd
  case isFalse hfresh =>
    refine ⟨List.rel_append hl (List.Forall₂.cons ⟨ha, hb⟩ List.Forall₂.nil), ?_⟩
    rw [List.map_append, List.nodup_append]
    refine ⟨hnd, by simp, ?_⟩
    intro x hx y hy hxy
    simp only [List.mem_map, List.mem_cons, List.not_mem_nil, or_false] at hx hy
    obtain ⟨e, he, rfl⟩ := hx
    obtain ⟨_, rfl, rfl⟩ := hy
    simp only [Bool.not_eq_true, List.any_eq_false, beq_iff_eq] at hfresh
    exact hfresh e he hxy

/-- Reading the entries of a map in both styles gives corresponding maps: the full map
and the collapsed JSON object, whose keys are distinct. -/
theorem foldl_insertKeep_collapse {ps : List (TypedValue × TypedValue)} {qs : List (String × Json)}
    (h : EntriesRel K V ps qs) :
    EntriesRel K V (ps.foldl (fun acc p => insertKeep acc p.1 p.2) []) (Json.collapseEntries qs) ∧
      ((Json.collapseEntries qs).map (·.1)).Nodup := by
  unfold Json.collapseEntries
  suffices hgen : ∀ {ps : List (TypedValue × TypedValue)} {qs : List (String × Json)}
      {acc accJ}, EntriesRel K V ps qs → EntriesRel K V acc accJ → (accJ.map (·.1)).Nodup →
      EntriesRel K V (ps.foldl (fun acc p => insertKeep acc p.1 p.2) acc)
          (qs.foldl (fun acc (kv : String × Json) =>
            if acc.any (·.1 == kv.1) then acc.map (fun e => if e.1 == kv.1 then (kv.1, kv.2) else e)
            else acc ++ [(kv.1, kv.2)]) accJ) ∧
        ((qs.foldl (fun acc (kv : String × Json) =>
            if acc.any (·.1 == kv.1) then acc.map (fun e => if e.1 == kv.1 then (kv.1, kv.2) else e)
            else acc ++ [(kv.1, kv.2)]) accJ).map (·.1)).Nodup from
    hgen h List.Forall₂.nil List.nodup_nil
  intro ps qs acc accJ hs hacc hnd
  induction hs generalizing acc accJ with
  | nil => exact ⟨hacc, hnd⟩
  | @cons p q ps qs hpq _ ih =>
    obtain ⟨hstep, hnd'⟩ := insertKeep_step hfun hinj hacc hnd hpq.1 hpq.2
    exact ih hstep hnd'

end Lockstep

/-! ### Values of declared types -/

theorem jsonOf_wrapped {name : String} {t : SchemaType} {s : Shape} (hget : ts.get? name = some t)
    (hs : wrapperShape t = some s) {x : TypedValue} {j : Json} (h : JsonOf ts s x j) :
    JsonOf ts (.declared name) (.wrapped x) j :=
  ⟨t, s, hget, hs, h⟩

theorem jsonOf_member {name : String} {members : List EnumValue} {strategy : EnumStrategy}
    (hget : ts.get? name = some (.enum members strategy)) {i : Nat} (hi : i < members.length) :
    JsonOf ts (.declared name) (.member i) (.string (nth members i).name) :=
  ⟨members, strategy, hget, hi, rfl⟩

theorem jsonOf_record {name : String} {fields : List StructField} {strategy : StructStrategy}
    (hget : ts.get? name = some (.struct fields strategy)) {values : List TypedValue}
    {js : List (String × Json)} (h : FieldsJson ts fields values js) :
    JsonOf ts (.declared name) (.record values) (.object js) :=
  ⟨fields, strategy, hget, h⟩

theorem jsonOf_variant {name : String} {members : List UnionMember} {strategy : UnionStrategy}
    (hget : ts.get? name = some (.union members strategy)) {i : Nat} {x : TypedValue}
    {jx : Json} (hi : i < members.length) (hx : JsonOf ts (Shape.ofName (nth members i).type) x jx) :
    JsonOf ts (.declared name) (.variant i x) (.object [((nth members i).type, jx)]) :=
  ⟨members, strategy, hget, hi, rfl, hx⟩

/-- A value of a declared type that stands as a string wraps a scalar or is an enum member. -/
theorem jsonOf_declared_string {name : String} {t : SchemaType} (hget : ts.get? name = some t)
    {a : TypedValue} {x : String} (h : JsonOf ts (.declared name) a (.string x)) :
    (∃ z s, a = .wrapped z ∧ wrapperShape t = some s ∧ JsonOf ts s z (.string x)) ∨
      ∃ i members strategy, a = .member i ∧ t = .enum members strategy ∧ i < members.length ∧
        x = (nth members i).name := by
  cases a with
  | wrapped z =>
    obtain ⟨t', s, hget', hs, hz⟩ := h
    rw [hget] at hget'
    cases hget'
    exact .inl ⟨z, s, rfl, hs, hz⟩
  | member i =>
    obtain ⟨members, strategy, hget', hi, hx⟩ := h
    rw [hget] at hget'
    cases hget'
    exact .inr ⟨i, members, strategy, rfl, rfl, hi, hx⟩
  | _ => simp [JsonOf] at h

/-- A name of a bindable system reads through its declared type, or is a prelude name whose
shape is the scalar its type wraps. -/
theorem ofName_of_get? (hb : ts.bindable = true) {n : String} {t : SchemaType}
    (hget : ts.get? n = some t) : Shape.ofName n = .declared n ∨ wrapperShape t = some (Shape.ofName n) := by
  obtain ⟨hbool, hint, hfloat, hstring, hbytes, e, hlink⟩ := TypeSystem.bindable_prelude hb
  unfold Shape.ofName
  split
  all_goals first
    | exact .inl rfl
    | (right; simp_all [wrapperShape])

/-! ### Map keys -/

section Keys

variable (hb : ts.bindable = true) {k : String} (hk : keyName ts k = true)
include hb hk

theorem keyName_cases : ∃ t, ts.get? k = some t ∧
    ((Shape.ofName k = .declared k ∧ (t = .string ∨ ∃ members strategy, t = .enum members strategy)) ∨
      (Shape.ofName k = .string ∧ t = .string)) := by
  unfold keyName at hk
  split at hk
  case h_1 hget =>
    refine ⟨_, hget, ?_⟩
    rcases ofName_of_get? hb hget with h | h
    · exact .inl ⟨h, .inl rfl⟩
    · simp only [wrapperShape, Option.some.injEq] at h
      exact .inr ⟨h.symm, rfl⟩
  case h_2 members strategy hget =>
    refine ⟨_, hget, .inl ⟨?_, .inr ⟨members, strategy, rfl⟩⟩⟩
    rcases ofName_of_get? hb hget with h | h
    · exact h
    · simp [wrapperShape] at h
  case h_3 => cases hk

/-- What a key value of a key type is, given its text: the text itself, the text wrapped
in a declared string type, or the enum member of that name. -/
theorem key_value {a : TypedValue} {x : String} (h : JsonOf ts (Shape.ofName k) a (.string x)) :
    (Shape.ofName k = .string ∧ a = .string x) ∨
      (ts.get? k = some .string ∧ a = .wrapped (.string x)) ∨
      ∃ i members strategy, ts.get? k = some (.enum members strategy) ∧ a = .member i ∧
        i < members.length ∧ x = (nth members i).name := by
  obtain ⟨t, hget, ⟨hshape, ht⟩ | ⟨hshape, rfl⟩⟩ := keyName_cases hb hk
  · rw [hshape] at h
    rcases jsonOf_declared_string hget h with ⟨z, s, rfl, hs, hz⟩ | ⟨i, members, strategy, rfl, rfl, hi, hx⟩
    · rcases ht with rfl | ⟨members, strategy, rfl⟩
      · simp only [wrapperShape, Option.some.injEq] at hs
        subst hs
        cases z <;> simp_all [JsonOf]
      · simp [wrapperShape] at hs
    · exact .inr (.inr ⟨i, members, strategy, hget, rfl, hi, hx⟩)
  · rw [hshape] at h
    cases a <;> simp_all [JsonOf]

theorem key_functional {a : TypedValue} {x y : String} (hx : JsonOf ts (Shape.ofName k) a (.string x))
    (hy : JsonOf ts (Shape.ofName k) a (.string y)) : x = y := by
  rcases key_value hb hk hx with ⟨-, rfl⟩ | ⟨-, rfl⟩ | ⟨i, members, strategy, hget, rfl, hi, rfl⟩
  · rcases key_value hb hk hy with ⟨-, h⟩ | ⟨-, h⟩ | ⟨_, _, _, _, h, _⟩ <;> simp_all
  · rcases key_value hb hk hy with ⟨-, h⟩ | ⟨-, h⟩ | ⟨_, _, _, _, h, _⟩ <;> simp_all
  · rcases key_value hb hk hy with ⟨-, h⟩ | ⟨-, h⟩ | ⟨i', members', strategy', hget', h, hi', rfl⟩
    · cases h
    · cases h
    · rw [hget] at hget'
      cases hget'
      cases h
      rfl

/-- Two key values with the same text are the same value: the member names of an enum are
distinct. -/
theorem key_injective {a b : TypedValue} {x : String} (ha : JsonOf ts (Shape.ofName k) a (.string x))
    (hb' : JsonOf ts (Shape.ofName k) b (.string x)) : a = b := by
  rcases key_value hb hk ha with ⟨hs, rfl⟩ | ⟨hget, rfl⟩ | ⟨i, members, strategy, hget, rfl, hi, hxi⟩
  · rcases key_value hb hk hb' with ⟨-, rfl⟩ | ⟨-, rfl⟩ | ⟨_, _, _, _, rfl, _⟩
    · rfl
    · rw [hs] at hb'; simp [JsonOf] at hb'
    · rw [hs] at hb'; simp [JsonOf] at hb'
  · rcases key_value hb hk hb' with ⟨hs, rfl⟩ | ⟨-, rfl⟩ | ⟨_, _, _, hget', rfl, _⟩
    · rw [hs] at ha; simp [JsonOf] at ha
    · rfl
    · rw [hget] at hget'; cases hget'
  · rcases key_value hb hk hb' with ⟨hs, rfl⟩ | ⟨hget', rfl⟩ | ⟨i', members', strategy', hget', rfl, hi', hxi'⟩
    · rw [hs] at ha; simp [JsonOf] at ha
    · rw [hget] at hget'; cases hget'
    · rw [hget] at hget'
      obtain ⟨rfl, rfl⟩ := hget'
      have hnodup : (members.map (·.name)).Nodup := by
        have := TypeSystem.bindableType_of_get? hb hget
        simp only [bindableType, Bool.and_eq_true, decide_eq_true_eq] at this
        exact this.1
      rw [nth_eq_getElem hi] at hxi
      rw [nth_eq_getElem hi'] at hxi'
      have hi2 : i < (members.map (·.name)).length := by simpa using hi
      have hi2' : i' < (members.map (·.name)).length := by simpa using hi'
      have hname : (members.map (·.name))[i] = (members.map (·.name))[i'] := by
        simp [← hxi, ← hxi']
      rw [hnodup.getElem_inj_iff] at hname
      rw [hname]

end Keys

end Containers

end Ipld.Typed
