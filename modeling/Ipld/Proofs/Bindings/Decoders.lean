import Mathlib
import Ipld.Proofs.Bindings.JsonBridge

/-!
# The two readers, step by step

Generated bindings read a node with `fromNode` into a full value; minimal bindings read it
with `fromReprWithin` into a shape, then a placeholder from the shape's JSON value.
`ReadersAgree ts k` says that at shape-reader fuel `k` the two agree (`Agree`) on every node:
the full reader succeeds only where the shape reader does, with a value the shape's JSON
value holds (`Corresponds`), and fails where the shape reader succeeds only on a lenient
error. `TextsAgree` says the same of values read from a string.

The shape reader takes one step per part and the full reader up to eight, so `2 * weight` and
`16 * weight` steps, with the few a reference takes first (`kindedBonus`, `Shape.level`),
cover a node. This module gives the relation, the fuel and the agreement on scalars, lists,
keys and maps; declared types follow in `Declared`.
-/

namespace Ipld.Node

/-! ## Plain JSON values of scalar shapes -/

@[simp] theorem toValue_bytes (bs : List UInt8) :
    (bytes bs).toValue = .array (bs.map fun b => .int b.toNat) := by
  simp only [toValue, toJsonPlain, Json.collapse]
  congr 1
  induction bs with
  | nil => rfl
  | cons b bs ih => simp [Json.collapseList, ih, Json.collapse]

/-- An entry's key and value together weigh less than the map. -/
theorem length_add_weight_lt {entries : List (String × Node)} {e : String × Node}
    (h : e ∈ entries) : e.1.length + e.2.weight < (map entries).weight := by
  have hle : ∀ es : List (String × Node), e ∈ es → e.1.length + e.2.weight ≤ weightEntries es := by
    intro es hes
    induction es with
    | nil => cases hes
    | cons e' es ih =>
      obtain ⟨k', v'⟩ := e'
      rcases List.mem_cons.1 hes with rfl | hmem
      · simp only [weightEntries]
        omega
      · have := ih hmem
        simp only [weightEntries]
        omega
  have := hle entries h
  simp only [weight]
  omega

end Ipld.Node

namespace Ipld.Typed

open Schema Ipld.Repr

/-- The full value `v` of shape `s` and the shape `y`, read from one node, correspond: the
placeholder of `v` is read from the plain JSON value of `y`. -/
def Corresponds (ts : TypeSystem) (s : Shape) (v : TypedValue) (y : Node) : Prop :=
  JsonOf ts s v y.toValue

/-- The steps the full reader takes at a node before it reaches the node's parts: one for an
option, two for a declared type and two more for the member of a kinded union, with room for
the option and the declared type of a part. -/
def Shape.level (ts : TypeSystem) : Shape → Nat
  | .option s => Shape.level ts s + 1
  | .declared n => if kindedName ts n then 8 else 6
  | _ => 2

/-- The step the shape reader takes at a kinded union, whose member it reads from the same
node. -/
def kindedBonus (ts : TypeSystem) : Ref → Nat
  | .named n => if kindedName ts n then 1 else 0
  | _ => 0

/-- At shape-reader fuel `k` the two readers agree on every node of every reference whose
names are known, when the fuels cover the node. -/
def ReadersAgree (ts : TypeSystem) (k : Nat) : Prop :=
  ∀ (r : Ref) (n : Node) (K : Nat), refBound ts r = true → n.IntsIn64 →
    2 * n.weight + kindedBonus ts r ≤ k → 16 * n.weight + (Shape.ofRef r).level ts ≤ K →
    Agree (Corresponds ts (Shape.ofRef r)) (fromNode ts K (Shape.ofRef r) n)
      (fromReprWithin ts k r n)

/-- At shape-reader fuel `k` the two readers agree on every text of every reference read from
a string, when the fuels cover the text. -/
def TextsAgree (ts : TypeSystem) (k : Nat) : Prop :=
  ∀ (r : Ref) (s : String) (K : Nat), textRef ts r = true → 2 * (s.length + 1) ≤ k →
    16 * s.length + (Shape.ofRef r).level ts + 4 ≤ K →
    Agree (Corresponds ts (Shape.ofRef r)) (fromText ts K (Shape.ofRef r) s)
      (Repr.fromText ts (fromReprWithin ts k) r s)

/-! ## Fuel -/

section Fuel

variable (ts : TypeSystem)

theorem Shape.two_le_level (s : Shape) : 2 ≤ s.level ts := by
  induction s with
  | option s ih => simp only [Shape.level]; omega
  | declared n => simp only [Shape.level]; split <;> omega
  | _ => simp [Shape.level]

theorem Shape.six_le_level_declared (n : String) : 6 ≤ (Shape.declared n).level ts := by
  simp only [Shape.level]
  split <;> omega

theorem Shape.level_declared_le (n : String) : (Shape.declared n).level ts ≤ 8 := by
  simp only [Shape.level]
  split <;> omega

/-- The shape of a name takes at most eight steps, those of a kinded union. -/
theorem Shape.level_ofName_le (n : String) : (Shape.ofName n).level ts ≤ 8 := by
  unfold Shape.ofName
  split
  case h_7 => exact Shape.level_declared_le ts n
  all_goals simp [Shape.level]

/-- The shape of a name other than a kinded union's takes at most six steps. -/
theorem Shape.level_ofName_of_not_kinded {ts : TypeSystem} {n : String} (h : kindedName ts n = false) :
    (Shape.ofName n).level ts ≤ 6 := by
  unfold Shape.ofName
  split <;> simp [Shape.level, h]

theorem Shape.level_ofRef_le (r : Ref) : (Shape.ofRef r).level ts ≤ 8 := by
  cases r with
  | named n => exact Shape.level_ofName_le ts n
  | _ => simp [Shape.ofRef, Shape.level]

theorem kindedBonus_le_one (r : Ref) : kindedBonus ts r ≤ 1 := by
  unfold kindedBonus
  split
  · split <;> omega
  · omega

end Fuel

/-! ## Combining agreeing steps -/

section Combine

variable {α β γ δ : Type} {R : α → β → Prop} {S : γ → δ → Prop}

@[simp] theorem throw_eq_error {e : DecodeError} : (throw e : Except DecodeError α) = .error e := rfl

theorem agree_pure {a : γ} {b : δ} (h : S a b) : Agree S (pure a) (pure b) := h

/-- A full step mapped and a shape step followed by a pure one agree when the maps keep the
relation. -/
theorem Agree.map_bind_pure {x : Except DecodeError α} {y : Except DecodeError β} {f : α → γ}
    {g : β → δ} (h : Agree R x y) (hf : ∀ a b, R a b → S (f a) (g b)) :
    Agree S (x.map f) (y >>= fun b => pure (g b)) := by
  cases x <;> cases y <;> simp_all [Agree, Except.map, bind, Except.bind, pure, Except.pure]

theorem Agree.bind_pure_left {x : Except DecodeError α} {y : Except DecodeError β} {f : α → γ}
    {S : γ → β → Prop} (h : Agree R x y) (hf : ∀ a b, R a b → S (f a) b) :
    Agree S (x >>= fun a => pure (f a)) y := by
  cases x <;> cases y <;> simp_all [Agree, bind, Except.bind, pure, Except.pure]

end Combine

/-! ## Scalars -/

section Scalars

variable {ts : TypeSystem} {k K : Nat} {r : Ref} {n : Node}

/-- A link is read from a link; the shape reader also takes a string for the link's text,
which the full reader refuses, leniently. -/
theorem agree_link (hr : target ts r = .link ∨ ∃ e, target ts r = .named (.link e)) :
    Agree (Corresponds ts .link) (fromNode ts (K + 1) .link n) (fromReprWithin ts (k + 1) r n) := by
  have hshape : fromReprWithin ts (k + 1) r n = linkText n := by
    rcases hr with hr | ⟨e, hr⟩ <;> simp [fromReprWithin, hr]
  rw [hshape]
  cases n <;> simp [fromNode, linkText, Agree, Corresponds, JsonOf, wrongKind,
    DecodeError.Lenient, DecodeError.root, Node.kind]

/-- The other scalars: both readers check the node's kind, and a float is also read from an
integer, which the full reader holds as a float only when the float is exact. -/
theorem agree_scalar {t : SchemaType} (hr : target ts r = .named t)
    (ht : t = .bool ∨ t = .int ∨ t = .float ∨ t = .string ∨ t = .bytes) (hn : n.IntsIn64)
    {s : Shape} (hs : wrapperShape t = some s) :
    Agree (Corresponds ts s) (fromNode ts (K + 1) s n) (fromReprWithin ts (k + 1) r n) := by
  rcases ht with rfl | rfl | rfl | rfl | rfl <;> cases hs
  · cases n <;> simp [fromNode, fromReprWithin, hr, expectKind, wrongKind, Agree, Corresponds,
      JsonOf, Node.kind]
  · cases n <;> simp [fromNode, fromReprWithin, hr, expectKind, wrongKind, Agree, Corresponds,
      JsonOf, Node.kind]
    exact hn _ (by simp [Node.ints])
  · cases n with
    | float x =>
      by_cases hx : x.isFinite <;>
        simp [fromNode, fromReprWithin, hr, expectKind, Agree, Corresponds, JsonOf, hx, Node.kind]
    | int i =>
      simp only [fromNode, fromReprWithin, hr]
      unfold intToFloat
      split <;> simp [Agree, Corresponds, JsonOf, Except.map, pure, Except.pure,
        DecodeError.Lenient, DecodeError.root, *]
    | _ => simp [fromNode, fromReprWithin, hr, expectKind, wrongKind, Agree, Node.kind]
  · cases n <;> simp [fromNode, fromReprWithin, hr, expectKind, Typed.expectText, wrongKind, Agree,
      Corresponds, JsonOf, Node.kind, Except.map]
  · cases n <;> simp [fromNode, fromReprWithin, hr, wrongKind, Agree, Corresponds, JsonOf, Node.kind,
      pure, Except.pure]

end Scalars

/-! ## Values that may be null, lists and maps -/

section Parts

variable {ts : TypeSystem} {k K : Nat}

/-- A value that may be null: both readers take null for `None` where it may stand, and read
anything else as the reference. -/
theorem agree_value (ih : ReadersAgree ts k) {v : Ref} {nullable : Bool} {x : Node}
    (hv : refBound ts v = true) (hx : x.IntsIn64) (hk : 2 * x.weight + 1 ≤ k)
    (hK : 16 * x.weight + 9 ≤ K) :
    Agree (Corresponds ts (Shape.optionIf nullable (Shape.ofRef v)))
      (fromNode ts K (Shape.optionIf nullable (Shape.ofRef v)) x)
      (if (nullable && x == .null) = true then pure .null else fromReprWithin ts k v x) := by
  have hlevel := Shape.level_ofRef_le ts v
  have hbonus := kindedBonus_le_one ts v
  cases nullable with
  | false =>
    simpa [Shape.optionIf] using ih v x K hv hx (by omega) (by omega)
  | true =>
    obtain ⟨K, rfl⟩ : ∃ K', K = K' + 1 := ⟨K - 1, by omega⟩
    by_cases hnull : x = .null
    · subst hnull
      have hself : (Node.null == Node.null) = true := rfl
      simp [Shape.optionIf, fromNode, hself, Agree, Corresponds, JsonOf, pure, Except.pure]
    · have hbeq : (x == .null) = false := by
        cases x with
        | null => exact absurd rfl hnull
        | _ => rfl
      have hfrom : fromNode ts (K + 1) (.option (Shape.ofRef v)) x =
          (fromNode ts K (Shape.ofRef v) x).map .some := by
        cases x <;> simp_all [fromNode]
      simp only [Shape.optionIf, if_true, hfrom, Bool.true_and, hbeq, Bool.false_eq_true, if_false]
      exact (ih v x K hv hx (by omega) (by omega)).map_left (f := TypedValue.some) fun _ _ h => h

/-- A list: both readers read the items in order, each a value that may be null. -/
theorem agree_items (ih : ReadersAgree ts k) {r v : Ref} {nullable : Bool} {n : Node}
    (hr : target ts r = .list v nullable ∨ target ts r = .named (.list v nullable))
    (hv : refBound ts v = true) (hn : n.IntsIn64) (hk : 2 * n.weight ≤ k + 1)
    (hK : 16 * n.weight + 2 ≤ K + 1) :
    Agree (Corresponds ts (.vec (Shape.optionIf nullable (Shape.ofRef v))))
      (fromNode ts (K + 1) (.vec (Shape.optionIf nullable (Shape.ofRef v))) n)
      (fromReprWithin ts (k + 1) r n) := by
  have hshape : fromReprWithin ts (k + 1) r n = (do
      let xs ← Repr.expectItems n
      return .list (← xs.zipIdx.mapM fun x => inPart (.index x.2)
        (if (nullable && x.1 == .null) = true then pure .null else fromReprWithin ts k v x.1))) := by
    rcases hr with hr | hr <;> simp [fromReprWithin, hr]
  rw [hshape]
  cases n with
  | list items =>
    simp only [fromNode, Repr.expectItems, ok_bind]
    refine Agree.map_bind_pure
      (agree_mapM (R := Corresponds ts (Shape.optionIf nullable (Shape.ofRef v))) fun c hc => ?_)
      fun a b h => ?_
    · have hmem := List.fst_mem_of_mem_zipIdx hc
      have hlt := Node.weight_lt_of_mem_items hmem
      exact ((agree_value ih hv (hn.of_mem_list hmem) (by omega) (by omega)).inPart_right _).inPart_left _
    · simp only [Corresponds, Node.toValue_list, JsonOf, itemsJson_iff, List.forall₂_map_right_iff]
      exact h
  | _ => simp [fromNode, Repr.expectItems, wrongKind, Agree, bind, Except.bind]

/-- Reading a map's entries into a full map is reading each key and value, then keeping the
last value of each key. -/
theorem foldlM_insertKeep {β : Type} (l : List β)
    (readKey readValue : β → Except DecodeError TypedValue) :
    l.foldlM (fun acc x => do
        let kv ← readKey x
        let vv ← readValue x
        pure (insertKeep acc kv vv)) [] =
      (l.mapM fun x => do
        let kv ← readKey x
        let vv ← readValue x
        pure (kv, vv)).map fun (ps : List (TypedValue × TypedValue)) =>
          ps.foldl (fun acc (p : TypedValue × TypedValue) => insertKeep acc p.1 p.2) [] := by
  rw [← foldlM_eq_map_mapM]
  simp only [bind_assoc, pure_bind]

/-- A map key: the text itself, the text wrapped in a declared string type, or the enum
member whose value the text is, which the shape reader names. -/
theorem agree_key (hb : ts.bindable = true) {kt : String} (hkt : keyName ts kt = true)
    (key : String) (hK : 3 ≤ K) :
    Agree (fun a key' => JsonOf ts (Shape.ofName kt) a (.string key'))
      (fromText ts K (Shape.ofName kt) key) (keyFromRepr ts kt key) := by
  obtain ⟨K, rfl⟩ : ∃ K', K = K' + 3 := ⟨K - 3, by omega⟩
  obtain ⟨t, hget, ⟨hshape, ht⟩ | ⟨hshape, rfl⟩⟩ := keyName_cases hb hkt
  · rw [hshape]
    rcases ht with rfl | ⟨members, strategy, rfl⟩
    · simp [fromText, declaredFromText, hget, keyFromRepr, Agree, Except.map, JsonOf, wrapperShape]
    · simp only [fromText, declaredFromText, hget, keyFromRepr]
      cases hfind : members.findIdx? (·.value == key) with
      | some i =>
        obtain ⟨hi, hm⟩ := find?_of_findIdx? hfind
        simp only [hm, Agree]
        exact jsonOf_member hget hi
      | none => simp [find?_of_findIdx?_none hfind, Agree]
  · rw [hshape]
    simp [fromText, keyFromRepr, hget, Agree, JsonOf]

/-- Map entries: the full reader folds each key and value into a map that keeps the last
value of a key, the shape reader lists them. When each key and each value agree, so do the
maps: the shape's JSON object, where a repeated key keeps its last value, is the object the
full map is read from. -/
theorem agree_entries (hb : ts.bindable = true) {kt : String} (hkt : keyName ts kt = true)
    (vs : Shape) {β : Type} (es : List (String × β))
    {readKey readValue : String × β → Except DecodeError TypedValue}
    {decodeValue : String × β → Except DecodeError Node}
    (hkey : ∀ e ∈ es, Agree (fun a key => JsonOf ts (Shape.ofName kt) a (.string key))
      (readKey e) (keyFromRepr ts kt e.1))
    (hvalue : ∀ e ∈ es, Agree (Corresponds ts vs) (readValue e) (decodeValue e)) :
    Agree (fun entries qs => Corresponds ts (.indexMap (Shape.ofName kt) vs) (.indexMap entries) (.map qs))
      (es.foldlM (fun acc e => do
        let kv ← readKey e
        let vv ← readValue e
        pure (insertKeep acc kv vv)) [])
      (es.mapM fun e => do
        let y ← decodeValue e
        let key ← keyFromRepr ts kt e.1
        pure (key, y)) := by
  rw [foldlM_insertKeep]
  refine Agree.map_left (agree_mapM fun e he => (hkey e he).pair_swap (hvalue e he)) fun ps qs h => ?_
  have hrel : EntriesRel (fun a key => JsonOf ts (Shape.ofName kt) a (.string key)) (JsonOf ts vs) ps
      (qs.map fun e => (e.1, e.2.toValue)) := List.forall₂_map_right_iff.2 h
  obtain ⟨hentries, hnodup⟩ := foldl_insertKeep_collapse
    (K := fun a key => JsonOf ts (Shape.ofName kt) a (.string key))
    (fun _ _ _ hx hy => key_functional hb hkt hx hy) (fun _ _ _ ha ha' => key_injective hb hkt ha ha')
    hrel
  simp only [Corresponds, Node.toValue_map, JsonOf, entriesJson_iff]
  exact ⟨hentries, hnodup⟩

/-- A map: both readers read each entry's key and value, the full reader keeping the last
value of a repeated key. -/
theorem agree_map (ih : ReadersAgree ts k) (hb : ts.bindable = true) {r v : Ref} {kt : String}
    {nullable : Bool} {n : Node}
    (hr : target ts r = .map kt v nullable ∨ target ts r = .named (.map kt v nullable .map))
    (hkt : keyName ts kt = true) (hv : refBound ts v = true) (hn : n.IntsIn64)
    (hk : 2 * n.weight ≤ k + 1) (hK : 16 * n.weight + 2 ≤ K + 1) :
    Agree (Corresponds ts (.indexMap (Shape.ofName kt) (Shape.optionIf nullable (Shape.ofRef v))))
      (fromNode ts (K + 1) (.indexMap (Shape.ofName kt) (Shape.optionIf nullable (Shape.ofRef v))) n)
      (fromReprWithin ts (k + 1) r n) := by
  have hshape : fromReprWithin ts (k + 1) r n = (do
      let es ← Repr.expectEntries n
      let l ← es.mapM fun e => do
        let y ← inPart (.key e.1)
          (if (nullable && e.2 == .null) = true then pure .null else fromReprWithin ts k v e.2)
        let key ← keyFromRepr ts kt e.1
        pure (key, y)
      pure (.map l)) := by
    rcases hr with hr | hr <;> simp [fromReprWithin, hr]
  rw [hshape]
  cases n with
  | map es =>
    simp only [fromNode, Repr.expectEntries, ok_bind]
    have hpos := Node.weight_pos (.map es)
    refine Agree.map_bind_pure (agree_entries hb hkt _ es (fun e _ => ?_) (fun e he => ?_))
      fun _ _ h => h
    · exact (agree_key hb hkt e.1 (by omega)).inPart_left _
    · have hlt := Node.length_add_weight_lt he
      exact ((agree_value ih hv (hn.of_mem_map he) (by omega) (by omega)).inPart_right _).inPart_left _
  | _ => simp [fromNode, Repr.expectEntries, wrongKind, Agree, bind, Except.bind]

end Parts

end Ipld.Typed
