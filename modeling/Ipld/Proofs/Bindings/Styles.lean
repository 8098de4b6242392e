import Mathlib
import Ipld.Proofs.Bindings.Declared

/-!
# The two binding styles read alike, but for three nodes

Generated bindings read a value of a declared type with `fromNode`, at the fuel `fuelFor`
gives; minimal bindings read it with `Prototype.decodePlaceholder`. On every system that
`TypeSystem.bindable` accepts and every node with 64-bit integers, what the full reader reads
with finite floats the minimal reader reads as its placeholder, and what the minimal reader
reads the full reader reads too, or refuses on one of its two stricter checks: a string where
a link stands, an integer a float does not hold exactly. A non-finite float goes the other
way: it is null in the JSON value, which a float placeholder does not read.
-/

namespace Ipld.Typed

open Schema Ipld.Repr

variable {ts : TypeSystem}

/-- A bindable system holds the prelude, so at least two types. -/
theorem TypeSystem.two_le_size (hb : ts.bindable = true) : 2 ≤ ts.size := by
  obtain ⟨hbool, hint, -⟩ := TypeSystem.bindable_prelude hb
  have hmem : ("Bool", SchemaType.bool) ∈ ts.types ∧ ("Int", SchemaType.int) ∈ ts.types :=
    ⟨mem_of_lookup_eq hbool, mem_of_lookup_eq hint⟩
  unfold TypeSystem.size
  rcases ts with ⟨_ | ⟨x, _ | ⟨y, rest⟩⟩⟩
  · simp at hmem
  · simp only [List.mem_singleton] at hmem
    obtain ⟨rfl, h⟩ := hmem
    simp at h
  · simp

/-- At the fuels the bindings give, the full reader and the shape reader agree on every node
of a declared type. -/
theorem fromNode_agrees_fromRepr (hb : ts.bindable = true) {name : String} {t : SchemaType}
    (hget : ts.get? name = some t) {n : Node} (hn : n.IntsIn64) :
    Agree (Corresponds ts (.declared name)) (fromNode ts (fuelFor ts n.weight) (.declared name) n)
      (ts.fromRepr (.named name) n) := by
  have hsize := TypeSystem.two_le_size hb
  have hbonus := kindedBonus_le_one ts (.named name)
  have hlevel := Shape.level_declared_le ts name
  obtain ⟨k, hk⟩ : ∃ k, 2 * (n.weight + 1) * (ts.size + 2) = k + 1 :=
    ⟨_, (Nat.succ_pred_eq_of_pos (by positivity)).symm⟩
  have hfuel : 2 * n.weight + 1 ≤ k + 1 := by
    rw [← hk]
    nlinarith
  have hfull : 16 * n.weight + 8 ≤ fuelFor ts n.weight := by
    unfold fuelFor
    nlinarith
  obtain ⟨ih, iht⟩ := readersAgree hb k
  unfold TypeSystem.fromRepr
  rw [hk]
  exact agree_declared ih iht hb hget hn (by omega) (by omega)

/-- A placeholder read from a shape that a finite full value corresponds to is the value's
placeholder. -/
theorem placeholderOf_of_corresponds (hb : ts.bindable = true) {name : String} {v : TypedValue}
    {shape : Node} (h : Corresponds ts (.declared name) v shape) (hfin : v.Finite) :
    placeholderOf ts name shape.toValue = .ok (native ts (.declared name) v) := by
  have hnames : ∀ name fields strategy, ts.get? name = some (.struct fields strategy) →
      (fields.map (·.name)).Nodup :=
    fun _ _ _ hget => (TypeSystem.struct_fields_of_get? hb hget).1
  have hmembers : ∀ name members strategy, ts.get? name = some (.union members strategy) →
      (members.map (·.type)).Nodup :=
    fun _ _ _ hget => (TypeSystem.union_members_of_get? hb hget).1
  exact placeholderOf_jsonOf hnames hmembers h (collapse_collapse _) hfin

/-- The minimal reader succeeds when the shape is read and its placeholder read from it. -/
theorem decodePlaceholder_eq_ok {name : String} {t : SchemaType} {n : Node} {m : NativeValue} :
    Prototype.decodePlaceholder ⟨name, t, ts⟩ n = .ok m ↔
      ∃ shape, ts.fromRepr (.named name) n = .ok shape ∧ placeholderOf ts name shape.toValue = .ok m := by
  unfold Prototype.decodePlaceholder Prototype.decodeShape
  cases hshape : ts.fromRepr (.named name) n with
  | error e => simp [bind, Except.bind]
  | ok shape =>
    simp only [ok_bind]
    cases hp : placeholderOf ts name shape.toValue <;> simp [hp]

/-- The two binding styles read a declared type alike: the minimal reader reads the
placeholder of every finite value the full reader reads, and whatever the minimal reader
reads, the full reader reads too, the same value where it is finite, or refuses leniently. -/
theorem decodePlaceholder_agrees_with_fromNode (hb : ts.bindable = true) {name : String}
    {t : SchemaType} (hget : ts.get? name = some t) {n : Node} (hn : n.IntsIn64) :
    (∀ v, fromNode ts (fuelFor ts n.weight) (.declared name) n = .ok v → v.Finite →
        Prototype.decodePlaceholder ⟨name, t, ts⟩ n = .ok (native ts (.declared name) v)) ∧
      ∀ m, Prototype.decodePlaceholder ⟨name, t, ts⟩ n = .ok m →
        (∃ v, fromNode ts (fuelFor ts n.weight) (.declared name) n = .ok v ∧
            (v.Finite → m = native ts (.declared name) v)) ∨
          ∃ e, fromNode ts (fuelFor ts n.weight) (.declared name) n = .error e ∧ e.Lenient := by
  have hagree := fromNode_agrees_fromRepr hb hget hn
  have hfull : ∀ v, fromNode ts (fuelFor ts n.weight) (.declared name) n = .ok v → v.Finite →
      Prototype.decodePlaceholder ⟨name, t, ts⟩ n = .ok (native ts (.declared name) v) := by
    intro v hv hfin
    obtain ⟨shape, hshape, hcorr⟩ := hagree.exists_of_ok hv
    exact decodePlaceholder_eq_ok.2 ⟨shape, hshape, placeholderOf_of_corresponds hb hcorr hfin⟩
  refine ⟨hfull, fun m hm => ?_⟩
  obtain ⟨shape, hshape, -⟩ := decodePlaceholder_eq_ok.1 hm
  cases hv : fromNode ts (fuelFor ts n.weight) (.declared name) n with
  | ok v =>
    refine .inl ⟨v, rfl, fun hfin => ?_⟩
    have := hm.symm.trans (hfull v hv hfin)
    exact Except.ok.inj this
  | error e =>
    rw [hv, hshape] at hagree
    exact .inr ⟨e, rfl, hagree⟩

/-- The prelude and one declared float type. -/
def ratioTypes : TypeSystem := ⟨prelude ++ [("Ratio", .float)]⟩

theorem decodePlaceholder_agrees_with_fromNode_ratio :
    ratioTypes.bindable = true ∧ ratioTypes.get? "Ratio" = some .float ∧ (Node.int 3).IntsIn64 ∧
      (∀ v, fromNode ratioTypes (fuelFor ratioTypes (Node.int 3).weight) (.declared "Ratio") (.int 3) = .ok v →
          v.Finite → Prototype.decodePlaceholder ⟨"Ratio", .float, ratioTypes⟩ (.int 3) =
            .ok (native ratioTypes (.declared "Ratio") v)) ∧
        ∀ m, Prototype.decodePlaceholder ⟨"Ratio", .float, ratioTypes⟩ (.int 3) = .ok m →
          (∃ v, fromNode ratioTypes (fuelFor ratioTypes (Node.int 3).weight) (.declared "Ratio") (.int 3) = .ok v ∧
              (v.Finite → m = native ratioTypes (.declared "Ratio") v)) ∨
            ∃ e, fromNode ratioTypes (fuelFor ratioTypes (Node.int 3).weight) (.declared "Ratio") (.int 3) =
              .error e ∧ e.Lenient := by
  have hb : ratioTypes.bindable = true := by decide
  have hget : ratioTypes.get? "Ratio" = some .float := rfl
  have hn : (Node.int 3).IntsIn64 := by simp [Node.IntsIn64, Node.ints, Decimal.inInt64]
  exact ⟨hb, hget, hn, decodePlaceholder_agrees_with_fromNode hb hget hn⟩

end Ipld.Typed
