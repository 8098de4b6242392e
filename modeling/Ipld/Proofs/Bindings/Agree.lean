import Mathlib
import Ipld.Proofs.Repr.Parts

/-!
# Two readers that agree

Generated and minimal bindings read the same representation with two different readers.
`Agree R x y` says how the result `x` of the first stands to the result `y` of the second:
both succeed with results related by `R`, or both fail, or only the first fails and its
error is `Lenient`: a string where a link is needed (minimal bindings take it for the
link's text) or an integer that a float cannot hold exactly (minimal bindings keep the
integer). The first reader never succeeds where the second fails.

Agreement is preserved by every way the readers combine their steps: binding, mapping,
wrapping an error with the part it arose in (on either side), reading two parts in either
order, and `mapM` over the same list.
-/

namespace Ipld.Repr

/-- The error under every part it is wrapped in. -/
def DecodeError.root : DecodeError → DecodeError
  | .within _ e => e.root
  | e => e

/-- The errors that generated bindings raise where minimal bindings read on: a string
where a link is needed, and an integer too large for a float to hold exactly. -/
def DecodeError.Lenient (e : DecodeError) : Prop :=
  e.root = .wrongKind .link .string ∨ ∃ i, e.root = .inexactFloat i

@[simp] theorem DecodeError.lenient_within {c : Context} {e : DecodeError} :
    (DecodeError.within c e).Lenient ↔ e.Lenient := by
  simp [DecodeError.Lenient, DecodeError.root]

/-- The result `x` of the first reader agrees with the result `y` of the second up to `R`. -/
def Agree {α β : Type} (R : α → β → Prop) : Except DecodeError α → Except DecodeError β → Prop
  | .ok a, .ok b => R a b
  | .ok _, .error _ => False
  | .error e, .ok _ => e.Lenient
  | .error _, .error _ => True

section Agree

variable {α β γ δ : Type} {R : α → β → Prop} {S : γ → δ → Prop}

@[simp] theorem agree_ok_ok {a : α} {b : β} : Agree R (.ok a) (.ok b) ↔ R a b := Iff.rfl

@[simp] theorem agree_error_error {e e' : DecodeError} :
    Agree R (.error e : Except DecodeError α) (.error e' : Except DecodeError β) := trivial

theorem agree_of_lenient {e : DecodeError} (h : e.Lenient) (y : Except DecodeError β) :
    Agree R (.error e : Except DecodeError α) y := by
  cases y <;> simp_all [Agree]

/-- A computation both readers share agrees with itself. -/
theorem agree_refl (x : Except DecodeError α) : Agree Eq x x := by
  cases x <;> simp [Agree]

theorem Agree.mono {x : Except DecodeError α} {y : Except DecodeError β} (h : Agree R x y)
    {R' : α → β → Prop} (hR : ∀ a b, R a b → R' a b) : Agree R' x y := by
  cases x <;> cases y <;> simp_all [Agree]

/-- What the first reader reads, the second reads too. -/
theorem Agree.exists_of_ok {x : Except DecodeError α} {y : Except DecodeError β} {a : α}
    (h : Agree R x y) (hx : x = .ok a) : ∃ b, y = .ok b ∧ R a b := by
  subst hx
  cases y <;> simp_all [Agree]

theorem Agree.bind {x : Except DecodeError α} {y : Except DecodeError β}
    {f : α → Except DecodeError γ} {g : β → Except DecodeError δ} (h : Agree R x y)
    (hf : ∀ a b, R a b → Agree S (f a) (g b)) : Agree S (x >>= f) (y >>= g) := by
  cases x with
  | error e =>
    cases y with
    | error e' => trivial
    | ok b => exact agree_of_lenient h _
  | ok a =>
    cases y with
    | error e' => exact h.elim
    | ok b => exact hf a b h

/-- A step both readers share, followed by steps that agree on each of its results. -/
theorem agree_bind_same {x : Except DecodeError α} {f : α → Except DecodeError γ}
    {g : α → Except DecodeError δ} (h : ∀ a, x = .ok a → Agree S (f a) (g a)) :
    Agree S (x >>= f) (x >>= g) := by
  cases x with
  | error e => trivial
  | ok a => exact h a rfl

theorem Agree.map {x : Except DecodeError α} {y : Except DecodeError β} {f : α → γ} {g : β → δ}
    (h : Agree R x y) (hf : ∀ a b, R a b → S (f a) (g b)) : Agree S (x.map f) (y.map g) := by
  cases x <;> cases y <;> simp_all [Agree, Except.map]

theorem Agree.map_left {x : Except DecodeError α} {y : Except DecodeError β} {f : α → γ}
    {S : γ → β → Prop} (h : Agree R x y) (hf : ∀ a b, R a b → S (f a) b) : Agree S (x.map f) y := by
  cases x <;> cases y <;> simp_all [Agree, Except.map]

theorem Agree.bind_pure_right {x : Except DecodeError α} {y : Except DecodeError β} {g : β → δ}
    {S : α → δ → Prop} (h : Agree R x y) (hg : ∀ a b, R a b → S a (g b)) :
    Agree S x (y >>= fun b => pure (g b)) := by
  cases x with
  | error e => cases y with
    | error e' => trivial
    | ok b => exact h
  | ok a => cases y with
    | error e' => exact h.elim
    | ok b => exact hg a b h

theorem Agree.inPart_left {x : Except DecodeError α} {y : Except DecodeError β} (c : Context)
    (h : Agree R x y) : Agree R (inPart c x) y := by
  cases x <;> cases y <;> simp_all [Agree, inPart]

theorem Agree.inPart_right {x : Except DecodeError α} {y : Except DecodeError β} (c : Context)
    (h : Agree R x y) : Agree R x (inPart c y) := by
  cases x <;> cases y <;> simp_all [Agree, inPart]

/-- Two parts read one after the other agree with the same parts read in the other order:
the first reader never gets past a part the second fails on. -/
theorem Agree.pair_swap {xa : Except DecodeError α} {ya : Except DecodeError β}
    {xb : Except DecodeError γ} {yb : Except DecodeError δ} (ha : Agree R xa ya) (hb : Agree S xb yb) :
    Agree (fun p q => R p.1 q.1 ∧ S p.2 q.2)
      (do let a ← xa; let b ← xb; pure (a, b)) (do let b ← yb; let a ← ya; pure (a, b)) := by
  cases xa with
  | error e =>
    cases ya with
    | ok a' => exact agree_of_lenient ha _
    | error e' => cases yb <;> trivial
  | ok a =>
    cases ya with
    | error e' => exact ha.elim
    | ok a' =>
      cases xb with
      | error e =>
        cases yb with
        | ok b' => exact agree_of_lenient hb _
        | error e' => trivial
      | ok b =>
        cases yb with
        | error e' => exact hb.elim
        | ok b' => exact ⟨ha, hb⟩

/-- Steps that agree on each item agree over the list. -/
theorem agree_mapM {l : List γ} {f : γ → Except DecodeError α} {g : γ → Except DecodeError β}
    (h : ∀ c ∈ l, Agree R (f c) (g c)) : Agree (List.Forall₂ R) (l.mapM f) (l.mapM g) := by
  induction l with
  | nil => exact List.Forall₂.nil
  | cons c l ih =>
    rw [List.mapM_cons, List.mapM_cons]
    refine (h c List.mem_cons_self).bind fun a b hab => ?_
    refine (ih fun c' hc' => h c' (List.mem_cons_of_mem c hc')).bind fun as bs hs => ?_
    exact List.Forall₂.cons hab hs

end Agree

/-- A fold whose step reads a value and then adds it purely is a `mapM` followed by a pure
fold. -/
theorem foldlM_eq_map_mapM {α β γ ε : Type} (h : α → Except ε β) (g : γ → β → γ) :
    ∀ (l : List α) (init : γ),
      l.foldlM (fun acc x => h x >>= fun y => pure (g acc y)) init =
        (l.mapM h).map fun ys => ys.foldl g init
  | [], init => rfl
  | x :: l, init => by
    rw [List.foldlM_cons, List.mapM_cons]
    cases h x with
    | error e => rfl
    | ok y =>
      simp only [ok_bind, pure_bind]
      rw [foldlM_eq_map_mapM h g l (g init y)]
      cases l.mapM h <;> rfl

end Ipld.Repr
