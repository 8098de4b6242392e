import Mathlib
import Ipld.Proofs.Repr.Written

/-!
# The kind a representation is written as

The compiler reasons about representations by kind: `TypeSystem.reprKindOf` gives the
data-model kind of every reference, and the rules of a kinded union ask that each member be
represented as the kind its discriminant names and be no kinded union itself. Reading a
kinded union back dispatches on the kind of the node it is given.

Writing agrees with both. What `TypeSystem.toRepr` writes for a reference that does not name
a kinded union has the reference's representation kind (`kind_of_toReprWithin_ref`); a
kinded union writes what the member chosen by the shape writes (`toReprWithin_kinded`), so in
a compiled system the node has the kind that member's discriminant names, and the reader's
dispatch on that kind picks the same member (`compile_toRepr_kind`).
-/

namespace Ipld

/-- The name a kind is found by is the kind's name. -/
theorem Kind.name_of_ofName? {s : String} {k : Kind} (h : Kind.ofName? s = some k) :
    k.name = s := by
  simpa using List.find?_some h

/-- A reference names a type exactly when it is the type's name. -/
theorem Schema.TypeSystem.named?_eq_some {ts : Schema.TypeSystem} {r : Schema.Ref} {name : String}
    {t : Schema.SchemaType} : ts.named? r = some (name, t) ↔ r = .named name ∧ ts.get? name = some t := by
  cases r with
  | named n =>
    simp only [Schema.TypeSystem.named?, Option.map_eq_some_iff, Prod.mk.injEq,
      Schema.Ref.named.injEq]
    constructor
    · rintro ⟨t', ht', rfl, rfl⟩
      exact ⟨rfl, ht'⟩
    · rintro ⟨rfl, ht⟩
      exact ⟨t, ht, rfl, rfl⟩
  | _ => simp [Schema.TypeSystem.named?]

namespace Repr

open Schema

theorem inPart_eq_ok {α : Type} {c : Context} {x : Except DecodeError α} {a : α} :
    inPart c x = .ok a ↔ x = .ok a := by
  cases x <;> simp [inPart]

/-- The shape of a union value is a map with one entry. -/
theorem eq_of_singleEntry {v x : Node} {k : String} (h : singleEntry v = .ok (k, x)) :
    v = .map [(k, x)] := by
  unfold singleEntry at h
  split at h
  · cases h
    rfl
  · cases h
  · simp [wrongKind] at h

/-! ## References -/

/-- A reference that names no type of the system is written as its own kind: a list, a
map, or a link for a name the system does not know. -/
theorem kind_of_toReprWithin_unnamed {ts : TypeSystem} {fuel : Nat} {r : Ref} {v out : Node}
    (hr : ts.named? r = none) (h : toReprWithin ts fuel r v = .ok out) :
    out.kind = ts.reprKindOf r := by
  cases fuel with
  | zero => simp [toReprWithin] at h
  | succ fuel =>
    cases r with
    | named n =>
      have hget : ts.get? n = none := by simpa [TypeSystem.named?] using hr
      simp only [toReprWithin, target, hget] at h
      simpa [TypeSystem.reprKindOf, hget] using kind_of_linkOf h
    | list v nullable =>
      simp only [toReprWithin, target, bind_eq_ok, pure_eq_ok] at h
      obtain ⟨_, -, _, -, rfl⟩ := h
      rfl
    | map k v nullable =>
      simp only [toReprWithin, target, bind_eq_ok, pure_eq_ok] at h
      obtain ⟨_, -, rfl⟩ := h
      rfl
    | link e =>
      simp only [toReprWithin, target] at h
      exact kind_of_linkOf h

/-- Every reference that does not name a kinded union is written as its representation
kind. -/
theorem kind_of_toReprWithin_ref {ts : TypeSystem} {fuel : Nat} {r : Ref} {v out : Node}
    (hk : ∀ name members, ts.named? r ≠ some (name, .union members .kinded))
    (h : toReprWithin ts fuel r v = .ok out) : out.kind = ts.reprKindOf r := by
  cases hr : ts.named? r with
  | none => exact kind_of_toReprWithin_unnamed hr h
  | some p =>
    obtain ⟨name, t⟩ := p
    obtain ⟨rfl, hget⟩ := TypeSystem.named?_eq_some.1 hr
    have hnk : t.isKindedUnion = false := by
      cases t with
      | union members strategy =>
        cases strategy with
        | kinded => exact absurd hr (hk name members)
        | _ => rfl
      | _ => rfl
    rw [kind_of_toReprWithin hget hnk h]
    simp [TypeSystem.reprKindOf, hget]

/-- A kinded union writes what its member writes: the member whose type the shape's one
entry names, written from the entry's value. -/
theorem toReprWithin_kinded {ts : TypeSystem} {fuel : Nat} {name : String}
    {members : List UnionMember} {v out : Node}
    (hget : ts.get? name = some (.union members .kinded))
    (h : toReprWithin ts fuel (.named name) v = .ok out) :
    ∃ m ∈ members, ∃ inner fuel', v = .map [(m.type, inner)] ∧
      toReprWithin ts fuel' (.named m.type) inner = .ok out := by
  cases fuel with
  | zero => simp [toReprWithin] at h
  | succ fuel =>
    simp only [toReprWithin, target, hget, unionToRepr, bind_eq_ok] at h
    obtain ⟨⟨key, inner⟩, hsingle, h⟩ := h
    split at h
    · rename_i m hfind
      simp only [bind_eq_ok, pure_eq_ok, inPart_eq_ok] at h
      obtain ⟨value, hvalue, rfl⟩ := h
      have hkey : m.type = key := by simpa using List.find?_some hfind
      subst hkey
      exact ⟨m, List.mem_of_find?_eq_some hfind, inner, fuel, eq_of_singleEntry hsingle, hvalue⟩
    · exact absurd h throw_ne_ok

end Repr

namespace Schema.Document

open Ipld.Repr

/-- In a compiled system, writing a representation gives the kind the compiler reasons
with. For a reference that names no kinded union it is the reference's representation kind.
For a kinded union it is the kind named by the discriminant of the member the shape chose,
and reading the node back, which looks the member up by the node's kind, finds that
member again. -/
theorem compile_toRepr_kind {d : Document} {ts : TypeSystem} (h : d.compile = .ok ts)
    {r : Ref} {v n : Node} (hw : ts.toRepr r v = .ok n) :
    ((∀ name members, ts.named? r ≠ some (name, .union members .kinded)) →
        n.kind = ts.reprKindOf r) ∧
      ∀ name members, ts.named? r = some (name, .union members .kinded) →
        ∃ m ∈ members, ∃ inner, v = .map [(m.type, inner)] ∧
          Kind.ofName? m.discriminant = some n.kind ∧
          members.find? (·.discriminant == n.kind.name) = some m := by
  have hc := compile_compiled h
  refine ⟨fun hk => kind_of_toReprWithin_ref hk hw, ?_⟩
  intro name members hr
  obtain ⟨rfl, hget⟩ := TypeSystem.named?_eq_some.1 hr
  obtain ⟨m, hm, inner, fuel, rfl, hmw⟩ := toReprWithin_kinded hget hw
  have hrules : ts.unionViolations members .kinded = [] := hc.rules _ (mem_of_lookup_eq hget)
  obtain ⟨k, hk, hmember⟩ := TypeSystem.kinded_members hrules m hm
  obtain ⟨t, ht⟩ := Option.isSome_iff_exists.1
    (hc.contains_of_mem_mentions hget (by simpa [SchemaType.mentions] using ⟨m, hm, rfl⟩))
  obtain ⟨hnk, hkind⟩ := hmember t ht
  have hout : n.kind = k := (kind_of_toReprWithin ht hnk hmw).trans hkind
  subst hout
  refine ⟨m, hm, inner, rfl, hk, ?_⟩
  rw [Kind.name_of_ofName? hk]
  exact find?_key (·.discriminant) (TypeSystem.discriminants_nodup hrules) hm

/-- A kinded union of an integer and a struct. -/
def kindedDocument : Document :=
  ⟨[("U", .union [⟨"int", "Int"⟩, ⟨"map", "P"⟩] (some ⟨"kinded", []⟩)),
    ("P", .struct [("x", ⟨.named "Int", false, false⟩)] none)]⟩

/-- The system `kindedDocument` compiles to. -/
def kindedSystem : TypeSystem :=
  ⟨prelude ++ [("U", .union [⟨"int", "Int"⟩, ⟨"map", "P"⟩] .kinded),
    ("P", .struct [⟨"x", .named "Int", false, false⟩] .map)]⟩

/-- The integer member of a kinded union is written as an integer, which the kind
dispatch reads back as the member `int`. -/
theorem compile_toRepr_kind_kinded :
    kindedDocument.compile = .ok kindedSystem ∧
      kindedSystem.toRepr (.named "U") (.map [("Int", .int 5)]) = .ok (.int 5) ∧
      ((∀ name members, kindedSystem.named? (.named "U") ≠ some (name, .union members .kinded)) →
          (Node.int 5).kind = kindedSystem.reprKindOf (.named "U")) ∧
        ∀ name members,
          kindedSystem.named? (.named "U") = some (name, .union members .kinded) →
          ∃ m ∈ members, ∃ inner, Node.map [("Int", .int 5)] = .map [(m.type, inner)] ∧
            Kind.ofName? m.discriminant = some (Node.int 5).kind ∧
            members.find? (·.discriminant == (Node.int 5).kind.name) = some m := by
  have h : kindedDocument.compile = .ok kindedSystem := by cbv
  have hw : kindedSystem.toRepr (.named "U") (.map [("Int", .int 5)]) = .ok (.int 5) := by cbv
  exact ⟨h, hw, compile_toRepr_kind h hw⟩

end Schema.Document

end Ipld
