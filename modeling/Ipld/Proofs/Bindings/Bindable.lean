import Mathlib
import Ipld.Proofs.Compile.Stages
import Ipld.Typed.Convert

/-!
# Schemas that both binding styles bind alike

Generated bindings read and write a value through its type's shape; minimal bindings go
through the shape tree and a generic serializer. `TypeSystem.bindable` checks, type by type,
that a schema stays within what both express: the prelude names stand for the prelude
scalars; map keys are strings or enum members; what is held inside a string reads from text
in both styles and is never null; separators, delimiters and prefixes are nonempty; kinded
union members are not kinded unions and inline union members are map structs; field names,
member types and enum member names are distinct, and an int enum's values are integers.

The check is a computation, so it is decided for a given schema.
-/

namespace Ipld.Typed

open Schema

section Check

variable (ts : TypeSystem)

/-- A name both styles read from a string. -/
def textName (n : String) : Bool :=
  match ts.get? n with
  | some .bool | some .int | some .float | some .string => true
  | some (.enum _ .string) => true
  | some (.map _ _ _ (.stringpairs ..)) => true
  | some (.struct _ (.stringjoin _)) | some (.struct _ (.stringpairs ..)) => true
  | some (.union _ .stringPrefix) => true
  | _ => false

/-- A reference both styles read from a string: a name read from text. -/
def textRef : Ref → Bool
  | .named n => textName ts n
  | _ => false

/-- A name that map keys may have: a string type or an enum. -/
def keyName (k : String) : Bool :=
  match ts.get? k with
  | some .string | some (.enum ..) => true
  | _ => false

/-- Every name of a reference is known, and the keys of its maps are key names. -/
def refBound : Ref → Bool
  | .named n => (ts.get? n).isSome
  | .list v _ => refBound v
  | .map k v _ => keyName ts k && refBound v
  | .link _ => true

/-- A name of a kinded union. -/
def kindedName (n : String) : Bool := ts.get? n matches some (.union _ .kinded)

/-- A name of a struct written as a map. -/
def mapStructName (n : String) : Bool := ts.get? n matches some (.struct _ .map)

/-- A type both styles bind alike, its parts given. -/
def bindableType : SchemaType → Bool
  | .list v _ => refBound ts v
  | .map k v n strategy =>
    keyName ts k && refBound ts v &&
      match strategy with
      | .stringpairs inner entry => inner != "" && entry != "" && !n && textRef ts v
      | _ => true
  | .struct fields strategy =>
    decide (fields.map (·.name)).Nodup && fields.all (fun f => refBound ts f.type) &&
      match strategy with
      | .tuple => fields.all fun f => !f.optional
      | .stringjoin join =>
        join != "" && decide (2 ≤ fields.length) &&
          fields.all fun f => !f.optional && !f.nullable && textRef ts f.type
      | .stringpairs inner entry =>
        inner != "" && entry != "" && fields.all fun f => !f.nullable && textRef ts f.type
      | _ => true
  | .union members strategy =>
    decide (members.map (·.type)).Nodup && members.all (fun m => (ts.get? m.type).isSome) &&
      match strategy with
      | .kinded => members.all fun m => !kindedName ts m.type
      | .inline _ => members.all fun m => mapStructName ts m.type
      | .stringPrefix => members.all fun m => m.discriminant != "" && textName ts m.type
      | _ => true
  | .enum members strategy =>
    decide (members.map (·.name)).Nodup &&
      match strategy with
      | .int => members.all fun m => (Decimal.readInt64 m.value).isSome
      | .string => true
  | _ => true

/-- The prelude names stand for the prelude scalars. -/
def preludeBound : Bool :=
  ts.get? "Bool" matches some .bool && ts.get? "Int" matches some .int &&
    ts.get? "Float" matches some .float && ts.get? "String" matches some .string &&
    ts.get? "Bytes" matches some .bytes && ts.get? "Link" matches some (.link _)

end Check

end Ipld.Typed

namespace Ipld.Schema.TypeSystem

open Typed

/-- Every type of the system is bound alike by both binding styles. -/
def bindable (ts : TypeSystem) : Bool :=
  preludeBound ts && ts.types.all fun p => bindableType ts p.2

end Ipld.Schema.TypeSystem

namespace Ipld.Typed

open Schema

section Facts

variable {ts : TypeSystem}

theorem TypeSystem.bindable_prelude (hb : ts.bindable = true) :
    ts.get? "Bool" = some .bool ∧ ts.get? "Int" = some .int ∧ ts.get? "Float" = some .float ∧
      ts.get? "String" = some .string ∧ ts.get? "Bytes" = some .bytes ∧
      ∃ e, ts.get? "Link" = some (.link e) := by
  simp only [TypeSystem.bindable, preludeBound, Bool.and_eq_true] at hb
  obtain ⟨⟨⟨⟨⟨⟨hbool, hint⟩, hfloat⟩, hstring⟩, hbytes⟩, hlink⟩, -⟩ := hb
  refine ⟨?_, ?_, ?_, ?_, ?_, ?_⟩
  · split at hbool <;> first | assumption | contradiction
  · split at hint <;> first | assumption | contradiction
  · split at hfloat <;> first | assumption | contradiction
  · split at hstring <;> first | assumption | contradiction
  · split at hbytes <;> first | assumption | contradiction
  · split at hlink
    case h_1 e heq => exact ⟨e, heq⟩
    case h_2 => contradiction

/-- Each type of a bindable system is bound alike. -/
theorem TypeSystem.bindableType_of_get? (hb : ts.bindable = true) {n : String} {t : SchemaType}
    (h : ts.get? n = some t) : bindableType ts t = true := by
  simp only [TypeSystem.bindable, Bool.and_eq_true, List.all_eq_true] at hb
  exact hb.2 (n, t) (mem_of_lookup_eq h)

/-- The fields of a struct of a bindable system have distinct names and bound types. -/
theorem TypeSystem.struct_fields_of_get? (hb : ts.bindable = true) {n : String}
    {fields : List StructField} {strategy : StructStrategy}
    (h : ts.get? n = some (.struct fields strategy)) :
    (fields.map (·.name)).Nodup ∧ ∀ f ∈ fields, refBound ts f.type = true := by
  have ht := TypeSystem.bindableType_of_get? hb h
  simp only [bindableType, Bool.and_eq_true, decide_eq_true_eq, List.all_eq_true] at ht
  exact ht.1

/-- The members of a union of a bindable system are distinct types, each declared. -/
theorem TypeSystem.union_members_of_get? (hb : ts.bindable = true) {n : String}
    {members : List UnionMember} {strategy : UnionStrategy}
    (h : ts.get? n = some (.union members strategy)) :
    (members.map (·.type)).Nodup ∧ ∀ m ∈ members, (ts.get? m.type).isSome = true := by
  have ht := TypeSystem.bindableType_of_get? hb h
  simp only [bindableType, Bool.and_eq_true, decide_eq_true_eq, List.all_eq_true] at ht
  exact ht.1

end Facts

end Ipld.Typed
