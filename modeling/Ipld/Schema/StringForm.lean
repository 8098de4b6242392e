import Ipld.Schema.TypeSystem
import Ipld.Text.Search

/-!
# String forms of types

Some representations write values inside a string: the fields of a `stringjoin` or
`stringpairs` struct, the keys and values of a `stringpairs` map, the members of a
`stringprefix` union. A type can stand there when it has a *string form*: booleans,
integers, floats and enums always do, and so does every named type whose representation
kind is string. Lists, bytes, links and everything written in place do not.

Whether a separator can show up inside such a string form is answered conservatively by
`mayContain`: `false` only when no value of the type can hold the separator. Integers are
written with `-` and digits, floats also with `.`, `inf` and `NaN`, booleans as `true` or
`false`, enums as their values; a type that refers back to one already being examined
counts as "may contain".
-/

namespace Ipld.Schema

namespace TypeSystem

/-- Whether values of a reference have a string form. -/
def isStringifiable (ts : TypeSystem) (r : Ref) : Bool :=
  match ts.named? r with
  | some (_, t) =>
    match t with
    | .bool | .int | .float | .enum .. => true
    | .bytes | .link _ | .list .. => false
    | t => t.reprKind == .string
  | none => false

/-- Whether every character of `sep` is one of `allowed`. -/
def charsWithin (sep allowed : String) : Bool := sep.toList.all fun c => allowed.toList.contains c

/-- `mayContain`, looking at most `fuel` names deep, with `visiting` the names being
examined. -/
def mayContainWithin (ts : TypeSystem) (sep : String) : Nat → List String → Ref → Bool
  | 0, _, _ => true
  | fuel + 1, visiting, r =>
    match ts.named? r with
    | none => true
    | some (name, t) =>
      if visiting.contains name then true
      else
        let inner := mayContainWithin ts sep fuel (name :: visiting)
        match t with
        | .string => true
        | .int => charsWithin sep "-0123456789"
        | .float => charsWithin sep "-0123456789.infNa"
        | .bool => Text.includes "true" sep || Text.includes "false" sep
        | .enum members _ => members.any fun m => Text.includes m.value sep
        | .struct fields (.stringjoin join) =>
          Text.includes join sep || fields.any fun f => inner f.type
        | .struct fields (.stringpairs i e) =>
          Text.includes i sep || Text.includes e sep ||
            fields.any fun f => Text.includes f.name sep || inner f.type
        | .map key value _ (.stringpairs i e) =>
          Text.includes i sep || Text.includes e sep || inner (.named key) || inner value
        | .union members .stringPrefix =>
          members.any fun m => Text.includes m.discriminant sep || inner (.named m.type)
        | _ => true

/-- Whether the string form of a value of `r` may hold `sep`: `false` only when no value
can. Each level of the search adds a distinct name of the system to `visiting`, so
`size + 1` levels always suffice. -/
def mayContain (ts : TypeSystem) (r : Ref) (sep : String) : Bool :=
  mayContainWithin ts sep (ts.size + 1) [] r

end TypeSystem

end Ipld.Schema
