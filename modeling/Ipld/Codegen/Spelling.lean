import Ipld.Codegen.Naming
import Ipld.Schema.Cycles

/-!
# Schema types spelled in Rust

The prelude types have fixed spellings (`bool`, `i64`, `f64`, `String`, `Bytes`, `Link`);
a declared type is its type identifier; a list is a `Vec`, a map an `IndexMap` and a link a
`Link`. A nullable value is wrapped in `Option`, and so is an optional field, outside the
nullable wrapper.

A struct field or union member that refers by value, through a chain of such references,
back to the type holding it would make that type infinitely large, so it is boxed.
Lists, maps and links hold their values behind a pointer already.
-/

namespace Ipld.Codegen

open Schema

/-- `Option<t>` when nullable. -/
def nullableType (t : String) (nullable : Bool) : String :=
  if nullable then "Option<" ++ t ++ ">" else t

/-- The Rust type of a reference; `boxed` puts a declared type in a `Box`. -/
def rustType : Ref → Bool → String
  | .named n, boxed =>
    match n with
    | "Bool" => "bool"
    | "Int" => "i64"
    | "Float" => "f64"
    | "String" => "String"
    | "Bytes" => "Bytes"
    | "Link" => "Link"
    | other => if boxed then "Box<" ++ typeIdent other ++ ">" else typeIdent other
  | .list v n, _ => "Vec<" ++ nullableType (rustType v false) n ++ ">"
  | .map k v n, _ =>
    "IndexMap<" ++ rustType (.named k) false ++ ", " ++ nullableType (rustType v false) n ++ ">"
  | .link _, _ => "Link"

/-- The Rust type of a field. -/
def fieldType (r : Ref) (optional nullable boxed : Bool) : String :=
  let t := nullableType (rustType r boxed) nullable
  if optional then "Option<" ++ t ++ ">" else t

/-- Whether a by-value reference from type `holder` to type `target` closes a cycle. -/
def needsBox (ts : TypeSystem) (holder target : String) : Bool :=
  ts.reachesByValue holder target

/-- Whether a reference from type `holder` must be boxed. -/
def boxedRef (ts : TypeSystem) (holder : String) (r : Ref) : Bool :=
  match r.name? with
  | some target => needsBox ts holder target
  | none => false

end Ipld.Codegen
