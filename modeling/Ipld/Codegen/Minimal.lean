import Ipld.Codegen.Code
import Ipld.Codegen.Spelling
import Ipld.Tool.Error
import Ipld.Schema.Dsl.Read
import Ipld.Schema.Compile

/-!
# Minimal bindings

Minimal mode writes two files. `types.rs` holds one placeholder per declared type, shaped
so that the generic serializer gives it the form the bindings expect: scalars, lists and
maps are transparent wrappers, structs keep their field names (renamed where the
identifier differs), unions are tagged by member type name, enums are their member names.
`schema.rs` embeds the schema text verbatim and binds every placeholder to its compiled
type at start-up.

Because start-up compiles the embedded text again, that text must compile to exactly the
type system the bindings are generated from: the same types under the same names, in any
order.
-/

namespace Ipld.Codegen

open Schema Code

/-- Whether two type systems hold the same types under the same names, in any order. -/
def sameSystem (a b : TypeSystem) : Bool :=
  a.types.length == b.types.length &&
    a.types.all fun (n, t) => b.get? n == some t

/-- The derives every placeholder has for the serializer. -/
def serdeDerive : String := "Serialize, Deserialize"

/-- A placeholder that is its one value. -/
def transparentCode (ident inner derive : String) : Code :=
  lines ["#[derive(" ++ derive ++ ", " ++ serdeDerive ++ ")]", "#[serde(transparent)]",
    "pub struct " ++ ident ++ "(pub " ++ inner ++ ");"]

/-- A rename attribute, when the identifier is not the schema name. -/
def renameCode (ident name : String) : Code :=
  if unraw ident != name then line ("#[serde(rename = " ++ literal name ++ ")]") else []

/-- The Rust type of a scalar placeholder's value. -/
def scalarType : SchemaType → String
  | .bool => rustType (.named "Bool") false
  | .int => rustType (.named "Int") false
  | .bytes => rustType (.named "Bytes") false
  | .link _ => rustType (.named "Link") false
  | _ => rustType (.named "String") false

/-- A struct placeholder. -/
def placeholderStruct (ts : TypeSystem) (name ident : String) (fields : List StructField) : Code :=
  let slots := uniqueIdents (fields.map (·.name)) fieldIdent
  line ("#[derive(Debug, Clone, PartialEq, " ++ serdeDerive ++ ")]") ++
  block ("pub struct " ++ ident)
    ((fields.zip slots).flatMap fun (f, slot) =>
      renameCode slot f.name ++
      (if f.optional && f.nullable then
        line ("#[serde(default, skip_serializing_if = \"Option::is_none\", " ++
          "with = \"ipld_schema_tool::bind::double_option\")]")
       else if f.optional then
        line "#[serde(default, skip_serializing_if = \"Option::is_none\")]"
       else []) ++
      line ("pub " ++ slot ++ ": " ++
        fieldType f.type f.optional f.nullable (boxedRef ts name f.type) ++ ","))

/-- A union placeholder, tagged by member type name. -/
def placeholderUnion (ts : TypeSystem) (name ident : String) (members : List UnionMember) :
    Code :=
  let variants := uniqueIdents (members.map (·.type)) typeIdent
  line ("#[derive(Debug, Clone, PartialEq, " ++ serdeDerive ++ ")]") ++
  block ("pub enum " ++ ident)
    ((members.zip variants).flatMap fun (m, v) =>
      renameCode v m.type ++
      line (v ++ "(" ++ rustType (.named m.type) (needsBox ts name m.type) ++ "),"))

/-- An enum placeholder: its member names. -/
def placeholderEnum (ident : String) (members : List EnumValue) : Code :=
  let variants := uniqueIdents (members.map (·.name)) fun n => escapeKeyword (pascalCase n)
  line ("#[derive(Debug, Clone, Copy, PartialEq, Eq, Hash, " ++ serdeDerive ++ ")]") ++
  block ("pub enum " ++ ident)
    ((members.zip variants).flatMap fun (m, v) => renameCode v m.name ++ line (v ++ ","))

/-- `types.rs`. -/
def typesFile (ts : TypeSystem) (package : String) : String :=
  Code.render <|
    lines [header,
      "//! Placeholder types for the `" ++ package ++ "` schema, bound at start-up by `schema.rs`.",
      "#![allow(unused)]", "use serde::\x7bDeserialize, Serialize\x7d;", "",
      "use ipld_schema_tool::node::\x7bBytes, IndexMap, Link\x7d;"] ++
    ts.declared.flatMap fun (name, t) =>
      let ident := typeIdent name
      blank ++
      match t with
      | .bool | .int | .string | .bytes | .link _ =>
        transparentCode ident (scalarType t) "Debug, Clone, PartialEq, Eq, Hash"
      | .float => transparentCode ident "f64" "Debug, Clone, PartialEq"
      | .list v n => transparentCode ident (rustType (.list v n) false) "Debug, Clone, PartialEq"
      | .map k v n _ => transparentCode ident (rustType (.map k v n) false) "Debug, Clone, PartialEq"
      | .struct fields _ => placeholderStruct ts name ident fields
      | .union members _ => placeholderUnion ts name ident members
      | .enum members _ => placeholderEnum ident members

/-- `schema.rs`. -/
def schemaFile (ts : TypeSystem) (source sourceName package : String) : String :=
  let declared := ts.declared.map (·.1)
  let slots := (uniqueIdents ("bindings" :: declared) fieldIdent).drop 1
  Code.render <|
    lines [header, "//! Start-up binding table for the `" ++ package ++ "` schema.",
      "use ipld_schema_tool::bind::\x7bBindings, Lazy, Prototype\x7d;", "",
      "/// `" ++ sourceName ++ "`, embedded verbatim.",
      "pub const SCHEMA_SOURCE: &str = " ++ rawStringLiteral source ++ ";", "",
      "/// One prototype per placeholder in `types.rs`."] ++
    block "pub struct Types"
      (line "pub bindings: Bindings," ++ lines (slots.map fun s => "pub " ++ s ++ ": Prototype,")) ++
    blank ++
    blockWith "pub static TYPES: Lazy<Types> = Lazy::new(||" "\x7d);"
      (lines ["let bindings = Bindings::load(SCHEMA_SOURCE)",
        "    .unwrap_or_else(|err| panic!(\"embedded schema failed to load: \x7berr\x7d\"));",
        "let prototype = |name: &str| \x7b",
        "    bindings.prototype(name).unwrap_or_else(|err| panic!(\"binding \x7bname\x7d: \x7berr\x7d\"))",
        "\x7d;"] ++
       block "Types"
        (lines ((declared.zip slots).map fun (n, s) => s ++ ": prototype(" ++ literal n ++ "),") ++
         line "bindings,")) ++
    blank ++
    lines ["/// Load and bind the embedded schema now instead of on first use.",
      "/// Panics if it does not load."] ++
    block "pub fn init()" (line "Lazy::force(&TYPES);")

/-- Minimal bindings for a compiled schema whose text is `source`. -/
def generateMinimal (ts : TypeSystem) (source sourceName package : String) :
    Except ToolError Artifact := do
  let document ← match Document.parse sourceName source with
    | .error e => Except.error (ToolError.parse e)
    | .ok d => pure d
  let reloaded ← match document.compile with
    | .error e => Except.error (ToolError.compile e)
    | .ok r => pure r
  if !sameSystem reloaded ts then
    throw (.invalidArgument ("schema source " ++ sourceName ++
      " does not compile to the type system being generated"))
  pure ⟨[⟨"types.rs", typesFile ts package⟩, ⟨"schema.rs", schemaFile ts source sourceName package⟩]⟩

end Ipld.Codegen
