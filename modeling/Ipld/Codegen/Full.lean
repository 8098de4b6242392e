import Ipld.Codegen.Code
import Ipld.Codegen.Spelling
import Ipld.Decimal.Read
import Ipld.Tool.Error

/-!
# Full bindings

Full mode writes one file per declared type and a `mod.rs` that declares and re-exports
them. Each type becomes a Rust type with its conversions written out: `Representable`
(to and from a data-model node) and, for types represented as strings, `StringRepr` (to
and from the string), with the node form of a string-represented type going through the
string. Failures inside a part are wrapped with the part (`field "x"`, `member "T"`).

A module is named by the type's snake-case name, with `_ty` added when that equals the
type identifier (so `type foo` and `type Foo` do not clash), numbered when names repeat;
its file drops a leading `r#`. An enum represented as ints needs each value to be a 64-bit
integer.
-/

namespace Ipld.Codegen

open Schema Code

/-- The lines that start each type's file. -/
def fileHead (name : String) (t : SchemaType) : Code :=
  lines [header, "#![allow(unused)]", "use ipld_schema_tool::node as ipld;",
    "use ipld_schema_tool::node::\x7bBytes, IndexMap, Link, Representable, StringRepr\x7d;", "",
    "use super::*;", "",
    "/// Schema type `" ++ name ++ "`: " ++ t.kindName ++ " with " ++ t.reprName ++
      " representation."]

/-- The derive line of a type's Rust form. -/
def derives : SchemaType → String
  | .bool | .int | .string | .bytes | .link _ => "#[derive(Debug, Clone, PartialEq, Eq, Hash)]"
  | .enum .. => "#[derive(Debug, Clone, Copy, PartialEq, Eq, Hash)]"
  | _ => "#[derive(Debug, Clone, PartialEq)]"

/-- The prelude type a scalar wraps. -/
def preludeOf : SchemaType → String
  | .bool => "Bool"
  | .int => "Int"
  | .float => "Float"
  | .bytes => "Bytes"
  | .link _ => "Link"
  | _ => "String"

/-- The head of a conversion to a node. -/
def toNodeHead : String := "fn to_node(&self) -> ipld::Node"

/-- The head of a conversion from a node. -/
def fromNodeHead : String := "fn from_node(node: &ipld::Node) -> Result<Self, ipld::DecodeError>"

/-- The head of a conversion to a string. -/
def toStringHead : String := "fn to_repr_string(&self) -> String"

/-- The head of a conversion from a string. -/
def fromStringHead : String :=
  "fn from_repr_string(s: &str) -> Result<Self, ipld::DecodeError>"

/-- The arm for a discriminant that no member has. -/
def unknownArm : String :=
  "other => Err(ipld::DecodeError::UnknownDiscriminant(other.to_string())),"

/-- Wrap a failure with the part it was found in: `what "name"`. -/
def withinPart (what name : String) : String :=
  ".map_err(|e| e.within(" ++ literal (what ++ " " ++ literal name) ++ "))"

/-- A struct around one value, converted as that value. -/
def newtypeCode (ident inner derive : String) : Code :=
  lines [derive, "pub struct " ++ ident ++ "(pub " ++ inner ++ ");", ""] ++
  block ("impl Representable for " ++ ident)
    (block toNodeHead (line "self.0.to_node()") ++
     block fromNodeHead (line "Representable::from_node(node).map(Self)"))

/-- The string form of a newtype, the string form of its value. -/
def delegateStringCode (ident : String) : Code :=
  blank ++
  block ("impl StringRepr for " ++ ident)
    (block toStringHead (line "self.0.to_repr_string()") ++
     block fromStringHead (line "StringRepr::from_repr_string(s).map(Self)"))

/-- The node form of a type represented as a string: the string. -/
def viaStringCode (ident : String) : Code :=
  blank ++
  block ("impl Representable for " ++ ident)
    (block toNodeHead (line "ipld::Node::String(self.to_repr_string())") ++
     block fromNodeHead (line "Self::from_repr_string(ipld::repr::expect_str(node)?)"))

/-- A map type. -/
def mapCode (ident mapType : String) : MapStrategy → Code
  | .map => newtypeCode ident mapType "#[derive(Debug, Clone, PartialEq)]"
  | .stringpairs inner entry =>
    lines ["#[derive(Debug, Clone, PartialEq)]", "pub struct " ++ ident ++ "(pub " ++ mapType ++ ");",
      ""] ++
    block ("impl StringRepr for " ++ ident)
      (block toStringHead
        (lines ["let pairs: Vec<(String, String)> =",
          "    self.0.iter().map(|(k, v)| (k.to_repr_string(), v.to_repr_string())).collect();",
          "ipld::repr::join_pairs(&pairs, " ++ literal inner ++ ", " ++ literal entry ++ ")"]) ++
       block fromStringHead
        (line ("let mut out: " ++ mapType ++ " = IndexMap::new();") ++
         block ("for (k, v) in ipld::repr::split_pairs(s, " ++ literal inner ++ ", " ++
             literal entry ++ ")?")
           (line "out.insert(StringRepr::from_repr_string(k)?, StringRepr::from_repr_string(v)?);") ++
         line "Ok(Self(out))")) ++
    viaStringCode ident
  | .listpairs =>
    lines ["#[derive(Debug, Clone, PartialEq)]", "pub struct " ++ ident ++ "(pub " ++ mapType ++ ");",
      ""] ++
    block ("impl Representable for " ++ ident)
      (block toNodeHead
        (lines ["ipld::Node::List(", "    self.0", "        .iter()",
          "        .map(|(k, v)| ipld::Node::List(vec![ipld::Node::String(k.to_repr_string()), v.to_node()]))",
          "        .collect(),", ")"]) ++
       block fromNodeHead
        (line ("let mut out: " ++ mapType ++ " = IndexMap::new();") ++
         block "for (k, v) in ipld::repr::list_pairs(node)?"
           (line "out.insert(StringRepr::from_repr_string(k)?, Representable::from_node(v)?);") ++
         line "Ok(Self(out))"))

/-- A struct field with the identifier it gets. -/
structure FieldPlan where
  /-- The field. -/
  field : StructField
  /-- Its identifier. -/
  ident : String

/-- The fields of a struct with their identifiers. -/
def fieldPlans (fields : List StructField) : List FieldPlan :=
  (fields.zip (uniqueIdents (fields.map (·.name)) fieldIdent)).map fun (f, i) => ⟨f, i⟩

/-- `Ok(Self { … })` over the given field lines. -/
def okSelf (fieldLines : List String) : Code := blockWith "Ok(Self" "\x7d)" (lines fieldLines)

/-- A struct represented as a map or as a list of pairs. -/
def structEntriesCode (ident : String) (plans : List FieldPlan) (pairs : Bool) (known : String) :
    Code :=
  let push (p : FieldPlan) : Code :=
    let key := literal p.field.name
    if p.field.optional then
      block ("if let Some(value) = &self." ++ p.ident)
        (line ("entries.push((" ++ key ++ ".to_string(), value.to_node()));"))
    else line ("entries.push((" ++ key ++ ".to_string(), self." ++ p.ident ++ ".to_node()));")
  let pull (p : FieldPlan) : String :=
    let key := literal p.field.name
    let err := withinPart "field" p.field.name
    if p.field.optional then
      p.ident ++ ": ipld::repr::lookup(&entries, " ++ key ++
        ").map(Representable::from_node).transpose()" ++ err ++ "?,"
    else
      p.ident ++ ": Representable::from_node(ipld::repr::lookup_required(&entries, " ++ key ++
        ")?)" ++ err ++ "?,"
  blank ++
  block ("impl Representable for " ++ ident)
    (block toNodeHead
      (line "let mut entries: Vec<(String, ipld::Node)> = Vec::new();" ++
       (plans.flatMap push) ++
       (if pairs then
          lines ["ipld::Node::List(", "    entries", "        .into_iter()",
            "        .map(|(k, v)| ipld::Node::List(vec![ipld::Node::String(k), v]))",
            "        .collect(),", ")"]
        else line "ipld::Node::Map(entries)")) ++
     block fromNodeHead
      (line (if pairs then "let entries = ipld::repr::list_pairs(node)?;"
          else "let entries = ipld::repr::map_entries(node)?;") ++
       line ("ipld::repr::reject_unknown(&entries, &[" ++ known ++ "])?;") ++
       okSelf (plans.map pull)))

/-- A struct represented as a list of its field values. -/
def structTupleCode (ident : String) (plans : List FieldPlan) : Code :=
  blank ++
  block ("impl Representable for " ++ ident)
    (block toNodeHead
      (line ("ipld::Node::List(vec![" ++
        ", ".intercalate (plans.map fun p => "self." ++ p.ident ++ ".to_node()") ++ "])")) ++
     block fromNodeHead
      (line ("let items = ipld::repr::expect_list_len(node, " ++ toString plans.length ++ ")?;") ++
       okSelf (plans.zipIdx.map fun (p, i) =>
         p.ident ++ ": Representable::from_node(&items[" ++ toString i ++ "])" ++
           withinPart "field" p.field.name ++ "?,")))

/-- A struct represented as its field values joined by `join`. -/
def structJoinCode (ident join : String) (plans : List FieldPlan) : Code :=
  blank ++
  block ("impl StringRepr for " ++ ident)
    (block toStringHead
      (if plans.isEmpty then line "String::new()"
       else line ("[" ++ ", ".intercalate (plans.map fun p => "self." ++ p.ident ++
         ".to_repr_string()") ++ "].join(" ++ literal join ++ ")")) ++
     block fromStringHead
      (line ("let parts = ipld::repr::split_join(s, " ++ literal join ++ ", " ++
         toString plans.length ++ ")?;") ++
       okSelf (plans.zipIdx.map fun (p, i) =>
         p.ident ++ ": StringRepr::from_repr_string(parts[" ++ toString i ++ "])" ++
           withinPart "field" p.field.name ++ "?,"))) ++
  viaStringCode ident

/-- A struct represented as `name<inner>value` pairs joined by `entry`. -/
def structPairsCode (ident inner entry : String) (plans : List FieldPlan) (known : String) :
    Code :=
  let push (p : FieldPlan) : Code :=
    let key := literal p.field.name
    if p.field.optional then
      block ("if let Some(value) = &self." ++ p.ident)
        (line ("pairs.push((" ++ key ++ ".to_string(), value.to_repr_string()));"))
    else line ("pairs.push((" ++ key ++ ".to_string(), self." ++ p.ident ++ ".to_repr_string()));")
  let pull (p : FieldPlan) : String :=
    let key := literal p.field.name
    let err := withinPart "field" p.field.name
    if p.field.optional then
      p.ident ++ ": ipld::repr::lookup(&entries, " ++ key ++
        ").map(StringRepr::from_repr_string).transpose()" ++ err ++ "?,"
    else
      p.ident ++ ": StringRepr::from_repr_string(ipld::repr::lookup_required(&entries, " ++ key ++
        ")?)" ++ err ++ "?,"
  blank ++
  block ("impl StringRepr for " ++ ident)
    (block toStringHead
      (line "let mut pairs: Vec<(String, String)> = Vec::new();" ++
       plans.flatMap push ++
       line ("ipld::repr::join_pairs(&pairs, " ++ literal inner ++ ", " ++ literal entry ++ ")")) ++
     block fromStringHead
      (line ("let entries = ipld::repr::split_pairs(s, " ++ literal inner ++ ", " ++
         literal entry ++ ")?;") ++
       line ("ipld::repr::reject_unknown(&entries, &[" ++ known ++ "])?;") ++
       okSelf (plans.map pull))) ++
  viaStringCode ident

/-- A struct type. -/
def structCode (ts : TypeSystem) (name ident : String) (fields : List StructField)
    (strategy : StructStrategy) : Code :=
  let plans := fieldPlans fields
  let known := ", ".intercalate (plans.map fun p => literal p.field.name)
  line "#[derive(Debug, Clone, PartialEq)]" ++
  block ("pub struct " ++ ident)
    (lines (plans.map fun p =>
      "pub " ++ p.ident ++ ": " ++
        fieldType p.field.type p.field.optional p.field.nullable (boxedRef ts name p.field.type) ++
        ",")) ++
  match strategy with
  | .map => structEntriesCode ident plans false known
  | .listpairs => structEntriesCode ident plans true known
  | .tuple => structTupleCode ident plans
  | .stringjoin join => structJoinCode ident join plans
  | .stringpairs inner entry => structPairsCode ident inner entry plans known

/-- `let (discriminant, mut content) = match self { … };` -/
def discriminatedCode (members : List (UnionMember × String)) : Code :=
  blockWith "let (discriminant, mut content) = match self" "\x7d;"
    (lines (members.map fun (m, v) =>
      "Self::" ++ v ++ "(value) => (" ++ literal m.discriminant ++ ", value.to_node()),"))

/-- The match arm that reads a member from `source`. -/
def memberArm (source : String) (mv : UnionMember × String) : String :=
  literal mv.1.discriminant ++ " => Ok(Self::" ++ mv.2 ++ "(Representable::from_node(" ++ source ++
    ")" ++ withinPart "member" mv.1.type ++ "?)),"

/-- A union represented as a string: the discriminant, then the member's string form. -/
def prefixUnionCode (ident : String) (members : List (UnionMember × String)) : Code :=
  block ("impl StringRepr for " ++ ident)
    (block toStringHead
      (block "match self"
        (lines (members.map fun (m, v) =>
          "Self::" ++ v ++ "(value) => format!(\"\x7b\x7d\x7b\x7d\", " ++ literal m.discriminant ++
            ", value.to_repr_string()),"))) ++
     block fromStringHead
      (members.flatMap (fun (m, v) =>
        block ("if let Some(rest) = s.strip_prefix(" ++ literal m.discriminant ++ ")")
          (line ("return StringRepr::from_repr_string(rest).map(Self::" ++ v ++ ")" ++
            withinPart "member" m.type ++ ";"))) ++
       line "Err(ipld::DecodeError::UnknownDiscriminant(s.to_string()))")) ++
  viaStringCode ident

/-- The conversion of a union to a node. -/
def unionToNode (members : List (UnionMember × String)) : UnionStrategy → Code
  | .keyed =>
    block "match self" (lines (members.map fun (m, v) =>
      "Self::" ++ v ++ "(value) => ipld::Node::Map(vec![(" ++ literal m.discriminant ++
        ".to_string(), value.to_node())]),"))
  | .kinded =>
    block "match self" (lines (members.map fun (_, v) => "Self::" ++ v ++ "(value) => value.to_node(),"))
  | .inline key =>
    discriminatedCode members ++
    block "if let ipld::Node::Map(entries) = &mut content"
      (line ("entries.insert(0, (" ++ literal key ++
        ".to_string(), ipld::Node::String(discriminant.to_string())));")) ++
    line "content"
  | .envelope key content =>
    discriminatedCode members ++
    lines ["ipld::Node::Map(vec![",
      "    (" ++ literal key ++ ".to_string(), ipld::Node::String(discriminant.to_string())),",
      "    (" ++ literal content ++ ".to_string(), content),", "])"]
  | .stringPrefix => []

/-- The conversion of a union from a node. -/
def unionFromNode (members : List (UnionMember × String)) : UnionStrategy → Code
  | .keyed =>
    line "let entries = ipld::repr::expect_map(node)?;" ++
    blockWith "let [(key, value)] = entries else" "\x7d;"
      (lines ["return Err(ipld::DecodeError::invalid(format!(",
        "    \"keyed union needs exactly one entry, found \x7b\x7d\",", "    entries.len()", ")));"]) ++
    block "match key.as_str()" (lines (members.map (memberArm "value") ++ [unknownArm]))
  | .kinded =>
    block "match node.kind()"
      (lines (members.map (fun (m, v) =>
        "ipld::Kind::" ++ pascalCase m.discriminant ++ " => Ok(Self::" ++ v ++
          "(Representable::from_node(node)" ++ withinPart "member" m.type ++ "?)),") ++
        [unknownArm]))
  | .inline key =>
    let k := literal key
    lines ["let entries = ipld::repr::map_entries(node)?;",
      "let discriminant = ipld::repr::expect_str(ipld::repr::lookup_required(&entries, " ++ k ++
        ")?)?;",
      "let rest = ipld::Node::Map(", "    entries", "        .iter()",
      "        .filter(|(k, _)| *k != " ++ k ++ ")",
      "        .map(|(k, v)| (k.to_string(), (*v).clone()))", "        .collect(),", ");"] ++
    block "match discriminant" (lines (members.map (memberArm "&rest") ++ [unknownArm]))
  | .envelope key content =>
    let dk := literal key
    let ck := literal content
    lines ["let entries = ipld::repr::map_entries(node)?;",
      "ipld::repr::reject_unknown(&entries, &[" ++ dk ++ ", " ++ ck ++ "])?;",
      "let discriminant = ipld::repr::expect_str(ipld::repr::lookup_required(&entries, " ++ dk ++
        ")?)?;",
      "let content = ipld::repr::lookup_required(&entries, " ++ ck ++ ")?;"] ++
    block "match discriminant" (lines (members.map (memberArm "content") ++ [unknownArm]))
  | .stringPrefix => []

/-- A union type. Variants are named by the member types. -/
def unionCode (ts : TypeSystem) (name ident : String) (members : List UnionMember)
    (strategy : UnionStrategy) : Code :=
  let named := members.map fun m => (m, escapeKeyword m.type)
  line "#[derive(Debug, Clone, PartialEq)]" ++
  block ("pub enum " ++ ident)
    (lines (named.map fun (m, v) =>
      v ++ "(" ++ rustType (.named m.type) (needsBox ts name m.type) ++ "),")) ++
  blank ++
  match strategy with
  | .stringPrefix => prefixUnionCode ident named
  | _ =>
    block ("impl Representable for " ++ ident)
      (block toNodeHead (unionToNode named strategy) ++
       block fromNodeHead (unionFromNode named strategy))

/-- The integer an int enum value stands for. -/
def enumInt (value : String) : Except ToolError Int :=
  match Decimal.readInt64 value with
  | some i => .ok i
  | none => .error (.invalidArgument ("enum value " ++ literal value ++ " is not an int"))

/-- An enum type. -/
def enumCode (ident : String) (members : List EnumValue) (strategy : EnumStrategy) :
    Except ToolError Code := do
  let variants := uniqueIdents (members.map (·.name)) fun n => escapeKeyword (pascalCase n)
  let named := members.zip variants
  let common :=
    line "#[derive(Debug, Clone, Copy, PartialEq, Eq, Hash)]" ++
    block ("pub enum " ++ ident) (lines (variants.map (· ++ ","))) ++
    blank ++
    block ("impl StringRepr for " ++ ident)
      (block toStringHead
        (blockWith "let value = match self" "\x7d;"
          (lines (named.map fun (m, v) => "Self::" ++ v ++ " => " ++ literal m.value ++ ",")) ++
         line "value.to_string()") ++
       block fromStringHead
        (block "match s"
          (lines (named.map (fun (m, v) => literal m.value ++ " => Ok(Self::" ++ v ++ "),") ++
            [unknownArm]))))
  match strategy with
  | .string => pure (common ++ viaStringCode ident)
  | .int =>
    let values ← members.mapM fun m => enumInt m.value
    let numbered := values.zip variants
    pure (common ++ blank ++
      block ("impl Representable for " ++ ident)
        (block toNodeHead
          (blockWith "ipld::Node::Int(match self" "\x7d)"
            (lines (numbered.map fun (i, v) => "Self::" ++ v ++ " => " ++ toString i ++ ","))) ++
         block fromNodeHead
          (block "match ipld::repr::expect_int(node)?"
            (lines (numbered.map (fun (i, v) => toString i ++ " => Ok(Self::" ++ v ++ "),") ++
              [unknownArm])))))

/-- The file of one declared type. -/
def typeFile (ts : TypeSystem) (name : String) (t : SchemaType) : Except ToolError String := do
  let ident := typeIdent name
  let body ← match t with
    | .bool | .int | .float | .string =>
      pure (newtypeCode ident (rustType (.named (preludeOf t)) false) (derives t) ++
        delegateStringCode ident)
    | .bytes | .link _ => pure (newtypeCode ident (rustType (.named (preludeOf t)) false) (derives t))
    | .list v n => pure (newtypeCode ident (rustType (.list v n) false) (derives t))
    | .map k v n strategy => pure (mapCode ident (rustType (.map k v n) false) strategy)
    | .struct fields strategy => pure (structCode ts name ident fields strategy)
    | .union members strategy => pure (unionCode ts name ident members strategy)
    | .enum members strategy => enumCode ident members strategy
  pure (Code.render (fileHead name t ++ body))

/-- The module names of the declared types. -/
def moduleNames (names : List String) : List String :=
  uniqueIdents names fun n =>
    let m := escapeKeyword (snakeCase n)
    if m == typeIdent n then m ++ "_ty" else m

/-- Full bindings for a compiled schema. -/
def generateFull (ts : TypeSystem) (package : String) : Except ToolError Artifact := do
  let declared := ts.declared
  let modules := moduleNames (declared.map (·.1))
  let files ← (declared.zip modules).mapM fun ((name, t), m) => do
    pure (⟨unraw m ++ ".rs", ← typeFile ts name t⟩ : GeneratedFile)
  let root :=
    lines [header, "//! Bindings for the `" ++ package ++ "` schema.", ""] ++
    (declared.zip modules).flatMap fun ((name, _), m) =>
      lines ["mod " ++ m ++ ";", "pub use " ++ m ++ "::" ++ typeIdent name ++ ";"]
  pure ⟨files ++ [⟨"mod.rs", Code.render root⟩]⟩

end Ipld.Codegen
