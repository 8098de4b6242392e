import Ipld.Text.Search

/-!
# Names in generated Rust

Schema names become Rust identifiers by a few fixed rules:

* `snakeCase` lowers ASCII capitals and puts an underscore where a word starts (after a
  lower-case letter or digit, or at the last capital of a run that a lower-case letter
  follows: `XMLHttp` is `xml_http`); every other character that is not an ASCII letter or
  digit becomes one underscore, and runs of them collapse. A name that ends up empty or
  starting with a digit gets a leading underscore.
* `pascalCase` keeps ASCII letters and digits, capitalising the first one and each one
  after a dropped character; a name that ends up empty or starting with a digit gets a
  leading `V`.
* `escapeKeyword` writes a keyword as a raw identifier (`r#type`), except the few that
  cannot be raw, which get a trailing underscore (`self_`).
* `typeIdent` adds `Type` to the names the generated code itself uses (`OptionType`).
* `uniqueIdents` numbers names that come out the same: the second `a` is `a2`.
* `rawStringLiteral` wraps text in `r#"…"#` with enough hashes that no `"#…` inside ends it.
-/

namespace Ipld.Codegen

/-- Rust keywords, strict and reserved. -/
def keywords : List String :=
  ["as", "async", "await", "break", "const", "continue", "crate", "dyn", "else", "enum", "extern",
    "false", "fn", "for", "gen", "if", "impl", "in", "let", "loop", "match", "mod", "move", "mut",
    "pub", "ref", "return", "self", "Self", "static", "struct", "super", "trait", "true", "type",
    "unsafe", "use", "where", "while", "abstract", "become", "box", "do", "final", "macro",
    "override", "priv", "try", "typeof", "unsized", "virtual", "yield"]

/-- Names the generated code uses for itself; a schema type of one of these names is
renamed. -/
def reservedTypes : List String :=
  ["Option", "Box", "Vec", "Result", "Ok", "Err", "Some", "None", "IndexMap", "Bytes", "Link",
    "Representable", "StringRepr", "Serialize", "Deserialize", "ipld"]

/-- The characters of a snake-case name, read left to right: `prev` is the character
before, `out` what was written so far, last character first. -/
def snakeChars (prev : Option Char) (out : List Char) : List Char → List Char
  | [] => out.reverse
  | c :: rest =>
    if c.isUpper then
      let prevLower := match prev with
        | some p => p.isLower || p.isDigit
        | none => false
      let prevUpper := match prev with
        | some p => p.isUpper
        | none => false
      let nextLower := match rest.head? with
        | some n => n.isLower
        | none => false
      let out := if prevLower || (prevUpper && nextLower) then '_' :: out else out
      snakeChars (some c) (c.toLower :: out) rest
    else if c.isAlphanum then snakeChars (some c) (c :: out) rest
    else if out.head? == some '_' then snakeChars (some c) out rest
    else snakeChars (some c) ('_' :: out) rest

/-- Put `lead` before a name that is empty or starts with a digit. -/
def guardStart (lead : Char) (cs : List Char) : String :=
  match cs with
  | [] => String.ofList [lead]
  | c :: _ => if c.isDigit then String.ofList (lead :: cs) else String.ofList cs

/-- `ReadWrite` as `read_write`. -/
def snakeCase (name : String) : String := guardStart '_' (snakeChars none [] name.toList)

/-- The characters of a Pascal-case name; `upper` when the next kept one is capitalised. -/
def pascalChars (upper : Bool) : List Char → List Char
  | [] => []
  | c :: rest =>
    if c.isAlphanum then (if upper then c.toUpper else c) :: pascalChars false rest
    else pascalChars true rest

/-- `read-only` as `ReadOnly`. -/
def pascalCase (name : String) : String := guardStart 'V' (pascalChars true name.toList)

/-- A name as an identifier: keywords raw, or with an underscore where they cannot be raw. -/
def escapeKeyword (name : String) : String :=
  if ["self", "Self", "super", "crate", "_"].contains name then name ++ "_"
  else if keywords.contains name then "r#" ++ name
  else name

/-- The identifier of a struct field or module: snake case, escaped. -/
def fieldIdent (name : String) : String := escapeKeyword (snakeCase name)

/-- The identifier of a type: the name, escaped, or renamed when the generated code uses
it. -/
def typeIdent (name : String) : String :=
  if reservedTypes.contains name then name ++ "Type" else escapeKeyword name

/-- The first of `base`, `base2`, `base3`, … not in `seen`, trying at most `fuel` numbers. -/
def freshIdent (seen : List String) (base : String) : Nat → Nat → String
  | 0, _ => base
  | fuel + 1, i =>
    let candidate := if i < 2 then base else base ++ toString i
    if seen.contains candidate then freshIdent seen base fuel (if i < 2 then 2 else i + 1)
    else candidate

/-- Identifiers for names, numbered where they would repeat an earlier one. -/
def uniqueIdents (names : List String) (ident : String → String) : List String :=
  (names.foldl (fun (seen, out) n =>
    let fresh := freshIdent seen (ident n) (seen.length + 2) 1
    (fresh :: seen, out ++ [fresh])) (([] : List String), ([] : List String))).2

/-- The least number of hashes, from `n` on, that no `"` followed by that many hashes in
`s` matches, trying at most `fuel`. -/
def hashesFor (s : String) : Nat → Nat → Nat
  | 0, n => n
  | fuel + 1, n =>
    if Text.includes s ("\"" ++ String.ofList (List.replicate n '#')) then hashesFor s fuel (n + 1)
    else n

/-- A raw string literal holding `s` exactly. -/
def rawStringLiteral (s : String) : String :=
  let hashes := String.ofList (List.replicate (hashesFor s (s.length + 1) 1) '#')
  "r" ++ hashes ++ "\"" ++ s ++ "\"" ++ hashes

/-- Drop every leading `r#` from an identifier. -/
def unraw (ident : String) : String :=
  let rec go : List Char → Nat → List Char
    | 'r' :: '#' :: rest, fuel + 1 => go rest fuel
    | cs, _ => cs
  String.ofList (go ident.toList ident.length)

end Ipld.Codegen
