import Ipld.Text.Quoted

/-!
# Generated source text

Generated code is a list of lines, each with its depth of indentation; pieces are put
together with `++` and a block indents its body one level. A line is written with four
spaces per level, except an empty line, which stays empty; every line ends with a line
feed. A generator produces an artifact: named files in the order they were made.
-/

namespace Ipld.Codegen

/-- Lines of source, each with its depth of indentation. -/
abbrev Code := List (Nat × String)

namespace Code

/-- One line. -/
def line (s : String) : Code := [(0, s)]

/-- Several lines at the same depth. -/
def lines (ss : List String) : Code := ss.map fun s => (0, s)

/-- An empty line. -/
def blank : Code := line ""

/-- The same lines one level deeper. -/
def nest (c : Code) : Code := c.map fun (d, s) => (d + 1, s)

/-- `head {`, the body one level deeper, then `close`. -/
def blockWith (head close : String) (body : Code) : Code :=
  line (head ++ " \x7b") ++ nest body ++ line close

/-- `head {`, the body one level deeper, then `}`. -/
def block (head : String) (body : Code) : Code := blockWith head "\x7d" body

/-- The text of the lines. -/
def render (c : Code) : String :=
  String.join (c.map fun (d, s) =>
    (if s.isEmpty then "" else String.join (List.replicate d "    ")) ++ s ++ "\n")

end Code

/-- The first line of every generated file. -/
def header : String := "// Code generated by ipld-schema-tool. DO NOT EDIT."

/-- A text as a string literal of the generated code. -/
def literal (s : String) : String := Text.quote s

/-- A generated file. -/
structure GeneratedFile where
  /-- The path, relative to the output directory. -/
  path : String
  /-- The contents. -/
  contents : String
  deriving Inhabited, BEq

/-- The files a generator made, in order. -/
structure Artifact where
  /-- The files. -/
  files : List GeneratedFile
  deriving Inhabited

/-- The parts of a path as a file system compares them: a leading `/`, then the names
between slashes, where empty names and `.` are left out unless a relative path starts
with `.`. -/
def pathParts (p : String) : List String :=
  let names := p.splitOn "/"
  let root := if p.startsWith "/" then ["/"] else []
  let lead := match names with
    | "." :: _ => if p.startsWith "/" then [] else ["."]
    | _ => []
  root ++ lead ++ names.filter fun n => !n.isEmpty && n != "."

/-- The contents of the file at a path. -/
def Artifact.get? (a : Artifact) (path : String) : Option String :=
  (a.files.find? fun f => pathParts f.path == pathParts path).map (·.contents)

/-- The two kinds of bindings a generator writes. -/
inductive GeneratorKind where
  /-- One file per type, with the conversions written out. -/
  | full
  /-- Placeholder types bound to the embedded schema at start-up. -/
  | minimal
  deriving DecidableEq, Inhabited

namespace GeneratorKind

/-- The kind a generator name selects; `gengo` and `bindnode` (with or without `go-`) are
other names of the two. -/
def ofName? : String → Option GeneratorKind
  | "full" | "gengo" | "go-gengo" => some .full
  | "minimal" | "bindnode" | "go-bindnode" => some .minimal
  | _ => none

/-- The name of a kind. -/
def name : GeneratorKind → String
  | .full => "full"
  | .minimal => "minimal"

end GeneratorKind

end Ipld.Codegen
