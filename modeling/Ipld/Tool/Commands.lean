import Ipld.Tool.Error
import Ipld.Schema.Dsl.Read
import Ipld.Schema.Compile
import Ipld.Schema.DocumentJson

/-!
# The schema commands

A schema enters the tool as text with a name that its errors cite. `Parsed` holds it read
into a document, `Compiled` holds it checked into a type system as well. The `parse`
command writes the document with a chosen codec; the codec token is resolved before the
text is read, so a bad token wins over a bad schema, and the schema is checked first
unless the caller skips that. The `compile` command reads schema text or the JSON form of a
document and lists the declared type names.
-/

namespace Ipld

open Schema

/-- A schema read into its document. -/
structure Parsed where
  /-- The name that errors cite. -/
  sourceName : String
  /-- The text as given. -/
  source : String
  /-- The document. -/
  document : Document
  deriving Inhabited

/-- A schema read and checked. -/
structure Compiled where
  /-- The schema as read. -/
  parsed : Parsed
  /-- Its type system. -/
  types : TypeSystem
  deriving Inhabited

namespace Parsed

/-- Read schema text. -/
def ofDsl (sourceName source : String) : Except ToolError Parsed :=
  match Document.parse sourceName source with
  | .error e => .error (.parse e)
  | .ok d => .ok ⟨sourceName, source, d⟩

/-- Read the JSON form of a document. -/
def ofDocumentJson (sourceName source : String) : Except ToolError Parsed :=
  match Document.ofJsonText source with
  | .error e =>
    .error (.invalidArgument (sourceName ++ " is not a schema DMT document: " ++ e.message))
  | .ok d => .ok ⟨sourceName, source, d⟩

/-- Write the document with an encoder. -/
def encode (p : Parsed) (e : Encoder) : Except ToolError Encoded :=
  match e.encode p.document.toNode with
  | .error err => .error (.encode err)
  | .ok out => .ok out

/-- Check the document. -/
def compile (p : Parsed) : Except ToolError Compiled :=
  match p.document.compile with
  | .error e => .error (.compile e)
  | .ok ts => .ok ⟨p, ts⟩

end Parsed

/-- What the `parse` command is asked to do. -/
structure ParseRequest where
  /-- The name that errors cite. -/
  sourceName : String
  /-- The schema text. -/
  source : String
  /-- Write the document without checking it. -/
  noCompile : Bool
  /-- The codec token for the output. -/
  output : String

/-- Read a schema, check it unless asked not to, and write its document. -/
def ParseRequest.run (r : ParseRequest) (codecs : Registry) : Except ToolError Encoded := do
  let encoder ← match codecs.select "output" r.output with
    | .error u => Except.error (ToolError.codecUnrecognized u)
    | .ok e => pure e
  let parsed ← Parsed.ofDsl r.sourceName r.source
  if r.noCompile then parsed.encode encoder
  else
    let compiled ← parsed.compile
    compiled.parsed.encode encoder

/-- The form a schema is given in. -/
inductive SourceFormat where
  /-- Schema text. -/
  | dsl
  /-- The JSON form of a document. -/
  | documentJson
  deriving DecidableEq, Inhabited

/-- What the `compile` command is asked to do. -/
structure CompileRequest where
  /-- The name that errors cite. -/
  sourceName : String
  /-- The schema. -/
  source : String
  /-- The form of the schema. -/
  format : SourceFormat

/-- Read and check a schema and list its declared type names. -/
def CompileRequest.run (r : CompileRequest) : Except ToolError (List String) := do
  let parsed ← match r.format with
    | .dsl => Parsed.ofDsl r.sourceName r.source
    | .documentJson => Parsed.ofDocumentJson r.sourceName r.source
  let compiled ← parsed.compile
  pure (compiled.types.declared.map (·.1))

end Ipld
