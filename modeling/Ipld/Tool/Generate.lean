import Ipld.Tool.Commands
import Ipld.Codegen.Full
import Ipld.Codegen.Minimal

/-!
# The generate command

Generating bindings names a generator first, so an unknown generator is reported before
the schema is read; then the schema is read and checked, and the chosen generator writes
its files from the compiled schema, its text and its name.
-/

namespace Ipld

open Codegen

/-- Write bindings of a kind for a compiled schema whose text and name are given. -/
def Codegen.GeneratorKind.generate (kind : GeneratorKind) (ts : Schema.TypeSystem)
    (source sourceName package : String) : Except ToolError Artifact :=
  match kind with
  | .full => generateFull ts package
  | .minimal => generateMinimal ts source sourceName package

/-- Write bindings of a kind for a checked schema. -/
def Compiled.generate (c : Compiled) (kind : GeneratorKind) (package : String) :
    Except ToolError Artifact :=
  kind.generate c.types c.parsed.source c.parsed.sourceName package

/-- The generator a name selects. -/
def generatorOf (name : String) : Except ToolError GeneratorKind :=
  match GeneratorKind.ofName? name with
  | some k => .ok k
  | none => .error (.generatorUnsupported name)

/-- What the `generate` command is asked to do. -/
structure GenerateRequest where
  /-- The name that errors cite. -/
  sourceName : String
  /-- The schema text. -/
  source : String
  /-- The generator name. -/
  generator : String
  /-- The package the bindings are for. -/
  package : String

/-- Read and check a schema and generate its bindings. -/
def GenerateRequest.run (r : GenerateRequest) : Except ToolError Artifact := do
  let kind ← generatorOf r.generator
  let parsed ← Parsed.ofDsl r.sourceName r.source
  let compiled ← parsed.compile
  compiled.generate kind r.package

end Ipld
