import Ipld.CommandLine.Parse
import Ipld.Tool.Commands

/-!
# The tool's command line

`ipld schema parse`, `ipld schema compile` and `ipld schema codegen`, each with a schema file
(or `-` for standard input) and its options, as a tree of commands that
`Command.read` reads. A line that reads well becomes an `Invocation`.
-/

namespace Ipld.Tool

open CommandLine

/-- The help flag, which every command has. -/
def helpFlag : Arg :=
  ⟨"help", some "help", some 'h', "", false, .help, "Print help", false, none, []⟩

/-- The version flag of the program. -/
def versionFlag : Arg :=
  ⟨"version", some "version", some 'V', "", false, .version, "Print version", false, none, []⟩

/-- The `help` subcommand of a command with subcommands. -/
def helpCommand : Command :=
  ⟨"help", "Print this message or the help of the given subcommand(s)", none,
    [⟨"subcommand", none, none, "COMMAND", true, .append, "Print help for the subcommand(s)",
      false, none, []⟩], []⟩

/-- The schema file of every command. -/
def sourceArg : Arg :=
  ⟨"source", none, none, "SOURCE", true, .set, "schema file, or '-' for stdin", true, none, []⟩

/-- `ipld schema parse`. -/
def parseCommand : Command :=
  ⟨"parse", "parse a schema DSL document and print its DMT in the selected codec", none,
    [sourceArg,
     ⟨"no_compile", some "no-compile", none, "", false, .setTrue,
       "skip semantic validation and encode the DMT as written", false, some "false", []⟩,
     ⟨"output", some "output", none, "OUTPUT", false, .set,
       "output codec: `codec:<name>`, `codec:0x<code>` or `debug`", false, some "codec:json", []⟩,
     helpFlag], []⟩

/-- `ipld schema compile`. -/
def compileCommand : Command :=
  ⟨"compile", "compile a schema and list the declared type names", none,
    [sourceArg,
     ⟨"from", some "from", none, "FROM", false, .set, "input format", false, some "dsl",
       ["dsl", "dmt-json"]⟩,
     helpFlag], []⟩

/-- `ipld schema codegen`. -/
def codegenCommand : Command :=
  ⟨"codegen", "generate Rust bindings for a schema", none,
    [sourceArg,
     ⟨"generator", some "generator", none, "GENERATOR", false, .set,
       "`full` (self-contained types) or `minimal` (serde placeholders bound at start-up)",
       true, none, []⟩,
     ⟨"output", some "output", none, "OUTPUT", false, .set, "output directory", false,
       some "ipldsch", []⟩,
     ⟨"package", some "package", none, "PACKAGE", false, .set,
       "package (module) name recorded in the generated files", false, some "ipldsch", []⟩,
     helpFlag], []⟩

/-- `ipld schema`. -/
def schemaCommand : Command :=
  ⟨"schema", "schema tooling", none, [helpFlag],
    [parseCommand, compileCommand, codegenCommand, helpCommand]⟩

/-- The program. -/
def program : Command :=
  ⟨"ipld", "parse, validate and generate bindings for IPLD-style schemas", some "0.1.0",
    [helpFlag, versionFlag], [schemaCommand, helpCommand]⟩

/-- What a command line asks the tool to do. -/
inductive Invocation where
  /-- Print a schema's document in a codec. -/
  | parse (source : String) (noCompile : Bool) (output : String)
  /-- List a schema's declared types. -/
  | compile (source : String) (format : SourceFormat)
  /-- Write bindings for a schema into a directory. -/
  | codegen (source generator output package : String)
  deriving Inhabited

/-- The invocation a command line reads as. -/
def Invocation.ofParsed (p : CommandLine.Parsed) : Option Invocation :=
  let value (id : String) : String := (p.value? id).getD ""
  match p.path with
  | ["schema", "parse"] => some (.parse (value "source") (value "no_compile" == "true") (value "output"))
  | ["schema", "compile"] =>
    some (.compile (value "source") (if value "from" == "dmt-json" then .documentJson else .dsl))
  | ["schema", "codegen"] =>
    some (.codegen (value "source") (value "generator") (value "output") (value "package"))
  | _ => none

/-- Read a command line of the tool. -/
def readCommandLine (args : List String) : Except Stop (Option Invocation) :=
  (program.read args).map Invocation.ofParsed

end Ipld.Tool
