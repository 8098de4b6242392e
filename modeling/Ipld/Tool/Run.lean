import Ipld.Tool.Interface
import Ipld.Tool.Generate
import Ipld.Workspace

/-!
# Running the tool

`Invocation.run` does what a command line asked, given the surroundings it runs in: files
to read and write, directories to make, and standard input. It works the same in any
monad, so the program runs it on the real file system and a test runs it on a
`Workspace` in memory.

A run writes to standard output (the document, or the declared names one a line) or to
standard error (what `codegen` wrote), or fails with an error chain: the step that failed
(`parsing s.ipldsch`), the error, and what the error wraps.
-/

namespace Ipld.Tool

/-- What a run needs from its surroundings. A failure is the system's message. -/
structure Surroundings (m : Type → Type) where
  /-- Read a file. -/
  readFile : String → m (Except String String)
  /-- Make a directory and the missing ones above it. -/
  makeDirs : String → m (Except String Unit)
  /-- Write a file. -/
  writeFile : String → String → m (Except String Unit)
  /-- Read standard input to its end. -/
  readInput : m String

/-- A failed run: the step it failed in, when one is named, and the error. -/
structure Failure where
  /-- The step, such as `parsing s.ipldsch`. -/
  context : Option String
  /-- The error. -/
  error : ToolError
  deriving Inhabited

/-- The error chain: the step, the error, and what it wraps, joined by `: `. -/
def Failure.message (f : Failure) : String :=
  ": ".intercalate (f.context.toList ++ [f.error.message] ++ f.error.causes)

/-- The exit status of a failed run. -/
def Failure.exitCode (f : Failure) : Nat := f.error.exitCode

/-- What a run produced. -/
structure Outcome where
  /-- The bytes written to standard output. -/
  stdout : List UInt8
  /-- The text written to standard error. -/
  stderr : String
  /-- Why the run failed, if it did. -/
  failure : Option Failure
  deriving Inhabited

/-- A failed outcome. -/
def Outcome.failed (context : Option String) (e : ToolError) : Outcome := ⟨[], "", some ⟨context, e⟩⟩

/-- Output ending in a newline: one is added to text that lacks it. -/
def withNewline (bs : List UInt8) : List UInt8 :=
  if bs.getLast? != some 10 && (String.fromUTF8? ⟨bs.toArray⟩).isSome then bs ++ [10] else bs

/-- A path under a directory. -/
def joinPath (dir file : String) : String :=
  if file.startsWith "/" || dir.isEmpty then file
  else if dir.endsWith "/" then dir ++ file
  else dir ++ "/" ++ file

variable {m : Type → Type} [Monad m]

/-- The name and text of the schema: standard input for `-`, else a file. -/
def loadSource (io : Surroundings m) (source : String) : m (Except ToolError (String × String)) := do
  if source == "-" then return .ok ("<stdin>", ← io.readInput)
  match ← io.readFile source with
  | .ok text => return .ok (source, text)
  | .error cause => return .error (.io ("reading " ++ source) cause)

/-- Write files under a directory, in order. -/
def writeFiles (io : Surroundings m) (dir : String) : List Codegen.GeneratedFile → m (Except ToolError Unit)
  | [] => return .ok ()
  | f :: rest => do
    let path := joinPath dir f.path
    match ← io.writeFile path f.contents with
    | .error cause => return .error (.io ("writing " ++ path) cause)
    | .ok () => writeFiles io dir rest

/-- Write generated files under a directory, making it first. -/
def writeArtifact (io : Surroundings m) (dir : String) (a : Codegen.Artifact) : m (Except ToolError Unit) := do
  match ← io.makeDirs dir with
  | .error cause => return .error (.io ("creating " ++ dir) cause)
  | .ok () => writeFiles io dir a.files

/-- Do what a command line asked. -/
def Invocation.run (io : Surroundings m) : Invocation → m Outcome
  | .parse source noCompile output => do
    match ← loadSource io source with
    | .error e => return .failed none e
    | .ok (name, text) =>
      match (ParseRequest.mk name text noCompile output).run Registry.standard with
      | .error e => return .failed (some ("parsing " ++ name)) e
      | .ok encoded => return ⟨withNewline encoded.bytes, "", none⟩
  | .compile source format => do
    match ← loadSource io source with
    | .error e => return .failed none e
    | .ok (name, text) =>
      match (CompileRequest.mk name text format).run with
      | .error e => return .failed (some ("compiling " ++ name)) e
      | .ok names => return ⟨(String.join (names.map (· ++ "\n"))).toUTF8.toList, "", none⟩
  | .codegen source generator output package => do
    match ← loadSource io source with
    | .error e => return .failed none e
    | .ok (name, text) =>
      let context := some ("generating bindings for " ++ name)
      match (GenerateRequest.mk name text generator package).run with
      | .error e => return .failed context e
      | .ok a =>
        match ← writeArtifact io output a with
        | .error e => return .failed context e
        | .ok () =>
          return ⟨[], "wrote " ++ toString a.files.length ++ " file(s) to " ++ output ++ "\n", none⟩

end Ipld.Tool

namespace Ipld

open Tool

/-- The surroundings of a run inside a workspace, with `input` as standard input. -/
def Workspace.surroundings (input : String) : Surroundings (StateM Workspace) :=
  ⟨fun p => do return ((← get).read p).mapError (·.message),
   fun p => do
     match (← get).createDirAll p with
     | .ok w => set w; return .ok ()
     | .error e => return .error e.message,
   fun p text => do
     match (← get).write p text with
     | .ok w => set w; return .ok ()
     | .error e => return .error e.message,
   pure input⟩

end Ipld
