import Ipld.Tool.Run

/-!
# The `ipld` program

Reads the command line, runs it on the real file system, and reports as a command-line
program does: help and the version on standard output with status 0, a command-line error
on standard error with status 2, and a failed run as `error: <chain>` on standard error
with the error's status.
-/

open Ipld Tool

/-- Standard input, read to its end. -/
partial def readStream (s : IO.FS.Stream) (acc : String) : IO String := do
  let line ← s.getLine
  if line.isEmpty then return acc else readStream s (acc ++ line)

/-- The surroundings of the program: the file system and standard input. -/
def systemSurroundings : Surroundings IO :=
  ⟨fun p => do
     try return .ok (← IO.FS.readFile p) catch e => return .error (toString e),
   fun p => do
     try IO.FS.createDirAll p; return .ok () catch e => return .error (toString e),
   fun p text => do
     try IO.FS.writeFile p text; return .ok () catch e => return .error (toString e),
   do readStream (← IO.getStdin) ""⟩

/-- Run the program on its command line. -/
def main (args : List String) : IO UInt32 := do
  match readCommandLine args with
  | .error stop =>
    if stop.exitCode == 0 then IO.print stop.text else IO.eprint stop.text
    return stop.exitCode.toUInt32
  | .ok none => return 2
  | .ok (some inv) =>
    let outcome ← inv.run systemSurroundings
    let out ← IO.getStdout
    out.write ⟨outcome.stdout.toArray⟩
    out.flush
    IO.eprint outcome.stderr
    match outcome.failure with
    | none => return 0
    | some f =>
      IO.eprintln ("error: " ++ f.message)
      return f.exitCode.toUInt32
