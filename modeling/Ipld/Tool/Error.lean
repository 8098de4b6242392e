import Ipld.Schema.Dsl.Error
import Ipld.Schema.Violation
import Ipld.Codec.Encoder
import Ipld.Repr.Error

/-!
# Failures of the schema tool

Every command of the tool fails with a `ToolError`. Each has a stable code, which its text
starts with, and the process exit status that reports it: 2 for an argument that names
nothing (a codec, a generator, a malformed input), 3 for schema text that does not parse,
4 for a schema that does not compile, 5 for a file that cannot be read or written, and 6
for a value that cannot be encoded or decoded.
-/

namespace Ipld

/-- Why a command of the tool failed. -/
inductive ToolError where
  /-- The schema text does not parse. -/
  | parse (e : Schema.Dsl.ParseError)
  /-- The schema does not compile. -/
  | compile (e : Schema.CompileError)
  /-- A codec token for the argument `argument` names no encoder. -/
  | codecUnrecognized (u : Unrecognized)
  /-- The generator name is not one of the known ones. -/
  | generatorUnsupported (name : String)
  /-- An argument is malformed. -/
  | invalidArgument (message : String)
  /-- A file could not be read or written; `context` says which and `cause` why. -/
  | io (context cause : String)
  /-- The output codec refused the value. -/
  | encode (e : EncodeError)
  /-- A value does not read back. -/
  | decode (e : Repr.DecodeError)
  deriving Inhabited

namespace ToolError

/-- The stable code of a failure. -/
def code : ToolError → String
  | parse _ => "schema-dsl-parse-failed"
  | compile _ => "schema-compile-failed"
  | codecUnrecognized _ => "codec-unrecognized"
  | generatorUnsupported _ => "generator-unsupported"
  | invalidArgument _ => "invalid-argument"
  | io _ _ => "io-error"
  | encode _ => "encode-failed"
  | decode _ => "decode-failed"

/-- The exit status that reports a failure. -/
def exitCode : ToolError → Nat
  | codecUnrecognized _ | generatorUnsupported _ | invalidArgument _ => 2
  | parse _ => 3
  | compile _ => 4
  | io _ _ => 5
  | encode _ | decode _ => 6

/-- What went wrong, after the code. -/
def detail : ToolError → String
  | parse e => e.message
  | compile e => e.message
  | codecUnrecognized u =>
    u.argument ++ " argument not recognized: " ++ Text.quote u.token ++
      " is not a supported codec name"
  | generatorUnsupported name =>
    Text.quote name ++ " is not a supported generator (expected `full` or `minimal`)"
  | invalidArgument m => m
  | io context cause => context ++ ": " ++ cause
  | encode e => e.message
  | decode e => e.message

/-- The text of a failure: its code, then what went wrong. -/
def message (e : ToolError) : String := e.code ++ ": " ++ e.detail

/-- The errors this one wraps, outermost first, as an error chain lists them after it: the
parse, compile, encode or decode error, or the system's failure. -/
def causes : ToolError → List String
  | parse e => [e.message]
  | compile e => [e.message]
  | io _ cause => [cause]
  | encode e => [e.message]
  | decode e => [e.message]
  | _ => []

end ToolError

end Ipld
