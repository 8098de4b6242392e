import Ipld.CommandLine.Command
import Ipld.Text.Similarity

/-!
# Why a command line stops

Reading a command line stops before the program runs when it asks for help or the
version, or when it is wrong. Help and version are shown as asked and end with status 0;
everything else ends with status 2 and a message of fixed shape:

    error: <what is wrong>

      tip: <a similar name, or how to pass the text as a value>

    Usage: <the usage line>

    For more information, try '--help'.

The tips and the usage line are left out when there are none; the last line names the help
flag of the command, or its `help` subcommand, or is left out when it has neither.
-/

namespace Ipld.CommandLine

/-- Why reading a command line stopped. -/
inductive StopKind where
  /-- Help was asked for. -/
  | displayHelp
  /-- The version was asked for. -/
  | displayVersion
  /-- Nothing was given to a command that needs a subcommand: its help is shown. -/
  | displayHelpOnMissing
  /-- A required argument is missing. -/
  | missingRequiredArgument
  /-- A required subcommand is missing. -/
  | missingSubcommand
  /-- An argument that the command does not know. -/
  | unknownArgument
  /-- A subcommand that the command does not know. -/
  | invalidSubcommand
  /-- A value the argument does not accept, or none where one is needed. -/
  | invalidValue
  /-- A value given to a flag that takes none. -/
  | tooManyValues
  /-- An argument given twice. -/
  | argumentConflict
  deriving DecidableEq, Inhabited, Repr

/-- A stop: its kind and the text shown. -/
structure Stop where
  /-- Why reading stopped. -/
  kind : StopKind
  /-- The help page, the version line or the error message. -/
  text : String
  deriving Inhabited

/-- The exit status of a stop: `0` for help and version, `2` otherwise. -/
def Stop.exitCode (s : Stop) : Nat :=
  match s.kind with
  | .displayHelp | .displayVersion => 0
  | _ => 2

/-- The parts of an error message. -/
structure Complaint where
  /-- What is wrong. -/
  headline : String
  /-- Similar names: what they name (`subcommand`, `argument`, `value`) and the names. -/
  similar : Option (String × List String)
  /-- Further tips. -/
  tips : List String
  /-- The usage line, when the message shows one. -/
  usage : Option String
  /-- How to ask for help, when the command has a way. -/
  helpFlag : Option String
  deriving Inhabited

/-- `'text'`. -/
def quoted (s : String) : String := "'" ++ s ++ "'"

/-- The text of an error message. -/
def Complaint.render (c : Complaint) : String :=
  let similar := match c.similar with
    | some (what, [n]) => "\n\n  tip: a similar " ++ what ++ " exists: " ++ quoted n
    | some (what, n :: ns) =>
      "\n\n  tip: some similar " ++ what ++ "s exist: " ++ ", ".intercalate ((n :: ns).map quoted)
    | _ => ""
  let tips :=
    if c.tips.isEmpty then ""
    else (if similar.isEmpty then "\n" else "") ++ String.join (c.tips.map ("\n  tip: " ++ ·))
  let usage := match c.usage with
    | some u => "\n\nUsage: " ++ u
    | none => ""
  let help := match c.helpFlag with
    | some f => "\n\nFor more information, try " ++ quoted f ++ ".\n"
    | none => "\n"
  "error: " ++ c.headline ++ similar ++ tips ++ usage ++ help

/-- How a command's help is asked for: its help flag, else its `help` subcommand. -/
def helpFlagOf (c : Command) : Option String :=
  if c.hasHelpFlag then some "--help"
  else if c.subcommands.isEmpty then none
  else some "help"

/-- A stop with an error message about command `c`. -/
def complain (c : Command) (kind : StopKind) (headline : String)
    (similar : Option (String × List String)) (tips : List String) (usage : Option String) :
    Stop :=
  ⟨kind, Complaint.render ⟨headline, similar, tips, usage, helpFlagOf c⟩⟩

/-- An argument the command does not know; `similar` is a flag of it to suggest, or one of
a subcommand (with the subcommand's name); `asValue` adds how to pass it as a value. -/
def unknownArgument (c : Command) (text : String) (similar : Option (String × Option String))
    (asValue : Bool) (usage : String) : Stop :=
  let valueTip := if asValue then ["to pass " ++ quoted text ++ " as a value, use " ++
    quoted ("-- " ++ text)] else []
  let (suggested, subTip) := match similar with
    | some (flag, none) => (some ("argument", [flag]), [])
    | some (flag, some sub) => (none, [quoted (sub ++ " " ++ flag) ++ " exists"])
    | none => (none, [])
  complain c .unknownArgument ("unexpected argument " ++ quoted text ++ " found") suggested
    (valueTip ++ subTip) (some usage)

/-- A subcommand the command does not know, with the similar ones. -/
def unknownSubcommand (c : Command) (text : String) (similar : List String) (usage : String) :
    Stop :=
  complain c .invalidSubcommand ("unrecognized subcommand " ++ quoted text)
    (if similar.isEmpty then none else some ("subcommand", similar)) [] (some usage)

/-- `--` before a subcommand's name. -/
def needlessEscape (c : Command) (name : String) (usage : String) : Stop :=
  complain c .unknownArgument ("unexpected argument " ++ quoted "--" ++ " found") none
    ["subcommand " ++ quoted name ++ " exists; to use it, remove the " ++ quoted "--" ++
      " before it"] (some usage)

/-- A value an argument does not accept; an empty value is a missing one. -/
def invalidValue (c : Command) (a : Arg) (value : String) : Stop :=
  let headline :=
    if value.isEmpty then "a value is required for " ++ quoted a.display ++ " but none was supplied"
    else "invalid value " ++ quoted value ++ " for " ++ quoted a.display
  let listed := if a.choices.isEmpty then ""
    else "\n  [possible values: " ++ ", ".intercalate a.choices ++ "]"
  let similar := match (Text.similarNames value a.choices).getLast? with
    | some n => some ("value", [n])
    | none => none
  complain c .invalidValue (headline ++ listed) similar [] none

/-- A value given to a flag that takes none. -/
def unneededValue (c : Command) (a : Arg) (value : String) (usage : String) : Stop :=
  complain c .tooManyValues ("unexpected value " ++ quoted value ++ " for " ++ quoted a.display ++
    " found; no more were expected") none [] (some usage)

/-- An argument given twice. -/
def givenTwice (c : Command) (a : Arg) (usage : String) : Stop :=
  complain c .argumentConflict ("the argument " ++ quoted a.display ++
    " cannot be used multiple times") none [] (some usage)

/-- Required arguments that are missing, as usage writes them. -/
def missingArguments (c : Command) (missing : List String) (usage : String) : Stop :=
  complain c .missingRequiredArgument ("the following required arguments were not provided:" ++
    String.join (missing.map ("\n  " ++ ·))) none [] (some usage)

/-- A required subcommand that is missing. -/
def missingSubcommand (c : Command) (bin : String) (usage : String) : Stop :=
  complain c .missingSubcommand (quoted bin ++ " requires a subcommand but one was not provided" ++
    "\n  [subcommands: " ++ ", ".intercalate c.subcommandNames ++ "]") none [] (some usage)

/-- The help page of a command, as asked for. -/
def showHelp (c : Command) (bin : String) : Stop := ⟨.displayHelp, c.helpPage bin⟩

/-- The version of the program, as asked for. -/
def showVersion (c : Command) : Stop := ⟨.displayVersion, c.versionLine⟩

end Ipld.CommandLine
