/-!
# Commands and their help

A command line is described by a tree of commands. A command has a name, a line saying what
it does, arguments and subcommands; an argument is a flag (`--long`, `-s`), an option that
takes one value (`--long <VALUE>`), or a positional value (`<NAME>`).

This module writes what a reader of the command line sees: the usage line and the help
page of a command.

* The usage line names the command by its path from the program, then `[OPTIONS]` when it
  has an optional argument other than help and version, then the required options, then
  the positional values (`<NAME>` when required, `[NAME]` otherwise, `...` after one that
  takes many), then `<COMMAND>` when a subcommand is required.
* The help page is the command's description, its usage line and up to three sections,
  `Commands:`, `Arguments:` and `Options:`, each entry with its description aligned two
  spaces after the widest entry of its section; an option's description ends with its
  default value and its possible values, when it has them.
-/

namespace Ipld.CommandLine

/-- What an argument does when it is given. -/
inductive Action where
  /-- Takes one value. -/
  | set
  /-- A switch, on when given. -/
  | setTrue
  /-- Takes every value that follows (a positional only). -/
  | append
  /-- Shows the help page of the command. -/
  | help
  /-- Shows the version of the program. -/
  | version
  deriving DecidableEq, Inhabited, Repr

/-- An argument of a command. -/
structure Arg where
  /-- The name by which the program reads the argument's value. -/
  id : String
  /-- The long flag, without its dashes. -/
  long : Option String
  /-- The short flag, without its dash. -/
  short : Option Char
  /-- The name of the value, written in usage. -/
  valueName : String
  /-- Whether the argument is a positional value rather than a flag. -/
  positional : Bool
  /-- What the argument does. -/
  action : Action
  /-- Its description. -/
  help : String
  /-- Whether the command line must give it. -/
  required : Bool
  /-- The value it takes when not given. -/
  defaultValue : Option String
  /-- The values it accepts; any value when empty. -/
  choices : List String
  deriving Inhabited

/-- A command: a name, what it does, its arguments and its subcommands. -/
structure Command where
  /-- The name it is called by. -/
  name : String
  /-- What it does, in one line. -/
  about : String
  /-- The version it reports, for a program that has one. -/
  version : Option String
  /-- Its arguments, in the order of its help page. -/
  args : List Arg
  /-- Its subcommands, in the order of its help page. -/
  subcommands : List Command
  deriving Inhabited

namespace Arg

/-- Whether the argument takes values. -/
def takesValue (a : Arg) : Bool := a.action == .set || a.action == .append

/-- The placeholder of the value: `<NAME>`, or `[NAME]` for a positional that may be left
out, with `...` after one that takes many values. -/
def placeholder (a : Arg) (required : Bool) : String :=
  let name := if a.positional && (!required || a.action == .append)
    then "[" ++ a.valueName ++ "]" else "<" ++ a.valueName ++ ">"
  name ++ (if a.positional && a.action == .append then "..." else "")

/-- The argument as usage writes it, `required` deciding the brackets of a positional:
`--long <VALUE>`, `--flag`, `-s` or `<NAME>`. -/
def usageText (a : Arg) (required : Bool) : String :=
  let flag := match a.long, a.short with
    | some l, _ => "--" ++ l
    | none, some s => "-" ++ s.toString
    | none, none => ""
  let suffix :=
    if a.positional then a.placeholder required
    else if a.takesValue then " " ++ a.placeholder required
    else ""
  flag ++ suffix

/-- The argument as messages name it. -/
def display (a : Arg) : String := a.usageText a.required

/-- The default and the possible values, as the help page adds them to a description. -/
def specialValues (a : Arg) : String :=
  let default := match a.defaultValue with
    | some d => if a.takesValue then ["[default: " ++ d ++ "]"] else []
    | none => []
  let possible := if a.choices.isEmpty then []
    else ["[possible values: " ++ ", ".intercalate a.choices ++ "]"]
  " ".intercalate (default ++ possible)

/-- The description with its special values. -/
def fullHelp (a : Arg) : String :=
  let extra := a.specialValues
  if extra.isEmpty then a.help else if a.help.isEmpty then extra else a.help ++ " " ++ extra

end Arg

namespace Command

/-- The positional arguments, in order. -/
def positionals (c : Command) : List Arg := c.args.filter (·.positional)

/-- The flags and options, in order. -/
def flags (c : Command) : List Arg := c.args.filter (!·.positional)

/-- The argument with a name. -/
def arg? (c : Command) (id : String) : Option Arg := c.args.find? (·.id == id)

/-- The argument with a long flag. -/
def longArg? (c : Command) (l : String) : Option Arg :=
  c.flags.find? (·.long == some l)

/-- The argument with a short flag. -/
def shortArg? (c : Command) (s : Char) : Option Arg :=
  c.flags.find? (·.short == some s)

/-- The subcommand with a name. -/
def subcommand? (c : Command) (n : String) : Option Command :=
  c.subcommands.find? (·.name == n)

/-- The long flags, in order. -/
def longNames (c : Command) : List String := c.flags.filterMap (·.long)

/-- The names of the subcommands, in order. -/
def subcommandNames (c : Command) : List String := c.subcommands.map (·.name)

/-- Whether the command has a help flag. -/
def hasHelpFlag (c : Command) : Bool := c.args.any (·.action == .help)

/-- The names of the required arguments, in order. -/
def requiredIds (c : Command) : List String := (c.args.filter (·.required)).map (·.id)

/-- Whether usage writes `[OPTIONS]`: an optional argument other than help and version. -/
def hasOptionalFlags (c : Command) : Bool :=
  c.flags.any fun a => a.action != .help && a.action != .version && !a.required

/-- Add an item to a list unless it is there already. -/
def addNew (items : List String) (x : String) : List String :=
  if items.contains x then items else items ++ [x]

/-- The arguments that usage writes for the names in `incls` and the required ones: the
options first, each once, then every positional value, in order. -/
def usageArgs (c : Command) (incls : List String) : List String :=
  let named := c.requiredIds ++ incls
  let options := (named.filterMap fun id =>
    match c.arg? id with
    | some a => if a.positional then none else some (a.usageText true)
    | none => none).foldl addNew []
  let values := c.positionals.map fun a => a.usageText (named.contains a.id)
  options ++ values

/-- The required arguments of `incls` and of the command that `present` does not hold,
as a message lists them: options first, each once, then positional values. -/
def missingArgs (c : Command) (incls : List String) (present : String → Bool) : List String :=
  let named := (c.requiredIds ++ incls).filter (!present ·)
  let options := (named.filterMap fun id =>
    match c.arg? id with
    | some a => if a.positional then none else some (a.usageText true)
    | none => none).foldl addNew []
  let values := (c.positionals.filter fun a => named.contains a.id).map (·.usageText true)
  options ++ values

/-- `<COMMAND>` when a subcommand is required. -/
def subcommandSlot (c : Command) : List String :=
  if c.subcommands.isEmpty then [] else ["<COMMAND>"]

/-- The usage line of a command called as `bin`. -/
def usage (c : Command) (bin : String) : String :=
  " ".intercalate ([bin] ++ (if c.hasOptionalFlags then ["[OPTIONS]"] else []) ++
    c.usageArgs [] ++ c.subcommandSlot)

/-- The usage line that names the arguments of `used` besides the required ones. -/
def usageWith (c : Command) (bin : String) (used : List String) : String :=
  if used.isEmpty then c.usage bin
  else " ".intercalate ([bin] ++ c.usageArgs used ++ c.subcommandSlot)

/-- `n` spaces. -/
def spaces (n : Nat) : String := String.ofList (List.replicate n ' ')

/-- The `Commands:` entries. -/
def commandLines (c : Command) : List String :=
  let width := c.subcommands.foldl (fun w s => max w s.name.length) 2
  c.subcommands.map fun s => "  " ++ s.name ++ spaces (width + 2 - s.name.length) ++ s.about

/-- The `Arguments:` entries. -/
def positionalLines (c : Command) : List String :=
  let width := c.positionals.foldl (fun w a => max w a.display.length) 2
  c.positionals.map fun a => "  " ++ a.display ++ spaces (width + 2 - a.display.length) ++ a.fullHelp

/-- The `Options:` entries: short flag, long flag and value, then the description. A flag
with a short name only does not widen the column. -/
def flagLines (c : Command) : List String :=
  let width := c.flags.foldl (fun w a =>
    if a.takesValue || a.long.isSome || a.short.isNone then max w a.display.length else w) 2
  c.flags.map fun a =>
    let lead := match a.short, a.long with
      | some s, some _ => "-" ++ s.toString ++ ", "
      | some s, none => "-" ++ s.toString
      | none, some _ => "    "
      | none, none => ""
    let long := match a.long with
      | some l => "--" ++ l
      | none => ""
    let value := if a.takesValue then " " ++ a.placeholder true else ""
    let pad := if a.long.isSome then 2 else 6
    "  " ++ lead ++ long ++ value ++ spaces (width + pad - a.display.length) ++ a.fullHelp

/-- The help page of a command called as `bin`, ending in a newline. -/
def helpPage (c : Command) (bin : String) : String :=
  let part (title : String) (entries : List String) : List String :=
    if entries.isEmpty then [] else [title ++ ":\n" ++ "\n".intercalate entries]
  let sections := part "Commands" c.commandLines ++ part "Arguments" c.positionalLines ++
    part "Options" c.flagLines
  (if c.about.isEmpty then "" else c.about ++ "\n\n") ++ "Usage: " ++ c.usage bin ++
    (if sections.isEmpty then "" else "\n\n" ++ "\n\n".intercalate sections) ++ "\n"

/-- The version line of a program. -/
def versionLine (c : Command) : String :=
  c.name ++ " " ++ c.version.getD "" ++ "\n"

end Command

end Ipld.CommandLine
