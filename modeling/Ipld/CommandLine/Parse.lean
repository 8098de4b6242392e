import Ipld.CommandLine.Stop

/-!
# Reading a command line

`Command.read` reads the arguments of a command line against a tree of commands, from left
to right:

* a subcommand's name hands the rest of the line to that subcommand; `help` followed by
  names shows the help page of the command they lead to;
* `--` ends the flags: everything after it is a positional value;
* `--long` and `--long=value` name a flag or an option, whose value is either attached or
  the next argument; `-abc` names short flags one by one;
* anything else is the next positional value.

An option's value is checked when the next argument is read or the line ends, so a missing
or rejected value is reported then. When the line ends, the command's defaults are filled
in and its requirements checked: a command with subcommands shows its help when given
nothing and needs a subcommand otherwise, and every required argument must be given.

A mistyped flag or subcommand is answered with the most similar names, by
`Text.similarNames`; a usage line in a message names the arguments given so far.
-/

namespace Ipld.CommandLine

/-- The values read for one argument. -/
structure Given where
  /-- The argument's name. -/
  id : String
  /-- Its values. -/
  values : List String
  /-- Whether the command line gave it, rather than its default. -/
  explicit : Bool
  deriving Inhabited

/-- Values waiting for their argument to be complete. -/
structure Waiting where
  /-- The argument's name. -/
  id : String
  /-- The values read so far. -/
  values : List String
  deriving Inhabited

/-- What has been read of one command's arguments. -/
structure Reading where
  /-- The arguments read, in the order they were first given. -/
  given : List Given
  /-- An argument whose values are not complete yet. -/
  waiting : Option Waiting
  /-- Whether the next argument is the value of the waiting option. -/
  expecting : Bool
  /-- The index of the next positional value. -/
  position : Nat
  /-- Whether `--` has been read. -/
  escaped : Bool
  deriving Inhabited

/-- A command being read and the name it is called by, its path from the program. -/
structure Scope where
  /-- The command. -/
  cmd : Command
  /-- Its path from the program, as usage writes it. -/
  bin : String
  deriving Inhabited

namespace Reading

/-- Nothing read yet. -/
def empty : Reading := ⟨[], none, false, 0, false⟩

/-- Whether the command line gave an argument. -/
def has (r : Reading) (id : String) : Bool := r.given.any fun g => g.id == id && g.explicit

/-- The arguments the command line gave, in order. -/
def explicitIds (r : Reading) : List String := (r.given.filter (·.explicit)).map (·.id)

/-- Take an argument's values out. -/
def forget (r : Reading) (id : String) : Reading :=
  ⟨r.given.filter (·.id != id), r.waiting, r.expecting, r.position, r.escaped⟩

/-- Record values of an argument given on the command line, after those it has. -/
def record (r : Reading) (id : String) (values : List String) : Reading :=
  let given :=
    if r.given.any (·.id == id) then
      r.given.map fun g => if g.id == id then ⟨id, g.values ++ values, true⟩ else g
    else r.given ++ [⟨id, values, true⟩]
  ⟨given, r.waiting, r.expecting, r.position, r.escaped⟩

/-- Set the waiting argument. -/
def wait (r : Reading) (w : Option Waiting) (expecting : Bool) : Reading :=
  ⟨r.given, w, expecting, r.position, r.escaped⟩

/-- Add a value to the waiting argument `id`. -/
def push (r : Reading) (id : String) (v : String) : Reading :=
  match r.waiting with
  | some w => r.wait (some ⟨w.id, w.values ++ [v]⟩) false
  | none => r.wait (some ⟨id, [v]⟩) false

/-- Move to the next positional value. -/
def advance (r : Reading) : Reading :=
  ⟨r.given, r.waiting, r.expecting, r.position + 1, r.escaped⟩

/-- Mark that `--` has been read. -/
def escape (r : Reading) : Reading :=
  ⟨r.given, r.waiting, r.expecting, r.position, true⟩

/-- Fill in the defaults of the arguments not given. -/
def withDefaults (r : Reading) (c : Command) : Reading :=
  let defaults := c.args.filterMap fun a =>
    match a.defaultValue with
    | some d => if r.given.any (·.id == a.id) then none else some (⟨a.id, [d], false⟩ : Given)
    | none => none
  ⟨r.given ++ defaults, r.waiting, r.expecting, r.position, r.escaped⟩

end Reading

/-- Take an argument with its values. The reading after the attempt comes with the failure,
if any, since a failure leaves its mark: a repeated argument has been taken out, and an
argument whose value was rejected has been taken in without it. -/
def take (s : Scope) (r : Reading) (a : Arg) (values : List String) : Reading × Option Stop :=
  match a.action with
  | .help => (r, some (showHelp s.cmd s.bin))
  | .version => (r, some (showVersion s.cmd))
  | .set =>
    if values.isEmpty then (r, some (invalidValue s.cmd a ""))
    else if r.given.any (·.id == a.id) then
      (r.forget a.id, some (givenTwice s.cmd a (s.cmd.usage s.bin)))
    else
      match values.find? fun v => !a.choices.isEmpty && !a.choices.contains v with
      | some v => (r.record a.id [], some (invalidValue s.cmd a v))
      | none => (r.record a.id values, none)
  | .setTrue =>
    if r.given.any (·.id == a.id) then
      (r.forget a.id, some (givenTwice s.cmd a (s.cmd.usage s.bin)))
    else (r.record a.id ["true"], none)
  | .append => (r.record a.id values, none)

/-- Complete the waiting argument. -/
def settle (s : Scope) (r : Reading) : Reading × Option Stop :=
  match r.waiting with
  | none => (r, none)
  | some w =>
    let r := r.wait none false
    match s.cmd.arg? w.id with
    | some a => take s r a w.values
    | none => (r, none)

/-- Complete the waiting argument, failing when it fails. -/
def settled (s : Scope) (r : Reading) : Except Stop Reading :=
  match settle s r with
  | (r, none) => .ok r
  | (_, some e) => .error e

/-- Take an argument with its values once the waiting one is complete. -/
def react (s : Scope) (r : Reading) (a : Arg) (values : List String) : Except Stop Reading := do
  let r ← settled s r
  match take s r a values with
  | (r, none) => .ok r
  | (_, some e) => .error e

/-- Whether a command-line argument looks like a long flag. -/
def looksLong (t : String) : Bool := t.startsWith "--" && t.length > 2

/-- Whether a command-line argument looks like short flags. -/
def looksShort (t : String) : Bool := t.startsWith "-" && !t.startsWith "--" && t.length > 1

/-- The failure for an unknown long flag `--name`, with `rest` the arguments after it. A
similar flag of the command is suggested (and counted as given in the usage line), else a
similar flag of a subcommand named later on the line; with no suggestion, a command that
takes positional values tells how to pass the flag as one. -/
def unknownLong (s : Scope) (r : Reading) (name : String) (rest : List String) : Stop :=
  let r := (settle s r).1
  let near := (Text.similarNames name s.cmd.longNames).getLast?
  let elsewhere := s.cmd.subcommands.filterMap fun sub =>
    match (Text.similarNames name sub.longNames).getLast?, rest.idxOf? sub.name with
    | some n, some i => some (i, n, sub.name)
    | _, _ => none
  let earliest := elsewhere.foldl (fun best c =>
    match best with
    | some b => if c.1 < b.1 then some c else some b
    | none => some c) none
  let similar : Option (String × Option String) := match near, earliest with
    | some n, _ => some ("--" ++ n, none)
    | none, some (_, n, sub) => some ("--" ++ n, some sub)
    | none, none => none
  let r := match near with
    | some n =>
      match s.cmd.longArg? n with
      | some a => if r.given.any (·.id == a.id) then r else r.record a.id []
      | none => r
    | none => r
  unknownArgument s.cmd ("--" ++ name) similar
    (similar.isNone && !r.escaped && !s.cmd.positionals.isEmpty) (s.cmd.usageWith s.bin r.explicitIds)

/-- The failure for an argument that no positional value takes. -/
def unplaced (s : Scope) (r : Reading) (t : String) : Stop :=
  let usage := s.cmd.usage s.bin
  let asValue := !r.escaped && !s.cmd.positionals.isEmpty && (looksLong t || looksShort t)
  if r.escaped && (s.cmd.subcommand? t).isSome then needlessEscape s.cmd t usage
  else if s.cmd.subcommands.isEmpty then unknownArgument s.cmd t none asValue usage
  else
    let similar := Text.similarNames t s.cmd.subcommandNames
    if !similar.isEmpty then unknownSubcommand s.cmd t similar usage
    else if s.cmd.positionals.isEmpty then unknownSubcommand s.cmd t [] usage
    else unknownArgument s.cmd t none asValue usage

/-- The help page of the command that `names` lead to from `s`. -/
def helpAlong (s : Scope) : List String → Stop
  | [] => ⟨.displayHelp, s.cmd.helpPage s.bin⟩
  | n :: rest =>
    match s.cmd.subcommand? n with
    | some c => helpAlong ⟨c, s.bin ++ " " ++ c.name⟩ rest
    | none => unknownSubcommand s.cmd n [] (s.cmd.usage s.bin)

/-- Read short flags `cs` of one argument. -/
def readShort (s : Scope) (r : Reading) : List Char → Except Stop Reading
  | [] => .ok r
  | c :: cs =>
    match s.cmd.shortArg? c with
    | none =>
      .error (unknownArgument s.cmd ("-" ++ c.toString) none
        (!r.escaped && !s.cmd.positionals.isEmpty) (s.cmd.usage s.bin))
    | some a =>
      if a.takesValue then
        let attached := String.ofList cs
        let value := if attached.startsWith "=" then attached.drop 1 |>.toString else attached
        if value.isEmpty then do
          let r ← settled s r
          .ok (r.wait (some ⟨a.id, []⟩) true)
        else react s r a [value]
      else do
        let r ← react s r a []
        readShort s r cs

/-- Read the arguments of one command. The result is what was read and, when a
subcommand's name came, that name and the arguments after it. -/
def readArgs (s : Scope) : List String → Reading → Except Stop (Reading × Option (String × List String))
  | [], r => .ok (r, none)
  | t :: rest, r =>
    let positional : Except Stop (Reading × Option (String × List String)) :=
      match s.cmd.positionals[r.position]? with
      | some a => do
        let r ← if r.waiting.map (·.id) != some a.id || a.action != .append then settled s r
          else pure r
        let r := r.push a.id t
        let r := if a.action == .append then r else r.advance
        readArgs s rest r
      | none => .error (unplaced s (settle s r).1 t)
    if r.escaped then positional
    else
      match s.cmd.subcommand? t with
      | some c =>
        if c.name == "help" then .error (helpAlong s rest)
        else .ok (r, some (t, rest))
      | none =>
        if t == "--" then readArgs s rest r.escape
        else if looksLong t then
          let body := (t.drop 2).toString
          let (name, attached) := match body.splitOn "=" with
            | [n] => (n, none)
            | n :: vs => (n, some ("=".intercalate vs))
            | [] => (body, none)
          match s.cmd.longArg? name with
          | some a =>
            if a.takesValue then
              match attached with
              | some v => do readArgs s rest (← react s r a [v])
              | none => do
                let r ← settled s r
                readArgs s rest (r.wait (some ⟨a.id, []⟩) true)
            else
              match attached with
              | some v =>
                let used := (r.explicitIds.filter fun id => !s.cmd.requiredIds.contains id) ++ [a.id]
                .error (unneededValue s.cmd a v (s.cmd.usageWith s.bin used))
              | none => do readArgs s rest (← react s r a [])
          | none => .error (unknownLong s r name rest)
        else if looksShort t then do
          readArgs s rest (← readShort s r (t.toList.drop 1))
        else if r.expecting then
          match r.waiting with
          | some w => readArgs s rest (r.push w.id t)
          | none => positional
        else positional

/-- Check a command's arguments once its line has ended: the waiting value is taken, the
defaults filled in, and the requirements checked. `chosen` tells whether a subcommand was
given. -/
def finish (s : Scope) (r : Reading) (chosen : Bool) : Except Stop Reading := do
  let r ← settled s r
  let r := r.withDefaults s.cmd
  if !chosen && !s.cmd.subcommands.isEmpty then
    if r.explicitIds.isEmpty then throw ⟨.displayHelpOnMissing, s.cmd.helpPage s.bin⟩
    else throw (missingSubcommand s.cmd s.bin (s.cmd.usage s.bin))
  let missing := s.cmd.requiredIds.filter (!r.has ·)
  if !missing.isEmpty then
    throw (missingArguments s.cmd (s.cmd.missingArgs missing r.has)
      (s.cmd.usageWith s.bin (r.explicitIds ++ missing)))
  pure r

/-- A command line read: the subcommands chosen, outermost first, and the values of the
innermost command's arguments, defaults included. -/
structure Parsed where
  /-- The names of the subcommands chosen. -/
  path : List String
  /-- The values of the arguments of the last command. -/
  given : List Given
  deriving Inhabited

/-- The value of an argument of the last command. -/
def Parsed.value? (p : Parsed) (id : String) : Option String :=
  (p.given.find? (·.id == id)).bind (·.values.getLast?)

/-- Read the arguments of a command and of the subcommands they choose. `depth` bounds the
subcommands, each of which takes one argument of the line. -/
def readFrom (s : Scope) (args : List String) : Nat → Except Stop Parsed
  | 0 => .ok ⟨[], []⟩
  | depth + 1 => do
    let (r, next) ← readArgs s args Reading.empty
    match next with
    | some (name, rest) =>
      match s.cmd.subcommand? name with
      | some c =>
        let inner ← readFrom ⟨c, s.bin ++ " " ++ c.name⟩ rest depth
        let _ ← finish s r true
        pure ⟨name :: inner.path, inner.given⟩
      | none => pure ⟨[], r.given⟩
    | none =>
      let r ← finish s r false
      pure ⟨[], r.given⟩

/-- Read a command line against a program's command tree. -/
def Command.read (c : Command) (args : List String) : Except Stop Parsed :=
  readFrom ⟨c, c.name⟩ args (args.length + 1)

end Ipld.CommandLine
