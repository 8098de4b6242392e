import Ipld.Schema.Violation

/-!
# Cycles of references

A type is *finite* when some value of it can be written down. Scalars, lists, maps and
links always are: an empty container or a bare link ends any recursion. A struct is finite
when the named types of all its required fields (neither optional nor nullable) are, and a
union when it has no members or one of them is. Names the system does not know count as
finite. `finiteNames` is the least set closed under these rules.

A declared type that is not finite is reported only if it lies on a cycle of required
references itself; types that merely lead into a cycle are left to the cycle's members.

A value holds another *by value* when the other is a named field type of a struct (optional
or not) or a member type of a union; a generated type that refers back to itself by value
needs an indirection, which `reachesByValue` decides.
-/

namespace Ipld.Schema

namespace TypeSystem

/-- Whether a type is finite once the names in `finite` are known to be. -/
def finiteGiven (ts : TypeSystem) (finite : List String) : SchemaType → Bool
  | .struct fields strategy =>
    (SchemaType.struct fields strategy).required.all fun n => finite.contains n || !ts.contains n
  | .union members _ => members.isEmpty || members.any fun m => finite.contains m.type || !ts.contains m.type
  | _ => true

/-- One sweep over the declared types, adding each that has become finite. -/
def finiteSweep (ts : TypeSystem) (finite : List String) : List String :=
  ts.declared.foldl (fun acc (name, t) =>
    if acc.contains name then acc
    else if ts.finiteGiven acc t then acc ++ [name] else acc) finite

/-- Sweeps until nothing changes, at most `fuel` of them. -/
def finiteFrom (ts : TypeSystem) : Nat → List String → List String
  | 0, finite => finite
  | fuel + 1, finite =>
    let next := ts.finiteSweep finite
    if next.length == finite.length then finite else ts.finiteFrom fuel next

/-- The least set of finite names: the prelude, and every declared type that the rules make
finite. Each sweep that changes anything adds a declared name, so one sweep per declared
type, and one more, reach the fixpoint. -/
def finiteNames (ts : TypeSystem) : List String :=
  ts.finiteFrom (ts.declared.length + 1) preludeNames

/-- Depth-first search from `here` for a path of required references back to `start` that
avoids finite names, with `seen` the names already searched. Returns the path from `here`,
if any, and the names searched by then. -/
def cycleFrom (ts : TypeSystem) (finite : List String) (start : String) :
    Nat → String → List String → Option (List String) × List String
  | 0, _, seen => (none, seen)
  | fuel + 1, here, seen =>
    match ts.get? here with
    | none => (none, seen)
    | some t =>
      t.required.foldl (fun (found, seen) next =>
        match found with
        | some p => (some p, seen)
        | none =>
          if finite.contains next then (none, seen)
          else if next == start then (some [here, next], seen)
          else if seen.contains next then (none, seen)
          else
            match ts.cycleFrom finite start fuel next (next :: seen) with
            | (some p, s) => (some (here :: p), s)
            | (none, s) => (none, s)) (none, seen)

/-- A cycle of required references through `start`, written from `start` back to it. -/
def cycleThrough (ts : TypeSystem) (finite : List String) (start : String) : Option (List String) :=
  (ts.cycleFrom finite start (ts.size + 1) start []).1

/-- The recursion violations: each declared type that is not finite and lies on a cycle of
required references, with that cycle. -/
def recursionErrors (ts : TypeSystem) : List SchemaError :=
  let finite := ts.finiteNames
  ts.declared.filterMap fun (name, _) =>
    if finite.contains name then none
    else (ts.cycleThrough finite name).map fun path => ⟨name, .recursiveCycle path⟩

/-- The names held by value by the types named in `names`. -/
def heldByValue (ts : TypeSystem) (names : List String) : List String :=
  names.flatMap fun n => ((ts.get? n).map SchemaType.byValue).getD []

/-- Names reachable from `reached` in at most `fuel` more by-value steps. -/
def reachFrom (ts : TypeSystem) : Nat → List String → List String
  | 0, reached => reached
  | fuel + 1, reached =>
    let fresh := (ts.heldByValue reached).filter fun n => !reached.contains n
    if fresh.isEmpty then reached else ts.reachFrom fuel (reached ++ fresh.eraseDups)

/-- Whether `target` is reachable from `origin` in zero or more by-value steps. -/
def reachesByValue (ts : TypeSystem) (target origin : String) : Bool :=
  (ts.reachFrom (ts.size + 1) [origin]).contains target

end TypeSystem

end Ipld.Schema
