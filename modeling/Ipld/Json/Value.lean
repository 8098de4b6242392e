import Ipld.Binary64

/-!
# JSON values

A JSON value as read from or written to text. Numbers written without a fraction or an
exponent are integers of any size; all other numbers are binary64 floats, as JSON readers
that target machine numbers produce them. Objects are lists of entries in the order they
were written, repeated keys included.

`Json.collapse` turns an object into the map that a key-indexed JSON object holds: each
key once, at the place it was first written, with the value it was last given.
-/

namespace Ipld

/-- A JSON value. -/
inductive Json
  | null
  | bool (b : Bool)
  | int (i : Int)
  | float (x : Binary64)
  | string (s : String)
  | array (items : List Json)
  | object (entries : List (String × Json))
  deriving Inhabited, BEq

namespace Json

/-- The entries of an object with each key once: first position, last value. -/
def collapseEntries (entries : List (String × Json)) : List (String × Json) :=
  entries.foldl (fun acc (k, v) =>
    if acc.any (·.1 == k) then acc.map (fun e => if e.1 == k then (k, v) else e)
    else acc ++ [(k, v)]) []

mutual

/-- Collapse repeated keys in every object of the tree. -/
def collapse : Json → Json
  | array items => array (collapseList items)
  | object entries => object (collapseEntries (collapseListEntries entries))
  | j => j

/-- `collapse` on each item. -/
def collapseList : List Json → List Json
  | [] => []
  | j :: rest => collapse j :: collapseList rest

/-- `collapse` on each entry value. -/
def collapseListEntries : List (String × Json) → List (String × Json)
  | [] => []
  | (k, j) :: rest => (k, collapse j) :: collapseListEntries rest

end

mutual

/-- The number of values in a tree, itself included. -/
def weight : Json → Nat
  | array items => weightList items + 1
  | object entries => weightEntries entries + 1
  | _ => 1

/-- `weight` summed over items. -/
def weightList : List Json → Nat
  | [] => 0
  | j :: rest => weight j + weightList rest

/-- `weight` summed over entry values. -/
def weightEntries : List (String × Json) → Nat
  | [] => 0
  | (_, j) :: rest => weight j + weightEntries rest

end

/-- The value under the first entry `key`, if this is an object. -/
def field? (j : Json) (key : String) : Option Json :=
  match j with
  | object entries => (entries.find? (·.1 == key)).map (·.2)
  | _ => none

end Json

end Ipld
