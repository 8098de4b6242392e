import Ipld.Bindings

/-!
# The store schema

A sample schema with one type for every representation strategy and a record that uses
them all. It is the schema the sample bindings are generated from, and the bindings of
its declared types are the sample prototypes.
-/

namespace Ipld.Samples

/-- The text of the store schema. -/
def storeSchema : String :=
  "# One type per representation strategy, plus a record that uses them all.\n" ++
  "type Name string\n" ++
  "type Count int\n" ++
  "type Ratio float\n" ++
  "type Flag bool\n" ++
  "type Blob bytes\n" ++
  "type Parent &Entry\n" ++
  "type Tags [String]\n" ++
  "\n" ++
  "type Shade enum \x7b\n" ++
  "    | Light (\"l\")\n" ++
  "    | Dark (\"d\")\n" ++
  "\x7d\n" ++
  "\n" ++
  "type Level enum \x7b\n" ++
  "    | Low (\"1\")\n" ++
  "    | High (\"2\")\n" ++
  "\x7d representation int\n" ++
  "\n" ++
  "type Scores \x7bString:nullable Int\x7d\n" ++
  "type Weights \x7bShade:Int\x7d representation stringpairs(\"=\", \"&\")\n" ++
  "type Labels \x7bString:Int\x7d representation listpairs\n" ++
  "\n" ++
  "type Point struct \x7b\n" ++
  "    x Int\n" ++
  "    y Int\n" ++
  "\x7d representation tuple\n" ++
  "\n" ++
  "type Range struct \x7b\n" ++
  "    start Int\n" ++
  "    end Int\n" ++
  "\x7d representation stringjoin(\":\")\n" ++
  "\n" ++
  "type Query struct \x7b\n" ++
  "    page Int\n" ++
  "    shade Shade\n" ++
  "\x7d representation stringpairs(\"=\", \"&\")\n" ++
  "\n" ++
  "type Pairs struct \x7b\n" ++
  "    left Int\n" ++
  "    right optional String\n" ++
  "\x7d representation listpairs\n" ++
  "\n" ++
  "type Opened struct \x7b\n" ++
  "    at Int\n" ++
  "\x7d\n" ++
  "\n" ++
  "type Closed struct \x7b\n" ++
  "    at Int\n" ++
  "    reason optional String\n" ++
  "\x7d\n" ++
  "\n" ++
  "type Status union \x7b\n" ++
  "    | \"rw:\" Name\n" ++
  "    | \"ro:\" Range\n" ++
  "\x7d representation stringprefix\n" ++
  "\n" ++
  "type Shape union \x7b\n" ++
  "    | Point \"point\"\n" ++
  "    | Range \"range\"\n" ++
  "\x7d representation keyed\n" ++
  "\n" ++
  "type Value union \x7b\n" ++
  "    | Name string\n" ++
  "    | Count int\n" ++
  "    | Tags list\n" ++
  "\x7d representation kinded\n" ++
  "\n" ++
  "type Event union \x7b\n" ++
  "    | \"open\" Opened\n" ++
  "    | \"close\" Closed\n" ++
  "\x7d representation inline(\"kind\")\n" ++
  "\n" ++
  "type Envelope union \x7b\n" ++
  "    | \"point\" Point\n" ++
  "    | \"scores\" Scores\n" ++
  "\x7d representation envelope(\"tag\", \"body\")\n" ++
  "\n" ++
  "type Entry struct \x7b\n" ++
  "    name Name\n" ++
  "    count optional Count\n" ++
  "    note optional nullable String\n" ++
  "    ratio nullable Ratio\n" ++
  "    flag Flag\n" ++
  "    blob Blob\n" ++
  "    parent optional Parent\n" ++
  "    target nullable &Entry\n" ++
  "    tags Tags\n" ++
  "    scores Scores\n" ++
  "    weights Weights\n" ++
  "    labels Labels\n" ++
  "    point Point\n" ++
  "    query Query\n" ++
  "    pairs Pairs\n" ++
  "    status Status\n" ++
  "    shape Shape\n" ++
  "    value Value\n" ++
  "    event Event\n" ++
  "    envelope Envelope\n" ++
  "    level Level\n" ++
  "    children [Entry]\n" ++
  "    meta \x7bString:Int\x7d\n" ++
  "\x7d\n"

/-- The store schema, bound. -/
def storeBindings : Except BindError Bindings := Bindings.load storeSchema

end Ipld.Samples
