/-!
# Finding one text inside another

Texts are compared character by character. The empty text occurs in every text, at its
start and everywhere else.
-/

namespace Ipld.Text

/-- Whether `part` occurs in `cs` as a run of consecutive characters. -/
def occursIn (part : List Char) : List Char → Bool
  | [] => part.isEmpty
  | c :: cs => part.isPrefixOf (c :: cs) || occursIn part cs

/-- Whether `part` occurs in `s`. -/
def includes (s part : String) : Bool := occursIn part.toList s.toList

/-- Whether `s` starts with `part`. -/
def beginsWith (s part : String) : Bool := part.toList.isPrefixOf s.toList

end Ipld.Text
