/-!
# Blank characters

The characters with the Unicode White_Space property: the ASCII tab, line feed, vertical
tab, form feed, carriage return and space, next line, no-break space, the ogham space
mark, the spaces from en quad to hair space, the line and paragraph separators, the
narrow no-break space, the medium mathematical space and the ideographic space.
-/

namespace Ipld.Text

/-- Characters with the Unicode White_Space property. -/
def isBlank (c : Char) : Bool :=
  let n := c.toNat
  (0x9 ≤ n && n ≤ 0xd) || n == 0x20 || n == 0x85 || n == 0xa0 || n == 0x1680 ||
    (0x2000 ≤ n && n ≤ 0x200a) || n == 0x2028 || n == 0x2029 || n == 0x202f ||
    n == 0x205f || n == 0x3000

/-- Every blank of core's ASCII class is a blank here. -/
theorem isBlank_of_isWhitespace (c : Char) (h : c.isWhitespace = true) : isBlank c = true := by
  simp only [Char.isWhitespace, Bool.or_eq_true, decide_eq_true_eq] at h
  simp only [isBlank, Bool.or_eq_true, Bool.and_eq_true, beq_iff_eq, decide_eq_true_eq]
  rcases h with ((h | h) | h) | h <;> subst h <;> decide

end Ipld.Text

namespace Ipld.Text

/-- Remove blanks (in the sense of `isBlank`) from both ends. -/
def trimBlank (s : String) : String :=
  String.ofList ((s.toList.dropWhile isBlank).reverse.dropWhile isBlank).reverse

end Ipld.Text
