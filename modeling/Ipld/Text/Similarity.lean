import Ipld.Binary64

/-!
# Similarity of words

To suggest a name for a mistyped one, words are compared by their Jaro similarity: with
`m` characters that match (equal, and no further apart than half the longer word, less
one) and `t` half-transpositions among them, the similarity of words of lengths `a` and
`b` is `(m/a + m/b + (m - t)/m) / 3`, and `0` when nothing matches.

The similarity is computed the way a program computes it in binary64: each quotient is
rounded, then the two sums and the final division, each to nearest. A name is suggested
when its similarity exceeds the binary64 nearest to `0.7`; several are listed from the
least similar up, names equally similar in the order they were given.
-/

namespace Ipld.Text

/-- The exact value of a nonnegative finite binary64, as numerator and denominator. -/
def ratioOf (x : Binary64) : Nat × Nat :=
  let (m, q) := x.magnitude
  if q ≥ 0 then (m * Nat.pow 2 q.toNat, 1) else (m, Nat.pow 2 (-q).toNat)

/-- The binary64 nearest to the sum of two nonnegative binary64 values. -/
def addRounded (x y : Binary64) : Binary64 :=
  let (a, b) := ratioOf x
  let (c, d) := ratioOf y
  Binary64.ofRat false (a * d + c * b) (b * d)

/-- Whether one nonnegative binary64 is smaller than another. -/
def lessThan (x y : Binary64) : Bool :=
  let (a, b) := ratioOf x
  let (c, d) := ratioOf y
  a * d < c * b

/-- Mark the first character of `b` in `[lo, hi)` equal to `c` and not yet marked. -/
def markMatch (b : Array Char) (marks : Array Bool) (c : Char) (lo hi : Nat) :
    Option (Array Bool) :=
  match (List.range' lo (hi - lo)).find? fun j => b[j]? == some c && marks[j]? == some false with
  | some j => some (marks.set! j true)
  | none => none

/-- The matching characters: for each character of `a`, whether it matched, and for each
of `b`, whether it was matched. -/
def matchMarks (a b : Array Char) : Array Bool × Array Bool :=
  let range := (max a.size b.size / 2) - 1
  (List.range a.size).foldl (fun (am, bm) i =>
    let lo := i - range
    let hi := min b.size (i + range + 1)
    match a[i]? with
    | some c =>
      match markMatch b bm c lo hi with
      | some bm' => (am.set! i true, bm')
      | none => (am, bm)
    | none => (am, bm)) (Array.replicate a.size false, Array.replicate b.size false)

/-- The characters of a word that matched, in order. -/
def marked (w : Array Char) (marks : Array Bool) : List Char :=
  (w.toList.zip marks.toList).filterMap fun (c, m) => if m then some c else none

/-- The Jaro similarity of two words, computed in binary64. -/
def jaro (s t : String) : Binary64 :=
  let a := s.toList.toArray
  let b := t.toList.toArray
  if a.size == 0 && b.size == 0 then Binary64.ofInt 1
  else if a.size == 0 || b.size == 0 then Binary64.zero
  else
    let (am, bm) := matchMarks a b
    let ma := marked a am
    let mb := marked b bm
    let m := ma.length
    if m == 0 then Binary64.zero
    else
      let t := ((ma.zip mb).filter fun (x, y) => x != y).length / 2
      let sum := addRounded (addRounded (Binary64.ofRat false m a.size) (Binary64.ofRat false m b.size))
        (Binary64.ofRat false (m - t) m)
      let (n, d) := ratioOf sum
      Binary64.ofRat false n (d * 3)

/-- The names similar enough to `word` to suggest, from the least similar up. -/
def similarNames (word : String) (names : List String) : List String :=
  let threshold := Binary64.ofRat false 7 10
  let scored := (names.map fun n => (jaro word n, n)).filter fun (x, _) => lessThan threshold x
  (scored.mergeSort fun p q => !lessThan q.1 p.1).map (·.2)

end Ipld.Text
