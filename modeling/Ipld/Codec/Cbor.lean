import Ipld.Node.Basic

/-!
# CBOR

The CBOR form of a data-model value: every length and integer in its shortest head, maps
and lists with definite lengths, map keys as text strings, links as text (callers that
keep links out of CBOR reject them first). A float takes the narrowest of the half,
single and double widths that holds it exactly; a NaN is the half-width quiet NaN.
-/

namespace Ipld.Cbor

/-- Big-endian bytes of `n` in `width` bytes. -/
def bigEndian (n width : Nat) : List UInt8 :=
  (List.range width).reverse.map fun i => (n / Nat.pow 256 i % 256).toUInt8

/-- The head of a data item: major type and argument, the argument in the fewest bytes. -/
def head (major : Nat) (arg : Nat) : List UInt8 :=
  let m := major * 32
  if arg < 24 then [(m + arg).toUInt8]
  else if arg < 256 then (m + 24).toUInt8 :: bigEndian arg 1
  else if arg < 65536 then (m + 25).toUInt8 :: bigEndian arg 2
  else if arg < 4294967296 then (m + 26).toUInt8 :: bigEndian arg 4
  else (m + 27).toUInt8 :: bigEndian arg 8

/-- An integer: major type 0 for `i ≥ 0`, else major type 1 with argument `-1 - i`. -/
def integer (i : Int) : List UInt8 :=
  if i ≥ 0 then head 0 i.toNat else head 1 (-1 - i).toNat

/-- A text string: major type 3, byte length, UTF-8 bytes. -/
def text (s : String) : List UInt8 :=
  let bs := s.toUTF8.toList
  head 3 bs.length ++ bs

/-- A float in the narrowest exact width. -/
def float (x : Binary64) : List UInt8 :=
  if x.fitsIn BinaryFormat.half then
    0xf9 :: bigEndian (x.narrowBits BinaryFormat.half) 2
  else if x.fitsIn BinaryFormat.single then
    0xfa :: bigEndian (x.narrowBits BinaryFormat.single) 4
  else 0xfb :: bigEndian x.bits.toNat 8

mutual

/-- The CBOR bytes of a value. -/
def encode : Node → List UInt8
  | .null => [0xf6]
  | .bool true => [0xf5]
  | .bool false => [0xf4]
  | .int i => integer i
  | .float x => float x
  | .string s => text s
  | .bytes bs => head 2 bs.length ++ bs
  | .link cid => text cid
  | .list items => head 4 items.length ++ encodeList items
  | .map entries => head 5 entries.length ++ encodeEntries entries

/-- The items of a list, one after another. -/
def encodeList : List Node → List UInt8
  | [] => []
  | n :: rest => encode n ++ encodeList rest

/-- The entries of a map, each key then value. -/
def encodeEntries : List (String × Node) → List UInt8
  | [] => []
  | (k, n) :: rest => text k ++ encode n ++ encodeEntries rest

end

end Ipld.Cbor
