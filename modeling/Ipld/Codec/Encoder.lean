import Ipld.Codec.Cbor
import Ipld.Codec.Dump
import Ipld.Codec.JsonForm
import Ipld.Json.Write
import Ipld.Text.Blank

/-!
# Encoders and how a token selects one

Four codecs and a dump turn a data-model value into output:

* `json`: pretty JSON; refuses byte strings and links (byte strings are looked for in the
  whole tree first) and floats that are not finite;
* `dag-json`: compact JSON with map keys in bytewise order and the reserved `"/"` forms
  for links and byte strings; refuses floats that are not finite;
* `cbor`: CBOR with entries as stored; refuses links;
* `dag-cbor`: CBOR with map keys ordered by length, then bytewise; refuses links, then
  floats that are not finite;
* `debug`: the indented dump, which writes anything.

A registry is an ordered list of codecs; registering one replaces any of the same name
and puts it last. A token selects an encoder: it is trimmed, the empty token stands for
`codec:json`, `debug` is always available, and otherwise it must be `codec:` followed by
a registered name or by `0x`/`0X` and a hexadecimal multicodec code.
-/

namespace Ipld

/-- The encoders. -/
inductive Encoder
  | json
  | dagJson
  | cbor
  | dagCbor
  | debug
  deriving DecidableEq, Inhabited, Repr

namespace Encoder

/-- The name of an encoder. -/
def name : Encoder → String
  | json => "json"
  | dagJson => "dag-json"
  | cbor => "cbor"
  | dagCbor => "dag-cbor"
  | debug => "debug"

/-- The multicodec code, for the codecs that have one. -/
def code? : Encoder → Option Nat
  | json => some 0x0200
  | dagJson => some 0x0129
  | cbor => some 0x51
  | dagCbor => some 0x71
  | debug => none

/-- Whether the output is text meant for a terminal. -/
def isText : Encoder → Bool
  | cbor | dagCbor => false
  | _ => true

/-- The codecs, in their standard registration order. -/
def codecs : List Encoder := [json, dagJson, cbor, dagCbor]

/-- The codec with the given name. -/
def codecOfName? (s : String) : Option Encoder := codecs.find? (·.name == s)

end Encoder

/-- Why an encoder refuses a value. -/
inductive EncodeError
  /-- The codec has no form for values of this kind. -/
  | unsupported (codec : String) (kind : Kind)
  /-- The codec has no form for this float. -/
  | nonFinite (codec : String) (value : Binary64)
  deriving Inhabited

/-- The text of an encoding failure. -/
def EncodeError.message : EncodeError → String
  | .unsupported codec kind => codec ++ " cannot encode " ++ kind.name ++ " values"
  | .nonFinite codec value => codec ++ " cannot encode non-finite float " ++ value.toText

/-- The output of an encoder. -/
inductive Encoded
  /-- Text, from the text encoders. -/
  | text (s : String)
  /-- Bytes, from the binary codecs. -/
  | binary (bytes : List UInt8)
  deriving Inhabited, BEq

/-- The bytes of an output. -/
def Encoded.bytes : Encoded → List UInt8
  | .text s => s.toUTF8.toList
  | .binary bs => bs

namespace Encoder

/-- Refuse the first of `kinds` that occurs anywhere in the value. -/
def rejectKinds (codec : String) (n : Node) : List Kind → Except EncodeError Unit
  | [] => pure ()
  | k :: rest => if n.contains k then throw (.unsupported codec k) else rejectKinds codec n rest

/-- Refuse a value holding a float that is not finite. -/
def rejectNonFinite (codec : String) (n : Node) : Except EncodeError Unit :=
  match n.firstNonFinite with
  | some x => throw (.nonFinite codec x)
  | none => pure ()

/-- Encode a value. -/
def encode (e : Encoder) (n : Node) : Except EncodeError Encoded :=
  match e with
  | json => do
    rejectKinds "json" n [.bytes, .link]
    rejectNonFinite "json" n
    pure (.text (Json.pretty 0 n.toJsonPlain))
  | dagJson => do
    rejectNonFinite "dag-json" n
    pure (.text (Json.compact (n.sortMaps bytewiseLe).toDagJson))
  | cbor => do
    rejectKinds "cbor" n [.link]
    pure (.binary (Cbor.encode n))
  | dagCbor => do
    rejectKinds "dag-cbor" n [.link]
    rejectNonFinite "dag-cbor" n
    pure (.binary (Cbor.encode (n.sortMaps lengthFirstLe)))
  | debug => pure (.text (n.dump 0))

end Encoder

/-- An ordered collection of codecs. -/
structure Registry where
  /-- The registered codecs, in registration order. -/
  encoders : List Encoder
  deriving Inhabited

namespace Registry

/-- No codecs. -/
def empty : Registry := ⟨[]⟩

/-- json, dag-json, cbor and dag-cbor. -/
def standard : Registry := ⟨Encoder.codecs⟩

/-- Add a codec last, dropping any registered under the same name. -/
def register (r : Registry) (e : Encoder) : Registry :=
  ⟨r.encoders.filter (·.name != e.name) ++ [e]⟩

/-- The first codec with this name. -/
def byName (r : Registry) (s : String) : Option Encoder := r.encoders.find? (·.name == s)

/-- The first codec with this multicodec code. -/
def byCode (r : Registry) (c : Nat) : Option Encoder := r.encoders.find? (·.code? == some c)

/-- The names of the registered codecs. -/
def names (r : Registry) : List String := r.encoders.map (·.name)

end Registry

/-- A token that selects no encoder, for the command-line argument `argument`. -/
structure Unrecognized where
  /-- The argument the token was given for. -/
  argument : String
  /-- The part of the token that named nothing. -/
  token : String
  deriving Inhabited

/-- Read an unsigned 64-bit number in hexadecimal: an optional `+`, then one or more hex
digits of either case. -/
def readHex64 (cs : List Char) : Option Nat :=
  let ds := match cs with
    | '+' :: rest => rest
    | _ => cs
  if ds.isEmpty then none
  else
    let v := ds.foldl (fun acc c => acc.bind fun a => (ByteText.hexValue c).map (a * 16 + ·))
      (some 0)
    v.bind fun n => if n < Nat.pow 2 64 then some n else none

/-- Resolve a token for the argument named `argument`. -/
def Registry.select (r : Registry) (argument token : String) : Except Unrecognized Encoder :=
  let t := Text.trimBlank token
  let t := if t.isEmpty then "codec:json" else t
  if t == "debug" then pure .debug
  else if t.startsWith "codec:" then
    let name := String.ofList (t.toList.drop 6)
    let found := if name.startsWith "0x" || name.startsWith "0X" then
        (readHex64 (name.toList.drop 2)).bind r.byCode
      else r.byName name
    match found with
    | some e => pure e
    | none => throw ⟨argument, name⟩
  else throw ⟨argument, t⟩

end Ipld
