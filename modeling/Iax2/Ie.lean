import Iax2.Lib.Bytes
import Iax2.Consts

/-!
# Information elements

Pure encoding and decoding of the elements of a command frame: `[kind][len][data]`, one byte each
for the kind and the length.

`encode` writes the low byte of the length, as a release build does: the assertion that no element
exceeds 255 bytes is a debug assertion. `decode` refuses a buffer whose last element is cut off.
-/

namespace Iax2

/-- One information element: its kind and its raw data. -/
structure Ie where
  kind : UInt8
  data : Bytes
  deriving DecidableEq, Repr

namespace Ie

/-- An element with a 16-bit value. -/
def u16 (kind : UInt8) (v : UInt16) : Ie := ⟨kind, Bytes.be16 v⟩

/-- An element with a 32-bit value. -/
def u32 (kind : UInt8) (v : UInt32) : Ie := ⟨kind, Bytes.be32 v⟩

/-- A text element. -/
def str (kind : UInt8) (s : String) : Ie := ⟨kind, Bytes.ofText s⟩

/-- An element without data, such as the CALLTOKEN that only announces support. -/
def empty (kind : UInt8) : Ie := ⟨kind, []⟩

/-- The data as text, ill-formed parts replaced. -/
def asStr (e : Ie) : String := Bytes.ofUtf8Lossy e.data

/-- The data as a 16-bit value, if it is two bytes long. -/
def asU16 (e : Ie) : Option UInt16 :=
  match e.data with
  | [a, b] => some (Bytes.ofBe16 a b)
  | _ => none

/-- The data as a 32-bit value, if it is four bytes long. -/
def asU32 (e : Ie) : Option UInt32 :=
  match e.data with
  | [a, b, c, d] => some (Bytes.ofBe32 a b c d)
  | _ => none

/-- The bytes of one element. -/
def bytes (e : Ie) : Bytes := e.kind :: UInt8.ofNat e.data.length :: e.data

/-- The bytes of a list of elements, one after the other. -/
def encode (ies : List Ie) : Bytes := ies.flatMap bytes

/-- The reading loop: one element per round, `none` on an element that is cut off. -/
def decodeLoop : Nat → Bytes → Option (List Ie)
  | _, [] => some []
  | 0, _ :: _ => none
  | _ + 1, [_] => none
  | fuel + 1, kind :: len :: rest =>
    if rest.length < len.toNat then none
    else (decodeLoop fuel (rest.drop len.toNat)).map (⟨kind, rest.take len.toNat⟩ :: ·)

/-- The elements of a buffer. A round consumes at least two bytes, so the length of the buffer is
enough fuel. -/
def decode (buf : Bytes) : Option (List Ie) := decodeLoop buf.length buf

/-- The first element of a kind. -/
def find (ies : List Ie) (kind : UInt8) : Option Ie := ies.find? (·.kind = kind)

end Ie

end Iax2
