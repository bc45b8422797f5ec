import Iax2.Frame

/-!
# G.711 μ-law

A sample of 16 bits and its byte. The magnitude of a sample is clipped and biased, so that its
leading bit is one of eight: the byte has the sign, the position of the leading bit, and the four
bits below it, all inverted. The source computes in `i32`, where nothing here overflows.
-/

namespace Iax2.G711

def bias : Nat := 0x84
def clip : Nat := 32635

/-- The loop of `encode`: the position of the leading bit. -/
def exponentLoop (s : Nat) : Nat → Nat → Nat
  | 0, _ => 0
  | exponent + 1, mask =>
    if s &&& mask = 0 then exponentLoop s exponent (mask >>> 1) else exponent + 1

/-- A sample as a byte. -/
def encode (sample : Int16) : UInt8 :=
  let sign := if sample.toInt < 0 then 0x80 else 0
  let s := sample.toInt.natAbs
  let s := if clip < s then clip else s
  let s := s + bias
  let exponent := exponentLoop s 7 0x4000
  let mantissa := (s >>> (exponent + 3)) &&& 0x0F
  -- the complement of an `i32`, cut to its low byte
  ~~~ UInt8.ofNat (sign ||| (exponent <<< 4) ||| mantissa)

def expLut : List Int := [0, 132, 396, 924, 1980, 4092, 8316, 16764]

/-- A byte as a sample. -/
def decode (ulaw : UInt8) : Int16 :=
  let u := ~~~ ulaw
  let sign := u &&& 0x80
  let exponent := ((u >>> 4) &&& 0x07).toNat
  let mantissa := (u &&& 0x0F).toNat
  let sample := expLut.getD exponent 0 + (mantissa <<< (exponent + 3) : Nat)
  Int16.ofInt (if sign ≠ 0 then -sample else sample)

/-- Encode a block, behind what is in `out`. -/
def encodeBlock (pcm : List Int16) (out : Bytes) : Bytes := out ++ pcm.map encode

/-- Decode a block, behind what is in `out`. -/
def decodeBlock (ulaw : Bytes) (out : List Int16) : List Int16 := out ++ ulaw.map decode

end Iax2.G711
