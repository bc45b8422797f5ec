import Iax2.Ie

/-!
# Frames

Full frames and mini frames, pure encoding and decoding.

A full frame is `[F|src_call:15][R|dst_call:15][timestamp:32][oseq:8][iseq:8][frametype:8]
[C|subclass:7]` and a body. The body is a list of information elements, or raw payload for the
media frame types: the reading of the body forks on the frame type. A mini frame is
`[0|src_call:15][timestamp:16]` and payload.
-/

namespace Iax2

def fullFrameBit : UInt16 := 0x8000
def retransmitBit : UInt16 := 0x8000
def callMask : UInt16 := 0x7FFF
def subclassCBit : UInt8 := 0x80

/-- The frame types whose body is raw payload. -/
def isMedia (frametype : UInt8) : Bool :=
  frametype = Frametype.dtmf || frametype = Frametype.voice || frametype = Frametype.video ||
    frametype = Frametype.text || frametype = Frametype.image || frametype = Frametype.html ||
    frametype = Frametype.cng

/-- A full frame. `ies` is for the command frame types, `mediaPayload` for the media frame types
of received frames. -/
structure FullFrame where
  srcCall : UInt16
  dstCall : UInt16
  retransmit : Bool
  timestamp : UInt32
  oseq : UInt8
  iseq : UInt8
  frametype : UInt8
  subclass : UInt8
  ies : List Ie
  mediaPayload : Bytes
  deriving DecidableEq, Repr

namespace FullFrame

/-- A frame to send: first transmission, no payload. -/
def new (srcCall dstCall : UInt16) (timestamp : UInt32) (oseq iseq frametype subclass : UInt8)
    (ies : List Ie) : FullFrame :=
  { srcCall, dstCall, retransmit := false, timestamp, oseq, iseq, frametype, subclass, ies,
    mediaPayload := [] }

/-- The twelve bytes before the body. The C bit is clear: the subclass is its value. -/
def header (f : FullFrame) : Bytes :=
  let src := fullFrameBit ||| (f.srcCall &&& callMask)
  let dst := f.dstCall &&& callMask
  let dst := if f.retransmit then dst ||| retransmitBit else dst
  Bytes.be16 src ++ Bytes.be16 dst ++ Bytes.be32 f.timestamp ++
    [f.oseq, f.iseq, f.frametype, f.subclass &&& 0x7F]

/-- A command frame: header and elements. -/
def encode (f : FullFrame) : Bytes := f.header ++ Ie.encode f.ies

/-- A media frame: header and raw payload. -/
def encodeMedia (f : FullFrame) (payload : Bytes) : Bytes := f.header ++ payload

/-- Read a full frame. `none` on fewer than twelve bytes, on a mini frame, and on elements that
are cut off. -/
def decode : Bytes → Option FullFrame
  | b0 :: b1 :: b2 :: b3 :: b4 :: b5 :: b6 :: b7 :: b8 :: b9 :: b10 :: b11 :: body =>
    let w0 := Bytes.ofBe16 b0 b1
    let w1 := Bytes.ofBe16 b2 b3
    if w0 &&& fullFrameBit = 0 then none
    else
      let frame (ies : List Ie) (mediaPayload : Bytes) : FullFrame :=
        { srcCall := w0 &&& callMask
          dstCall := w1 &&& callMask
          retransmit := w1 &&& retransmitBit ≠ 0
          timestamp := Bytes.ofBe32 b4 b5 b6 b7
          oseq := b8
          iseq := b9
          frametype := b10
          subclass := b11 &&& ~~~subclassCBit
          ies
          mediaPayload }
      if isMedia b10 then some (frame [] body)
      else (Ie.decode body).map (frame · [])
  | _ => none

end FullFrame

/-- A mini frame: the audio that follows a full VOICE frame. -/
structure MiniFrame where
  srcCall : UInt16
  timestamp16 : UInt16
  payload : Bytes
  deriving DecidableEq, Repr

namespace MiniFrame

def encode (m : MiniFrame) : Bytes :=
  Bytes.be16 (m.srcCall &&& callMask) ++ Bytes.be16 m.timestamp16 ++ m.payload

/-- Read a mini frame. `none` on fewer than four bytes and on a full frame. -/
def decode : Bytes → Option MiniFrame
  | b0 :: b1 :: b2 :: b3 :: payload =>
    let w0 := Bytes.ofBe16 b0 b1
    if w0 &&& fullFrameBit ≠ 0 then none
    else some { srcCall := w0 &&& callMask, timestamp16 := Bytes.ofBe16 b2 b3, payload }
  | _ => none

end MiniFrame

/-- The F bit of the first word, on at least two bytes. -/
def isFullFrame (buf : Bytes) : Bool :=
  match buf with
  | b0 :: _ :: _ => b0 &&& 0x80 ≠ 0
  | _ => false

end Iax2
