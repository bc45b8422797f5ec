import Iax2.Frame

/-!
# Legs

The numbering, the sequence state and the reliable window of one leg: the registration leg, or the
leg of one call.

Instants are nanoseconds since an arbitrary epoch. `now` is the instant the driver passes to an
operation, and it is the only one that deadlines and timers see. Frame timestamps come from the
clock, through `PbxClient.ts`.
-/

namespace Iax2

/-- A point in time, in nanoseconds. -/
abbrev Instant := Nat

/-- A span of time, in nanoseconds. -/
abbrev Duration := Nat

def Duration.fromMillis (n : Nat) : Duration := n * 1000000
def Duration.fromSecs (n : Nat) : Duration := n * 1000000000
def Duration.asMillis (d : Duration) : Nat := d / 1000000

/-! ## Reliability and timing parameters -/

def retxAfter : Duration := Duration.fromMillis 700
def retxMax : Nat := 5
def keepaliveEvery : Duration := Duration.fromSecs 15
/-- The anti-spam guard between two REGREQ. -/
def regGuard : Duration := Duration.fromSecs 10
/-- The pause after a refused or lost registration. -/
def regRetry : Duration := Duration.fromSecs 5

/-! ## Reserved call numbers -/

/-- The registration leg. -/
def callnoReg : UInt16 := 1
/-- The source of the keepalive POKEs. -/
def callnoKeepalive : UInt16 := 2
/-- Calls start here. -/
def callnoCallBase : UInt16 := 16
/-- The first source of the qualify PONGs, which rotate in `[base, base + span]`. -/
def callnoQualifyBase : UInt16 := 0x2000
def callnoQualifySpan : UInt16 := 0x0FFF

/-- Eight-bit serial comparison: `a` comes before `b`. -/
def seqBefore (a b : UInt8) : Bool :=
  let d := b - a
  d ≠ 0 && d < 128

/-- The 32-bit timestamp of a mini frame from its low 16 bits: of the three candidates around the
reference, the nearest one, the first of them on a tie. Without a reference, the bits as they
are. -/
def reconstructTs (last : UInt32) (ts16 : UInt16) (seen : Bool) : UInt32 :=
  if !seen then ts16.toUInt32
  else
    let high := last &&& 0xFFFF0000
    let cand := high ||| ts16.toUInt32
    let lower := cand - 0x10000
    let upper := cand + 0x10000
    let dist (c : UInt32) : Nat := ((c.toNat : Int) - (last.toNat : Int)).natAbs
    let best := if dist cand < dist lower then cand else lower
    if dist upper < dist best then upper else best

example : reconstructTs 0x0001FFF0 0x0010 true = 0x00020010 := by decide

/-! ## The reliable window -/

/-- A reliable full frame that is not acknowledged yet. -/
structure Outstanding where
  oseq : UInt8
  ts : UInt32
  bytes : Bytes
  deadline : Instant
  tries : Nat
  deriving DecidableEq, Repr

/-- Set the R bit of an encoded full frame: bit 0x80 of byte 2. -/
def setRetransmit : Bytes → Bytes
  | b0 :: b1 :: b2 :: rest => b0 :: b1 :: (b2 ||| 0x80) :: rest
  | short => short

/-- The frame as it is after one more transmission at `now`. -/
def Outstanding.resent (now : Instant) (o : Outstanding) : Outstanding :=
  { o with tries := o.tries + 1, deadline := now + retxAfter }

/-- What one pass of the retransmission loop makes of a window: the window with its new counters
and deadlines, the copies to send, and whether some frame has no tries left. -/
structure Expiry where
  window : List Outstanding
  copies : List Bytes
  exhausted : Bool

/-- The retransmission loop, the body that `retransmit_reg` and `retransmit_calls` share. -/
def expire (now : Instant) : List Outstanding → Expiry
  | [] => ⟨[], [], false⟩
  | o :: rest =>
    let e := expire now rest
    if o.deadline ≤ now then
      if retxMax ≤ o.tries then { e with window := o :: e.window, exhausted := true }
      else { e with window := o.resent now :: e.window, copies := setRetransmit o.bytes :: e.copies }
    else { e with window := o :: e.window }

/-! ## The leg -/

/-- A leg: its two call numbers, its sequence numbers and its window. -/
structure Leg where
  localNo : UInt16
  remote : UInt16
  oseq : UInt8
  iseq : UInt8
  outstanding : List Outstanding
  deriving DecidableEq, Repr

namespace Leg

def new (localNo : UInt16) : Leg :=
  { localNo, remote := 0, oseq := 0, iseq := 0, outstanding := [] }

def reset (l : Leg) : Leg := { l with remote := 0, oseq := 0, iseq := 0, outstanding := [] }

/-- Learn the remote number and the next expected number from a received full frame: the last
received number plus one. -/
def noteRecv (l : Leg) (f : FullFrame) : Leg :=
  { l with remote := if f.srcCall ≠ 0 then f.srcCall else l.remote, iseq := f.oseq + 1 }

/-- Build an outgoing full frame, consuming a number. -/
def build (l : Leg) (ts : UInt32) (ft sc : UInt8) (ies : List Ie) : FullFrame × Leg :=
  (FullFrame.new l.localNo l.remote ts l.oseq l.iseq ft sc ies, { l with oseq := l.oseq + 1 })

/-- The frame of an ACK: not reliable, consumes no number. -/
def ackFrame (l : Leg) (ts : UInt32) : FullFrame :=
  FullFrame.new l.localNo l.remote ts l.oseq l.iseq Frametype.iax Iax.ack []

def ackBytes (l : Leg) (ts : UInt32) : Bytes := (l.ackFrame ts).encode

/-- Enter a frame into the window, to be retransmitted until it is acknowledged. -/
def trackReliable (l : Leg) (f : FullFrame) (now : Instant) : Leg :=
  { l with outstanding := l.outstanding ++
      [{ oseq := f.oseq, ts := f.timestamp, bytes := f.encode, deadline := now + retxAfter,
         tries := 0 }] }

end Leg

/-- An acknowledgement covers the frame: cumulatively by number, or, from an ACK, by timestamp. -/
def Outstanding.acked (recvIseq : UInt8) (recvTs : UInt32) (isAck : Bool) (o : Outstanding) :
    Bool :=
  let ackedCumulative := seqBefore o.oseq recvIseq
  let ackedTs := isAck && o.ts = recvTs
  ackedCumulative || ackedTs

/-- Discard the acknowledged frames of the window. -/
def Leg.ackUpto (l : Leg) (recvIseq : UInt8) (recvTs : UInt32) (isAck : Bool) : Leg :=
  { l with outstanding := l.outstanding.filter fun o => !o.acked recvIseq recvTs isAck }

/-- The frame is an ACK. -/
def FullFrame.isAck (f : FullFrame) : Bool := f.frametype = Frametype.iax && f.subclass = Iax.ack

end Iax2
