import Iax2.Client.Leg
import Iax2.Lib.Ordered
import Iax2.Lib.Run
import Mathlib.Data.Rat.Floor

/-!
# The jitter buffer

Received audio frames wait here, in the order of their timestamps, until the playout clock asks for
the next one. Timestamps are milliseconds, and one `pull` is one step of `FRAME_MS` = 20 of them.

The buffer is *priming* while `playing` is false: it collects frames until they span the target
depth, and then puts the cursor `nextTs` on the oldest. While it is playing, each pull asks for the
frame at the cursor and moves the cursor one step. The target depth follows an estimate of the
arrival jitter, computed in `f64`. Nothing here depends on how these operations round, so the model
is stated over any type with them (`F64`): `Float` is the one of the source, and the rational
numbers are the one that a proof can evaluate.
-/

namespace Iax2

/-- The length of a frame in milliseconds. -/
def frameMs : UInt32 := 20
def minDepthMs : UInt32 := 40
def maxDepthMs : UInt32 := 200
/-- The depth to which the contribution of the jitter is added. -/
def baseDepthMs : UInt32 := 40
/-- How many times the estimated jitter is added: `JITTER_K`, an `f64`. -/
def jitterK : Nat := 3
/-- The cap on buffered frames. -/
def maxFrames : Nat := 100
def missBudgetThreshold : Nat := 60
def missBudgetDecayOnPlay : Nat := 3

/-- The operations of `f64` that the jitter estimate uses. -/
class F64 (F : Type) extends Zero F, Add F, Sub F, Mul F, Div F where
  /-- an integer `as f64` -/
  ofNat : Nat → F
  abs : F → F
  /-- `as u32`: cut off, saturating -/
  toUInt32 : F → UInt32

instance : F64 Float where
  ofNat := Float.ofNat
  abs := Float.abs
  toUInt32 := Float.toUInt32

instance : F64 ℚ where
  ofNat n := n
  abs q := if q < 0 then -q else q
  toUInt32 q := UInt32.ofNat (min q.floor.toNat (UInt32.size - 1))

/-- The outcome of a pull. -/
inductive Pull
  /-- a payload to decode and play -/
  | play (payload : Bytes)
  /-- the frame due is missing from a running stream: conceal the loss -/
  | conceal
  /-- priming, or drained -/
  | silence
  deriving DecidableEq, Repr

/-- The counters and gauges for the driver. -/
structure Stats where
  played : Nat
  concealed : Nat
  late : Nat
  overflow : Nat
  targetMs : UInt32
  buffered : Nat
  deriving DecidableEq, Repr

/-- The buffer. `missBudget` counts concealed frames and leaks when a frame is played. -/
structure JitterBuffer (F : Type) where
  frames : Std.ExtTreeMap UInt32 Bytes
  nextTs : UInt32
  playing : Bool
  targetMs : UInt32
  /-- the jitter estimate, in milliseconds -/
  jitter : F
  /-- timestamp and instant of the newest arrival -/
  lastArrival : Option (UInt32 × Instant)
  played : Nat
  concealed : Nat
  late : Nat
  overflow : Nat
  missBudget : Nat

namespace JitterBuffer

variable {F : Type} [F64 F]

def new : JitterBuffer F :=
  { frames := ∅
    nextTs := 0
    playing := false
    targetMs := minDepthMs
    jitter := 0
    lastArrival := none
    played := 0
    concealed := 0
    late := 0
    overflow := 0
    missBudget := 0 }

/-- Prepare for another call. The cursor and the counters stay. -/
def reset (b : JitterBuffer F) : JitterBuffer F :=
  { b with
    frames := ∅
    playing := false
    lastArrival := none
    jitter := 0
    targetMs := minDepthMs
    missBudget := 0 }

def recomputeTarget (b : JitterBuffer F) : JitterBuffer F :=
  let t := F64.ofNat baseDepthMs.toNat + F64.ofNat jitterK * b.jitter
  { b with targetMs := max minDepthMs (min (F64.toUInt32 t) maxDepthMs) }

/-- The time span of the buffered material, in milliseconds. -/
def bufferedSpanMs (b : JitterBuffer F) : UInt32 :=
  match b.frames.firstKey?, b.frames.lastKey? with
  | some lo, some hi => hi - lo + frameMs
  | _, _ => 0

def stats (b : JitterBuffer F) : Stats :=
  { played := b.played
    concealed := b.concealed
    late := b.late
    overflow := b.overflow
    targetMs := b.targetMs
    buffered := b.frames.size }

/-! ## Push -/

/-- The first part of `push`: an arrival that moves forward updates the jitter estimate by the
difference of two transit times, and the newest arrival is noted. -/
def noteArrival (b : JitterBuffer F) (ts : UInt32) (now : Instant) : JitterBuffer F :=
  let b :=
    match b.lastArrival with
    | some (prevTs, prevInst) =>
      if prevTs < ts then
        let arrivalDelta : F := F64.ofNat (Duration.asMillis (now - prevInst))
        let tsDelta : F := F64.ofNat (ts - prevTs).toNat
        let d := arrivalDelta - tsDelta
        { b with jitter := b.jitter + (F64.abs d - b.jitter) / F64.ofNat 16 }.recomputeTarget
      else b
    | none => b
  if (b.lastArrival.map (·.1)).getD 0 < ts ∨ b.lastArrival = none then
    { b with lastArrival := some (ts, now) }
  else b

/-- The frame is behind the playout cursor: too late. -/
def isLate (b : JitterBuffer F) (ts : UInt32) : Bool := b.playing && ts < b.nextTs

/-- The cursor is so far behind the stream that it will not catch up: more than twice the maximal
depth. -/
def isAhead (b : JitterBuffer F) (ts : UInt32) : Bool :=
  b.playing && decide ((maxDepthMs.toNat : Int) * 2 < (ts.toNat : Int) - (b.nextTs.toNat : Int))

/-- The loop at the end of `push`, with `fuel` rounds left: the oldest frames beyond the cap go. -/
def dropOldest : Nat → JitterBuffer F → JitterBuffer F
  | 0, b => b
  | fuel + 1, b =>
    if maxFrames < b.frames.size then
      match b.frames.firstKey? with
      | some old =>
        dropOldest fuel { b with frames := b.frames.erase old, overflow := b.overflow + 1 }
      | none => b
    else b

/-- Enter a received frame. -/
def push (b : JitterBuffer F) (ts : UInt32) (payload : Bytes) (now : Instant) : JitterBuffer F :=
  let b := b.noteArrival ts now
  if b.isLate ts then { b with late := b.late + 1 }
  else
    -- resynchronisation: prime again, with the fresh material only
    let b := if b.isAhead ts then { b with frames := ∅, playing := false } else b
    let b := { b with frames := b.frames.insert ts payload }
    dropOldest b.frames.size b

/-! ## Pull -/

/-- The buffered material covers the target depth. -/
def isPrimed (b : JitterBuffer F) : Bool := b.targetMs ≤ b.bufferedSpanMs

/-- The first part of `pull`: primed material is played from its first frame on. -/
def prime (b : JitterBuffer F) : JitterBuffer F :=
  if !b.playing && b.isPrimed then
    match b.frames.firstKey? with
    | some first => { b with nextTs := first, playing := true }
    | none => b
  else b

/-- The second part of `pull`: after too many misses the cursor jumps to the newest frame. -/
def jump (b : JitterBuffer F) : JitterBuffer F :=
  if missBudgetThreshold < b.missBudget then
    { b with
      nextTs :=
        match b.frames.lastKey? with
        | some newest => newest
        | none => b.nextTs
      missBudget := 0 }
  else b

/-- The last part of `pull`: take the frame at the cursor. -/
def takeDue (b : JitterBuffer F) : Pull × JitterBuffer F :=
  match b.frames[b.nextTs]? with
  | some payload =>
    (.play payload,
      { b with
        frames := b.frames.erase b.nextTs
        nextTs := b.nextTs + frameMs
        played := b.played + 1
        missBudget := b.missBudget - missBudgetDecayOnPlay })
  | none =>
    if b.frames.isEmpty then (.silence, { b with playing := false, missBudget := 0 })
    else
      (.conceal,
        { b with
          nextTs := b.nextTs + frameMs
          concealed := b.concealed + 1
          missBudget := b.missBudget + 1 })

/-- Take the next frame to play, a step of 20 ms. -/
def pull (b : JitterBuffer F) : Pull × JitterBuffer F :=
  let b := b.prime
  if b.playing then b.jump.takeDue else (.silence, b)

end JitterBuffer

/-! ## Runs -/

/-- The operations of the buffer. -/
inductive JitterOp
  | push (ts : UInt32) (payload : Bytes) (now : Instant)
  | pull
  | reset
  deriving DecidableEq, Repr

namespace JitterBuffer

variable {F : Type} [F64 F]

/-- The state after an operation. -/
def apply (b : JitterBuffer F) : JitterOp → JitterBuffer F
  | .push ts payload now => b.push ts payload now
  | .pull => b.pull.2
  | .reset => b.reset

/-- What an operation returns: only a pull returns something. -/
def outcome (b : JitterBuffer F) : JitterOp → Option Pull
  | .pull => some b.pull.1
  | _ => none

/-- The state after a list of operations. -/
def applyAll (b : JitterBuffer F) (ops : List JitterOp) : JitterBuffer F := ops.foldl apply b

/-- What the pulls of a list of operations return, in order. -/
def outcomes (b : JitterBuffer F) : List JitterOp → List Pull
  | [] => []
  | op :: ops => (b.outcome op).toList ++ (b.apply op).outcomes ops

variable (F)

/-- The buffer as a transition system. -/
def system : System (JitterBuffer F) JitterOp where
  init b := b = new
  step b op b' := b' = b.apply op

variable {F}

/-- One transition of a run of the buffer. -/
abbrev Move (F : Type) := Transition (JitterBuffer F) JitterOp

/-- What the operation of a transition returns. -/
def Move.outcome (t : Move F) : Option Pull := t.pre.outcome t.label

end JitterBuffer

/-! ## Sample runs

Frames that arrive on time, so that the jitter estimate stays at zero. -/

namespace JitterSample

/-- The frame of the millisecond `ms`, its slot as payload. -/
def frame (ms : Nat) : JitterOp :=
  .push (UInt32.ofNat ms) [UInt8.ofNat (ms / 20)] (Duration.fromMillis ms)

def pulls (n : Nat) : List JitterOp := List.replicate n .pull

/-- The state after a list of operations on a new buffer. -/
def after (ops : List JitterOp) : JitterBuffer ℚ := JitterBuffer.new.applyAll ops

/-- The transitions of a list of operations on a new buffer. -/
def trace (ops : List JitterOp) : List (JitterBuffer.Move ℚ) :=
  traceOf JitterBuffer.apply JitterBuffer.new [] ops

theorem run (ops : List JitterOp) : (JitterBuffer.system ℚ).Run (trace ops) (after ops) :=
  .traceOf (fun _ _ _ => rfl) ops (fun _ _ => trivial) (.start rfl)

end JitterSample

end Iax2
