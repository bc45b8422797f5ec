import Iax2.G711
import Iax2.Jitter
import Iax2.Lib.DropOldest
import Iax2.Lib.Run
import Iax2.Resample
import Mathlib.Data.List.Defs
import Mathlib.Data.Rat.Floor

/-!
# Microphone and loudspeaker

The audio of the device, at its own rate, on one side, and frames of G.711 at 8 kHz on the other.
Between them stand two queues, one in each direction, that drop their oldest samples when they are
full, and a resampler behind each queue.

The device calls back from a thread of its own: `capture` hands in a frame of the microphone, one
sample for each channel, and `render` asks for frames for the loudspeaker. The main loop takes
captured frames (`takeFrames8k`), plays (`playUlaw`, `playPcm8k`) and flushes. Each queue has a lock
of its own that is held for one of these steps at a time, so the interleavings of the threads are
the lists of `AudioOp`.

The samples of the device are `f32`. Nothing here depends on how the operations on them round, so
they are of any type with these operations (`F32`).
-/

namespace Iax2

/-- The operations on `f32` that the audio uses. -/
class F32 (F : Type) extends Zero F where
  /-- `v as f32 / 32768.0` -/
  ofInt16 : Int16 → F
  /-- `(v.clamp(-1.0, 1.0) * 32767.0) as i16` -/
  toInt16 : F → Int16
  /-- `frame.iter().sum::<f32>() / ch as f32` -/
  mean : List F → UInt16 → F

instance : F32 Float32 where
  ofInt16 v := Float32.ofInt v.toInt / 32768
  toInt16 v := ((if v < -1 then -1 else if 1 < v then 1 else v) * 32767).toInt16
  mean frame ch := frame.foldl (· + ·) 0 / Float32.ofNat ch.toNat

instance : F32 ℚ where
  ofInt16 v := v.toInt / 32768
  toInt16 v :=
    let scaled := max (-1) (min v 1) * 32767
    Int16.ofInt (if 0 ≤ scaled then ⌊scaled⌋ else ⌈scaled⌉)
  mean frame ch := frame.sum / ch.toNat

/-- The rate of IAX and G.711. -/
def sampleRate : UInt32 := 8000
/-- The cap on what waits to be played, in milliseconds. -/
def playCapMs : UInt32 := 200
/-- The cap on what waits after the microphone, in samples. -/
def capCap : Nat := 48000

/-- The audio of a device. The queues hold one sample for all channels. -/
structure AudioIo {F : Type} (R : Rubato F) where
  capQ : List F
  playQ : List F
  playCap : Nat
  capRs : StreamResampler R
  playRs : StreamResampler R
  /-- captured samples that wait for their frame to fill -/
  capAcc : List Int16
  inRate : UInt32
  outRate : UInt32
  inCh : UInt16
  outCh : UInt16

namespace AudioIo

variable {F : Type} [F32 F] {R : Rubato F}

/-- The audio of a device with these rates and channels. The source panics where this is `none`. -/
def new (R : Rubato F) (inRate : UInt32) (inCh : UInt16) (outRate : UInt32) (outCh : UInt16) :
    Option (AudioIo R) := do
  let capRs ← StreamResampler.forRates R inRate sampleRate
  let playRs ← StreamResampler.forRates R sampleRate outRate
  return {
    capQ := []
    playQ := []
    playCap := (outRate * playCapMs / 1000).toNat * outCh.toNat
    capRs, playRs
    capAcc := []
    inRate, outRate, inCh, outCh }

/-! ## The main loop -/

/-- The loop of `take_frames_8k`, with `fuel` rounds left: the frames, and what is left over. -/
def framesLoop (frameLen : Nat) : Nat → List Int16 → List (List Int16) × List Int16
  | 0, acc => ([], acc)
  | fuel + 1, acc =>
    if frameLen ≤ acc.length then
      let (frames, left) := framesLoop frameLen fuel (acc.drop frameLen)
      (acc.take frameLen :: frames, left)
    else ([], acc)

/-- Take the captured frames of `frameLen` samples at 8 kHz. A round takes a frame, so with frames
that are not empty the samples are enough fuel. -/
def takeFrames8k (a : AudioIo R) (frameLen : Nat) : List (List Int16) × AudioIo R :=
  let (capRs, out8k) := (a.capRs.feed a.capQ).pull []
  let acc := a.capAcc ++ out8k.map F32.toInt16
  let (frames, left) := framesLoop frameLen acc.length acc
  (frames, { a with capQ := [], capRs, capAcc := left })

/-- Play samples at 8 kHz. What does not fit pushes the oldest samples out. -/
def playPcm8k (a : AudioIo R) (pcm : List Int16) : AudioIo R :=
  if pcm = [] then a
  else
    let (playRs, out) := (a.playRs.feed (pcm.map F32.ofInt16)).pull []
    { a with playRs, playQ := DropOldest.put a.playCap a.playQ out }

/-- Play a payload. -/
def playUlaw (a : AudioIo R) (ulaw : Bytes) : AudioIo R :=
  if ulaw = [] then a else a.playPcm8k (G711.decodeBlock ulaw [])

/-- Empty the queues. What waits in the resamplers stays. -/
def flush (a : AudioIo R) : AudioIo R := { a with capQ := [], playQ := [], capAcc := [] }

/-! ## The threads of the device -/

/-- A frame of the microphone: the channels are mixed down. -/
def capture (a : AudioIo R) (frame : List F) : AudioIo R :=
  { a with capQ := DropOldest.put capCap a.capQ [F32.mean frame a.inCh] }

/-- A call back of the microphone, with samples of `f32`. -/
def captureF32 (a : AudioIo R) (data : List F) : AudioIo R :=
  (data.toChunks a.inCh.toNat).foldl capture a

/-- A call back of the microphone, with samples of `i16`. -/
def captureI16 (a : AudioIo R) (data : List Int16) : AudioIo R :=
  (data.toChunks a.inCh.toNat).foldl (fun a frame => a.capture (frame.map F32.ofInt16)) a

/-- The loop of the call back of the loudspeaker: a sample for each frame, from the queue as long as
it lasts. -/
def renderLoop : Nat → List F → List F × List F
  | 0, q => ([], q)
  | frames + 1, q =>
    let (out, left) := renderLoop frames q.tail
    (q.headD 0 :: out, left)

/-- A call back of the loudspeaker for a number of frames: the sample of each frame. -/
def render (a : AudioIo R) (frames : Nat) : List F × AudioIo R :=
  let (out, playQ) := renderLoop frames a.playQ
  (out, { a with playQ })

/-- The buffer of a call back, of `len` samples: the channels of a frame are all the same. -/
def renderF32 (a : AudioIo R) (len : Nat) : List F × AudioIo R :=
  let (out, a) := a.render ((len + a.outCh.toNat - 1) / a.outCh.toNat)
  ((out.flatMap fun s => List.replicate a.outCh.toNat s).take len, a)

def renderI16 (a : AudioIo R) (len : Nat) : List Int16 × AudioIo R :=
  let (out, a) := a.renderF32 len
  (out.map F32.toInt16, a)

end AudioIo

/-- The steps of the threads. -/
inductive AudioOp (F : Type)
  | takeFrames
  | playPcm (pcm : List Int16)
  | playUlaw (ulaw : Bytes)
  | flush
  | capture (frame : List F)
  | render (frames : Nat)
  deriving Repr

/-- The samples of a frame of G.711, 20 ms. -/
def frameSamples : Nat := 160

namespace AudioIo

variable {F : Type} [F32 F] {R : Rubato F}

/-- The state after a step. -/
def apply (a : AudioIo R) : AudioOp F → AudioIo R
  | .takeFrames => (a.takeFrames8k frameSamples).2
  | .playPcm pcm => a.playPcm8k pcm
  | .playUlaw ulaw => a.playUlaw ulaw
  | .flush => a.flush
  | .capture frame => a.capture frame
  | .render frames => (a.render frames).2

/-- The audio as a transition system. -/
def system (R : Rubato F) (inRate : UInt32) (inCh : UInt16) (outRate : UInt32) (outCh : UInt16) :
    System (AudioIo R) (AudioOp F) where
  init a := new R inRate inCh outRate outCh = some a
  step a op a' := a' = a.apply op

end AudioIo

end Iax2
