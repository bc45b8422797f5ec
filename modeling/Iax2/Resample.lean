import Mathlib.Init

/-!
# The streaming resampler

Audio is resampled in blocks of `chunk` samples: the resampler of the `rubato` package takes exactly
so many in each call, and returns as many as it sees fit. `StreamResampler` puts a buffer on either
side of it, so that its caller need not mind the size of the blocks: `feed` takes what there is, and
`pull` returns what is ready.

The package is a parameter, `Rubato`. Samples are only moved around, so they are of any type.
-/

namespace Iax2

/-- The resampler of the `rubato` package, for one channel. -/
structure Rubato (F : Type) where
  State : Type
  /-- `SincFixedIn::new`, with the parameters of the sinc filter that the client uses: for the two
  rates and the size of a block -/
  make : (fromRate toRate : UInt32) → (chunk : Nat) → Option State
  /-- `process`, for one block: the state after it, and the samples, or `none` on an error -/
  process : State → List F → State × Option (List F)

/-- A resampler with its buffers: samples that wait for their block to fill, and samples that wait
for the caller. `scratch` holds the block in work. -/
structure StreamResampler {F : Type} (R : Rubato F) where
  rs : R.State
  chunk : Nat
  inBuf : List F
  outBuf : List F
  scratch : List F

namespace StreamResampler

variable {F : Type} {R : Rubato F}

/-- A resampler for blocks of `chunk` samples. The source panics where this is `none`. -/
def new (R : Rubato F) (fromRate toRate : UInt32) (chunk : Nat) : Option (StreamResampler R) :=
  (R.make fromRate toRate chunk).map fun rs =>
    { rs, chunk, inBuf := [], outBuf := [], scratch := [] }

/-- A resampler for blocks of 10 ms, and at least 128 samples. -/
def forRates (R : Rubato F) (fromRate toRate : UInt32) : Option (StreamResampler R) :=
  let chunk := max (fromRate.toNat / 100) 128
  new R fromRate toRate chunk

/-- Take samples. -/
def feed (s : StreamResampler R) (samples : List F) : StreamResampler R :=
  { s with inBuf := s.inBuf ++ samples }

/-- The loop of `pull`: one block per round. On an error it stops, and the block is lost. -/
def pullLoop : Nat → StreamResampler R → StreamResampler R
  | 0, s => s
  | fuel + 1, s =>
    if s.chunk ≤ s.inBuf.length then
      let s := { s with scratch := s.inBuf.take s.chunk, inBuf := s.inBuf.drop s.chunk }
      match R.process s.rs s.scratch with
      | (rs, some res) => pullLoop fuel { s with rs, outBuf := s.outBuf ++ res }
      | (rs, none) => { s with rs }
    else s

/-- Append what is ready to `out`. A round takes a block, so with blocks that are not empty the
samples that wait are enough fuel. -/
def pull (s : StreamResampler R) (out : List F) : StreamResampler R × List F :=
  let s := pullLoop s.inBuf.length s
  ({ s with outBuf := [] }, out ++ s.outBuf)

/-- What a caller does. -/
inductive Op (F : Type)
  | feed (samples : List F)
  | pull

/-- A caller that appends all it pulls to one list. -/
def drive (s : StreamResampler R) (out : List F) : List (Op F) → StreamResampler R × List F
  | [] => (s, out)
  | .feed samples :: ops => drive (s.feed samples) out ops
  | .pull :: ops =>
    let (s, out) := s.pull out
    drive s out ops

/-- The samples that a caller feeds, over all its calls. -/
def fed : List (Op F) → List F
  | [] => []
  | .feed samples :: ops => samples ++ fed ops
  | .pull :: ops => fed ops

end StreamResampler

end Iax2
