import Iax2.Lib.Blocks
import Iax2.Resample

/-!
# What the streaming resampler returns

A resampler returns what its `process` returns for the complete blocks of the samples that it was
fed, in order. How the samples were cut into calls, and how often the caller pulled in between, does
not show (`cuts_do_not_matter`).

The invariant (`Driven`) is about the last pull: the samples that were fed before it are processed
as far as they fill blocks, and those that were fed after it wait behind what was left.
-/

namespace Iax2.StreamResampler

open Blocks

variable {F : Type} {R : Rubato F} {n : Nat}

/-- The package processes every block of `n` samples. -/
def Succeeds (R : Rubato F) (n : Nat) : Prop :=
  ∀ st samples, samples.length = n → (R.process st samples).2.isSome

/-- The state of the package after a list of blocks, and what it returned for them. -/
def processed (R : Rubato F) : R.State → List (List F) → R.State × List F :=
  mapAccum fun st samples =>
    let (st', res) := R.process st samples
    (st', res.getD [])

/-- A round of the loop of a pull, if the package returns `res` for the block. -/
def round (s : StreamResampler R) (res : List F) : StreamResampler R :=
  { s with
    rs := (R.process s.rs (s.inBuf.take s.chunk)).1
    inBuf := s.inBuf.drop s.chunk
    outBuf := s.outBuf ++ res
    scratch := s.inBuf.take s.chunk }

/-- A resampler whose package has processed the complete blocks of what waits. -/
def advanced (s : StreamResampler R) (scratch : List F) : StreamResampler R :=
  { s with
    rs := (processed R s.rs (blocks s.chunk s.inBuf)).1
    inBuf := rest s.chunk s.inBuf
    outBuf := s.outBuf ++ (processed R s.rs (blocks s.chunk s.inBuf)).2
    scratch }

theorem pullLoop_round {s : StreamResampler R} {res : List F} (full : s.chunk ≤ s.inBuf.length)
    (hres : (R.process s.rs (s.inBuf.take s.chunk)).2 = some res) (fuel : Nat) :
    pullLoop (fuel + 1) s = pullLoop fuel (s.round res) := by
  have returned : R.process s.rs (s.inBuf.take s.chunk) =
      ((R.process s.rs (s.inBuf.take s.chunk)).1, some res) := Prod.ext rfl hres
  rw [pullLoop, if_pos full]
  simp only
  rw [returned]
  rfl

/-- Less than a block is left as it is. -/
theorem advanced_of_lt {s : StreamResampler R} (short : s.inBuf.length < s.chunk) :
    s.advanced s.scratch = s := by
  simp only [advanced, blocks_of_lt short, rest_of_lt short, processed, mapAccum, List.append_nil]

/-- A round is the first of the blocks. -/
theorem advanced_round {s : StreamResampler R} {res : List F} (pos : 0 < s.chunk)
    (full : s.chunk ≤ s.inBuf.length)
    (hres : (R.process s.rs (s.inBuf.take s.chunk)).2 = some res) (scratch : List F) :
    (s.round res).advanced scratch = s.advanced scratch := by
  have length : (s.inBuf.take s.chunk).length = s.chunk := List.length_take_of_le full
  have first : blocks s.chunk (s.inBuf.take s.chunk ++ s.inBuf.drop s.chunk) =
      s.inBuf.take s.chunk :: blocks s.chunk (s.inBuf.drop s.chunk) :=
    blocks_append_block pos length
  have left : rest s.chunk (s.inBuf.take s.chunk ++ s.inBuf.drop s.chunk) =
      rest s.chunk (s.inBuf.drop s.chunk) := rest_append_block pos length
  rw [List.take_append_drop] at first left
  simp only [advanced, round, first, left, processed, mapAccum, hres, Option.getD_some,
    List.append_assoc]

/-- The loop of a pull processes the complete blocks of what waits. -/
theorem pullLoop_eq {fuel : Nat} {s : StreamResampler R} (succeeds : Succeeds R s.chunk)
    (pos : 0 < s.chunk) (enough : s.inBuf.length ≤ fuel) :
    ∃ scratch, pullLoop fuel s = s.advanced scratch := by
  induction fuel generalizing s with
  | zero => exact ⟨s.scratch, (advanced_of_lt (Nat.lt_of_le_of_lt enough pos)).symm⟩
  | succ fuel ih =>
    by_cases full : s.chunk ≤ s.inBuf.length
    · obtain ⟨res, hres⟩ := Option.isSome_iff_exists.mp
        (succeeds s.rs (s.inBuf.take s.chunk) (List.length_take_of_le full))
      have shorter : (s.round res).inBuf.length ≤ fuel := by
        show (s.inBuf.drop s.chunk).length ≤ fuel
        rw [List.length_drop]
        omega
      obtain ⟨scratch, rounds⟩ := ih (s := s.round res) succeeds pos shorter
      exact ⟨scratch, (pullLoop_round full hres fuel).trans
        (rounds.trans (advanced_round pos full hres scratch))⟩
    · refine ⟨s.scratch, ?_⟩
      rw [pullLoop, if_neg full, advanced_of_lt (Nat.not_le.mp full)]

/-- The caller has fed `samples` in all, and pulled `out`: the package has processed the blocks of
what was fed before the last pull, and what was fed since then waits. -/
structure Driven (R : Rubato F) (n : Nat) (rs : R.State) (samples out : List F)
    (s : StreamResampler R) : Prop where
  chunk : s.chunk = n
  outBuf : s.outBuf = []
  split : ∃ before since, samples = before ++ since ∧ s.inBuf = rest n before ++ since ∧
    (s.rs, out) = processed R rs (blocks n before)

theorem Driven.new {s : StreamResampler R} (chunk : s.chunk = n) (inBuf : s.inBuf = [])
    (outBuf : s.outBuf = []) (pos : 0 < n) : Driven R n s.rs [] [] s where
  chunk := chunk
  outBuf := outBuf
  split := ⟨[], [], rfl, by rw [inBuf, rest_of_lt pos]; rfl, by rw [blocks_of_lt pos]; rfl⟩

theorem Driven.feed {rs : R.State} {samples out : List F} {s : StreamResampler R}
    (h : Driven R n rs samples out s) (more : List F) :
    Driven R n rs (samples ++ more) out (s.feed more) where
  chunk := h.chunk
  outBuf := h.outBuf
  split := by
    obtain ⟨before, since, whole, waits, done⟩ := h.split
    refine ⟨before, since ++ more, ?_, ?_, done⟩
    · rw [whole, List.append_assoc]
    · show s.inBuf ++ more = _
      rw [waits, List.append_assoc]

/-- A pull brings the package up to date. -/
theorem Driven.pull (succeeds : Succeeds R n) (pos : 0 < n) {rs : R.State} {samples out : List F}
    {s : StreamResampler R} (h : Driven R n rs samples out s) :
    Driven R n rs samples (s.pull out).2 (s.pull out).1 ∧
      (s.pull out).2 = (processed R rs (blocks n samples)).2 ∧
      (s.pull out).1.inBuf = rest n samples := by
  obtain ⟨before, since, whole, waits, done⟩ := h.split
  obtain rfl := h.chunk
  obtain ⟨scratch, loop⟩ := pullLoop_eq succeeds pos (Nat.le_refl _)
  have done : processed R rs (blocks s.chunk samples) =
      ((s.advanced scratch).rs, out ++ (s.advanced scratch).outBuf) := by
    have onward : blocks s.chunk samples = blocks s.chunk before ++ blocks s.chunk s.inBuf := by
      rw [whole, waits, blocks_append pos]
    rw [onward, processed, mapAccum_append, ← processed, ← done]
    simp only [advanced, h.outBuf, List.nil_append]
  have left : (s.advanced scratch).inBuf = rest s.chunk samples := by
    show rest s.chunk s.inBuf = _
    rw [whole, waits, ← rest_append pos]
  have pulled : s.pull out = ({ s.advanced scratch with outBuf := [] },
      out ++ (s.advanced scratch).outBuf) := by
    rw [StreamResampler.pull, loop]
  rw [pulled]
  refine ⟨⟨rfl, rfl, samples, [], (List.append_nil _).symm, ?_, done.symm⟩, ?_, left⟩
  · rw [List.append_nil]
    exact left
  · rw [done]

/-- Every call of the caller keeps the invariant. -/
theorem Driven.drive (succeeds : Succeeds R n) (pos : 0 < n) {rs : R.State} {samples out : List F}
    {s : StreamResampler R} (h : Driven R n rs samples out s) (ops : List (Op F)) :
    Driven R n rs (samples ++ fed ops) (s.drive out ops).2 (s.drive out ops).1 := by
  induction ops generalizing samples out s with
  | nil => exact (List.append_nil samples).symm ▸ h
  | cons op ops ih =>
    cases op with
    | feed more =>
      rw [fed, ← List.append_assoc]
      exact ih (h.feed more)
    | pull => exact ih (h.pull succeeds pos).1

theorem drive_append (s : StreamResampler R) (out : List F) (ops ops' : List (Op F)) :
    s.drive out (ops ++ ops') = (s.drive out ops).1.drive (s.drive out ops).2 ops' := by
  induction ops generalizing s out with
  | nil => rfl
  | cons op ops ih => cases op <;> exact ih _ _

/-- What a caller has pulled after its last call, a pull, and what then waits. -/
theorem drive_pull (succeeds : Succeeds R n) (pos : 0 < n) {rs : R.State} {s : StreamResampler R}
    (h : Driven R n rs [] [] s) (ops : List (Op F)) :
    (s.drive [] (ops ++ [.pull])).2 = (processed R rs (blocks n (fed ops))).2 ∧
      (s.drive [] (ops ++ [.pull])).1.inBuf = rest n (fed ops) := by
  rw [drive_append]
  exact ((h.drive succeeds pos ops).pull succeeds pos).2

/-- A new resampler, before the first call. -/
theorem Driven.of_new {chunk : Nat} {fromRate toRate : UInt32} {s : StreamResampler R}
    (made : StreamResampler.new R fromRate toRate chunk = some s) (pos : 0 < chunk) :
    Driven R chunk s.rs [] [] s := by
  obtain ⟨rs, _, rfl⟩ := Option.map_eq_some_iff.mp made
  exact .new rfl rfl rfl pos

/-- A resampler of `for_rates`, whose blocks are never empty, loses no sample: the blocks that the
package got, and then the samples that wait, are what the caller fed. -/
theorem forRates_complete {fromRate toRate : UInt32} {s : StreamResampler R}
    (made : forRates R fromRate toRate = some s)
    (succeeds : Succeeds R (max (fromRate.toNat / 100) 128)) (ops : List (Op F)) :
    (blocks s.chunk (fed ops)).flatten ++ (s.drive [] (ops ++ [.pull])).1.inBuf = fed ops := by
  have pos : 0 < max (fromRate.toNat / 100) 128 := by omega
  have start := Driven.of_new made pos
  rw [(drive_pull succeeds pos start ops).2, start.chunk]
  exact flatten_append_rest pos (fed ops)

/-- If the package processes every block of `chunk` samples, what a caller pulls depends on the
samples that it feeds alone, and not on how it cuts them into calls and pulls in between, if only it
pulls at the end: it is what the package returns for the complete blocks, in order. The samples of
the block that is not complete wait. -/
theorem cuts_do_not_matter {chunk : Nat} (pos : 1 ≤ chunk) (succeeds : Succeeds R chunk)
    {fromRate toRate : UInt32} {s : StreamResampler R}
    (made : new R fromRate toRate chunk = some s) (ops ops' : List (Op F))
    (same : fed ops = fed ops') :
    (s.drive [] (ops ++ [.pull])).2 = (s.drive [] (ops' ++ [.pull])).2 ∧
      (s.drive [] (ops ++ [.pull])).2 = (processed R s.rs (blocks chunk (fed ops))).2 ∧
      (s.drive [] (ops ++ [.pull])).1.inBuf.length = (fed ops).length % chunk := by
  have start := Driven.of_new made pos
  obtain ⟨out, left⟩ := drive_pull succeeds pos start ops
  obtain ⟨out', _⟩ := drive_pull succeeds pos start ops'
  exact ⟨by rw [out, out', same], out, by rw [left, length_rest]⟩

/-- The package on silence, at equal rates. The filter of 128 taps looks ahead, so the first block
returns fewer samples than it takes. The state is the position of the next sample. -/
def Sample.silence : Rubato Int where
  State := Int
  make _ _ _ := some (-64)
  process position samples :=
    let ready := (samples.length - 130 - position).toNat
    (position + ready - samples.length, some (List.replicate ready 0))

/-- Two hundred samples, at once and in two halves. -/
theorem cuts_sample :
    let s : StreamResampler Sample.silence := ⟨(-64 : Int), 128, [], [], []⟩
    let half : List Int := List.replicate 100 0
    (s.drive [] [.feed half, .pull, .feed half, .pull]).2 =
        (s.drive [] [.feed (half ++ half), .pull]).2 ∧
      (s.drive [] [.feed half, .pull, .feed half, .pull]).1.inBuf.length = 72 := by
  intro s half
  have cuts := cuts_do_not_matter (s := s) (by decide) (fun _ _ _ => rfl)
    (show new Sample.silence 8000 8000 128 = some s from rfl)
    [.feed half, .pull, .feed half] [.feed (half ++ half)] (by simp [fed])
  have hundred : half.length = 100 := List.length_replicate
  have whole : (fed [.feed half, .pull, .feed half]).length = 200 := by
    simp only [fed, List.length_append, List.length_nil, hundred]
  refine ⟨cuts.1, Eq.trans cuts.2.2 ?_⟩
  rw [whole]

end Iax2.StreamResampler
