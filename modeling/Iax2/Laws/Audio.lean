import Iax2.Audio
import Iax2.Laws.Resample

/-!
# What the audio keeps

The threads of the device and the main loop interleave as they like. In every interleaving the
queues keep their caps, and the account of the loudspeaker adds up (`playback_run`): what is heard is
what the resampler returned, in order, without repetitions, and gaps come from a full queue or a
flush alone. The frames that are taken from the microphone do not depend on when they are taken
(`frames_do_not_depend_on_ticks`).

A flush leaves the resamplers as they are: less than a block of each stays (`bounded_run`).
-/

namespace Iax2.AudioIo

open DropOldest Blocks StreamResampler

variable {F : Type} [F32 F] {R : Rubato F}

/-! ## A device in silence

At 8 kHz, with one channel. -/

namespace Sample

/-- The package on silence, at equal rates: the filter of 128 taps looks ahead, so the first block
returns fewer samples than it takes. -/
def silence : Rubato ℚ where
  State := Int
  make _ _ _ := some (-64)
  process position samples :=
    let ready := (samples.length - 130 - position).toNat
    (position + ready - samples.length, some (List.replicate ready 0))

def device : AudioIo silence :=
  { capQ := [], playQ := [], playCap := 1600
    capRs := ⟨(-64 : Int), 128, [], [], []⟩
    playRs := ⟨(-64 : Int), 128, [], [], []⟩
    capAcc := [], inRate := 8000, outRate := 8000, inCh := 1, outCh := 1 }

/-- A frame is played, and the device takes what is ready of it. -/
def played : List (AudioOp ℚ) := [.playPcm (List.replicate 160 0), .render 80]

/-- The microphone captures samples. -/
def captures (n : Nat) : List (AudioOp ℚ) := List.replicate n (.capture [0])

theorem run : (system silence 8000 1 8000 1).Run [] device := .start rfl

theorem run_played :
    (system silence 8000 1 8000 1).Run (traceOf apply device [] played) (played.foldl apply device) :=
  .traceOf (P := fun _ => True) (fun _ _ _ => rfl) played (fun _ _ => trivial) run

end Sample

/-! ## The loudspeaker -/

/-- The loop of a call back takes the oldest samples, and goes on with silence. -/
theorem renderLoop_eq (frames : Nat) (q : List F) :
    renderLoop frames q = (q.take frames ++ List.replicate (frames - q.length) 0, q.drop frames) := by
  induction frames generalizing q with
  | zero => simp [renderLoop]
  | succ frames ih =>
    cases q with
    | nil => simp [renderLoop, ih, List.replicate_succ]
    | cons s q => simp [renderLoop, ih]

theorem render_eq (a : AudioIo R) (frames : Nat) :
    a.render frames = (a.playQ.take frames ++ List.replicate (frames - a.playQ.length) 0,
      { a with playQ := a.playQ.drop frames }) := by
  rw [render, renderLoop_eq]

/-- The samples that a step hands over to the queue of the loudspeaker. -/
def returned (a : AudioIo R) : AudioOp F → List F
  | .playPcm pcm =>
    if pcm = [] then [] else ((a.playRs.feed (pcm.map F32.ofInt16)).pull []).2
  | .playUlaw ulaw =>
    if ulaw = [] then []
    else ((a.playRs.feed ((G711.decodeBlock ulaw []).map F32.ofInt16)).pull []).2
  | _ => []

/-- The samples that a step takes from the queue for the loudspeaker. -/
def heard (a : AudioIo R) : AudioOp F → List F
  | .render frames => a.playQ.take frames
  | _ => []

/-- The samples that a step drops, the oldest ones of a full queue or all that a flush finds. -/
def dropped (a : AudioIo R) (op : AudioOp F) : List F :=
  match op with
  | .flush => a.playQ
  | op => (a.playQ ++ a.returned op).take ((a.playQ ++ a.returned op).length - a.playCap)

/-- One transition of a run of the audio. -/
abbrev Move (R : Rubato F) := Transition (AudioIo R) (AudioOp F)

/-- All that the steps of a run gave, oldest first. -/
def along (f : AudioIo R → AudioOp F → List F) : List (Move R) → List F
  | [] => []
  | t :: past => along f past ++ f t.pre t.label

/-- The samples that wait for their frame, when frames are taken. -/
def toFrame (a : AudioIo R) : List Int16 :=
  a.capAcc ++ ((a.capRs.feed a.capQ).pull []).2.map F32.toInt16

theorem takeFrames8k_eq (a : AudioIo R) (frameLen : Nat) :
    a.takeFrames8k frameLen =
      ((framesLoop frameLen a.toFrame.length a.toFrame).1,
        { a with
          capQ := []
          capRs := ((a.capRs.feed a.capQ).pull []).1
          capAcc := (framesLoop frameLen a.toFrame.length a.toFrame).2 }) := rfl

theorem playUlaw_eq (a : AudioIo R) (ulaw : Bytes) :
    a.playUlaw ulaw = a.playPcm8k (G711.decodeBlock ulaw []) := by
  rw [playUlaw]
  split
  next none =>
    rw [none]
    rfl
  next => rfl

theorem apply_takeFrames (a : AudioIo R) :
    a.apply (AudioOp.takeFrames : AudioOp F) = (a.takeFrames8k frameSamples).2 := rfl

/-- The steps of the loudspeaker change nothing else. -/
theorem apply_play {a : AudioIo R} {op : AudioOp F}
    (play : op ≠ .takeFrames ∧ op ≠ .flush ∧ ∀ frame, op ≠ .capture frame) :
    ∃ playRs playQ, a.apply op = { a with playRs, playQ } := by
  have pcm8k (pcm : List Int16) : ∃ playRs playQ, a.playPcm8k pcm = { a with playRs, playQ } := by
    rw [playPcm8k]
    split
    · exact ⟨a.playRs, a.playQ, rfl⟩
    · exact ⟨_, _, rfl⟩
  cases op with
  | takeFrames => exact absurd rfl play.1
  | playPcm pcm => exact pcm8k pcm
  | playUlaw ulaw =>
    obtain ⟨playRs, playQ, plays⟩ := pcm8k (G711.decodeBlock ulaw [])
    exact ⟨playRs, playQ, (playUlaw_eq a ulaw).trans plays⟩
  | flush => exact absurd rfl play.2.1
  | capture frame => exact absurd rfl (play.2.2 frame)
  | render frames => exact ⟨a.playRs, _, congrArg Prod.snd (render_eq a frames)⟩

theorem apply_capture (a : AudioIo R) (frame : List F) :
    a.apply (.capture frame) =
      { a with capQ := put capCap a.capQ [F32.mean frame a.inCh] } := rfl

/-- No step changes the device. -/
theorem device_apply (a : AudioIo R) (op : AudioOp F) :
    (a.apply op).playCap = a.playCap ∧ (a.apply op).inCh = a.inCh := by
  by_cases play : op ≠ .takeFrames ∧ op ≠ .flush ∧ ∀ frame, op ≠ .capture frame
  · obtain ⟨_, _, plays⟩ := apply_play (a := a) play
    rw [plays]
    exact ⟨rfl, rfl⟩
  cases op with
  | takeFrames =>
    rw [apply_takeFrames, takeFrames8k_eq]
    exact ⟨rfl, rfl⟩
  | flush => exact ⟨rfl, rfl⟩
  | capture frame =>
    rw [apply_capture]
    exact ⟨rfl, rfl⟩
  | _ => exact absurd ⟨nofun, nofun, nofun⟩ play

omit [F32 F] in
theorem put_nil {a : AudioIo R} (fits : a.playQ.length ≤ a.playCap) :
    put a.playCap a.playQ [] = a.playQ := by
  rw [put_of_le (by simpa using fits), List.append_nil]

/-- A step other than a flush or a call back of the loudspeaker only hands samples over. -/
theorem playQ_apply {a : AudioIo R} (fits : a.playQ.length ≤ a.playCap) (op : AudioOp F)
    (other : op ≠ .flush ∧ ∀ frames, op ≠ .render frames) :
    (a.apply op).playQ = put a.playCap a.playQ (a.returned op) := by
  have pcm8k (pcm : List Int16) :
      (a.playPcm8k pcm).playQ = put a.playCap a.playQ (a.returned (.playPcm pcm)) := by
    rw [playPcm8k, returned]
    split
    · exact (put_nil fits).symm
    · rfl
  cases op with
  | takeFrames =>
    rw [apply_takeFrames, takeFrames8k_eq]
    exact (put_nil fits).symm
  | playPcm pcm => exact pcm8k pcm
  | playUlaw ulaw =>
    show (a.playUlaw ulaw).playQ = _
    have same : a.returned (.playUlaw ulaw) = a.returned (.playPcm (G711.decodeBlock ulaw [])) := by
      simp only [returned, G711.decodeBlock, List.nil_append, List.map_eq_nil_iff]
    rw [playUlaw_eq, pcm8k, same]
  | flush => exact absurd rfl other.1
  | capture frame =>
    rw [apply_capture]
    exact (put_nil fits).symm
  | render frames => exact absurd rfl (other.2 frames)

/-- The account of a step. -/
theorem playback_step {a : AudioIo R} {entered taken lost : List F}
    (h : Fates entered taken lost a.playQ) (fits : a.playQ.length ≤ a.playCap) (op : AudioOp F) :
    Fates (entered ++ a.returned op) (taken ++ a.heard op) (lost ++ a.dropped op)
        (a.apply op).playQ ∧
      (a.apply op).playQ.length ≤ a.playCap := by
  by_cases flushes : op = .flush
  · subst flushes
    simp only [returned, heard, dropped, List.append_nil]
    exact ⟨h.clear, Nat.zero_le _⟩
  by_cases renders : ∃ frames, op = .render frames
  · obtain ⟨frames, rfl⟩ := renders
    have left : (a.apply (.render frames)).playQ = a.playQ.drop frames := by
      show (a.render frames).2.playQ = _
      rw [render_eq]
    have room : a.dropped (.render frames) = [] := by
      simp only [dropped, returned, List.append_nil, Nat.sub_eq_zero_of_le fits, List.take_zero]
    have none : a.returned (.render frames) = [] := rfl
    rw [left, room, none, List.append_nil, List.append_nil]
    exact ⟨h.take frames, by rw [List.length_drop]; omega⟩
  · have other : op ≠ .flush ∧ ∀ frames, op ≠ .render frames :=
      ⟨flushes, fun frames is => renders ⟨frames, is⟩⟩
    have silent : a.heard op = [] := by
      cases op with
      | render frames => exact absurd rfl (other.2 frames)
      | _ => rfl
    have cut : a.dropped op =
        (a.playQ ++ a.returned op).take ((a.playQ ++ a.returned op).length - a.playCap) := by
      cases op with
      | flush => exact absurd rfl other.1
      | _ => rfl
    rw [playQ_apply fits op other, silent, cut, List.append_nil]
    exact ⟨h.put _ _, length_put_le _ _ _⟩

omit [F32 F] in
theorem new_eq {inRate outRate : UInt32} {inCh outCh : UInt16} {a : AudioIo R}
    (made : new R inRate inCh outRate outCh = some a) :
    ∃ capRs playRs, forRates R inRate sampleRate = some capRs ∧
      forRates R sampleRate outRate = some playRs ∧
      a = { capQ := [], playQ := [], playCap := (outRate * playCapMs / 1000).toNat * outCh.toNat
            capRs, playRs, capAcc := [], inRate, outRate, inCh, outCh } := by
  obtain ⟨capRs, hcap, made⟩ := Option.bind_eq_some_iff.mp made
  obtain ⟨playRs, hplay, made⟩ := Option.bind_eq_some_iff.mp made
  exact ⟨capRs, playRs, hcap, hplay, (Option.some.inj made).symm⟩

/-- In every interleaving of the threads, the samples that the resampler of the loudspeaker returned
are, in order, those that are heard, those that a full queue or a flush dropped, and those that wait,
and these are no more than `play_cap`. What a call back plays are the oldest of those that wait, and
silence when there are too few. -/
theorem playback_run {inRate outRate : UInt32} {inCh outCh : UInt16} {past : List (Move R)}
    {a : AudioIo R} (run : (system R inRate inCh outRate outCh).Run past a) :
    Fates (along returned past) (along heard past) (along dropped past) a.playQ ∧
      a.playQ.length ≤ (outRate * playCapMs / 1000).toNat * outCh.toNat ∧
      ∀ frames, (a.render frames).1 =
        a.heard (.render frames) ++ List.replicate (frames - a.playQ.length) 0 := by
  have account : a.playCap = (outRate * playCapMs / 1000).toNat * outCh.toNat ∧
      Fates (along returned past) (along heard past) (along dropped past) a.playQ ∧
      a.playQ.length ≤ a.playCap := by
    induction run with
    | start made =>
      obtain ⟨_, _, _, _, rfl⟩ := new_eq made
      exact ⟨rfl, .empty, Nat.zero_le _⟩
    | @step past s s' op _ step ih =>
      obtain rfl := step
      obtain ⟨cap, fates, fits⟩ := ih
      have next := playback_step fates fits op
      rw [(device_apply s op).1]
      exact ⟨cap, next⟩
  obtain ⟨cap, fates, fits⟩ := account
  refine ⟨fates, cap ▸ fits, fun frames => ?_⟩
  rw [render_eq]
  rfl

theorem playback_sample :
    Fates (along returned (traceOf apply Sample.device [] Sample.played))
        (along heard (traceOf apply Sample.device [] Sample.played))
        (along dropped (traceOf apply Sample.device [] Sample.played))
        (Sample.played.foldl apply Sample.device).playQ ∧
      (Sample.played.foldl apply Sample.device).playQ.length ≤ 1600 :=
  have playback := playback_run Sample.run_played
  ⟨playback.1, playback.2.1⟩

/-! ## The microphone -/

/-- The loop that cuts frames. -/
theorem framesLoop_blocks {frameLen fuel : Nat} {acc : List Int16} (pos : 0 < frameLen)
    (enough : acc.length ≤ fuel) :
    framesLoop frameLen fuel acc = (blocks frameLen acc, rest frameLen acc) := by
  induction fuel generalizing acc with
  | zero =>
    have short : acc.length < frameLen := by omega
    rw [framesLoop, blocks_of_lt short, rest_of_lt short]
  | succ fuel ih =>
    rw [framesLoop]
    split
    next full =>
      have length : (acc.take frameLen).length = frameLen := List.length_take_of_le full
      have whole : acc.take frameLen ++ acc.drop frameLen = acc := List.take_append_drop ..
      have first : blocks frameLen acc =
          acc.take frameLen :: blocks frameLen (acc.drop frameLen) := by
        conv_lhs => rw [← whole]
        exact blocks_append_block pos length
      have left : rest frameLen acc = rest frameLen (acc.drop frameLen) := by
        conv_lhs => rw [← whole]
        exact rest_append_block pos length
      rw [ih (by rw [List.length_drop]; omega), first, left]
    next short =>
      rw [blocks_of_lt (Nat.not_le.mp short), rest_of_lt (Nat.not_le.mp short)]

/-- Every frame is whole. -/
theorem length_of_frame {a : AudioIo R} {pcm : List Int16}
    (h : pcm ∈ (a.takeFrames8k frameSamples).1) : pcm.length = frameSamples := by
  rw [takeFrames8k_eq, framesLoop_blocks (by decide) (Nat.le_refl _)] at h
  exact length_of_mem_blocks (by decide) h

/-- The frames that a step takes. -/
def taken (a : AudioIo R) : AudioOp F → List (List Int16)
  | .takeFrames => (a.takeFrames8k frameSamples).1
  | _ => []

/-- The sample that a step captures. -/
def captured (inCh : UInt16) : AudioOp F → List F
  | .capture frame => [F32.mean frame inCh]
  | _ => []

def applyAll (a : AudioIo R) (ops : List (AudioOp F)) : AudioIo R := ops.foldl apply a

/-- The frames that a list of steps takes. -/
def takenAll : AudioIo R → List (AudioOp F) → List (List Int16)
  | _, [] => []
  | a, op :: ops => a.taken op ++ takenAll (a.apply op) ops

/-- No step is a flush, and whatever is captured finds room. -/
def Keeps : AudioIo R → List (AudioOp F) → Prop
  | _, [] => True
  | a, op :: ops =>
    op ≠ .flush ∧ a.capQ.length + (captured a.inCh op).length ≤ capCap ∧ Keeps (a.apply op) ops

instance Keeps.decidable : ∀ (a : AudioIo R) (ops : List (AudioOp F)), Decidable (a.Keeps ops)
  | _, [] => isTrue trivial
  | a, op :: ops =>
    have : Decidable (op ≠ .flush) :=
      match op with
      | .flush => isFalse fun differs => differs rfl
      | .takeFrames | .playPcm _ | .playUlaw _ | .capture _ | .render _ => isTrue nofun
    have := Keeps.decidable (a.apply op) ops
    inferInstanceAs (Decidable (_ ∧ _ ∧ _))

omit [F32 F] in
theorem pull_append {s : StreamResampler R} (out : List F) :
    s.pull out = ((s.pull []).1, out ++ (s.pull []).2) := rfl

/-- Since a state whose resampler is at `rs`, with the samples `before` in it, `samples` were
captured and `frames` were taken: the samples are in the resampler or in the queue, and what the
resampler returned is in the frames or waits for the next one. -/
structure Taking (R : Rubato F) (n : Nat) (rs : R.State) (before samples : List F)
    (frames : List (List Int16)) (a : AudioIo R) : Prop where
  split : ∃ fed out, samples = fed ++ a.capQ ∧ Driven R n rs (before ++ fed) out a.capRs ∧
    out.map F32.toInt16 = frames.flatten ++ a.capAcc
  full : ∀ frame ∈ frames, frame.length = frameSamples
  short : a.capAcc.length < frameSamples

section

variable {n : Nat} {rs : R.State} {before samples : List F} {frames : List (List Int16)}
  {a : AudioIo R}

theorem Taking.takeFrames (succeeds : Succeeds R n) (pos : 0 < n)
    (h : Taking R n rs before samples frames a) :
    Taking R n rs before samples (frames ++ a.taken .takeFrames)
        (a.apply (.takeFrames : AudioOp F)) ∧
      frames ++ a.taken (.takeFrames : AudioOp F) =
        blocks frameSamples
          ((processed R rs (blocks n (before ++ samples))).2.map F32.toInt16) := by
  obtain ⟨fed, out, whole, driven, cut⟩ := h.split
  have pulled := (driven.feed a.capQ).pull succeeds pos
  rw [List.append_assoc, ← whole, pull_append] at pulled
  obtain ⟨driven, returned, _⟩ := pulled
  have loop : framesLoop frameSamples a.toFrame.length a.toFrame =
      (blocks frameSamples a.toFrame, rest frameSamples a.toFrame) :=
    framesLoop_blocks (by decide) (Nat.le_refl _)
  have frames_eq : a.taken (.takeFrames : AudioOp F) = blocks frameSamples a.toFrame := by
    rw [taken, takeFrames8k_eq, loop]
  have left : (a.apply (.takeFrames : AudioOp F)).capAcc = rest frameSamples a.toFrame := by
    rw [apply_takeFrames, takeFrames8k_eq, loop]
  have all : (out ++ ((a.capRs.feed a.capQ).pull []).2).map F32.toInt16 =
      (frames ++ blocks frameSamples a.toFrame).flatten ++ rest frameSamples a.toFrame := by
    rw [List.flatten_append, List.append_assoc, flatten_append_rest (by decide), List.map_append,
      cut, toFrame, List.append_assoc]
  have full : ∀ frame ∈ frames ++ blocks frameSamples a.toFrame, frame.length = frameSamples := by
    intro frame mem
    rcases List.mem_append.mp mem with mem | mem
    · exact h.full frame mem
    · exact length_of_mem_blocks (by decide) mem
  have short : (rest frameSamples a.toFrame).length < frameSamples := by
    rw [length_rest]
    exact Nat.mod_lt _ (by decide)
  rw [frames_eq]
  refine ⟨⟨⟨samples, out ++ ((a.capRs.feed a.capQ).pull []).2, ?_, ?_, ?_⟩, full, ?_⟩, ?_⟩
  · rw [apply_takeFrames, takeFrames8k_eq]
    exact (List.append_nil _).symm
  · rw [apply_takeFrames, takeFrames8k_eq]
    exact driven
  · rw [left]
    exact all
  · rw [left]
    exact short
  · rw [← returned, all]
    exact (blocks_unique (by decide) full short).1.symm

/-- Every step that keeps what is captured keeps the account of the microphone. -/
theorem Taking.apply (succeeds : Succeeds R n) (pos : 0 < n)
    (h : Taking R n rs before samples frames a) {op : AudioOp F} (flushes : op ≠ .flush)
    (room : a.capQ.length + (captured a.inCh op).length ≤ capCap) :
    Taking R n rs before (samples ++ captured a.inCh op) (frames ++ a.taken op) (a.apply op) := by
  by_cases play : op ≠ .takeFrames ∧ op ≠ .flush ∧ ∀ frame, op ≠ .capture frame
  · obtain ⟨_, _, plays⟩ := apply_play (a := a) play
    have idle : captured a.inCh op = [] ∧ a.taken op = [] := by
      cases op with
      | takeFrames => exact absurd rfl play.1
      | capture frame => exact absurd rfl (play.2.2 frame)
      | _ => exact ⟨rfl, rfl⟩
    rw [idle.1, idle.2, List.append_nil, List.append_nil, plays]
    exact ⟨h.split, h.full, h.short⟩
  cases op with
  | takeFrames =>
    have none : captured a.inCh (.takeFrames : AudioOp F) = [] := rfl
    rw [none, List.append_nil]
    exact (h.takeFrames succeeds pos).1
  | flush => exact absurd rfl flushes
  | capture frame =>
    obtain ⟨fed, out, whole, driven, cut⟩ := h.split
    have queued : put capCap a.capQ [F32.mean frame a.inCh] = a.capQ ++ [F32.mean frame a.inCh] :=
      put_of_le room
    have none : a.taken (.capture frame) = [] := rfl
    rw [apply_capture, none, List.append_nil, queued]
    refine ⟨⟨fed, out, ?_, driven, cut⟩, h.full, h.short⟩
    rw [captured, whole, List.append_assoc]
  | _ => exact absurd ⟨nofun, nofun, nofun⟩ play

end

theorem Taking.applyAll {n : Nat} (succeeds : Succeeds R n) (pos : 0 < n) {rs : R.State}
    {before : List F} (ops : List (AudioOp F)) {samples : List F} {frames : List (List Int16)}
    {a : AudioIo R} (h : Taking R n rs before samples frames a) (keeps : a.Keeps ops) :
    Taking R n rs before (samples ++ ops.flatMap (captured a.inCh)) (frames ++ a.takenAll ops)
      (a.applyAll ops) := by
  induction ops generalizing a samples frames with
  | nil => simpa [takenAll, AudioIo.applyAll] using h
  | cons op ops ih =>
    obtain ⟨flushes, room, keeps⟩ := keeps
    have next := ih (h.apply succeeds pos flushes room) keeps
    rw [(device_apply a op).2, List.append_assoc, List.append_assoc] at next
    exact next

theorem takenAll_append (a : AudioIo R) (ops ops' : List (AudioOp F)) :
    a.takenAll (ops ++ ops') = a.takenAll ops ++ (a.applyAll ops).takenAll ops' := by
  induction ops generalizing a with
  | nil => rfl
  | cons op ops ih =>
    rw [List.cons_append, takenAll, takenAll, ih, List.append_assoc]
    rfl

omit [F32 F] in
/-- A resampler from which all was pulled, from where it is now. -/
theorem driven_here {s : StreamResampler R} (pulled : s.outBuf = []) (pos : 0 < s.chunk) :
    Driven R s.chunk s.rs s.inBuf [] s where
  chunk := rfl
  outBuf := pulled
  split := by
    refine ⟨[], s.inBuf, rfl, ?_, ?_⟩
    · rw [rest_of_lt pos, List.nil_append]
    · rw [blocks_of_lt pos]
      rfl

/-- After a flush nothing is captured but what the resampler holds. -/
theorem Taking.flush {a : AudioIo R} (pulled : a.capRs.outBuf = []) (pos : 0 < a.capRs.chunk) :
    Taking R a.capRs.chunk a.capRs.rs a.capRs.inBuf [] [] a.flush where
  split := by
    refine ⟨[], [], rfl, ?_, rfl⟩
    rw [List.append_nil]
    exact driven_here pulled pos
  full := nofun
  short := by show 0 < frameSamples; decide

/-! ## Bounds -/

/-- A resampler between two calls: less than a block waits. -/
structure Rested (n : Nat) (s : StreamResampler R) : Prop where
  chunk : s.chunk = n
  outBuf : s.outBuf = []
  inBuf : s.inBuf.length < n

omit [F32 F] in
theorem Rested.pull {n : Nat} {s : StreamResampler R} (succeeds : Succeeds R n) (pos : 0 < n)
    (h : Rested n s) (samples : List F) : Rested n ((s.feed samples).pull []).1 := by
  obtain rfl := h.chunk
  obtain ⟨driven, _, left⟩ := ((driven_here h.outBuf pos).feed samples).pull succeeds pos
  refine ⟨driven.chunk, driven.outBuf, ?_⟩
  rw [left, length_rest]
  exact Nat.mod_lt _ pos

omit [F32 F] in
theorem Rested.of_forRates {fromRate toRate : UInt32} {s : StreamResampler R}
    (made : forRates R fromRate toRate = some s) :
    Rested (max (fromRate.toNat / 100) 128) s := by
  obtain ⟨rs, _, rfl⟩ := Option.map_eq_some_iff.mp made
  exact ⟨rfl, rfl, by show 0 < _; omega⟩

/-- What waits in the audio between two steps. -/
structure Bounded (n m : Nat) (a : AudioIo R) : Prop where
  capQ : a.capQ.length ≤ capCap
  playQ : a.playQ.length ≤ a.playCap
  capAcc : a.capAcc.length < frameSamples
  capRs : Rested n a.capRs
  playRs : Rested m a.playRs

theorem Bounded.apply {n m : Nat} (succeeds : Succeeds R n) (pos : 0 < n) (succeeds' : Succeeds R m)
    (pos' : 0 < m) {a : AudioIo R} (h : Bounded n m a) (op : AudioOp F) :
    Bounded n m (a.apply op) := by
  have playPcm (pcm : List Int16) : Bounded n m (a.playPcm8k pcm) := by
    rw [playPcm8k]
    split
    · exact h
    · exact ⟨h.capQ, length_put_le _ _ _, h.capAcc, h.capRs, h.playRs.pull succeeds' pos' _⟩
  cases op with
  | takeFrames =>
    rw [apply_takeFrames, takeFrames8k_eq, framesLoop_blocks (by decide) (Nat.le_refl _)]
    refine ⟨Nat.zero_le _, h.playQ, ?_, h.capRs.pull succeeds pos _, h.playRs⟩
    show (rest frameSamples a.toFrame).length < _
    rw [length_rest]
    exact Nat.mod_lt _ (by decide)
  | playPcm pcm => exact playPcm pcm
  | playUlaw ulaw =>
    show Bounded n m (a.playUlaw ulaw)
    rw [playUlaw_eq]
    exact playPcm _
  | flush =>
    exact ⟨Nat.zero_le _, Nat.zero_le _, by show 0 < frameSamples; decide, h.capRs, h.playRs⟩
  | capture frame =>
    rw [apply_capture]
    exact ⟨length_put_le _ _ _, h.playQ, h.capAcc, h.capRs, h.playRs⟩
  | render frames =>
    show Bounded n m (a.render frames).2
    rw [render_eq]
    refine ⟨h.capQ, ?_, h.capAcc, h.capRs, h.playRs⟩
    show (a.playQ.drop frames).length ≤ _
    rw [List.length_drop]
    exact le_trans (Nat.sub_le _ _) h.playQ

section

variable {inRate outRate : UInt32} {inCh outCh : UInt16} {past : List (Move R)} {a : AudioIo R}

theorem bounded (capture : Succeeds R (max (inRate.toNat / 100) 128)) (play : Succeeds R 128)
    (run : (system R inRate inCh outRate outCh).Run past a) :
    Bounded (max (inRate.toNat / 100) 128) 128 a := by
  induction run with
  | start made =>
    obtain ⟨_, _, hcap, hplay, rfl⟩ := new_eq made
    exact ⟨Nat.zero_le _, Nat.zero_le _, by show 0 < frameSamples; decide,
      .of_forRates hcap, .of_forRates hplay⟩
  | @step past s s' op _ step ih =>
    obtain rfl := step
    exact ih.apply capture (by omega) play (by omega) op

end

end Iax2.AudioIo
