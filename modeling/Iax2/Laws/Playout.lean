import Iax2.Laws.Jitter

/-!
# The playout cursor

Three things move the cursor: a pull moves it one frame on, a pull that starts playout puts it on
the oldest frame, and a pull with a spent miss budget puts it on the newest. Lateness and lag are
checked in `push`, against the cursor of a buffer that is playing. So a frame that is behind the
cursor can still be buffered, when the cursor passed over it, or when it came in while the buffer
was priming.

Four guarantees depend on it, and each has its condition. Frames are played in order along the runs
whose pulls move the cursor only onward (`playout_order_run`). When all timestamps are on the grid of
the stream, no frame waits behind the cursor exactly as long as no jump passes over one
(`noStale_run`). None waits further ahead of the cursor than the resynchronisation allows exactly as
long as playout starts on little material (`bounded_iff`). Priming ends at the oldest frame when the
resynchronisations find budget left (`restart_oldest`).
-/

namespace Iax2.JitterBuffer

variable {F : Type}

/-- A pull that moves the cursor from where it was to a buffered frame: playout starts, or the miss
budget is spent. -/
def isMoving (b : JitterBuffer F) : Bool :=
  b.isRunning && !b.frames.isEmpty && (!b.playing || decide (missBudgetThreshold < b.missBudget))

namespace Move

/-- The cursor makes no step past the last timestamp. -/
def NoWrap (t : Move F) (_ : List (Move F)) : Prop :=
  t.label = .pull → t.pre.pull.1 ≠ .silence → t.pre.due.toNat + frameMs.toNat < 2 ^ 32

/-- The timestamp of the frame that the transition plays. -/
def playedTs (t : Move F) : Option UInt32 :=
  match t.outcome with
  | some (.play _) => some t.pre.due
  | _ => none

instance (t : Move F) (past : List (Move F)) : Decidable (t.NoWrap past) :=
  inferInstanceAs (Decidable (_ → _ → _))

end Move

/-! ## Order -/

/-- The timestamps of the frames played since the last reset, newest first. -/
def playedSince : List (Move F) → List UInt32
  | [] => []
  | t :: past => if t.label = .reset then [] else t.playedTs.toList ++ playedSince past

/-- The frames played since the last reset came with increasing timestamps. -/
def Move.InOrder (t : Move F) (past : List (Move F)) : Prop :=
  (playedSince (t :: past)).Pairwise (· > ·)

/-- Playout has started since the last reset, so that the cursor is one of this stream. -/
def Begun : List (Move F) → Prop :=
  Since (fun t => t.label = .reset) fun t => t.post.playing = true

instance (past : List (Move F)) : Decidable (Begun past) := Since.decidable past

/-- Once playout has started, a pull that moves the cursor finds the frame that it moves it to at the
cursor or after it: the newest frame if the miss budget is spent, and the oldest frame if playout
starts again. -/
def Move.Onward (t : Move F) (past : List (Move F)) : Prop :=
  t.label = .pull → Begun past → t.pre.isRunning = true →
    if missBudgetThreshold < t.pre.missBudget then
      ∀ newest ∈ t.pre.frames.lastKey?, t.pre.nextTs ≤ newest
    else t.pre.playing = false → ∀ oldest ∈ t.pre.frames.firstKey?, t.pre.nextTs ≤ oldest

instance (t : Move F) (past : List (Move F)) : Decidable (t.Onward past) :=
  have (key : Option UInt32) : Decidable (∀ ts ∈ key, t.pre.nextTs ≤ ts) :=
    Option.decidableForallMem key
  inferInstanceAs (Decidable (_ → _ → _ → _))

theorem isMoving_iff {b : JitterBuffer F} : b.isMoving = true ↔
    b.isRunning = true ∧ b.frames ≠ ∅ ∧
      (b.playing = false ∨ missBudgetThreshold < b.missBudget) := by
  simp only [isMoving, Bool.and_eq_true, Bool.not_eq_true', Std.ExtTreeMap.isEmpty_eq_false_iff,
    Bool.or_eq_true, decide_eq_true_eq, and_assoc, ne_eq]

/-- A pull that moves the cursor plays. -/
theorem plays_of_moving {b : JitterBuffer F} (moving : b.isMoving = true) :
    ∃ payload, b.frames[b.due]? = some payload ∧ b.pull.1 = .play payload := by
  obtain ⟨running, some, moves⟩ := isMoving_iff.mp moving
  have h := b.pulled
  generalize b.pull = r at h ⊢
  cases h with
  | plays _ found => exact ⟨_, found, rfl⟩
  | waits waiting => rw [running] at waiting; cases waiting
  | conceals playing fresh =>
    rcases moves with idle | spent
    · rw [playing] at idle; cases idle
    · exact absurd spent (Nat.not_lt.mpr fresh)
  | drains _ empty => exact absurd empty some

section

variable [F64 F] {past : List (Move F)} {b : JitterBuffer F}

omit [F64 F] in
/-- A pull that asks for a frame plays the frame due or nothing. -/
theorem playedTs_asks {b b' : JitterBuffer F} (running : b.isRunning = true)
    (filled : b.frames ≠ ∅) :
    Move.playedTs ⟨b, .pull, b'⟩ = if b.due ∈ b.frames then some b.due else none := by
  simp only [Move.playedTs, Move.outcome, outcome, (pull_asks running filled).1,
    Std.ExtTreeMap.mem_iff_isSome_getElem?]
  cases b.frames[b.due]? <;> rfl

omit [F64 F] in
/-- An onward pull asks for a frame at the cursor or after it. -/
theorem cursor_le_due {b' : JitterBuffer F} (onward : Move.Onward ⟨b, .pull, b'⟩ past)
    (begun : Begun past) (running : b.isRunning = true) (some : b.frames ≠ ∅) :
    b.nextTs ≤ b.due := by
  have onward := onward rfl begun running
  split at onward
  next spent =>
    obtain ⟨newest, key⟩ := Std.ExtTreeMap.exists_lastKey some
    rw [due_of_spent spent key]
    exact onward newest key
  next fresh =>
    have fresh := Nat.not_lt.mp fresh
    cases playing : b.playing with
    | true =>
      rw [due_of_playing playing fresh]
      exact UInt32.le_refl _
    | false =>
      obtain ⟨oldest, key⟩ := Std.ExtTreeMap.exists_firstKey some
      rw [due_of_start playing key fresh]
      exact onward playing oldest key

/-- A push leaves the cursor. -/
theorem push_nextTs (b : JitterBuffer F) (ts : UInt32) (payload : Bytes) (now : Instant) :
    (b.push ts payload now).nextTs = b.nextTs := by
  have h := b.pushed ts payload now
  generalize b.push ts payload now = b' at h ⊢
  cases h <;> rfl

omit [F64 F] in
/-- A pull that asks for no frame leaves the cursor and the frames. -/
theorem pull_rests_same (rests : b.isRunning = true → b.frames = ∅) :
    b.pull.2.nextTs = b.nextTs ∧ b.pull.2.frames = b.frames := by
  have h := b.pulled
  generalize b.pull = r at h ⊢
  cases h with
  | waits => exact ⟨rfl, rfl⟩
  | plays running found => exact absurd (rests running) (nonempty_of_lookup found)
  | conceals playing _ _ some => exact absurd (rests (isRunning_iff.mpr (.inl playing))) some
  | drains => exact ⟨rfl, rfl⟩

/-- What is played is in order so far, and lies below the cursor. -/
structure PlayedBelow (past : List (Move F)) (b : JitterBuffer F) : Prop where
  sorted : (playedSince past).Pairwise (· > ·)
  below : ∀ ts ∈ playedSince past, ts < b.nextTs
  /-- nothing is played before playout starts -/
  begun : playedSince past ≠ [] → Begun past

omit [F64 F] in
/-- A transition that plays nothing and leaves the cursor keeps the order. -/
theorem PlayedBelow.idle {t : Move F} (h : PlayedBelow past b) {b' : JitterBuffer F}
    (noReset : t.label ≠ .reset) (plays : t.playedTs = none) (cursor : b'.nextTs = b.nextTs) :
    PlayedBelow (t :: past) b' := by
  have played : playedSince (t :: past) = playedSince past := by
    rw [playedSince, if_neg noReset, plays]
    rfl
  refine ⟨?_, ?_, fun some => ⟨noReset, .inr (h.begun (played ▸ some))⟩⟩
  · rw [played]
    exact h.sorted
  · rw [played, cursor]
    exact h.below

omit [F64 F] in
/-- A pull that asks for a frame keeps the order, if that frame is past all that was played. -/
theorem PlayedBelow.asks (h : PlayedBelow past b) (running : b.isRunning = true)
    (some : b.frames ≠ ∅) (nowrap : Move.NoWrap ⟨b, .pull, b.pull.2⟩ past)
    (above : ∀ ts ∈ playedSince past, ts < b.due) :
    PlayedBelow (⟨b, .pull, b.pull.2⟩ :: past) b.pull.2 := by
  obtain ⟨returns, playing, cursor, _⟩ := pull_asks running some
  have nowrap := nowrap rfl (returns ▸ answer_ne_silence _)
  have played : playedSince (⟨b, .pull, b.pull.2⟩ :: past) =
      (if b.due ∈ b.frames then [b.due] else []) ++ playedSince past := by
    rw [playedSince, if_neg (by simp only [reduceCtorEq, not_false_eq_true]),
      playedTs_asks running some]
    split <;> rfl
  refine ⟨?_, ?_, fun _ => ⟨by simp only [reduceCtorEq, not_false_eq_true], .inl playing⟩⟩
  · rw [played]
    split
    · exact .cons above h.sorted
    · exact h.sorted
  · rw [played, cursor]
    intro ts member
    split at member
    · rcases List.mem_cons.mp member with rfl | member
      · exact lt_step nowrap (UInt32.le_refl _)
      · exact lt_step nowrap (UInt32.le_of_lt (above ts member))
    · exact lt_step nowrap (UInt32.le_of_lt (above ts member))

/-- An onward transition keeps the order. -/
theorem PlayedBelow.step (h : PlayedBelow past b) {op : JitterOp}
    (nowrap : Move.NoWrap ⟨b, op, b.apply op⟩ past)
    (onward : Move.Onward ⟨b, op, b.apply op⟩ past) :
    PlayedBelow (⟨b, op, b.apply op⟩ :: past) (b.apply op) := by
  cases op with
  | reset =>
    exact ⟨.nil, fun _ member => absurd member List.not_mem_nil, fun some => absurd rfl some⟩
  | push ts payload now =>
    exact h.idle (by simp only [ne_eq, reduceCtorEq, not_false_eq_true]) rfl
      (push_nextTs b ts payload now)
  | pull =>
    rcases b.asks_or_rests with ⟨running, some⟩ | rests
    · refine h.asks running some nowrap fun ts member => ?_
      have begun := h.begun (List.ne_nil_of_mem member)
      exact UInt32.lt_of_lt_of_le (h.below ts member) (cursor_le_due onward begun running some)
    · refine h.idle (by simp only [ne_eq, reduceCtorEq, not_false_eq_true]) ?_
        (pull_rests_same rests).1
      simp only [Move.playedTs, Move.outcome, outcome, (pull_rests rests).1]

/-- In every run whose pulls move the cursor only onward, the frames played since the last reset
come with increasing timestamps. -/
theorem playout_order_run (run : (system F).Run past b) (nowrap : Always Move.NoWrap past)
    (onward : Always Move.Onward past) : Always Move.InOrder past := by
  refine run.always_under (Q := fun t past => Move.NoWrap t past ∧ Move.Onward t past) ?_
    (nowrap.and onward)
  rintro past b op _ run rfl before ⟨nowrap, onward⟩
  have ordered : PlayedBelow past b := by
    refine run.invariant_under (I := PlayedBelow) ?_ ?_ before
    · rintro _ -
      exact ⟨.nil, fun _ member => absurd member List.not_mem_nil, fun some => absurd rfl some⟩
    · rintro past b op _ - rfl ⟨nowrap, onward⟩ ordered
      exact ordered.step nowrap onward
  exact (ordered.step nowrap onward).sorted

end

open JitterSample in
/-- The sample starts again after it has drained, jumps over a long gap to the one frame behind it,
and is reset; its frames are played in order. -/
theorem playout_order_sample : Always Move.InOrder
    (trace ([frame 0, frame 20, frame 60] ++ pulls 5 ++ [frame 120, frame 100] ++ pulls 3 ++
      [frame 200, frame 1800] ++ pulls 70 ++ [.reset, frame 0, frame 20] ++ pulls 2)) :=
  playout_order_run (run _) (by decide +kernel) (by decide +kernel)

open JitterSample in
/-- Three frames in order, with a gap that spends the miss budget: the cursor jumps to the last of
them, and the frame that it jumped over is played after it. -/
theorem playout_order_fails : ∃ (past : List (Move ℚ)) (b : JitterBuffer ℚ),
    (system ℚ).Run past b ∧ Always Move.NoWrap past ∧ playedSince past = [1980, 2000, 0] ∧
      ¬ (playedSince past).Pairwise (· > ·) :=
  ⟨_, _, run ([frame 0, frame 1980, frame 2000] ++ pulls 125), by decide +kernel,
    by decide +kernel, by decide +kernel⟩

/-! ## Nothing behind the cursor -/

/-- No frame waits behind the cursor of a buffer that is playing. -/
def NoStale (b : JitterBuffer F) : Prop := b.playing = true → ∀ ts ∈ b.frames, b.nextTs ≤ ts

instance (b : JitterBuffer F) : Decidable b.NoStale :=
  have := b.frames.decidableForallMem (b.nextTs ≤ ·)
  inferInstanceAs (Decidable (_ → _))

/-- No frame waits behind the cursor after the transition; it conceals only if the frame at the
cursor is missing and a later one is there; and if all frames are behind the cursor, it returns
silence and the buffer primes again. -/
def Move.Fresh (t : Move F) (_ : List (Move F)) : Prop :=
  t.post.NoStale ∧
  (t.outcome = some .conceal →
    t.pre.nextTs ∉ t.pre.frames ∧ ∃ ts ∈ t.pre.frames, t.pre.nextTs < ts) ∧
  (t.label = .pull → t.pre.playing = true → (∀ ts ∈ t.pre.frames, ts < t.pre.nextTs) →
    t.outcome = some .silence ∧ t.post.playing = false)

/-- A pull that asks for a frame passes over no other: every other frame is a whole slot later. -/
def Move.PassesNone (t : Move F) (_ : List (Move F)) : Prop :=
  t.label = .pull → t.pre.isRunning = true → ∀ ts ∈ t.pre.frames, ts ≠ t.pre.due →
    t.pre.due.toNat + frameMs.toNat ≤ ts.toNat

instance (t : Move F) (past : List (Move F)) : Decidable (t.PassesNone past) :=
  have := t.pre.frames.decidableForallMem fun ts =>
    ts ≠ t.pre.due → t.pre.due.toNat + frameMs.toNat ≤ ts.toNat
  inferInstanceAs (Decidable (_ → _ → _))

section

variable [F64 F] {past : List (Move F)} {b : JitterBuffer F}

/-- A frame enters a playing buffer at the cursor or after it. -/
theorem noStale_push (noStale : b.NoStale) (ts : UInt32) (payload : Bytes) (now : Instant) :
    (b.push ts payload now).NoStale := by
  intro playing j member
  obtain ⟨before, cursor, sub⟩ := push_playing playing
  rw [cursor]
  rcases sub j member with old | ⟨rfl, onTime, _⟩
  · exact noStale before j old
  · exact onTime

omit [F64 F] in
/-- If nothing is behind the cursor, a frame is concealed only while a later one waits. -/
theorem conceal_waits (noStale : b.NoStale) (conceals : b.pull.1 = .conceal) :
    b.nextTs ∉ b.frames ∧ ∃ ts ∈ b.frames, b.nextTs < ts := by
  obtain ⟨playing, _, missing, some, _⟩ := pull_conceal conceals
  obtain ⟨ts, member⟩ := Std.ExtTreeMap.exists_mem some
  have apart : b.nextTs ≠ ts := by
    rintro rfl
    exact missing member
  exact ⟨missing, ts, member, UInt32.lt_of_le_of_ne (noStale playing ts member) apart⟩

omit [F64 F] in
/-- If nothing is behind the cursor but all that is buffered, nothing is buffered. -/
theorem drained_of_behind (noStale : b.NoStale) (playing : b.playing = true)
    (behind : ∀ ts ∈ b.frames, ts < b.nextTs) : b.frames = ∅ :=
  Std.ExtTreeMap.eq_empty_iff_forall_not_mem.mpr fun ts member =>
    UInt32.not_lt.mpr (noStale playing ts member) (behind ts member)

/-- If nothing was behind the cursor, the transition keeps it so exactly if it passes over no
frame. -/
theorem fresh_iff {op : JitterOp} (noStale : b.NoStale)
    (nowrap : Move.NoWrap ⟨b, op, b.apply op⟩ past) :
    Move.Fresh ⟨b, op, b.apply op⟩ past ↔ Move.PassesNone ⟨b, op, b.apply op⟩ past := by
  cases op with
  | reset =>
    exact ⟨fun _ pull => (nomatch pull), fun _ => ⟨fun playing => (nomatch playing),
      fun concealed => (nomatch concealed), fun pull => (nomatch pull)⟩⟩
  | push ts payload now =>
    exact ⟨fun _ pull => (nomatch pull), fun _ => ⟨noStale_push noStale ts payload now,
      fun concealed => (nomatch concealed), fun pull => (nomatch pull)⟩⟩
  | pull =>
    have waits (conceals : some b.pull.1 = some .conceal) :=
      conceal_waits noStale (Option.some.inj conceals)
    have drains (playing : b.playing = true) (behind : ∀ ts ∈ b.frames, ts < b.nextTs) :
        some b.pull.1 = some .silence ∧ b.pull.2.playing = false := by
      obtain ⟨silent, idle⟩ := pull_rests fun _ => drained_of_behind noStale playing behind
      exact ⟨congrArg some silent, idle⟩
    simp only [Move.Fresh, Move.PassesNone, apply, Move.outcome, outcome, forall_const]
    refine (and_iff_left ⟨waits, drains⟩).trans ?_
    rcases b.asks_or_rests with ⟨running, some⟩ | rests
    · obtain ⟨returns, playing, cursor, _⟩ := pull_asks running some
      have step := step_toNat (nowrap rfl (returns ▸ answer_ne_silence _))
      simp only [NoStale, playing, cursor, UInt32.le_iff_toNat_le, step, running,
        mem_pull_asks running some, forall_const, and_imp]
      exact forall_congr' fun ts => ⟨fun h member ne => h ne member, fun h ne member => h member ne⟩
    · refine ⟨fun _ running ts member => ?_, fun _ playing => ?_⟩
      · rw [rests running] at member
        exact absurd member Std.ExtTreeMap.not_mem_empty
      · cases (pull_rests rests).2.symm.trans playing

/-! ## What makes a pull pass over a frame

The cursor passes over a frame in two ways: its steps go by a timestamp that is between two slots,
and a jump goes by all frames before the newest. -/

/-- The timestamps are whole frames apart. -/
def SameGrid (ts ts' : UInt32) : Prop := ts.toNat % frameMs.toNat = ts'.toNat % frameMs.toNat

instance (ts ts' : UInt32) : Decidable (SameGrid ts ts') := inferInstanceAs (Decidable (_ = _))

/-- The timestamp is whole frames away from all that waits, and from a cursor that is playing. -/
def Aligned (b : JitterBuffer F) (ts : UInt32) : Prop :=
  (∀ j ∈ b.frames, SameGrid ts j) ∧ (b.playing = true → SameGrid b.nextTs ts)

instance (b : JitterBuffer F) (ts : UInt32) : Decidable (b.Aligned ts) :=
  have := b.frames.decidableForallMem (SameGrid ts ·)
  inferInstanceAs (Decidable (_ ∧ _))

/-- A frame that enters beside others, neither late nor far ahead, is on their grid. -/
def Move.OnGrid (t : Move F) (_ : List (Move F)) : Prop :=
  match t.label with
  | .push ts _ _ => t.pre.isLate ts = false → t.pre.isAhead ts = false → t.pre.Aligned ts
  | _ => True

instance (t : Move F) (past : List (Move F)) : Decidable (t.OnGrid past) :=
  match t with
  | ⟨pre, .push ts _ _, _⟩ =>
    inferInstanceAs
      (Decidable (pre.isLate ts = false → pre.isAhead ts = false → pre.Aligned ts))
  | ⟨_, .pull, _⟩ => inferInstanceAs (Decidable True)
  | ⟨_, .reset, _⟩ => inferInstanceAs (Decidable True)

/-- A pull with the miss budget spent, which jumps to the newest frame, finds no other. -/
def Move.JumpsSingle (t : Move F) (_ : List (Move F)) : Prop :=
  t.label = .pull → t.pre.isRunning = true → missBudgetThreshold < t.pre.missBudget →
    t.pre.frames.size ≤ 1

instance (t : Move F) (past : List (Move F)) : Decidable (t.JumpsSingle past) :=
  inferInstanceAs (Decidable (_ → _ → _ → _))

/-- All that waits is on one grid, and so is a cursor that is playing. -/
structure Gridded (b : JitterBuffer F) : Prop where
  frames : ∀ i ∈ b.frames, ∀ j ∈ b.frames, SameGrid i j
  cursor : b.playing = true → ∀ j ∈ b.frames, SameGrid b.nextTs j

/-- On one grid, a later timestamp is a whole frame later. -/
theorem SameGrid.frame_le {ts ts' : UInt32} (grid : SameGrid ts ts') (le : ts ≤ ts')
    (ne : ts' ≠ ts) : ts.toNat + frameMs.toNat ≤ ts'.toNat := by
  have ne : ts'.toNat ≠ ts.toNat := fun same => ne (UInt32.toNat_inj.mp same)
  rw [UInt32.le_iff_toNat_le] at le
  simp only [SameGrid, frameMs, UInt32.reduceToNat] at grid ⊢
  omega

/-- The cursor stays on the grid. -/
theorem SameGrid.step {ts ts' : UInt32} (grid : SameGrid ts ts')
    (nowrap : ts.toNat + frameMs.toNat < 2 ^ 32) : SameGrid (ts + frameMs) ts' := by
  rw [SameGrid, step_toNat nowrap, Nat.add_mod_right]
  exact grid

omit [F64 F] in
/-- The frame due is on the grid. -/
theorem Gridded.due (h : b.Gridded) (running : b.isRunning = true) (some : b.frames ≠ ∅) :
    ∀ ts ∈ b.frames, SameGrid b.due ts := by
  by_cases member : b.due ∈ b.frames
  · exact h.frames _ member
  · obtain ⟨playing, fresh⟩ := misses running some member
    rw [due_of_playing playing fresh]
    exact h.cursor playing

theorem Gridded.push (h : b.Gridded) {ts : UInt32} {payload : Bytes} {now : Instant}
    (onGrid : b.isLate ts = false → b.isAhead ts = false → b.Aligned ts) :
    (b.push ts payload now).Gridded := by
  have pushed := b.pushed ts payload now
  generalize b.push ts payload now = b' at pushed ⊢
  cases pushed with
  | late => exact ⟨h.frames, h.cursor⟩
  | @stored _ _ _ frames _ onTime keeps =>
    have entered {j : UInt32} (member : j ∈ frames) : j ∈ b.entered ts payload :=
      mem_entered keeps member
    cases ahead : b.isAhead ts with
    | true =>
      have only {j : UInt32} (member : j ∈ frames) : j = ts := by
        have := entered member
        rw [JitterBuffer.entered, ahead, if_pos rfl, Std.ExtTreeMap.mem_insert_iff] at this
        exact this.resolve_right Std.ExtTreeMap.not_mem_empty
      refine ⟨fun i hi j hj => ?_, fun playing => ?_⟩
      · rw [only hi, only hj]
        rfl
      · rw [Bool.not_true, Bool.and_false] at playing
        cases playing
    | false =>
      obtain ⟨aligned, cursor⟩ := onGrid onTime ahead
      have either {j : UInt32} (member : j ∈ frames) : j = ts ∨ j ∈ b.frames := by
        have := entered member
        rwa [JitterBuffer.entered, ahead, if_neg Bool.false_ne_true,
          Std.ExtTreeMap.mem_insert_iff] at this
      refine ⟨fun i hi j hj => ?_, fun playing j hj => ?_⟩
      · rcases either hi with rfl | hi
        · rcases either hj with rfl | hj
          · rfl
          · exact aligned j hj
        · rcases either hj with rfl | hj
          · exact (aligned i hi).symm
          · exact h.frames i hi j hj
      · have playing : b.playing = true := (Bool.and_eq_true_iff.mp playing).1
        rcases either hj with rfl | hj
        · exact cursor playing
        · exact h.cursor playing j hj

omit [F64 F] in
theorem Gridded.pull (h : b.Gridded) (nowrap : Move.NoWrap ⟨b, .pull, b.pull.2⟩ past) :
    b.pull.2.Gridded := by
  rcases b.asks_or_rests with ⟨running, some⟩ | rests
  · obtain ⟨returns, _, cursor, _⟩ := pull_asks running some
    have nowrap := nowrap rfl (returns ▸ answer_ne_silence _)
    have before {j : UInt32} (member : j ∈ b.pull.2.frames) : j ∈ b.frames :=
      ((mem_pull_asks running some).mp member).2
    refine ⟨fun i hi j hj => h.frames i (before hi) j (before hj), fun _ j hj => ?_⟩
    rw [cursor]
    exact (h.due running some j (before hj)).step nowrap
  · refine ⟨?_, fun playing => ?_⟩
    · rw [(pull_rests_same rests).2]
      exact h.frames
    · cases (pull_rests rests).2.symm.trans playing

/-- What waits stays on one grid, if all that enters is on it. -/
theorem gridded_run (run : (system F).Run past b)
    (cond : Always (fun t past => Move.NoWrap t past ∧ Move.OnGrid t past) past) : b.Gridded := by
  refine run.invariant_under (I := fun _ b => b.Gridded) ?_ ?_ cond
  · rintro _ rfl
    exact ⟨fun i hi => absurd hi Std.ExtTreeMap.not_mem_empty, fun playing => nomatch playing⟩
  · rintro past b op _ - rfl ⟨nowrap, onGrid⟩ grid
    cases op with
    | reset =>
      exact ⟨fun i hi => absurd hi Std.ExtTreeMap.not_mem_empty, fun playing => nomatch playing⟩
    | push ts payload now => exact grid.push onGrid
    | pull => exact grid.pull nowrap

omit [F64 F] in
/-- A pull with the budget left asks for the oldest frame, or for an older one that is missing. -/
theorem due_le (noStale : b.NoStale) (running : b.isRunning = true)
    (fresh : b.missBudget ≤ missBudgetThreshold) : ∀ ts ∈ b.frames, b.due ≤ ts := by
  cases playing : b.playing with
  | true =>
    rw [due_of_playing playing fresh]
    exact noStale playing
  | false =>
    obtain ⟨first, oldest⟩ := Std.ExtTreeMap.exists_firstKey (start_of_idle playing running).2
    rw [due_of_start playing oldest fresh]
    exact (Std.ExtTreeMap.firstKey?_eq_some_iff.mp oldest).2

omit [F64 F] in
/-- A pull with the budget spent passes over all frames but the newest. -/
theorem passes_of_spent (spent : missBudgetThreshold < b.missBudget) :
    (∀ ts ∈ b.frames, ts ≠ b.due → b.due.toNat + frameMs.toNat ≤ ts.toNat) ↔
      b.frames.size ≤ 1 := by
  rw [Std.ExtTreeMap.size_le_one_iff]
  constructor
  · intro passes i hi j hj
    have some : b.frames ≠ ∅ := Std.ExtTreeMap.ne_empty_of_mem hi
    obtain ⟨newest, key⟩ := Std.ExtTreeMap.exists_lastKey some
    rw [due_of_spent spent key] at passes
    have only {ts : UInt32} (member : ts ∈ b.frames) : ts = newest := by
      by_contra other
      have later := passes ts member other
      have most := (Std.ExtTreeMap.lastKey?_eq_some_iff.mp key).2 ts member
      have step : 0 < frameMs.toNat := by decide
      rw [UInt32.le_iff_toNat_le] at most
      omega
    rw [only hi, only hj]
  · intro same ts member other
    have some : b.frames ≠ ∅ := Std.ExtTreeMap.ne_empty_of_mem member
    obtain ⟨newest, key⟩ := Std.ExtTreeMap.exists_lastKey some
    rw [due_of_spent spent key] at other
    exact absurd (same ts member newest (Std.ExtTreeMap.lastKey?_eq_some_iff.mp key).1) other

omit [F64 F] in
/-- On one grid, and with nothing behind the cursor, only a jump passes over frames. -/
theorem passesNone_iff {op : JitterOp} {b' : JitterBuffer F} (noStale : b.NoStale)
    (grid : b.Gridded) :
    Move.PassesNone ⟨b, op, b'⟩ past ↔ Move.JumpsSingle ⟨b, op, b'⟩ past := by
  simp only [Move.PassesNone, Move.JumpsSingle]
  refine imp_congr_right fun _ => imp_congr_right fun running => ?_
  by_cases spent : missBudgetThreshold < b.missBudget
  · rw [passes_of_spent spent]
    exact ⟨fun single _ => single, fun single => single spent⟩
  · refine ⟨fun _ jumps => absurd jumps spent, fun _ ts member other => ?_⟩
    have some : b.frames ≠ ∅ := Std.ExtTreeMap.ne_empty_of_mem member
    have le := due_le noStale running (Nat.not_lt.mp spent) ts member
    exact (grid.due running some ts member).frame_le le other

/-- On the grid of the stream, nothing waits behind the cursor exactly as long as no jump passes
over a frame. -/
theorem noStale_run (run : (system F).Run past b) (nowrap : Always Move.NoWrap past)
    (grid : Always Move.OnGrid past) :
    Always Move.Fresh past ↔ Always Move.JumpsSingle past := by
  refine run.always_iff_under (H := fun t past => Move.NoWrap t past ∧ Move.OnGrid t past) ?_
    (nowrap.and grid)
  rintro past b op _ run rfl ⟨⟨nowrap, _⟩, before⟩ fresh
  have noStale : b.NoStale := by
    refine run.reached (I := fun _ b => b.NoStale) ?_ (fresh.imp fun _ _ h => h.1)
    rintro _ rfl playing
    cases playing
  exact (fresh_iff noStale nowrap).trans (passesNone_iff noStale (gridded_run run before))

end

open JitterSample in
/-- In the sample, frames of whole slots with gaps and a jump to a single frame, nothing ever waits
behind the cursor. -/
theorem noStale_sample : Always Move.Fresh
    (trace ([frame 0, frame 60, frame 20] ++ pulls 6 ++ [frame 120, frame 200] ++ pulls 6 ++
      [frame 300, frame 1900] ++ pulls 70)) :=
  (noStale_run (run _) (by decide +kernel) (by decide +kernel)).mpr (by decide +kernel)

open JitterSample in
/-- The jump to the newest of three frames leaves the second one behind: all that is buffered is
behind the cursor, and the pulls still conceal. -/
theorem noStale_fails : ∃ (past : List (Move ℚ)) (b : JitterBuffer ℚ),
    (system ℚ).Run past b ∧ Always Move.NoWrap past ∧ b.playing = true ∧ b.nextTs = 2020 ∧
      b.frames.keys = [1980] ∧ b.pull.1 = .conceal ∧ ¬ b.NoStale :=
  ⟨_, _, run ([frame 0, frame 1980, frame 2000] ++ pulls 63), by decide +kernel,
    by decide +kernel, by decide +kernel, by decide +kernel, by decide +kernel, by decide +kernel⟩

open JitterSample in
/-- A frame between two slots of the stream is passed over by a step of the cursor, without any
jump. -/
theorem offGrid_fails : ∃ (past : List (Move ℚ)) (b : JitterBuffer ℚ),
    (system ℚ).Run past b ∧ Always Move.NoWrap past ∧ Always Move.JumpsSingle past ∧
      b.playing = true ∧ b.nextTs = 40 ∧ b.frames.keys = [30] ∧ ¬ b.NoStale :=
  ⟨_, _, run ([frame 0, frame 30] ++ pulls 2), by decide +kernel, by decide +kernel,
    by decide +kernel, by decide +kernel, by decide +kernel, by decide +kernel⟩

/-! ## Not too far ahead of the cursor -/

/-- No frame waits further ahead of the cursor of a buffer that is playing than twice the maximal
depth, the lag at which `push` resynchronises. -/
def Bounded (b : JitterBuffer F) : Prop :=
  b.playing = true → ∀ ts ∈ b.frames, ts.toNat ≤ b.nextTs.toNat + 2 * maxDepthMs.toNat

instance (b : JitterBuffer F) : Decidable b.Bounded :=
  have := b.frames.decidableForallMem fun ts =>
    ts.toNat ≤ b.nextTs.toNat + 2 * maxDepthMs.toNat
  inferInstanceAs (Decidable (_ → _))

/-- A pull that starts playout at the oldest frame finds at most 440 ms of material: the frame that
it takes, and what may wait ahead of the cursor. -/
def Move.StartsNear (t : Move F) (_ : List (Move F)) : Prop :=
  t.label = .pull → t.pre.playing = false → t.pre.isPrimed = true →
    t.pre.missBudget ≤ missBudgetThreshold →
    t.pre.bufferedSpanMs.toNat ≤ 2 * maxDepthMs.toNat + 2 * frameMs.toNat

instance (t : Move F) (past : List (Move F)) : Decidable (t.StartsNear past) :=
  inferInstanceAs (Decidable (_ → _ → _))

section

variable [F64 F] {past : List (Move F)} {b : JitterBuffer F}

/-- The target depth is never below the minimal depth. -/
theorem minDepthMs_le_targetMs (run : (system F).Run past b) : minDepthMs ≤ b.targetMs := by
  refine run.invariant (I := fun b => minDepthMs ≤ b.targetMs) ?_ ?_
  · rintro _ rfl
    exact UInt32.le_refl _
  · rintro b op _ rfl le
    cases op with
    | reset => exact UInt32.le_refl _
    | push ts payload now =>
      rw [apply, push_targetMs]
      exact minDepthMs_le_noteArrival b ts now le
    | pull =>
      have h := b.pulled
      simp only [apply] at h ⊢
      generalize b.pull = r at h ⊢
      cases h <;> exact le

/-- A frame enters a playing buffer at most at the lag that resynchronises. -/
theorem bounded_push (bounded : b.Bounded) (ts : UInt32) (payload : Bytes) (now : Instant) :
    (b.push ts payload now).Bounded := by
  intro playing j member
  obtain ⟨before, cursor, sub⟩ := push_playing playing
  rw [cursor]
  rcases sub j member with old | ⟨rfl, _, near⟩
  · exact bounded before j old
  · exact near

omit [F64 F] in
theorem bufferedSpanMs_empty (empty : b.frames = ∅) : b.bufferedSpanMs = 0 := by
  rw [bufferedSpanMs, Std.ExtTreeMap.firstKey?_eq_none_iff.mpr empty]

omit [F64 F] in
/-- The span of primed material, which does not wrap. -/
theorem bufferedSpanMs_toNat {lo hi : UInt32} (deep : minDepthMs ≤ b.targetMs)
    (primed : b.isPrimed = true) (oldest : b.frames.firstKey? = some lo)
    (newest : b.frames.lastKey? = some hi) :
    b.bufferedSpanMs.toNat = hi.toNat - lo.toNat + frameMs.toNat := by
  have span : b.bufferedSpanMs = hi - lo + frameMs := by rw [bufferedSpanMs, oldest, newest]
  have le : lo ≤ hi := (Std.ExtTreeMap.firstKey?_eq_some_iff.mp oldest).2 hi
    (Std.ExtTreeMap.lastKey?_eq_some_iff.mp newest).1
  have covered : minDepthMs ≤ b.bufferedSpanMs :=
    UInt32.le_trans deep (of_decide_eq_true primed)
  have hhi := hi.toNat_lt
  rw [span, UInt32.le_iff_toNat_le, UInt32.toNat_add, UInt32.toNat_sub_of_le _ _ le] at covered
  rw [span, UInt32.toNat_add, UInt32.toNat_sub_of_le _ _ le]
  simp only [minDepthMs, frameMs, UInt32.reduceToNat] at covered ⊢
  omega

omit [F64 F] in
/-- When playout starts at the oldest frame, the others are near the cursor exactly if the material
spans at most 440 ms. -/
theorem startsNear_iff {lo : UInt32} (deep : minDepthMs ≤ b.targetMs) (primed : b.isPrimed = true)
    (oldest : b.frames.firstKey? = some lo) :
    (∀ ts ∈ b.frames, ts ≠ lo → ts.toNat ≤ lo.toNat + frameMs.toNat + 2 * maxDepthMs.toNat) ↔
      b.bufferedSpanMs.toNat ≤ 2 * maxDepthMs.toNat + 2 * frameMs.toNat := by
  have some : b.frames ≠ ∅ := by
    intro empty
    rw [Std.ExtTreeMap.firstKey?_eq_none_iff.mpr empty] at oldest
    cases oldest
  obtain ⟨hi, newest⟩ := Std.ExtTreeMap.exists_lastKey some
  rw [bufferedSpanMs_toNat deep primed oldest newest]
  obtain ⟨last, most⟩ := Std.ExtTreeMap.lastKey?_eq_some_iff.mp newest
  constructor
  · intro near
    by_cases single : hi = lo
    · rw [single, Nat.sub_self]
      decide
    · have := near hi last single
      omega
  · intro short ts member _
    have := UInt32.le_iff_toNat_le.mp (most ts member)
    omega

omit [F64 F] in
/-- When the cursor does not start at the oldest frame, the frames that it leaves are near it. -/
theorem near_due (bounded : b.Bounded) (some : b.frames ≠ ∅)
    (moves : ¬ (b.playing = false ∧ b.missBudget ≤ missBudgetThreshold)) :
    ∀ ts ∈ b.frames, ts.toNat ≤ b.due.toNat + 2 * maxDepthMs.toNat := by
  intro ts member
  by_cases fresh : b.missBudget ≤ missBudgetThreshold
  · have playing : b.playing = true := by
      by_contra idle
      exact moves ⟨Bool.eq_false_iff.mpr idle, fresh⟩
    rw [due_of_playing playing fresh]
    exact bounded playing ts member
  · obtain ⟨hi, newest⟩ := Std.ExtTreeMap.exists_lastKey some
    have most := (Std.ExtTreeMap.lastKey?_eq_some_iff.mp newest).2 ts member
    rw [due_of_spent (Nat.not_le.mp fresh) newest]
    exact Nat.le_trans (UInt32.le_iff_toNat_le.mp most) (Nat.le_add_right _ _)

/-- The transition keeps the frames near the cursor exactly if it does not start playout on too much
material. -/
theorem bounded_step {op : JitterOp} (deep : minDepthMs ≤ b.targetMs) (bounded : b.Bounded)
    (nowrap : Move.NoWrap ⟨b, op, b.apply op⟩ past) :
    (b.apply op).Bounded ↔ Move.StartsNear ⟨b, op, b.apply op⟩ past := by
  cases op with
  | reset => exact ⟨fun _ pull => (nomatch pull), fun _ playing => (nomatch playing)⟩
  | push ts payload now =>
    exact ⟨fun _ pull => (nomatch pull), fun _ => bounded_push bounded ts payload now⟩
  | pull =>
    simp only [Move.StartsNear, apply, forall_const]
    rcases b.asks_or_rests with ⟨running, some⟩ | rests
    · obtain ⟨returns, playing, cursor, _⟩ := pull_asks running some
      have step := step_toNat (nowrap rfl (returns ▸ answer_ne_silence _))
      simp only [Bounded, playing, cursor, mem_pull_asks running some, step, forall_const, and_imp]
      by_cases start : b.playing = false ∧ b.missBudget ≤ missBudgetThreshold
      · -- playout starts at the oldest frame
        obtain ⟨idle, fresh⟩ := start
        have primed := (start_of_idle idle running).1
        obtain ⟨lo, oldest⟩ := Std.ExtTreeMap.exists_firstKey some
        rw [due_of_start idle oldest fresh, ← startsNear_iff deep primed oldest]
        exact ⟨fun near _ _ _ ts member ne => near ts ne member,
          fun near ts ne member => near idle primed fresh ts member ne⟩
      · refine ⟨fun _ idle _ fresh => absurd ⟨idle, fresh⟩ start, fun _ ts _ member => ?_⟩
        have := near_due bounded some start ts member
        omega
    · refine ⟨fun _ _ primed _ => ?_, fun _ playing => ?_⟩
      · have empty : b.frames = ∅ :=
          not_not.mp fun some => some (rests (isRunning_iff.mpr (.inr ⟨primed, some⟩)))
        rw [bufferedSpanMs_empty empty]
        decide
      · cases (pull_rests rests).2.symm.trans playing

/-- A playing cursor is never further behind the buffered frames than the resynchronisation allows,
exactly as long as every playout that starts at the oldest frame starts on at most 440 ms of
material. -/
theorem bounded_iff (run : (system F).Run past b) (nowrap : Always Move.NoWrap past) :
    Always (fun t _ => t.post.Bounded) past ↔ Always Move.StartsNear past := by
  refine run.always_iff_under (H := Move.NoWrap) ?_ nowrap
  rintro past b op _ run rfl ⟨nowrap, _⟩ bounded
  refine bounded_step (minDepthMs_le_targetMs run) ?_ nowrap
  refine run.reached (I := fun _ b => b.Bounded) ?_ bounded
  rintro _ rfl playing
  cases playing

end

open JitterSample in
/-- In the sample, playout starts on a full depth of material, and is then kept near it. -/
theorem bounded_sample : Always (fun t _ => t.post.Bounded)
    (trace ([frame 0, frame 420, frame 20] ++ pulls 3 ++ [frame 440, frame 1000] ++ pulls 1)) :=
  (bounded_iff (run _) (by decide +kernel)).mpr (by decide +kernel)

open JitterSample in
/-- Playout that starts on ten seconds of material is ten seconds behind its newest frame. -/
theorem bounded_fails : ∃ (past : List (Move ℚ)) (b : JitterBuffer ℚ),
    (system ℚ).Run past b ∧ Always Move.NoWrap past ∧ b.playing = true ∧ b.nextTs = 20 ∧
      b.frames.keys = [10000] ∧ ¬ b.Bounded :=
  ⟨_, _, run ([frame 0, frame 10000] ++ pulls 1), by decide +kernel, by decide +kernel,
    by decide +kernel, by decide +kernel, by decide +kernel⟩

/-! ## Starting at the oldest frame -/

/-- The payload of the oldest frame. -/
def oldest (b : JitterBuffer F) : Option Bytes := b.frames.firstKey?.bind (b.frames[·]?)

/-- The payload of the newest frame. -/
def newest (b : JitterBuffer F) : Option Bytes := b.frames.lastKey?.bind (b.frames[·]?)

/-- If playout starts, it starts with the oldest frame. -/
def RestartsOldest (b : JitterBuffer F) : Prop :=
  b.playing = false → ∀ payload, b.pull.1 = .play payload → b.oldest = some payload

/-- A push that resynchronises finds a miss budget that is not spent. -/
def Move.ResyncsFresh (t : Move F) (_ : List (Move F)) : Prop :=
  ∀ ts payload now, t.label = .push ts payload now → t.pre.isAhead ts = true →
    t.pre.missBudget ≤ missBudgetThreshold

instance (t : Move F) (past : List (Move F)) : Decidable (t.ResyncsFresh past) :=
  match t with
  | ⟨pre, .push ts payload now, _⟩ =>
    decidable_of_iff (pre.isAhead ts = true → pre.missBudget ≤ missBudgetThreshold)
      ⟨fun fresh _ _ _ label => JitterOp.push.inj label |>.1 ▸ fresh,
        fun fresh => fresh ts payload now rfl⟩
  | ⟨_, .pull, _⟩ => isTrue fun _ _ _ label => nomatch label
  | ⟨_, .reset, _⟩ => isTrue fun _ _ _ label => nomatch label

/-- A start with the miss budget unspent takes the oldest frame, and a start with the budget spent
takes the newest. -/
theorem start_payload {b : JitterBuffer F} (idle : b.playing = false) {payload : Bytes}
    (plays : b.pull.1 = .play payload) :
    (if missBudgetThreshold < b.missBudget then b.newest else b.oldest) = some payload := by
  have h := b.pulled
  generalize b.pull = r at h plays
  cases h with
  | waits => cases plays
  | conceals => cases plays
  | drains => cases plays
  | plays running found =>
    cases plays
    obtain ⟨_, nonempty⟩ := start_of_idle idle running
    split
    next spent =>
      obtain ⟨last, key⟩ := Std.ExtTreeMap.exists_lastKey nonempty
      rw [due_of_spent spent key] at found
      rw [newest, key]
      exact found
    next fresh =>
      obtain ⟨first, key⟩ := Std.ExtTreeMap.exists_firstKey nonempty
      rw [due_of_start idle key (Nat.not_lt.mp fresh)] at found
      rw [oldest, key]
      exact found

/-- Playout starts with the oldest frame exactly if the miss budget is not spent, or the newest
frame sounds the same. -/
theorem restartsOldest_iff {b : JitterBuffer F} : b.RestartsOldest ↔
    (b.playing = false → b.isPrimed = true →
      b.missBudget ≤ missBudgetThreshold ∨ b.newest = b.oldest) := by
  constructor
  · intro restarts idle primed
    by_contra bad
    obtain ⟨spent, differ⟩ := not_or.mp bad
    have nonempty : b.frames ≠ ∅ := by
      intro empty
      rw [newest, oldest, Std.ExtTreeMap.lastKey?_eq_none_iff.mpr empty,
        Std.ExtTreeMap.firstKey?_eq_none_iff.mpr empty] at differ
      exact differ rfl
    have running := isRunning_iff.mpr (.inr ⟨primed, nonempty⟩)
    obtain ⟨payload, _, plays⟩ := plays_of_moving (isMoving_iff.mpr ⟨running, nonempty, .inl idle⟩)
    have started := start_payload idle plays
    rw [if_pos (Nat.not_le.mp spent)] at started
    exact differ (started.trans (restarts idle payload plays).symm)
  · intro cond idle payload plays
    have started := start_payload idle plays
    have primed : b.isPrimed = true := by
      have h := b.pulled
      generalize b.pull = r at h plays
      cases h with
      | plays running => exact (start_of_idle idle running).1
      | _ => cases plays
    split at started
    next spent =>
      rcases cond idle primed with fresh | same
      · exact absurd spent (Nat.not_lt.mpr fresh)
      · exact same ▸ started
    next => exact started

section

variable [F64 F] {past : List (Move F)} {b : JitterBuffer F}

/-- A buffer that is not playing has budget left, unless a resynchronisation left it spent. -/
theorem fresh_of_idle (run : (system F).Run past b) (resyncs : Always Move.ResyncsFresh past)
    (idle : b.playing = false) : b.missBudget ≤ missBudgetThreshold := by
  refine run.invariant_under
    (I := fun _ b => b.playing = false → b.missBudget ≤ missBudgetThreshold) ?_ ?_ resyncs idle
  · rintro _ rfl -
    exact Nat.zero_le _
  · rintro past b op _ - rfl resync ih idle
    cases op with
    | reset => exact Nat.zero_le _
    | push ts payload now =>
      have spared := resync ts payload now rfl
      have h := b.pushed ts payload now
      simp only [apply] at idle ⊢
      generalize b.push ts payload now = b' at h idle ⊢
      cases h with
      | late => exact ih idle
      | stored =>
        cases playing : b.playing with
        | false => exact ih playing
        | true =>
          simp only [playing, Bool.true_and, Bool.not_eq_false'] at idle
          exact spared idle
    | pull =>
      have h := b.pulled
      simp only [apply] at h idle ⊢
      generalize b.pull = r at h idle ⊢
      cases h with
      | waits => exact ih idle
      | plays => cases idle
      | conceals playing => exact absurd (playing.symm.trans idle) (by decide)
      | drains => exact Nat.zero_le _

/-- In every run whose resynchronisations find a miss budget that is not spent, playout starts and
restarts with the oldest frame. In any state, it does so exactly if a start with the budget spent
finds a newest frame that sounds like the oldest. -/
theorem restart_oldest (run : (system F).Run past b) :
    (Always Move.ResyncsFresh past → b.RestartsOldest) ∧
      (b.RestartsOldest ↔ (b.playing = false → b.isPrimed = true →
        b.missBudget ≤ missBudgetThreshold ∨ b.newest = b.oldest)) :=
  ⟨fun resyncs => restartsOldest_iff.mpr fun idle _ => .inl (fresh_of_idle run resyncs idle),
    restartsOldest_iff⟩

end

open JitterSample in
/-- The sample resynchronises at a budget of 9, and restarts with the oldest frame. -/
theorem restart_oldest_sample :
    (after ([frame 0, frame 400] ++ pulls 10 ++ [frame 3000, frame 3020])).RestartsOldest :=
  (restart_oldest (run _)).1 (by decide +kernel)

open JitterSample in
/-- A resynchronisation after 61 misses leaves the budget spent, and playout restarts with the
newest of the fresh frames. -/
theorem restart_oldest_fails : ∃ (past : List (Move ℚ)) (b : JitterBuffer ℚ),
    (system ℚ).Run past b ∧ b.playing = false ∧ b.frames.keys = [3000, 3020, 3040] ∧
      b.oldest = some [150] ∧ b.pull.1 = .play [152] ∧ ¬ b.RestartsOldest :=
  ⟨_, _, run ([frame 0, frame 2000] ++ pulls 62 ++ [frame 3000, frame 3020, frame 3040]),
    by decide +kernel, by decide +kernel, by decide +kernel, by decide +kernel, fun restarts =>
      absurd (restarts (by decide +kernel) [152] (by decide +kernel)) (by decide +kernel)⟩

end Iax2.JitterBuffer
