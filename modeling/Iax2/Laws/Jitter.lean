import Iax2.Jitter

/-!
# What one operation of the jitter buffer does

The inversion of `push` and `pull`. The later laws about the buffer read off here what an operation
changes, and unfold neither of the two.

A push touches the estimate in `noteArrival`, and apart from it: a late frame is counted and
nothing else, a frame far ahead of the cursor empties the buffer first, and a full buffer loses its
oldest frame. A pull either waits, or asks for the frame under the timestamp `due`, which is the
oldest one when playout starts, the newest one when the miss budget is spent, and else the cursor.
`Pulled` lists the four things that can then happen.
-/

namespace Iax2.JitterBuffer

variable {F : Type}

/-! ## The cursor -/

/-- One step of the cursor, below the end of the timestamps. -/
theorem step_toNat {ts : UInt32} (nowrap : ts.toNat + frameMs.toNat < 2 ^ 32) :
    (ts + frameMs).toNat = ts.toNat + frameMs.toNat := by
  rw [UInt32.toNat_add, Nat.mod_eq_of_lt nowrap]

/-- The cursor steps past the frame that it was at, and what is before that. -/
theorem lt_step {ts cursor : UInt32} (nowrap : cursor.toNat + frameMs.toNat < 2 ^ 32)
    (le : ts ≤ cursor) : ts < cursor + frameMs := by
  rw [UInt32.lt_iff_toNat_lt, step_toNat nowrap]
  rw [UInt32.le_iff_toNat_le] at le
  exact Nat.lt_of_le_of_lt le (Nat.lt_add_of_pos_right (by decide))

/-- The span between two timestamps and the frame of the last one, if it does not wrap. -/
theorem span_toNat {lo hi : UInt32} (le : lo ≤ hi)
    (short : hi.toNat - lo.toNat + frameMs.toNat < 2 ^ 32) :
    (hi - lo + frameMs).toNat = hi.toNat - lo.toNat + frameMs.toNat := by
  rw [UInt32.toNat_add, UInt32.toNat_sub_of_le _ _ le, Nat.mod_eq_of_lt short]

/-! ## The cap -/

section

variable {b : JitterBuffer F}

theorem dropOldest_of_le {fuel : Nat} (fits : b.frames.size ≤ maxFrames) :
    dropOldest fuel b = b := by
  cases fuel with
  | zero => rfl
  | succ fuel => rw [dropOldest, if_neg (Nat.not_lt.mpr fits)]

/-- What the loop drops it counts, and what it keeps it does not change. With a round for every
frame it gets down to the cap. -/
theorem dropOldest_eq (fuel : Nat) (b : JitterBuffer F) : ∃ frames overflow,
    dropOldest fuel b = { b with frames, overflow } ∧
      (∀ j ∈ frames, frames[j]? = b.frames[j]?) ∧
      overflow + frames.size = b.overflow + b.frames.size ∧
      (b.frames.size ≤ maxFrames + fuel → frames.size ≤ maxFrames) := by
  induction fuel generalizing b with
  | zero => exact ⟨b.frames, b.overflow, rfl, fun _ _ => rfl, rfl, fun fits => fits⟩
  | succ fuel ih =>
    by_cases full : maxFrames < b.frames.size
    · cases oldest : b.frames.firstKey? with
      | none =>
        rw [Std.ExtTreeMap.firstKey?_eq_none_iff.mp oldest, Std.ExtTreeMap.size_empty] at full
        cases full
      | some old =>
        have mem := Std.ExtTreeMap.mem_iff_contains.mp
          (Std.ExtTreeMap.firstKey?_eq_some_iff.mp oldest).1
        have size : (b.frames.erase old).size = b.frames.size - 1 := by
          rw [Std.ExtTreeMap.size_erase, if_pos mem]
        obtain ⟨frames, overflow, h, keeps, total, fits⟩ :=
          ih { b with frames := b.frames.erase old, overflow := b.overflow + 1 }
        simp only [size] at total fits
        refine ⟨frames, overflow, ?_, fun j hj => ?_, by omega, fun le => fits (by omega)⟩
        · simp only [dropOldest, full, if_true, oldest]
          exact h
        · have kept := keeps j hj
          rw [Std.ExtTreeMap.lookup_erase] at kept
          split at kept
          next =>
            rw [Std.ExtTreeMap.mem_iff_isSome_getElem?, kept] at hj
            cases hj
          next => exact kept
    · refine ⟨b.frames, b.overflow, ?_, fun _ _ => rfl, rfl, fun _ => Nat.not_lt.mp full⟩
      simp only [dropOldest, full, if_false]

end

/-! ## Pull -/

/-- The pull asks for a frame: the buffer is playing, or playout starts. -/
def isRunning (b : JitterBuffer F) : Bool := b.playing || b.isPrimed && !b.frames.isEmpty

/-- The timestamp that a pull of a running buffer asks for: the newest frame's if the miss budget is
spent, the oldest frame's if playout starts, and else the cursor. -/
def due (b : JitterBuffer F) : UInt32 :=
  if missBudgetThreshold < b.missBudget then b.frames.lastKey?.getD b.nextTs
  else if b.playing then b.nextTs
  else b.frames.firstKey?.getD b.nextTs

/-- The miss budget once the cursor has jumped, if it has to. -/
def budget (b : JitterBuffer F) : Nat :=
  if missBudgetThreshold < b.missBudget then 0 else b.missBudget

theorem isRunning_iff {b : JitterBuffer F} :
    b.isRunning = true ↔ b.playing = true ∨ b.isPrimed = true ∧ b.frames ≠ ∅ := by
  simp only [isRunning, Bool.or_eq_true, Bool.and_eq_true, Bool.not_eq_true',
    Std.ExtTreeMap.isEmpty_eq_false_iff, ne_eq]

theorem start_of_idle {b : JitterBuffer F} (idle : b.playing = false)
    (running : b.isRunning = true) : b.isPrimed = true ∧ b.frames ≠ ∅ := by
  rw [isRunning_iff, idle] at running
  exact running.resolve_left Bool.false_ne_true

theorem due_of_playing {b : JitterBuffer F} (playing : b.playing = true)
    (fresh : b.missBudget ≤ missBudgetThreshold) : b.due = b.nextTs := by
  rw [due, if_neg (Nat.not_lt.mpr fresh), if_pos playing]

/-- Playout starts at the oldest frame. -/
theorem due_of_start {b : JitterBuffer F} {first : UInt32} (idle : b.playing = false)
    (oldest : b.frames.firstKey? = some first) (fresh : b.missBudget ≤ missBudgetThreshold) :
    b.due = first := by
  rw [due, if_neg (Nat.not_lt.mpr fresh), idle, if_neg Bool.false_ne_true, oldest]
  rfl

/-- A spent budget moves the cursor to the newest frame, also when playout starts. -/
theorem due_of_spent {b : JitterBuffer F} {last : UInt32}
    (spent : missBudgetThreshold < b.missBudget) (newest : b.frames.lastKey? = some last) :
    b.due = last := by
  rw [due, if_pos spent, newest]
  rfl

/-- The frame due of a drained buffer that was playing is at the cursor. -/
theorem due_of_empty {b : JitterBuffer F} (empty : b.frames = ∅) (playing : b.playing = true) :
    b.due = b.nextTs := by
  rw [due, Std.ExtTreeMap.lastKey?_eq_none_iff.mpr empty, if_pos playing]
  exact ite_self _

theorem prime_of_playing {b : JitterBuffer F} (playing : b.playing = true) : b.prime = b := by
  simp only [prime, playing, Bool.not_true, Bool.false_and, Bool.false_eq_true, if_false]

theorem prime_of_start {b : JitterBuffer F} {first : UInt32} (idle : b.playing = false)
    (primed : b.isPrimed = true) (oldest : b.frames.firstKey? = some first) :
    b.prime = { b with nextTs := first, playing := true } := by
  simp only [prime, idle, primed, oldest, Bool.not_false, Bool.and_true, if_true]

theorem prime_of_waiting {b : JitterBuffer F} (waiting : b.isRunning = false) : b.prime = b := by
  rw [prime]
  split
  · next h =>
    have primed := (Bool.and_eq_true_iff.mp h).2
    have empty : b.frames = ∅ := by
      by_contra some
      rw [isRunning_iff.mpr (.inr ⟨primed, some⟩)] at waiting
      cases waiting
    simp only [Std.ExtTreeMap.firstKey?_eq_none_iff.mpr empty]
  · rfl

theorem jump_of_fresh {b : JitterBuffer F} (fresh : b.missBudget ≤ missBudgetThreshold) :
    b.jump = b := if_neg (Nat.not_lt.mpr fresh)

theorem jump_of_spent {b : JitterBuffer F} (spent : missBudgetThreshold < b.missBudget) :
    b.jump = { b with nextTs := b.frames.lastKey?.getD b.nextTs, missBudget := 0 } := by
  rw [jump, if_pos spent]
  cases b.frames.lastKey? <;> rfl

/-- The state from which a running buffer takes the frame due. -/
theorem aim_eq {b : JitterBuffer F} (running : b.isRunning = true) : b.prime.jump =
    { b with nextTs := b.due, playing := true, missBudget := b.budget } := by
  cases playing : b.playing with
  | true =>
    rw [prime_of_playing playing, due, budget, if_pos playing, ← playing]
    by_cases spent : missBudgetThreshold < b.missBudget
    · rw [jump_of_spent spent, if_pos spent, if_pos spent]
    · rw [jump_of_fresh (Nat.not_lt.mp spent), if_neg spent, if_neg spent]
  | false =>
    obtain ⟨primed, some⟩ := start_of_idle playing running
    obtain ⟨first, oldest⟩ := Std.ExtTreeMap.exists_firstKey some
    obtain ⟨last, newest⟩ := Std.ExtTreeMap.exists_lastKey some
    rw [prime_of_start playing primed oldest, budget]
    by_cases spent : missBudgetThreshold < b.missBudget
    · rw [jump_of_spent (b := { b with nextTs := first, playing := true }) spent, if_pos spent,
        due_of_spent spent newest, newest]
      rfl
    · have fresh := Nat.not_lt.mp spent
      rw [jump_of_fresh (b := { b with nextTs := first, playing := true }) fresh, if_neg spent,
        due_of_start playing oldest fresh]

theorem nonempty_of_lookup {b : JitterBuffer F} {ts : UInt32} {payload : Bytes}
    (found : b.frames[ts]? = some payload) : b.frames ≠ ∅ := by
  intro empty
  rw [empty, Std.ExtTreeMap.getElem?_empty] at found
  cases found

/-- What a pull can do, the outcome and the state after it. -/
inductive Pulled (b : JitterBuffer F) : Pull × JitterBuffer F → Prop
  | waits : b.isRunning = false → Pulled b (.silence, b)
  | plays {payload : Bytes} : b.isRunning = true → b.frames[b.due]? = some payload →
      Pulled b (.play payload,
        { b with
          frames := b.frames.erase b.due
          nextTs := b.due + frameMs
          playing := true
          played := b.played + 1
          missBudget := b.budget - missBudgetDecayOnPlay })
  /-- only a cursor that neither starts nor jumps can miss -/
  | conceals : b.playing = true → b.missBudget ≤ missBudgetThreshold → b.nextTs ∉ b.frames →
      b.frames ≠ ∅ →
      Pulled b (.conceal,
        { b with
          nextTs := b.nextTs + frameMs
          concealed := b.concealed + 1
          missBudget := b.missBudget + 1 })
  | drains : b.playing = true → b.frames = ∅ →
      Pulled b (.silence, { b with playing := false, missBudget := 0 })

/-- A running buffer finds a frame when the cursor starts or jumps. -/
theorem misses {b : JitterBuffer F} (running : b.isRunning = true) (some : b.frames ≠ ∅)
    (missing : b.due ∉ b.frames) : b.playing = true ∧ b.missBudget ≤ missBudgetThreshold := by
  have fresh : b.missBudget ≤ missBudgetThreshold := by
    by_contra spent
    obtain ⟨last, newest⟩ := Std.ExtTreeMap.exists_lastKey some
    rw [due_of_spent (Nat.not_le.mp spent) newest] at missing
    exact missing (Std.ExtTreeMap.lastKey?_eq_some_iff.mp newest).1
  refine ⟨?_, fresh⟩
  rcases isRunning_iff.mp running with playing | _
  · exact playing
  · by_contra idle
    obtain ⟨first, oldest⟩ := Std.ExtTreeMap.exists_firstKey some
    rw [due_of_start (Bool.eq_false_iff.mpr idle) oldest fresh] at missing
    exact missing (Std.ExtTreeMap.firstKey?_eq_some_iff.mp oldest).1

theorem pull_of_waiting {b : JitterBuffer F} (waiting : b.isRunning = false) :
    b.pull = (.silence, b) := by
  have idle : b.playing = false := (Bool.or_eq_false_iff.mp waiting).1
  simp only [pull, prime_of_waiting waiting, idle]
  rfl

theorem pull_of_running {b : JitterBuffer F} (running : b.isRunning = true) :
    b.pull = b.prime.jump.takeDue := by
  refine if_pos ?_
  cases playing : b.playing with
  | true => rw [prime_of_playing playing, playing]
  | false =>
    obtain ⟨primed, some⟩ := start_of_idle playing running
    obtain ⟨first, oldest⟩ := Std.ExtTreeMap.exists_firstKey some
    rw [prime_of_start playing primed oldest]

theorem pulled (b : JitterBuffer F) : Pulled b b.pull := by
  cases running : b.isRunning with
  | false =>
    rw [pull_of_waiting running]
    exact .waits running
  | true =>
    rw [pull_of_running running, aim_eq running, takeDue]
    cases found : b.frames[b.due]? with
    | some payload =>
      exact .plays running found
    | none =>
      have missing : b.due ∉ b.frames := by
        rw [Std.ExtTreeMap.mem_iff_isSome_getElem?, found]
        exact Bool.false_ne_true
      cases empty : b.frames.isEmpty with
      | true =>
        simp only [if_true]
        have empty := Std.ExtTreeMap.isEmpty_iff.mp empty
        have playing : b.playing = true := by
          rcases isRunning_iff.mp running with playing | ⟨_, some⟩
          · exact playing
          · exact absurd empty some
        rw [due_of_empty empty playing]
        exact .drains playing empty
      | false =>
        simp only [Bool.false_eq_true, if_false]
        have some := Std.ExtTreeMap.isEmpty_eq_false_iff.mp empty
        obtain ⟨playing, fresh⟩ := misses running some missing
        have budget : b.budget = b.missBudget := if_neg (Nat.not_lt.mpr fresh)
        rw [due_of_playing playing fresh] at missing ⊢
        rw [budget, ← playing]
        exact .conceals playing fresh missing some

/-- What a pull returns for the content of the slot that it asks for. -/
def answer : Option Bytes → Pull
  | some payload => .play payload
  | none => .conceal

theorem answer_ne_silence (content : Option Bytes) : answer content ≠ .silence := by
  cases content <;> exact Pull.noConfusion

/-- A pull of a running buffer with frames in it takes the frame due, if it is there, and moves the
cursor past it. -/
theorem pull_asks {b : JitterBuffer F} (running : b.isRunning = true) (some : b.frames ≠ ∅) :
    b.pull.1 = answer b.frames[b.due]? ∧ b.pull.2.playing = true ∧
      b.pull.2.nextTs = b.due + frameMs ∧
      ∀ ts : UInt32, b.pull.2.frames[ts]? = if ts = b.due then none else b.frames[ts]? := by
  have h := b.pulled
  generalize b.pull = r at h ⊢
  cases h with
  | waits waiting => rw [running] at waiting; cases waiting
  | drains _ empty => exact absurd empty some
  | plays _ found =>
    rw [found]
    exact ⟨rfl, rfl, rfl, fun ts => Std.ExtTreeMap.lookup_erase b.frames b.due ts⟩
  | conceals playing fresh missing =>
    have absent := Std.ExtTreeMap.getElem?_eq_none missing
    rw [due_of_playing playing fresh, absent]
    refine ⟨rfl, playing, rfl, fun ts => ?_⟩
    split
    next same => rw [same, absent]
    next => rfl

/-- The frames that such a pull leaves. -/
theorem mem_pull_asks {b : JitterBuffer F} (running : b.isRunning = true) (some : b.frames ≠ ∅)
    {ts : UInt32} : ts ∈ b.pull.2.frames ↔ ts ≠ b.due ∧ ts ∈ b.frames := by
  simp only [Std.ExtTreeMap.mem_iff_isSome_getElem?, (pull_asks running some).2.2.2]
  split
  next same => simp only [same, Option.isSome_none, Bool.false_eq_true, ne_eq, not_true, false_and]
  next other => simp only [ne_eq, other, not_false_eq_true, true_and]

/-- A pull asks for a frame, or the buffer is not running or has none. -/
theorem asks_or_rests (b : JitterBuffer F) :
    (b.isRunning = true ∧ b.frames ≠ ∅) ∨ (b.isRunning = true → b.frames = ∅) := by
  by_cases empty : b.frames = ∅
  · exact .inr fun _ => empty
  · by_cases running : b.isRunning = true
    · exact .inl ⟨running, empty⟩
    · exact .inr fun runs => absurd runs running

/-- Any other pull is silent and leaves the buffer priming. -/
theorem pull_rests {b : JitterBuffer F} (rests : b.isRunning = true → b.frames = ∅) :
    b.pull.1 = .silence ∧ b.pull.2.playing = false := by
  have h := b.pulled
  generalize b.pull = r at h ⊢
  cases h with
  | waits waiting => exact ⟨rfl, (Bool.or_eq_false_iff.mp waiting).1⟩
  | plays running found => exact absurd (rests running) (nonempty_of_lookup found)
  | conceals playing _ _ some => exact absurd (rests (isRunning_iff.mpr (.inl playing))) some
  | drains => exact ⟨rfl, rfl⟩

/-- A frame is concealed by a playing buffer with budget left, which it costs: the frame at the
cursor is missing, and there are others. -/
theorem pull_conceal {b : JitterBuffer F} (conceals : b.pull.1 = .conceal) :
    b.playing = true ∧ b.missBudget ≤ missBudgetThreshold ∧ b.nextTs ∉ b.frames ∧ b.frames ≠ ∅ ∧
      b.pull.2.missBudget = b.missBudget + 1 := by
  have h := b.pulled
  generalize b.pull = r at h conceals ⊢
  cases h with
  | conceals playing fresh missing some => exact ⟨playing, fresh, missing, some, rfl⟩
  | _ => cases conceals

section

variable [F64 F]

/-! ## Push -/

section

variable (b : JitterBuffer F) (ts : UInt32) (now : Instant)

/-- Noting an arrival changes the estimate, the target depth and the newest arrival. -/
theorem noteArrival_eq : ∃ targetMs jitter lastArrival,
    b.noteArrival ts now = { b with targetMs, jitter, lastArrival } := by
  simp only [noteArrival, recomputeTarget]
  split <;> split <;> (try split) <;> exact ⟨_, _, _, rfl⟩

@[simp] theorem noteArrival_frames : (b.noteArrival ts now).frames = b.frames := by
  obtain ⟨_, _, _, h⟩ := b.noteArrival_eq ts now
  rw [h]

@[simp] theorem noteArrival_nextTs : (b.noteArrival ts now).nextTs = b.nextTs := by
  obtain ⟨_, _, _, h⟩ := b.noteArrival_eq ts now
  rw [h]

@[simp] theorem noteArrival_playing : (b.noteArrival ts now).playing = b.playing := by
  obtain ⟨_, _, _, h⟩ := b.noteArrival_eq ts now
  rw [h]

@[simp] theorem noteArrival_late : (b.noteArrival ts now).late = b.late := by
  obtain ⟨_, _, _, h⟩ := b.noteArrival_eq ts now
  rw [h]

@[simp] theorem noteArrival_isLate : (b.noteArrival ts now).isLate ts = b.isLate ts := by
  simp only [isLate, noteArrival_playing, noteArrival_nextTs]

@[simp] theorem noteArrival_isAhead : (b.noteArrival ts now).isAhead ts = b.isAhead ts := by
  simp only [isAhead, noteArrival_playing, noteArrival_nextTs]

/-- The frames of the buffer once a frame that is not late is entered, before the cap applies. -/
def entered (payload : Bytes) : Std.ExtTreeMap UInt32 Bytes :=
  (if b.isAhead ts then ∅ else b.frames).insert ts payload

theorem push_of_late (payload : Bytes) (late : b.isLate ts = true) :
    b.push ts payload now = { b.noteArrival ts now with late := b.late + 1 } := by
  simp only [push, noteArrival_isLate, late, if_true, noteArrival_late]

theorem push_of_stored (payload : Bytes) (late : b.isLate ts = false) :
    b.push ts payload now = dropOldest (b.entered ts payload).size
      { b.noteArrival ts now with
        frames := b.entered ts payload
        playing := b.playing && !b.isAhead ts } := by
  simp only [push, noteArrival_isLate, late, noteArrival_isAhead, entered]
  cases b.isAhead ts with
  | false =>
    simp only [Bool.false_eq_true, if_false, noteArrival_frames, Bool.not_false, Bool.and_true,
      ← noteArrival_playing b ts now]
  | true => simp only [Bool.false_eq_true, if_false, if_true, Bool.not_true, Bool.and_false]

/-- A push leaves the target depth as the arrival sets it. -/
theorem push_targetMs (payload : Bytes) :
    (b.push ts payload now).targetMs = (b.noteArrival ts now).targetMs := by
  cases late : b.isLate ts with
  | true => rw [push_of_late b ts now payload late]
  | false =>
    obtain ⟨_, _, drop, _⟩ := dropOldest_eq (b.entered ts payload).size
      { b.noteArrival ts now with
        frames := b.entered ts payload
        playing := b.playing && !b.isAhead ts }
    rw [push_of_stored b ts now payload late, drop]

/-- The target depth is never set below the minimal depth. -/
theorem minDepthMs_le_noteArrival (le : minDepthMs ≤ b.targetMs) :
    minDepthMs ≤ (b.noteArrival ts now).targetMs := by
  have clamped (t : UInt32) : minDepthMs ≤ max minDepthMs t := by
    show minDepthMs ≤ if minDepthMs ≤ t then t else minDepthMs
    split
    · assumption
    · exact UInt32.le_refl _
  simp only [noteArrival, recomputeTarget]
  split <;> split <;> (try split) <;> first | exact le | exact clamped _

end

/-! ## What every push keeps -/

/-- What a push can do to a buffer. -/
inductive Pushed (b : JitterBuffer F) (ts : UInt32) (payload : Bytes) : JitterBuffer F → Prop
  | late {targetMs jitter lastArrival} : b.isLate ts = true →
      Pushed b ts payload { b with targetMs, jitter, lastArrival, late := b.late + 1 }
  | stored {targetMs jitter lastArrival frames overflow} : b.isLate ts = false →
      (∀ j ∈ frames, frames[j]? = (b.entered ts payload)[j]?) →
      overflow + frames.size = b.overflow + (b.entered ts payload).size →
      frames.size ≤ maxFrames →
      Pushed b ts payload
        { b with
          frames, targetMs, jitter, lastArrival, overflow
          playing := b.playing && !b.isAhead ts }

theorem pushed (b : JitterBuffer F) (ts : UInt32) (payload : Bytes) (now : Instant) :
    Pushed b ts payload (b.push ts payload now) := by
  obtain ⟨targetMs, jitter, lastArrival, note⟩ := b.noteArrival_eq ts now
  cases late : b.isLate ts with
  | true =>
    rw [push_of_late b ts now payload late, note]
    exact .late late
  | false =>
    obtain ⟨frames, overflow, drop, keeps, total, fits⟩ :=
      dropOldest_eq (b.entered ts payload).size
        { b.noteArrival ts now with
          frames := b.entered ts payload
          playing := b.playing && !b.isAhead ts }
    rw [push_of_stored b ts now payload late, drop]
    rw [note] at total ⊢
    exact .stored late keeps total (fits (Nat.le_add_left _ _))

omit [F64 F] in
/-- A key that the push left was entered. -/
theorem mem_entered {frames : Std.ExtTreeMap UInt32 Bytes} {b : JitterBuffer F} {ts j : UInt32}
    {payload : Bytes} (keeps : ∀ j ∈ frames, frames[j]? = (b.entered ts payload)[j]?)
    (member : j ∈ frames) : j ∈ b.entered ts payload := by
  rw [Std.ExtTreeMap.mem_iff_isSome_getElem?, ← keeps j member]
  exact Std.ExtTreeMap.mem_iff_isSome_getElem?.mp member

/-- A push that leaves the buffer playing leaves the cursor, and enters a frame at the cursor or at
most twice the maximal depth after it. -/
theorem push_playing {b : JitterBuffer F} {ts : UInt32} {payload : Bytes} {now : Instant}
    (playing : (b.push ts payload now).playing = true) :
    b.playing = true ∧ (b.push ts payload now).nextTs = b.nextTs ∧
      ∀ j ∈ (b.push ts payload now).frames, j ∈ b.frames ∨
        j = ts ∧ b.nextTs ≤ ts ∧ ts.toNat ≤ b.nextTs.toNat + 2 * maxDepthMs.toNat := by
  have h := b.pushed ts payload now
  generalize b.push ts payload now = b' at h playing ⊢
  cases h with
  | late _ => exact ⟨playing, rfl, fun _ member => .inl member⟩
  | stored onTime keeps =>
    obtain ⟨before, near⟩ := Bool.and_eq_true_iff.mp playing
    have near : b.isAhead ts = false := Bool.not_eq_true' _ ▸ near
    refine ⟨before, rfl, fun j member => ?_⟩
    have member := mem_entered keeps member
    rw [entered, near, if_neg Bool.false_ne_true, Std.ExtTreeMap.mem_insert_iff] at member
    rcases member with rfl | old
    · simp only [isLate, isAhead, before, Bool.true_and, decide_eq_false_iff_not] at onTime near
      refine .inr ⟨rfl, UInt32.not_lt.mp onTime, by omega⟩
    · exact .inl old

end

end Iax2.JitterBuffer
