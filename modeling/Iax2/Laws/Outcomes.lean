import Iax2.Laws.Jitter
import Mathlib.Data.List.Nodup

/-!
# What the pulls return

The results of the pulls, along any list of operations. Three laws are about nothing but these: a
run of concealed frames is at most 61 long (`conceal_streak_le`), a reset buffer answers like a new
one (`reset_outcomes`), and frames that arrive in any order come out in theirs, with one concealment
for each missing slot (`reordering_undone`).
-/

namespace Iax2.JitterBuffer

variable {F : Type}

/-! ## Concealment -/

section

variable [F64 F]

/-- A push leaves the miss budget alone, also when it resynchronises. -/
theorem push_missBudget (b : JitterBuffer F) (ts : UInt32) (payload : Bytes) (now : Instant) :
    (b.push ts payload now).missBudget = b.missBudget := by
  have h := b.pushed ts payload now
  generalize b.push ts payload now = b' at h ⊢
  cases h <;> rfl

/-- Concealments that begin with the next pull all cost budget, whatever is pushed in between: only
a pull that does not conceal, or a reset, ends the playout or pays back. -/
theorem conceal_streak (ops : List JitterOp) (b : JitterBuffer F) (n : Nat)
    (streak : List.replicate (n + 1) Pull.conceal <+: b.outcomes ops) :
    b.playing = true ∧ b.missBudget + n ≤ missBudgetThreshold := by
  induction ops generalizing b n with
  | nil => cases List.prefix_nil.mp streak
  | cons op ops ih =>
    cases op with
    | push ts payload now =>
      obtain ⟨playing, budget⟩ := ih _ n streak
      exact ⟨(push_playing playing).1, push_missBudget b ts payload now ▸ budget⟩
    | reset => cases (ih _ n streak).1
    | pull =>
      obtain ⟨first, rest⟩ := List.cons_prefix_cons.mp streak
      obtain ⟨playing, fresh, _, _, budget⟩ := pull_conceal first.symm
      refine ⟨playing, ?_⟩
      cases n with
      | zero => exact fresh
      | succ n =>
        have left := (ih _ n rest).2
        rw [apply, budget] at left
        omega

/-- The results of the later pulls are results of the buffer as it is then. -/
theorem outcomes_suffix (ops : List JitterOp) (b : JitterBuffer F) {rest : List Pull}
    (suffix : rest <:+ b.outcomes ops) :
    ∃ (b' : JitterBuffer F) (ops' : List JitterOp), b'.outcomes ops' = rest := by
  induction ops generalizing b with
  | nil => exact ⟨b, [], (List.suffix_nil.mp suffix).symm⟩
  | cons op ops ih =>
    cases op with
    | pull =>
      rcases List.suffix_cons_iff.mp suffix with rfl | suffix
      · exact ⟨b, .pull :: ops, rfl⟩
      · exact ih _ suffix
    | _ => exact ih _ suffix

/-- Of the pulls of any continuation, with any pushes and resets between them, at most 61 in a row
conceal, and of any 62 in a row one does not. -/
theorem conceal_streak_le (b : JitterBuffer F) (ops : List JitterOp) (streak : List Pull)
    (consecutive : streak <:+: b.outcomes ops) :
    ((∀ r ∈ streak, r = .conceal) → streak.length ≤ 61) ∧
      (streak.length = 62 → ∃ r ∈ streak, r = .silence ∨ ∃ payload, r = .play payload) := by
  have bound : (∀ r ∈ streak, r = .conceal) → streak.length ≤ 61 := by
    intro conceals
    obtain ⟨before, after, split⟩ := consecutive
    have suffix : streak ++ after <:+ b.outcomes ops :=
      ⟨before, by rw [← List.append_assoc, split]⟩
    obtain ⟨b', ops', outcomes⟩ := outcomes_suffix ops b suffix
    cases length : streak.length with
    | zero => exact Nat.zero_le _
    | succ n =>
      have all : streak = List.replicate (n + 1) .conceal :=
        List.eq_replicate_iff.mpr ⟨length, conceals⟩
      have budget := (conceal_streak ops' b' n (outcomes ▸ all ▸ List.prefix_append _ _)).2
      simp only [missBudgetThreshold] at budget
      omega
  refine ⟨bound, fun length => ?_⟩
  by_contra none
  refine absurd (bound fun r member => ?_) (by omega)
  cases r with
  | conceal => rfl
  | silence => exact absurd ⟨_, member, .inl rfl⟩ none
  | play payload => exact absurd ⟨_, member, .inr ⟨payload, rfl⟩⟩ none

open JitterSample in
/-- Two frames two seconds apart: between the two plays the pulls conceal, as long as they may. -/
theorem conceal_streak_sample :
    let returned := (after [frame 0, frame 2000]).outcomes (pulls 63)
    (∀ r ∈ returned.tail.dropLast, r = .conceal) ∧ returned.tail.dropLast.length ≤ 61 ∧
      ∃ r ∈ returned.tail, r = .silence ∨ ∃ payload, r = .play payload := by
  intro returned
  have conceals : ∀ r ∈ returned.tail.dropLast, r = .conceal := by decide +kernel
  have later : returned.tail <:+: returned := (List.tail_suffix _).isInfix
  exact ⟨conceals,
    (conceal_streak_le _ _ _ ((List.dropLast_prefix _).isInfix.trans later)).1 conceals,
    (conceal_streak_le _ _ _ later).2 (by decide +kernel)⟩

end

/-! ## Reset -/

/-- The buffer with another cursor, and the counters of `old` on top of its own. -/
def carry (old : JitterBuffer F) (nextTs : UInt32) (b : JitterBuffer F) : JitterBuffer F :=
  { b with
    nextTs
    played := old.played + b.played
    concealed := old.concealed + b.concealed
    late := old.late + b.late
    overflow := old.overflow + b.overflow }

section

variable (old : JitterBuffer F) (n : UInt32) (b : JitterBuffer F)

theorem noteArrival_carry [F64 F] (ts : UInt32) (now : Instant) :
    (carry old n b).noteArrival ts now = carry old n (b.noteArrival ts now) := by
  cases last : b.lastArrival with
  | none => simp only [noteArrival, carry, last, or_true, if_true]
  | some prev =>
    by_cases newer : prev.1 < ts
    · simp only [noteArrival, recomputeTarget, carry, last, Option.map_some, Option.getD_some,
        newer, true_or, if_true]
    · simp only [noteArrival, carry, last, Option.map_some, Option.getD_some, newer, reduceCtorEq,
        or_self, if_false]

theorem dropOldest_carry (fuel : Nat) :
    dropOldest fuel (carry old n b) = carry old n (dropOldest fuel b) := by
  induction fuel generalizing b with
  | zero => rfl
  | succ fuel ih =>
    by_cases full : maxFrames < b.frames.size
    · cases oldest : b.frames.firstKey? with
      | none => simp only [dropOldest, carry, full, if_true, oldest]
      | some first =>
        have fewer : dropOldest (fuel + 1) (carry old n b) = dropOldest fuel
            (carry old n
              { b with frames := b.frames.erase first, overflow := b.overflow + 1 }) := by
          simp only [dropOldest, carry, full, if_true, oldest, Nat.add_assoc]
        have fewer' : dropOldest (fuel + 1) b = dropOldest fuel
            { b with frames := b.frames.erase first, overflow := b.overflow + 1 } := by
          simp only [dropOldest, full, if_true, oldest]
        rw [fewer, fewer', ih]
    · simp only [dropOldest, carry, full, if_false]

/-- A push reads the cursor of a playing buffer only, and no counter. -/
theorem push_carry [F64 F] (cursor : b.playing = true → n = b.nextTs) (ts : UInt32)
    (payload : Bytes) (now : Instant) :
    (carry old n b).push ts payload now = carry old n (b.push ts payload now) := by
  have late : (carry old n b).isLate ts = b.isLate ts := by
    cases playing : b.playing with
    | false => simp only [isLate, carry, playing, Bool.false_and]
    | true => simp only [isLate, carry, cursor playing]
  have ahead : (carry old n b).isAhead ts = b.isAhead ts := by
    cases playing : b.playing with
    | false => simp only [isAhead, carry, playing, Bool.false_and]
    | true => simp only [isAhead, carry, cursor playing]
  cases h : b.isLate ts with
  | true =>
    rw [push_of_late b ts now payload h, push_of_late _ ts now payload (late.trans h),
      noteArrival_carry]
    rfl
  | false =>
    have entered : (carry old n b).entered ts payload = b.entered ts payload := by
      rw [entered, entered, ahead]
      rfl
    rw [push_of_stored b ts now payload h, push_of_stored _ ts now payload (late.trans h), entered,
      ahead, noteArrival_carry, ← dropOldest_carry]
    rfl

/-- Where a pull asks for a frame, it has set the cursor or it was playing. -/
theorem prime_carry (cursor : b.playing = true → n = b.nextTs) (running : b.isRunning = true) :
    (carry old n b).prime = carry old b.prime.nextTs b.prime := by
  cases playing : b.playing with
  | true =>
    rw [prime_of_playing playing, cursor playing, prime_of_playing (b := carry old _ b) playing]
  | false =>
    obtain ⟨primed, some⟩ := start_of_idle playing running
    obtain ⟨first, oldest⟩ := Std.ExtTreeMap.exists_firstKey some
    rw [prime_of_start playing primed oldest,
      prime_of_start (b := carry old n b) playing primed oldest]
    rfl

theorem jump_carry : (carry old b.nextTs b).jump = carry old b.jump.nextTs b.jump := by
  by_cases spent : missBudgetThreshold < b.missBudget
  · simp only [jump, carry, spent, if_true]
  · simp only [jump, carry, spent, if_false]

theorem takeDue_carry : (carry old b.nextTs b).takeDue =
    (b.takeDue.1, carry old b.takeDue.2.nextTs b.takeDue.2) := by
  cases found : b.frames[b.nextTs]? with
  | some payload => simp only [takeDue, carry, found, Nat.add_assoc]
  | none =>
    cases empty : b.frames.isEmpty with
    | true => simp only [takeDue, carry, found, empty, if_true]
    | false => simp only [takeDue, carry, found, empty, Bool.false_eq_true, if_false, Nat.add_assoc]

/-- A pull reads the cursor of a playing buffer only, and no counter. -/
theorem pull_carry (cursor : b.playing = true → n = b.nextTs) :
    ∃ n', (carry old n b).pull = (b.pull.1, carry old n' b.pull.2) ∧
      (b.pull.2.playing = true → n' = b.pull.2.nextTs) := by
  have same : (carry old n b).isRunning = b.isRunning := by
    rw [Bool.eq_iff_iff, isRunning_iff, isRunning_iff]
    exact Iff.rfl
  cases running : b.isRunning with
  | false =>
    rw [pull_of_waiting running, pull_of_waiting (same.trans running)]
    exact ⟨n, rfl, cursor⟩
  | true =>
    rw [pull_of_running running, pull_of_running (same.trans running),
      prime_carry old n b cursor running, jump_carry, takeDue_carry]
    exact ⟨_, rfl, fun _ => rfl⟩

end

/-- Two buffers that differ in the counters, and in the cursor while they are not playing, answer
alike and go on to differ in these only. -/
theorem outcomes_carry [F64 F] (old : JitterBuffer F) (ops : List JitterOp) (b : JitterBuffer F)
    (n : UInt32) (cursor : b.playing = true → n = b.nextTs) :
    (carry old n b).outcomes ops = b.outcomes ops ∧
      ∃ n', (carry old n b).applyAll ops = carry old n' (b.applyAll ops) := by
  induction ops generalizing b n with
  | nil => exact ⟨rfl, n, rfl⟩
  | cons op ops ih =>
    cases op with
    | reset => exact ih b.reset n fun playing => (nomatch playing)
    | push ts payload now =>
      have step : (carry old n b).apply (.push ts payload now) =
          carry old n (b.apply (.push ts payload now)) := push_carry old n b cursor ts payload now
      have rest := ih (b.push ts payload now) n fun playing => by
        rw [(push_playing playing).2.1]
        exact cursor (push_playing playing).1
      simp only [outcomes, applyAll, List.foldl_cons, step]
      exact rest
    | pull =>
      obtain ⟨n', step, cursor'⟩ := pull_carry old n b cursor
      obtain ⟨outcomes, n'', after⟩ := ih b.pull.2 n' cursor'
      refine ⟨?_, n'', ?_⟩
      · simp only [JitterBuffer.outcomes, outcome, apply, step, outcomes]
      · simp only [applyAll, List.foldl_cons, apply, step]
        exact after

/-- A reset buffer answers every sequence of operations like a new one, aims at the same depth, and
counts the same on top of what it had counted. -/
theorem reset_outcomes [F64 F] (b : JitterBuffer F) (ops : List JitterOp) :
    b.reset.outcomes ops = (new : JitterBuffer F).outcomes ops ∧
      (b.reset.applyAll ops).targetMs = ((new : JitterBuffer F).applyAll ops).targetMs ∧
      (b.reset.applyAll ops).played = b.played + ((new : JitterBuffer F).applyAll ops).played ∧
      (b.reset.applyAll ops).concealed =
        b.concealed + ((new : JitterBuffer F).applyAll ops).concealed ∧
      (b.reset.applyAll ops).late = b.late + ((new : JitterBuffer F).applyAll ops).late ∧
      (b.reset.applyAll ops).overflow =
        b.overflow + ((new : JitterBuffer F).applyAll ops).overflow := by
  have carried : b.reset = carry b b.nextTs new := rfl
  obtain ⟨outcomes, n, after⟩ :=
    outcomes_carry b ops new b.nextTs fun playing => (nomatch playing)
  rw [carried, outcomes, after]
  exact ⟨rfl, rfl, rfl, rfl, rfl, rfl⟩

/-! ## Reordering -/

/-- The timestamp of the slot `k` after `lo`. -/
def slot (lo : UInt32) (k : Nat) : UInt32 := lo + UInt32.ofNat (k * frameMs.toNat)

theorem slot_toNat {lo : UInt32} {k : Nat} (inside : lo.toNat + k * frameMs.toNat < 2 ^ 32) :
    (slot lo k).toNat = lo.toNat + k * frameMs.toNat := by
  have offset : k * frameMs.toNat % 2 ^ 32 = k * frameMs.toNat := Nat.mod_eq_of_lt (by omega)
  rw [slot, UInt32.toNat_add, UInt32.toNat_ofNat', offset, Nat.mod_eq_of_lt inside]

theorem slot_zero (lo : UInt32) : slot lo 0 = lo := by
  rw [slot, Nat.zero_mul]
  exact UInt32.add_zero lo

/-- The slots after the next one are the later slots. -/
theorem slot_succ (lo : UInt32) (k : Nat) : slot (lo + frameMs) k = slot lo (k + 1) := by
  rw [slot, slot, Nat.succ_mul, UInt32.ofNat_add, UInt32.ofNat_toNat, UInt32.add_assoc,
    UInt32.add_comm frameMs]

/-- Only a slot without a frame costs budget. -/
theorem pull_budget {b : JitterBuffer F} (running : b.isRunning = true) (some : b.frames ≠ ∅)
    (fresh : b.missBudget ≤ missBudgetThreshold) :
    b.pull.2.missBudget ≤ b.missBudget + if b.frames[b.due]? = none then 1 else 0 := by
  have h := b.pulled
  generalize b.pull = r at h ⊢
  cases h with
  | waits waiting => rw [running] at waiting; cases waiting
  | drains _ empty => exact absurd empty some
  | plays =>
    have budget : b.budget = b.missBudget := if_neg (Nat.not_lt.mpr fresh)
    rw [budget]
    exact Nat.le_trans (Nat.sub_le _ _) (Nat.le_add_right _ _)
  | conceals playing _ missing =>
    rw [due_of_playing playing fresh, if_pos (Std.ExtTreeMap.getElem?_eq_none missing)]

/-- The number of slots without a frame, of the `n` slots from `c` on. -/
def gaps (content : UInt32 → Option Bytes) (c : UInt32) (n : Nat) : Nat :=
  (List.range n).countP fun k => content (slot c k) = none

theorem gaps_succ (content : UInt32 → Option Bytes) (c : UInt32) (n : Nat) :
    gaps content c (n + 1) =
      (if content c = none then 1 else 0) + gaps content (c + frameMs) n := by
  rw [gaps, List.range_succ_eq_map, List.countP_cons, List.countP_map, Nat.add_comm, gaps,
    slot_zero]
  simp only [Function.comp_def, slot_succ, decide_eq_true_eq]

/-- The buffer is about to be asked for the slots from `c` on, `m` of them after the first. It holds
their content, the last one's at least, and it has budget for the gaps. -/
structure Stocked (content : UInt32 → Option Bytes) (b : JitterBuffer F) (c : UInt32) (m : Nat) :
    Prop where
  running : b.isRunning = true
  due : b.due = c
  budget : b.missBudget + gaps content c (m + 1) ≤ missBudgetThreshold
  inside : c.toNat + m * frameMs.toNat < 2 ^ 32
  slots : ∀ ts ∈ b.frames, ∃ k ≤ m, ts = slot c k
  holds : ∀ k ≤ m, b.frames[slot c k]? = content (slot c k)
  last : content (slot c m) ≠ none

section

variable {content : UInt32 → Option Bytes} {b : JitterBuffer F} {c : UInt32} {m : Nat}

theorem Stocked.some (h : b.Stocked content c m) : b.frames ≠ ∅ := by
  obtain ⟨payload, present⟩ := Option.ne_none_iff_exists'.mp h.last
  exact nonempty_of_lookup ((h.holds m (Nat.le_refl m)).trans present)

theorem Stocked.first (h : b.Stocked content c m) : b.frames[b.due]? = content c := by
  have first := h.holds 0 (Nat.zero_le m)
  rw [slot_zero] at first
  rw [h.due, first]

/-- The pull returns the content of the first slot, and leaves the frames of the later ones. -/
theorem Stocked.pull (h : b.Stocked content c m) : b.pull.1 = answer (content c) ∧
    b.pull.2.playing = true ∧ ∀ ts ∈ b.pull.2.frames, ∃ k < m, ts = slot (c + frameMs) k := by
  obtain ⟨returns, playing, _, _⟩ := pull_asks h.running h.some
  rw [h.first] at returns
  refine ⟨returns, playing, fun ts member => ?_⟩
  obtain ⟨other, member⟩ := (mem_pull_asks h.running h.some).mp member
  obtain ⟨k, le, rfl⟩ := h.slots ts member
  cases k with
  | zero => exact absurd ((slot_zero c).trans h.due.symm) other
  | succ k => exact ⟨k, le, (slot_succ c k).symm⟩

/-- The later slots are other timestamps. -/
theorem Stocked.apart (h : b.Stocked content c m) {k : Nat} (lt : k < m) : slot c (k + 1) ≠ c := by
  have within : c.toNat + (k + 1) * frameMs.toNat < 2 ^ 32 :=
    Nat.lt_of_le_of_lt (Nat.add_le_add_left (Nat.mul_le_mul_right _ lt) _) h.inside
  intro same
  have offset := slot_toNat within
  rw [same, Nat.succ_mul] at offset
  simp only [frameMs, UInt32.reduceToNat] at offset
  omega

/-- After the pull it is about to be asked for the later slots. -/
theorem Stocked.next (h : b.Stocked content c (m + 1)) :
    b.pull.2.Stocked content (c + frameMs) m := by
  obtain ⟨_, playing, cursor, frames⟩ := pull_asks h.running h.some
  have budget := h.budget
  have spends := pull_budget h.running h.some (by omega)
  have inside := h.inside
  rw [gaps_succ] at budget
  rw [h.first] at spends
  rw [Nat.succ_mul] at inside
  refine ⟨isRunning_iff.mpr (.inl playing), ?_, by omega, ?_, fun ts member => ?_,
    fun k le => ?_, ?_⟩
  · rw [due_of_playing playing (by omega), cursor, h.due]
  · rw [step_toNat (by omega)]
    omega
  · obtain ⟨k, lt, same⟩ := h.pull.2.2 ts member
    exact ⟨k, Nat.le_of_lt_succ lt, same⟩
  · rw [slot_succ, frames, h.due, if_neg (h.apart (Nat.lt_succ_of_le le))]
    exact h.holds (k + 1) (Nat.succ_le_succ le)
  · rw [slot_succ]
    exact h.last

/-- A buffer that is asked for its slots one after the other returns what it holds for each of
them. -/
theorem Stocked.drain [F64 F] (h : b.Stocked content c m) :
    b.outcomes (List.replicate (m + 1) .pull) =
        (List.range (m + 1)).map (fun k => answer (content (slot c k))) ∧
      (b.applyAll (List.replicate (m + 1) .pull)).playing = true ∧
      (b.applyAll (List.replicate (m + 1) .pull)).frames = ∅ := by
  induction m generalizing b c with
  | zero =>
    obtain ⟨returns, playing, left⟩ := h.pull
    refine ⟨?_, playing, Std.ExtTreeMap.eq_empty_iff_forall_not_mem.mpr fun ts member => ?_⟩
    · simp only [List.replicate, outcomes, outcome, returns, Option.toList_some, List.append_nil,
        List.range_succ, List.range_zero, List.nil_append, List.map_cons, List.map_nil, slot_zero]
    · obtain ⟨k, lt, _⟩ := left ts member
      exact absurd lt (Nat.not_lt_zero k)
  | succ m ih =>
    obtain ⟨rest, playing, empty⟩ := ih h.next
    refine ⟨?_, playing, empty⟩
    have unroll : b.outcomes (List.replicate (m + 2) .pull) =
        b.pull.1 :: b.pull.2.outcomes (List.replicate (m + 1) .pull) := rfl
    have answers : (List.range (m + 2)).map (fun k => answer (content (slot c k))) =
        answer (content c) ::
          (List.range (m + 1)).map (fun k => answer (content (slot (c + frameMs) k))) := by
      rw [List.range_succ_eq_map, List.map_cons, List.map_map, slot_zero]
      simp only [Function.comp_def, slot_succ]
    rw [unroll, h.pull.1, rest, answers]

end

/-- A frame that arrives at an instant. -/
structure Arrival where
  ts : UInt32
  payload : Bytes
  now : Instant
  deriving DecidableEq, Repr

def Arrival.op (a : Arrival) : JitterOp := .push a.ts a.payload a.now

/-- The payload that arrived under a timestamp. -/
def payloadAt (arrivals : List Arrival) (ts : UInt32) : Option Bytes :=
  (arrivals.find? (·.ts = ts)).map (·.payload)

theorem payloadAt_cons (a : Arrival) (arrivals : List Arrival) (ts : UInt32) :
    payloadAt (a :: arrivals) ts = if ts = a.ts then some a.payload else payloadAt arrivals ts := by
  rw [payloadAt, List.find?_cons]
  by_cases h : ts = a.ts
  · rw [if_pos h, decide_eq_true h.symm]
    rfl
  · rw [if_neg h, decide_eq_false (Ne.symm h)]
    rfl

theorem payloadAt_eq_none_iff {arrivals : List Arrival} {ts : UInt32} :
    payloadAt arrivals ts = none ↔ ts ∉ arrivals.map (·.ts) := by
  simp only [payloadAt, Option.map_eq_none_iff, List.find?_eq_none, decide_eq_true_eq, List.mem_map,
    not_exists, not_and]

/-- A frame with a new timestamp is entered into a priming buffer that has room. -/
theorem push_idle [F64 F] {b : JitterBuffer F} (a : Arrival) (idle : b.playing = false)
    (fresh : a.ts ∉ b.frames) (room : b.frames.size < maxFrames) :
    b.push a.ts a.payload a.now =
      { b.noteArrival a.ts a.now with
        frames := b.frames.insert a.ts a.payload, playing := false } := by
  have late : b.isLate a.ts = false := by rw [isLate, idle, Bool.false_and]
  have ahead : b.isAhead a.ts = false := by rw [isAhead, idle, Bool.false_and]
  have entered : b.entered a.ts a.payload = b.frames.insert a.ts a.payload := by
    rw [entered, ahead, if_neg Bool.false_ne_true]
  have size : (b.frames.insert a.ts a.payload).size ≤ maxFrames := by
    rw [Std.ExtTreeMap.size_insert, if_neg (mt Std.ExtTreeMap.mem_iff_contains.mpr fresh)]
    exact room
  rw [push_of_stored _ _ _ _ late, entered, idle, Bool.false_and]
  exact dropOldest_of_le size

/-- A priming buffer with room collects what arrives. -/
theorem collect [F64 F] (arrivals : List Arrival) (b : JitterBuffer F) (idle : b.playing = false)
    (distinct : (arrivals.map (·.ts)).Nodup) (fresh : ∀ a ∈ arrivals, a.ts ∉ b.frames)
    (room : b.frames.size + arrivals.length ≤ maxFrames) :
    (b.applyAll (arrivals.map Arrival.op)).playing = false ∧
      (b.applyAll (arrivals.map Arrival.op)).missBudget = b.missBudget ∧
      ∀ ts : UInt32, (b.applyAll (arrivals.map Arrival.op)).frames[ts]? =
        (payloadAt arrivals ts).or b.frames[ts]? := by
  induction arrivals generalizing b with
  | nil => exact ⟨idle, rfl, fun _ => rfl⟩
  | cons a arrivals ih =>
    obtain ⟨apart, distinct⟩ := List.nodup_cons.mp distinct
    have absent : a.ts ∉ b.frames := fresh a List.mem_cons_self
    have push := push_idle a idle absent (by rw [List.length_cons] at room; omega)
    have frames : (b.push a.ts a.payload a.now).frames = b.frames.insert a.ts a.payload := by
      rw [push]
    have playing : (b.push a.ts a.payload a.now).playing = false := by rw [push]
    obtain ⟨still, budget, holds⟩ := ih (b.push a.ts a.payload a.now) playing distinct
      (fun a' member => by
        rw [frames, Std.ExtTreeMap.mem_insert_iff, not_or]
        exact ⟨fun same => apart (List.mem_map.mpr ⟨a', member, same⟩),
          fresh a' (List.mem_cons_of_mem _ member)⟩)
      (by
        rw [frames, Std.ExtTreeMap.size_insert,
          if_neg (mt Std.ExtTreeMap.mem_iff_contains.mpr absent)]
        rw [List.length_cons] at room
        omega)
    refine ⟨still, budget.trans (push_missBudget _ _ _ _), fun ts => (holds ts).trans ?_⟩
    rw [frames, Std.ExtTreeMap.lookup_insert, payloadAt_cons]
    split
    next same => rw [same, payloadAt_eq_none_iff.mpr apart, Option.none_or, Option.some_or]
    next => rfl

/-- The slots up to `hi` are slots before the end of the timestamps. -/
theorem slot_inside {lo hi : UInt32} (le : lo ≤ hi) {k : Nat}
    (inside : k ≤ (hi.toNat - lo.toNat) / frameMs.toNat) :
    lo.toNat + k * frameMs.toNat ≤ hi.toNat := by
  have le := UInt32.le_iff_toNat_le.mp le
  have := Nat.le_trans (Nat.mul_le_mul_right frameMs.toNat inside) (Nat.div_mul_le_self _ _)
  omega

/-- A timestamp of the grid is a slot. -/
theorem slot_onGrid {lo ts : UInt32} (le : lo ≤ ts)
    (onGrid : ts.toNat % frameMs.toNat = lo.toNat % frameMs.toNat) :
    slot lo ((ts.toNat - lo.toNat) / frameMs.toNat) = ts := by
  have whole : (ts.toNat - lo.toNat) / frameMs.toNat * frameMs.toNat = ts.toNat - lo.toNat :=
    Nat.div_mul_cancel (Nat.dvd_of_mod_eq_zero (Nat.sub_mod_eq_zero_of_mod_eq onGrid))
  have inside := slot_inside le (Nat.le_refl _)
  have bound := ts.toNat_lt
  rw [UInt32.le_iff_toNat_le] at le
  refine UInt32.toNat_inj.mp ?_
  rw [slot_toNat (by omega), whole]
  omega

/-- Distinct slots hold distinct frames. -/
theorem taken_le (arrivals : List Arrival) {lo : UInt32} {n : Nat}
    (inside : ∀ k < n, lo.toNat + k * frameMs.toNat < 2 ^ 32) :
    (List.range n).countP (fun k => ¬ payloadAt arrivals (slot lo k) = none) ≤
      arrivals.length := by
  have distinct : (((List.range n).filter fun k =>
      ¬ payloadAt arrivals (slot lo k) = none).map (slot lo)).Nodup := by
    refine List.Nodup.map_on ?_ (List.nodup_range.filter _)
    intro j hj k hk same
    have same := congrArg UInt32.toNat same
    rw [slot_toNat (inside j (List.mem_range.mp (List.mem_of_mem_filter hj))),
      slot_toNat (inside k (List.mem_range.mp (List.mem_of_mem_filter hk)))] at same
    simp only [frameMs, UInt32.reduceToNat] at same
    omega
  have arrived : ((List.range n).filter fun k =>
      ¬ payloadAt arrivals (slot lo k) = none).map (slot lo) ⊆ arrivals.map (·.ts) := by
    intro ts member
    obtain ⟨k, hk, rfl⟩ := List.mem_map.mp member
    have taken := of_decide_eq_true (List.mem_filter.mp hk).2
    exact not_not.mp (mt payloadAt_eq_none_iff.mpr taken)
  have fewer := distinct.length_le_of_subset arrived
  rwa [List.length_map, List.length_map, ← List.countP_eq_length_filter] at fewer

/-- Each slot is taken or a gap, so there are at most as many slots as frames and gaps. -/
theorem slots_le (arrivals : List Arrival) {lo hi : UInt32} (le : lo ≤ hi) :
    (hi.toNat - lo.toNat) / frameMs.toNat + 1 ≤ arrivals.length +
      gaps (payloadAt arrivals) lo ((hi.toNat - lo.toNat) / frameMs.toNat + 1) := by
  have taken := taken_le arrivals (n := (hi.toNat - lo.toNat) / frameMs.toNat + 1) fun k hk =>
    Nat.lt_of_le_of_lt (slot_inside le (Nat.le_of_lt_succ hk)) hi.toNat_lt
  have split := List.length_eq_countP_add_countP
    (fun k => decide (payloadAt arrivals (slot lo k) = none))
    (l := List.range ((hi.toNat - lo.toNat) / frameMs.toNat + 1))
  simp only [List.length_range, decide_eq_true_eq] at split
  rw [gaps]
  omega

/-- A drained buffer that was playing primes again. -/
theorem pull_drained {b : JitterBuffer F} (playing : b.playing = true) (empty : b.frames = ∅) :
    b.pull = (.silence, { b with playing := false, missBudget := 0 }) := by
  have h := b.pulled
  generalize b.pull = r at h ⊢
  cases h with
  | drains => rfl
  | waits waiting => rw [isRunning_iff.mpr (.inl playing)] at waiting; cases waiting
  | plays _ found => exact absurd empty (nonempty_of_lookup found)
  | conceals _ _ _ some => exact absurd empty some

/-- A priming buffer that holds the frames, and covers the target depth with them, is about to be
asked for their slots. -/
theorem stocked_of_holds {b : JitterBuffer F} {arrivals : List Arrival} {lo hi : UInt32}
    (idle : b.playing = false) (fresh : b.missBudget = 0)
    (holds : ∀ ts : UInt32, b.frames[ts]? = payloadAt arrivals ts)
    (few : arrivals.length ≤ maxFrames)
    (first : lo ∈ arrivals.map (·.ts)) (least : ∀ ts ∈ arrivals.map (·.ts), lo ≤ ts)
    (last : hi ∈ arrivals.map (·.ts)) (greatest : ∀ ts ∈ arrivals.map (·.ts), ts ≤ hi)
    (onGrid : ∀ ts ∈ arrivals.map (·.ts), ts.toNat % frameMs.toNat = lo.toNat % frameMs.toNat)
    (spare : gaps (payloadAt arrivals) lo ((hi.toNat - lo.toNat) / frameMs.toNat + 1) ≤ 60)
    (covered : b.targetMs.toNat ≤ hi.toNat - lo.toNat + frameMs.toNat) :
    b.Stocked (payloadAt arrivals) lo ((hi.toNat - lo.toNat) / frameMs.toNat) := by
  have le : lo ≤ hi := least hi last
  have keys {ts : UInt32} : ts ∈ b.frames ↔ ts ∈ arrivals.map (·.ts) := by
    rw [Std.ExtTreeMap.mem_iff_isSome_getElem?, holds, ← not_iff_not, ← payloadAt_eq_none_iff]
    exact Option.not_isSome_iff_eq_none
  have oldest : b.frames.firstKey? = some lo := Std.ExtTreeMap.firstKey?_eq_some_iff.mpr
    ⟨keys.mpr first, fun ts member => least ts (keys.mp member)⟩
  have newest : b.frames.lastKey? = some hi := Std.ExtTreeMap.lastKey?_eq_some_iff.mpr
    ⟨keys.mpr last, fun ts member => greatest ts (keys.mp member)⟩
  -- sixty gaps and a hundred frames keep the span far from the end of the timestamps
  have short : hi.toNat - lo.toNat + frameMs.toNat < 2 ^ 32 := by
    have slots := slots_le arrivals le
    simp only [maxFrames, frameMs, UInt32.reduceToNat] at few spare slots ⊢
    omega
  have primed : b.isPrimed = true := by
    refine decide_eq_true (UInt32.le_iff_toNat_le.mpr ?_)
    rw [bufferedSpanMs, oldest, newest]
    exact (span_toNat le short).symm ▸ covered
  have some : b.frames ≠ ∅ := by
    intro empty
    rw [Std.ExtTreeMap.firstKey?_eq_none_iff.mpr empty] at oldest
    cases oldest
  refine ⟨isRunning_iff.mpr (.inr ⟨primed, some⟩), ?_, ?_, ?_, fun ts member => ?_,
    fun k _ => holds (slot lo k), ?_⟩
  · exact due_of_start idle oldest (fresh ▸ Nat.zero_le _)
  · rw [fresh, Nat.zero_add]
    exact spare
  · exact Nat.lt_of_le_of_lt (slot_inside le (Nat.le_refl _)) hi.toNat_lt
  · have member := keys.mp member
    have before := UInt32.le_iff_toNat_le.mp (greatest ts member)
    exact ⟨_, Nat.div_le_div_right (Nat.sub_le_sub_right before _),
      (slot_onGrid (least ts member) (onGrid ts member)).symm⟩
  · rw [slot_onGrid le (onGrid hi last), ne_eq, payloadAt_eq_none_iff, not_not]
    exact last

/-- Frames with distinct timestamps of one grid, pushed in any order into a new buffer, come out in
the order of their timestamps, with a concealment in each slot without a frame; then the buffer is
empty and primes again. There are at most a hundred of them and at most sixty such slots, and they
cover the target depth that their arrival leaves. -/
theorem reordering_undone [F64 F] (arrivals : List Arrival) {lo hi : UInt32}
    (distinct : (arrivals.map (·.ts)).Nodup) (few : arrivals.length ≤ maxFrames)
    (first : lo ∈ arrivals.map (·.ts)) (least : ∀ ts ∈ arrivals.map (·.ts), lo ≤ ts)
    (last : hi ∈ arrivals.map (·.ts)) (greatest : ∀ ts ∈ arrivals.map (·.ts), ts ≤ hi)
    (onGrid : ∀ ts ∈ arrivals.map (·.ts), ts.toNat % frameMs.toNat = lo.toNat % frameMs.toNat)
    (spare : gaps (payloadAt arrivals) lo ((hi.toNat - lo.toNat) / frameMs.toNat + 1) ≤ 60)
    (covered : ((new : JitterBuffer F).applyAll (arrivals.map Arrival.op)).targetMs.toNat ≤
      hi.toNat - lo.toNat + frameMs.toNat) :
    let n := (hi.toNat - lo.toNat) / frameMs.toNat + 1
    let b := (new : JitterBuffer F).applyAll (arrivals.map Arrival.op)
    let drained := (b.applyAll (List.replicate n .pull)).pull
    b.outcomes (List.replicate n .pull) =
        (List.range n).map (fun k => answer (payloadAt arrivals (slot lo k))) ∧
      drained.1 = .silence ∧ drained.2.frames = ∅ ∧ drained.2.playing = false := by
  intro n b drained
  obtain ⟨idle, fresh, holds⟩ := collect arrivals (new : JitterBuffer F) rfl distinct
    (fun _ _ => Std.ExtTreeMap.not_mem_empty) (by simpa only [new, Std.ExtTreeMap.size_empty,
      Nat.zero_add] using few)
  have holds (ts : UInt32) : b.frames[ts]? = payloadAt arrivals ts := by
    rw [holds ts]
    simp only [new, Std.ExtTreeMap.getElem?_empty, Option.or_none]
  have stocked : b.Stocked _ _ _ :=
    stocked_of_holds idle fresh holds few first least last greatest onGrid spare covered
  obtain ⟨outcomes, playing, empty⟩ := stocked.drain
  have final := pull_drained playing empty
  exact ⟨outcomes, congrArg Prod.fst final, (congrArg (·.2.frames) final).trans empty,
    congrArg (·.2.playing) final⟩

/-- Four frames out of order, with two gaps. -/
def sampleArrivals : List Arrival :=
  [⟨60, [3], 0⟩, ⟨0, [0], Duration.fromMillis 20⟩, ⟨100, [5], Duration.fromMillis 40⟩,
    ⟨20, [1], Duration.fromMillis 60⟩]

theorem reordering_undone_sample :
    ((new : JitterBuffer ℚ).applyAll (sampleArrivals.map Arrival.op)).outcomes
        (List.replicate 6 .pull) =
      [.play [0], .play [1], .conceal, .play [3], .conceal, .play [5]] :=
  (@reordering_undone ℚ _ sampleArrivals 0 100 (by decide) (by decide) (by decide)
    (List.forall_mem_map.mpr (by decide)) (by decide) (List.forall_mem_map.mpr (by decide))
    (List.forall_mem_map.mpr (by decide)) (by decide) (by decide +kernel)).1

end Iax2.JitterBuffer
