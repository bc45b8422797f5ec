import Iax2.Laws.Store

/-!
# Call numbers in turn

The allocator goes round the call numbers. A call gets the first number of the cycle that is not in
use, and the next search starts behind it. So a number that is given back is not given out again
before every other number of the range was given out, or was in use when the search came to it:
frames of the old call that are still on their way find no new call under its number for that long.

This holds as long as the calls leave a number free (`numbers_in_turn`).
-/

namespace Iax2.PbxClient

variable {s s' : PbxClient}

/-! ## The scan -/

/-- The numbers in use that the scan of `alloc_callno` passes, in order. -/
def scanLoop (calls : Table UInt16 CallLeg) : Nat → UInt16 → List UInt16
  | 0, _ => []
  | fuel + 1, n =>
    if callnoCallBase ≤ n ∧ n ∉ calls then [] else n :: scanLoop calls fuel (callnoSucc n)

/-- The numbers that an allocation passes. -/
def scanned (s : PbxClient) : List UInt16 := scanLoop s.calls 0x7000 s.callnoNext

/-- A scan that stops at a free number has passed the numbers before it. -/
theorem scanLoop_eq {calls : Table UInt16 CallLeg} {fuel i : Nat} {n : UInt16} (h : InCycle n)
    (enough : i < fuel) (before : ∀ j < i, callnoSucc^[j] n ∈ calls)
    (free : callnoSucc^[i] n ∉ calls) : scanLoop calls fuel n = List.iterate callnoSucc n i := by
  induction fuel generalizing n i with
  | zero => cases enough
  | succ fuel ih =>
    cases i with
    | zero => exact if_pos ⟨h.1, free⟩
    | succ i =>
      have live : n ∈ calls := before 0 (Nat.succ_pos i)
      have rest : scanLoop calls fuel (callnoSucc n) = List.iterate callnoSucc (callnoSucc n) i :=
        ih (inCycle_callnoSucc h) (Nat.lt_of_succ_lt_succ enough)
          (fun j hj => before (j + 1) (Nat.succ_lt_succ hj)) free
      rw [scanLoop, if_neg fun stops => stops.2 live, rest]
      rfl

/-- What a scan passes is in use. -/
theorem mem_of_scanLoop {calls : Table UInt16 CallLeg} {fuel : Nat} {n m : UInt16} (h : InCycle n)
    (passed : m ∈ scanLoop calls fuel n) : m ∈ calls := by
  induction fuel generalizing n with
  | zero => cases passed
  | succ fuel ih =>
    rw [scanLoop] at passed
    split at passed
    next => cases passed
    next busy =>
      rcases List.mem_cons.mp passed with rfl | later
      · exact not_not.mp fun free => busy ⟨h.1, free⟩
      · exact ih (inCycle_callnoSucc h) later

/-- With a number free, the allocator finds the first one of the cycle. -/
theorem allocCallno_first (h : InCycle s.callnoNext) (room : s.activeCalls < 8176) :
    ∃ i < 8176, s.allocCallno.1 = callnoSucc^[i] s.callnoNext ∧
      (∀ j < i, callnoSucc^[j] s.callnoNext ∈ s.calls) ∧ s.allocCallno.1 ∉ s.calls ∧
      s.allocCallno.2 = { s with callnoNext := callnoSucc s.allocCallno.1 } ∧
      s.scanned = List.iterate callnoSucc s.callnoNext i := by
  rcases allocCallno_spec h with ⟨i, hi, before, found, free, next⟩ | ⟨full, _⟩
  · refine ⟨i, hi, found, before, free, ?_, ?_⟩
    · rw [← next]
      rfl
    · exact scanLoop_eq h (by omega) before (found ▸ free)
  · have := full.activeCalls
    omega

namespace Move

/-- The number that the transition gives out. -/
def allocated (t : Move) : Option UInt16 :=
  match t.pre.target t.label.op with
  | .opening _ => some t.pre.allocCallno.1
  | _ => none

/-- The numbers that the scan of the transition finds in use. -/
def foundLive (t : Move) : List UInt16 :=
  match t.pre.target t.label.op with
  | .opening _ => t.pre.scanned
  | _ => []

/-- The numbers that the transition uses up, newest first. -/
def usedUp (t : Move) : List UInt16 := t.allocated.toList ++ t.foundLive.reverse

/-- A transition that allocates opens a call. -/
theorem allocated_eq_some {t : Move} {n : UInt16} (h : t.allocated = some n) :
    ∃ o, t.pre.target t.label.op = .opening o ∧ n = t.pre.allocCallno.1 := by
  unfold allocated at h
  split at h
  next o target =>
    cases h
    exact ⟨o, target, rfl⟩
  next => cases h

theorem usedUp_opening {t : Move} {o : Opening} (target : t.pre.target t.label.op = .opening o) :
    t.usedUp = t.pre.allocCallno.1 :: t.pre.scanned.reverse := by
  unfold usedUp allocated foundLive
  rw [target]
  rfl

/-- What the scan of a transition finds in use is a live call. -/
theorem mem_of_foundLive {t : Move} (h : InCycle t.pre.callnoNext) {m : UInt16}
    (found : m ∈ t.foundLive) : m ∈ t.pre.calls := by
  unfold foundLive at found
  split at found
  next => exact mem_of_scanLoop h found
  next => cases found

theorem usedUp_other {t : Move} (target : ∀ o, t.pre.target t.label.op ≠ .opening o) :
    t.usedUp = [] := by
  unfold usedUp allocated foundLive
  cases h : t.pre.target t.label.op with
  | opening o => exact absurd h (target o)
  | _ => rfl

end Move

/-! ## The cursor -/

/-- A step that opens no call leaves the cursor. -/
theorem Outcome.callnoNext {md5 : Md5} {i : Invocation} (step : s.Outcome md5 i s')
    (target : ∀ o, s.target i.op ≠ .opening o) : s'.callnoNext = s.callnoNext := by
  cases step with
  | quiet _ effect => exact effect.callnoNext
  | touched _ _ effect => exact effect.rest.wellFormed_counters.2.1
  | opened target' _ => exact absurd target' (target _)
  | expired _ effect => exact effect.callnoNext

/-- The cursor moves over the numbers that a step uses up. -/
theorem Outcome.trail {md5 : Md5} {i : Invocation} {l : List UInt16} (step : s.Outcome md5 i s')
    (wf : s.WellFormed) (room : s.activeCalls < 8176) (h : Trail callnoSucc s.callnoNext l) :
    Trail callnoSucc s'.callnoNext (Move.usedUp ⟨s, i, s'⟩ ++ l) := by
  by_cases opening : ∃ o, s.target i.op = .opening o
  · obtain ⟨o, target⟩ := opening
    obtain ⟨k, _, found, _, _, next, scanned⟩ := allocCallno_first wf.callnoNext room
    have moved : s'.callnoNext = callnoSucc s.allocCallno.1 := by
      rw [(step.to_opened target).rest, next]
    rw [moved, Move.usedUp_opening (t := ⟨s, i, s'⟩) target]
    show Trail _ _ (s.allocCallno.1 :: s.scanned.reverse ++ l)
    rw [scanned, found]
    exact (h.pass_iterate k).pass
  · have target : ∀ o, s.target i.op ≠ .opening o := not_exists.mp opening
    rw [step.callnoNext target, Move.usedUp_other (t := ⟨s, i, s'⟩) target]
    exact h

/-- The cursor has moved over the numbers that the run has used up. -/
theorem trail_run {md5 : Md5} {cfg : Config} {past : List Move}
    (run : (system md5 cfg).Run past s) (room : ∀ t ∈ past, t.pre.activeCalls < 8176) :
    Trail callnoSucc s.callnoNext (past.flatMap Move.usedUp) := by
  induction run with
  | start _ => exact .nil _ _
  | step r step ih =>
    exact (Step.outcome step).trail (wellFormed_run r) (room _ List.mem_cons_self)
      (ih fun t ht => room t (List.mem_cons_of_mem _ ht))

/-- The state before every transition of a run is well formed. -/
theorem wellFormed_pre {md5 : Md5} {cfg : Config} {past : List Move}
    (run : (system md5 cfg).Run past s) {t : Move} (ht : t ∈ past) : t.pre.WellFormed := by
  have always : Always (fun t _ => t.pre.WellFormed) past :=
    run.always fun _ _ _ _ r _ => wellFormed_run r
  obtain ⟨_, wf⟩ := always.of_mem ht
  exact wf

/-- From one allocation of a number back to an earlier one, the trail holds every other number. -/
theorem mem_between {md5 : Md5} {cfg : Config} {later between before : List Move} {t₁ t₂ : Move}
    {n m : UInt16} (run : (system md5 cfg).Run (later ++ t₂ :: (between ++ t₁ :: before)) s)
    (room : ∀ t ∈ later ++ t₂ :: (between ++ t₁ :: before), t.pre.activeCalls < 8176)
    (first : t₁.allocated = some n) (second : t₂.allocated = some n) (hm : InCycle m)
    (ne : m ≠ n) : m ∈ t₂.foundLive ∨ ∃ t ∈ between, m ∈ t.usedUp := by
  have hn : InCycle n := by
    obtain ⟨_, _, number⟩ := Move.allocated_eq_some first
    have wf : t₁.pre.WellFormed := wellFormed_pre run (by simp)
    exact number ▸ (inCycle_allocCallno wf.callnoNext).1
  have stretch : Trail callnoSucc n ((t₂.foundLive.reverse ++ between.flatMap Move.usedUp) ++
      n :: (t₁.foundLive.reverse ++ before.flatMap Move.usedUp)) := by
    refine List.IsChain.infix (trail_run run room)
      ⟨s.callnoNext :: later.flatMap Move.usedUp, [], ?_⟩
    simp only [List.flatMap_append, List.flatMap_cons, Move.usedUp, first, second,
      Option.toList_some, List.append_nil, List.cons_append, List.append_assoc, List.nil_append]
  rcases List.mem_append.mp (stretch.between rotates_callnoSucc hn hm ne) with scan | between
  · exact .inl (List.mem_reverse.mp scan)
  · exact .inr (List.mem_flatMap.mp between)

/-! ## One call after another -/

/-- Without a call, the next one gets the number at the cursor. -/
theorem allocCallno_idle (idle : s.calls = ∅) (next : InCycle s.callnoNext) :
    s.allocCallno = (s.callnoNext, { s with callnoNext := callnoSucc s.callnoNext }) := by
  have room : s.activeCalls < 8176 := by
    rw [activeCalls, idle]
    exact Nat.succ_pos 8175
  obtain ⟨i, _, found, before, _, left, _⟩ := allocCallno_first next room
  have first : i = 0 := by
    by_contra later
    have live := before 0 (Nat.pos_of_ne_zero later)
    rw [idle] at live
    cases live
  rw [first] at found
  exact Prod.ext found (left.trans (by rw [found]; rfl))

/-- A call that is dialled without another one, and hung up at once. -/
theorem dial_hangup (idle : s.calls = ∅) (next : InCycle s.callnoNext) (number : String)
    (now clock now' clock' : Instant) :
    (s.dial number now clock).activeCalls = 1 ∧
      ((s.dial number now clock).hangup s.callnoNext now' clock').calls = ∅ ∧
      ((s.dial number now clock).hangup s.callnoNext now' clock').callnoNext =
        callnoSucc s.callnoNext := by
  have dialled : ∃ c, (s.dial number now clock).calls =
      (∅ : Table UInt16 CallLeg).insert s.callnoNext c := by
    rw [dial, allocCallno_idle idle next]
    exact ⟨_, congrArg (AList.insert s.callnoNext _) idle⟩
  obtain ⟨c, calls⟩ := dialled
  have cursor : (s.dial number now clock).callnoNext = callnoSucc s.callnoNext := by
    rw [dial, allocCallno_idle idle next]
    rfl
  generalize s.dial number now clock = d at calls cursor
  have live : d.calls.lookup s.callnoNext = some c := by rw [calls, AList.lookup_insert]
  have touched := onCall_touched live (·.hangup (d.ts clock') now')
  refine ⟨?_, Table.eq_empty fun j => ?_, touched.rest.wellFormed_counters.2.1.trans cursor⟩
  · rw [activeCalls, calls]
    rfl
  · refine (touched.calls j).trans ?_
    split
    next => rfl
    next other => rw [calls, AList.lookup_insert_ne other, AList.lookup_empty]

/-- In a run without a live call, a call that is dialled and hung up at once gets the number at the
cursor, and leaves no call. -/
theorem brief_call {md5 : Md5} {cfg : Config} {past : List Move} (run : (system md5 cfg).Run past s)
    (idle : s.calls = ∅) (next : InCycle s.callnoNext) :
    ∃ (ends opens : Move) (s' : PbxClient), (system md5 cfg).Run (ends :: opens :: past) s' ∧
      opens.allocated = some s.callnoNext ∧ s'.calls = ∅ ∧
      s'.callnoNext = callnoSucc s.callnoNext ∧
      opens.pre.activeCalls < 8176 ∧ ends.pre.activeCalls < 8176 := by
  obtain ⟨one, gone, moved⟩ := dial_hangup idle next "200" 0 0 0 0
  have dialled := run.step (.call (i := ⟨.handleCommand (.dial "200"), 0, 0⟩) s (by simp))
  have hungUp := dialled.step
    (.call (i := ⟨.handleCommand (.hangup s.callnoNext), 0, 0⟩) (s.dial "200" 0 0) (by simp))
  refine ⟨_, _, _, hungUp, ?_, gone, moved, ?_, ?_⟩
  · show some s.allocCallno.1 = some s.callnoNext
    rw [allocCallno_idle idle next]
  · show s.activeCalls < 8176
    rw [activeCalls, idle]
    decide
  · show (s.dial "200" 0 0).activeCalls < 8176
    rw [one]
    decide

/-- Calls one after the other: after `j` of them the cursor has moved by `j` numbers. -/
theorem calls_in_turn {md5 : Md5} {cfg : Config} {past : List Move}
    (run : (system md5 cfg).Run past s) (idle : s.calls = ∅) (next : InCycle s.callnoNext)
    (j : Nat) : ∃ later s', (system md5 cfg).Run (later ++ past) s' ∧ s'.calls = ∅ ∧
      s'.callnoNext = callnoSucc^[j] s.callnoNext ∧ ∀ t ∈ later, t.pre.activeCalls < 8176 := by
  induction j with
  | zero => exact ⟨[], s, run, idle, rfl, fun t ht => by cases ht⟩
  | succ j ih =>
    obtain ⟨later, s₁, run, idle, cursor, room⟩ := ih
    have next₁ : InCycle s₁.callnoNext := by
      rw [cursor]
      exact rotates_callnoSucc.iterate next j
    obtain ⟨ends, opens, s₂, run, _, gone, moved, opening, ending⟩ := brief_call run idle next₁
    refine ⟨ends :: opens :: later, s₂, run, gone, ?_, ?_⟩
    · rw [Function.iterate_succ_apply', ← cursor]
      exact moved
    · exact List.forall_mem_cons.mpr ⟨ending, List.forall_mem_cons.mpr ⟨opening, room⟩⟩

/-- A number comes again: with one brief call after another the cursor goes round. -/
theorem number_comes_again {md5 : Md5} {cfg : Config} {past : List Move}
    (run : (system md5 cfg).Run past s) (idle : s.calls = ∅) (next : InCycle s.callnoNext) :
    ∃ (s' : PbxClient) (later : List Move) (t₂ : Move) (between : List Move) (t₁ : Move),
      (system md5 cfg).Run (later ++ t₂ :: (between ++ t₁ :: past)) s' ∧
      t₁.allocated = some s.callnoNext ∧ t₂.allocated = some s.callnoNext ∧
      ∀ t ∈ later ++ t₂ :: (between ++ [t₁]), t.pre.activeCalls < 8176 := by
  obtain ⟨ends, t₁, s₁, run, first, idle, moved, opening, ending⟩ := brief_call run idle next
  have next₁ : InCycle s₁.callnoNext := by
    rw [moved]
    exact inCycle_callnoSucc next
  obtain ⟨j, _, back⟩ := rotates_callnoSucc.reach s₁.callnoNext s.callnoNext next₁ next
  obtain ⟨between, s₂, run, idle, cursor, room⟩ := calls_in_turn run idle next₁ j
  rw [back] at cursor
  obtain ⟨ends', t₂, s₃, run, second, _, _, opening', ending'⟩ :=
    brief_call run idle (cursor ▸ next)
  refine ⟨s₃, [ends'], t₂, between ++ [ends], t₁, ?_, first, cursor ▸ second, ?_⟩
  · rw [List.append_assoc]
    exact run
  · intro t ht
    simp only [List.mem_append, List.mem_cons, List.not_mem_nil, or_false] at ht
    rcases ht with rfl | rfl | (member | rfl) | rfl
    · exact ending'
    · exact opening'
    · exact room t member
    · exact ending
    · exact opening

/-! ## In turn -/

/-- The allocator. As long as a number is free, it returns the first one of the cycle that is not in
use, from `callno_next` on, and leaves `callno_next` behind it. And in every run in which a number
is free whenever a step is taken, between two allocations of one number every other number has been
allocated, or was in use when the scan came to it. -/
theorem numbers_in_turn :
    (∀ s : PbxClient, InCycle s.callnoNext → s.activeCalls < 8176 →
      (∃ i < 8176, s.allocCallno.1 = callnoSucc^[i] s.callnoNext ∧
        ∀ j < i, callnoSucc^[j] s.callnoNext ∈ s.calls) ∧
      s.allocCallno.1 ∉ s.calls ∧ InCycle s.allocCallno.1 ∧
      s.allocCallno.2 = { s with callnoNext := callnoSucc s.allocCallno.1 }) ∧
    ∀ {md5 : Md5} {cfg : Config} {past : List Move} {s : PbxClient},
      (system md5 cfg).Run past s → (∀ t ∈ past, t.pre.activeCalls < 8176) →
      ∀ later t₂ between t₁ before, past = later ++ t₂ :: (between ++ t₁ :: before) →
      ∀ n, t₁.allocated = some n → t₂.allocated = some n →
      ∀ m, InCycle m → m ≠ n → ∃ t ∈ t₂ :: between, t.allocated = some m ∨
        m ∈ t.foundLive ∧ m ∈ t.pre.calls := by
  refine ⟨fun s next room => ?_, ?_⟩
  · obtain ⟨i, hi, found, before, free, left, _⟩ := allocCallno_first next room
    exact ⟨⟨i, hi, found, before⟩, free, (inCycle_allocCallno next).1, left⟩
  · rintro md5 cfg past s run room later t₂ between t₁ before rfl n first second m hm ne
    rcases mem_between run room first second hm ne with scan | ⟨t, ht, used⟩
    · have wf : t₂.pre.WellFormed := wellFormed_pre run (by simp)
      exact ⟨t₂, List.mem_cons_self, .inr ⟨scan, Move.mem_of_foundLive wf.callnoNext scan⟩⟩
    · refine ⟨t, List.mem_cons_of_mem _ ht, ?_⟩
      rcases List.mem_append.mp used with given | scan
      · exact .inl (Option.mem_toList.mp given)
      · have wf : t.pre.WellFormed := wellFormed_pre run (by simp [ht])
        have scan : m ∈ t.foundLive := List.mem_reverse.mp scan
        exact .inr ⟨scan, Move.mem_of_foundLive wf.callnoNext scan⟩

/-- While call 16 is live, the next call is 17. And with one brief call after another the number 16
comes again, after all others. -/
theorem numbers_in_turn_sample :
    let s := Sample.after [Sample.command (.dial "200")]
    (s.allocCallno.1 = 17 ∧ s.allocCallno.1 ∉ s.calls ∧ s.allocCallno.2.callnoNext = 18) ∧
    ∃ (s : PbxClient) (later : List Move) (t₂ : Move) (between : List Move) (t₁ : Move),
      (system Sample.md5 Sample.cfg).Run (later ++ t₂ :: (between ++ [t₁])) s ∧
      t₁.allocated = some 16 ∧ t₂.allocated = some 16 ∧
      ∀ m, InCycle m → m ≠ 16 → ∃ t ∈ t₂ :: between, t.allocated = some m ∨
        m ∈ t.foundLive ∧ m ∈ t.pre.calls := by
  intro s
  have alloc := numbers_in_turn.1 s (by decide) (by decide)
  have number : s.allocCallno.1 = 17 := by decide
  refine ⟨⟨number, alloc.2.1, by rw [alloc.2.2.2, number]; decide⟩, ?_⟩
  have start : (system Sample.md5 Sample.cfg).Run [] (PbxClient.new Sample.cfg 0) :=
    .start ⟨0, rfl⟩
  obtain ⟨s', later, t₂, between, t₁, run, first, second, room⟩ :=
    number_comes_again start rfl (by decide)
  exact ⟨s', later, t₂, between, t₁, run, first, second,
    numbers_in_turn.2 run room later t₂ between t₁ [] rfl 16 first second⟩

end Iax2.PbxClient
