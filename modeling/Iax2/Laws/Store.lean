import Iax2.Laws.Step
import Iax2.Lib.Rotation

/-!
# The store

The invariant of the tables and counters of the client, in every state of every run
(`wellFormed_run`), and the search of the call-number allocator.

The allocator scans the cycle `[CALLNO_CALL_BASE, 0x1FFF]` from `callno_next` on. Within its rounds
it passes every number of the cycle, so it returns a number that is in use exactly when every
number is (`allocCallno_live_iff`), and then it returns `CALLNO_CALL_BASE`.
-/

namespace Iax2.PbxClient

variable {s s' : PbxClient}

/-! ## Reactions keep the number of the leg -/

theorem onFrame_localNo (respond : String → String) (call : UInt16) (f : FullFrame) (ts : UInt32)
    (now : Instant) (c : CallLeg) :
    (c.onFrame respond call f ts now).entry.leg.localNo = c.leg.localNo := by
  simp only [CallLeg.onFrame]
  cases f.callKind (c.noteFrame f).dir with
  | authreq =>
    simp only
    split
    · rfl
    · split <;> rfl
  | accept =>
    simp only
    split <;> rfl
  | _ => rfl

/-- A call keeps its number, whatever reaches it. -/
theorem reaction_localNo (md5 : Md5) (s : PbxClient) (i : Invocation) (call : UInt16) (c : CallLeg)
    (x : CallInput) : (s.reaction md5 i call c x).entry.leg.localNo = c.leg.localNo := by
  cases x with
  | answer =>
    simp only [reaction, CallLeg.answer]
    split <;> rfl
  | voice ulaw =>
    simp only [reaction, CallLeg.sendVoice]
    split
    · rfl
    · split <;> rfl
  | mini m =>
    simp only [reaction, CallLeg.onMini]
    split <;> rfl
  | frame f => exact onFrame_localNo _ _ _ _ _ _
  | _ => rfl

/-- A new call has the number it was opened under. -/
theorem opened_localNo (s : PbxClient) (i : Invocation) (call : UInt16) (o : Opening) :
    (s.opened i call o).entry.leg.localNo = call := by
  cases o <;> rfl

theorem Reaction_kept_some {r : Reaction} {c : CallLeg} (h : r.kept = some c) : c = r.entry := by
  obtain ⟨fate, sent, events⟩ := r
  cases fate with
  | keep c' =>
    cases h
    rfl
  | drop c' reason => cases h

/-! ## The cycle of call numbers -/

/-- A number of the cycle. -/
def InCycle (n : UInt16) : Prop := callnoCallBase ≤ n ∧ n ≤ 0x1FFF

instance (n : UInt16) : Decidable (InCycle n) := inferInstanceAs (Decidable (_ ∧ _))

theorem inCycle_iff (n : UInt16) : InCycle n ↔ 16 ≤ n.toNat ∧ n.toNat ≤ 8191 :=
  and_congr (UInt16.le_iff_toNat_le (a := 16) (b := n))
    (UInt16.le_iff_toNat_le (a := n) (b := 8191))

/-- A call number is its own 15-bit field. -/
theorem InCycle.masked {k : UInt16} (h : InCycle k) : k &&& callMask = k := by
  have hk := (inCycle_iff k).mp h
  rw [← UInt16.toNat_inj, UInt16.toNat_and]
  show k.toNat &&& (2 ^ 15 - 1) = _
  rw [Nat.and_two_pow_sub_one_eq_mod]
  omega

theorem toNat_callnoSucc {n : UInt16} (h : InCycle n) :
    (callnoSucc n).toNat = 16 + (n.toNat - 16 + 1) % 8176 := by
  have hn := (inCycle_iff n).mp h
  unfold callnoSucc
  split
  next hlast =>
    have : 8191 ≤ n.toNat := UInt16.le_iff_toNat_le.mp hlast
    show 16 = _
    omega
  next hnot =>
    have : ¬ 8191 ≤ n.toNat := fun hle => hnot (UInt16.le_iff_toNat_le.mpr hle)
    rw [UInt16.toNat_add]
    show (n.toNat + 1) % 65536 = _
    omega

theorem inCycle_callnoSucc {n : UInt16} (h : InCycle n) : InCycle (callnoSucc n) := by
  rw [inCycle_iff, toNat_callnoSucc h]
  omega

/-- The cycle goes round. -/
theorem rotates_callnoSucc : Rotates callnoSucc InCycle 8176 := by
  refine .of_count (·.toNat - 16) (fun _ => inCycle_callnoSucc) (fun n hn => ?_)
    (fun n m hn hm same => ?_) (fun n hn => ?_)
  · have := (inCycle_iff n).mp hn
    omega
  · have := (inCycle_iff n).mp hn
    have := (inCycle_iff m).mp hm
    exact UInt16.toNat_inj.mp (by omega)
  · show (callnoSucc n).toNat - 16 = _
    rw [toNat_callnoSucc hn, Nat.add_sub_cancel_left]

/-! ## Allocation -/

/-- The scan stops at the first free number of the cycle, or runs out of rounds. -/
theorem allocLoop_spec (calls : Table UInt16 CallLeg) (fuel : Nat) {n : UInt16} (h : InCycle n) :
    (∃ i < fuel, (∀ j < i, callnoSucc^[j] n ∈ calls) ∧ callnoSucc^[i] n ∉ calls ∧
      allocLoop calls fuel n = (callnoSucc^[i] n, callnoSucc^[i + 1] n)) ∨
    (∀ j < fuel, callnoSucc^[j] n ∈ calls) ∧
      allocLoop calls fuel n = (callnoCallBase, callnoSucc^[fuel] n) := by
  induction fuel generalizing n with
  | zero => exact .inr ⟨fun _ hj => absurd hj (Nat.not_lt_zero _), rfl⟩
  | succ fuel ih =>
    by_cases hfree : n ∉ calls
    · refine .inl ⟨0, Nat.succ_pos _, fun _ hj => absurd hj (Nat.not_lt_zero _), hfree, ?_⟩
      rw [allocLoop, if_pos ⟨h.1, hfree⟩]
      rfl
    · have hlive : n ∈ calls := not_not.mp hfree
      rw [allocLoop, if_neg fun hc => hfree hc.2]
      rcases ih (inCycle_callnoSucc h) with ⟨i, hi, before, free, found⟩ | ⟨all, found⟩
      · refine .inl ⟨i + 1, Nat.succ_lt_succ hi, fun j hj => ?_, free, found⟩
        cases j with
        | zero => exact hlive
        | succ j => exact before j (Nat.lt_of_succ_lt_succ hj)
      · refine .inr ⟨fun j hj => ?_, found⟩
        cases j with
        | zero => exact hlive
        | succ j => exact all j (Nat.lt_of_succ_lt_succ hj)

/-- Every call number is in use. -/
def Full (s : PbxClient) : Prop := ∀ n, InCycle n → n ∈ s.calls

theorem allocCallno_fst (s : PbxClient) :
    s.allocCallno.1 = (allocLoop s.calls 0x7000 s.callnoNext).1 :=
  rfl

theorem allocCallno_snd (s : PbxClient) :
    s.allocCallno.2 = { s with callnoNext := (allocLoop s.calls 0x7000 s.callnoNext).2 } :=
  rfl

/-- The allocator finds the first free number of the cycle, or all are in use. -/
theorem allocCallno_spec (h : InCycle s.callnoNext) :
    (∃ i < 8176, (∀ j < i, callnoSucc^[j] s.callnoNext ∈ s.calls) ∧
      s.allocCallno.1 = callnoSucc^[i] s.callnoNext ∧ s.allocCallno.1 ∉ s.calls ∧
      s.allocCallno.2.callnoNext = callnoSucc s.allocCallno.1) ∨
    s.Full ∧ s.allocCallno.1 = callnoCallBase ∧ InCycle s.allocCallno.2.callnoNext := by
  have all_of {m : Nat} (hm : 8176 ≤ m) (all : ∀ j < m, callnoSucc^[j] s.callnoNext ∈ s.calls) :
      s.Full := by
    intro n hn
    obtain ⟨i, hi, rfl⟩ := rotates_callnoSucc.reach _ n h hn
    exact all i (Nat.lt_of_lt_of_le hi hm)
  rw [allocCallno_snd, allocCallno_fst]
  -- the number of rounds is a large literal, which no proof step should evaluate
  generalize hfuel : 0x7000 = fuel
  rcases allocLoop_spec s.calls fuel h with ⟨i, _, before, free, found⟩ | ⟨all, found⟩
  · rw [found]
    refine .inl ⟨i, ?_, before, rfl, free, Function.iterate_succ_apply' _ _ _⟩
    by_contra hi
    exact free (all_of (Nat.not_lt.mp hi) before _ (rotates_callnoSucc.iterate h i))
  · rw [found]
    exact .inr ⟨all_of (by omega) all, rfl, rotates_callnoSucc.iterate h _⟩

/-- The allocator returns a number that is in use exactly when all are. -/
theorem allocCallno_live_iff (h : InCycle s.callnoNext) :
    s.allocCallno.1 ∈ s.calls ↔ s.Full := by
  rcases allocCallno_spec h with ⟨i, _, _, found, free, _⟩ | ⟨full, found, _⟩
  · exact ⟨fun hlive => absurd hlive free,
      fun full => found ▸ full _ (rotates_callnoSucc.iterate h i)⟩
  · exact ⟨fun _ => full, fun _ => found ▸ full _ (by decide)⟩

/-- When all numbers are in use, the allocator returns the first. -/
theorem allocCallno_of_full (h : InCycle s.callnoNext) (full : s.Full) :
    s.allocCallno.1 = callnoCallBase := by
  rcases allocCallno_spec h with ⟨i, _, _, found, free, _⟩ | ⟨_, found, _⟩
  · exact absurd (found ▸ full _ (rotates_callnoSucc.iterate h i)) free
  · exact found

/-- All numbers are in use only if 8176 calls are live. -/
theorem Full.activeCalls (full : s.Full) : 8176 ≤ s.activeCalls := by
  have number (i : Nat) (hi : i < 8176) : (UInt16.ofNat (16 + i)).toNat = 16 + i := by
    rw [UInt16.toNat_ofNat']
    omega
  have nodup : ((List.range 8176).map fun i => UInt16.ofNat (16 + i)).Nodup := by
    refine List.Nodup.map_on ?_ List.nodup_range
    intro i hi j hj same
    have same := congrArg UInt16.toNat same
    rw [number i (List.mem_range.mp hi), number j (List.mem_range.mp hj)] at same
    omega
  have live : ((List.range 8176).map fun i => UInt16.ofNat (16 + i)) ⊆ s.calls.keys := by
    intro k hk
    obtain ⟨i, hi, rfl⟩ := List.mem_map.mp hk
    have hi := List.mem_range.mp hi
    refine AList.mem_keys.mp (full _ ?_)
    rw [inCycle_iff, number i hi]
    omega
  have room := (List.subperm_of_subset nodup live).length_le
  rw [List.length_map, List.length_range] at room
  calc 8176 ≤ s.calls.keys.length := room
    _ = s.activeCalls := List.length_map _

/-- With fewer live calls, the allocator finds a number that is free. -/
theorem allocCallno_fresh (h : InCycle s.callnoNext) (room : s.activeCalls < 8176) :
    s.allocCallno.1 ∉ s.calls := by
  intro live
  have full := ((allocCallno_live_iff h).mp live).activeCalls
  omega

/-- The allocator stays in the cycle. -/
theorem inCycle_allocCallno (h : InCycle s.callnoNext) :
    InCycle s.allocCallno.1 ∧ InCycle s.allocCallno.2.callnoNext := by
  rcases allocCallno_spec h with ⟨i, _, _, found, _, next⟩ | ⟨_, found, next⟩
  · have hin : InCycle s.allocCallno.1 := found ▸ rotates_callnoSucc.iterate h i
    exact ⟨hin, next ▸ inCycle_callnoSucc hin⟩
  · exact ⟨found ▸ by decide, next⟩

/-! ## The invariant -/

/-- The tables and counters are well formed. -/
structure WellFormed (s : PbxClient) : Prop where
  regNo : s.reg.localNo = callnoReg
  /-- an entry is stored under the number of its leg -/
  localNo : ∀ {k c}, s.calls.lookup k = some c → c.leg.localNo = k
  inCycle : ∀ {k}, k ∈ s.calls → InCycle k
  /-- the mini-frame index points to live calls -/
  index : ∀ {q v}, s.remoteIndex.lookup q = some v → v ∈ s.calls
  callnoNext : InCycle s.callnoNext
  qualifyNext : callnoQualifyBase ≤ s.qualifyNext ∧
    s.qualifyNext ≤ callnoQualifyBase + callnoQualifySpan

/-- A live call has a call number. -/
theorem WellFormed.live_inCycle (h : s.WellFormed) {k : UInt16} {c : CallLeg}
    (live : s.calls.lookup k = some c) : InCycle k :=
  h.inCycle (Table.mem_iff_lookup.mpr ⟨c, live⟩)

/-- A live call sends under its number. -/
theorem WellFormed.src (h : s.WellFormed) {k : UInt16} {c : CallLeg}
    (live : s.calls.lookup k = some c) : c.leg.localNo &&& callMask = k := by
  rw [h.localNo live]
  exact (h.live_inCycle live).masked

/-- The registration leg sends under its number. -/
theorem WellFormed.regSrc (h : s.WellFormed) : s.reg.localNo &&& callMask = callnoReg := by
  rw [h.regNo]
  decide

/-- The next source of a PONG is one of the rotating numbers. -/
theorem nextQualifyCallno_range (s : PbxClient) :
    callnoQualifyBase ≤ s.nextQualifyCallno.2.qualifyNext ∧
      s.nextQualifyCallno.2.qualifyNext ≤ callnoQualifyBase + callnoQualifySpan := by
  show callnoQualifyBase ≤ callnoQualifyBase + (_ &&& callnoQualifySpan) ∧
    callnoQualifyBase + (_ &&& callnoQualifySpan) ≤ _
  generalize s.qualifyNext - callnoQualifyBase + 1 = n
  have hle : (n &&& callnoQualifySpan).toNat ≤ 0x0FFF := by
    rw [UInt16.toNat_and]
    exact Nat.and_le_right
  have hsum : (callnoQualifyBase + (n &&& callnoQualifySpan)).toNat =
      0x2000 + (n &&& callnoQualifySpan).toNat := by
    rw [UInt16.toNat_add]
    show (0x2000 + _) % 65536 = _
    omega
  rw [UInt16.le_iff_toNat_le, UInt16.le_iff_toNat_le, hsum]
  show 0x2000 ≤ _ ∧ _ ≤ 0x2FFF
  omega

theorem wellFormed_new (cfg : Config) (now : Instant) : (new cfg now).WellFormed where
  regNo := rfl
  localNo h := by cases h
  inCycle h := by cases h
  index h := by cases h
  callnoNext := by
    show InCycle callnoCallBase
    decide
  qualifyNext := by
    show callnoQualifyBase ≤ callnoQualifyBase ∧
      callnoQualifyBase ≤ callnoQualifyBase + callnoQualifySpan
    decide

/-- Survival is not being exhausted. -/
theorem survivor_eq_some {now : Instant} {c c' : CallLeg} :
    c.survivor now = some c' ↔
      (expire now c.leg.outstanding).exhausted = false ∧ c' = c.expire now := by
  unfold CallLeg.survivor
  split
  next h => simp only [h, reduceCtorEq, Bool.true_eq_false, false_and]
  next h => simp only [h, Option.some.injEq, true_and, eq_comm]

theorem SameRest.wellFormed_counters (h : s.SameRest s') :
    s'.reg = s.reg ∧ s'.callnoNext = s.callnoNext ∧ s'.qualifyNext = s.qualifyNext ∧
      s'.cfg = s.cfg ∧ s'.start = s.start := by
  rw [h]
  exact ⟨rfl, rfl, rfl, rfl, rfl⟩

/-- A step that touches no call keeps the store well formed. -/
theorem WellFormed.quiet (h : s.WellFormed) (effect : s.Quiet s') : s'.WellFormed where
  regNo := effect.localNo.trans h.regNo
  localNo := fun hc => h.localNo (effect.calls _ ▸ hc)
  inCycle := fun hk => by
    rw [Table.mem_iff_lookup, effect.calls, ← Table.mem_iff_lookup] at hk
    exact h.inCycle hk
  index := fun hq => by
    rw [Table.mem_iff_lookup, effect.calls, ← Table.mem_iff_lookup]
    exact h.index (effect.index _ ▸ hq)
  callnoNext := effect.callnoNext ▸ h.callnoNext
  qualifyNext := by
    rcases effect.qualifyNext with hq | hq
    · exact hq ▸ h.qualifyNext
    · exact hq ▸ s.nextQualifyCallno_range

/-- A live call that reacts keeps the store well formed. -/
theorem WellFormed.touched {md5 : Md5} {i : Invocation} (h : s.WellFormed) {call : UInt16}
    {x : CallInput} {c : CallLeg} (live : s.calls.lookup call = some c)
    (effect : s.Touched call x.claims (s.reaction md5 i call c x) s') : s'.WellFormed := by
  obtain ⟨hreg, hcallno, hqualify, _, _⟩ := effect.rest.wellFormed_counters
  have liveCall : call ∈ s.calls := Table.mem_iff_lookup.mpr ⟨c, live⟩
  have kept {k : UInt16} (hk : k ∈ s'.calls) : k ∈ s.calls := by
    rw [Table.mem_iff_lookup, effect.calls] at hk
    split at hk
    next heq => exact heq ▸ liveCall
    next => exact Table.mem_iff_lookup.mpr hk
  exact {
    regNo := hreg ▸ h.regNo
    localNo := fun {k c'} hc => by
      rw [effect.calls] at hc
      split at hc
      next heq =>
        rw [Reaction_kept_some hc, reaction_localNo, heq]
        exact h.localNo live
      next => exact h.localNo hc
    inCycle := fun hk => h.inCycle (kept hk)
    index := fun {q v} hq => by
      rw [effect.index, Option.filter_eq_some_iff] at hq
      obtain ⟨hq, hstays⟩ := hq
      rw [Table.mem_iff_lookup, effect.calls]
      split
      next heq =>
        rw [Bool.or_eq_true, decide_eq_true_eq] at hstays
        exact Option.isSome_iff_exists.mp (hstays.resolve_right fun hne => hne heq)
      next hne =>
        split at hq
        · cases hq
          exact absurd rfl hne
        · exact Table.mem_iff_lookup.mp (h.index hq)
    callnoNext := hcallno ▸ h.callnoNext
    qualifyNext := hqualify ▸ h.qualifyNext }

/-- A new call keeps the store well formed. -/
theorem WellFormed.opened {i : Invocation} (h : s.WellFormed) {o : Opening}
    (effect : s.Opened o.claims (s.opened i s.allocCallno.1 o) s') : s'.WellFormed := by
  obtain ⟨hreg, hcallno, hqualify, _, _⟩ := effect.rest.wellFormed_counters
  obtain ⟨hin, hnext⟩ := inCycle_allocCallno h.callnoNext
  exact {
    regNo := by rw [hreg]; exact h.regNo
    localNo := fun {k c} hc => by
      rw [effect.calls] at hc
      split at hc
      next heq =>
        cases hc
        rw [opened_localNo, heq]
      next => exact h.localNo hc
    inCycle := fun {k} hk => by
      rw [Table.mem_iff_lookup, effect.calls] at hk
      split at hk
      next heq => exact heq ▸ hin
      next => exact h.inCycle (Table.mem_iff_lookup.mpr hk)
    index := fun {q v} hq => by
      rw [Table.mem_iff_lookup, effect.calls]
      split
      next => exact ⟨_, rfl⟩
      next hne =>
        rw [effect.index] at hq
        split at hq
        · cases hq
          exact absurd rfl hne
        · exact Table.mem_iff_lookup.mp (h.index hq)
    callnoNext := hcallno ▸ hnext
    qualifyNext := hqualify ▸ h.qualifyNext }

/-- A timeout keeps the store well formed. -/
theorem WellFormed.expired {now : Instant} (h : s.WellFormed) (effect : s.Expired now s') :
    s'.WellFormed := by
  have survives {k : UInt16} {c' : CallLeg} (hc : s'.calls.lookup k = some c') :
      ∃ c, s.calls.lookup k = some c ∧ c' = c.expire now := by
    rw [effect.calls, Option.bind_eq_some_iff] at hc
    obtain ⟨c, hc, hs⟩ := hc
    exact ⟨c, hc, (survivor_eq_some.mp hs).2⟩
  exact {
    regNo := effect.localNo.trans h.regNo
    localNo := fun hc => by
      obtain ⟨c, hlive, rfl⟩ := survives hc
      show c.leg.localNo = _
      exact h.localNo hlive
    inCycle := fun hk => by
      obtain ⟨c', hc'⟩ := Table.mem_iff_lookup.mp hk
      obtain ⟨c, hc, _⟩ := survives hc'
      exact h.inCycle (Table.mem_iff_lookup.mpr ⟨c, hc⟩)
    index := fun {q v} hq => by
      rw [effect.index, Option.filter_eq_some_iff] at hq
      obtain ⟨hq, halive⟩ := hq
      obtain ⟨c, hc⟩ := Table.mem_iff_lookup.mp (h.index hq)
      rw [exhausted, hc] at halive
      have hs : c.survivor now = some (c.expire now) :=
        survivor_eq_some.mpr ⟨by simpa using halive, rfl⟩
      exact Table.mem_iff_lookup.mpr ⟨_, by rw [effect.calls, hc, Option.bind_some, hs]⟩
    callnoNext := effect.callnoNext ▸ h.callnoNext
    qualifyNext := effect.qualifyNext ▸ h.qualifyNext }

/-- Every step keeps the store well formed. -/
theorem WellFormed.outcome {md5 : Md5} {i : Invocation} (h : s.WellFormed)
    (step : s.Outcome md5 i s') : s'.WellFormed := by
  cases step with
  | quiet _ effect => exact h.quiet effect
  | touched _ live effect => exact h.touched live effect
  | opened _ effect => exact h.opened effect
  | expired _ effect => exact h.expired effect

/-- The store is well formed in every state of every run. -/
theorem wellFormed_run {md5 : Md5} {cfg : Config} {past : List Move}
    (run : (system md5 cfg).Run past s) : s.WellFormed :=
  run.invariant
    (fun _ init => by
      obtain ⟨now, rfl⟩ := init
      exact wellFormed_new cfg now)
    fun _ _ _ step h => h.outcome (Step.outcome step)

/-- The account and the start of the clock stay as they were made. -/
theorem Outcome.account {md5 : Md5} {i : Invocation} (step : s.Outcome md5 i s') :
    s'.cfg = s.cfg ∧ s'.start = s.start := by
  cases step with
  | quiet _ effect => exact ⟨effect.cfg, effect.start⟩
  | touched _ _ effect => exact effect.rest.wellFormed_counters.2.2.2
  | opened _ effect =>
    rw [effect.rest, allocCallno_snd]
    exact ⟨rfl, rfl⟩
  | expired _ effect => exact ⟨effect.cfg, effect.start⟩

/-- Every state of a run has the account of the run. -/
theorem cfg_run {md5 : Md5} {cfg : Config} {past : List Move}
    (run : (system md5 cfg).Run past s) : s.cfg = cfg :=
  run.invariant (I := fun s => s.cfg = cfg)
    (fun _ init => by
      obtain ⟨now, rfl⟩ := init
      rfl)
    fun _ _ _ step h => (Step.outcome step).account.1.trans h

/-! ## Where the entry of a live call comes from -/

/-- The entry `c'` of the call `k` after a step: the step did not reach the call, a timeout went
round its window, the call reacted and stayed, or it has just been opened. -/
inductive EntryStep (md5 : Md5) (s : PbxClient) (i : Invocation) (k : UInt16) (c' : CallLeg) : Prop
  | kept (live : s.calls.lookup k = some c') (notTimeout : s.target i.op ≠ .timeout)
      (notCall : ∀ x, s.target i.op ≠ .call k x)
      (notOpened : ∀ o, s.target i.op = .opening o → k ≠ s.allocCallno.1)
  | aged {c : CallLeg} (live : s.calls.lookup k = some c) (target : s.target i.op = .timeout)
      (survives : (expire i.now c.leg.outstanding).exhausted = false) (entry : c' = c.expire i.now)
  | reacted {c : CallLeg} {x : CallInput} (live : s.calls.lookup k = some c)
      (target : s.target i.op = .call k x) (stays : (s.reaction md5 i k c x).kept = some c')
  | opened {o : Opening} (target : s.target i.op = .opening o) (number : k = s.allocCallno.1)
      (entry : c' = (s.opened i k o).entry)

theorem Outcome.entryStep {md5 : Md5} {i : Invocation} (step : s.Outcome md5 i s') {k : UInt16}
    {c' : CallLeg} (live : s'.calls.lookup k = some c') : EntryStep md5 s i k c' := by
  cases step with
  | quiet target effect =>
    rw [effect.calls] at live
    exact .kept live (by simp [target]) (by simp [target]) (by simp [target])
  | @touched call x c target hc effect =>
    rw [effect.calls] at live
    split at live
    next heq =>
      subst heq
      exact .reacted hc target live
    next hne =>
      refine .kept live (by simp [target]) (fun y hy => ?_) (by simp [target])
      rw [target] at hy
      cases hy
      exact hne rfl
  | @opened o target effect =>
    rw [effect.calls] at live
    split at live
    next heq =>
      cases live
      exact .opened target heq (by rw [heq])
    next hne => exact .kept live (by simp [target]) (by simp [target]) fun _ _ => hne
  | expired target effect =>
    rw [effect.calls, Option.bind_eq_some_iff] at live
    obtain ⟨c, hc, hs⟩ := live
    obtain ⟨survives, entry⟩ := survivor_eq_some.mp hs
    exact .aged hc target survives entry

/-! ## The numbers on one socket -/

/-- A source number of a qualify PONG. -/
def Qualify (n : UInt16) : Prop :=
  callnoQualifyBase ≤ n ∧ n ≤ callnoQualifyBase + callnoQualifySpan

/-- The entries of the tables stand under their own numbers, each kind of number stays in its
range, and what the mini-frame index leads to is live. -/
structure StoreInvariant (s : PbxClient) : Prop where
  entries : ∀ k c, s.calls.lookup k = some c → c.leg.localNo = k ∧ 16 ≤ k ∧ k ≤ 0x1FFF
  reg : s.reg.localNo = 1
  callnoNext : 16 ≤ s.callnoNext ∧ s.callnoNext ≤ 0x1FFF
  qualifyNext : 0x2000 ≤ s.qualifyNext ∧ s.qualifyNext ≤ 0x2FFF
  index : ∀ q v, s.remoteIndex.lookup q = some v → v ∈ s.calls
  /-- no call has a reserved number or a number of the probes -/
  apart : ∀ k ∈ s.calls, k ≠ callnoReg ∧ k ≠ callnoKeepalive ∧ ¬ Qualify k
  reserved : ¬ Qualify callnoReg ∧ ¬ Qualify callnoKeepalive ∧ callnoReg ≠ callnoKeepalive
  /-- a mini frame reaches a live call or none -/
  mini : ∀ dg m call, isFullFrame dg = false → MiniFrame.decode dg = some m →
    s.remoteIndex.lookup m.srcCall = some call →
    call ∈ s.calls ∧ s.target (.handleInput dg) = .call call (.mini m)

theorem InCycle.apart {k : UInt16} (h : InCycle k) :
    k ≠ callnoReg ∧ k ≠ callnoKeepalive ∧ ¬ Qualify k := by
  have range := (inCycle_iff k).mp h
  refine ⟨?_, ?_, ?_⟩
  · rintro rfl
    exact absurd h (by decide)
  · rintro rfl
    exact absurd h (by decide)
  · intro qualify
    have lower : 0x2000 ≤ k.toNat := UInt16.le_iff_toNat_le.mp qualify.1
    omega

/-- In every state reached, the store is consistent: live calls, reserved numbers and the numbers of
the probes never coincide, and no mini frame is routed to a call that has ended. -/
theorem storeInvariant_run {md5 : Md5} {cfg : Config} {past : List Move}
    (run : (system md5 cfg).Run past s) : s.StoreInvariant := by
  have wf := wellFormed_run run
  exact {
    entries := fun k c hc =>
      ⟨wf.localNo hc, wf.live_inCycle hc⟩
    reg := wf.regNo
    callnoNext := wf.callnoNext
    qualifyNext := wf.qualifyNext
    index := fun _ _ hq => wf.index hq
    apart := fun _ hk => (wf.inCycle hk).apart
    reserved := by
      unfold Qualify
      decide
    mini := fun dg m call mini decoded hq => by
      have live : call ∈ s.calls := wf.index hq
      refine ⟨live, ?_⟩
      simp only [target, mini, Bool.false_eq_true, if_false, decoded, miniTarget, hq]
      exact if_pos live }

/-- The incoming call 16, to which the peer's call 42 is mapped. -/
theorem storeInvariant_sample : (Sample.after [Sample.receive Sample.newCall]).StoreInvariant :=
  storeInvariant_run (Sample.run [Sample.receive Sample.newCall] (by decide))

end Iax2.PbxClient
