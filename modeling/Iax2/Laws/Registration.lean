import Iax2.Laws.Window

/-!
# What a step does to the registration

The inversion of the step relation for the registration leg, beside `Step.outcome` for the calls:
the leg is handled by a timeout, by a call token, by a frame for the registration, or not at all.
-/

namespace Iax2.PbxClient

variable {s s' : PbxClient} {md5 : Md5}

/-- The registration data is as it was. -/
structure SameReg (s s' : PbxClient) : Prop where
  reg : s'.reg = s.reg
  regState : s'.regState = s.regState
  refresh : s'.refresh = s.refresh
  calltoken : s'.calltoken = s.calltoken
  nextReg : s'.nextReg = s.nextReg
  nextKeepalive : s'.nextKeepalive = s.nextKeepalive

theorem SameReg.of_rest (h : s.SameRest s') : s.SameReg s' := by
  constructor <;> rw [h]

/-- The registration is left alone, and nothing is sent on its leg. -/
structure Untouched (s s' : PbxClient) : Prop where
  same : s.SameReg s'
  sent : ∀ dg ∈ s.pushed s', ∀ hd, Header.read dg = some hd → hd.srcCall ≠ callnoReg

/-- What a step does to the registration. -/
inductive RegOutcome (md5 : Md5) (s : PbxClient) (i : Invocation) (s' : PbxClient) : Prop
  | untouched (op : i.op ≠ .handleTimeout) (effect : s.Untouched s')
  | token {dg : Bytes} {f : FullFrame} {token : Bytes} (op : i.op = .handleInput dg)
      (decoded : FullFrame.decode dg = some f) (route : s.route f = .regToken token)
      (effect : s' = s.resendRegWithToken token i.now i.clock)
  | frame {dg : Bytes} {f : FullFrame} (op : i.op = .handleInput dg)
      (decoded : FullFrame.decode dg = some f) (route : s.route f = .reg)
      (effect : s' = s.onRegFrame md5 f i.now i.clock)
  | timeout (op : i.op = .handleTimeout) (effect : s' = s.handleTimeout i.now i.clock)

/-- A call number is not the number of the registration leg. -/
theorem InCycle.ne_reg {k : UInt16} (h : InCycle k) : k ≠ callnoReg := by
  rintro rfl
  exact absurd h (by decide)

theorem InCycle.ne_zero {k : UInt16} (h : InCycle k) : k ≠ 0 := by
  rintro rfl
  exact absurd h (by decide)

private theorem onQualify_untouched (wf : s.WellFormed) (f : FullFrame) :
    s.Untouched (s.onQualify f) := by
  refine ⟨by constructor <;> rfl, fun dg hdg hd read => ?_⟩
  have one : s.pushed (s.onQualify f) = [_] := pushed_append rfl
  rw [one] at hdg
  obtain rfl := List.mem_singleton.mp hdg
  rw [Header.read_encode] at read
  cases read
  show s.qualifyNext &&& callMask ≠ callnoReg
  have lower : 0x2000 ≤ s.qualifyNext.toNat := UInt16.le_iff_toNat_le.mp wf.qualifyNext.1
  have upper : s.qualifyNext.toNat ≤ 0x2FFF := UInt16.le_iff_toNat_le.mp wf.qualifyNext.2
  rw [Ne, ← UInt16.toNat_inj, UInt16.toNat_and]
  show ¬ s.qualifyNext.toNat &&& (2 ^ 15 - 1) = 1
  rw [Nat.and_two_pow_sub_one_eq_mod]
  omega

/-- A frame that belongs to no leg is reported at most. -/
theorem onOffLeg_reports (s : PbxClient) (f : FullFrame) :
    s.onOffLeg f = s ∨ ∃ text, s.onOffLeg f = s.emit (.log text) := by
  unfold onOffLeg
  split
  · exact .inl rfl
  · exact .inr ⟨_, rfl⟩

private theorem onOffLeg_untouched (f : FullFrame) : s.Untouched (s.onOffLeg f) := by
  have silent : s.pushed (s.onOffLeg f) = [] := by
    rcases s.onOffLeg_reports f with h | ⟨_, h⟩ <;> rw [h] <;> exact pushed_same rfl
  refine ⟨?_, fun dg hdg => ?_⟩
  · rcases s.onOffLeg_reports f with h | ⟨_, h⟩ <;> rw [h] <;> constructor <;> rfl
  · rw [silent] at hdg
    cases hdg

/-- What a step does to the registration, in a well-formed state. -/
theorem Step.reg {i : Invocation} (wf : s.WellFormed) (h : Step md5 s i s') :
    s.RegOutcome md5 i s' := by
  have untouched {t : Target} (target : s.target i.op = t) (ne : t ≠ .timeout)
      (effect : s.Untouched s') : s.RegOutcome md5 i s' := by
    refine .untouched (fun op => ne ?_) effect
    rw [← target, op]
    rfl
  cases h.arm with
  | silent target effect =>
    refine untouched target (by simp) ⟨.of_rest effect.rest, fun dg hdg => ?_⟩
    rw [effect.pushed] at hdg
    cases hdg
  | qualify target _ _ _ effect =>
    exact untouched target (by simp) (effect ▸ onQualify_untouched wf _)
  | offLeg target effect => exact untouched target (by simp) (effect ▸ onOffLeg_untouched _)
  | regToken _ op decoded route effect => exact .token op decoded route effect
  | regFrame _ op decoded route effect => exact .frame op decoded route effect
  | @touched call x c target live effect =>
    refine untouched target (by simp) ⟨.of_rest effect.rest, fun dg hdg hd read => ?_⟩
    rw [effect.sent] at hdg
    rw [(reaction_sent_header wf live hdg read).1]
    exact (wf.live_inCycle live).ne_reg
  | opened target effect =>
    have hin := (inCycle_allocCallno wf.callnoNext).1
    refine untouched target (by simp) ⟨?_, fun dg hdg hd read => ?_⟩
    · constructor <;> rw [effect.rest, allocCallno_snd]
    · rw [effect.sent] at hdg
      rw [(opened_sent_header hin hdg read).1]
      exact hin.ne_reg
  | timeout op effect => exact .timeout op effect

/-! ## What the leg sends -/

private theorem backs_one {now : Instant} {start leg : Leg} {dg : Bytes}
    (out : s'.out = s.out ++ [dg]) (backs : start.Backs now leg [dg]) :
    start.Backs now leg (s.pushed s') := by
  rw [pushed_append out]
  exact backs

private theorem backs_nothing {now : Instant} {leg : Leg} (out : s'.out = s.out) :
    leg.Backs now leg (s.pushed s') := by
  rw [pushed_same out]
  exact .silent

/-- A frame for the registration is noted, and then answered by a request, by an ACK or not. -/
theorem onRegFrame_leg (md5 : Md5) (s : PbxClient) (f : FullFrame) (now clock : Instant) :
    ((s.reg.noteRecv f).ackUpto f.iseq f.timestamp f.isAck).Backs now
      (s.onRegFrame md5 f now clock).reg (s.pushed (s.onRegFrame md5 f now clock)) := by
  simp only [onRegFrame]
  split
  · split
    · exact backs_nothing rfl
    · split
      · exact backs_nothing rfl
      · exact backs_one rfl (.tracked _ _ _ _ (kind_of_literal _ _ _ _ _ (by decide) (by decide)))
  · exact backs_one rfl (.acked _)
  · exact backs_one rfl (.acked _)
  · exact backs_nothing rfl
  · exact backs_nothing rfl

/-- A call token repeats the request on a reset leg. -/
theorem resendRegWithToken_leg (s : PbxClient) (token : Bytes) (now clock : Instant) :
    s.reg.reset.Backs now (s.resendRegWithToken token now clock).reg
      (s.pushed (s.resendRegWithToken token now clock)) :=
  backs_one rfl (.tracked _ _ _ _ (kind_of_literal _ _ _ _ _ (by decide) (by decide)))

/-! ## The registration part of a timeout -/

/-- The REGREQ of a fresh registration. -/
def freshRequest (s : PbxClient) (clock : Instant) : FullFrame :=
  let s := { s with calltoken := none }
  (s.reg.reset.build (s.ts clock) Frametype.iax Iax.regreq s.regIes).1

theorem startRegistration_out (s : PbxClient) (now clock : Instant) :
    (s.startRegistration now clock).out = s.out ++ [(s.freshRequest clock).encode] :=
  rfl

/-- A fresh registration sends its request on a reset leg. -/
theorem startRegistration_leg (s : PbxClient) (now clock : Instant) :
    s.reg.reset.Backs now (s.startRegistration now clock).reg [(s.freshRequest clock).encode] :=
  .tracked _ _ _ _ (kind_of_literal _ _ _ _ _ (by decide) (by decide))

/-- A fresh registration has the request in its window, and nothing else. -/
theorem startRegistration_window (s : PbxClient) (now clock : Instant) :
    ∃ o, (s.startRegistration now clock).reg.outstanding = [o] ∧
      o.Entered now (s.freshRequest clock).encode :=
  ⟨_, rfl, rfl, rfl, rfl⟩

/-- A POKE of the keepalive. -/
def Pokes (dg : Bytes) : Prop :=
  ∃ f : FullFrame, dg = f.encode ∧ f.srcCall = callnoKeepalive ∧ f.retransmit = false

/-- The keepalive sends at most a POKE, and leaves the leg alone. -/
theorem keepalive_reg (s : PbxClient) (now clock : Instant) :
    (s.keepalive now clock).reg = s.reg ∧
      ∃ poke, (s.keepalive now clock).out = s.out ++ poke ∧ ∀ dg ∈ poke, Pokes dg := by
  simp only [keepalive]
  split
  · refine ⟨rfl, [_], rfl, fun dg hdg => ?_⟩
    obtain rfl := List.mem_singleton.mp hdg
    exact ⟨_, rfl, rfl, rfl⟩
  · exact ⟨rfl, [], (List.append_nil _).symm, fun _ hdg => by cases hdg⟩

/-- The retransmission loop of the leg: the window ages, or is lost. -/
theorem retransmitReg_reg (s : PbxClient) (now : Instant) :
    (s.retransmitReg now).reg =
        { s.reg with
          outstanding :=
            if s.reg.outstanding.any (·.Spent now) then []
            else s.reg.outstanding.map (·.aged now) } ∧
      (s.retransmitReg now).out = s.out ++ (expire now s.reg.outstanding).copies := by
  have hwindow : (expire now s.reg.outstanding).window = s.reg.outstanding.map (·.aged now) := by
    rw [expire_eq]
  have hexh : (expire now s.reg.outstanding).exhausted = s.reg.outstanding.any (·.Spent now) := by
    rw [expire_eq]
  simp only [retransmitReg]
  rw [hexh]
  split
  · exact ⟨rfl, rfl⟩
  · exact ⟨by rw [hwindow], rfl⟩

/-- A fresh registration is not lost at once. -/
theorem startRegistration_unspent (s : PbxClient) (now clock : Instant) :
    (s.startRegistration now clock).reg.outstanding.any (·.Spent now) = false := by
  obtain ⟨o, window, entered⟩ := startRegistration_window s now clock
  rw [window, List.any_cons, List.any_nil, Bool.or_false, decide_eq_false_iff_not]
  exact fun spent => entered.not_due spent.1

/-- The retransmission loop leaves a request alone that is as fresh as the pass. -/
theorem startRegistration_retransmitReg (s : PbxClient) (now clock : Instant) :
    ((s.startRegistration now clock).retransmitReg now).reg =
        (s.startRegistration now clock).reg ∧
      (expire now (s.startRegistration now clock).reg.outstanding).copies = [] := by
  obtain ⟨o, window, entered⟩ := startRegistration_window s now clock
  have notDue : ¬ o.Due now := fun h => entered.not_due h.1
  constructor
  · have same : [o].map (·.aged now) = [o] := by
      rw [List.map_singleton, Outstanding.aged, if_neg notDue]
    rw [(retransmitReg_reg ..).1, startRegistration_unspent, if_neg Bool.false_ne_true, window,
      same, ← window]
  · rw [window, expire_eq]
    simp [notDue]

/-- What a timeout does after the registration: the keepalive, and the passes of the retransmission
loops. -/
theorem keepalive_loops {s s₀ : PbxClient} (h : s.Serviced s₀) (now clock : Instant) :
    ∃ poke : List Bytes, (∀ dg ∈ poke, Pokes dg) ∧
      (((s₀.keepalive now clock).retransmitReg now).retransmitCalls now).reg =
        (s₀.retransmitReg now).reg ∧
      (((s₀.keepalive now clock).retransmitReg now).retransmitCalls now).out =
        s₀.out ++ (poke ++ (expire now s₀.reg.outstanding).copies ++ s.callCopies now) := by
  obtain ⟨hreg, poke, hpoke, hfrom⟩ := keepalive_reg s₀ now clock
  have hcalls := (h.trans (keepalive_serviced s₀ now clock)).trans
    (retransmitReg_serviced (s₀.keepalive now clock) now)
  obtain ⟨hrest, hout⟩ := retransmitCalls_rest ((s₀.keepalive now clock).retransmitReg now) now
  refine ⟨poke, hfrom, ?_, ?_⟩
  · rw [hrest]
    rw [(retransmitReg_reg ..).1, (retransmitReg_reg ..).1, hreg]
  · rw [hout, (retransmitReg_reg ..).2, hpoke, hreg, callCopies, hcalls.calls, ← callCopies]
    simp only [List.append_assoc]

/-- What a timeout does to the registration leg: a fresh registration, or a pass of the
retransmission loop. -/
theorem handleTimeout_reg (s : PbxClient) (now clock : Instant) :
    ∃ poke : List Bytes, (∀ dg ∈ poke, Pokes dg) ∧
      ((s.reg.outstanding = [] ∧ s.nextReg ≤ now) ∧
          (s.handleTimeout now clock).reg = (s.startRegistration now clock).reg ∧
          s.pushed (s.handleTimeout now clock) =
            [(s.freshRequest clock).encode] ++ poke ++ s.callCopies now ∨
        ¬ (s.reg.outstanding = [] ∧ s.nextReg ≤ now) ∧
          (s.handleTimeout now clock).reg =
            { s.reg with
              outstanding :=
                if s.reg.outstanding.any (·.Spent now) then []
                else s.reg.outstanding.map (·.aged now) } ∧
          s.pushed (s.handleTimeout now clock) =
            poke ++ (expire now s.reg.outstanding).copies ++ s.callCopies now) := by
  rw [handleTimeout_eq, beforeCalls]
  simp only
  split
  next fires =>
    obtain ⟨fresh, copies⟩ := s.startRegistration_retransmitReg now clock
    obtain ⟨poke, hfrom, hreg, hout⟩ :=
      keepalive_loops (startRegistration_serviced s now clock) now clock
    refine ⟨poke, hfrom, .inl ⟨fires, hreg.trans fresh, pushed_append ?_⟩⟩
    rw [hout, copies, startRegistration_out]
    simp only [List.append_assoc, List.nil_append]
  next waits =>
    have same : s.Serviced s := .of_reg rfl rfl (.nothing rfl) (.nothing rfl)
    obtain ⟨poke, hfrom, hreg, hout⟩ := keepalive_loops same now clock
    refine ⟨poke, hfrom, .inr ⟨waits, ?_, pushed_append hout⟩⟩
    rw [hreg, (retransmitReg_reg ..).1]

/-! ## The state of the registration -/

/-- A frame registers the account with a REGACK, and loses the registration with a REGREJ. -/
theorem onRegFrame_state (md5 : Md5) (s : PbxClient) (f : FullFrame) (now clock : Instant) :
    (s.onRegFrame md5 f now clock).regState =
        (match regKind f with
        | .regack => .registered
        | .regrej => .idle
        | _ => s.regState) ∧
      (s.onRegFrame md5 f now clock).calltoken =
        if regKind f = .regrej then none else s.calltoken := by
  simp only [onRegFrame]
  cases regKind f with
  | regauth =>
    simp only [reduceCtorEq, if_false]
    split
    · exact ⟨rfl, rfl⟩
    · split <;> exact ⟨rfl, rfl⟩
  | _ => exact ⟨rfl, rfl⟩

/-- A timeout begins a registration without a token, or loses it when a frame has no tries left. -/
theorem handleTimeout_state (s : PbxClient) (now clock : Instant) :
    (s.handleTimeout now clock).regState =
        (if s.reg.outstanding = [] ∧ s.nextReg ≤ now then .registering
        else if s.reg.outstanding.any (·.Spent now) then .idle
        else s.regState) ∧
      (s.handleTimeout now clock).calltoken =
        if s.reg.outstanding = [] ∧ s.nextReg ≤ now then none else s.calltoken := by
  have alive (s₀ : PbxClient) : (s₀.keepalive now clock).regState = s₀.regState ∧
      (s₀.keepalive now clock).calltoken = s₀.calltoken := by
    simp only [keepalive]
    split <;> exact ⟨rfl, rfl⟩
  have loop (s₀ : PbxClient) : (s₀.retransmitReg now).regState =
        (if s₀.reg.outstanding.any (·.Spent now) then .idle else s₀.regState) ∧
      (s₀.retransmitReg now).calltoken = s₀.calltoken := by
    simp only [retransmitReg, expire_eq]
    split <;> exact ⟨rfl, rfl⟩
  have same := SameReg.of_rest (retransmitCalls_rest (s.beforeCalls now clock) now).1
  rw [handleTimeout_eq, same.regState, same.calltoken]
  simp only [beforeCalls]
  rw [(loop _).1, (loop _).2, (keepalive_reg ..).1, (alive _).1, (alive _).2]
  split
  next => exact ⟨if_neg (Bool.eq_false_iff.mp (startRegistration_unspent s now clock)), rfl⟩
  next => exact ⟨rfl, rfl⟩

end Iax2.PbxClient
