import Iax2.Laws.CallState
import Iax2.Laws.Isolation
import Iax2.Laws.Retransmission
import Iax2.Laws.Timers

/-!
# The handshake of the registration

A registration is a request, a call token, a challenge and an acknowledgement, each on the leg of
number 1. The frames on that leg are told apart by their subclass alone, and what is in flight by
the number that they acknowledge. Three laws say how far this carries.

A frame that is not of type IAX moves the registration exactly if its subclass, or a token, moves it
(`regKept_iff`). A registration that is acknowledged has nothing in flight exactly as long as every
REGACK acknowledges all of it, and nothing is requested after it (`clearAfterAck_run`). A call token
that comes again is harmless only on the registration leg, where it is noted like any other frame
(`token_again_iff`).
-/

namespace Iax2.PbxClient

variable {s s' : PbxClient} {md5 : Md5}

/-! ## Frames of another type -/

/-- The registration is as it was: its state, its refresh, its token and its timers. No request is
sent, and no change of its state is reported. -/
structure RegKept (s s' : PbxClient) : Prop where
  regState : s'.regState = s.regState
  refresh : s'.refresh = s.refresh
  calltoken : s'.calltoken = s.calltoken
  nextReg : s'.nextReg = s.nextReg
  nextKeepalive : s'.nextKeepalive = s.nextKeepalive
  noRequest : ∀ dg ∈ s.pushed s', ∀ hd, Header.read dg = some hd →
    ¬ (hd.frametype = Frametype.iax ∧ hd.subclass = Iax.regreq)
  notRegistered : .registered ∉ s.emitted s'
  notLost : ∀ reason, .registerLost reason ∉ s.emitted s'

/-- The frame carries a call token, and the registration waits for one. -/
def TakesToken (s : PbxClient) (f : FullFrame) : Prop :=
  s.calltoken = none ∧ ∃ tok, Ie.find f.ies IeKind.calltoken = some tok ∧ tok.data ≠ []

/-- A request that is sent is not nothing. -/
theorem not_regKept_of_request {f : FullFrame} (out : s'.out = s.out ++ [f.encode])
    (ft : f.frametype = Frametype.iax) (sc : f.subclass = Iax.regreq) : ¬ s.RegKept s' := by
  intro kept
  have sent : f.encode ∈ s.pushed s' := by
    rw [pushed_append out]
    exact List.mem_singleton_self _
  refine kept.noRequest _ sent _ (Header.read_encode f) ⟨ft, ?_⟩
  show f.subclass &&& 0x7F = Iax.regreq
  rw [sc]
  decide

/-- Where a frame for number 1 goes that is no NEW. -/
theorem route_reg (wf : s.WellFormed) {f : FullFrame} (dst : f.dstCall = callnoReg)
    (notNew : ¬ (f.frametype = Frametype.iax ∧ f.subclass = Iax.new)) :
    (s.TakesToken f ∧ ∃ token, s.route f = .regToken token) ∨
      (¬ s.TakesToken f ∧ s.route f = .reg) := by
  have hdst : f.dstCall ≠ 0 := by
    rw [dst]
    decide
  have noCall : s.calls.lookup f.dstCall = none := by
    cases hc : s.calls.lookup f.dstCall with
    | none => rfl
    | some c => exact absurd dst (wf.live_inCycle hc).ne_reg
  have htoken := tokenRoute_eq wf f
  rw [noCall] at htoken
  have onLeg (h : s.tokenRoute f = none) : s.route f = .reg := by
    rw [route_leg wf hdst notNew h, if_pos dst]
  cases found : Ie.find f.ies IeKind.calltoken with
  | none =>
    rw [found] at htoken
    refine .inr ⟨?_, onLeg htoken⟩
    rintro ⟨_, tok, some, _⟩
    cases found.symm.trans some
  | some tok =>
    simp only [found, dst, true_and] at htoken
    by_cases hdata : tok.data = []
    · rw [if_pos hdata] at htoken
      refine .inr ⟨?_, onLeg htoken⟩
      rintro ⟨_, tok', some, given⟩
      cases found.symm.trans some
      exact given hdata
    · rw [if_neg hdata] at htoken
      split at htoken
      next waits =>
        refine .inl ⟨⟨waits, tok, found, hdata⟩, tok.data, ?_⟩
        rw [route, if_neg fun h => hdst h.2.2, htoken]
      next given =>
        refine .inr ⟨?_, onLeg htoken⟩
        exact fun takes => given takes.1

/-- A settled frame on the registration leg leaves the registration as it was. -/
theorem regKept_of_settled {f : FullFrame} (settled : SettledReg f) (md5 : Md5) (s : PbxClient)
    (now clock : Instant) : s.RegKept (s.onRegFrame md5 f now clock) := by
  obtain ⟨evs, logs, handled⟩ := onRegFrame_settled settled md5 s now clock
  have silent : s.pushed (s.onRegFrame md5 f now clock) = [] := pushed_same (by rw [handled])
  have events : s.emitted (s.onRegFrame md5 f now clock) = evs :=
    emitted_append (by rw [handled])
  exact {
    regState := by rw [handled]
    refresh := by rw [handled]
    calltoken := by rw [handled]
    nextReg := by rw [handled]
    nextKeepalive := by rw [handled]
    noRequest := fun dg hdg => by
      rw [silent] at hdg
      cases hdg
    notRegistered := fun h => by
      rw [events] at h
      obtain ⟨_, log⟩ := logs _ h
      cases log
    notLost := fun _ h => by
      rw [events] at h
      obtain ⟨_, log⟩ := logs _ h
      cases log }

/-- A frame on the registration leg leaves the registration as it was if it is settled, and only
then. -/
theorem onRegFrame_kept_iff (md5 : Md5) (s : PbxClient) (f : FullFrame) (now clock : Instant) :
    s.RegKept (s.onRegFrame md5 f now clock) ↔ SettledReg f := by
  refine ⟨fun kept => ?_, fun settled => regKept_of_settled settled md5 s now clock⟩
  unfold SettledReg
  simp only [onRegFrame] at kept
  cases kind : regKind f with
  | regauth =>
    rw [kind] at kept
    by_contra answered
    obtain ⟨offered, given⟩ := not_or.mp answered
    obtain ⟨chal, hchal⟩ := Option.ne_none_iff_exists'.mp given
    simp only [offered, if_false, hchal] at kept
    exact not_regKept_of_request rfl rfl rfl kept
  | regack =>
    rw [kind] at kept
    refine kept.notRegistered ?_
    rw [emitted_append rfl]
    exact List.mem_singleton_self _
  | regrej =>
    rw [kind] at kept
    refine kept.notLost ("REGREJ causecode=" ++ f.causecode) ?_
    rw [emitted_append rfl]
    exact List.mem_singleton_self _
  | quiet => trivial
  | other => trivial

/-- In every reachable state, a full frame for number 1 that is not of type IAX leaves the
registration as it was, exactly if it carries no call token that the registration waits for, and its
subclass is none that the registration acts on: not REGACK, not REGREJ, no REGAUTH with a challenge
that is answered. -/
theorem regKept_iff {cfg : Config} {past : List Move} (run : (system md5 cfg).Run past s)
    {i : Invocation} {dg : Bytes} {f : FullFrame} (op : i.op = .handleInput dg)
    (decoded : FullFrame.decode dg = some f) (dst : f.dstCall = callnoReg)
    (notIax : f.frametype ≠ Frametype.iax) :
    s.RegKept (s.apply md5 i) ↔ ¬ s.TakesToken f ∧ SettledReg f := by
  have wf := wellFormed_run run
  rw [apply_full decoded (.inl op), onFull]
  rcases route_reg wf dst fun h => notIax h.1 with ⟨takes, token, route⟩ | ⟨keeps, route⟩
  · rw [route]
    constructor
    · exact fun kept => absurd kept (not_regKept_of_request rfl rfl rfl)
    · exact fun h => absurd takes h.1
  · rw [route]
    simp only
    rw [onRegFrame_kept_iff]
    exact ⟨fun settled => ⟨keeps, settled⟩, fun h => h.2⟩

/-- A RINGING on number 1. -/
theorem regKept_sample :
    let f := FullFrame.new 42 callnoReg 0 0 0 Frametype.control Control.ringing []
    (Sample.after []).RegKept ((Sample.after []).apply Sample.md5 (Sample.receive f)) ↔
      ¬ (Sample.after []).TakesToken f ∧ SettledReg f :=
  regKept_iff (f := FullFrame.new 42 callnoReg 0 0 0 Frametype.control Control.ringing [])
    (Sample.run [] (by decide)) rfl (by decide) rfl (by decide)

/-- The subclass of CONTROL PROCEEDING is that of REGACK: on number 1 it registers the account. -/
theorem proceeding_registers :
    ¬ ∀ {past : List Move} {s : PbxClient}, (system Sample.md5 Sample.cfg).Run past s →
      ∀ {i : Invocation} {dg : Bytes} {f : FullFrame}, i.op = .handleInput dg →
        FullFrame.decode dg = some f → f.dstCall = 1 → f.frametype ≠ Frametype.iax →
        s.RegKept (s.apply Sample.md5 i) := by
  intro law
  let f := FullFrame.new 42 callnoReg 0 0 0 Frametype.control 0x0F []
  have kept := law (Sample.run [] (by decide)) (i := Sample.receive f) (f := f) rfl (by decide) rfl
    (by decide)
  exact kept.notRegistered (by decide)

/-! ## After the acknowledgement -/

/-- The transition handles the frame on the registration leg. -/
def OnReg (f : FullFrame) (t : Move) : Prop :=
  ∃ dg, t.label.op = .handleInput dg ∧ FullFrame.decode dg = some f ∧ t.pre.route f = .reg

/-- The transition handles a REGACK. -/
def RegAcked (t : Move) : Prop := ∃ f, OnReg f t ∧ regKind f = .regack

/-- The transition repeats the request: with a call token, or with the answer to a challenge. -/
def RequestsAgain (t : Move) : Prop :=
  (∃ dg f token, t.label.op = .handleInput dg ∧ FullFrame.decode dg = some f ∧
    t.pre.route f = .regToken token) ∨
  ∃ f, OnReg f t ∧ regKind f = .regauth ∧ ¬ SettledReg f

/-- A registration that is acknowledged has nothing in flight. -/
def ClearWhenRegistered (t : Move) : Prop :=
  t.post.regState = .registered → t.post.reg.outstanding = []

/-- A REGACK acknowledges all that is in flight. -/
def AcksAll (t : Move) : Prop :=
  ∀ f, OnReg f t → regKind f = .regack → ∀ o ∈ t.pre.reg.outstanding, seqBefore o.oseq f.iseq = true

/-- The registration was acknowledged since it was started. -/
def AckedSinceStart : List Move → Prop := Since StartsReg RegAcked

/-- After the acknowledgement, and before the next start, no registration is lost for want of
one. -/
def NoLossAfterAck (t : Move) (past : List Move) : Prop :=
  AckedSinceStart past → .registerLost "no ACK after retransmissions" ∉ t.emitted

/-- The window after a frame of the leg that makes no request. -/
theorem onRegFrame_window {f : FullFrame} (quiet : regKind f = .regauth → SettledReg f) (md5 : Md5)
    (s : PbxClient) (now clock : Instant) :
    (s.onRegFrame md5 f now clock).reg.outstanding =
      s.reg.outstanding.filter fun o => !o.acked f.iseq f.timestamp f.isAck := by
  cases kind : regKind f with
  | regauth =>
    obtain ⟨_, _, handled⟩ := onRegFrame_settled (quiet kind) md5 s now clock
    rw [handled]
    rfl
  | _ =>
    simp only [onRegFrame, kind]
    rfl

/-- A frame that is a REGACK by its subclass is no ACK. -/
theorem acked_of_regack {f : FullFrame} (kind : regKind f = .regack) (o : Outstanding) :
    o.acked f.iseq f.timestamp f.isAck = seqBefore o.oseq f.iseq := by
  have notAck : f.isAck = false := by
    have sc : f.subclass = Iax.regack := by
      unfold regKind at kind
      split at kind
      · cases kind
      · split at kind
        next h => exact h
        next =>
          split at kind
          · cases kind
          · split at kind <;> cases kind
    rw [FullFrame.isAck, sc]
    exact Bool.and_false _
  rw [Outstanding.acked, notAck]
  simp

/-- A REGACK registers the account, and what it acknowledges leaves the window. -/
theorem acked_effect {i : Invocation} (step : Step md5 s i s') {f : FullFrame}
    (ack : OnReg f ⟨s, i, s'⟩) (kind : regKind f = .regack) :
    s'.regState = .registered ∧
      s'.reg.outstanding = s.reg.outstanding.filter fun o => !seqBefore o.oseq f.iseq := by
  obtain ⟨dg, op, decoded, route⟩ := ack
  have effect : s' = s.onRegFrame md5 f i.now i.clock := by
    rw [step.full op decoded, onFull, route]
  have window := onRegFrame_window (f := f) (by simp [kind]) md5 s i.now i.clock
  have state := (onRegFrame_state md5 s f i.now i.clock).1
  rw [kind] at state
  simp only [acked_of_regack kind] at window
  rw [effect]
  exact ⟨state, window⟩

/-- A request that is made has an entry in the window. -/
theorem requestsAgain_window {i : Invocation} (step : Step md5 s i s')
    (requests : RequestsAgain ⟨s, i, s'⟩) :
    s'.reg.outstanding ≠ [] ∧ s'.regState = s.regState := by
  rcases requests with ⟨dg, f, token, op, decoded, route⟩ |
    ⟨f, ⟨dg, op, decoded, route⟩, kind, asked⟩
  · rw [step.full op decoded, onFull, route]
    exact ⟨List.append_ne_nil_of_right_ne_nil _ (List.cons_ne_nil _ _), rfl⟩
  · rw [step.full op decoded, onFull, route]
    have offered : ¬ (f.authmethods &&& Authmethod.md5 = 0) ∧ f.challenge ≠ none := by
      simpa only [SettledReg, kind, not_or] using asked
    obtain ⟨chal, given⟩ := Option.ne_none_iff_exists'.mp offered.2
    simp only [onRegFrame, kind, offered.1, if_false, given]
    exact ⟨List.append_ne_nil_of_right_ne_nil _ (List.cons_ne_nil _ _), rfl⟩

/-- What a step means for what is in flight on the registration leg: a start, one more request, an
acknowledgement, or nothing that would add to it. -/
inductive Course (t : Move) : Prop
  | started (starts : StartsReg t) (state : t.post.regState = .registering)
  | requested (requests : RequestsAgain t)
  | acked {f : FullFrame} (ack : OnReg f t) (kind : regKind f = .regack)
  | idle (state : t.post.regState = .registered → t.pre.regState = .registered)
      (window : t.pre.reg.outstanding = [] → t.post.reg.outstanding = [])

theorem Step.course {i : Invocation} (wf : s.WellFormed) (step : Step md5 s i s') :
    Course ⟨s, i, s'⟩ := by
  cases step.reg wf with
  | untouched _ effect =>
    refine .idle (fun h => effect.same.regState ▸ h) fun h => ?_
    show s'.reg.outstanding = []
    rw [effect.same.reg]
    exact h
  | token op decoded route _ => exact .requested (.inl ⟨_, _, _, op, decoded, route⟩)
  | @frame dg f op decoded route effect =>
    have onReg : OnReg f ⟨s, i, s'⟩ := ⟨dg, op, decoded, route⟩
    by_cases asked : regKind f = .regauth ∧ ¬ SettledReg f
    · exact .requested (.inr ⟨f, onReg, asked⟩)
    · by_cases kind : regKind f = .regack
      · exact .acked onReg kind
      · have window := onRegFrame_window (fun kind => by_contra fun h => asked ⟨kind, h⟩) md5 s
          i.now i.clock
        have state := (onRegFrame_state md5 s f i.now i.clock).1
        rw [← effect] at window state
        refine .idle (fun registered => ?_) fun empty => ?_
        · have registered : s'.regState = .registered := registered
          rw [state] at registered
          split at registered
          next h => exact absurd h kind
          next => cases registered
          next => exact registered
        · show s'.reg.outstanding = []
          rw [window, empty]
          rfl
  | timeout op effect =>
    have state := (handleTimeout_state s i.now i.clock).1
    rw [← effect] at state
    by_cases starts : s.reg.outstanding = [] ∧ s.nextReg ≤ i.now
    · exact .started ⟨op, starts⟩ (state.trans (if_pos starts))
    · rw [if_neg starts] at state
      refine .idle (fun registered => ?_) fun empty => ?_
      · have registered : s'.regState = .registered := registered
        rw [state] at registered
        split at registered
        next => cases registered
        next => exact registered
      · obtain ⟨_, _, ⟨fires, _⟩ | ⟨_, reg, _⟩⟩ := handleTimeout_reg s i.now i.clock
        · exact absurd fires starts
        · have empty : s.reg.outstanding = [] := empty
          rw [empty] at reg
          show s'.reg.outstanding = []
          rw [effect, reg]
          rfl

theorem acksAll_filter {t : Move} (all : AcksAll t) {f : FullFrame} (ack : OnReg f t)
    (kind : regKind f = .regack) :
    (t.pre.reg.outstanding.filter fun o => !seqBefore o.oseq f.iseq) = [] :=
  List.filter_eq_nil_iff.mpr fun o ho h => by
    rw [all f ack kind o ho] at h
    cases h

theorem clearWhenRegistered_step {i : Invocation} (wf : s.WellFormed) (step : Step md5 s i s')
    (clear : s.regState = .registered → s.reg.outstanding = []) :
    ClearWhenRegistered ⟨s, i, s'⟩ ↔
      AcksAll ⟨s, i, s'⟩ ∧ (s.regState = .registered → ¬ RequestsAgain ⟨s, i, s'⟩) := by
  constructor
  · intro holds
    refine ⟨fun f ack kind o ho => ?_, fun registered requests => ?_⟩
    · obtain ⟨state, window⟩ := acked_effect step ack kind
      have window : s'.reg.outstanding = _ := window
      rw [holds state] at window
      simpa using List.filter_eq_nil_iff.mp window.symm o ho
    · obtain ⟨window, state⟩ := requestsAgain_window step requests
      exact window (holds (state.trans registered))
  · rintro ⟨all, once⟩ registered
    cases step.course wf with
    | started _ state => cases state.symm.trans registered
    | requested requests =>
      have state := (requestsAgain_window step requests).2
      exact absurd requests (once (state ▸ registered))
    | acked ack kind => exact (acked_effect step ack kind).2.trans (acksAll_filter all ack kind)
    | idle state window => exact window (clear (state registered))

/-- Once the registration is acknowledged, and until it starts again, nothing is in flight. -/
theorem clearSinceAck_run {cfg : Config} {past : List Move} (run : (system md5 cfg).Run past s)
    (cond : Always (fun t past => AcksAll t ∧ (AckedSinceStart past → ¬ RequestsAgain t)) past) :
    AckedSinceStart past → s.reg.outstanding = [] := by
  refine run.invariant_under
    (I := fun past s => AckedSinceStart past → s.reg.outstanding = []) ?_ ?_ cond
  · exact fun _ _ acked => acked.elim
  · rintro past s i s' run step ⟨all, once⟩ ih ⟨notStarts, since⟩
    have cleared {f : FullFrame} (ack : OnReg f ⟨s, i, s'⟩) (kind : regKind f = .regack) :
        s'.reg.outstanding = [] :=
      (acked_effect step ack kind).2.trans (acksAll_filter all ack kind)
    rcases since with ⟨f, ack, kind⟩ | since
    · exact cleared ack kind
    · cases step.course (wellFormed_run run) with
      | started starts _ => exact absurd starts notStarts
      | requested requests => exact absurd requests (once since)
      | acked ack kind => exact cleared ack kind
      | idle _ window => exact window (ih since)

/-- A registration that is lost for want of an acknowledgement had something in flight. -/
theorem lost_window {i : Invocation} (wf : s.WellFormed) (step : Step md5 s i s')
    (lost : .registerLost "no ACK after retransmissions" ∈ s.emitted s') :
    s.reg.outstanding ≠ [] := by
  obtain ⟨_, o, ho, _⟩ := spent_of_givesUp (k := callnoReg) wf step lost (by decide)
  rw [window_reg] at ho
  exact List.ne_nil_of_mem ho

/-- Along every run, a registration that is acknowledged has nothing in flight, exactly as long as
every REGACK acknowledges all that is, and no request is made while the account is registered.
Where no request is made between the REGACK and the next start either, no registration is lost there
for want of an acknowledgement. -/
theorem clearAfterAck_run {cfg : Config} {past : List Move} (run : (system md5 cfg).Run past s) :
    (Always (fun t _ => ClearWhenRegistered t) past ↔
      Always (fun t _ => AcksAll t ∧ (t.pre.regState = .registered → ¬ RequestsAgain t)) past) ∧
    (Always (fun t past => AcksAll t ∧ (AckedSinceStart past → ¬ RequestsAgain t)) past →
      Always NoLossAfterAck past) := by
  constructor
  · refine run.always_iff fun past s i s' run step before => ?_
    refine clearWhenRegistered_step (wellFormed_run run) step ?_
    refine run.reached
      (I := fun _ (s : PbxClient) => s.regState = .registered → s.reg.outstanding = [])
      (fun s init => ?_) before
    obtain ⟨now, rfl⟩ := init
    exact fun _ => rfl
  · exact run.always_under fun past s i s' run step before _ acked lost =>
      lost_window (wellFormed_run run) step lost (clearSinceAck_run run before acked)

/-- A registration that is challenged once, and acknowledged. -/
theorem clearAfterAck_sample :
    let is : List Invocation := [{ op := .handleTimeout },
      Sample.receive (Sample.regFrame 1 Iax.regauth
        [Ie.u16 IeKind.authmethods Authmethod.md5, Ie.str IeKind.challenge "1234"]),
      Sample.receive (Sample.regFrame 2 Iax.regack [])]
    (Always (fun t _ => ClearWhenRegistered t) (Sample.trace is) ↔
      Always (fun t _ => AcksAll t ∧ (t.pre.regState = .registered → ¬ RequestsAgain t))
        (Sample.trace is)) ∧
    (Always (fun t past => AcksAll t ∧ (AckedSinceStart past → ¬ RequestsAgain t))
        (Sample.trace is) →
      Always NoLossAfterAck (Sample.trace is)) :=
  clearAfterAck_run (Sample.run _ (by decide))

/-- A challenge that comes twice is answered twice. The REGACK acknowledges the first answer, and
the second one stays in flight while the account is registered. -/
theorem second_answer_in_flight :
    ¬ ∀ {past : List Move} {s : PbxClient}, (system Sample.md5 Sample.cfg).Run past s →
      (s.regState = .registered → s.reg.outstanding = []) ∧ Always NoLossAfterAck past := by
  intro law
  let challenge := Sample.receive (Sample.regFrame 1 Iax.regauth
    [Ie.u16 IeKind.authmethods Authmethod.md5, Ie.str IeKind.challenge "1234"])
  let is : List Invocation := [{ op := .handleTimeout }, challenge, challenge,
    Sample.receive (Sample.regFrame 2 Iax.regack [])]
  have clear := (law (Sample.run is (by decide))).1 (by decide)
  exact absurd clear (by decide)

/-! ## A call token that comes again -/

/-- The leg `k`: the registration leg, or the leg of a live call. -/
def leg? (s : PbxClient) (k : UInt16) : Option Leg :=
  if k = callnoReg then some s.reg else (s.calls.lookup k).map (·.leg)

/-- No request is sent, and the leg `k` is as it was. -/
structure Harmless (k : UInt16) (s s' : PbxClient) : Prop where
  noRequest : ∀ dg ∈ s.pushed s', ∀ hd, Header.read dg = some hd → hd.frametype = Frametype.iax →
    hd.subclass ≠ Iax.regreq ∧ hd.subclass ≠ Iax.new
  leg : s'.leg? k = s.leg? k

/-- The transition repeats the request of the leg `k` with a call token. -/
def TokenTaken (k : UInt16) (t : Move) : Prop :=
  (k = callnoReg ∧ ∃ dg f token, t.label.op = .handleInput dg ∧ FullFrame.decode dg = some f ∧
    t.pre.route f = .regToken token) ∨
  ∃ token, t.pre.target t.label.op = .call k (.token token)

/-- The request of the leg `k` has been repeated with a call token, since the registration started
or the call was opened. -/
def TokenSent (k : UInt16) : List Move → Prop :=
  Since (fun t => if k = callnoReg then StartsReg t else Opens k t) (TokenTaken k)

/-- The leg `k` waits for the answer to a request: it is the registration leg, or the leg of an
outgoing call of which nothing was heard. -/
def Requesting (s : PbxClient) (k : UInt16) : Prop :=
  k = callnoReg ∨ ∃ c, s.calls.lookup k = some c ∧ c.dir = .outbound ∧ c.state = .trying

/-- The frame tells the registration leg nothing new: not the remote number, not the number to
expect, and no acknowledgement. -/
def TellsNothing (l : Leg) (f : FullFrame) : Prop :=
  (f.srcCall = 0 ∨ f.srcCall = l.remote) ∧ f.oseq + 1 = l.iseq ∧
    ∀ o ∈ l.outstanding, seqBefore o.oseq f.iseq = false

/-- A frame that is no ACK leaves the leg as it was if it tells nothing new, and only then. -/
theorem noted_eq_iff {f : FullFrame} (notAck : f.isAck = false) (l : Leg) :
    (l.noteRecv f).ackUpto f.iseq f.timestamp f.isAck = l ↔ TellsNothing l f := by
  have window : l.outstanding.filter (fun o => !o.acked f.iseq f.timestamp f.isAck) =
      l.outstanding ↔ ∀ o ∈ l.outstanding, seqBefore o.oseq f.iseq = false := by
    rw [List.filter_eq_self, notAck]
    simp [Outstanding.acked]
  have remote : (if f.srcCall ≠ 0 then f.srcCall else l.remote) = l.remote ↔
      f.srcCall = 0 ∨ f.srcCall = l.remote := by
    by_cases h : f.srcCall = 0 <;> simp [h]
  obtain ⟨localNo, old, oseq, iseq, outstanding⟩ := l
  simp only [Leg.ackUpto, Leg.noteRecv, Leg.mk.injEq, true_and, TellsNothing]
  rw [window, remote]

/-- A token for a call makes it repeat its NEW. -/
theorem token_repeats_new (md5 : Md5) (wf : s.WellFormed) {i : Invocation} {dg : Bytes}
    {f : FullFrame} (op : i.op = .handleInput dg) (decoded : FullFrame.decode dg = some f)
    (notNew : ¬ (f.frametype = Frametype.iax ∧ f.subclass = Iax.new)) {tok : Ie}
    (found : Ie.find f.ies IeKind.calltoken = some tok) (given : tok.data ≠ []) {c : CallLeg}
    (live : s.calls.lookup f.dstCall = some c) (hdir : c.dir = .outbound)
    (hstate : c.state = .trying) :
    ∃ g : FullFrame, s.pushed (s.apply md5 i) = [g.encode] ∧ g.frametype = Frametype.iax ∧
      g.subclass = Iax.new := by
  have step : Step md5 s i (s.apply md5 i) := .call s (by simp [op])
  have input : c.inputOf f = .token tok.data := by
    simp only [CallLeg.inputOf, found]
    exact if_pos ⟨given, hdir, hstate⟩
  have target : s.target i.op = .call f.dstCall (.token tok.data) := by
    rw [op, target_live wf decoded live notNew, input]
  exact ⟨_, (Step.outcome step).sent live target, rfl, rfl⟩

/-- A token for the registration makes it repeat its REGREQ. -/
theorem token_repeats_regreq (s : PbxClient) (token : Bytes) (now clock : Instant) :
    ∃ g : FullFrame, s.pushed (s.resendRegWithToken token now clock) = [g.encode] ∧
      g.frametype = Frametype.iax ∧ g.subclass = Iax.regreq :=
  ⟨_, pushed_append rfl, rfl, rfl⟩

/-- Where a call token is handled as a frame of the registration leg, it is noted. -/
theorem callToken_noted {f : FullFrame} (sc : f.subclass = Iax.calltoken) (md5 : Md5)
    (s : PbxClient) (now clock : Instant) :
    s.onRegFrame md5 f now clock =
      { s with reg := (s.reg.noteRecv f).ackUpto f.iseq f.timestamp f.isAck } := by
  have kind : regKind f = .quiet := by
    rw [regKind, sc]
    rfl
  simp only [onRegFrame, kind]

/-- A request that is sent does harm. -/
theorem not_harmless {k : UInt16} {g : FullFrame} (sent : s.pushed s' = [g.encode])
    (ft : g.frametype = Frametype.iax) (sc : g.subclass = Iax.regreq ∨ g.subclass = Iax.new) :
    ¬ Harmless k s s' := by
  intro harmless
  have queued : g.encode ∈ s.pushed s' := sent ▸ List.mem_singleton_self _
  have none := harmless.noRequest _ queued _ (Header.read_encode g) ft
  have low : g.wire.subclass = g.subclass := by
    show g.subclass &&& 0x7F = g.subclass
    rcases sc with sc | sc <;> rw [sc] <;> decide
  rw [low] at none
  exact sc.elim none.1 none.2

/-- Where a CALLTOKEN frame is noted alone, it is harmless if it tells nothing new, and only
then. -/
theorem harmless_noted_iff {f : FullFrame} (dst : f.dstCall = callnoReg) (notAck : f.isAck = false)
    (noted : s' = { s with reg := (s.reg.noteRecv f).ackUpto f.iseq f.timestamp f.isAck }) :
    Harmless f.dstCall s s' ↔ TellsNothing s.reg f := by
  have same : s'.leg? f.dstCall = s.leg? f.dstCall ↔ TellsNothing s.reg f := by
    rw [← noted_eq_iff notAck, leg?, leg?, if_pos dst, if_pos dst, noted, Option.some.injEq]
  have silent : s.pushed s' = [] := pushed_same (by rw [noted])
  refine ⟨fun harmless => same.mp harmless.leg, fun tells => ⟨?_, same.mpr tells⟩⟩
  intro dg hdg
  rw [silent] at hdg
  cases hdg

/-- In every reachable state, a CALLTOKEN frame with a token for a leg that waits for an answer is
harmless exactly on the registration leg, when it has a token already, and the frame tells it
nothing new. The request of a call is repeated for every token that comes. -/
theorem token_again_iff {cfg : Config} {past : List Move} (run : (system md5 cfg).Run past s)
    {i : Invocation} {dg : Bytes} {f : FullFrame} (op : i.op = .handleInput dg)
    (decoded : FullFrame.decode dg = some f)
    (callToken : f.frametype = Frametype.iax ∧ f.subclass = Iax.calltoken)
    (given : ∃ tok, Ie.find f.ies IeKind.calltoken = some tok ∧ tok.data ≠ [])
    (requesting : s.Requesting f.dstCall) :
    Harmless f.dstCall s (s.apply md5 i) ↔
      f.dstCall = callnoReg ∧ s.calltoken ≠ none ∧ TellsNothing s.reg f := by
  have wf := wellFormed_run run
  have notNew : ¬ (f.frametype = Frametype.iax ∧ f.subclass = Iax.new) := fun new =>
    absurd (callToken.2.symm.trans new.2) (by decide)
  rcases requesting with dst | ⟨c, live, hdir, hstate⟩
  · have effect : s.apply md5 i = s.onFull md5 f i.now i.clock := apply_full decoded (.inl op) md5 s
    rcases route_reg wf dst notNew with ⟨takes, token, route⟩ | ⟨keeps, route⟩
    · -- no token was given yet: the frame gives the first one
      have resent : s.apply md5 i = s.resendRegWithToken token i.now i.clock := by
        rw [effect, onFull, route]
      obtain ⟨g, sent, ft, sc⟩ := s.token_repeats_regreq token i.now i.clock
      rw [← resent] at sent
      exact ⟨fun harmless => absurd harmless (not_harmless sent ft (.inl sc)),
        fun h => absurd takes.1 h.2.1⟩
    · have noted : s.apply md5 i =
          { s with reg := (s.reg.noteRecv f).ackUpto f.iseq f.timestamp f.isAck } := by
        rw [effect, onFull, route]
        exact callToken_noted callToken.2 md5 s i.now i.clock
      have notAck : f.isAck = false := by
        rw [FullFrame.isAck, callToken.2]
        exact Bool.and_false _
      have taken : s.calltoken ≠ none := fun none => keeps ⟨none, given⟩
      rw [harmless_noted_iff dst notAck noted, and_iff_right dst, and_iff_right taken]
  · obtain ⟨tok, found, data⟩ := given
    obtain ⟨g, sent, ft, sc⟩ :=
      token_repeats_new md5 wf op decoded notNew found data live hdir hstate
    exact ⟨fun harmless => absurd harmless (not_harmless sent ft (.inr sc)),
      fun h => absurd h.1 (wf.live_inCycle live).ne_reg⟩

/-- The PBX's answer with a call token, for the leg `k`. -/
def Sample.tokenFrame (src k : UInt16) : FullFrame :=
  FullFrame.new src k 0 0 1 Frametype.iax Iax.calltoken [⟨IeKind.calltoken, [0x61]⟩]

/-- A token for the registration, twice. -/
theorem token_again_sample :
    let f := Sample.tokenFrame 42 callnoReg
    let s := Sample.after [{ op := .handleTimeout }, Sample.receive f]
    Harmless callnoReg s (s.apply Sample.md5 (Sample.receive f)) ↔
      callnoReg = callnoReg ∧ s.calltoken ≠ none ∧ TellsNothing s.reg f :=
  token_again_iff (f := Sample.tokenFrame 42 callnoReg)
    (Sample.run [{ op := .handleTimeout }, Sample.receive (Sample.tokenFrame 42 callnoReg)]
      (by decide))
    rfl (by decide) ⟨rfl, rfl⟩ ⟨⟨IeKind.calltoken, [0x61]⟩, by decide⟩ (.inl rfl)

/-- The token of an outgoing call that comes twice makes it repeat its NEW once more. -/
theorem second_token_repeats_new :
    ¬ ∀ {past : List Move} {s : PbxClient}, (system Sample.md5 Sample.cfg).Run past s →
      ∀ {i : Invocation} {dg : Bytes} {f : FullFrame}, i.op = .handleInput dg →
        FullFrame.decode dg = some f → f.frametype = Frametype.iax ∧ f.subclass = Iax.calltoken →
        (∃ tok, Ie.find f.ies IeKind.calltoken = some tok ∧ tok.data ≠ []) →
        s.Requesting f.dstCall → TokenSent f.dstCall past →
        Harmless f.dstCall s (s.apply Sample.md5 i) := by
  intro law
  let f := Sample.tokenFrame 42 16
  let is := [Sample.command (.dial "200"), Sample.receive f]
  have run := Sample.run is (by decide)
  have waits : ((Sample.after is).calls.lookup 16).any
      (fun c => c.dir = .outbound ∧ c.state = .trying) = true := by decide
  obtain ⟨c, live, waits⟩ := (Option.any_eq_true _ _).mp waits
  obtain ⟨hdir, hstate⟩ := of_decide_eq_true waits
  have sent : TokenSent 16 (Sample.trace is) :=
    ⟨not_opens (T := .call 16 (.token [0x61])) (by decide) (by simp),
      .inl (.inr ⟨[0x61], by decide⟩)⟩
  have harmless := law run (i := Sample.receive f) (f := f) rfl (by decide) ⟨rfl, rfl⟩
    ⟨⟨IeKind.calltoken, [0x61]⟩, by decide⟩
    (.inr ⟨c, live, hdir, hstate⟩) sent
  obtain ⟨g, pushed, ft, sc⟩ := token_repeats_new Sample.md5 (wellFormed_run run)
    (i := Sample.receive f) (f := f) rfl (by decide) (by decide)
    (show Ie.find f.ies IeKind.calltoken = some ⟨IeKind.calltoken, [0x61]⟩ by decide) (by decide)
    live hdir hstate
  have again := harmless.noRequest g.encode (by rw [pushed]; exact List.mem_singleton_self _)
    g.wire (Header.read_encode g) ft
  refine again.2 ?_
  show g.subclass &&& 0x7F = Iax.new
  rw [sc]
  rfl

end Iax2.PbxClient
