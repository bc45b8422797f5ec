import Iax2.Client.Run

/-!
# What one step does

The inversion of the step relation. Every later law is about what a step changes, and reads it off
here: no other module unfolds the entry points of the client.

`PbxClient.target` says what a step is about: a timeout, the opening of a call, one live call and
the input that reaches it, or none of these. `Step.outcome` says, for each of them, what the step
does to every lookup of the call table and of the mini-frame index, and what it queues. For a call
that is reached, the effect is the `Reaction` of that call, for every input alike.
-/

namespace Iax2

/-! ## Targets -/

/-- What reaches a live call. -/
inductive CallInput
  | answer
  | hangup
  | dtmf (digit : Char)
  | hold (hold : Bool)
  | voice (ulaw : Bytes)
  | mini (m : MiniFrame)
  | token (token : Bytes)
  | frame (f : FullFrame)
  deriving DecidableEq

/-- What opens a call. -/
inductive Opening
  | dial (number : String)
  | incoming (f : FullFrame)
  deriving DecidableEq

/-- What a step is about. -/
inductive Target
  | timeout
  | opening (o : Opening)
  /-- the live call `call` -/
  | call (call : UInt16) (x : CallInput)
  | elsewhere
  deriving DecidableEq

/-- The remote number that an input enters into the mini-frame index. -/
def CallInput.claims : CallInput → Option UInt16
  | .frame f => if f.srcCall ≠ 0 then some f.srcCall else none
  | _ => none

/-- The remote number that a new call enters into the mini-frame index. -/
def Opening.claims : Opening → Option UInt16
  | .dial _ => none
  | .incoming f => some f.srcCall

namespace PbxClient

/-- An input for the call `call`, if it is live. -/
def reaching (s : PbxClient) (call : UInt16) (x : CallInput) : Target :=
  if call ∈ s.calls then .call call x else .elsewhere

/-- The target of a command. -/
def commandTarget (s : PbxClient) : Command → Target
  | .dial number => .opening (.dial number)
  | .answer call => s.reaching call .answer
  | .hangup call => s.reaching call .hangup
  | .hold call => s.reaching call (.hold true)
  | .unhold call => s.reaching call (.hold false)
  | .sendVoice call ulaw => s.reaching call (.voice ulaw)
  | .dtmf call digit =>
    if isDtmfDigit digit.toUpper then s.reaching call (.dtmf digit.toUpper) else .elsewhere

/-- The target of a full frame. -/
def frameTarget (s : PbxClient) (f : FullFrame) : Target :=
  match s.route f with
  | .newToken call token => s.reaching call (.token token)
  | .incomingNew => .opening (.incoming f)
  | .call _ => s.reaching f.dstCall (.frame f)
  | .qualify | .regToken _ | .reg | .offLeg => .elsewhere

/-- The target of a mini frame. -/
def miniTarget (s : PbxClient) (m : MiniFrame) : Target :=
  match s.remoteIndex.lookup m.srcCall with
  | some call => s.reaching call (.mini m)
  | none => .elsewhere

/-- The target of an operation. -/
def target (s : PbxClient) : Op → Target
  | .handleTimeout => .timeout
  | .handleCommand cmd => s.commandTarget cmd
  | .handleInput dg =>
    if isFullFrame dg then
      match FullFrame.decode dg with
      | some f => s.frameTarget f
      | none => .elsewhere
    else
      match MiniFrame.decode dg with
      | some m => s.miniTarget m
      | none => .elsewhere
  | .pollTransmit | .pollEvent | .rehash => .elsewhere

/-- The reaction of the live call `call`, whose entry is `c`. -/
def reaction (md5 : Md5) (s : PbxClient) (i : Invocation) (call : UInt16) (c : CallLeg) :
    CallInput → Reaction
  | .answer => c.answer call (s.ts i.clock) i.now
  | .hangup => c.hangup (s.ts i.clock) i.now
  | .dtmf digit => c.sendDtmf digit (s.ts i.clock) i.now
  | .hold hold => c.setHold hold (s.ts i.clock) i.now
  | .voice ulaw => c.sendVoice ulaw (s.ts i.clock)
  | .mini m => c.onMini call m
  | .token token => c.resendNew (withToken token (s.newCallIes c.peer)) (s.ts i.clock) i.now
  | .frame f => c.onFrame (md5Response md5 · s.cfg.secret) call f (s.ts i.clock) i.now

/-- The new call under the number `call`. -/
def opened (s : PbxClient) (i : Invocation) (call : UInt16) : Opening → Reaction
  | .dial number =>
    CallLeg.dialled call number s.cfg.audioFormat (s.newCallIes number) (s.ts i.clock) i.now
  | .incoming f => CallLeg.offered call f s.cfg.audioFormat (s.ts i.clock) i.now

/-- The copies that the retransmission loop sends, over all calls. -/
def callCopies (s : PbxClient) (now : Instant) : List Bytes :=
  s.calls.entries.flatMap fun e => (expire now e.2.leg.outstanding).copies

/-- The call `call` has a frame without tries left at `now`. -/
def exhausted (s : PbxClient) (now : Instant) (call : UInt16) : Bool :=
  (s.calls.lookup call).any fun c => (expire now c.leg.outstanding).exhausted

end PbxClient

/-- The entry that stays in the table. -/
def Reaction.kept (r : Reaction) : Option CallLeg :=
  match r.fate with
  | .keep c => some c
  | .drop _ _ => none

/-- The event of a call that ends. -/
def Reaction.farewell (call : UInt16) (r : Reaction) : List Event :=
  match r.fate with
  | .keep _ => []
  | .drop _ reason => [.ended call reason]

/-- The frames that an arm of `on_call_frame` takes. -/
def CallKind.Takes (f : FullFrame) (dir : Dir) : CallKind → Prop
  | .voice => f.frametype = Frametype.voice
  | .authreq => f.frametype = Frametype.iax ∧ f.subclass = Iax.authreq ∧ dir = .outbound
  | .accept => f.frametype = Frametype.iax ∧ f.subclass = Iax.accept
  | .ringing => f.frametype = Frametype.control ∧ f.subclass = Control.ringing
  | .answer => f.frametype = Frametype.control ∧ f.subclass = Control.answer
  | .busy => f.frametype = Frametype.control ∧ f.subclass = Control.busy
  | .hangup => f.frametype = Frametype.iax ∧ f.subclass = Iax.hangup
  | .reject => f.frametype = Frametype.iax ∧ f.subclass = Iax.reject
  | .ackPong => f.frametype = Frametype.iax ∧ (f.subclass = Iax.ack ∨ f.subclass = Iax.pong)
  | .lagrq => f.frametype = Frametype.iax ∧ f.subclass = Iax.lagrq
  | .ping => f.frametype = Frametype.iax ∧ f.subclass = Iax.ping
  | .lagrp => f.frametype = Frametype.iax ∧ f.subclass = Iax.lagrp
  | .dtmf => f.frametype = Frametype.dtmf
  | .cng => f.frametype = Frametype.cng
  | .control => f.frametype = Frametype.control
  | .other => True

/-- The arm of a frame takes it. -/
theorem FullFrame.callKind_takes (f : FullFrame) (dir : Dir) : (f.callKind dir).Takes f dir := by
  unfold FullFrame.callKind
  -- each arm before the last is guarded by what it takes
  repeat refine iteInduction (motive := CallKind.Takes f dir) id fun _ => ?_
  trivial

/-- The entry after a timeout, if the call survives it. -/
def CallLeg.survivor (now : Instant) (c : CallLeg) : Option CallLeg :=
  if (Iax2.expire now c.leg.outstanding).exhausted then none else some (c.expire now)

/-- The call that an event mentions. -/
def Event.call? : Event → Option UInt16
  | .registered | .registerLost _ | .log _ => none
  | .incoming call _ _ | .dialing call _ | .ringing call | .answered call | .voice call _ _
  | .ended call _ | .dtmf call _ => some call

/-! ## Outcomes -/

namespace PbxClient

/-- A datagram that belongs to no call: a fresh frame of the registration leg, of the keepalive or
of a probe, or a retransmission. -/
def Service (s : PbxClient) (dg : Bytes) : Prop :=
  (∃ f : FullFrame, dg = f.encode ∧
    (f.srcCall = s.reg.localNo ∨ f.srcCall = callnoKeepalive ∨ f.srcCall = s.qualifyNext)) ∨
  ∃ first, dg = setRetransmit first

/-- The account, the tables' allocator and the registration are as they were. -/
def SameRest (s s' : PbxClient) : Prop :=
  s' = { s with
    calls := s'.calls, remoteIndex := s'.remoteIndex, out := s'.out, events := s'.events }

/-- No call is touched. -/
structure Quiet (s s' : PbxClient) : Prop where
  calls : ∀ j, s'.calls.lookup j = s.calls.lookup j
  index : ∀ q, s'.remoteIndex.lookup q = s.remoteIndex.lookup q
  cfg : s'.cfg = s.cfg
  start : s'.start = s.start
  localNo : s'.reg.localNo = s.reg.localNo
  callnoNext : s'.callnoNext = s.callnoNext
  qualifyNext : s'.qualifyNext = s.qualifyNext ∨ s'.qualifyNext = s.nextQualifyCallno.2.qualifyNext
  sent : ∀ dg ∈ s.pushed s', s.Service dg
  events : ∀ ev ∈ s.emitted s', ev.call? = none

/-- The live call `call` reacts with `r`, having entered `claims` into the index. -/
structure Touched (s : PbxClient) (call : UInt16) (claims : Option UInt16) (r : Reaction)
    (s' : PbxClient) : Prop where
  calls : ∀ j, s'.calls.lookup j = if j = call then r.kept else s.calls.lookup j
  index : ∀ q, s'.remoteIndex.lookup q =
    (if claims = some q then some call else s.remoteIndex.lookup q).filter
      fun v => r.kept.isSome || v ≠ call
  rest : s.SameRest s'
  sent : s.pushed s' = r.sent
  events : s.emitted s' = r.events ++ r.farewell call

/-- A call opens with `r` under the number that the allocator finds. -/
structure Opened (s : PbxClient) (claims : Option UInt16) (r : Reaction) (s' : PbxClient) :
    Prop where
  calls : ∀ j, s'.calls.lookup j =
    if j = s.allocCallno.1 then some r.entry else s.calls.lookup j
  index : ∀ q, s'.remoteIndex.lookup q =
    if claims = some q then some s.allocCallno.1 else s.remoteIndex.lookup q
  rest : s.allocCallno.2.SameRest s'
  sent : s.pushed s' = r.sent
  events : s.emitted s' = r.events

/-- The timers fire: every call survives with its window gone round, or ends. -/
structure Expired (s : PbxClient) (now : Instant) (s' : PbxClient) : Prop where
  calls : ∀ j, s'.calls.lookup j = (s.calls.lookup j).bind (·.survivor now)
  index : ∀ q, s'.remoteIndex.lookup q =
    (s.remoteIndex.lookup q).filter fun v => !s.exhausted now v
  cfg : s'.cfg = s.cfg
  start : s'.start = s.start
  localNo : s'.reg.localNo = s.reg.localNo
  callnoNext : s'.callnoNext = s.callnoNext
  qualifyNext : s'.qualifyNext = s.qualifyNext
  sent : ∃ service, (∀ dg ∈ service, s.Service dg) ∧ s.pushed s' = service ++ s.callCopies now
  events : ∃ (service : List Event) (dead : List UInt16), (∀ ev ∈ service, ev.call? = none) ∧
    dead.Nodup ∧ (∀ j, j ∈ dead ↔ s.exhausted now j = true) ∧
    s.emitted s' = service ++ dead.map (Event.ended · "reliability timeout")

/-- What a step does, by its target. -/
inductive Outcome (md5 : Md5) (s : PbxClient) (i : Invocation) (s' : PbxClient) : Prop
  | quiet (target : s.target i.op = .elsewhere) (effect : s.Quiet s')
  | touched {call : UInt16} {x : CallInput} {c : CallLeg} (target : s.target i.op = .call call x)
      (live : s.calls.lookup call = some c)
      (effect : s.Touched call x.claims (s.reaction md5 i call c x) s')
  | opened {o : Opening} (target : s.target i.op = .opening o)
      (effect : s.Opened o.claims (s.opened i s.allocCallno.1 o) s')
  | expired (target : s.target i.op = .timeout) (effect : s.Expired i.now s')

/-- A step that queues nothing: at most it takes from a queue, or reorders the tables. -/
structure Queueless (s s' : PbxClient) : Prop where
  calls : ∀ j, s'.calls.lookup j = s.calls.lookup j
  index : ∀ q, s'.remoteIndex.lookup q = s.remoteIndex.lookup q
  rest : s.SameRest s'
  out : s'.out.length ≤ s.out.length
  events : s'.events.length ≤ s.events.length

/-- The part of the client that a step runs through. It says of a step that reaches no call what it
is, where `Outcome` says only what it leaves alone. -/
inductive Arm (md5 : Md5) (s : PbxClient) (i : Invocation) (s' : PbxClient) : Prop
  | silent (target : s.target i.op = .elsewhere) (effect : s.Queueless s')
  | qualify {dg : Bytes} {f : FullFrame} (target : s.target i.op = .elsewhere)
      (op : i.op = .handleInput dg) (decoded : FullFrame.decode dg = some f)
      (route : s.route f = .qualify) (effect : s' = s.onQualify f)
  | offLeg {f : FullFrame} (target : s.target i.op = .elsewhere) (effect : s' = s.onOffLeg f)
  | regToken {dg : Bytes} {f : FullFrame} {token : Bytes} (target : s.target i.op = .elsewhere)
      (op : i.op = .handleInput dg) (decoded : FullFrame.decode dg = some f)
      (route : s.route f = .regToken token)
      (effect : s' = s.resendRegWithToken token i.now i.clock)
  | regFrame {dg : Bytes} {f : FullFrame} (target : s.target i.op = .elsewhere)
      (op : i.op = .handleInput dg) (decoded : FullFrame.decode dg = some f)
      (route : s.route f = .reg) (effect : s' = s.onRegFrame md5 f i.now i.clock)
  | touched {call : UInt16} {x : CallInput} {c : CallLeg} (target : s.target i.op = .call call x)
      (live : s.calls.lookup call = some c)
      (effect : s.Touched call x.claims (s.reaction md5 i call c x) s')
  | opened {o : Opening} (target : s.target i.op = .opening o)
      (effect : s.Opened o.claims (s.opened i s.allocCallno.1 o) s')
  | timeout (op : i.op = .handleTimeout) (effect : s' = s.handleTimeout i.now i.clock)

/-! ## Queues -/

theorem pushed_append {s s' : PbxClient} {l : List Bytes} (h : s'.out = s.out ++ l) :
    s.pushed s' = l := by
  rw [pushed, h, List.drop_left]

theorem emitted_append {s s' : PbxClient} {l : List Event} (h : s'.events = s.events ++ l) :
    s.emitted s' = l := by
  rw [emitted, h, List.drop_left]

theorem pushed_same {s s' : PbxClient} (h : s'.out = s.out) : s.pushed s' = [] :=
  pushed_append (by rw [h, List.append_nil])

theorem emitted_same {s s' : PbxClient} (h : s'.events = s.events) : s.emitted s' = [] :=
  emitted_append (by rw [h, List.append_nil])

theorem Queueless.refl (s : PbxClient) : s.Queueless s :=
  ⟨fun _ => rfl, fun _ => rfl, rfl, Nat.le_refl _, Nat.le_refl _⟩

theorem Queueless.pushed {s s' : PbxClient} (h : s.Queueless s') : s.pushed s' = [] :=
  List.drop_eq_nil_of_le h.out

theorem Queueless.emitted {s s' : PbxClient} (h : s.Queueless s') : s.emitted s' = [] :=
  List.drop_eq_nil_of_le h.events

theorem Queueless.quiet {s s' : PbxClient} (h : s.Queueless s') : s.Quiet s' where
  calls := h.calls
  index := h.index
  cfg := by rw [h.rest]
  start := by rw [h.rest]
  localNo := by rw [h.rest]
  callnoNext := by rw [h.rest]
  qualifyNext := .inl (by rw [h.rest])
  sent dg hdg := by
    rw [h.pushed] at hdg
    cases hdg
  events ev hev := by
    rw [h.emitted] at hev
    cases hev

/-! ## One call -/

/-- A call that does nothing is left as it was, and the table with it. -/
theorem react_idle {s : PbxClient} {k : UInt16} {c : CallLeg} (live : s.calls.lookup k = some c) :
    s.react k (.idle c) = s := by
  have same : s.calls.replace k c = s.calls := Table.replace_self live
  simp only [react, Reaction.idle, Reaction.entry, same, List.append_nil]

/-- Enter the call into the index, under the number that it claims. -/
def claim (s : PbxClient) (call : UInt16) : Option UInt16 → PbxClient
  | some q => { s with remoteIndex := s.remoteIndex.insert q call }
  | none => s

theorem claim_index (s : PbxClient) (call : UInt16) (claims : Option UInt16) (q : UInt16) :
    (s.claim call claims).remoteIndex.lookup q =
      if claims = some q then some call else s.remoteIndex.lookup q := by
  cases claims with
  | none => rfl
  | some r =>
    show (s.remoteIndex.insert r call).lookup q = _
    rw [Table.lookup_insert]
    simp only [Option.some.injEq, eq_comm]

/-- The reaction of a live call touches that call. -/
theorem react_touched {s : PbxClient} {call : UInt16} {c : CallLeg}
    (live : s.calls.lookup call = some c) (claims : Option UInt16) (r : Reaction) :
    s.Touched call claims r ((s.claim call claims).react call r) := by
  have calls : (s.claim call claims).calls = s.calls := by cases claims <;> rfl
  have out : (s.claim call claims).out = s.out := by cases claims <;> rfl
  have events : (s.claim call claims).events = s.events := by cases claims <;> rfl
  have rest : s.SameRest (s.claim call claims) := by cases claims <;> rfl
  have changed (e : CallLeg) (j : UInt16) : ((s.claim call claims).calls.replace call e).lookup j =
      if j = call then some e else s.calls.lookup j := by
    rw [Table.lookup_replace, calls, live, Option.map_some]
  obtain ⟨fate, sent, evs⟩ := r
  cases fate with
  | keep c' =>
    exact {
      calls := changed c'
      index := fun q => by
        show (s.claim call claims).remoteIndex.lookup q = _
        rw [claim_index]
        generalize (if claims = some q then some call else s.remoteIndex.lookup q) = o
        cases o <;> rfl
      rest := by
        show _ = _
        rw [react, rest]
      sent := pushed_append (by show (s.claim call claims).out ++ sent = _; rw [out])
      events := emitted_append (by
        show (s.claim call claims).events ++ evs = _
        rw [events, Reaction.farewell, List.append_nil]) }
  | drop c' reason =>
    have gone : ((s.claim call claims).react call ⟨.drop c' reason, sent, evs⟩) =
        { s.claim call claims with
          calls := ((s.claim call claims).calls.replace call c').erase call
          remoteIndex := (s.claim call claims).remoteIndex.retain fun _ v => v ≠ call
          out := (s.claim call claims).out ++ sent
          events := (s.claim call claims).events ++ evs ++ [.ended call reason] } := by
      have h : ((s.claim call claims).calls.replace call c').lookup call = some c' := by
        rw [changed, if_pos rfl]
      simp only [react, dropCall, Reaction.entry, h]
    rw [gone]
    exact {
      calls := fun j => by
        rw [Table.lookup_erase]
        by_cases hj : j = call
        · rw [if_pos hj, if_pos hj, Reaction.kept]
        · rw [if_neg hj, if_neg hj, changed, if_neg hj]
      index := fun q => by
        rw [Table.lookup_retain, claim_index]
        simp only [Reaction.kept, Option.isSome_none, Bool.false_or]
      rest := by
        show _ = _
        rw [rest]
      sent := pushed_append (by rw [out])
      events := emitted_append (by rw [events, Reaction.farewell, List.append_assoc]) }

/-- An operation on one call touches it, if it is live. -/
theorem onCall_touched {s : PbxClient} {call : UInt16} {c : CallLeg}
    (live : s.calls.lookup call = some c) (r : CallLeg → Reaction) :
    s.Touched call none (r c) (s.onCall call r) := by
  rw [onCall, live]
  exact react_touched live none (r c)

/-- A frame on the leg of a live call touches it, and enters the number of its source. -/
theorem onCallFrame_touched (md5 : Md5) {s : PbxClient} {f : FullFrame} {c : CallLeg}
    (live : s.calls.lookup f.dstCall = some c) (i : Invocation) :
    s.Touched f.dstCall (CallInput.frame f).claims (s.reaction md5 i f.dstCall c (.frame f))
      (s.onCallFrame md5 f.dstCall c f i.now i.clock) := by
  have claimed : s.onCallFrame md5 f.dstCall c f i.now i.clock =
      (s.claim f.dstCall (CallInput.frame f).claims).react f.dstCall
        (s.reaction md5 i f.dstCall c (.frame f)) := by
    simp only [onCallFrame, CallInput.claims]
    split <;> rfl
  rw [claimed]
  exact react_touched live _ _

/-! ## New calls -/

theorem dial_opened (s : PbxClient) (number : String) (i : Invocation) :
    s.Opened none (s.opened i s.allocCallno.1 (.dial number)) (s.dial number i.now i.clock) where
  calls _ := Table.lookup_insert _ _ _ _
  index _ := rfl
  rest := rfl
  sent := pushed_append rfl
  events := emitted_append rfl

theorem onIncomingNew_opened (s : PbxClient) (f : FullFrame) (i : Invocation) :
    s.Opened (some f.srcCall) (s.opened i s.allocCallno.1 (.incoming f))
      (s.onIncomingNew f i.now i.clock) where
  calls _ := Table.lookup_insert _ _ _ _
  index q := by
    show (s.remoteIndex.insert f.srcCall s.allocCallno.1).lookup q = _
    rw [Table.lookup_insert]
    simp only [Option.some.injEq, eq_comm]
  rest := rfl
  sent := pushed_append rfl
  events := emitted_append rfl

/-! ## The registration and the probes -/

/-- What is sent belongs to no call. -/
def Sends (s s' : PbxClient) : Prop := ∃ sent, s'.out = s.out ++ sent ∧ ∀ dg ∈ sent, s.Service dg

/-- What is reported mentions no call. -/
def Reports (s s' : PbxClient) : Prop :=
  ∃ evs, s'.events = s.events ++ evs ∧ ∀ ev ∈ evs, ev.call? = none

/-- The calls are as they were, and what is queued belongs to no call. -/
structure Serviced (s s' : PbxClient) : Prop where
  calls : s'.calls = s.calls
  index : s'.remoteIndex = s.remoteIndex
  cfg : s'.cfg = s.cfg
  start : s'.start = s.start
  localNo : s'.reg.localNo = s.reg.localNo
  callnoNext : s'.callnoNext = s.callnoNext
  qualifyNext : s'.qualifyNext = s.qualifyNext
  sends : s.Sends s'
  reports : s.Reports s'

variable {s s' s'' : PbxClient}

theorem Sends.nothing (h : s'.out = s.out) : s.Sends s' :=
  ⟨[], by rw [h, List.append_nil], fun _ hdg => by cases hdg⟩

theorem Sends.one {dg : Bytes} (service : s.Service dg) (h : s'.out = s.out ++ [dg]) :
    s.Sends s' := by
  refine ⟨[dg], h, fun dg' hdg' => ?_⟩
  obtain rfl := List.mem_singleton.mp hdg'
  exact service

theorem Reports.nothing (h : s'.events = s.events) : s.Reports s' :=
  ⟨[], by rw [h, List.append_nil], fun _ hev => by cases hev⟩

theorem Reports.one {ev : Event} (service : ev.call? = none) (h : s'.events = s.events ++ [ev]) :
    s.Reports s' := by
  refine ⟨[ev], h, fun ev' hev' => ?_⟩
  obtain rfl := List.mem_singleton.mp hev'
  exact service

/-- A frame of the registration leg. -/
theorem Service.of_reg {f : FullFrame} (h : f.srcCall = s.reg.localNo) : s.Service f.encode :=
  .inl ⟨f, rfl, .inl h⟩

theorem Serviced.service_iff (h : s.Serviced s') (dg : Bytes) : s'.Service dg ↔ s.Service dg := by
  simp only [Service, h.localNo, h.qualifyNext]

theorem Serviced.trans (h : s.Serviced s') (h' : s'.Serviced s'') : s.Serviced s'' := by
  obtain ⟨sent, hout, hsent⟩ := h.sends
  obtain ⟨sent', hout', hsent'⟩ := h'.sends
  obtain ⟨evs, hevents, hevs⟩ := h.reports
  obtain ⟨evs', hevents', hevs'⟩ := h'.reports
  exact {
    calls := h'.calls.trans h.calls
    index := h'.index.trans h.index
    cfg := h'.cfg.trans h.cfg
    start := h'.start.trans h.start
    localNo := h'.localNo.trans h.localNo
    callnoNext := h'.callnoNext.trans h.callnoNext
    qualifyNext := h'.qualifyNext.trans h.qualifyNext
    sends := by
      refine ⟨sent ++ sent', by rw [hout', hout, List.append_assoc], fun dg hdg => ?_⟩
      rcases List.mem_append.mp hdg with hdg | hdg
      · exact hsent dg hdg
      · exact (h.service_iff dg).mp (hsent' dg hdg)
    reports := by
      refine ⟨evs ++ evs', by rw [hevents', hevents, List.append_assoc], fun ev hev => ?_⟩
      rcases List.mem_append.mp hev with hev | hev
      · exact hevs ev hev
      · exact hevs' ev hev }

theorem Serviced.quiet (h : s.Serviced s') : s.Quiet s' where
  calls j := by rw [h.calls]
  index q := by rw [h.index]
  cfg := h.cfg
  start := h.start
  localNo := h.localNo
  callnoNext := h.callnoNext
  qualifyNext := .inl h.qualifyNext
  sent := by
    obtain ⟨sent, hout, hsent⟩ := h.sends
    rw [pushed_append hout]
    exact hsent
  events := by
    obtain ⟨evs, hevents, hevs⟩ := h.reports
    rw [emitted_append hevents]
    exact hevs

/-- A change of the registration data alone, with what it queues. -/
theorem Serviced.of_reg
    (same : s' = { s with
      reg := s'.reg, regState := s'.regState, refresh := s'.refresh, calltoken := s'.calltoken
      nextReg := s'.nextReg, nextKeepalive := s'.nextKeepalive, out := s'.out
      events := s'.events })
    (localNo : s'.reg.localNo = s.reg.localNo) (sends : s.Sends s') (reports : s.Reports s') :
    s.Serviced s' where
  calls := by rw [same]
  index := by rw [same]
  cfg := by rw [same]
  start := by rw [same]
  localNo := localNo
  callnoNext := by rw [same]
  qualifyNext := by rw [same]
  sends := sends
  reports := reports

theorem startRegistration_serviced (s : PbxClient) (now clock : Instant) :
    s.Serviced (s.startRegistration now clock) :=
  .of_reg rfl rfl (.one (.of_reg rfl) rfl) (.one rfl rfl)

theorem resendRegWithToken_serviced (s : PbxClient) (token : Bytes) (now clock : Instant) :
    s.Serviced (s.resendRegWithToken token now clock) :=
  .of_reg rfl rfl (.one (.of_reg rfl) rfl) (.nothing rfl)

theorem expire_copies (now : Instant) (w : List Outstanding) :
    ∀ dg ∈ (expire now w).copies, ∃ o ∈ w, dg = setRetransmit o.bytes := by
  induction w with
  | nil =>
    intro dg h
    cases h
  | cons o rest ih =>
    intro dg h
    have tail (h : dg ∈ (expire now rest).copies) :
        ∃ o' ∈ o :: rest, dg = setRetransmit o'.bytes := by
      obtain ⟨o', ho', hdg⟩ := ih dg h
      exact ⟨o', List.mem_cons_of_mem _ ho', hdg⟩
    simp only [expire] at h
    split at h
    · split at h
      · exact tail h
      · rcases List.mem_cons.mp h with h | h
        · exact ⟨o, List.mem_cons_self, h⟩
        · exact tail h
    · exact tail h

/-- What the retransmission loop sends for the calls is copies of entries of their windows. -/
theorem callCopies_entries {s : PbxClient} {now : Instant} {dg : Bytes}
    (h : dg ∈ s.callCopies now) : ∃ k c, s.calls.lookup k = some c ∧
      ∃ o ∈ c.leg.outstanding, dg = setRetransmit o.bytes := by
  obtain ⟨⟨k, c⟩, entry, copy⟩ := List.mem_flatMap.mp h
  exact ⟨k, c, Table.mem_entries_iff.mp entry, expire_copies now _ dg copy⟩

theorem retransmitReg_serviced (s : PbxClient) (now : Instant) :
    s.Serviced (s.retransmitReg now) := by
  have copies : ∀ dg ∈ (expire now s.reg.outstanding).copies, s.Service dg := by
    intro dg hdg
    obtain ⟨o, _, rfl⟩ := expire_copies now s.reg.outstanding dg hdg
    exact .inr ⟨o.bytes, rfl⟩
  simp only [retransmitReg]
  split
  · exact .of_reg rfl rfl ⟨_, rfl, copies⟩ (.one rfl rfl)
  · exact .of_reg rfl rfl ⟨_, rfl, copies⟩ (.nothing rfl)

theorem onRegFrame_serviced (md5 : Md5) (s : PbxClient) (f : FullFrame) (now clock : Instant) :
    s.Serviced (s.onRegFrame md5 f now clock) := by
  simp only [onRegFrame]
  split
  · split
    · exact .of_reg rfl rfl (.nothing rfl) (.one rfl rfl)
    · split
      · exact .of_reg rfl rfl (.nothing rfl) (.one rfl rfl)
      · exact .of_reg rfl rfl (.one (.of_reg rfl) rfl) (.nothing rfl)
  · exact .of_reg rfl rfl (.one (.of_reg rfl) rfl) (.one rfl rfl)
  · exact .of_reg rfl rfl (.one (.of_reg rfl) rfl) (.one rfl rfl)
  · exact .of_reg rfl rfl (.nothing rfl) (.nothing rfl)
  · exact .of_reg rfl rfl (.nothing rfl) (.one rfl rfl)

theorem onOffLeg_serviced (s : PbxClient) (f : FullFrame) : s.Serviced (s.onOffLeg f) := by
  unfold onOffLeg
  split
  · exact .of_reg rfl rfl (.nothing rfl) (.nothing rfl)
  · exact .of_reg rfl rfl (.nothing rfl) (.one rfl rfl)

/-- A probe is answered from the rotating number, which moves on. -/
theorem onQualify_quiet (s : PbxClient) (f : FullFrame) : s.Quiet (s.onQualify f) where
  calls _ := rfl
  index _ := rfl
  cfg := rfl
  start := rfl
  localNo := rfl
  callnoNext := rfl
  qualifyNext := .inr rfl
  sent dg h := by
    have one : s.pushed (s.onQualify f) = [_] := pushed_append rfl
    rw [one] at h
    obtain rfl := List.mem_singleton.mp h
    exact .inl ⟨_, rfl, .inr (.inr rfl)⟩
  events ev h := by
    have none : s.emitted (s.onQualify f) = [] := emitted_same rfl
    rw [none] at h
    cases h

/-! ## Timeouts -/

/-- The keepalive of `handle_timeout`. -/
def keepalive (s : PbxClient) (now clock : Instant) : PbxClient :=
  if s.regState = .registered ∧ s.nextKeepalive ≤ now then
    let poke := FullFrame.new callnoKeepalive 0 (s.ts clock) 0 0 Frametype.iax Iax.poke []
    { s.push poke.encode with nextKeepalive := now + keepaliveEvery }
  else s

theorem keepalive_serviced (s : PbxClient) (now clock : Instant) :
    s.Serviced (s.keepalive now clock) := by
  simp only [keepalive]
  split
  · exact .of_reg rfl rfl (.one (.inl ⟨_, rfl, .inr (.inl rfl)⟩) rfl) (.nothing rfl)
  · exact .of_reg rfl rfl (.nothing rfl) (.nothing rfl)

/-- What `handle_timeout` does before it comes to the calls. -/
def beforeCalls (s : PbxClient) (now clock : Instant) : PbxClient :=
  let s := if s.reg.outstanding = [] ∧ s.nextReg ≤ now then s.startRegistration now clock else s
  (s.keepalive now clock).retransmitReg now

theorem beforeCalls_serviced (s : PbxClient) (now clock : Instant) :
    s.Serviced (s.beforeCalls now clock) := by
  have rest (s : PbxClient) : s.Serviced ((s.keepalive now clock).retransmitReg now) :=
    (keepalive_serviced s now clock).trans (retransmitReg_serviced _ now)
  simp only [beforeCalls]
  split
  · exact (startRegistration_serviced s now clock).trans (rest _)
  · exact rest s

/-- Some calls end, all with one reason. -/
private structure Dropped (s : PbxClient) (dead : List UInt16) (reason : String) (s' : PbxClient) :
    Prop where
  calls : ∀ j, s'.calls.lookup j = if j ∈ dead then none else s.calls.lookup j
  index : ∀ q, s'.remoteIndex.lookup q = (s.remoteIndex.lookup q).filter fun v => v ∉ dead
  rest : s.SameRest s'
  out : s'.out = s.out
  events : s'.events = s.events ++ dead.map (.ended · reason)

private theorem dropCall_live {call : UInt16} (live : call ∈ s.calls) (reason : String) :
    s.dropCall call reason =
      { s with
        calls := s.calls.erase call
        remoteIndex := s.remoteIndex.retain fun _ v => v ≠ call
        events := s.events ++ [.ended call reason] } := by
  obtain ⟨c, hc⟩ := Table.mem_iff_lookup.mp live
  rw [dropCall, hc]

private theorem foldl_dropCall (reason : String) {dead : List UInt16} (nodup : dead.Nodup) :
    ∀ s : PbxClient, (∀ k ∈ dead, k ∈ s.calls) →
      s.Dropped dead reason (dead.foldl (fun s call => s.dropCall call reason) s) := by
  induction dead with
  | nil =>
    intro s _
    exact {
      calls := fun _ => rfl
      index := fun q => by
        show s.remoteIndex.lookup q = _
        cases s.remoteIndex.lookup q <;> rfl
      rest := rfl
      out := rfl
      events := (List.append_nil _).symm }
  | cons k dead ih =>
    intro s live
    obtain ⟨fresh, nodup⟩ := List.nodup_cons.mp nodup
    have first := dropCall_live (live k List.mem_cons_self) reason
    have h := ih nodup (s.dropCall k reason) fun j hj => by
      rw [first]
      refine AList.mem_erase.mpr ⟨fun hjk => fresh (hjk ▸ hj), live j (List.mem_cons_of_mem _ hj)⟩
    rw [List.foldl_cons]
    exact {
      calls := fun j => by
        rw [h.calls, first]
        by_cases hj : j = k
        · rw [Table.lookup_erase, if_pos hj, ite_self, hj, if_pos List.mem_cons_self]
        · simp only [Table.lookup_erase, List.mem_cons, hj, false_or, if_false]
      index := fun q => by
        rw [h.index, first, Table.lookup_retain, Option.filter_filter]
        congr 1
        funext v
        simp only [List.mem_cons, not_or, decide_not, Bool.decide_and]
      rest := by
        show _ = _
        rw [h.rest, first]
      out := by rw [h.out, first]
      events := by rw [h.events, first, List.append_assoc, List.map_cons, List.singleton_append] }

/-- The calls that end at `now`, in iteration order. -/
private def deadCalls (s : PbxClient) (now : Instant) : List UInt16 :=
  (s.calls.entries.filter fun e => (expire now e.2.leg.outstanding).exhausted).map (·.1)

private theorem mem_deadCalls (s : PbxClient) (now : Instant) (j : UInt16) :
    j ∈ s.deadCalls now ↔ s.exhausted now j = true := by
  simp only [deadCalls, List.mem_map, List.mem_filter, exhausted, Option.any_eq_true]
  constructor
  · rintro ⟨⟨k, c⟩, ⟨hmem, hexh⟩, rfl⟩
    exact ⟨c, Table.mem_entries_iff.mp hmem, hexh⟩
  · rintro ⟨c, hc, hexh⟩
    exact ⟨⟨j, c⟩, ⟨Table.mem_entries_iff.mpr hc, hexh⟩, rfl⟩

private theorem nodup_deadCalls (s : PbxClient) (now : Instant) : (s.deadCalls now).Nodup :=
  List.Nodup.sublist (List.filter_sublist.map _) s.calls.nodupKeys

/-- The retransmission loop over the calls: every window goes round, and the dead calls end. -/
private theorem retransmitCalls_dropped (s : PbxClient) (now : Instant) :
    { s with
      calls := s.calls.mapValues (·.expire now)
      out := s.out ++ s.callCopies now }.Dropped (s.deadCalls now) "reliability timeout"
      (s.retransmitCalls now) := by
  refine foldl_dropCall _ (nodup_deadCalls s now) _ fun k hk => ?_
  rw [mem_deadCalls, exhausted, Option.any_eq_true] at hk
  obtain ⟨c, hc, _⟩ := hk
  exact Table.mem_iff_lookup.mpr ⟨c.expire now, by rw [Table.lookup_mapValues, hc, Option.map_some]⟩

/-- The retransmission loop over the calls leaves the registration and the counters alone. -/
theorem retransmitCalls_rest (s : PbxClient) (now : Instant) :
    s.SameRest (s.retransmitCalls now) ∧
      (s.retransmitCalls now).out = s.out ++ s.callCopies now := by
  have drops := retransmitCalls_dropped s now
  refine ⟨?_, drops.out⟩
  show _ = _
  rw [drops.rest]

/-- The retransmission loop over the calls reports the calls that end, and nothing else. -/
theorem retransmitCalls_events (s : PbxClient) (now : Instant) :
    ∃ dead : List UInt16, (s.retransmitCalls now).events =
      s.events ++ dead.map (Event.ended · "reliability timeout") :=
  ⟨_, (retransmitCalls_dropped s now).events⟩

/-- The retransmission loop over the calls, when what came before it touched none of them. -/
private theorem retransmitCalls_expired (h : s.Serviced s') (now : Instant) :
    s.Expired now (s'.retransmitCalls now) := by
  have dead_eq : s'.deadCalls now = s.deadCalls now := by rw [deadCalls, deadCalls, h.calls]
  have copies_eq : s'.callCopies now = s.callCopies now := by rw [callCopies, callCopies, h.calls]
  obtain ⟨sent, hout, hsent⟩ := h.sends
  obtain ⟨evs, hevents, hevs⟩ := h.reports
  have drops := retransmitCalls_dropped s' now
  rw [dead_eq] at drops
  exact {
    calls := fun j => by
      rw [drops.calls, Table.lookup_mapValues, h.calls]
      simp only [mem_deadCalls, exhausted]
      cases s.calls.lookup j <;> simp [CallLeg.survivor]
    index := fun q => by
      rw [drops.index]
      show (s'.remoteIndex.lookup q).filter _ = _
      rw [h.index]
      congr 1
      funext v
      simp only [mem_deadCalls, Bool.not_eq_true, Bool.decide_eq_false]
    cfg := by rw [drops.rest]; exact h.cfg
    start := by rw [drops.rest]; exact h.start
    localNo := by rw [drops.rest]; exact h.localNo
    callnoNext := by rw [drops.rest]; exact h.callnoNext
    qualifyNext := by rw [drops.rest]; exact h.qualifyNext
    sent := ⟨sent, hsent, pushed_append (by
      rw [drops.out, copies_eq, ← List.append_assoc, ← hout])⟩
    events := ⟨evs, s.deadCalls now, hevs, nodup_deadCalls s now, mem_deadCalls s now,
      emitted_append (by
        rw [drops.events]
        show s'.events ++ _ = _
        rw [hevents, List.append_assoc])⟩ }

theorem handleTimeout_eq (s : PbxClient) (now clock : Instant) :
    s.handleTimeout now clock = (s.beforeCalls now clock).retransmitCalls now :=
  rfl

theorem handleTimeout_expired (s : PbxClient) (now clock : Instant) :
    s.Expired now (s.handleTimeout now clock) :=
  retransmitCalls_expired (beforeCalls_serviced s now clock) now

/-! ## Where a target comes from -/

/-- The operation carries the input to the call. -/
def Carries (s : PbxClient) (op : Op) (call : UInt16) : CallInput → Prop
  | .answer => op = .handleCommand (.answer call)
  | .hangup => op = .handleCommand (.hangup call)
  | .dtmf digit =>
    ∃ d : Char, op = .handleCommand (.dtmf call d) ∧ digit = d.toUpper ∧ isDtmfDigit digit
  | .hold hold => op = .handleCommand (if hold then .hold call else .unhold call)
  | .voice ulaw => op = .handleCommand (.sendVoice call ulaw)
  | .mini m => ∃ dg, op = .handleInput dg ∧ MiniFrame.decode dg = some m ∧
      s.remoteIndex.lookup m.srcCall = some call
  | .token token => ∃ dg f, op = .handleInput dg ∧ FullFrame.decode dg = some f ∧
      s.route f = .newToken call token
  | .frame f => ∃ dg c, op = .handleInput dg ∧ FullFrame.decode dg = some f ∧
      s.route f = .call c ∧ call = f.dstCall

theorem reaching_eq_call {call call' : UInt16} {x x' : CallInput}
    (h : s.reaching call x = .call call' x') : call ∈ s.calls ∧ call' = call ∧ x' = x := by
  unfold reaching at h
  split at h
  next live =>
    cases h
    exact ⟨live, rfl, rfl⟩
  next => cases h

/-- An input reaches a live call, from the operation that carries it. -/
theorem target_eq_call {op : Op} {call : UInt16} {x : CallInput}
    (h : s.target op = .call call x) : call ∈ s.calls ∧ s.Carries op call x := by
  cases op with
  | handleCommand cmd =>
    cases cmd with
    | dial number => cases h
    | dtmf k digit =>
      simp only [target, commandTarget] at h
      split at h
      next valid =>
        obtain ⟨live, rfl, rfl⟩ := reaching_eq_call h
        exact ⟨live, digit, rfl, rfl, valid⟩
      next => cases h
    | _ =>
      obtain ⟨live, rfl, rfl⟩ := reaching_eq_call h
      exact ⟨live, rfl⟩
  | handleInput dg =>
    simp only [target] at h
    split at h
    next =>
      split at h
      next f hf =>
        unfold frameTarget at h
        cases hroute : s.route f with
        | newToken k token =>
          rw [hroute] at h
          obtain ⟨live, rfl, rfl⟩ := reaching_eq_call h
          exact ⟨live, dg, f, rfl, hf, hroute⟩
        | call c =>
          rw [hroute] at h
          obtain ⟨live, rfl, rfl⟩ := reaching_eq_call h
          exact ⟨live, dg, c, rfl, hf, hroute, rfl⟩
        | _ =>
          rw [hroute] at h
          cases h
      next => cases h
    next =>
      split at h
      next m hm =>
        unfold miniTarget at h
        split at h
        next k hk =>
          obtain ⟨live, rfl, rfl⟩ := reaching_eq_call h
          exact ⟨live, dg, rfl, hm, hk⟩
        next => cases h
      next => cases h
  | _ => cases h

/-- Only a timeout is about the timers. -/
theorem op_of_timeout {op : Op} (h : s.target op = .timeout) : op = .handleTimeout := by
  cases op with
  | handleTimeout => rfl
  | handleCommand cmd =>
    cases cmd with
    | dial number => cases h
    | dtmf k digit =>
      simp only [target, commandTarget, reaching] at h
      repeat' split at h
      all_goals cases h
    | _ =>
      simp only [target, commandTarget, reaching] at h
      split at h <;> cases h
  | handleInput dg =>
    simp only [target, frameTarget, miniTarget, reaching] at h
    repeat' split at h
    all_goals cases h
  | _ => cases h

/-! ## Routes -/

/-- A call token goes to the registration, or to an outgoing call that waits for one. -/
theorem tokenRoute_some {f : FullFrame} {r : Route} (h : s.tokenRoute f = some r) :
    ∃ tok, Ie.find f.ies IeKind.calltoken = some tok ∧ tok.data ≠ [] ∧
      (f.dstCall = s.reg.localNo ∧ s.calltoken = none ∧ r = .regToken tok.data ∨
        ∃ k c, s.calls.lookup k = some c ∧ c.dir = .outbound ∧ c.state = .trying ∧
          f.dstCall = c.leg.localNo ∧ r = .newToken k tok.data) := by
  unfold tokenRoute at h
  cases htok : Ie.find f.ies IeKind.calltoken with
  | none => simp only [htok, reduceCtorEq] at h
  | some tok =>
    simp only [htok] at h
    split at h
    next => cases h
    next hdata =>
      refine ⟨tok, rfl, hdata, ?_⟩
      split at h
      next hreg =>
        cases h
        exact .inl ⟨hreg.1, hreg.2, rfl⟩
      next =>
        split at h
        next e hfind =>
          cases h
          have hmem := List.mem_of_find?_eq_some hfind
          have hwaits := List.find?_some hfind
          simp only [decide_eq_true_eq] at hwaits
          obtain ⟨hdir, hstate, hdst⟩ := hwaits
          exact .inr ⟨e.1, e.2, Table.mem_entries_iff.mp hmem, hdir, hstate, hdst, rfl⟩
        next => cases h

/-- A frame is routed to a call by its `dst_call`. -/
theorem route_call {f : FullFrame} {c : CallLeg} (h : s.route f = .call c) :
    s.calls.lookup f.dstCall = some c := by
  unfold route at h
  split at h
  next => cases h
  next =>
    split at h
    next r htok =>
      subst h
      obtain ⟨_, _, _, ⟨_, _, hr⟩ | ⟨_, _, _, _, _, _, hr⟩⟩ := tokenRoute_some htok <;> cases hr
    next =>
      split at h
      next => cases h
      next =>
        split at h
        next => cases h
        next =>
          split at h
          next c' hc =>
            cases h
            exact hc
          next => cases h

/-! ## Every step -/

variable (md5 : Md5)

theorem reaching_live {call : UInt16} {c : CallLeg} (live : s.calls.lookup call = some c)
    (x : CallInput) : s.reaching call x = .call call x :=
  if_pos (Table.mem_iff_lookup.mpr ⟨c, live⟩)

theorem reaching_none {call : UInt16} (h : s.calls.lookup call = none) (x : CallInput) :
    s.reaching call x = .elsewhere := by
  refine if_neg fun live => ?_
  obtain ⟨c, hc⟩ := Table.mem_iff_lookup.mp live
  rw [h] at hc
  cases hc

/-- An operation that looks a call up, for the input `x`. -/
private theorem onCall_arm {i : Invocation} {call : UInt16} {x : CallInput}
    {r : CallLeg → Reaction} (target : s.target i.op = s.reaching call x)
    (claims : x.claims = none) (same : ∀ c, r c = s.reaction md5 i call c x) :
    s.Arm md5 i (s.onCall call r) := by
  cases hc : s.calls.lookup call with
  | some c =>
    refine .touched (target.trans (reaching_live hc x)) hc ?_
    rw [claims, ← same]
    exact onCall_touched hc r
  | none =>
    refine .silent (target.trans (reaching_none hc x)) ?_
    rw [onCall, hc]
    exact .refl s

private theorem command_arm (s : PbxClient) {i : Invocation} {cmd : Command}
    (op : i.op = .handleCommand cmd) : s.Arm md5 i (s.handleCommand cmd i.now i.clock) := by
  have target : s.target i.op = s.commandTarget cmd := by rw [op]; rfl
  cases cmd with
  | dial number => exact .opened target (dial_opened s number i)
  | answer call => exact onCall_arm md5 target rfl fun _ => rfl
  | hangup call => exact onCall_arm md5 target rfl fun _ => rfl
  | hold call => exact onCall_arm md5 target rfl fun _ => rfl
  | unhold call => exact onCall_arm md5 target rfl fun _ => rfl
  | sendVoice call ulaw => exact onCall_arm md5 target rfl fun _ => rfl
  | dtmf call digit =>
    cases valid : isDtmfDigit digit.toUpper with
    | true =>
      rw [commandTarget, valid, if_pos rfl] at target
      simp only [handleCommand, sendDtmf, valid, Bool.not_true, Bool.false_eq_true, if_false]
      exact onCall_arm md5 target rfl fun _ => rfl
    | false =>
      rw [commandTarget, valid, if_neg Bool.false_ne_true] at target
      simp only [handleCommand, sendDtmf, valid, Bool.not_false, if_true]
      exact .silent target (.refl s)

private theorem mini_arm (s : PbxClient) {i : Invocation} {m : MiniFrame}
    (target : s.target i.op = s.miniTarget m) : s.Arm md5 i (s.onMini m) := by
  unfold miniTarget at target
  unfold onMini
  cases hq : s.remoteIndex.lookup m.srcCall with
  | some call =>
    rw [hq] at target
    exact onCall_arm md5 target rfl fun _ => rfl
  | none =>
    rw [hq] at target
    exact .silent target (.refl s)

private theorem full_arm (s : PbxClient) {i : Invocation} {dg : Bytes} {f : FullFrame}
    (op : i.op = .handleInput dg) (decoded : FullFrame.decode dg = some f)
    (target : s.target i.op = s.frameTarget f) :
    s.Arm md5 i (s.onFull md5 f i.now i.clock) := by
  unfold frameTarget at target
  unfold onFull
  cases hroute : s.route f with
  | qualify =>
    rw [hroute] at target
    exact .qualify target op decoded hroute rfl
  | regToken token =>
    rw [hroute] at target
    exact .regToken target op decoded hroute rfl
  | newToken call token =>
    rw [hroute] at target
    exact onCall_arm md5 target rfl fun _ => rfl
  | incomingNew =>
    rw [hroute] at target
    exact .opened target (onIncomingNew_opened s f i)
  | reg =>
    rw [hroute] at target
    exact .regFrame target op decoded hroute rfl
  | call c =>
    rw [hroute] at target
    have live : s.calls.lookup f.dstCall = some c := route_call hroute
    exact .touched (target.trans (reaching_live live _)) live (onCallFrame_touched md5 live i)
  | offLeg =>
    rw [hroute] at target
    exact .offLeg target rfl

private theorem input_arm (s : PbxClient) {i : Invocation} {dg : Bytes}
    (op : i.op = .handleInput dg) : s.Arm md5 i (s.handleInput md5 dg i.now i.clock) := by
  have at_op {T : Target} (h : s.target (.handleInput dg) = T) : s.target i.op = T := op ▸ h
  simp only [target] at at_op
  unfold handleInput
  split
  next full =>
    rw [if_pos full] at at_op
    split
    next f hf => exact full_arm md5 s op hf (at_op (by rw [hf]))
    next hf => exact .silent (at_op (by rw [hf])) (.refl s)
  next mini =>
    rw [if_neg mini] at at_op
    split
    next m hm => exact mini_arm md5 s (at_op (by rw [hm]))
    next hm => exact .silent (at_op (by rw [hm])) (.refl s)

/-- Every step runs through one of the arms. -/
theorem Step.arm {md5 : Md5} {i : Invocation} (h : Step md5 s i s') : s.Arm md5 i s' := by
  cases h with
  | call hop =>
    cases op : i.op with
    | handleTimeout =>
      simp only [apply, op]
      exact .timeout op rfl
    | handleCommand cmd =>
      simp only [apply, op]
      exact command_arm md5 s op
    | handleInput dg =>
      simp only [apply, op]
      exact input_arm md5 s op
    | pollTransmit =>
      refine .silent (by rw [op]; rfl) ?_
      simp only [apply, op, pollTransmit]
      exact ⟨fun _ => rfl, fun _ => rfl, rfl, by rw [List.length_tail]; exact Nat.sub_le _ _,
        Nat.le_refl _⟩
    | pollEvent =>
      refine .silent (by rw [op]; rfl) ?_
      simp only [apply, op, pollEvent]
      exact ⟨fun _ => rfl, fun _ => rfl, rfl, Nat.le_refl _,
        by rw [List.length_tail]; exact Nat.sub_le _ _⟩
    | rehash => exact absurd op hop
  | rehash op reordered =>
    obtain ⟨calls, index, hcalls, hindex, rfl⟩ := reordered
    exact .silent (by rw [op]; rfl)
      ⟨hcalls.lookup_eq, hindex.lookup_eq, rfl, Nat.le_refl _, Nat.le_refl _⟩

theorem Step.timeout_eq {md5 : Md5} {i : Invocation} (step : Step md5 s i s')
    (op : i.op = .handleTimeout) : s' = s.handleTimeout i.now i.clock := by
  cases step with
  | call _ => simp only [apply, op]
  | rehash rehash _ => cases op.symm.trans rehash

/-- What a step does is decided by its target. -/
theorem Step.outcome {md5 : Md5} {i : Invocation} (h : Step md5 s i s') : s.Outcome md5 i s' := by
  cases h.arm with
  | silent target effect => exact .quiet target effect.quiet
  | qualify target _ _ _ effect => exact .quiet target (effect ▸ onQualify_quiet s _)
  | offLeg target effect => exact .quiet target (effect ▸ (onOffLeg_serviced s _).quiet)
  | regToken target _ _ _ effect =>
    exact .quiet target (effect ▸ (resendRegWithToken_serviced s _ _ _).quiet)
  | regFrame target _ _ _ effect =>
    exact .quiet target (effect ▸ (onRegFrame_serviced md5 s _ _ _).quiet)
  | touched target live effect => exact .touched target live effect
  | opened target effect => exact .opened target effect
  | timeout op effect =>
    exact .expired (by rw [op]; rfl) (effect ▸ handleTimeout_expired s i.now i.clock)

/-- A reaction either keeps the call or says farewell to it. -/
theorem kept_or_farewell (call : UInt16) (r : Reaction) :
    r.kept = some r.entry ∨ r.kept = none ∧ ∃ reason, r.farewell call = [.ended call reason] := by
  obtain ⟨fate, sent, events⟩ := r
  cases fate with
  | keep c => exact .inl rfl
  | drop c reason => exact .inr ⟨rfl, reason, rfl⟩

theorem farewell_of_kept {call : UInt16} {r : Reaction} {c : CallLeg} (h : r.kept = some c) :
    r.farewell call = [] := by
  obtain ⟨fate, sent, events⟩ := r
  cases fate with
  | keep c' => rfl
  | drop c' reason => cases h

/-- A step that reaches a live call touches it. -/
theorem Outcome.to_touched {md5 : Md5} {i : Invocation} (step : s.Outcome md5 i s') {k : UInt16}
    {c : CallLeg} {x : CallInput} (live : s.calls.lookup k = some c)
    (target : s.target i.op = .call k x) :
    s.Touched k x.claims (s.reaction md5 i k c x) s' := by
  cases step with
  | touched target' hc effect =>
    cases target.symm.trans target'
    cases live.symm.trans hc
    exact effect
  | quiet target' _ => cases target.symm.trans target'
  | opened target' _ => cases target.symm.trans target'
  | expired target' _ => cases target.symm.trans target'

/-- A step that opens a call opens it under the number that the allocator finds. -/
theorem Outcome.to_opened {md5 : Md5} {i : Invocation} (step : s.Outcome md5 i s') {o : Opening}
    (target : s.target i.op = .opening o) :
    s.Opened o.claims (s.opened i s.allocCallno.1 o) s' := by
  cases step with
  | opened target' effect =>
    cases target.symm.trans target'
    exact effect
  | quiet target' _ => cases target.symm.trans target'
  | touched target' _ _ => cases target.symm.trans target'
  | expired target' _ => cases target.symm.trans target'

/-- A timeout is one for every call. -/
theorem Outcome.to_expired {md5 : Md5} {i : Invocation} (step : s.Outcome md5 i s')
    (target : s.target i.op = .timeout) : s.Expired i.now s' := by
  cases step with
  | expired _ effect => exact effect
  | quiet target' _ => cases target.symm.trans target'
  | touched target' _ _ => cases target.symm.trans target'
  | opened target' _ => cases target.symm.trans target'

/-- A live call that the step reaches is left as its reaction says. -/
theorem Outcome.left {md5 : Md5} {i : Invocation} (step : s.Outcome md5 i s') {k : UInt16}
    {c : CallLeg} {x : CallInput} (live : s.calls.lookup k = some c)
    (target : s.target i.op = .call k x) :
    s'.calls.lookup k = (s.reaction md5 i k c x).kept :=
  ((step.to_touched live target).calls k).trans (if_pos rfl)

/-- A step that reaches a live call sends what its reaction says. -/
theorem Outcome.sent {md5 : Md5} {i : Invocation} (step : s.Outcome md5 i s') {k : UInt16}
    {c : CallLeg} {x : CallInput} (live : s.calls.lookup k = some c)
    (target : s.target i.op = .call k x) :
    s.pushed s' = (s.reaction md5 i k c x).sent :=
  (step.to_touched live target).sent

end PbxClient

end Iax2
