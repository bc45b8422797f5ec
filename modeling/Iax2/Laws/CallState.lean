import Iax2.Laws.Store
import Iax2.Laws.Wire

/-!
# The state of a call over a run

Who moves a call, and when. `CallLeg.nextState` is the state machine of a live call: the state that
an input leaves it in. Three laws of whole runs follow from it. An incoming call is connected by an
answer command; a connected call stays connected until it ends; a connected call was answered on the
wire. Each is an equivalence: the law holds along a run exactly when every step of the run meets a
condition on its input and on the state before it, and a run that breaks the condition is exhibited.

The conditions exclude what the client does without a guard: a CONTROL ANSWER that arrives for an
incoming call, a CONTROL RINGING that arrives for a connected call, a hold or an unhold of a call
that is not connected, and an allocation when every call number is in use.
-/

namespace Iax2

/-- The state in which an input leaves a live call. -/
def CallLeg.nextState (c : CallLeg) : CallInput → CallState
  | .answer => if c.dir = .inbound ∧ c.state = .ringing then .up else c.state
  | .hold hold => if hold then .held else .up
  | .frame f =>
    match f.callKind c.dir with
    | .ringing => .ringing
    | .answer => .up
    | _ => c.state
  | _ => c.state

/-- Connected: up, or on local hold. -/
def CallLeg.Connected (c : CallLeg) : Prop := c.state = .up ∨ c.state = .held

instance (c : CallLeg) : Decidable c.Connected := inferInstanceAs (Decidable (_ ∨ _))

namespace PbxClient

variable {s s' : PbxClient} {md5 : Md5}

/-! ## One reaction -/

/-- A reaction moves the state as the state machine says, and keeps the direction and the peer. -/
theorem reaction_state (md5 : Md5) (s : PbxClient) (i : Invocation) (call : UInt16) (c : CallLeg)
    (x : CallInput) : (s.reaction md5 i call c x).entry.state = c.nextState x ∧
      (s.reaction md5 i call c x).entry.dir = c.dir ∧
      (s.reaction md5 i call c x).entry.peer = c.peer := by
  cases x with
  | answer =>
    simp only [reaction, CallLeg.answer, CallLeg.nextState]
    split <;> exact ⟨rfl, rfl, rfl⟩
  | voice ulaw =>
    simp only [reaction, CallLeg.sendVoice, CallLeg.nextState]
    split
    · exact ⟨rfl, rfl, rfl⟩
    · split <;> exact ⟨rfl, rfl, rfl⟩
  | mini m =>
    simp only [reaction, CallLeg.onMini, CallLeg.nextState]
    split <;> exact ⟨rfl, rfl, rfl⟩
  | frame f =>
    have hdir : (c.noteFrame f).dir = c.dir := rfl
    simp only [reaction, CallLeg.onFrame, CallLeg.nextState, hdir]
    cases f.callKind c.dir with
    | authreq =>
      simp only
      split
      · exact ⟨rfl, rfl, rfl⟩
      · split <;> exact ⟨rfl, rfl, rfl⟩
    | accept =>
      simp only
      split <;> exact ⟨rfl, rfl, rfl⟩
    | _ => exact ⟨rfl, rfl, rfl⟩
  | _ => exact ⟨rfl, rfl, rfl⟩

/-- A reaction reports `Answered` for an answer command that takes effect, and for a CONTROL ANSWER
from the peer. -/
theorem answered_mem_reaction (md5 : Md5) (s : PbxClient) (i : Invocation) (call j : UInt16)
    (c : CallLeg) (x : CallInput) :
    .answered j ∈ (s.reaction md5 i call c x).events ↔ j = call ∧
      (x = .answer ∧ c.dir = .inbound ∧ c.state = .ringing ∨
        ∃ f, x = .frame f ∧ f.callKind c.dir = .answer) := by
  cases x with
  | answer =>
    simp only [reaction, CallLeg.answer]
    split
    next h => simp [h]
    next h => simp [Reaction.idle, h]
  | voice ulaw =>
    simp only [reaction, CallLeg.sendVoice]
    split
    · simp [Reaction.idle]
    · split <;> simp
  | mini m =>
    simp only [reaction, CallLeg.onMini]
    split <;> simp [Reaction.idle]
  | frame f =>
    have hdir : (c.noteFrame f).dir = c.dir := rfl
    simp only [reaction, CallLeg.onFrame, hdir, CallInput.frame.injEq, exists_eq_left',
      reduceCtorEq, false_and, false_or]
    cases f.callKind c.dir with
    | voice =>
      simp only
      split <;> simp
    | authreq =>
      simp only
      split
      · simp
      · split <;> simp
    | accept =>
      simp only
      split <;> simp
    | _ => simp [Reaction.idle]
  | _ => simp [reaction, CallLeg.hangup, CallLeg.sendDtmf, CallLeg.setHold, CallLeg.resendNew]

/-- A call that an input leaves up was up, or is answered on either side, or is taken off hold. -/
theorem nextState_up {c : CallLeg} {x : CallInput} (h : c.nextState x = .up) :
    c.state = .up ∨ x = .answer ∧ c.dir = .inbound ∧ c.state = .ringing ∨ x = .hold false ∨
      ∃ f, x = .frame f ∧ f.callKind c.dir = .answer := by
  cases x with
  | answer =>
    simp only [CallLeg.nextState] at h
    split at h
    next ring => exact .inr (.inl ⟨rfl, ring⟩)
    next => exact .inl h
  | hold hold =>
    cases hold with
    | true => cases h
    | false => exact .inr (.inr (.inl rfl))
  | frame f =>
    cases hkind : f.callKind c.dir with
    | answer => exact .inr (.inr (.inr ⟨f, rfl, hkind⟩))
    | ringing => simp only [CallLeg.nextState, hkind, reduceCtorEq] at h
    | _ =>
      simp only [CallLeg.nextState, hkind] at h
      exact .inl h
  | _ => exact .inl h

/-! ## Lifetimes -/

/-- The transition opens a call under the number `k`. -/
def Opens (k : UInt16) (t : Move) : Prop :=
  (∃ o, t.pre.target t.label.op = .opening o) ∧ k = t.pre.allocCallno.1

theorem not_opens {t : Move} {k : UInt16} {T : Target} (h : t.pre.target t.label.op = T)
    (hT : ∀ o, T ≠ .opening o) : ¬ Opens k t := by
  rintro ⟨⟨o, ho⟩, _⟩
  exact hT o (h.symm.trans ho)

/-- A call that is live after a step was live before, in a state that the step does not see, or the
step reached it, or the step opened it. -/
theorem Outcome.entry {i : Invocation} (step : s.Outcome md5 i s') {k : UInt16} {c' : CallLeg}
    (live : s'.calls.lookup k = some c') :
    (∃ c, s.calls.lookup k = some c ∧ c'.state = c.state ∧ c'.dir = c.dir ∧
      ¬ Opens k ⟨s, i, s'⟩ ∧ ∀ x, s.target i.op ≠ .call k x) ∨
    (∃ c x, s.calls.lookup k = some c ∧ s.target i.op = .call k x ∧
      c' = (s.reaction md5 i k c x).entry) ∨
    (∃ o, Opens k ⟨s, i, s'⟩ ∧ s.target i.op = .opening o ∧ c' = (s.opened i k o).entry) := by
  cases step.entryStep live with
  | kept live _ notCall notOpened =>
    exact .inl ⟨c', live, rfl, rfl, fun ⟨⟨o, target⟩, number⟩ => notOpened o target number, notCall⟩
  | aged live₀ target _ entry =>
    subst entry
    exact .inl ⟨_, live₀, rfl, rfl, not_opens target (by simp), by simp [target]⟩
  | reacted live target stays =>
    exact .inr (.inl ⟨_, _, live, target, Reaction_kept_some stays⟩)
  | opened target number entry =>
    exact .inr (.inr ⟨_, ⟨⟨_, target⟩, number⟩, target, entry⟩)

/-- A new call is trying or ringing. -/
theorem opened_state (s : PbxClient) (i : Invocation) (k : UInt16) (o : Opening) :
    ¬ (s.opened i k o).entry.Connected := by
  cases o with
  | dial number =>
    show ¬ (CallState.trying = .up ∨ CallState.trying = .held)
    decide
  | incoming f =>
    show ¬ (CallState.ringing = .up ∨ CallState.ringing = .held)
    decide

/-- `Answered` is reported for an answer command that takes effect, and for a CONTROL ANSWER from
the peer. -/
theorem Outcome.answered_iff {i : Invocation} (step : s.Outcome md5 i s') {k : UInt16} {c : CallLeg}
    (live : s.calls.lookup k = some c) :
    .answered k ∈ s.emitted s' ↔ ∃ x, s.target i.op = .call k x ∧
      (x = .answer ∧ c.dir = .inbound ∧ c.state = .ringing ∨
        ∃ f, x = .frame f ∧ f.callKind c.dir = .answer) := by
  cases step with
  | quiet target effect =>
    rw [target]
    constructor
    · intro h
      cases effect.events _ h
    · rintro ⟨x, h, _⟩
      cases h
  | @touched call x c' target hc effect =>
    have farewell : .answered k ∉ (s.reaction md5 i call c' x).farewell call := by
      unfold Reaction.farewell
      split <;> simp
    rw [effect.events, List.mem_append, or_iff_left farewell, answered_mem_reaction, target]
    constructor
    · rintro ⟨rfl, h⟩
      rw [hc, Option.some.injEq] at live
      exact ⟨x, rfl, live ▸ h⟩
    · rintro ⟨y, h, hy⟩
      cases h
      rw [hc, Option.some.injEq] at live
      exact ⟨rfl, live ▸ hy⟩
  | @opened o target effect =>
    have events : .answered k ∉ (s.opened i s.allocCallno.1 o).events := by
      cases o <;> simp [PbxClient.opened, CallLeg.dialled, CallLeg.offered]
    rw [effect.events, target]
    constructor
    · exact fun h => absurd h events
    · rintro ⟨x, h, _⟩
      cases h
  | expired target effect =>
    rw [target]
    obtain ⟨service, dead, hservice, _, _, hevents⟩ := effect.events
    constructor
    · intro h
      rw [hevents, List.mem_append, List.mem_map] at h
      rcases h with h | ⟨_, _, h⟩
      · cases hservice _ h
      · cases h
    · rintro ⟨x, h, _⟩
      cases h

/-! ## An incoming call is connected by an answer command -/

/-- The answer command takes effect on the call `k`. -/
def Answers (k : UInt16) (t : Move) : Prop :=
  t.label.op = .handleCommand (.answer k) ∧
    ∃ c, t.pre.calls.lookup k = some c ∧ c.dir = .inbound ∧ c.state = .ringing

/-- The call `k` was answered by command since it was opened. -/
def AnsweredSince (k : UInt16) : List Move → Prop := Since (Opens k) (Answers k)

/-- Nothing but an answer command connects an incoming call. -/
structure AnsweredByCommand (t : Move) (past : List Move) : Prop where
  /-- it leaves the ringing state for the connected one by the command only -/
  ringing : ∀ {k c c'}, t.pre.calls.lookup k = some c → c.dir = .inbound → c.state = .ringing →
    t.post.calls.lookup k = some c' → c'.state = .up → t.label.op = .handleCommand (.answer k)
  /-- if it is up, it was answered by the command -/
  up : ∀ {k c'}, t.post.calls.lookup k = some c' → c'.dir = .inbound → c'.state = .up →
    AnsweredSince k (t :: past)
  /-- it is reported as answered by the command only -/
  event : ∀ {k c}, t.pre.calls.lookup k = some c → c.dir = .inbound →
    .answered k ∈ t.emitted → t.label.op = .handleCommand (.answer k)

/-- The peer of an incoming call sends it no CONTROL ANSWER, and the driver takes no call off hold
that rings, or that is held without having been answered. -/
structure NoForeignAnswer (t : Move) (past : List Move) : Prop where
  frame : ∀ {k c f}, t.pre.calls.lookup k = some c → c.dir = .inbound →
    t.pre.target t.label.op = .call k (.frame f) → f.callKind c.dir ≠ .answer
  unhold : ∀ {k c}, t.pre.calls.lookup k = some c → c.dir = .inbound →
    t.label.op = .handleCommand (.unhold k) →
    c.state ≠ .ringing ∧ (c.state = .up ∨ AnsweredSince k past)

theorem target_unhold {op : Op} {k : UInt16} {c : CallLeg} (live : s.calls.lookup k = some c)
    (h : op = .handleCommand (.unhold k)) : s.target op = .call k (.hold false) := by
  rw [h]
  exact reaching_live live _

/-- A step that keeps the law meets the condition. -/
theorem noForeignAnswer_step {i : Invocation} {past : List Move} (step : s.Outcome md5 i s')
    (law : AnsweredByCommand ⟨s, i, s'⟩ past) : NoForeignAnswer ⟨s, i, s'⟩ past where
  frame := fun {k c f} hc hin target hkind => by
    have op := law.event hc hin
      ((step.answered_iff hc).mpr ⟨_, target, .inr ⟨f, rfl, hkind⟩⟩)
    obtain ⟨dg, _, hop, _⟩ := (target_eq_call target).2
    cases hop.symm.trans op
  unhold := fun {k c} hc hin op => by
    have left := step.left hc (target_unhold hc op)
    constructor
    · intro hring
      cases op.symm.trans (law.ringing hc hin hring left rfl)
    · rcases (law.up left hin rfl).2 with answers | since
      · cases op.symm.trans answers.1
      · exact .inr since

/-- A step that meets the condition keeps the law, if what was up before it was answered. -/
theorem answeredByCommand_step {i : Invocation} {past : List Move} (step : s.Outcome md5 i s')
    (upBefore : ∀ {k : UInt16} {c : CallLeg}, s.calls.lookup k = some c → c.dir = .inbound →
      c.state = .up → AnsweredSince k past)
    (cond : NoForeignAnswer ⟨s, i, s'⟩ past) : AnsweredByCommand ⟨s, i, s'⟩ past where
  ringing := fun {k c c'} hc hin hring hc' hup => by
    rcases step.entry hc' with ⟨c₀, hc₀, hstate, _⟩ | ⟨c₀, x, hc₀, target, rfl⟩ | ⟨o, _, _, rfl⟩
    · cases hc.symm.trans hc₀
      rw [hstate, hring] at hup
      cases hup
    · cases hc.symm.trans hc₀
      rw [(reaction_state ..).1] at hup
      rcases nextState_up hup with h | ⟨rfl, _⟩ | rfl | ⟨f, rfl, hkind⟩
      · rw [hring] at h
        cases h
      · exact (target_eq_call target).2
      · exact absurd hring (cond.unhold hc hin (target_eq_call target).2).1
      · exact absurd hkind (cond.frame hc hin target)
    · exact (opened_state s i k o (.inl hup)).elim
  up := fun {k c'} hc' hin hup => by
    rcases step.entry hc' with ⟨c, hc, hstate, hdir, hopens, _⟩ | ⟨c, x, hc, target, rfl⟩ |
      ⟨o, _, _, rfl⟩
    · exact ⟨hopens, .inr (upBefore hc (hdir ▸ hin) (hstate ▸ hup))⟩
    · have hopens : ¬ Opens k ⟨s, i, s'⟩ := not_opens target (by simp)
      rw [(reaction_state ..).1] at hup
      rw [(reaction_state ..).2.1] at hin
      refine ⟨hopens, ?_⟩
      rcases nextState_up hup with h | ⟨rfl, _, hring⟩ | rfl | ⟨f, rfl, hkind⟩
      · exact .inr (upBefore hc hin h)
      · exact .inl ⟨(target_eq_call target).2, c, hc, hin, hring⟩
      · rcases (cond.unhold hc hin (target_eq_call target).2).2 with h | since
        · exact .inr (upBefore hc hin h)
        · exact .inr since
      · exact absurd hkind (cond.frame hc hin target)
    · exact (opened_state s i k o (.inl hup)).elim
  event := fun {k c} hc hin hev => by
    obtain ⟨x, target, ⟨rfl, _⟩ | ⟨f, rfl, hkind⟩⟩ := (step.answered_iff hc).mp hev
    · exact (target_eq_call target).2
    · exact absurd hkind (cond.frame hc hin target)

/-- Along every run, an incoming call is connected by an answer command exactly as long as no peer
answers its own call and no unanswered call is taken off hold. -/
theorem answeredByCommand_iff {cfg : Config} {past : List Move}
    (run : (system md5 cfg).Run past s) :
    Always AnsweredByCommand past ↔ Always NoForeignAnswer past := by
  refine run.always_iff fun past s i s' run step before => ?_
  have step := Step.outcome step
  refine ⟨noForeignAnswer_step step, answeredByCommand_step step ?_⟩
  -- what is up before the step was answered, by the law so far
  intro k c hc hin hup
  exact run.reached (I := fun past s => ∀ {k c}, s.calls.lookup k = some c → c.dir = .inbound →
      c.state = .up → AnsweredSince k past)
    (fun s init _ _ hc => by
      obtain ⟨now, rfl⟩ := init
      cases hc)
    (before.imp fun _ _ law => law.up) hc hin hup

/-- An incoming call that is answered by command: the law and its condition. -/
theorem answeredByCommand_sample :
    Always AnsweredByCommand
      (Sample.trace [Sample.receive Sample.newCall, Sample.command (.answer 16)]) ↔
    Always NoForeignAnswer
      (Sample.trace [Sample.receive Sample.newCall, Sample.command (.answer 16)]) :=
  answeredByCommand_iff (Sample.run _ (by decide))

/-- The peer of an incoming call answers it. -/
theorem peer_answers_incoming :
    ¬ ∀ {past : List Move} {s : PbxClient}, (system Sample.md5 Sample.cfg).Run past s →
      Always AnsweredByCommand past := by
  intro law
  have run := Sample.run [Sample.receive Sample.newCall,
    Sample.receive (Sample.frame 120 1 2 Frametype.control Control.answer)] (by decide)
  have ringing : ∃ c, (Sample.after [Sample.receive Sample.newCall]).calls.lookup 16 = some c ∧
      c.dir = .inbound := ⟨_, rfl, rfl⟩
  obtain ⟨c, hc, hin⟩ := ringing
  cases (law run).1.event hc hin (by decide)

/-! ## A connected call stays connected until it ends -/

/-- A connected call stays connected, or ends and is reported as ended. -/
def ConnectedStays (t : Move) : Prop :=
  ∀ k c, t.pre.calls.lookup k = some c → c.Connected →
    (∃ c', t.post.calls.lookup k = some c' ∧ c'.Connected) ∨
    t.post.calls.lookup k = none ∧ ∃ reason, .ended k reason ∈ t.emitted

/-- No CONTROL RINGING reaches a connected call, and no call is opened while every call number is
in use and the first of them is a connected call. -/
structure NoRegress (t : Move) : Prop where
  frame : ∀ {k c f}, t.pre.calls.lookup k = some c → c.Connected →
    t.pre.target t.label.op = .call k (.frame f) → f.callKind c.dir ≠ .ringing
  room : ∀ {o c}, t.pre.target t.label.op = .opening o → t.pre.Full →
    t.pre.calls.lookup callnoCallBase = some c → ¬ c.Connected

/-- Of all inputs, only a CONTROL RINGING disconnects a call that stays in the table. -/
theorem nextState_connected {c : CallLeg} (h : c.Connected) {x : CallInput}
    (hx : ∀ f, x = .frame f → f.callKind c.dir ≠ .ringing) :
    c.nextState x = .up ∨ c.nextState x = .held := by
  cases x with
  | answer =>
    simp only [CallLeg.nextState]
    split
    next => exact .inl rfl
    next => exact h
  | hold hold =>
    cases hold with
    | true => exact .inr rfl
    | false => exact .inl rfl
  | frame f =>
    cases hkind : f.callKind c.dir with
    | ringing => exact absurd hkind (hx f rfl)
    | answer =>
      left
      simp only [CallLeg.nextState, hkind]
    | _ =>
      simp only [CallLeg.nextState, hkind]
      exact h
  | _ => exact h

/-- A frame that takes the RINGING arm keeps its call. -/
theorem kept_ringing {i : Invocation} {k : UInt16} {c : CallLeg} {f : FullFrame}
    (hkind : f.callKind c.dir = .ringing) :
    (s.reaction md5 i k c (.frame f)).kept = some (s.reaction md5 i k c (.frame f)).entry := by
  have hdir : (c.noteFrame f).dir = c.dir := rfl
  simp only [reaction, CallLeg.onFrame, hdir, hkind]
  rfl

/-- A step that keeps the law meets the condition. -/
theorem noRegress_step {i : Invocation} (wf : s.WellFormed) (step : s.Outcome md5 i s')
    (law : ConnectedStays ⟨s, i, s'⟩) : NoRegress ⟨s, i, s'⟩ where
  frame := fun {k c f} hc hconn target hkind => by
    have left := step.left hc target
    rw [kept_ringing hkind] at left
    rcases law k c hc hconn with ⟨c', hc', hconn'⟩ | ⟨hnone, _⟩
    · cases left.symm.trans hc'
      rw [CallLeg.Connected, (reaction_state ..).1, CallLeg.nextState, hkind] at hconn'
      simp at hconn'
    · cases left.symm.trans hnone
  room := fun {o c} target full hc hconn => by
    have lookup := (step.to_opened target).calls callnoCallBase
    rw [if_pos (allocCallno_of_full wf.callnoNext full).symm] at lookup
    rcases law _ c hc hconn with ⟨c', hc', hconn'⟩ | ⟨hnone, _⟩
    · cases lookup.symm.trans hc'
      exact opened_state _ _ _ _ hconn'
    · cases lookup.symm.trans hnone

/-- A step that meets the condition keeps the law. -/
theorem connectedStays_step {i : Invocation} (wf : s.WellFormed) (step : s.Outcome md5 i s')
    (cond : NoRegress ⟨s, i, s'⟩) : ConnectedStays ⟨s, i, s'⟩ := by
  intro k c hc hconn
  cases step with
  | quiet _ effect => exact .inl ⟨c, (effect.calls k).trans hc, hconn⟩
  | @touched call x c₀ target hc₀ effect =>
    by_cases hk : k = call
    · subst hk
      cases hc.symm.trans hc₀
      have lookup := (effect.calls k).trans (if_pos rfl)
      rcases kept_or_farewell k (s.reaction md5 i k c x) with hkept | ⟨hkept, reason, hfarewell⟩
      · refine .inl ⟨_, lookup.trans hkept, ?_⟩
        rw [CallLeg.Connected, (reaction_state ..).1]
        refine nextState_connected hconn fun f hf => ?_
        subst hf
        exact cond.frame hc hconn target
      · refine .inr ⟨lookup.trans hkept, reason, ?_⟩
        show _ ∈ s.emitted s'
        rw [effect.events, hfarewell]
        exact List.mem_append_right _ List.mem_cons_self
    · exact .inl ⟨c, (effect.calls k).trans ((if_neg hk).trans hc), hconn⟩
  | @opened o target effect =>
    have hk : k ≠ s.allocCallno.1 := by
      rintro rfl
      have full := (allocCallno_live_iff wf.callnoNext).mp (Table.mem_iff_lookup.mpr ⟨c, hc⟩)
      rw [allocCallno_of_full wf.callnoNext full] at hc
      exact cond.room target full hc hconn
    exact .inl ⟨c, (effect.calls k).trans ((if_neg hk).trans hc), hconn⟩
  | expired _ effect =>
    cases hexh : (expire i.now c.leg.outstanding).exhausted with
    | false =>
      have hs : c.survivor i.now = some (c.expire i.now) := survivor_eq_some.mpr ⟨hexh, rfl⟩
      refine .inl ⟨c.expire i.now, ?_, hconn⟩
      exact (effect.calls k).trans (by rw [hc, Option.bind_some, hs])
    | true =>
      have hs : c.survivor i.now = none := if_pos hexh
      refine .inr ⟨(effect.calls k).trans (by rw [hc, Option.bind_some, hs]),
        "reliability timeout", ?_⟩
      obtain ⟨service, dead, _, _, hdead, hevents⟩ := effect.events
      show _ ∈ s.emitted s'
      rw [hevents]
      refine List.mem_append_right _ (List.mem_map_of_mem ((hdead k).mpr ?_))
      rw [exhausted, hc]
      exact hexh

/-- Along every run, connected calls stay connected until they end exactly as long as no CONTROL
RINGING reaches one and none is overwritten for want of a number. -/
theorem connectedStays_iff {cfg : Config} {past : List Move} (run : (system md5 cfg).Run past s) :
    Always (fun t _ => ConnectedStays t) past ↔ Always (fun t _ => NoRegress t) past := by
  refine run.always_iff fun past s i s' run step _ => ?_
  have wf := wellFormed_run run
  have step := Step.outcome step
  exact ⟨noRegress_step wf step, connectedStays_step wf step⟩

/-- A call that is answered, put on hold and taken off hold: the law and its condition. -/
theorem connectedStays_sample :
    Always (fun t _ => ConnectedStays t)
      (Sample.trace [Sample.receive Sample.newCall, Sample.command (.answer 16),
        Sample.command (.hold 16), Sample.command (.unhold 16)]) ↔
    Always (fun t _ => NoRegress t)
      (Sample.trace [Sample.receive Sample.newCall, Sample.command (.answer 16),
        Sample.command (.hold 16), Sample.command (.unhold 16)]) :=
  connectedStays_iff (Sample.run _ (by decide))

/-- A CONTROL RINGING arrives after the answer. -/
theorem late_ringing_disconnects :
    ¬ ∀ {past : List Move} {s : PbxClient}, (system Sample.md5 Sample.cfg).Run past s →
      Always (fun t _ => ConnectedStays t) past := by
  intro law
  have run := Sample.run [Sample.receive Sample.newCall, Sample.command (.answer 16),
    Sample.receive (Sample.frame 120 1 3 Frametype.control Control.ringing)] (by decide)
  have up : ∃ c, (Sample.after [Sample.receive Sample.newCall,
      Sample.command (.answer 16)]).calls.lookup 16 = some c ∧ c.Connected := ⟨_, rfl, .inl rfl⟩
  obtain ⟨c, hc, hconn⟩ := up
  rcases (law run).1 _ c hc hconn with ⟨c', hc', hconn'⟩ | ⟨hnone, _⟩
  · cases hc'
    rcases hconn' with h | h <;> cases h
  · cases hnone

/-! ## A connected call was answered on the wire -/

/-- A CONTROL ANSWER crosses the leg of the call `k`: the client sends one on it, or a frame that
reaches the call is one. -/
def AnswerCrosses (k : UInt16) (t : Move) : Prop :=
  (∃ dg ∈ t.pushed, ∃ h, Header.read dg = some h ∧ h.srcCall = k ∧
    h.frametype = Frametype.control ∧ h.subclass = Control.answer) ∨
  ∃ f, t.pre.target t.label.op = .call k (.frame f) ∧
    f.frametype = Frametype.control ∧ f.subclass = Control.answer

/-- An ANSWER crossed the leg of the call `k` since the call was opened. -/
def AnswerCrossed (k : UInt16) : List Move → Prop := Since (Opens k) (AnswerCrosses k)

/-- After the transition, an ANSWER has crossed the leg of every connected call. -/
def ConnectedAnswered (t : Move) (past : List Move) : Prop :=
  ∀ k c, t.post.calls.lookup k = some c → c.Connected → AnswerCrossed k (t :: past)

/-- A hold or an unhold reaches a call only after an ANSWER crossed its leg. -/
def HoldsAnswered (t : Move) (past : List Move) : Prop :=
  ∀ k hold, t.pre.target t.label.op = .call k (.hold hold) → AnswerCrossed k past

/-- A call that an input leaves connected was connected, or is held, or an ANSWER crosses. -/
theorem nextState_connected_cases {c : CallLeg} {x : CallInput}
    (h : c.nextState x = .up ∨ c.nextState x = .held) :
    c.Connected ∨ x = .answer ∧ c.dir = .inbound ∧ c.state = .ringing ∨ (∃ hold, x = .hold hold) ∨
      ∃ f, x = .frame f ∧ f.callKind c.dir = .answer := by
  cases x with
  | hold hold => exact .inr (.inr (.inl ⟨hold, rfl⟩))
  | answer =>
    rcases h with h | h
    · rcases nextState_up h with h | h | h | ⟨f, h, _⟩
      · exact .inl (.inl h)
      · exact .inr (.inl h)
      · cases h
      · cases h
    · simp only [CallLeg.nextState] at h
      split at h
      next => cases h
      next => exact .inl (.inr h)
  | frame f =>
    cases hkind : f.callKind c.dir with
    | answer => exact .inr (.inr (.inr ⟨f, rfl, hkind⟩))
    | ringing => simp [CallLeg.nextState, hkind] at h
    | _ =>
      simp only [CallLeg.nextState, hkind] at h
      exact .inl h
  | _ => exact .inl h

/-- An answer command that takes effect sends an ANSWER on the leg. -/
theorem answer_crosses {i : Invocation} (wf : s.WellFormed) (step : s.Outcome md5 i s') {k : UInt16}
    {c : CallLeg} (hc : s.calls.lookup k = some c) (target : s.target i.op = .call k .answer)
    (hin : c.dir = .inbound) (hring : c.state = .ringing) : AnswerCrosses k ⟨s, i, s'⟩ := by
  have sent : s.pushed s' = (s.reaction md5 i k c .answer).sent := step.sent hc target
  refine .inl ⟨_, ?_, _, Header.read_encode
    (FullFrame.new c.leg.localNo c.leg.remote (s.ts i.clock) c.leg.oseq c.leg.iseq
      Frametype.control Control.answer []), ?_, rfl, ?_⟩
  · show _ ∈ s.pushed s'
    rw [sent]
    simp only [reaction, CallLeg.answer, if_pos (And.intro hin hring)]
    exact List.mem_cons_self
  · show c.leg.localNo &&& callMask = k
    rw [wf.localNo hc]
    exact (wf.live_inCycle hc).masked
  · show Control.answer &&& 0x7F = Control.answer
    decide

/-- A hold or an unhold sends no ANSWER. -/
theorem hold_not_crosses {i : Invocation} (step : s.Outcome md5 i s') {k : UInt16} {c : CallLeg}
    {hold : Bool} (hc : s.calls.lookup k = some c) (target : s.target i.op = .call k (.hold hold)) :
    ¬ AnswerCrosses k ⟨s, i, s'⟩ := by
  have sent : s.pushed s' = (s.reaction md5 i k c (.hold hold)).sent := step.sent hc target
  rintro (⟨dg, hdg, h, hread, _, _, hsub⟩ | ⟨f, hf, _⟩)
  · change dg ∈ s.pushed s' at hdg
    rw [sent] at hdg
    obtain rfl := List.mem_singleton.mp hdg
    rw [Header.read_encode] at hread
    cases hread
    have subclass : (if hold then Control.hold else Control.unhold) &&& 0x7F ≠ Control.answer := by
      cases hold <;> decide
    exact subclass hsub
  · cases target.symm.trans hf

/-- A step that keeps the law meets the condition. -/
theorem holdsAnswered_step {i : Invocation} {past : List Move} (step : s.Outcome md5 i s')
    (law : ConnectedAnswered ⟨s, i, s'⟩ past) : HoldsAnswered ⟨s, i, s'⟩ past := by
  intro k hold target
  obtain ⟨c, hc⟩ := Table.mem_iff_lookup.mp (target_eq_call target).1
  have left := step.left hc target
  have held : (s.reaction md5 i k c (.hold hold)).entry.Connected := by
    rw [CallLeg.Connected, (reaction_state ..).1]
    cases hold with
    | true => exact .inr rfl
    | false => exact .inl rfl
  exact (law k _ left held).2.resolve_left (hold_not_crosses step hc target)

/-- A step that meets the condition keeps the law, if what was connected before it was answered. -/
theorem connectedAnswered_step {i : Invocation} {past : List Move} (wf : s.WellFormed)
    (step : s.Outcome md5 i s')
    (crossedBefore : ∀ {k : UInt16} {c : CallLeg}, s.calls.lookup k = some c → c.Connected →
      AnswerCrossed k past)
    (cond : HoldsAnswered ⟨s, i, s'⟩ past) : ConnectedAnswered ⟨s, i, s'⟩ past := by
  intro k c' hc' hconn
  rcases step.entry hc' with ⟨c, hc, hstate, _, hopens, _⟩ | ⟨c, x, hc, target, rfl⟩ |
    ⟨o, _, _, rfl⟩
  · refine ⟨hopens, .inr (crossedBefore hc ?_)⟩
    rwa [CallLeg.Connected, ← hstate]
  · have hopens : ¬ Opens k ⟨s, i, s'⟩ := not_opens target (by simp)
    rw [CallLeg.Connected, (reaction_state ..).1] at hconn
    refine ⟨hopens, ?_⟩
    rcases nextState_connected_cases hconn with h | ⟨rfl, hin, hring⟩ | ⟨hold, rfl⟩ |
      ⟨f, rfl, hkind⟩
    · exact .inr (crossedBefore hc h)
    · exact .inl (answer_crosses wf step hc target hin hring)
    · exact .inr (cond k hold target)
    · have takes := f.callKind_takes c.dir
      rw [hkind] at takes
      exact .inl (.inr ⟨f, target, takes⟩)
  · exact (opened_state s i k o hconn).elim

/-- Along every run, a connected call was answered on the wire exactly as long as no call is put on
hold, or taken off it, before an ANSWER crossed its leg. -/
theorem connectedAnswered_iff {cfg : Config} {past : List Move}
    (run : (system md5 cfg).Run past s) :
    Always ConnectedAnswered past ↔ Always HoldsAnswered past := by
  refine run.always_iff fun past s i s' run step before => ?_
  have step := Step.outcome step
  refine ⟨holdsAnswered_step step, connectedAnswered_step (wellFormed_run run) step ?_⟩
  -- what is connected before the step was answered, by the law so far
  intro k c hc hconn
  exact run.reached (I := fun past (s : PbxClient) => ∀ k c, s.calls.lookup k = some c →
      c.Connected → AnswerCrossed k past)
    (fun s init _ _ hc => by
      obtain ⟨now, rfl⟩ := init
      cases hc)
    before k c hc hconn

/-- A call that is answered, put on hold and taken off hold was answered on the wire. -/
theorem connectedAnswered_sample :
    Always ConnectedAnswered
      (Sample.trace [Sample.receive Sample.newCall, Sample.command (.answer 16),
        Sample.command (.hold 16)]) ↔
    Always HoldsAnswered
      (Sample.trace [Sample.receive Sample.newCall, Sample.command (.answer 16),
        Sample.command (.hold 16)]) :=
  connectedAnswered_iff (Sample.run _ (by decide))

/-- An outgoing call that nobody has answered is put on hold and taken off hold. -/
theorem hold_connects_unanswered :
    ¬ ∀ {past : List Move} {s : PbxClient}, (system Sample.md5 Sample.cfg).Run past s →
      Always ConnectedAnswered past := by
  intro law
  have run := Sample.run [Sample.command (.dial "300"), Sample.command (.unhold 16)] (by decide)
  have up : ∃ c, (Sample.after [Sample.command (.dial "300"),
      Sample.command (.unhold 16)]).calls.lookup 16 = some c ∧ c.Connected := ⟨_, rfl, .inl rfl⟩
  obtain ⟨c, hc, hconn⟩ := up
  rcases ((law run).1 _ c hc hconn).2 with crosses | ⟨notOpened, _⟩
  · let before := Sample.after [Sample.command (.dial "300")]
    let after := Sample.after [Sample.command (.dial "300"), Sample.command (.unhold 16)]
    have sent : before.pushed after =
        [(FullFrame.new 16 0 0 1 0 Frametype.control Control.unhold []).encode] := by decide
    rcases crosses with ⟨dg, hdg, h, hread, _, _, hsub⟩ | ⟨f, hf, _⟩
    · change dg ∈ before.pushed after at hdg
      rw [sent] at hdg
      obtain rfl := List.mem_singleton.mp hdg
      cases hread
      cases hsub
    · cases hf
  · exact notOpened ⟨⟨_, rfl⟩, by decide⟩

end PbxClient

end Iax2
