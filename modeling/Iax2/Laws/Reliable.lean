import Iax2.Laws.Registration

/-!
# Reliability over a run

Two laws about the windows. A frame that takes a number is entered in the window of its leg
(`numbersBacked_iff`), and what is entered in a window stays there, and is copied whenever it is
due, until it is released (`staysReliable_run`). What releases an entry is an acknowledgement, a
reset by a call token, a frame without tries left on the same leg, or a peer that ends the call.

Neither law holds of every run. The first full VOICE frame, a LAGRP and a PONG take numbers and are
not tracked. A hangup tracks its HANGUP and removes the call together with its window. When every
call number is in use, a new call overwrites the first. Each law holds along the runs without these
steps.
-/

namespace Iax2.PbxClient

variable {s s' : PbxClient} {md5 : Md5}

/-! ## Numbers are backed -/

/-- A frame that a step sends for the first time on the leg of a call that is live before or after
the step, other than an ACK, is in the window of that leg after the step. -/
def NumbersBacked (t : Move) : Prop :=
  ∀ k dg hd, dg ∈ t.pushed → Header.read dg = some hd → hd.srcCall = k → hd.retransmit = false →
    hd.isAck = false → k ∈ t.pre.calls ∨ k ∈ t.post.calls →
    ∃ c, t.post.calls.lookup k = some c ∧ ∃ o ∈ c.leg.outstanding, o.bytes = dg

/-- No input reaches a live call that makes it send an untracked frame, and no hangup does. -/
def NothingSpent (t : Move) : Prop :=
  ∀ k c x, t.pre.calls.lookup k = some c → t.pre.target t.label.op = .call k x →
    ¬ c.Spending x ∧ x ≠ .hangup

/-- The windows of the calls hold frames of the tracked kinds only. -/
def TrackedKinds (s : PbxClient) : Prop :=
  ∀ k c, s.calls.lookup k = some c → ∀ o ∈ c.leg.outstanding,
    ∃ hd, Header.read o.bytes = some hd ∧ ¬ hd.Untracked

/-- A reaction keeps the kinds of the window. -/
theorem trackedKinds_reaction {i : Invocation} {call : UInt16} {c : CallLeg} {x : CallInput}
    (kinds : ∀ o ∈ c.leg.outstanding, ∃ hd, Header.read o.bytes = some hd ∧ ¬ hd.Untracked) :
    ∀ o ∈ (s.reaction md5 i call c x).entry.leg.outstanding,
      ∃ hd, Header.read o.bytes = some hd ∧ ¬ hd.Untracked := by
  intro o ho
  have noted := (noted_subset c x).1
  rcases reaction_leg md5 s i call c x with ⟨_, backs⟩ | ⟨_, spends⟩
  · rcases backs.entered ho with ho | kind
    · exact kinds o (noted o ho)
    · exact kind
  · rw [spends.sent_header.1] at ho
    exact kinds o (noted o ho)

/-- A new call has a window of the tracked kinds. -/
theorem trackedKinds_opened (s : PbxClient) (i : Invocation) (call : UInt16) (o : Opening) :
    ∀ out ∈ (s.opened i call o).entry.leg.outstanding,
      ∃ hd, Header.read out.bytes = some hd ∧ ¬ hd.Untracked := by
  intro out hout
  rcases opened_leg s i call o with ⟨_, _, backs⟩ | ⟨f, leg, accept, ringing, _, _, backs, backs'⟩
  · rcases backs.entered hout with h | kind
    · cases h
    · exact kind
  · rcases backs'.entered hout with h | kind
    · rcases backs.entered h with h | kind
      · cases h
      · exact kind
    · exact kind

theorem trackedKinds_outcome {i : Invocation} (h : s.TrackedKinds) (step : s.Outcome md5 i s') :
    s'.TrackedKinds := by
  intro k c' hc'
  cases step with
  | quiet _ effect =>
    rw [effect.calls] at hc'
    exact h k c' hc'
  | @touched call x c _ live effect =>
    rw [effect.calls] at hc'
    split at hc'
    next =>
      rw [Reaction_kept_some hc']
      exact trackedKinds_reaction (h call c live)
    next => exact h k c' hc'
  | opened _ effect =>
    rw [effect.calls] at hc'
    split at hc'
    next =>
      cases hc'
      exact trackedKinds_opened s i _ _
    next => exact h k c' hc'
  | expired _ effect =>
    rw [effect.calls, Option.bind_eq_some_iff] at hc'
    obtain ⟨c, hc, hs⟩ := hc'
    obtain ⟨_, rfl⟩ := survivor_eq_some.mp hs
    intro o ho
    have ho : o ∈ (expire i.now c.leg.outstanding).window := ho
    rw [expire_eq] at ho
    obtain ⟨o₀, ho₀, rfl⟩ := List.mem_map.mp ho
    rw [(o₀.aged_same i.now).1]
    exact h k c hc o₀ ho₀

theorem trackedKinds_run {cfg : Config} {past : List Move} (run : (system md5 cfg).Run past s) :
    s.TrackedKinds :=
  run.invariant
    (fun _ init k c hc => by
      obtain ⟨now, rfl⟩ := init
      cases hc)
    fun _ _ _ step h => trackedKinds_outcome h (Step.outcome step)

/-- What is sent for the first time under a call number is sent by that call. -/
theorem Outcome.sender {i : Invocation} (wf : s.WellFormed) (step : s.Outcome md5 i s')
    {dg : Bytes} (hdg : dg ∈ s.pushed s') {hd : Header} (read : Header.read dg = some hd)
    (fresh : hd.retransmit = false) (hin : InCycle hd.srcCall) :
    (∃ c x, s.calls.lookup hd.srcCall = some c ∧ s.target i.op = .call hd.srcCall x ∧
      dg ∈ (s.reaction md5 i hd.srcCall c x).sent) ∨
    ∃ o, s.target i.op = .opening o ∧ hd.srcCall = s.allocCallno.1 ∧
      dg ∈ (s.opened i hd.srcCall o).sent := by
  cases step with
  | quiet _ effect => exact absurd hin ((effect.sent dg hdg).not_call wf read fresh)
  | @touched call x c target live effect =>
    rw [effect.sent] at hdg
    obtain ⟨hsrc, _⟩ := reaction_sent_header wf live hdg read
    exact .inl ⟨c, x, hsrc ▸ live, hsrc ▸ target, hsrc ▸ hdg⟩
  | @opened o target effect =>
    rw [effect.sent] at hdg
    obtain ⟨hsrc, _⟩ := opened_sent_header (inCycle_allocCallno wf.callnoNext).1 hdg read
    exact .inr ⟨o, target, hsrc, hsrc ▸ hdg⟩
  | expired _ effect =>
    obtain ⟨service, hservice, sent⟩ := effect.sent
    rw [sent] at hdg
    rcases List.mem_append.mp hdg with hdg | hdg
    · exact absurd hin ((hservice dg hdg).not_call wf read fresh)
    · obtain ⟨e, _, hdg⟩ := List.mem_flatMap.mp hdg
      obtain ⟨o, _, rfl⟩ := expire_copies i.now _ dg hdg
      rw [Header.read_setRetransmit, Option.map_eq_some_iff] at read
      obtain ⟨_, _, rfl⟩ := read
      cases fresh

/-- A step that keeps the law, and leaves tracked kinds in the windows, meets the condition. -/
theorem nothingSpent_step {i : Invocation} (wf : s.WellFormed) (step : s.Outcome md5 i s')
    (kinds : s'.TrackedKinds) (law : NumbersBacked ⟨s, i, s'⟩) : NothingSpent ⟨s, i, s'⟩ := by
  intro k c x hc target
  have live : k ∈ s.calls := Table.mem_iff_lookup.mpr ⟨c, hc⟩
  have sends {dg : Bytes} (hdg : dg ∈ (s.reaction md5 i k c x).sent) : dg ∈ s.pushed s' := by
    rw [step.sent hc target]
    exact hdg
  have hsrc {dg : Bytes} {hd : Header} (hdg : dg ∈ (s.reaction md5 i k c x).sent)
      (read : Header.read dg = some hd) : hd.srcCall = k ∧ hd.retransmit = false :=
    reaction_sent_header wf hc hdg read
  constructor
  · intro spending
    rcases reaction_leg md5 s i k c x with ⟨quiet, _⟩ | ⟨_, spends⟩
    · exact quiet spending
    · -- the untracked frame would be in a window of tracked kinds
      obtain ⟨_, dg, hd, sent, read, _, _, untracked⟩ := spends.sent_header
      have hdg : dg ∈ (s.reaction md5 i k c x).sent := by rw [sent]; exact List.mem_cons_self
      obtain ⟨c', hc', o, ho, rfl⟩ := law k dg hd (sends hdg) read (hsrc hdg read).1
        (hsrc hdg read).2 untracked.not_ack (.inl live)
      obtain ⟨hd', read', tracked⟩ := kinds k c' hc' o ho
      cases read.symm.trans read'
      exact tracked untracked
  · rintro rfl
    -- the HANGUP leaves with the call gone
    have left : s'.calls.lookup k = none := step.left hc target
    let f := (c.leg.build (s.ts i.clock) Frametype.iax Iax.hangup
      [Ie.str IeKind.cause "Normal Clearing"]).1
    have hdg : f.encode ∈ (s.reaction md5 i k c .hangup).sent := List.mem_cons_self
    have read : Header.read f.encode = some f.wire := Header.read_encode f
    obtain ⟨c', hc', _⟩ := law k _ _ (sends hdg) read (hsrc hdg read).1 (hsrc hdg read).2
      (kind_of_literal _ _ _ _ _ (by decide) (by decide)).2 (.inl live)
    cases left.symm.trans hc'

/-- A step that meets the condition keeps the law. -/
theorem numbersBacked_step {i : Invocation} (wf : s.WellFormed) (step : s.Outcome md5 i s')
    (cond : NothingSpent ⟨s, i, s'⟩) : NumbersBacked ⟨s, i, s'⟩ := by
  intro k dg hd hdg read hk fresh ack live
  have wf' : s'.WellFormed := wf.outcome step
  have hin : InCycle hd.srcCall := by
    rw [hk]
    exact live.elim wf.inCycle wf'.inCycle
  rcases step.sender wf hdg read fresh hin with ⟨c, x, hc, target, hdg⟩ | ⟨o, target, hsrc, hdg⟩
  · obtain ⟨quiet, notHangup⟩ := cond hd.srcCall c x hc target
    have left := step.left hc target
    rw [hk] at hdg left
    rcases reaction_leg md5 s i k c x with ⟨_, backs⟩ | ⟨spending, _⟩
    · obtain ⟨o, ho, entered⟩ := backs.mem_of_sent hdg read ack
      rcases kept_or_farewell k (s.reaction md5 i k c x) with kept | ⟨dropped, _⟩
      · exact ⟨_, left.trans kept, o, ho, entered.bytes⟩
      · exact absurd (hangup_of_dropped dropped hdg read ack) notHangup
    · exact absurd spending quiet
  · have effect := step.to_opened target
    obtain ⟨_, _, backed⟩ := opened_sent_header hin hdg read
    obtain ⟨out, hout, entered⟩ := backed ack
    rw [hsrc] at hk hout
    exact ⟨_, (effect.calls k).trans (if_pos hk.symm), out, hout, entered.bytes⟩

/-- Along every run, every number that is taken is backed by the window exactly as long as no live
call is made to send an untracked frame, and none is hung up by command. -/
theorem numbersBacked_iff {cfg : Config} {past : List Move} (run : (system md5 cfg).Run past s) :
    Always (fun t _ => NumbersBacked t) past ↔ Always (fun t _ => NothingSpent t) past := by
  refine run.always_iff fun past s i s' run step _ => ?_
  have wf := wellFormed_run run
  have kinds : s'.TrackedKinds := trackedKinds_run (run.step step)
  have step := Step.outcome step
  exact ⟨nothingSpent_step wf step kinds, numbersBacked_step wf step⟩

/-- A call that is answered and takes a digit: the law and its condition. -/
theorem numbersBacked_sample :
    Always (fun t _ => NumbersBacked t)
      (Sample.trace [Sample.receive Sample.newCall, Sample.command (.answer 16),
        Sample.command (.dtmf 16 '5')]) ↔
    Always (fun t _ => NothingSpent t)
      (Sample.trace [Sample.receive Sample.newCall, Sample.command (.answer 16),
        Sample.command (.dtmf 16 '5')]) :=
  numbersBacked_iff (Sample.run _ (by decide))

/-- A LAGRQ on a live call is answered by a LAGRP that takes a number and is not tracked. -/
theorem lagrp_not_backed :
    ¬ ∀ {past : List Move} {s : PbxClient}, (system Sample.md5 Sample.cfg).Run past s →
      Always (fun t _ => NumbersBacked t) past := by
  intro law
  have run := Sample.run [Sample.receive Sample.newCall,
    Sample.receive (Sample.frame 120 1 2 Frametype.iax Iax.lagrq)] (by decide)
  let before := Sample.after [Sample.receive Sample.newCall]
  let after := Sample.after [Sample.receive Sample.newCall,
    Sample.receive (Sample.frame 120 1 2 Frametype.iax Iax.lagrq)]
  let lagrp := FullFrame.new 16 42 120 2 2 Frametype.iax Iax.lagrp []
  have sent : before.pushed after = [lagrp.encode] := by decide
  have window : ∃ c, after.calls.lookup 16 = some c ∧
      ∀ o ∈ c.leg.outstanding, o.bytes ≠ lagrp.encode := ⟨_, rfl, by decide⟩
  obtain ⟨c, hc, missing⟩ := window
  obtain ⟨c', hc', o, ho, hbytes⟩ := (law run).1 16 lagrp.encode lagrp.wire
    (show lagrp.encode ∈ before.pushed after from sent ▸ List.mem_cons_self)
    (Header.read_encode lagrp) (by decide) rfl (by decide)
    (.inr (Table.mem_iff_lookup.mpr ⟨c, hc⟩))
  cases hc.symm.trans hc'
  exact missing o ho hbytes

/-! ## What is tracked stays until it is released -/

/-- The window of the leg with the number `k`: the registration leg, or the leg of a call. -/
def window (s : PbxClient) (k : UInt16) : List Outstanding :=
  if k = callnoReg then s.reg.outstanding
  else ((s.calls.lookup k).map (·.leg.outstanding)).getD []

theorem window_reg (s : PbxClient) : s.window callnoReg = s.reg.outstanding := if_pos rfl

theorem window_call {k : UInt16} {c : CallLeg} (hk : k ≠ callnoReg)
    (hc : s.calls.lookup k = some c) : s.window k = c.leg.outstanding := by
  rw [window, if_neg hk, hc]
  rfl

/-- An entry of a window of a call is in the entry of a live call. -/
theorem mem_window {k : UInt16} {o : Outstanding} (hk : k ≠ callnoReg) (h : o ∈ s.window k) :
    ∃ c, s.calls.lookup k = some c ∧ o ∈ c.leg.outstanding := by
  rw [window, if_neg hk] at h
  cases hc : s.calls.lookup k with
  | some c =>
    rw [hc] at h
    exact ⟨c, rfl, h⟩
  | none =>
    rw [hc] at h
    cases h

/-- The transition hands the datagram to the tracking of the leg `k`: it sends it for the first
time on that leg, and the datagram is neither an ACK nor of an untracked kind. -/
structure Tracks (k : UInt16) (dg : Bytes) (t : Move) : Prop where
  leg : k = callnoReg ∨ InCycle k
  sent : dg ∈ t.pushed
  header : ∃ hd, Header.read dg = some hd ∧ hd.srcCall = k ∧ hd.retransmit = false ∧
    hd.isAck = false ∧ ¬ hd.Untracked

/-- The transition handles the frame on the leg `k`. -/
def Receives (k : UInt16) (f : FullFrame) (t : Move) : Prop :=
  t.pre.target t.label.op = .call k (.frame f) ∨
  k = callnoReg ∧ ∃ dg, t.label.op = .handleInput dg ∧ FullFrame.decode dg = some f ∧
    t.pre.route f = .reg

/-- What releases an entry of the window of the leg `k`. -/
inductive Releases (k : UInt16) (o : Outstanding) (t : Move) : Prop
  /-- a frame acknowledges it -/
  | acked {f : FullFrame} (receives : Receives k f t)
      (acked : o.acked f.iseq f.timestamp f.isAck = true)
  /-- a call token resets the leg of the call -/
  | callToken {token : Bytes} (target : t.pre.target t.label.op = .call k (.token token))
  /-- a call token resets the registration leg -/
  | regToken {dg token : Bytes} {f : FullFrame} (reg : k = callnoReg)
      (op : t.label.op = .handleInput dg) (decoded : FullFrame.decode dg = some f)
      (route : t.pre.route f = .regToken token)
  /-- a frame of the leg is due without tries left -/
  | exhausted {o' : Outstanding} (op : t.label.op = .handleTimeout) (mem : o' ∈ t.pre.window k)
      (spent : o'.Spent t.label.now)
  /-- the peer ends the call -/
  | ended {c : CallLeg} {f : FullFrame} (live : t.pre.calls.lookup k = some c)
      (target : t.pre.target t.label.op = .call k (.frame f))
      (kind : f.callKind c.dir = .busy ∨ f.callKind c.dir = .hangup ∨ f.callKind c.dir = .reject)

/-- What is tracked enters the window, stays there until it is released, and is copied whenever a
timeout finds it due. -/
structure StaysReliable (t : Move) : Prop where
  enters : ∀ {k dg}, Tracks k dg t →
    ∃ o ∈ t.post.window k, o.Entered t.label.now dg
  stays : ∀ {k o}, o ∈ t.pre.window k → Releases k o t ∨
    o ∈ t.post.window k ∨
    t.label.op = .handleTimeout ∧ o.Due t.label.now ∧ o.resent t.label.now ∈ t.post.window k
  copied : ∀ {k o}, o ∈ t.pre.window k → t.label.op = .handleTimeout → o.Due t.label.now →
    setRetransmit o.bytes ∈ t.pushed

/-- No live call is hung up by command, and no call is opened while every call number is in use and
the first of them has unacknowledged frames. -/
structure KeepsCalls (t : Move) : Prop where
  hangup : ∀ {k}, t.pre.target t.label.op ≠ .call k .hangup
  room : ∀ {o c}, t.pre.target t.label.op = .opening o → t.pre.Full →
    t.pre.calls.lookup callnoCallBase = some c → c.leg.outstanding = []

/-- A copy is not sent for the first time. -/
theorem retransmit_of_copy {dg : Bytes} {hd : Header}
    (read : Header.read (setRetransmit dg) = some hd) : hd.retransmit = true := by
  rw [Header.read_setRetransmit, Option.map_eq_some_iff] at read
  obtain ⟨_, _, rfl⟩ := read
  rfl

theorem retransmit_of_callCopies {now : Instant} {dg : Bytes} (h : dg ∈ s.callCopies now)
    {hd : Header} (read : Header.read dg = some hd) : hd.retransmit = true := by
  obtain ⟨_, _, _, o, _, rfl⟩ := callCopies_entries h
  exact retransmit_of_copy read

/-- A POKE does not leave on the registration leg. -/
theorem Pokes.srcCall {dg : Bytes} (h : Pokes dg) {hd : Header} (read : Header.read dg = some hd) :
    hd.srcCall ≠ callnoReg := by
  obtain ⟨f, rfl, src, _⟩ := h
  rw [Header.read_encode] at read
  cases read
  show f.srcCall &&& callMask ≠ callnoReg
  rw [src]
  decide

/-- What is tracked on the registration leg enters its window. -/
theorem reg_enters {i : Invocation} (wf : s.WellFormed) (step : Step md5 s i s') {dg : Bytes}
    (h : Tracks callnoReg dg ⟨s, i, s'⟩) : ∃ o ∈ s'.window callnoReg, o.Entered i.now dg := by
  obtain ⟨_, hdg, hd, read, hsrc, fresh, ack, _⟩ := h
  have hdg : dg ∈ s.pushed s' := hdg
  rw [window_reg]
  cases step.reg wf with
  | untouched _ effect => exact absurd hsrc (effect.sent dg hdg hd read)
  | token _ _ _ effect =>
    subst effect
    exact (resendRegWithToken_leg ..).mem_of_sent hdg read ack
  | frame _ _ _ effect =>
    subst effect
    exact (onRegFrame_leg ..).mem_of_sent hdg read ack
  | timeout _ effect =>
    subst effect
    have copy_old {h : dg ∈ s.callCopies i.now} : False := by
      rw [retransmit_of_callCopies h read] at fresh
      cases fresh
    obtain ⟨poke, hpoke, ⟨_, hreg, sent⟩ | ⟨_, _, sent⟩⟩ := handleTimeout_reg s i.now i.clock
    · rw [sent, List.append_assoc, List.mem_append, List.mem_append] at hdg
      rcases hdg with hdg | hdg | hdg
      · rw [hreg]
        exact (startRegistration_leg ..).mem_of_sent hdg read ack
      · exact absurd hsrc ((hpoke dg hdg).srcCall read)
      · exact (copy_old (h := hdg)).elim
    · rw [sent, List.append_assoc, List.mem_append, List.mem_append] at hdg
      rcases hdg with hdg | hdg | hdg
      · exact absurd hsrc ((hpoke dg hdg).srcCall read)
      · obtain ⟨o, _, rfl⟩ := expire_copies i.now _ dg hdg
        rw [retransmit_of_copy read] at fresh
        cases fresh
      · exact (copy_old (h := hdg)).elim

/-- What is tracked on the leg of a call enters its window, unless the call is hung up. -/
theorem call_enters {i : Invocation} (wf : s.WellFormed) (step : s.Outcome md5 i s') {k : UInt16}
    (hin : InCycle k) {dg : Bytes} (h : Tracks k dg ⟨s, i, s'⟩)
    (hangup : s.target i.op ≠ .call k .hangup) : ∃ o ∈ s'.window k, o.Entered i.now dg := by
  obtain ⟨_, hdg, hd, read, rfl, fresh, ack, tracked⟩ := h
  rcases step.sender wf hdg read fresh hin with ⟨c, x, hc, target, hdg⟩ | ⟨o, target, hsrc, hdg⟩
  · have left := step.left hc target
    rcases reaction_leg md5 s i hd.srcCall c x with ⟨_, backs⟩ | ⟨_, spends⟩
    · obtain ⟨o, ho, entered⟩ := backs.mem_of_sent hdg read ack
      rcases kept_or_farewell hd.srcCall (s.reaction md5 i hd.srcCall c x) with
        kept | ⟨dropped, _⟩
      · exact ⟨o, by rw [window_call hin.ne_reg (left.trans kept)]; exact ho, entered⟩
      · obtain rfl := hangup_of_dropped dropped hdg read ack
        exact absurd target hangup
    · obtain ⟨_, dg', hd', sent, read', _, _, untracked⟩ := spends.sent_header
      rw [sent] at hdg
      obtain rfl := List.mem_singleton.mp hdg
      cases read.symm.trans read'
      exact absurd untracked tracked
  · have effect := step.to_opened target
    obtain ⟨_, _, backed⟩ := opened_sent_header hin hdg read
    obtain ⟨out, hout, entered⟩ := backed ack
    have lookup := (effect.calls hd.srcCall).trans (if_pos hsrc)
    rw [← hsrc] at lookup
    exact ⟨out, by rw [window_call hin.ne_reg lookup]; exact hout, entered⟩

/-- An entry of the registration window stays, or is released. -/
theorem reg_stays {i : Invocation} (wf : s.WellFormed) (step : Step md5 s i s') {o : Outstanding}
    (ho : o ∈ s.window callnoReg) : Releases callnoReg o ⟨s, i, s'⟩ ∨ o ∈ s'.window callnoReg ∨
      i.op = .handleTimeout ∧ o.Due i.now ∧ o.resent i.now ∈ s'.window callnoReg := by
  have inWindow := ho
  rw [window_reg] at ho ⊢
  cases step.reg wf with
  | untouched _ effect =>
    rw [effect.same.reg]
    exact .inr (.inl ho)
  | token op decoded route _ => exact .inl (.regToken rfl op decoded route)
  | @frame dg f op decoded route effect =>
    cases acked : o.acked f.iseq f.timestamp f.isAck with
    | true => exact .inl (.acked (.inr ⟨rfl, dg, op, decoded, route⟩) acked)
    | false =>
      subst effect
      refine .inr (.inl ((onRegFrame_leg ..).keeps (List.mem_filter.mpr ⟨ho, ?_⟩)))
      rw [acked]
      rfl
  | timeout op effect =>
    subst effect
    obtain ⟨_, _, ⟨⟨empty, _⟩, _⟩ | ⟨_, hreg, _⟩⟩ := handleTimeout_reg s i.now i.clock
    · rw [empty] at ho
      cases ho
    · rw [hreg]
      simp only
      split
      next spent =>
        obtain ⟨o', ho', hspent⟩ := List.any_eq_true.mp spent
        rw [← window_reg] at ho'
        exact .inl (.exhausted op ho' (of_decide_eq_true hspent))
      next =>
        have aged := List.mem_map_of_mem (f := (·.aged i.now)) ho
        by_cases due : o.Due i.now
        · rw [Outstanding.aged, if_pos due] at aged
          exact .inr (.inr ⟨op, due, aged⟩)
        · rw [Outstanding.aged, if_neg due] at aged
          exact .inr (.inl aged)

/-- What an input leaves in the window, of what was there: all that it does not acknowledge, unless
it resets the leg. -/
theorem mem_noted {c : CallLeg} {x : CallInput} {o : Outstanding} (ho : o ∈ c.leg.outstanding) :
    o ∈ (c.noted x).outstanding ∨ (∃ token, x = .token token) ∨
      ∃ f, x = .frame f ∧ o.acked f.iseq f.timestamp f.isAck = true := by
  cases x with
  | token token => exact .inr (.inl ⟨token, rfl⟩)
  | frame f =>
    cases acked : o.acked f.iseq f.timestamp f.isAck with
    | true => exact .inr (.inr ⟨f, rfl, acked⟩)
    | false =>
      refine .inl (List.mem_filter.mpr ⟨ho, ?_⟩)
      rw [acked]
      rfl
  | _ => exact .inl ho

/-- A timeout ends a call with a spent entry, and ages the entries of the others. -/
theorem expired_stays {now : Instant} (effect : s.Expired now s') {k : UInt16}
    (hk : k ≠ callnoReg) {o : Outstanding} (ho : o ∈ s.window k) :
    (∃ o' ∈ s.window k, o'.Spent now) ∨ o.aged now ∈ s'.window k := by
  obtain ⟨c, hc, hmem⟩ := mem_window hk ho
  have lookup := effect.calls k
  rw [hc, Option.bind_some, CallLeg.survivor, expire_eq] at lookup
  simp only at lookup
  split at lookup
  next spent =>
    obtain ⟨o', ho', hspent⟩ := List.any_eq_true.mp spent
    rw [← window_call hk hc] at ho'
    exact .inl ⟨o', ho', of_decide_eq_true hspent⟩
  next =>
    refine .inr ?_
    rw [window_call hk lookup]
    show _ ∈ (expire now c.leg.outstanding).window
    rw [expire_eq]
    exact List.mem_map_of_mem hmem

/-- An entry of the window of a call stays, or is released, unless the call is hung up or
overwritten. -/
theorem call_stays {i : Invocation} (wf : s.WellFormed) (step : s.Outcome md5 i s')
    (cond : KeepsCalls ⟨s, i, s'⟩) {k : UInt16} (hk : k ≠ callnoReg) {o : Outstanding}
    (ho : o ∈ s.window k) : Releases k o ⟨s, i, s'⟩ ∨ o ∈ s'.window k ∨
      i.op = .handleTimeout ∧ o.Due i.now ∧ o.resent i.now ∈ s'.window k := by
  obtain ⟨c, hc, hmem⟩ := mem_window hk ho
  have same (h : s'.calls.lookup k = s.calls.lookup k) : o ∈ s'.window k := by
    rw [window_call hk (h.trans hc)]
    exact hmem
  cases step with
  | quiet _ effect => exact .inr (.inl (same (effect.calls k)))
  | @touched call x c₀ target live effect =>
    by_cases heq : k = call
    · subst heq
      cases hc.symm.trans live
      rcases mem_noted (x := x) hmem with noted | ⟨token, rfl⟩ | ⟨f, rfl, acked⟩
      · have stays : o ∈ (s.reaction md5 i k c x).entry.leg.outstanding := by
          rcases reaction_leg md5 s i k c x with ⟨_, backs⟩ | ⟨_, spends⟩
          · exact backs.keeps noted
          · rw [spends.sent_header.1]
            exact noted
        have lookup := (effect.calls k).trans (if_pos rfl)
        rcases kept_or_farewell k (s.reaction md5 i k c x) with kept | ⟨dropped, _⟩
        · exact .inr (.inl (by rw [window_call hk (lookup.trans kept)]; exact stays))
        · rcases reaction_dropped dropped with rfl | ⟨f, rfl, kind, _⟩
          · exact absurd target cond.hangup
          · exact .inl (.ended hc target kind)
      · exact .inl (.callToken target)
      · exact .inl (.acked (.inl target) acked)
    · exact .inr (.inl (same ((effect.calls k).trans (if_neg heq))))
  | @opened op target effect =>
    by_cases heq : k = s.allocCallno.1
    · -- the number that is allocated is in use: the table is full, and the call is the first
      have full : s.Full :=
        (allocCallno_live_iff wf.callnoNext).mp (heq ▸ Table.mem_iff_lookup.mpr ⟨c, hc⟩)
      rw [allocCallno_of_full wf.callnoNext full] at heq
      rw [cond.room target full (heq ▸ hc)] at hmem
      cases hmem
    · exact .inr (.inl (same ((effect.calls k).trans (if_neg heq))))
  | expired target effect =>
    have op : i.op = .handleTimeout := op_of_timeout target
    rcases expired_stays effect hk ho with ⟨o', ho', spent⟩ | aged
    · exact .inl (.exhausted op ho' spent)
    · by_cases due : o.Due i.now
      · rw [Outstanding.aged, if_pos due] at aged
        exact .inr (.inr ⟨op, due, aged⟩)
      · rw [Outstanding.aged, if_neg due] at aged
        exact .inr (.inl aged)

/-- A timeout copies every entry that is due, on every leg. -/
theorem due_copied {i : Invocation} (wf : s.WellFormed) (step : Step md5 s i s')
    (op : i.op = .handleTimeout) {k : UInt16} {o : Outstanding} (ho : o ∈ s.window k)
    (due : o.Due i.now) : setRetransmit o.bytes ∈ s.pushed s' := by
  have copied {w : List Outstanding} (hw : o ∈ w) :
      setRetransmit o.bytes ∈ (expire i.now w).copies := by
    rw [expire_eq]
    exact List.mem_map_of_mem (List.mem_filter.mpr ⟨hw, decide_eq_true due⟩)
  by_cases hk : k = callnoReg
  · subst hk
    rw [window_reg] at ho
    cases step.reg wf with
    | timeout _ effect =>
      subst effect
      obtain ⟨poke, _, ⟨⟨empty, _⟩, _⟩ | ⟨_, _, sent⟩⟩ := handleTimeout_reg s i.now i.clock
      · rw [empty] at ho
        cases ho
      · rw [sent]
        exact List.mem_append_left _ (List.mem_append_right _ (copied ho))
    | untouched notTimeout _ => exact absurd op notTimeout
    | token op' _ _ _ => cases op.symm.trans op'
    | frame op' _ _ _ => cases op.symm.trans op'
  · obtain ⟨c, hc, hmem⟩ := mem_window hk ho
    have target : s.target i.op = .timeout := by rw [op]; rfl
    obtain ⟨service, _, sent⟩ := ((Step.outcome step).to_expired target).sent
    rw [sent]
    exact List.mem_append_right _
      (List.mem_flatMap.mpr ⟨⟨k, c⟩, Table.mem_entries_iff.mpr hc, copied hmem⟩)

/-- One step that hangs no call up and overwrites none keeps what is tracked. -/
theorem staysReliable_step {i : Invocation} (wf : s.WellFormed) (step : Step md5 s i s')
    (cond : KeepsCalls ⟨s, i, s'⟩) : StaysReliable ⟨s, i, s'⟩ where
  enters {k dg} h := by
    rcases h.leg with rfl | hin
    · exact reg_enters wf step h
    · exact call_enters wf (Step.outcome step) hin h cond.hangup
  stays {k o} ho := by
    by_cases hk : k = callnoReg
    · subst hk
      exact reg_stays wf step ho
    · exact call_stays wf (Step.outcome step) cond hk ho
  copied {k o} ho op due := due_copied wf step op ho due

/-- The datagram was tracked on the leg `k`, and no entry with its bytes was released since. -/
def Unreleased (k : UInt16) (dg : Bytes) : List Move → Prop :=
  Since (fun t => ∃ o ∈ t.pre.window k, o.bytes = dg ∧ Releases k o t) (Tracks k dg)

/-- Along every run that hangs no call up and overwrites none, every step keeps what is tracked, and
so whatever was tracked and not released since is in the window of its leg. -/
theorem staysReliable_run {cfg : Config} {past : List Move} (run : (system md5 cfg).Run past s)
    (cond : Always (fun t _ => KeepsCalls t) past) :
    Always (fun t _ => StaysReliable t) past ∧
      ∀ k dg, Unreleased k dg past → ∃ o ∈ s.window k, o.bytes = dg := by
  have always : Always (fun t _ => StaysReliable t) past :=
    run.always_under
      (fun _ _ _ _ run step _ cond => staysReliable_step (wellFormed_run run) step cond) cond
  refine ⟨always, ?_⟩
  clear cond
  induction run with
  | start _ =>
    intro k dg h
    cases h
  | @step past s s' i run step ih =>
    intro k dg ⟨notReleased, h⟩
    rcases h with tracks | before
    · obtain ⟨o, ho, entered⟩ := always.1.enters tracks
      exact ⟨o, ho, entered.bytes⟩
    · obtain ⟨o, ho, rfl⟩ := ih always.2 k dg before
      rcases always.1.stays ho with released | stays | ⟨_, _, stays⟩
      · exact absurd ⟨o, ho, rfl, released⟩ notReleased
      · exact ⟨o, stays, rfl⟩
      · exact ⟨_, stays, rfl⟩

/-- An incoming call is answered, and a timeout repeats what is not acknowledged. -/
theorem staysReliable_sample :
    let is := [Sample.receive Sample.newCall, Sample.command (.answer 16),
      { op := .handleTimeout, now := 800000000, clock := 800000000 }]
    Always (fun t _ => StaysReliable t) (Sample.trace is) ∧
      ∀ k dg, Unreleased k dg (Sample.trace is) →
        ∃ o ∈ (Sample.after is).window k, o.bytes = dg := by
  refine staysReliable_run (Sample.run _ (by decide)) ⟨?_, ?_, ?_, trivial⟩
  · constructor
    · intro k h
      cases h
    · intro o c h
      cases h
  · constructor
    · intro k h
      cases h
    · intro o c h
      cases h
  · constructor
    · intro k h
      cases h
    · intro o c _ _ h
      cases h

/-- The HANGUP of a hangup command is sent once, and its window is gone with the call. -/
theorem hangup_not_repeated :
    ¬ ∀ {past : List Move} {s : PbxClient}, (system Sample.md5 Sample.cfg).Run past s →
      Always (fun t _ => StaysReliable t) past ∧
        ∀ k dg, Unreleased k dg past → ∃ o ∈ s.window k, o.bytes = dg := by
  intro law
  have run := Sample.run [Sample.receive Sample.newCall, Sample.command (.hangup 16)] (by decide)
  let before := Sample.after [Sample.receive Sample.newCall]
  let after := Sample.after [Sample.receive Sample.newCall, Sample.command (.hangup 16)]
  let hangup := FullFrame.new 16 42 0 2 1 Frametype.iax Iax.hangup
    [Ie.str IeKind.cause "Normal Clearing"]
  have sent : before.pushed after = [hangup.encode] := by decide
  have window : after.window 16 = [] := by decide
  have tracks : Tracks 16 hangup.encode ⟨before, Sample.command (.hangup 16), after⟩ :=
    { leg := .inr (by decide)
      sent := show hangup.encode ∈ before.pushed after from sent ▸ List.mem_cons_self
      header := ⟨hangup.wire, Header.read_encode hangup, by decide, rfl, by decide, by decide⟩ }
  obtain ⟨o, ho, _⟩ := (law run).1.1.enters tracks
  have ho : o ∈ after.window 16 := ho
  rw [window] at ho
  cases ho

end Iax2.PbxClient
