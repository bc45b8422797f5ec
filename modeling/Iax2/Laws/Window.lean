import Iax2.Laws.Store
import Iax2.Laws.Wire

/-!
# What a step does to a leg

A reaction changes the leg of its call in two moves. First `CallLeg.noted`: a received frame is
noted and acknowledges, a call token resets the leg, anything else leaves it. Then the leg sends
nothing, an ACK, a mini frame, or one full frame that takes a number. `Leg.Backs` lists the ways in
which a number that is taken is backed by an entry of the window. `Leg.Spends` is the one way in
which it is not: the first full VOICE frame, a LAGRP and a PONG take a number and are never
repeated. `reaction_leg` says which of the two a reaction is.
-/

namespace Iax2

/-! ## Kinds of frames -/

/-- A frame that takes a number and is not tracked: VOICE, LAGRP, PONG. -/
def Header.Untracked (h : Header) : Prop :=
  h.frametype = Frametype.voice ∨
    h.frametype = Frametype.iax ∧ (h.subclass = Iax.lagrp ∨ h.subclass = Iax.pong)

instance (h : Header) : Decidable h.Untracked := inferInstanceAs (Decidable (_ ∨ _))

/-- An untracked frame is not an ACK. -/
theorem Header.Untracked.not_ack {h : Header} (untracked : h.Untracked) : h.isAck = false := by
  rw [Header.isAck, Bool.and_eq_false_iff, decide_eq_false_iff_not, decide_eq_false_iff_not]
  rcases untracked with hft | ⟨_, hsc | hsc⟩
  · rw [hft]
    exact .inl (by decide)
  · rw [hsc]
    exact .inr (by decide)
  · rw [hsc]
    exact .inr (by decide)

/-- An input that makes a live call send a frame of that kind. -/
def CallLeg.Spending (c : CallLeg) : CallInput → Prop
  | .voice _ => c.state = .up ∧ c.sentFormat = false
  | .frame f => f.callKind c.dir = .lagrq ∨ f.callKind c.dir = .ping
  | _ => False

/-- The leg after what came in, before anything is sent. -/
def CallLeg.noted (c : CallLeg) : CallInput → Leg
  | .frame f => (c.leg.noteRecv f).ackUpto f.iseq f.timestamp f.isAck
  | .token _ => c.leg.reset
  | _ => c.leg

/-! ## Time -/

/-- The entry of the window is the datagram, entered at `now`. -/
structure Outstanding.Entered (now : Instant) (dg : Bytes) (o : Outstanding) : Prop where
  bytes : o.bytes = dg
  deadline : o.deadline = now + retxAfter
  tries : o.tries = 0

/-- A frame that entered the window now is not due. -/
theorem Outstanding.Entered.not_due {now : Instant} {dg : Bytes} {o : Outstanding}
    (h : o.Entered now dg) : ¬ o.deadline ≤ now := by
  rw [h.deadline]
  exact Nat.not_le.mpr (Nat.lt_add_of_pos_right (by decide))

/-- The entry of the window is due, with tries left. -/
def Outstanding.Due (now : Instant) (o : Outstanding) : Prop :=
  o.deadline ≤ now ∧ o.tries < retxMax

/-- The entry of the window is due, without tries left. -/
def Outstanding.Spent (now : Instant) (o : Outstanding) : Prop :=
  o.deadline ≤ now ∧ retxMax ≤ o.tries

instance (now : Instant) (o : Outstanding) : Decidable (o.Due now) :=
  inferInstanceAs (Decidable (_ ∧ _))

instance (now : Instant) (o : Outstanding) : Decidable (o.Spent now) :=
  inferInstanceAs (Decidable (_ ∧ _))

/-- The entry after one pass of the retransmission loop. -/
def Outstanding.aged (now : Instant) (o : Outstanding) : Outstanding :=
  if o.Due now then o.resent now else o

theorem Outstanding.aged_same (now : Instant) (o : Outstanding) :
    (o.aged now).bytes = o.bytes ∧ (o.aged now).oseq = o.oseq ∧ (o.aged now).ts = o.ts := by
  unfold Outstanding.aged
  split <;> exact ⟨rfl, rfl, rfl⟩

/-- One pass of the retransmission loop: every entry ages, every entry that is due is copied, and an
entry that is spent exhausts the window. -/
theorem expire_eq (now : Instant) (w : List Outstanding) :
    expire now w =
      { window := w.map (·.aged now)
        copies := (w.filter fun o => o.Due now).map fun o => setRetransmit o.bytes
        exhausted := w.any fun o => o.Spent now } := by
  induction w with
  | nil => rfl
  | cons o rest ih =>
    simp only [expire, ih, List.map_cons, List.filter_cons, List.any_cons]
    by_cases hdue : o.deadline ≤ now
    · by_cases hspent : retxMax ≤ o.tries
      · have due : ¬ o.Due now := fun h => absurd h.2 (Nat.not_lt.mpr hspent)
        simp [Outstanding.aged, Outstanding.Spent, hdue, hspent, due]
      · have due : o.Due now := ⟨hdue, Nat.not_le.mp hspent⟩
        simp [Outstanding.aged, Outstanding.Spent, hdue, hspent, due]
    · have due : ¬ o.Due now := fun h => hdue h.1
      simp [Outstanding.aged, Outstanding.Spent, hdue, due]

/-! ## What a leg sends -/

namespace Leg

/-- From `start` to a leg, sending datagrams: every number taken is backed by the window. -/
inductive Backs (now : Instant) (start : Leg) : Leg → List Bytes → Prop
  | silent : Backs now start start []
  | acked (ts : UInt32) : Backs now start start [start.ackBytes ts]
  | audio (m : MiniFrame) : Backs now start start [m.encode]
  | tracked (ts : UInt32) (ft sc : UInt8) (ies : List Ie)
      (kind : ¬ (start.build ts ft sc ies).1.wire.Untracked ∧
        (start.build ts ft sc ies).1.wire.isAck = false) :
      Backs now start ((start.build ts ft sc ies).2.trackReliable (start.build ts ft sc ies).1 now)
        [(start.build ts ft sc ies).1.encode]

/-- From `start` to a leg, sending a frame whose number the window does not back. -/
inductive Spends (start : Leg) : Leg → List Bytes → Prop
  | untracked (ts : UInt32) (ft sc : UInt8) (payload : Bytes)
      (kind : (start.build ts ft sc []).1.wire.Untracked) :
      Spends start (start.build ts ft sc []).2 [(start.build ts ft sc []).1.encodeMedia payload]

variable {now : Instant} {start leg : Leg} {sent : List Bytes}

theorem ackBytes_read (l : Leg) (ts : UInt32) :
    Header.read (l.ackBytes ts) = some (l.ackFrame ts).wire :=
  Header.read_encode _

theorem ackFrame_isAck (l : Leg) (ts : UInt32) : (l.ackFrame ts).wire.isAck = true := by
  show (decide (Frametype.iax = Frametype.iax) && decide (Iax.ack &&& 0x7F = Iax.ack)) = true
  decide

namespace Backs

/-- A frame that takes a number is in the window. -/
theorem mem_of_sent (h : Backs now start leg sent) {dg : Bytes} (hdg : dg ∈ sent) {hd : Header}
    (read : Header.read dg = some hd) (fresh : hd.isAck = false) :
    ∃ o ∈ leg.outstanding, o.Entered now dg := by
  cases h with
  | silent => cases hdg
  | acked ts =>
    obtain rfl := List.mem_singleton.mp hdg
    rw [ackBytes_read] at read
    cases read
    rw [ackFrame_isAck] at fresh
    cases fresh
  | audio m =>
    obtain rfl := List.mem_singleton.mp hdg
    rw [Header.read_mini] at read
    cases read
  | tracked ts ft sc ies _ =>
    obtain rfl := List.mem_singleton.mp hdg
    exact ⟨_, List.mem_append_right _ List.mem_cons_self, ⟨rfl, rfl, rfl⟩⟩

/-- What is in the window stays there. -/
theorem keeps (h : Backs now start leg sent) {o : Outstanding} (ho : o ∈ start.outstanding) :
    o ∈ leg.outstanding := by
  cases h with
  | tracked ts ft sc ies _ => exact List.mem_append_left _ ho
  | _ => exact ho

/-- Sending changes neither the numbers of the leg nor what it expects. -/
theorem same (h : Backs now start leg sent) :
    leg.localNo = start.localNo ∧ leg.remote = start.remote ∧ leg.iseq = start.iseq := by
  cases h <;> exact ⟨rfl, rfl, rfl⟩

/-- What is in the window was there before, or is sent now for the first time, and is of a kind that
is tracked. -/
theorem origin (h : Backs now start leg sent) {o : Outstanding} (ho : o ∈ leg.outstanding) :
    o ∈ start.outstanding ∨ o.bytes ∈ sent ∧ o.Entered now o.bytes ∧
      ∃ hd, Header.read o.bytes = some hd ∧ hd.srcCall = start.localNo &&& callMask ∧
        hd.retransmit = false ∧ hd.isAck = false ∧ ¬ hd.Untracked := by
  cases h with
  | tracked ts ft sc ies kind =>
    rcases List.mem_append.mp ho with ho | ho
    · exact .inl ho
    · obtain rfl := List.mem_singleton.mp ho
      exact .inr ⟨List.mem_cons_self, ⟨rfl, rfl, rfl⟩, _, Header.read_encode _, rfl, rfl, kind.2,
        kind.1⟩
  | _ => exact .inl ho

/-- Sending does not change the number that frames leave under. -/
theorem src (h : Backs now start leg sent) :
    leg.localNo &&& callMask = start.localNo &&& callMask := by
  rw [h.same.1]

/-- What enters the window is of a kind that is tracked. -/
theorem entered (h : Backs now start leg sent) {o : Outstanding} (ho : o ∈ leg.outstanding) :
    o ∈ start.outstanding ∨ ∃ hd, Header.read o.bytes = some hd ∧ ¬ hd.Untracked := by
  rcases h.origin ho with before | ⟨_, _, hd, read, _, _, _, kind⟩
  · exact .inl before
  · exact .inr ⟨hd, read, kind⟩

/-- What is sent leaves on the leg, for the first time. -/
theorem sent_header (h : Backs now start leg sent) {dg : Bytes} (hdg : dg ∈ sent) {hd : Header}
    (read : Header.read dg = some hd) :
    hd.srcCall = start.localNo &&& callMask ∧ hd.retransmit = false ∧ ¬ hd.Untracked := by
  cases h with
  | silent => cases hdg
  | acked ts =>
    obtain rfl := List.mem_singleton.mp hdg
    rw [ackBytes_read] at read
    cases read
    refine ⟨rfl, rfl, ?_⟩
    show ¬ (Frametype.iax = Frametype.voice ∨ Frametype.iax = Frametype.iax ∧
      (Iax.ack &&& 0x7F = Iax.lagrp ∨ Iax.ack &&& 0x7F = Iax.pong))
    decide
  | audio m =>
    obtain rfl := List.mem_singleton.mp hdg
    rw [Header.read_mini] at read
    cases read
  | tracked ts ft sc ies kind =>
    obtain rfl := List.mem_singleton.mp hdg
    rw [Header.read_encode] at read
    cases read
    exact ⟨rfl, rfl, kind.1⟩

end Backs

/-- Sending changes neither the numbers of the leg nor what it expects. -/
theorem Spends.same (h : Spends start leg sent) :
    leg.localNo = start.localNo ∧ leg.remote = start.remote ∧ leg.iseq = start.iseq := by
  cases h
  exact ⟨rfl, rfl, rfl⟩

/-- An untracked frame leaves on the leg, for the first time, and nothing enters the window. -/
theorem Spends.sent_header (h : Spends start leg sent) :
    leg.outstanding = start.outstanding ∧ ∃ dg hd, sent = [dg] ∧ Header.read dg = some hd ∧
      hd.srcCall = start.localNo &&& callMask ∧ hd.retransmit = false ∧ hd.Untracked := by
  cases h with
  | untracked ts ft sc payload kind =>
    exact ⟨rfl, _, _, rfl, Header.read_encodeMedia _ _, rfl, rfl, kind⟩

end Leg

namespace PbxClient

variable {s s' : PbxClient} {md5 : Md5}

/-- A kind that is written in the source: its subclass has no high bit. -/
theorem kind_of_literal (start : Leg) (ts : UInt32) (ft sc : UInt8) (ies : List Ie)
    (hvoice : ft ≠ Frametype.voice)
    (hiax : ft = Frametype.iax → sc &&& 0x7F ≠ Iax.lagrp ∧ sc &&& 0x7F ≠ Iax.pong ∧
      sc &&& 0x7F ≠ Iax.ack) :
    ¬ (start.build ts ft sc ies).1.wire.Untracked ∧
      (start.build ts ft sc ies).1.wire.isAck = false := by
  constructor
  · rintro (h | ⟨h, hsub | hsub⟩)
    · exact hvoice h
    · exact (hiax h).1 hsub
    · exact (hiax h).2.1 hsub
  · rw [Header.isAck, Bool.and_eq_false_iff, decide_eq_false_iff_not, decide_eq_false_iff_not]
    by_cases h : ft = Frametype.iax
    · exact .inr (hiax h).2.2
    · exact .inl h

/-- A reaction to a frame, after the frame is noted. -/
theorem onFrame_leg (respond : String → String) (call : UInt16) (f : FullFrame) (ts : UInt32)
    (now : Instant) (c : CallLeg) :
    ¬ c.Spending (.frame f) ∧ (c.noted (.frame f)).Backs now
        (c.onFrame respond call f ts now).entry.leg (c.onFrame respond call f ts now).sent ∨
      c.Spending (.frame f) ∧ (c.noted (.frame f)).Spends
        (c.onFrame respond call f ts now).entry.leg (c.onFrame respond call f ts now).sent := by
  have hdir : (c.noteFrame f).dir = c.dir := rfl
  simp only [CallLeg.onFrame, CallLeg.Spending, hdir]
  cases f.callKind c.dir with
  | authreq =>
    left
    refine ⟨by simp, ?_⟩
    simp only
    split
    · exact .silent
    · split
      · exact .silent
      · exact .tracked _ _ _ _ (kind_of_literal _ _ _ _ _ (by decide) (by decide))
  | accept =>
    left
    refine ⟨by simp, ?_⟩
    simp only
    split <;> exact .acked _
  | lagrq =>
    right
    have kind : Iax.lagrp &&& 0x7F = Iax.lagrp := by decide
    exact ⟨.inl rfl, .untracked f.timestamp Frametype.iax Iax.lagrp [] (.inr ⟨rfl, .inl kind⟩)⟩
  | ping =>
    right
    have kind : Iax.pong &&& 0x7F = Iax.pong := by decide
    exact ⟨.inr rfl, .untracked f.timestamp Frametype.iax Iax.pong [] (.inr ⟨rfl, .inr kind⟩)⟩
  | ackPong =>
    left
    exact ⟨by simp, .silent⟩
  | lagrp =>
    left
    exact ⟨by simp, .silent⟩
  | _ =>
    left
    exact ⟨by simp, .acked _⟩

/-- A reaction backs the number it takes, unless the input is a spending one. -/
theorem reaction_leg (md5 : Md5) (s : PbxClient) (i : Invocation) (call : UInt16) (c : CallLeg)
    (x : CallInput) :
    ¬ c.Spending x ∧ (c.noted x).Backs i.now (s.reaction md5 i call c x).entry.leg
        (s.reaction md5 i call c x).sent ∨
      c.Spending x ∧ (c.noted x).Spends (s.reaction md5 i call c x).entry.leg
        (s.reaction md5 i call c x).sent := by
  cases x with
  | answer =>
    left
    refine ⟨id, ?_⟩
    simp only [reaction, CallLeg.answer]
    split
    · exact .tracked _ _ _ _ (kind_of_literal _ _ _ _ _ (by decide) (by decide))
    · exact .silent
  | hangup => exact .inl ⟨id, .tracked _ _ _ _ (kind_of_literal _ _ _ _ _ (by decide) (by decide))⟩
  | dtmf digit =>
    exact .inl ⟨id, .tracked _ _ _ _ (kind_of_literal _ _ _ _ _ (by decide)
      fun h => absurd h (by decide))⟩
  | hold hold =>
    exact .inl ⟨id, .tracked _ _ _ _ (kind_of_literal _ _ _ _ _ (by decide)
      fun h => absurd h (by decide))⟩
  | voice ulaw =>
    simp only [reaction, CallLeg.sendVoice, CallLeg.Spending]
    by_cases hup : c.state = .up
    · rw [if_neg (not_not.mpr hup)]
      cases hsent : c.sentFormat with
      | false => exact .inr ⟨⟨hup, rfl⟩, .untracked _ _ _ _ (.inl rfl)⟩
      | true => exact .inl ⟨by simp, .audio _⟩
    · rw [if_pos hup]
      exact .inl ⟨fun h => hup h.1, .silent⟩
  | mini m =>
    left
    refine ⟨id, ?_⟩
    simp only [reaction, CallLeg.onMini]
    split <;> exact .silent
  | token token =>
    exact .inl ⟨id, .tracked _ _ _ _ (kind_of_literal _ _ _ _ _ (by decide) (by decide))⟩
  | frame f => exact onFrame_leg _ _ _ _ _ _

/-- A new call backs the numbers it takes: one for a call we dial, two for a call we are offered. -/
theorem opened_leg (s : PbxClient) (i : Invocation) (call : UInt16) (o : Opening) :
    (∃ number, o = .dial number ∧ (Leg.new call).Backs i.now (s.opened i call o).entry.leg
        (s.opened i call o).sent) ∨
      ∃ f leg accept ringing, o = .incoming f ∧ (s.opened i call o).sent = [accept, ringing] ∧
        ((Leg.new call).noteRecv f).Backs i.now leg [accept] ∧
        leg.Backs i.now (s.opened i call o).entry.leg [ringing] := by
  cases o with
  | dial number =>
    exact .inl ⟨number, rfl, .tracked _ _ _ _ (kind_of_literal _ _ _ _ _ (by decide) (by decide))⟩
  | incoming f =>
    exact .inr ⟨f, _, _, _, rfl, rfl,
      .tracked _ _ _ _ (kind_of_literal _ _ _ _ _ (by decide) (by decide)),
      .tracked _ _ _ _ (kind_of_literal _ _ _ _ _ (by decide) (by decide))⟩

/-- Noting an input takes entries out of the window, and keeps the number of the leg. -/
theorem noted_subset (c : CallLeg) (x : CallInput) :
    (∀ o ∈ (c.noted x).outstanding, o ∈ c.leg.outstanding) ∧
      (c.noted x).localNo = c.leg.localNo := by
  cases x with
  | frame f => exact ⟨fun o ho => (List.mem_filter.mp ho).1, rfl⟩
  | token token => exact ⟨fun _ ho => absurd ho List.not_mem_nil, rfl⟩
  | _ => exact ⟨fun o ho => ho, rfl⟩

/-- After an input is noted, a live call still sends under its number. -/
theorem noted_src (wf : s.WellFormed) {k : UInt16} {c : CallLeg}
    (live : s.calls.lookup k = some c) (x : CallInput) :
    (c.noted x).localNo &&& callMask = k := by
  rw [(noted_subset c x).2]
  exact wf.src live

/-- A call is dropped by a hangup command, or by a peer that ends it, and then only an ACK is
sent. -/
theorem reaction_dropped {i : Invocation} {call : UInt16} {c : CallLeg} {x : CallInput}
    (h : (s.reaction md5 i call c x).kept = none) :
    x = .hangup ∨ ∃ f, x = .frame f ∧
      (f.callKind c.dir = .busy ∨ f.callKind c.dir = .hangup ∨ f.callKind c.dir = .reject) ∧
      (s.reaction md5 i call c x).sent = [(c.noted x).ackBytes (s.ts i.clock)] := by
  cases x with
  | hangup => exact .inl rfl
  | answer =>
    simp only [reaction, CallLeg.answer] at h
    split at h <;> cases h
  | voice ulaw =>
    simp only [reaction, CallLeg.sendVoice] at h
    split at h
    · cases h
    · split at h <;> cases h
  | mini m =>
    simp only [reaction, CallLeg.onMini] at h
    split at h <;> cases h
  | frame f =>
    refine .inr ⟨f, rfl, ?_⟩
    have hdir : (c.noteFrame f).dir = c.dir := rfl
    simp only [reaction, CallLeg.onFrame, hdir] at h ⊢
    cases hkind : f.callKind c.dir with
    | busy => exact ⟨.inl rfl, rfl⟩
    | hangup => exact ⟨.inr (.inl rfl), rfl⟩
    | reject => exact ⟨.inr (.inr rfl), rfl⟩
    | authreq =>
      simp only [hkind] at h
      split at h
      · cases h
      · split at h <;> cases h
    | accept =>
      simp only [hkind] at h
      split at h <;> cases h
    | _ =>
      simp only [hkind] at h
      cases h
  | _ => cases h

/-- A call that is dropped with a frame of its own on the way is hung up by command. -/
theorem hangup_of_dropped {i : Invocation} {call : UInt16} {c : CallLeg} {x : CallInput}
    (dropped : (s.reaction md5 i call c x).kept = none) {dg : Bytes}
    (hdg : dg ∈ (s.reaction md5 i call c x).sent) {hd : Header} (read : Header.read dg = some hd)
    (fresh : hd.isAck = false) : x = .hangup := by
  rcases reaction_dropped dropped with hangup | ⟨f, _, _, sent⟩
  · exact hangup
  · rw [sent] at hdg
    obtain rfl := List.mem_singleton.mp hdg
    rw [Leg.ackBytes_read] at read
    cases read
    rw [Leg.ackFrame_isAck] at fresh
    cases fresh

/-! ## Where a datagram leaves -/

/-- What a live call sends leaves under its number, for the first time. -/
theorem reaction_sent_header (wf : s.WellFormed) {call : UInt16} {c : CallLeg}
    (live : s.calls.lookup call = some c) {i : Invocation} {x : CallInput} {dg : Bytes}
    (hdg : dg ∈ (s.reaction md5 i call c x).sent) {hd : Header} (read : Header.read dg = some hd) :
    hd.srcCall = call ∧ hd.retransmit = false := by
  have localNo := noted_src wf live x
  rcases reaction_leg md5 s i call c x with ⟨_, backs⟩ | ⟨_, spends⟩
  · obtain ⟨src, fresh, _⟩ := backs.sent_header hdg read
    exact ⟨src.trans localNo, fresh⟩
  · obtain ⟨_, dg', hd', sent, read', src, fresh, _⟩ := spends.sent_header
    rw [sent] at hdg
    obtain rfl := List.mem_singleton.mp hdg
    cases read.symm.trans read'
    exact ⟨src.trans localNo, fresh⟩

/-- What a new call sends leaves under its number, for the first time, and is in its window. -/
theorem opened_sent_header {call : UInt16} (hin : InCycle call) {i : Invocation} {o : Opening}
    {dg : Bytes} (hdg : dg ∈ (s.opened i call o).sent) {hd : Header}
    (read : Header.read dg = some hd) :
    hd.srcCall = call ∧ hd.retransmit = false ∧
      (hd.isAck = false →
        ∃ out ∈ (s.opened i call o).entry.leg.outstanding, out.Entered i.now dg) := by
  rcases opened_leg s i call o with
    ⟨_, _, backs⟩ | ⟨f, leg, accept, ringing, _, sent, backs, backs'⟩
  · obtain ⟨src, fresh, _⟩ := backs.sent_header hdg read
    exact ⟨src.trans hin.masked, fresh, fun ack => backs.mem_of_sent hdg read ack⟩
  · rw [sent] at hdg
    rcases List.mem_cons.mp hdg with rfl | hdg
    · obtain ⟨src, fresh, _⟩ := backs.sent_header List.mem_cons_self read
      refine ⟨src.trans hin.masked, fresh, fun ack => ?_⟩
      obtain ⟨out, hout, entered⟩ := backs.mem_of_sent List.mem_cons_self read ack
      exact ⟨out, backs'.keeps hout, entered⟩
    · obtain ⟨src, fresh, _⟩ := backs'.sent_header hdg read
      have same : leg.localNo = call := backs.same.1
      rw [same] at src
      exact ⟨src.trans hin.masked, fresh, fun ack => backs'.mem_of_sent hdg read ack⟩

/-- A frame of the registration, the keepalive or a probe does not leave under a call number. -/
theorem Service.not_call (wf : s.WellFormed) {dg : Bytes} (h : s.Service dg) {hd : Header}
    (read : Header.read dg = some hd) (fresh : hd.retransmit = false) : ¬ InCycle hd.srcCall := by
  rcases h with ⟨f, rfl, hsrc⟩ | ⟨first, rfl⟩
  · rw [Header.read_encode] at read
    cases read
    show ¬ InCycle (f.srcCall &&& callMask)
    rcases hsrc with h | h | h
    · rw [h, wf.regNo]
      decide
    · rw [h]
      decide
    · have range := wf.qualifyNext
      rw [UInt16.le_iff_toNat_le, UInt16.le_iff_toNat_le] at range
      have lower : 0x2000 ≤ s.qualifyNext.toNat := range.1
      have upper : s.qualifyNext.toNat ≤ 0x2FFF := range.2
      rw [h, inCycle_iff, UInt16.toNat_and]
      show ¬ (16 ≤ s.qualifyNext.toNat &&& (2 ^ 15 - 1) ∧
        s.qualifyNext.toNat &&& (2 ^ 15 - 1) ≤ 8191)
      rw [Nat.and_two_pow_sub_one_eq_mod]
      omega
  · rw [Header.read_setRetransmit, Option.map_eq_some_iff] at read
    obtain ⟨_, _, rfl⟩ := read
    cases fresh

end PbxClient

end Iax2
