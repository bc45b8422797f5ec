import Iax2.Laws.Isolation
import Iax2.Laws.Numbering

/-!
# Numbers on the wire

The frames that leave on one leg, the registration leg or the leg of a call, in the order in which
they are queued (`sentOn`). Since the leg was made or reset last, the frames other than ACKs carry
0, 1, 2 and so on modulo 256, and every ACK carries the number that the next of them will use
(`inSequence_run`).

`InStep` ties the history to the leg: what has left is numbered without a gap, and the leg is about
to use the next number. Every way in which a leg sends keeps it, by `Leg.Backs` and `Leg.Spends`.
-/

namespace Iax2

/-! ## Sequences -/

/-- The frames that take a number. -/
def taken (frames : List Header) : Nat := frames.countP fun h => !h.isAck

/-- From the number `n` on, each frame that takes a number carries the next one, and each ACK
carries the one that is next. -/
def InSequence : Nat → List Header → Prop
  | _, [] => True
  | n, h :: rest => h.oseq = UInt8.ofNat n ∧ InSequence (if h.isAck then n else n + 1) rest

theorem InSequence.append {n : Nat} {frames : List Header} {h : Header}
    (before : InSequence n frames) (next : h.oseq = UInt8.ofNat (n + taken frames)) :
    InSequence n (frames ++ [h]) := by
  induction frames generalizing n with
  | nil => exact ⟨next, trivial⟩
  | cons g rest ih =>
    obtain ⟨number, before⟩ := before
    refine ⟨number, ih before ?_⟩
    rw [next]
    congr 1
    simp only [taken, List.countP_cons]
    cases g.isAck with
    | true => simp
    | false =>
      simp
      omega

/-- The frames that leave on the leg `k` for the first time, ACKs included. -/
def outgoing (k : UInt16) (sent : List Bytes) : List Header :=
  (sent.filterMap Header.read).filter fun h => h.srcCall = k && !h.retransmit

theorem outgoing_append (k : UInt16) (sent sent' : List Bytes) :
    outgoing k (sent ++ sent') = outgoing k sent ++ outgoing k sent' := by
  simp only [outgoing, List.filterMap_append, List.filter_append]

theorem outgoing_eq_nil {k : UInt16} {sent : List Bytes}
    (h : ∀ dg ∈ sent, ∀ hd, Header.read dg = some hd → hd.retransmit = false → hd.srcCall ≠ k) :
    outgoing k sent = [] := by
  refine List.filter_eq_nil_iff.mpr fun hd hhd => ?_
  obtain ⟨dg, hdg, read⟩ := List.mem_filterMap.mp hhd
  simp only [Bool.and_eq_true, decide_eq_true_eq, Bool.not_eq_true', not_and]
  intro src first
  exact h dg hdg hd read first src

theorem outgoing_one {k : UInt16} {dg : Bytes} {hd : Header} (read : Header.read dg = some hd)
    (src : hd.srcCall = k) (first : hd.retransmit = false) : outgoing k [dg] = [hd] := by
  simp only [outgoing, List.filterMap_cons, read, List.filterMap_nil, List.filter_cons, src, first,
    decide_true, Bool.not_false, Bool.and_self, if_true, List.filter_nil]

/-- The frames have left in sequence, and the leg is about to use the next number. -/
structure InStep (frames : List Header) (l : Leg) : Prop where
  inSequence : InSequence 0 frames
  next : l.oseq = UInt8.ofNat (taken frames)

section

variable {frames : List Header} {l l' : Leg} {k : UInt16} {now : Instant} {sent : List Bytes}

theorem InStep.start (oseq : l.oseq = 0) : InStep [] l := ⟨trivial, oseq⟩

theorem InStep.same (h : InStep frames l) (oseq : l'.oseq = l.oseq) : InStep frames l' :=
  ⟨h.inSequence, oseq.trans h.next⟩

/-- One more frame leaves with the number of the leg, and takes it unless it is an ACK. -/
theorem InStep.sends (h : InStep frames l) {hd : Header} (number : hd.oseq = l.oseq)
    (oseq : l'.oseq = if hd.isAck then l.oseq else l.oseq + 1) : InStep (frames ++ [hd]) l' where
  inSequence := h.inSequence.append (by rw [number, h.next, Nat.zero_add])
  next := by
    rw [oseq, h.next]
    simp only [taken, List.countP_append, List.countP_singleton]
    cases hd.isAck with
    | true => rfl
    | false => exact (UInt8.ofNat_add _ 1).symm

theorem InStep.backs (h : InStep frames l) (backs : l.Backs now l' sent)
    (src : l.localNo &&& callMask = k) : InStep (frames ++ outgoing k sent) l' := by
  cases backs with
  | silent => exact (List.append_nil frames).symm ▸ h
  | acked ts =>
    rw [outgoing_one (Leg.ackBytes_read l ts) src rfl]
    exact h.sends rfl (by rw [Leg.ackFrame_isAck, if_pos rfl])
  | audio m =>
    rw [outgoing_eq_nil, List.append_nil]
    · exact h
    · intro dg hdg hd read
      obtain rfl := List.mem_singleton.mp hdg
      rw [Header.read_mini] at read
      cases read
  | tracked ts ft sc ies kind =>
    have read := Header.read_encode (l.build ts ft sc ies).1
    rw [outgoing_one read src rfl]
    exact h.sends rfl (by rw [kind.2]; rfl)

theorem InStep.spends (h : InStep frames l) (spends : l.Spends l' sent)
    (src : l.localNo &&& callMask = k) : InStep (frames ++ outgoing k sent) l' := by
  cases spends with
  | untracked ts ft sc payload kind =>
    have read := Header.read_encodeMedia (l.build ts ft sc []).1 payload
    rw [outgoing_one read src rfl]
    exact h.sends rfl (by rw [kind.not_ack]; rfl)

end

namespace PbxClient

variable {s s' : PbxClient} {md5 : Md5}

/-! ## The history of a leg -/

/-- The step resets the registration leg: it starts a registration, or repeats its request with a
call token. -/
def Move.restartsReg (t : Move) : Bool :=
  match t.label.op with
  | .handleTimeout => t.pre.reg.outstanding = [] ∧ t.pre.nextReg ≤ t.label.now
  | .handleInput dg =>
    match (FullFrame.decode dg).map t.pre.route with
    | some (.regToken _) => true
    | _ => false
  | _ => false

/-- The step makes or resets the leg `k`. -/
def Move.restarts (k : UInt16) (t : Move) : Bool :=
  if k = callnoReg then t.restartsReg else t.starts k

/-- The frames that have left on the leg `k` since it was made or reset, oldest first. -/
def sentOn (k : UInt16) : List Move → List Header
  | [] => []
  | t :: past => (if t.restarts k then [] else sentOn k past) ++ outgoing k t.pushed

/-! ## Calls -/

section

variable {i : Invocation} {k : UInt16} {past : List Move}

theorem restarts_call (hin : InCycle k) (t : Move) : t.restarts k = t.starts k :=
  if_neg hin.ne_reg

/-- A step that does not reach a call adds nothing to the history of its leg. -/
theorem sentOn_elsewhere (wf : s.WellFormed) (step : s.Outcome md5 i s') (hin : InCycle k)
    (notCall : ∀ x, s.target i.op ≠ .call k x)
    (notOpened : ∀ o, s.target i.op = .opening o → k ≠ s.allocCallno.1) :
    sentOn k (⟨s, i, s'⟩ :: past) = sentOn k past := by
  have goes : Move.starts k ⟨s, i, s'⟩ = false := starts_elsewhere notCall notOpened
  have none : outgoing k (Move.pushed ⟨s, i, s'⟩) = [] :=
    outgoing_eq_nil fun _ hdg _ read first =>
      first_elsewhere notCall notOpened wf step hin hdg read first
  rw [sentOn, restarts_call hin, goes, none, List.append_nil, if_neg Bool.false_ne_true]

/-- What a call sends in reaction is in step with the leg that the reaction leaves. -/
theorem inStep_reaction (wf : s.WellFormed) (step : s.Outcome md5 i s') {c : CallLeg}
    {x : CallInput} (live : s.calls.lookup k = some c) (target : s.target i.op = .call k x)
    (h : InStep (sentOn k past) c.leg) :
    InStep (sentOn k (⟨s, i, s'⟩ :: past)) (s.reaction md5 i k c x).entry.leg := by
  have hin : InCycle k := wf.live_inCycle live
  have goes : Move.starts k ⟨s, i, s'⟩ = x.resets := by
    simp only [Move.starts, target, decide_true, Bool.true_and]
  have pushed : Move.pushed ⟨s, i, s'⟩ = (s.reaction md5 i k c x).sent := step.sent live target
  have src := noted_src wf live x
  have start : InStep (if x.resets then [] else sentOn k past) (c.noted x) := by
    cases x with
    | token token => exact .start rfl
    | frame f => exact h.same rfl
    | _ => exact h
  rw [sentOn, restarts_call hin, goes, pushed]
  rcases reaction_leg md5 s i k c x with ⟨_, backs⟩ | ⟨_, spends⟩
  · exact start.backs backs src
  · exact start.spends spends src

/-- A new call starts in step. -/
theorem inStep_opened (wf : s.WellFormed) (step : s.Outcome md5 i s') {o : Opening}
    (target : s.target i.op = .opening o) (number : k = s.allocCallno.1) :
    InStep (sentOn k (⟨s, i, s'⟩ :: past)) (s.opened i k o).entry.leg := by
  subst number
  have hin := (inCycle_allocCallno wf.callnoNext).1
  have goes : Move.starts s.allocCallno.1 ⟨s, i, s'⟩ = true := by
    simp only [Move.starts, target, decide_true]
  have pushed : Move.pushed ⟨s, i, s'⟩ = (s.opened i s.allocCallno.1 o).sent :=
    (step.to_opened target).sent
  rw [sentOn, restarts_call hin, goes, pushed, if_pos rfl, List.nil_append]
  rcases opened_leg s i s.allocCallno.1 o with
    ⟨_, _, backs⟩ | ⟨f, leg, accept, ringing, _, sent, backs, backs'⟩
  · exact (InStep.start rfl).backs backs hin.masked
  · have first : InStep (outgoing s.allocCallno.1 [accept]) leg :=
      (InStep.start rfl).backs backs hin.masked
    have src : leg.localNo &&& callMask = s.allocCallno.1 := backs.src.trans hin.masked
    rw [sent, show [accept, ringing] = [accept] ++ [ringing] from rfl, outgoing_append]
    exact first.backs backs' src

end

/-- What is known of the number `k` of a call: the frames have left in sequence, and the leg of a
live call goes on with the next number. -/
structure CallInStep (k : UInt16) (past : List Move) (s : PbxClient) : Prop where
  inSequence : InSequence 0 (sentOn k past)
  live : ∀ c, s.calls.lookup k = some c → InStep (sentOn k past) c.leg

theorem callInStep_step {i : Invocation} {k : UInt16} {past : List Move} (wf : s.WellFormed)
    (step : s.Outcome md5 i s') (hin : InCycle k) (h : CallInStep k past s) :
    CallInStep k (⟨s, i, s'⟩ :: past) s' where
  inSequence := by
    by_cases call : ∃ x, s.target i.op = .call k x
    · obtain ⟨x, target⟩ := call
      obtain ⟨c, live⟩ := Table.mem_iff_lookup.mp (target_eq_call target).1
      exact (inStep_reaction wf step live target (h.live c live)).inSequence
    · by_cases opened : ∃ o, s.target i.op = .opening o ∧ k = s.allocCallno.1
      · obtain ⟨o, target, number⟩ := opened
        exact (inStep_opened wf step target number).inSequence
      · rw [sentOn_elsewhere wf step hin (fun x target => call ⟨x, target⟩)
          fun o target number => opened ⟨o, target, number⟩]
        exact h.inSequence
  live := by
    intro c' live'
    cases step.entryStep live' with
    | kept live _ notCall notOpened =>
      rw [sentOn_elsewhere wf step hin notCall notOpened]
      exact h.live c' live
    | aged live target _ entry =>
      subst entry
      rw [sentOn_elsewhere wf step hin (by simp [target]) (by simp [target])]
      exact (h.live _ live).same rfl
    | reacted live target stays =>
      rw [Reaction_kept_some stays]
      exact inStep_reaction wf step live target (h.live _ live)
    | opened target number entry =>
      subst entry
      exact inStep_opened wf step target number

/-! ## The registration -/

theorem restartsReg_cases {t : Move} (h : t.restartsReg = true) :
    t.label.op = .handleTimeout ∨
      ∃ dg f token, t.label.op = .handleInput dg ∧ FullFrame.decode dg = some f ∧
        t.pre.route f = .regToken token := by
  unfold Move.restartsReg at h
  split at h
  next op => exact .inl op
  next dg op =>
    split at h
    next token found =>
      obtain ⟨f, decoded, route⟩ := Option.map_eq_some_iff.mp found
      exact .inr ⟨dg, f, token, op, decoded, route⟩
    next => cases h
  next => cases h

/-- A step that leaves the registration alone does not reset its leg. -/
theorem restartsReg_untouched {i : Invocation} (step : Step md5 s i s')
    (op : i.op ≠ .handleTimeout) (same : s'.calltoken = s.calltoken) :
    Move.restartsReg ⟨s, i, s'⟩ = false := by
  refine Bool.eq_false_iff.mpr fun h => ?_
  rcases restartsReg_cases h with timeout | ⟨dg, f, token, hop, decoded, route⟩
  · exact op timeout
  · have effect : s' = s.resendRegWithToken token i.now i.clock := by
      cases step with
      | call _ =>
        rw [apply_full decoded (.inl hop), onFull]
        rw [route]
      | rehash rehash _ => cases hop.symm.trans rehash
    obtain ⟨_, _, _, ⟨_, noToken, _⟩ | ⟨_, _, _, _, _, _, hr⟩⟩ :=
      tokenRoute_some (tokenRoute_of_route route (.inl ⟨token, rfl⟩))
    · rw [effect, noToken] at same
      cases same
    · cases hr

/-- A POKE or a copy leaves nothing on the registration leg for the first time. -/
private theorem outgoing_timeout {poke copies : List Bytes}
    (hpoke : ∀ dg ∈ poke, Pokes dg) (hcopies : ∀ dg ∈ copies, ∃ first, dg = setRetransmit first) :
    outgoing callnoReg (poke ++ copies) = [] := by
  refine outgoing_eq_nil fun dg hdg hd read first => ?_
  rcases List.mem_append.mp hdg with hdg | hdg
  · exact (hpoke dg hdg).srcCall read
  · obtain ⟨original, rfl⟩ := hcopies dg hdg
    rw [retransmit_of_copy read] at first
    cases first

/-- The copies that a timeout sends, on the registration leg and for the calls. -/
private theorem timeout_copies (s : PbxClient) (now : Instant) :
    ∀ dg ∈ (expire now s.reg.outstanding).copies ++ s.callCopies now,
      ∃ first, dg = setRetransmit first := by
  intro dg hdg
  rcases List.mem_append.mp hdg with hdg | hdg
  · obtain ⟨o, _, rfl⟩ := expire_copies now _ dg hdg
    exact ⟨_, rfl⟩
  · obtain ⟨_, _, _, o, _, rfl⟩ := callCopies_entries hdg
    exact ⟨_, rfl⟩

/-- A timeout starts the registration leg again, with its first request, or leaves it in step. -/
theorem regInStep_timeout {i : Invocation} {past : List Move} (wf : s.WellFormed)
    (op : i.op = .handleTimeout) (effect : s' = s.handleTimeout i.now i.clock)
    (h : InStep (sentOn callnoReg past) s.reg) :
    InStep (sentOn callnoReg (⟨s, i, s'⟩ :: past)) s'.reg := by
  have goes : Move.restarts callnoReg ⟨s, i, s'⟩ =
      decide (s.reg.outstanding = [] ∧ s.nextReg ≤ i.now) := by
    simp only [Move.restarts, Move.restartsReg, op, if_true]
  have copied := timeout_copies s i.now
  subst effect
  rw [sentOn, goes]
  obtain ⟨poke, hpoke, ⟨fires, hreg, sent⟩ | ⟨waits, hreg, sent⟩⟩ :=
    handleTimeout_reg s i.now i.clock
  · have request : s.reg.reset.Backs i.now (s.startRegistration i.now i.clock).reg
        [(s.freshRequest i.clock).encode] :=
      .tracked _ _ _ _ (kind_of_literal _ _ _ _ _ (by decide) (by decide))
    have later : outgoing callnoReg (poke ++ s.callCopies i.now) = [] :=
      outgoing_timeout hpoke fun dg hdg => copied dg (List.mem_append_right _ hdg)
    rw [decide_eq_true fires, if_pos rfl, Move.pushed, sent, hreg, List.append_assoc,
      outgoing_append, later, List.append_nil]
    exact (InStep.start rfl).backs request wf.regSrc
  · rw [decide_eq_false waits, if_neg Bool.false_ne_true, Move.pushed, sent, List.append_assoc,
      outgoing_timeout hpoke copied, List.append_nil, hreg]
    exact h.same rfl

theorem regInStep_step {i : Invocation} {past : List Move} (wf : s.WellFormed)
    (step : Step md5 s i s') (h : InStep (sentOn callnoReg past) s.reg) :
    InStep (sentOn callnoReg (⟨s, i, s'⟩ :: past)) s'.reg := by
  have restarts : Move.restarts callnoReg ⟨s, i, s'⟩ = Move.restartsReg ⟨s, i, s'⟩ := if_pos rfl
  cases step.reg wf with
  | untouched op effect =>
    rw [sentOn, restarts, restartsReg_untouched step op effect.same.calltoken, outgoing_eq_nil,
      List.append_nil, effect.same.reg]
    · exact h
    · intro dg hdg hd read _
      exact effect.sent dg hdg hd read
  | @token dg f token op decoded route effect =>
    have goes : Move.restartsReg ⟨s, i, s'⟩ = true := by
      simp only [Move.restartsReg, op, decoded, Option.map_some, route]
    subst effect
    rw [sentOn, restarts, goes, if_pos rfl]
    exact (InStep.start rfl).backs (resendRegWithToken_leg ..) wf.regSrc
  | @frame dg f op decoded route effect =>
    have goes : Move.restartsReg ⟨s, i, s'⟩ = false := by
      simp only [Move.restartsReg, op, decoded, Option.map_some, route]
    subst effect
    rw [sentOn, restarts, goes, if_neg Bool.false_ne_true]
    have noted : InStep (sentOn callnoReg past)
        ((s.reg.noteRecv f).ackUpto f.iseq f.timestamp f.isAck) := h.same rfl
    exact noted.backs (onRegFrame_leg ..) wf.regSrc
  | timeout op effect => exact regInStep_timeout wf op effect h

/-! ## Every run -/

theorem inStep_run {cfg : Config} {past : List Move} (run : (system md5 cfg).Run past s) :
    InStep (sentOn callnoReg past) s.reg ∧ ∀ k, InCycle k → CallInStep k past s := by
  induction run with
  | start init =>
    obtain ⟨now, rfl⟩ := init
    exact ⟨.start rfl, fun k _ => ⟨trivial, fun c live => by cases live⟩⟩
  | step run step ih =>
    have wf := wellFormed_run run
    exact ⟨regInStep_step wf step ih.1, fun k hin =>
      callInStep_step wf (Step.outcome step) hin (ih.2 k hin)⟩

/-- In every run the frames of every leg leave in sequence: since the leg was made or reset last,
the frames other than ACKs carry 0, 1, 2 and so on modulo 256, in the order in which they are
queued, and every ACK carries the number that the next of them will use. -/
theorem inSequence_run {cfg : Config} {past : List Move} (run : (system md5 cfg).Run past s)
    {k : UInt16} (leg : k = callnoReg ∨ InCycle k) : InSequence 0 (sentOn k past) := by
  rcases leg with rfl | hin
  · exact (inStep_run run).1.inSequence
  · exact ((inStep_run run).2 k hin).inSequence

/-- An incoming call that is answered, takes a digit and hangs up: ACCEPT, RINGING, ANSWER, the ACK
of the digit, HANGUP. -/
theorem inSequence_sample :
    InSequence 0 (sentOn 16 (Sample.trace [Sample.receive Sample.newCall,
      Sample.command (.answer 16), Sample.receive (Sample.frame 120 1 3 Frametype.dtmf 53),
      Sample.command (.hangup 16)])) :=
  inSequence_run (Sample.run _ (by decide)) (.inr (by decide))

end PbxClient

end Iax2
