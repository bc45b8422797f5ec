import Iax2.Laws.Reliable
import Iax2.Laws.Sessions

/-!
# Retransmission

The two retransmission loops, over a run. `Life` is the history of one entry of a window: it is
entered when its frame leaves for the first time, and every time it is found due it leaves once
more, until it is released. Whatever the driver passes as instants, an entry leaves at most six
times, no two of them within 700 ms, and always with the same bytes up to the R bit. A leg is given
up only for an entry that has left six times and is due again (`retransmission_run`).
-/

namespace Iax2

/-- The leg that is given up with the event. -/
def Event.givesUp : Event → Option UInt16
  | .ended call reason => if reason = "reliability timeout" then some call else none
  | .registerLost reason => if reason = "no ACK after retransmissions" then some callnoReg else none
  | _ => none

namespace PbxClient

variable {s s' : PbxClient} {md5 : Md5} {k : UInt16} {t : Move} {past : List Move} {o : Outstanding}
  {sent : List Instant}

/-! ## Lives -/

/-- The entry `o` of the window of the leg `k` has left at the instants `sent`, newest first. The
last of them is its first transmission, the others are the copies. It was in the window all the
time. Entries that are equal in every field go on alike, so a life is that of a value. -/
inductive Life (k : UInt16) : List Move → Outstanding → List Instant → Prop
  | entered {t : Move} {past : List Move} {o : Outstanding} (tracks : Tracks k o.bytes t)
      (entered : o.Entered t.label.now o.bytes) (after : o ∈ t.post.window k) :
      Life k (t :: past) o [t.label.now]
  | stays {t : Move} {past : List Move} {o : Outstanding} {sent : List Instant}
      (life : Life k past o sent) (before : o ∈ t.pre.window k) (after : o ∈ t.post.window k) :
      Life k (t :: past) o sent
  | resent {t : Move} {past : List Move} {o : Outstanding} {sent : List Instant}
      (life : Life k past o sent) (before : o ∈ t.pre.window k) (op : t.label.op = .handleTimeout)
      (due : o.Due t.label.now) (copied : setRetransmit o.bytes ∈ t.pushed) :
      Life k (t :: past) (o.resent t.label.now) (t.label.now :: sent)

/-- The counter of the entry counts the copies, there are at most `RETX_MAX` of them, and no two
transmissions are within `RETX_AFTER`. -/
structure Paced (o : Outstanding) (sent : List Instant) : Prop where
  count : sent.length = o.tries + 1
  bound : o.tries ≤ retxMax
  spaced : sent.Pairwise fun later earlier => earlier + retxAfter ≤ later
  waits : ∀ x ∈ sent, x + retxAfter ≤ o.deadline

theorem Life.paced (life : Life k past o sent) : Paced o sent := by
  induction life with
  | entered _ entered _ =>
    refine ⟨?_, ?_, List.pairwise_singleton _ _, fun x hx => ?_⟩
    · rw [entered.tries]
      rfl
    · rw [entered.tries]
      exact Nat.zero_le _
    · obtain rfl := List.mem_singleton.mp hx
      exact Nat.le_of_eq entered.deadline.symm
  | stays _ _ _ ih => exact ih
  | resent _ _ _ due _ ih =>
    have earlier (x) (hx : x ∈ _) : x + retxAfter ≤ _ := (ih.waits x hx).trans due.1
    refine ⟨?_, due.2, List.pairwise_cons.mpr ⟨earlier, ih.spaced⟩, fun x hx => ?_⟩
    · rw [List.length_cons, ih.count]
      rfl
    · rcases List.mem_cons.mp hx with rfl | hx
      · exact Nat.le_refl _
      · exact (earlier x hx).trans (Nat.le_add_right _ _)

/-- The bytes of an entry are those of its first transmission. -/
theorem Life.first (life : Life k past o sent) :
    ∃ t ∈ past, Tracks k o.bytes t ∧ sent.getLast? = some t.label.now := by
  induction life with
  | @entered t past o tracks _ _ => exact ⟨t, List.mem_cons_self, tracks, rfl⟩
  | stays _ _ _ ih =>
    obtain ⟨t, ht, tracks, last⟩ := ih
    exact ⟨t, List.mem_cons_of_mem _ ht, tracks, last⟩
  | resent _ _ _ _ _ ih =>
    obtain ⟨t, ht, tracks, last⟩ := ih
    refine ⟨t, List.mem_cons_of_mem _ ht, tracks, ?_⟩
    rw [List.getLast?_cons, last]
    rfl

/-- An entry is a frame whose header has the R bit clear. -/
theorem Life.reads (life : Life k past o sent) :
    ∃ hd, Header.read o.bytes = some hd ∧ hd.retransmit = false := by
  obtain ⟨_, _, tracks, _⟩ := life.first
  obtain ⟨hd, read, _, first, _⟩ := tracks.header
  exact ⟨hd, read, first⟩

/-! ## Where an entry comes from -/

/-- Where an entry of the window of the leg `k` after a step comes from. -/
inductive Origin (k : UInt16) (o : Outstanding) (t : Move) : Prop
  | entered (tracks : Tracks k o.bytes t) (entered : o.Entered t.label.now o.bytes)
  | stays (before : o ∈ t.pre.window k)
  | resent {first : Outstanding} (before : first ∈ t.pre.window k)
      (op : t.label.op = .handleTimeout) (due : first.Due t.label.now)
      (same : o = first.resent t.label.now)

/-- What a pass of the retransmission loop leaves in a window. -/
theorem Origin.of_aged {i : Invocation} (op : i.op = .handleTimeout) {w : List Outstanding}
    (hw : ∀ o ∈ w, o ∈ s.window k) (ho : o ∈ w.map (·.aged i.now)) : Origin k o ⟨s, i, s'⟩ := by
  obtain ⟨first, hfirst, rfl⟩ := List.mem_map.mp ho
  unfold Outstanding.aged
  split
  next due => exact .resent (hw first hfirst) op due rfl
  next => exact .stays (hw first hfirst)

/-- What a leg that sends leaves in its window. -/
theorem Origin.of_backs {i : Invocation} {start leg : Leg} {dgs : List Bytes}
    (backs : start.Backs i.now leg dgs) (hk : k = callnoReg ∨ InCycle k)
    (src : start.localNo &&& callMask = k) (sends : ∀ dg ∈ dgs, dg ∈ s.pushed s')
    (before : ∀ o ∈ start.outstanding, Origin k o ⟨s, i, s'⟩) (ho : o ∈ leg.outstanding) :
    Origin k o ⟨s, i, s'⟩ := by
  rcases backs.origin ho with h | ⟨hdg, entered, hd, read, hsrc, first, ack, kind⟩
  · exact before o h
  · exact .entered ⟨hk, sends _ hdg, hd, read, hsrc.trans src, first, ack, kind⟩ entered

theorem reg_origin {i : Invocation} (wf : s.WellFormed) (step : Step md5 s i s')
    (ho : o ∈ s'.window callnoReg) : Origin callnoReg o ⟨s, i, s'⟩ := by
  have src := wf.regSrc
  rw [window_reg] at ho
  cases step.reg wf with
  | untouched _ effect =>
    rw [effect.same.reg, ← window_reg] at ho
    exact .stays ho
  | token _ _ _ effect =>
    subst effect
    exact .of_backs (resendRegWithToken_leg ..) (.inl rfl) src (fun _ h => h)
      (fun _ h => absurd h List.not_mem_nil) ho
  | frame _ _ _ effect =>
    subst effect
    refine .of_backs (onRegFrame_leg ..) (.inl rfl) src (fun _ h => h) (fun o h => .stays ?_) ho
    show o ∈ s.window callnoReg
    rw [window_reg]
    exact (List.mem_filter.mp h).1
  | timeout op effect =>
    subst effect
    obtain ⟨_, _, ⟨_, hreg, hsent⟩ | ⟨_, hreg, _⟩⟩ := handleTimeout_reg s i.now i.clock
    · rw [hreg] at ho
      refine .of_backs (startRegistration_leg ..) (.inl rfl) src (fun dg hdg => ?_)
        (fun _ h => absurd h List.not_mem_nil) ho
      rw [hsent]
      exact List.mem_append_left _ (List.mem_append_left _ hdg)
    · rw [hreg] at ho
      simp only at ho
      split at ho
      next => cases ho
      next => exact .of_aged op (fun o h => by rwa [window_reg]) ho

theorem call_origin {i : Invocation} (wf : s.WellFormed) (step : s.Outcome md5 i s')
    (hin : InCycle k) (ho : o ∈ s'.window k) : Origin k o ⟨s, i, s'⟩ := by
  obtain ⟨c', hc', hmem⟩ := mem_window hin.ne_reg ho
  have before {c : CallLeg} (hc : s.calls.lookup k = some c) {o : Outstanding}
      (h : o ∈ c.leg.outstanding) : o ∈ s.window k := by
    rw [window_call hin.ne_reg hc]
    exact h
  have same (h : s'.calls.lookup k = s.calls.lookup k) : Origin k o ⟨s, i, s'⟩ :=
    .stays (before (h.symm.trans hc') hmem)
  cases step with
  | quiet _ effect => exact same (effect.calls k)
  | @touched call x c _ live effect =>
    by_cases hk : k = call
    · subst hk
      rw [effect.calls, if_pos rfl] at hc'
      rw [Reaction_kept_some hc'] at hmem
      have src := noted_src wf live x
      have noted (o) (h : o ∈ (c.noted x).outstanding) : Origin k o ⟨s, i, s'⟩ :=
        .stays (before live ((noted_subset c x).1 o h))
      rcases reaction_leg md5 s i k c x with ⟨_, backs⟩ | ⟨_, spends⟩
      · exact .of_backs backs (.inr hin) src (fun dg hdg => by rwa [effect.sent]) noted hmem
      · rw [spends.sent_header.1] at hmem
        exact noted o hmem
    · exact same ((effect.calls k).trans (if_neg hk))
  | @opened op _ effect =>
    by_cases hk : k = s.allocCallno.1
    · rw [effect.calls, if_pos hk] at hc'
      cases hc'
      rw [← hk] at hmem effect
      have fresh (o) (h : o ∈ (Leg.new k).outstanding) : Origin k o ⟨s, i, s'⟩ :=
        absurd h List.not_mem_nil
      rcases opened_leg s i k op with
        ⟨_, _, backs⟩ | ⟨f, leg, accept, ringing, _, two, backs, backs'⟩
      · exact .of_backs backs (.inr hin) hin.masked (fun dg hdg => by rwa [effect.sent]) fresh hmem
      · have sends : s.pushed s' = [accept, ringing] := effect.sent.trans two
        have src : leg.localNo &&& callMask = k := backs.src.trans hin.masked
        refine .of_backs backs' (.inr hin) src (fun dg hdg => ?_) (fun o h => ?_) hmem
        · rw [sends]
          exact List.mem_cons_of_mem _ hdg
        · refine .of_backs backs (.inr hin) hin.masked (fun dg hdg => ?_) fresh h
          obtain rfl := List.mem_singleton.mp hdg
          rw [sends]
          exact List.mem_cons_self
    · exact same ((effect.calls k).trans (if_neg hk))
  | expired target effect =>
    rw [effect.calls, Option.bind_eq_some_iff] at hc'
    obtain ⟨c, hc, survives⟩ := hc'
    obtain ⟨_, rfl⟩ := survivor_eq_some.mp survives
    have hmem : o ∈ (expire i.now c.leg.outstanding).window := hmem
    rw [expire_eq] at hmem
    exact .of_aged (op_of_timeout target) (fun o h => before hc h) hmem

/-- Every entry of a window has a life. -/
theorem lives_run {cfg : Config} {past : List Move} (run : (system md5 cfg).Run past s) :
    ∀ k, ∀ o ∈ s.window k, ∃ sent, Life k past o sent := by
  induction run with
  | start init =>
    obtain ⟨now, rfl⟩ := init
    intro k o ho
    by_cases hk : k = callnoReg
    · rw [hk, window_reg] at ho
      cases ho
    · obtain ⟨_, hc, _⟩ := mem_window hk ho
      cases hc
  | @step past s s' i run step ih =>
    intro k o ho
    have wf := wellFormed_run run
    have origin : Origin k o ⟨s, i, s'⟩ := by
      by_cases hk : k = callnoReg
      · subst hk
        exact reg_origin wf step ho
      · obtain ⟨c, hc, _⟩ := mem_window hk ho
        have hin := (wellFormed_run (run.step step)).live_inCycle hc
        exact call_origin wf (Step.outcome step) hin ho
    cases origin with
    | entered tracks entered => exact ⟨_, .entered tracks entered ho⟩
    | stays before =>
      obtain ⟨sent, life⟩ := ih k o before
      exact ⟨sent, .stays life before ho⟩
    | @resent first before op due same =>
      subst same
      obtain ⟨sent, life⟩ := ih k first before
      exact ⟨_, .resent life before op due (due_copied wf step op before due)⟩

/-! ## The copies of a step -/

/-- The datagrams of the transition that have the R bit. -/
def Move.resends (t : Move) : List Bytes :=
  t.pushed.filter fun dg => (Header.read dg).any (·.retransmit)

/-- The entries of all windows. -/
def allOutstanding (s : PbxClient) : List Outstanding :=
  s.reg.outstanding ++ s.calls.entries.flatMap (·.2.leg.outstanding)

/-- The copies of the entries that are due. -/
def dueCopies (now : Instant) (w : List Outstanding) : List Bytes :=
  (w.filter (·.Due now)).map fun o => setRetransmit o.bytes

theorem callCopies_eq (s : PbxClient) (now : Instant) :
    s.callCopies now = dueCopies now (s.calls.entries.flatMap (·.2.leg.outstanding)) := by
  rw [dueCopies, List.filter_flatMap, List.map_flatMap, callCopies]
  simp only [expire_eq]

theorem dueCopies_append (now : Instant) (w w' : List Outstanding) :
    dueCopies now (w ++ w') = dueCopies now w ++ dueCopies now w' := by
  simp only [dueCopies, List.filter_append, List.map_append]

/-- What leaves for the first time is no copy. -/
theorem resends_fresh {dgs : List Bytes}
    (h : ∀ dg ∈ dgs, ∀ hd, Header.read dg = some hd → hd.retransmit = false) :
    dgs.filter (fun dg => (Header.read dg).any (·.retransmit)) = [] := by
  refine List.filter_eq_nil_iff.mpr fun dg hdg copy => ?_
  obtain ⟨hd, read, copy⟩ := (Option.any_eq_true _ _).mp copy
  rw [h dg hdg hd read] at copy
  cases copy

/-- The copies of frames are copies. -/
theorem resends_copies (now : Instant) {w : List Outstanding}
    (h : ∀ o ∈ w, ∃ hd, Header.read o.bytes = some hd) :
    (dueCopies now w).filter (fun dg => (Header.read dg).any (·.retransmit)) = dueCopies now w := by
  refine List.filter_eq_self.mpr fun dg hdg => ?_
  obtain ⟨o, ho, rfl⟩ := List.mem_map.mp hdg
  obtain ⟨hd, read⟩ := h o (List.mem_filter.mp ho).1
  rw [Header.read_setRetransmit, read]
  rfl

theorem Pokes.first {dg : Bytes} (h : Pokes dg) {hd : Header} (read : Header.read dg = some hd) :
    hd.retransmit = false := by
  obtain ⟨f, rfl, _, first⟩ := h
  rw [Header.read_encode] at read
  cases read
  exact first

/-- Every entry is in the window of its leg. -/
theorem mem_allOutstanding (wf : s.WellFormed) (ho : o ∈ s.allOutstanding) :
    ∃ k, o ∈ s.window k := by
  rcases List.mem_append.mp ho with ho | ho
  · exact ⟨callnoReg, by rwa [window_reg]⟩
  · obtain ⟨⟨k, c⟩, he, ho⟩ := List.mem_flatMap.mp ho
    have hc := Table.mem_entries_iff.mp he
    refine ⟨k, ?_⟩
    rw [window_call (wf.live_inCycle hc).ne_reg hc]
    exact ho

/-- Outside a timeout nothing is sent with the R bit. -/
theorem first_outside_timeout {i : Invocation} (wf : s.WellFormed) (step : Step md5 s i s')
    (op : i.op ≠ .handleTimeout) {dg : Bytes} (hdg : dg ∈ s.pushed s') {hd : Header}
    (read : Header.read dg = some hd) : hd.retransmit = false := by
  cases step.arm with
  | silent _ effect =>
    rw [effect.pushed] at hdg
    cases hdg
  | @qualify _ f _ _ _ _ effect =>
    subst effect
    have one : s.pushed (s.onQualify f) = [_] := pushed_append rfl
    rw [one] at hdg
    obtain rfl := List.mem_singleton.mp hdg
    rw [Header.read_encode] at read
    cases read
    rfl
  | @offLeg f _ effect =>
    have silent : s.pushed (s.onOffLeg f) = [] := by
      rcases s.onOffLeg_reports f with h | ⟨_, h⟩ <;> rw [h] <;> exact pushed_same rfl
    rw [effect, silent] at hdg
    cases hdg
  | regToken _ _ _ _ effect =>
    subst effect
    exact ((resendRegWithToken_leg ..).sent_header hdg read).2.1
  | regFrame _ _ _ _ effect =>
    subst effect
    exact ((onRegFrame_leg ..).sent_header hdg read).2.1
  | touched _ live effect =>
    rw [effect.sent] at hdg
    exact (reaction_sent_header wf live hdg read).2
  | opened _ effect =>
    rw [effect.sent] at hdg
    exact (opened_sent_header (inCycle_allocCallno wf.callnoNext).1 hdg read).2.1
  | timeout op' _ => exact absurd op' op

/-- A timeout copies each entry that is due once, and nothing else is a copy. -/
theorem resends_eq {i : Invocation} (wf : s.WellFormed) (step : Step md5 s i s')
    (reads : ∀ k, ∀ o ∈ s.window k, ∃ hd, Header.read o.bytes = some hd) :
    Move.resends ⟨s, i, s'⟩ =
      if i.op = .handleTimeout then dueCopies i.now s.allOutstanding else [] := by
  split
  next op =>
    have all (o) (ho : o ∈ s.allOutstanding) : ∃ hd, Header.read o.bytes = some hd := by
      obtain ⟨k, hk⟩ := mem_allOutstanding wf ho
      exact reads k o hk
    have calls := resends_copies i.now fun o ho => all o (List.mem_append_right _ ho)
    have reg := resends_copies i.now fun o ho => all o (List.mem_append_left _ ho)
    show (s.pushed s').filter _ = _
    rw [step.timeout_eq op, allOutstanding, dueCopies_append]
    obtain ⟨poke, hpoke, ⟨⟨empty, _⟩, _, sent⟩ | ⟨_, _, sent⟩⟩ :=
      handleTimeout_reg s i.now i.clock
    · rw [sent, List.filter_append, List.filter_append, callCopies_eq, calls,
        resends_fresh fun dg hdg hd read => (hpoke dg hdg).first read,
        resends_fresh fun dg hdg hd read =>
          ((startRegistration_leg s i.now i.clock).sent_header hdg read).2.1, empty]
      rfl
    · have copies :
          (expire i.now s.reg.outstanding).copies = dueCopies i.now s.reg.outstanding := by
        rw [expire_eq]
        rfl
      rw [sent, List.filter_append, List.filter_append, callCopies_eq, calls, copies, reg,
        resends_fresh fun dg hdg hd read => (hpoke dg hdg).first read]
      rfl
  next op =>
    exact resends_fresh fun dg hdg hd read => first_outside_timeout wf step op hdg read

/-! ## What gives a leg up -/

/-- A refusal is not reported as a loss. -/
theorem refused_givesUp (text : String) :
    (Event.registerLost ("REGREJ causecode=" ++ text)).givesUp = none := by
  simp only [Event.givesUp]
  refine if_neg fun h => ?_
  have first := congrArg (fun text => text.toList.head?) h
  rw [String.toList_append] at first
  cases first

/-- A rejected call is not reported as a timeout. -/
theorem rejected_givesUp (call : UInt16) (text : String) :
    (Event.ended call ("refused causecode=" ++ text)).givesUp = none := by
  simp only [Event.givesUp]
  refine if_neg fun h => ?_
  have third := congrArg (fun text => text.toList[2]?) h
  rw [String.toList_append] at third
  cases third

/-- A call that is touched is not given up. -/
theorem reaction_givesUp {i : Invocation} {call : UInt16} {c : CallLeg} {x : CallInput} :
    ∀ ev ∈ (s.reaction md5 i call c x).events ++ (s.reaction md5 i call c x).farewell call,
      ev.givesUp = none := by
  intro ev hev
  rcases List.mem_append.mp hev with hev | hev
  · rcases reaction_events md5 s i call c x ev hev with ⟨_, rfl⟩ | ⟨_, course⟩
    · rfl
    · cases ev with
      | ended _ _ => exact course.elim
      | registerLost _ => exact course.elim
      | _ => rfl
  · rcases kept_or_farewell call (s.reaction md5 i call c x) with kept | ⟨dropped, _⟩
    · rw [farewell_of_kept kept] at hev
      cases hev
    · rcases reaction_dropped dropped with rfl | ⟨f, rfl, kind, _⟩
      · obtain rfl := List.mem_singleton.mp hev
        rfl
      · have hdir : (c.noteFrame f).dir = c.dir := rfl
        simp only [reaction, CallLeg.onFrame, hdir] at hev
        rcases kind with kind | kind | kind <;> rw [kind] at hev
        · obtain rfl := List.mem_singleton.mp hev
          rfl
        · obtain rfl := List.mem_singleton.mp hev
          rfl
        · obtain rfl := List.mem_singleton.mp hev
          exact rejected_givesUp call _

/-- What a frame on the registration leg reports. -/
theorem onRegFrame_events (md5 : Md5) (s : PbxClient) (f : FullFrame) (now clock : Instant) :
    ∃ evs, (s.onRegFrame md5 f now clock).events = s.events ++ evs ∧
      ∀ ev ∈ evs, ev.givesUp = none := by
  have none_of : ∀ ev ∈ ([] : List Event), ev.givesUp = none := by
    intro ev h
    cases h
  have one_of {e : Event} (he : e.givesUp = none) : ∀ ev ∈ [e], ev.givesUp = none := by
    intro ev h
    obtain rfl := List.mem_singleton.mp h
    exact he
  simp only [onRegFrame]
  split
  · split
    · exact ⟨[_], rfl, one_of rfl⟩
    · split
      · exact ⟨[_], rfl, one_of rfl⟩
      · exact ⟨[], (List.append_nil _).symm, none_of⟩
  · exact ⟨[_], rfl, one_of rfl⟩
  · exact ⟨[_], rfl, one_of (refused_givesUp _)⟩
  · exact ⟨[], (List.append_nil _).symm, none_of⟩
  · exact ⟨[_], rfl, one_of rfl⟩

/-- Outside a timeout no leg is given up. -/
theorem givesUp_outside_timeout {i : Invocation} (step : Step md5 s i s')
    (op : i.op ≠ .handleTimeout) {ev : Event} (hev : ev ∈ s.emitted s') : ev.givesUp = none := by
  cases step.arm with
  | silent _ effect =>
    rw [effect.emitted] at hev
    cases hev
  | @qualify _ f _ _ _ _ effect =>
    have silent : s.emitted (s.onQualify f) = [] := emitted_same rfl
    rw [effect, silent] at hev
    cases hev
  | @offLeg f _ effect =>
    rw [effect] at hev
    rcases s.onOffLeg_reports f with same | ⟨text, log⟩
    · rw [same, emitted_same rfl] at hev
      cases hev
    · have one : s.emitted (s.emit (.log text)) = [.log text] := emitted_append rfl
      rw [log, one] at hev
      obtain rfl := List.mem_singleton.mp hev
      rfl
  | @regToken dg f token _ _ _ _ effect =>
    have silent : s.emitted (s.resendRegWithToken token i.now i.clock) = [] := emitted_same rfl
    rw [effect, silent] at hev
    cases hev
  | regFrame _ _ _ _ effect =>
    obtain ⟨evs, events, none⟩ := onRegFrame_events md5 s _ i.now i.clock
    rw [effect, emitted_append events] at hev
    exact none ev hev
  | touched _ _ effect =>
    rw [effect.events] at hev
    exact reaction_givesUp ev hev
  | @opened o _ effect =>
    obtain ⟨e, events, _, opens⟩ := opened_events s i s.allocCallno.1 o
    rw [effect.events, events] at hev
    obtain rfl := List.mem_singleton.mp hev
    cases ev with
    | ended _ _ => exact opens.elim
    | registerLost _ => exact opens.elim
    | _ => rfl
  | timeout op' _ => exact absurd op' op

theorem retransmitReg_events (s : PbxClient) (now : Instant) :
    (s.retransmitReg now).events = s.events ++
      if s.reg.outstanding.any (·.Spent now) then
        [.registerLost "no ACK after retransmissions"] else [] := by
  simp only [retransmitReg, expire_eq]
  split
  · rfl
  · exact (List.append_nil _).symm

/-- What a timeout reports of the registration: that it starts, and that it is lost. -/
theorem beforeCalls_events (s : PbxClient) (now clock : Instant) :
    ∃ start, s.emitted (s.beforeCalls now clock) = start ++
        (if s.reg.outstanding.any (·.Spent now) then
          [.registerLost "no ACK after retransmissions"] else []) ∧
      ∀ ev ∈ start, ∃ text, ev = .log text := by
  have quiet (s₀ : PbxClient) : (s₀.keepalive now clock).events = s₀.events := by
    simp only [keepalive]
    split <;> rfl
  have loop (s₀ : PbxClient) : ((s₀.keepalive now clock).retransmitReg now).events = s₀.events ++
      if s₀.reg.outstanding.any (·.Spent now) then
        [.registerLost "no ACK after retransmissions"] else [] := by
    rw [retransmitReg_events, quiet, (keepalive_reg s₀ now clock).1]
  simp only [beforeCalls]
  split
  next starts =>
    refine ⟨[.log "REGREQ sended"], emitted_append ?_, fun ev hev => ?_⟩
    · rw [loop, startRegistration_unspent, starts.1]
      exact List.append_assoc s.events [_] []
    · obtain rfl := List.mem_singleton.mp hev
      exact ⟨_, rfl⟩
  next =>
    refine ⟨[], emitted_append ?_, fun _ hev => by cases hev⟩
    rw [loop, List.nil_append]

/-- A registration is lost in a timeout only if one of its entries is due without tries left. -/
theorem spent_of_registerLost {now clock : Instant} {reason : String}
    (h : .registerLost reason ∈ s.emitted (s.handleTimeout now clock)) :
    ∃ o ∈ s.reg.outstanding, o.Spent now := by
  obtain ⟨dead, events⟩ := retransmitCalls_events (s.beforeCalls now clock) now
  obtain ⟨evs, reports, _⟩ := (beforeCalls_serviced s now clock).reports
  obtain ⟨start, before, logs⟩ := beforeCalls_events s now clock
  rw [emitted_append reports] at before
  have all : s.emitted (s.handleTimeout now clock) =
      evs ++ dead.map (Event.ended · "reliability timeout") :=
    emitted_append (by rw [handleTimeout_eq, events, reports, List.append_assoc])
  rw [all, before, List.mem_append, List.mem_append] at h
  rcases h with (h | h) | h
  · obtain ⟨_, log⟩ := logs _ h
    cases log
  · split at h
    next spent =>
      obtain ⟨o, ho, hspent⟩ := List.any_eq_true.mp spent
      exact ⟨o, ho, of_decide_eq_true hspent⟩
    next => cases h
  · obtain ⟨_, _, ended⟩ := List.mem_map.mp h
    cases ended

/-- A call ends in a timeout only if one of its entries is due without tries left. -/
theorem spent_of_ended {now : Instant} (effect : s.Expired now s') {call : UInt16} {reason : String}
    (h : .ended call reason ∈ s.emitted s') :
    ∃ c, s.calls.lookup call = some c ∧ ∃ o ∈ c.leg.outstanding, o.Spent now := by
  obtain ⟨service, dead, hservice, _, hdead, events⟩ := effect.events
  rw [events] at h
  rcases List.mem_append.mp h with h | h
  · cases hservice _ h
  · obtain ⟨j, hj, ended⟩ := List.mem_map.mp h
    cases ended
    obtain ⟨c, hc, spent⟩ := (Option.any_eq_true _ _).mp ((hdead call).mp hj)
    rw [expire_eq] at spent
    obtain ⟨o, ho, hspent⟩ := List.any_eq_true.mp spent
    exact ⟨c, hc, o, ho, of_decide_eq_true hspent⟩

/-- A leg is given up only by a timeout that finds one of its entries due without tries left. -/
theorem spent_of_givesUp {i : Invocation} (wf : s.WellFormed) (step : Step md5 s i s') {ev : Event}
    (hev : ev ∈ s.emitted s') (gives : ev.givesUp = some k) :
    i.op = .handleTimeout ∧ ∃ o ∈ s.window k, o.Spent i.now := by
  have op : i.op = .handleTimeout := by
    by_contra op
    rw [givesUp_outside_timeout step op hev] at gives
    cases gives
  refine ⟨op, ?_⟩
  cases ev with
  | ended call reason =>
    simp only [Event.givesUp] at gives
    split at gives
    next =>
      cases gives
      have target : s.target i.op = .timeout := by rw [op]; rfl
      obtain ⟨c, hc, o, ho, spent⟩ := spent_of_ended ((Step.outcome step).to_expired target) hev
      refine ⟨o, ?_, spent⟩
      rw [window_call (wf.live_inCycle hc).ne_reg hc]
      exact ho
    next => cases gives
  | registerLost reason =>
    simp only [Event.givesUp] at gives
    split at gives
    next =>
      cases gives
      rw [step.timeout_eq op] at hev
      rw [window_reg]
      exact spent_of_registerLost hev
    next => cases gives
  | _ => cases gives

/-! ## Every run -/

/-- The step copies an entry of a window that has left, five times at most, at instants that are all
at least `RETX_AFTER` ago, and was not released since. -/
structure Repeats (dg : Bytes) (t : Move) (past : List Move) : Prop where
  op : t.label.op = .handleTimeout
  entry : ∃ k o sent, o ∈ t.pre.window k ∧ Life k past o sent ∧ sent.length ≤ retxMax ∧
    (∀ x ∈ sent, x + retxAfter ≤ t.label.now) ∧ dg = setRetransmit o.bytes

/-- An entry of the window of the leg `k` has left once and five times more, and is due again. -/
structure GivenUp (k : UInt16) (t : Move) (past : List Move) : Prop where
  op : t.label.op = .handleTimeout
  entry : ∃ o sent, o ∈ t.pre.window k ∧ Life k past o sent ∧ sent.length = retxMax + 1 ∧
    o.deadline ≤ t.label.now

/-- What a step sends with the R bit, and the legs it gives up. -/
structure FaithfulRetransmission (t : Move) (past : List Move) : Prop where
  /-- each entry that is due is copied once, and nothing else is a copy -/
  copies : t.resends =
    if t.label.op = .handleTimeout then dueCopies t.label.now t.pre.allOutstanding else []
  repeats : ∀ dg ∈ t.resends, Repeats dg t past
  givesUp : ∀ ev ∈ t.emitted, ∀ k, ev.givesUp = some k → GivenUp k t past

theorem faithfulRetransmission_step {i : Invocation} (wf : s.WellFormed) (step : Step md5 s i s')
    (lives : ∀ k, ∀ o ∈ s.window k, ∃ sent, Life k past o sent) :
    FaithfulRetransmission ⟨s, i, s'⟩ past := by
  have reads (k) (o) (ho : o ∈ s.window k) : ∃ hd, Header.read o.bytes = some hd := by
    obtain ⟨sent, life⟩ := lives k o ho
    obtain ⟨hd, read, _⟩ := life.reads
    exact ⟨hd, read⟩
  have copies := resends_eq wf step reads
  refine ⟨copies, fun dg hdg => ?_, fun ev hev k gives => ?_⟩
  · rw [copies] at hdg
    split at hdg
    next op =>
      obtain ⟨o, ho, rfl⟩ := List.mem_map.mp hdg
      obtain ⟨ho, due⟩ := List.mem_filter.mp ho
      have due : o.Due i.now := of_decide_eq_true due
      obtain ⟨k, hk⟩ := mem_allOutstanding wf ho
      obtain ⟨sent, life⟩ := lives k o hk
      have paced := life.paced
      refine ⟨op, k, o, sent, hk, life, ?_, fun x hx => (paced.waits x hx).trans due.1, rfl⟩
      rw [paced.count]
      exact due.2
    next => cases hdg
  · obtain ⟨op, o, ho, spent⟩ := spent_of_givesUp wf step hev gives
    obtain ⟨sent, life⟩ := lives k o ho
    have paced := life.paced
    refine ⟨op, o, sent, ho, life, ?_, spent.1⟩
    rw [paced.count, Nat.le_antisymm paced.bound spent.2]

/-- The copy of a full frame differs from it in bit 0x80 of byte 2 alone. -/
theorem setRetransmit_bytes {dg : Bytes} {hd : Header} (read : Header.read dg = some hd) :
    ∃ b0 b1 b2 rest, dg = b0 :: b1 :: b2 :: rest ∧
      setRetransmit dg = b0 :: b1 :: (b2 ||| 0x80) :: rest := by
  rcases dg with _ | ⟨b0, _ | ⟨b1, _ | ⟨b2, rest⟩⟩⟩
  case cons.cons.cons => exact ⟨b0, b1, b2, rest, rfl, rfl⟩
  all_goals cases read

/-- The entry with the transmissions `sent`: its bytes are those of its first transmission, and its
copies are these bytes with the R bit. -/
structure Copied (k : UInt16) (past : List Move) (o : Outstanding) (sent : List Instant) :
    Prop where
  first : ∃ t ∈ past, Tracks k o.bytes t ∧ sent.getLast? = some t.label.now
  paced : Paced o sent
  bytes : ∃ b0 b1 b2 rest, o.bytes = b0 :: b1 :: b2 :: rest ∧
    setRetransmit o.bytes = b0 :: b1 :: (b2 ||| 0x80) :: rest
  decodes : ∀ f, FullFrame.decode o.bytes = some f →
    FullFrame.decode (setRetransmit o.bytes) = some { f with retransmit := true }

theorem Life.copied (life : Life k past o sent) : Copied k past o sent where
  first := life.first
  paced := life.paced
  bytes := by
    obtain ⟨_, read, _⟩ := life.reads
    exact setRetransmit_bytes read
  decodes f decoded := by
    rw [decode_setRetransmit, decoded]
    rfl

/-- Along every run, every entry of a window has a life, every life has at most six transmissions of
the same frame that are at least `RETX_AFTER` apart, what a step sends with the R bit are copies of
such entries, one for each that is due, and a leg is given up only for an entry that has left six
times and is due again. -/
theorem retransmission_run {cfg : Config} (run : (system md5 cfg).Run past s) :
    Always FaithfulRetransmission past ∧
      (∀ k, ∀ o ∈ s.window k, ∃ sent, Life k past o sent) ∧
      ∀ k o sent, Life k past o sent → Copied k past o sent := by
  have always : Always FaithfulRetransmission past := run.always fun _ _ _ _ run step =>
    faithfulRetransmission_step (wellFormed_run run) step (lives_run run)
  exact ⟨always, lives_run run, fun _ _ _ life => life.copied⟩

/-- A call whose peer acknowledges nothing, up to its end. -/
theorem retransmission_sample :
    let is := Sample.receive Sample.newCall ::
      [700, 1400, 2100, 2800, 3500, 4200].map fun ms =>
        { op := .handleTimeout, now := Duration.fromMillis ms }
    Always FaithfulRetransmission (Sample.trace is) ∧
      (∀ k, ∀ o ∈ (Sample.after is).window k, ∃ sent, Life k (Sample.trace is) o sent) ∧
      ∀ k o sent, Life k (Sample.trace is) o sent → Copied k (Sample.trace is) o sent :=
  retransmission_run (Sample.run _ (by decide))

end PbxClient

end Iax2
