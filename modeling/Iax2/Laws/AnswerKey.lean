import Iax2.Laws.Softphone

/-!
# The key that answers

The key `a` answers the first call that rings, in the order of the clients and of the numbers
(`findRinging_first`). A client accepts the command for an incoming call alone, but an outgoing call
rings as well once the peer says so, and then it counts: if it is scanned first, the key does
nothing, and the caller goes on waiting (`answer_key_iff`).
-/

namespace Iax2

namespace App

variable {F : Type} {n : Nat}

/-! ## The scan -/

/-- A call that is scanned before another one: of a client before, or of the same client and with a
number below. -/
def Precedes (p q : Fin n × UInt16) : Prop := p.1 < q.1 ∨ p.1 = q.1 ∧ p.2 < q.2

theorem precedes_trichotomy (p q : Fin n × UInt16) : Precedes p q ∨ p = q ∨ Precedes q p := by
  rcases lt_trichotomy p.1 q.1 with before | same | after
  · exact .inl (.inl before)
  · rcases lt_trichotomy p.2.toNat q.2.toNat with below | same' | above
    · exact .inl (.inr ⟨same, UInt16.lt_iff_toNat_lt.mpr below⟩)
    · exact .inr (.inl (Prod.ext same (UInt16.toNat_inj.mp same')))
    · exact .inr (.inr (.inr ⟨same.symm, UInt16.lt_iff_toNat_lt.mpr above⟩))
  · exact .inr (.inr (.inl after))

theorem Precedes.asymm {p q : Fin n × UInt16} (h : Precedes p q) : ¬ Precedes q p := by
  rintro (after | ⟨same, above⟩) <;> rcases h with before | ⟨same', below⟩
  · exact lt_asymm before after
  · exact after.ne same'.symm
  · exact before.ne same.symm
  · exact UInt16.lt_asymm below above

section

variable (a : App F n)

theorem mem_callsIndex {p : Fin n × UInt16} :
    p ∈ a.callsIndex ↔ ∃ c, (a.client p.1).calls.lookup p.2 = some c := by
  simp only [callsIndex, List.mem_flatMap, List.mem_finRange, true_and, List.mem_map,
    PbxClient.callIds, List.mem_insertionSort]
  constructor
  · rintro ⟨idx, call, ⟨e, member, rfl⟩, rfl⟩
    exact ⟨e.2, Table.mem_entries_iff.mp member⟩
  · rintro ⟨c, live⟩
    exact ⟨p.1, p.2, ⟨⟨p.2, c⟩, Table.mem_entries_iff.mpr live, rfl⟩, rfl⟩

/-- The list of calls is in the order of the scan. -/
theorem callsIndex_ordered : a.callsIndex.Pairwise fun p q => ¬ Precedes q p := by
  refine List.pairwise_flatMap.mpr ⟨fun idx _ => ?_, ?_⟩
  · refine List.pairwise_map.mpr ?_
    refine (List.pairwise_insertionSort (· ≤ ·) _).imp ?_
    rintro k l below (before | ⟨_, above⟩)
    · exact lt_irrefl idx before
    · exact UInt16.not_lt.mpr below above
  · refine (List.pairwise_lt_finRange n).imp ?_
    intro i j before p member q member'
    obtain ⟨k, _, rfl⟩ := List.mem_map.mp member
    obtain ⟨l, _, rfl⟩ := List.mem_map.mp member'
    rintro (after | ⟨same, _⟩)
    · exact lt_asymm before after
    · exact before.ne same.symm

theorem findRinging_eq : a.findRinging =
    a.callsIndex.find? fun p => decide (a.callState p.1 p.2 = some .ringing) := by
  rw [findRinging, callsIndex, List.find?_flatMap]
  simp only [List.find?_map, Function.comp_def]

/-- The call that is found rings, and no call that rings is scanned before it. -/
theorem findRinging_first {p : Fin n × UInt16} (found : a.findRinging = some p) :
    a.callState p.1 p.2 = some .ringing ∧
      ∀ q, a.callState q.1 q.2 = some .ringing → q = p ∨ Precedes p q := by
  rw [findRinging_eq, List.find?_eq_some_iff_append] at found
  obtain ⟨ringing, before, after, split, silent⟩ := found
  refine ⟨of_decide_eq_true ringing, fun q rings => ?_⟩
  have listed : q ∈ before ++ p :: after := by
    obtain ⟨c, live, _⟩ := PbxClient.callState_eq_some.mp rings
    exact split ▸ a.mem_callsIndex.mpr ⟨c, live⟩
  have ordered := split ▸ a.callsIndex_ordered
  rcases List.mem_append.mp listed with member | member
  · have silent := silent q member
    rw [decide_eq_true rings] at silent
    cases silent
  · rcases List.mem_cons.mp member with same | member
    · exact .inl same
    · have later := (List.pairwise_cons.mp (List.pairwise_append.mp ordered).2.1).1 q member
      rcases precedes_trichotomy q p with before | same | after
      · exact absurd before later
      · exact .inl same
      · exact .inr after

/-- A call that rings is found. -/
theorem findRinging_isSome {p : Fin n × UInt16} (rings : a.callState p.1 p.2 = some .ringing) :
    ∃ q, a.findRinging = some q := by
  obtain ⟨c, live, _⟩ := PbxClient.callState_eq_some.mp rings
  rw [findRinging_eq, ← Option.isSome_iff_exists, List.find?_isSome]
  exact ⟨p, a.mem_callsIndex.mpr ⟨c, live⟩, decide_eq_true rings⟩

end

/-! ## What the handling of events keeps -/

section

variable {a : App F n} {idx : Fin n}

/-- What is sent stays sent. -/
theorem foldl_flushTx_sent (a : App F n) (l : List (Fin n)) :
    a.sent <+: (l.foldl flushTx a).sent := by
  induction l generalizing a with
  | nil => exact List.prefix_rfl
  | cons idx l ih =>
    have first : a.sent <+: (a.flushTx idx).sent := by
      rw [flushTx_eq]
      exact List.prefix_append _ _
    exact first.trans (ih (a.flushTx idx))

variable [F64 F]

theorem makeActive_sent (call : UInt16) (clock : Stream' Instant) :
    a.sent <+: (a.makeActive idx call clock).sent := by
  obtain ⟨b, l, made, _, _, sent, _⟩ := a.makeActive_flushes idx call clock
  have held : (a.holdPrevious idx call clock.head (clock.get 1)).sent = a.sent := by
    rw [holdPrevious]
    split <;> rfl
  have resumed (b : App F n) : (b.resume idx call clock.head (clock.get 2)).sent = b.sent := by
    rw [resume]
    split <;> rfl
  rw [made, ← held, ← resumed, ← sent]
  exact foldl_flushTx_sent b l

theorem handleEvent_sent (clock : Stream' Instant) (ev : Event) :
    a.sent <+: (a.handleEvent idx clock ev).sent := by
  cases ev with
  | answered call => exact makeActive_sent call clock
  | voice call ts ulaw =>
    simp only [handleEvent]
    split <;> exact List.prefix_rfl
  | ended call reason =>
    simp only [handleEvent]
    split <;> exact List.prefix_rfl
  | _ => exact List.prefix_rfl

theorem handleEvents_sent (a : App F n) (idx : Fin n) (clock : Stream' Instant) :
    a.sent <+: (a.handleEvents idx clock).sent := by
  rw [handleEvents]
  refine eventLoop_induction (P := fun b => a.sent <+: b.sent) clock _ List.prefix_rfl ?_
  intro b clock ev _ _ before
  have taken : (b.popEvent idx).sent = b.sent := rfl
  exact before.trans (taken ▸ handleEvent_sent clock ev)

/-- No event answers a call that rings. -/
theorem eventLoop_ringing (clock : Stream' Instant) (fuel : Nat) {i : Fin n} {k : UInt16}
    (ringing : a.callState i k = some .ringing) :
    (App.eventLoop idx fuel clock a).callState i k = some .ringing := by
  refine eventLoop_induction (P := fun b => b.callState i k = some .ringing) clock fuel ringing ?_
  intro b clock ev _ _ ringing
  replace ringing : (b.popEvent idx).callState i k = some .ringing :=
    (popEvent_callState i k).trans ringing
  rcases (b.popEvent idx).handleEvent_callState idx clock ev i k with same | ⟨up, _⟩ | ⟨held, _⟩
  · exact same.trans ringing
  · cases ringing.symm.trans up
  · cases ringing.symm.trans held

/-- The answer of the call is the last event that waits, and the call is up or was put on hold
meanwhile; or no event waits, and it is up. -/
def Answering (a : App F n) (idx : Fin n) (call : UInt16) : Prop :=
  (∃ events, (a.client idx).events = events ++ [.answered call]) ∧
      (a.callState idx call = some .up ∨ a.callState idx call = some .held) ∨
    (a.client idx).events = [] ∧ a.callState idx call = some .up

theorem Answering.round {call : UInt16} (h : a.Answering idx call) (clock : Stream' Instant)
    {ev : Event} {events : List Event} (queue : (a.client idx).events = ev :: events) :
    ((a.popEvent idx).handleEvent idx clock ev).Answering idx call := by
  have left : (((a.popEvent idx).handleEvent idx clock ev).client idx).events = events := by
    rw [handleEvent_events, popEvent_events queue, if_pos rfl]
  rcases h with ⟨⟨before, pending⟩, live⟩ | ⟨none, _⟩
  · have state : (a.popEvent idx).callState idx call = a.callState idx call :=
      popEvent_callState idx call
    rw [← state] at live
    rw [queue] at pending
    cases before with
    | nil =>
      -- the answer itself
      cases pending
      refine .inr ⟨left, ?_⟩
      rw [App.handleEvent, makeActive_callState, if_neg]
      · rcases live with up | held
        · rw [up, if_neg fun is => by cases is.2]
        · rw [held, if_pos ⟨rfl, rfl⟩]
      · exact fun previous => ((previous_eq_some _).mp previous).2.1 rfl
    | cons first before =>
      cases pending
      refine .inl ⟨⟨before, left⟩, ?_⟩
      rcases (a.popEvent idx).handleEvent_callState idx clock ev idx call
        with same | ⟨_, held⟩ | ⟨_, up⟩
      · exact same ▸ live
      · exact .inr held
      · exact .inl up
  · cases queue.symm.trans none

/-- A call whose answer is the last event is up after the loop. -/
theorem Answering.eventLoop {call : UInt16} (h : a.Answering idx call) (clock : Stream' Instant)
    {fuel : Nat} (enough : (a.client idx).events.length = fuel) :
    (App.eventLoop idx fuel clock a).callState idx call = some .up := by
  have handled := eventLoop_events clock fuel enough
  have kept : (App.eventLoop idx fuel clock a).Answering idx call :=
    eventLoop_induction (P := fun b => b.Answering idx call) clock fuel h
      fun _ clock _ _ queue h => h.round clock queue
  rcases kept with ⟨⟨events, pending⟩, _⟩ | ⟨_, up⟩
  · exact absurd (pending.symm.trans handled) (by simp)
  · exact up

end

end App

/-! ## The command -/

namespace PbxClient

variable {s : PbxClient} {call : UInt16} {c : CallLeg}

/-- What the command does to an incoming call that rings. -/
theorem answer_inbound (live : s.calls.lookup call = some c) (ringing : c.state = .ringing)
    (inbound : c.dir = .inbound) (now clock : Instant) :
    (s.answer call now clock).callState call = some .up ∧
      (s.answer call now clock).out =
        s.out ++ [(c.leg.build (s.ts clock) Frametype.control Control.answer []).1.encode] ∧
      (s.answer call now clock).events = s.events ++ [.answered call] := by
  have accepts : c.dir = .inbound ∧ c.state = .ringing := ⟨inbound, ringing⟩
  refine ⟨?_, ?_, ?_⟩
  · rw [answer, callState, (onCall_touched live _).calls, if_pos rfl]
    simp only [Reaction.kept, CallLeg.answer, if_pos accepts, Option.map_some]
  · rw [answer, onCall_out live]
    simp only [CallLeg.answer, if_pos accepts]
  · simp only [answer, onCall, live, react, CallLeg.answer, if_pos accepts]

/-- The command does nothing to an outgoing call. -/
theorem answer_outbound (live : s.calls.lookup call = some c) (outbound : c.dir = .outbound)
    (now clock : Instant) : s.answer call now clock = s := by
  have refuses : ¬ (c.dir = .inbound ∧ c.state = .ringing) := by
    rintro ⟨inbound, _⟩
    cases outbound.symm.trans inbound
  simp only [answer, onCall, live, CallLeg.answer, if_neg refuses]
  exact react_idle live

end PbxClient

namespace App

variable {F : Type} {n : Nat}

/-! ## The key -/

/-- A call that rings, in the direction `dir`. -/
def Rings (a : App F n) (dir : Dir) (p : Fin n × UInt16) : Prop :=
  ∃ c, (a.client p.1).calls.lookup p.2 = some c ∧ c.state = .ringing ∧ c.dir = dir

theorem Rings.callState {a : App F n} {dir : Dir} {p : Fin n × UInt16} (h : a.Rings dir p) :
    a.callState p.1 p.2 = some .ringing := by
  obtain ⟨c, live, ringing, _⟩ := h
  exact PbxClient.callState_eq_some.mpr ⟨c, live, ringing⟩

/-- A call has one direction. -/
theorem Rings.ne {a : App F n} {p q : Fin n × UInt16} (h : a.Rings .inbound p)
    (h' : a.Rings .outbound q) : p ≠ q := by
  rintro rfl
  obtain ⟨c, live, _, inbound⟩ := h
  obtain ⟨c', live', _, outbound⟩ := h'
  cases live.symm.trans live'
  cases inbound.symm.trans outbound

theorem rings_of_callState {a : App F n} {p : Fin n × UInt16}
    (ringing : a.callState p.1 p.2 = some .ringing) : ∃ dir, a.Rings dir p := by
  obtain ⟨c, live, ringing⟩ := PbxClient.callState_eq_some.mp ringing
  exact ⟨c.dir, c, live, ringing, rfl⟩

/-- On its way from `a` to `b` the driver takes the call `p`, an incoming one that rings: it sends
an ANSWER on the leg of the call, and then the call is up. -/
def Takes (a b : App F n) (p : Fin n × UInt16) : Prop :=
  ∃ c, (a.client p.1).calls.lookup p.2 = some c ∧ c.state = .ringing ∧ c.dir = .inbound ∧
    (∃ ts, (p.1, (c.leg.build ts Frametype.control Control.answer []).1.encode) ∈
      b.sent.drop a.sent.length) ∧
    b.callState p.1 p.2 = some .up

variable [F64 F] {a : App F n}

/-- The command for an incoming call that rings, with all that follows it. -/
theorem enter_answer {p : Fin n × UInt16} (rings : a.Rings .inbound p) (now : Instant)
    (clock : Stream' Instant) : a.Takes (a.enter p.1 (.answer p.2) now clock) p := by
  obtain ⟨idx, call⟩ := p
  obtain ⟨c, live, ringing, inbound⟩ := rings
  obtain ⟨up, out, events⟩ := PbxClient.answer_inbound live ringing inbound now clock.head
  let b := (a.command idx (.answer call) now clock.head).flushTx idx
  have commanded : (a.command idx (.answer call) now clock.head).client idx =
      (a.client idx).answer call now clock.head := by
    rw [command_client, if_pos rfl]
    rfl
  have queue : (b.client idx).events = (a.client idx).events ++ [.answered call] := by
    rw [flushTx_events, commanded, events]
  have answering : b.Answering idx call := by
    refine .inl ⟨⟨_, queue⟩, .inl ?_⟩
    rw [flushTx_callState, App.callState, commanded, up]
  refine ⟨c, live, ringing, inbound, ⟨(a.client idx).ts clock.head, ?_⟩,
    answering.eventLoop clock.tail rfl⟩
  obtain ⟨later, sent⟩ := b.handleEvents_sent idx clock.tail
  let ans := (c.leg.build ((a.client idx).ts clock.head) Frametype.control Control.answer []).1
  have flushed : b.sent = a.sent ++ ((a.client idx).out ++ [ans.encode]).map (idx, ·) := by
    show ((a.command idx (.answer call) now clock.head).flushTx idx).sent = _
    rw [flushTx_eq, commanded, out]
    rfl
  have queued : ans.encode ∈ (a.client idx).out ++ [ans.encode] :=
    List.mem_append_right _ (List.mem_singleton_self _)
  rw [enter, settle, ← sent, flushed, List.append_assoc, List.drop_left]
  exact List.mem_append_left later (List.mem_map_of_mem queued)

/-- The command for an outgoing call lets every call ring on. -/
theorem enter_answer_outbound {p q : Fin n × UInt16} (rings : a.Rings .outbound p) (now : Instant)
    (clock : Stream' Instant) (ringing : a.callState q.1 q.2 = some .ringing) :
    (a.enter p.1 (.answer p.2) now clock).callState q.1 q.2 = some .ringing := by
  obtain ⟨c, live, _, outbound⟩ := rings
  refine eventLoop_ringing clock.tail _ ?_
  rw [flushTx_callState, App.callState, command_client]
  split
  next same =>
    refine (congrArg (PbxClient.callState · q.2)
      (PbxClient.answer_outbound live outbound now clock.head)).trans ?_
    rw [← same]
    exact ringing
  next => exact ringing

/-- The key hands the command to the call that is found. -/
theorem dispatch_answer {p : Fin n × UInt16} (found : a.findRinging = some p) (now : Instant)
    (clock : Fin n → Stream' Instant) : (a.dispatch "a".toList now clock).2 =
      a.enter p.1 (.answer p.2) now (clock p.1) := by
  have key : Key.parse "a".toList = .answer := by decide
  simp only [dispatch, key, found]

/-- The key `a` takes an incoming call that rings exactly if one of them is scanned before all
outgoing calls that ring. -/
theorem answer_key_iff (a : App F n) (now : Instant) (clock : Fin n → Stream' Instant) :
    (∃ p, a.Takes (a.dispatch "a".toList now clock).2 p) ↔
      ∃ p, a.Rings .inbound p ∧ ∀ q, a.Rings .outbound q → Precedes p q := by
  constructor
  · rintro ⟨p, c, live, ringing, inbound, _, up⟩
    have rings : a.Rings .inbound p := ⟨c, live, ringing, inbound⟩
    obtain ⟨q, found⟩ := a.findRinging_isSome rings.callState
    obtain ⟨first, least⟩ := a.findRinging_first found
    obtain ⟨dir, first⟩ := rings_of_callState first
    rw [dispatch_answer found] at up
    cases dir with
    | inbound =>
      refine ⟨q, first, fun r other => (least r other.callState).resolve_left fun same => ?_⟩
      exact first.ne other same.symm
    | outbound =>
      have still := enter_answer_outbound first now (clock q.1) rings.callState
      cases still.symm.trans up
  · rintro ⟨p, rings, before⟩
    obtain ⟨q, found⟩ := a.findRinging_isSome rings.callState
    obtain ⟨first, least⟩ := a.findRinging_first found
    obtain ⟨dir, first⟩ := rings_of_callState first
    rw [dispatch_answer found]
    cases dir with
    | inbound => exact ⟨q, enter_answer first now (clock q.1)⟩
    | outbound =>
      have later := (least p rings.callState).resolve_left (rings.ne first)
      exact absurd later (before q first).asymm

open SoftphoneSample in
/-- Call 16 is dialled and rings at the other end, and the caller of call 17 rings here. The key
finds call 16, and sends nothing. -/
theorem caller_rings_on :
    let ringing := FullFrame.new 43 16 20 0 1 Frametype.control Control.ringing []
    let a := after [type "d 200", { wakeup := .datagram 0 ringing.encode }, ring 0]
    (∃ past, (system Sample.md5 ℚ cfgs).Run past a) ∧ a.Rings .inbound (0, 17) ∧
      ¬ ∃ p, a.Takes (a.dispatch "a".toList 0 fun _ => .const 0).2 p := by
  intro ringing a
  have caller : ((a.client 0).calls.lookup 17).map (fun c => (c.state, c.dir)) =
      some (.ringing, .inbound) := by decide +kernel
  have silent : (a.dispatch "a".toList 0 fun _ => .const 0).2.sent.length = a.sent.length := by
    decide +kernel
  obtain ⟨c, live, is⟩ := Option.map_eq_some_iff.mp caller
  obtain ⟨state, dir⟩ := Prod.mk.inj is
  refine ⟨⟨_, run _ (by decide)⟩, ⟨c, live, state, dir⟩, ?_⟩
  rintro ⟨p, _, _, _, _, ⟨_, member⟩, _⟩
  rw [List.drop_eq_nil_of_le silent.le] at member
  cases member

end App

end Iax2
