import Iax2.Laws.Events

/-!
# The softphone

One conversation at a time, over all clients. A client lets any number of its calls be up. It is the
driver that keeps them apart, and it does so by the events: when a call is reported as answered, the
driver puts the call that was active on hold. Between the report and its handling two calls can be
up, so the invariant of the event loop (`Settling`) lets a call be up that is not active, as long as
the report about it is pending.

A step of the driver is a list of steps of the clients, so each client of a softphone makes a run of
its own (`client_run`), and what is proved of all runs of a client is true of it.
-/

namespace Iax2

namespace App

variable {F : Type} {n : Nat}

/-! ## The queues of the driver -/

section

variable (a : App F n) (idx : Fin n)

@[simp] theorem client_setClient (c : PbxClient) (j : Fin n) :
    (a.setClient idx c).client j = if j = idx then c else a.client j := by
  show (a.clients.set idx.val c)[j.val] = _
  rw [Vector.getElem_set]
  simp only [Fin.ext_iff, @eq_comm _ j.val]
  rfl

@[simp] theorem setClient_active (c : PbxClient) : (a.setClient idx c).active = a.active := rfl

/-- The loop takes all that is queued. -/
theorem takeTransmits_eq (c : PbxClient) :
    takeTransmits c.out.length c = (c.out, { c with out := [] }) := by
  generalize length : c.out.length = fuel
  induction fuel generalizing c with
  | zero =>
    rw [List.length_eq_zero_iff] at length
    rw [takeTransmits, length, ← length]
  | succ fuel ih =>
    obtain ⟨b, out, queued⟩ := List.exists_cons_of_length_eq_add_one length
    rw [queued, List.length_cons, Nat.add_right_cancel_iff] at length
    have rest := ih { c with out } length
    simp only [takeTransmits, PbxClient.pollTransmit, queued, List.head?_cons, List.tail_cons, rest]

theorem flushTx_eq : a.flushTx idx =
    { a.setClient idx { a.client idx with out := [] } with
      sent := a.sent ++ (a.client idx).out.map (idx, ·) } := by
  rw [flushTx, takeTransmits_eq]

theorem flushTx_client (j : Fin n) :
    (a.flushTx idx).client j = if j = idx then { a.client j with out := [] } else a.client j := by
  rw [flushTx_eq]
  refine (client_setClient a idx _ j).trans ?_
  split
  next same => rw [same]
  next => rfl

@[simp] theorem flushTx_active : (a.flushTx idx).active = a.active := by
  rw [flushTx_eq]
  rfl

/-- Flushing changes no call and no report. -/
theorem flushTx_callState (j : Fin n) (k : UInt16) :
    (a.flushTx idx).callState j k = a.callState j k := by
  rw [callState, flushTx_client]
  split <;> rfl

theorem flushTx_events (j : Fin n) : ((a.flushTx idx).client j).events = (a.client j).events := by
  rw [flushTx_client]
  split <;> rfl

theorem foldl_flushTx (l : List (Fin n)) : (l.foldl flushTx a).active = a.active ∧
    ∀ j, (l.foldl flushTx a).client j =
      if j ∈ l then { a.client j with out := [] } else a.client j := by
  induction l generalizing a with
  | nil => exact ⟨rfl, fun _ => rfl⟩
  | cons i l ih =>
    obtain ⟨active, client⟩ := ih (a.flushTx i)
    refine ⟨active.trans (flushTx_active a i), fun j => (client j).trans ?_⟩
    rw [flushTx_client]
    by_cases first : j = i
    · simp only [first, if_true, List.mem_cons, true_or, ite_self]
    · simp only [first, if_false, List.mem_cons, false_or]

end

/-! ## The active call -/

section

variable (a : App F n)

theorem command_client (idx j : Fin n) (cmd : Command) (now clock : Instant) :
    (a.command idx cmd now clock).client j =
      if j = idx then (a.client idx).handleCommand cmd now clock else a.client j :=
  client_setClient a idx _ j

/-- Some clients are given commands that open no call and report nothing. -/
structure Commanded (touched : List (Fin n)) (b : App F n) : Prop where
  gone : ∀ i k, a.callState i k = none → b.callState i k = none
  events : ∀ i, (b.client i).events = (a.client i).events
  elsewhere : ∀ i, i ∉ touched → b.client i = a.client i

theorem Commanded.trans {a b c : App F n} {touched touched' : List (Fin n)}
    (h : a.Commanded touched b) (h' : b.Commanded touched' c) :
    a.Commanded (touched ++ touched') c where
  gone i k none := h'.gone i k (h.gone i k none)
  events i := (h'.events i).trans (h.events i)
  elsewhere i other := by
    obtain ⟨here, there⟩ := not_or.mp (mt List.mem_append.mpr other)
    exact (h'.elsewhere i there).trans (h.elsewhere i here)

/-- A hold or an unhold moves its call. -/
theorem command_hold (idx : Fin n) (cmd : Command) (call : UInt16) (hold : Bool)
    (is : cmd = if hold then .hold call else .unhold call) (now clock : Instant) :
    a.Commanded [idx] (a.command idx cmd now clock) ∧
      ∀ i k, (a.command idx cmd now clock).callState i k =
        if i = idx ∧ k = call then (a.callState idx call).map fun _ => if hold then .held else .up
        else a.callState i k := by
  have effect : (a.client idx).handleCommand cmd now clock =
      (a.client idx).setHold call hold now clock := by
    cases hold <;> rw [is] <;> rfl
  obtain ⟨state, events⟩ := (a.client idx).setHold_state call hold now clock
  have moved (i : Fin n) (k : UInt16) : (a.command idx cmd now clock).callState i k =
      if i = idx ∧ k = call then (a.callState idx call).map fun _ => if hold then .held else .up
      else a.callState i k := by
    rw [callState, command_client, effect]
    by_cases here : i = idx
    · rw [if_pos here, state]
      simp only [here, true_and, callState]
    · simp only [here, false_and, if_false, callState]
  refine ⟨⟨fun i k none => ?_, fun i => ?_, fun i other => ?_⟩, moved⟩
  · rw [moved]
    split
    next same =>
      rw [← same.1, ← same.2, none]
      rfl
    next => exact none
  · rw [command_client, effect]
    split
    next here => rw [events, here]
    next => rfl
  · rw [command_client, if_neg fun here => other (List.mem_singleton.mpr here)]

theorem previous_eq_some {idx : Fin n} {call : UInt16} {p : Fin n × UInt16} :
    a.previous idx call = some p ↔
      a.active = some p ∧ p ≠ (idx, call) ∧ a.callState p.1 p.2 = some .up := by
  simp only [previous, Option.filter_eq_some_iff, decide_eq_true_eq]

/-- The call that was active goes on hold if it is up, and nothing else changes. -/
theorem holdPrevious_held (idx : Fin n) (call : UInt16) (now clock : Instant) :
    a.Commanded ((a.previous idx call).map (·.1)).toList (a.holdPrevious idx call now clock) ∧
      ∀ i k, (a.holdPrevious idx call now clock).callState i k =
        if a.previous idx call = some (i, k) then some .held else a.callState i k := by
  rw [holdPrevious]
  cases previous : a.previous idx call with
  | none => exact ⟨⟨fun _ _ none => none, fun _ => rfl, fun _ _ => rfl⟩, fun _ _ => rfl⟩
  | some p =>
    obtain ⟨_, _, up⟩ := a.previous_eq_some.mp previous
    obtain ⟨commanded, moved⟩ := a.command_hold p.1 (.hold p.2) p.2 true rfl now clock
    refine ⟨commanded, fun i k => ?_⟩
    rw [moved, up]
    simp only [Option.some.injEq, Prod.ext_iff, @eq_comm _ p.1, @eq_comm _ p.2, Option.map_some,
      if_true]

/-- A call that is held comes off hold, and nothing else changes. -/
theorem resume_resumed (idx : Fin n) (call : UInt16) (now clock : Instant) :
    a.Commanded [idx] (a.resume idx call now clock) ∧
      ∀ i k, (a.resume idx call now clock).callState i k =
        if (i, k) = (idx, call) ∧ a.callState i k = some .held then some .up
        else a.callState i k := by
  rw [resume]
  split
  next held =>
    obtain ⟨commanded, moved⟩ := a.command_hold idx (.unhold call) call false rfl now clock
    refine ⟨commanded, fun i k => ?_⟩
    rw [moved, held]
    by_cases same : (i, k) = (idx, call)
    · cases same
      simp [held]
    · have other : ¬ (i = idx ∧ k = call) := fun is => same (Prod.ext is.1 is.2)
      rw [if_neg other, if_neg fun is => same is.1]
  next free =>
    refine ⟨⟨fun _ _ none => none, fun _ => rfl, fun _ _ => rfl⟩, fun i k => ?_⟩
    refine (if_neg ?_).symm
    rintro ⟨same, held⟩
    cases same
    exact free held

/-- What a call that becomes the active one does to the others: the one that was active is not up
any more. -/
structure Activated (idx : Fin n) (call : UInt16) (b : App F n) : Prop where
  active : b.active = some (idx, call)
  up : ∀ i k, b.callState i k = some .up →
    (i, k) = (idx, call) ∨ a.callState i k = some .up ∧ a.active ≠ some (i, k)
  gone : ∀ i k, a.callState i k = none → b.callState i k = none
  events : ∀ i, (b.client i).events = (a.client i).events
  out : (∀ i, (a.client i).out = []) → ∀ i, (b.client i).out = []

variable [F64 F]

/-- The hold and the unhold, and then the flush of the clients that they touch. -/
theorem makeActive_flushes (idx : Fin n) (call : UInt16) (clock : Stream' Instant) :
    ∃ (b : App F n) (l : List (Fin n)), a.makeActive idx call clock = l.foldl flushTx b ∧
      b.active = some (idx, call) ∧
      (∀ i, b.client i = ((a.holdPrevious idx call clock.head (clock.get 1)).resume idx call
        clock.head (clock.get 2)).client i) ∧
      b.sent = ((a.holdPrevious idx call clock.head (clock.get 1)).resume idx call
        clock.head (clock.get 2)).sent ∧
      ∀ i, i ∈ l ↔ i ∈ ((a.previous idx call).map (·.1)).toList ++ [idx] :=
  ⟨_, _, rfl, rfl, fun _ => rfl, rfl, fun i => by rw [List.mem_dedup, List.mem_insertionSort]⟩

/-- The calls, after one of them became the active one. -/
theorem makeActive_callState (idx : Fin n) (call : UInt16) (clock : Stream' Instant) (i : Fin n)
    (k : UInt16) : (a.makeActive idx call clock).callState i k =
      if a.previous idx call = some (i, k) then some .held
      else if (i, k) = (idx, call) ∧ a.callState i k = some .held then some .up
      else a.callState i k := by
  obtain ⟨b, l, made, _, same, _⟩ := a.makeActive_flushes idx call clock
  have flushed : (a.makeActive idx call clock).callState i k = b.callState i k := by
    rw [made, callState, (foldl_flushTx b l).2]
    split <;> rfl
  obtain ⟨_, held⟩ := a.holdPrevious_held idx call clock.head (clock.get 1)
  obtain ⟨_, resumed⟩ := (a.holdPrevious idx call clock.head (clock.get 1)).resume_resumed idx call
    clock.head (clock.get 2)
  rw [flushed, callState, same]
  refine (resumed i k).trans ?_
  rw [held]
  by_cases previous : a.previous idx call = some (i, k)
  · obtain ⟨_, other, _⟩ := a.previous_eq_some.mp previous
    simp only [previous, if_true, other, false_and, if_false]
  · simp only [previous, if_false]

theorem makeActive_activated (idx : Fin n) (call : UInt16) (clock : Stream' Instant) :
    a.Activated idx call (a.makeActive idx call clock) := by
  obtain ⟨b, l, made, active, same, _, touched⟩ := a.makeActive_flushes idx call clock
  obtain ⟨held, _⟩ := a.holdPrevious_held idx call clock.head (clock.get 1)
  obtain ⟨resumed, _⟩ := (a.holdPrevious idx call clock.head (clock.get 1)).resume_resumed idx call
    clock.head (clock.get 2)
  have commanded := held.trans resumed
  have state := a.makeActive_callState idx call clock
  obtain ⟨kept, client⟩ := foldl_flushTx b l
  simp only [← made, same, touched] at kept client
  refine ⟨kept.trans active, fun i k up => ?_, fun i k none => ?_, fun i => ?_, fun out i => ?_⟩
  · rw [state] at up
    split at up
    next => cases up
    next other =>
      by_cases here : (i, k) = (idx, call)
      · exact .inl here
      · rw [if_neg fun is => here is.1] at up
        exact .inr ⟨up, fun active => other (a.previous_eq_some.mpr ⟨active, here, up⟩)⟩
  · rw [state, if_neg, if_neg, none]
    · rintro ⟨_, held⟩
      cases none.symm.trans held
    · intro previous
      cases none.symm.trans (a.previous_eq_some.mp previous).2.2
  · rw [client, ← commanded.events]
    split <;> rfl
  · rw [client]
    split
    next => rfl
    next other =>
      rw [commanded.elsewhere i other]
      exact out i

end

/-! ## Events -/

section

variable {a : App F n} {idx : Fin n}

/-- Between two rounds of the main loop, what is up is active, and the queues are empty. -/
structure Settled (a : App F n) : Prop where
  up : ∀ i k, a.callState i k = some .up → a.active = some (i, k)
  events : ∀ i, (a.client i).events = []
  out : ∀ i, (a.client i).out = []

/-- While the events of a client are handled, what is up is active or about to be. -/
structure Settling (a : App F n) (idx : Fin n) : Prop where
  up : ∀ i k, a.callState i k = some .up →
    a.active = some (i, k) ∨ i = idx ∧ .answered k ∈ (a.client idx).events
  ended : ∀ k reason, .ended k reason ∈ (a.client idx).events → a.callState idx k = none
  events : ∀ i, i ≠ idx → (a.client i).events = []
  out : ∀ i, (a.client i).out = []

/-- The driver with the oldest event of a client taken. -/
def popEvent (a : App F n) (idx : Fin n) : App F n := a.setClient idx (a.client idx).pollEvent.2

theorem popEvent_callState (i : Fin n) (k : UInt16) :
    (a.popEvent idx).callState i k = a.callState i k := by
  rw [callState, popEvent, client_setClient]
  split
  next here => exact here ▸ rfl
  next => rfl

theorem popEvent_out (i : Fin n) : ((a.popEvent idx).client i).out = (a.client i).out := by
  rw [popEvent, client_setClient]
  split
  next here => exact here ▸ rfl
  next => rfl

theorem popEvent_events {ev : Event} {events : List Event}
    (queue : (a.client idx).events = ev :: events) (i : Fin n) :
    ((a.popEvent idx).client i).events = if i = idx then events else (a.client i).events := by
  rw [popEvent, client_setClient]
  split
  next => rw [PbxClient.pollEvent, queue]; rfl
  next => rfl

/-- An event that tells of no answer is handled without a change of the calls. -/
theorem Settling.pass {ev : Event} {events : List Event} {b : App F n} (h : a.Settling idx)
    (queue : (a.client idx).events = ev :: events) (other : ∀ k, ev ≠ .answered k)
    (clients : ∀ i, b.client i = (a.popEvent idx).client i)
    (active : ∀ i k, a.callState i k = some .up → a.active = some (i, k) →
      b.active = some (i, k)) : b.Settling idx := by
  have state (i : Fin n) (k : UInt16) : b.callState i k = a.callState i k := by
    rw [callState, clients]
    exact popEvent_callState i k
  have left : (b.client idx).events = events := by
    rw [clients, popEvent_events queue, if_pos rfl]
  refine ⟨fun i k up => ?_, fun k reason member => ?_, fun i elsewhere => ?_, fun i => ?_⟩
  · rw [state] at up
    rw [left]
    rcases h.up i k up with is | ⟨here, pending⟩
    · exact .inl (active i k up is)
    · rw [queue] at pending
      exact .inr ⟨here, (List.mem_cons.mp pending).resolve_left fun first => other k first.symm⟩
  · rw [left] at member
    rw [state]
    exact h.ended k reason (queue ▸ List.mem_cons_of_mem _ member)
  · rw [clients, popEvent_events queue, if_neg elsewhere]
    exact h.events i elsewhere
  · rw [clients, popEvent_out]
    exact h.out i

variable [F64 F]

/-- An event that tells of no answer changes no client. -/
theorem handleEvent_client {ev : Event} (clock : Stream' Instant) (other : ∀ k, ev ≠ .answered k)
    (i : Fin n) : (a.handleEvent idx clock ev).client i = a.client i := by
  cases ev with
  | answered call => exact absurd rfl (other call)
  | voice call ts ulaw =>
    simp only [handleEvent]
    split <;> rfl
  | ended call reason =>
    simp only [handleEvent]
    split <;> rfl
  | _ => rfl

/-- Handling an event queues none. -/
theorem handleEvent_events (clock : Stream' Instant) (ev : Event) (i : Fin n) :
    ((a.handleEvent idx clock ev).client i).events = (a.client i).events := by
  cases ev with
  | answered call => exact (a.makeActive_activated idx call clock).events i
  | _ => exact congrArg PbxClient.events (handleEvent_client clock (fun _ is => by cases is) i)

/-- An event moves a call on hold or off hold, if at all. -/
theorem handleEvent_callState (a : App F n) (idx : Fin n) (clock : Stream' Instant) (ev : Event)
    (i : Fin n) (k : UInt16) :
    (a.handleEvent idx clock ev).callState i k = a.callState i k ∨
      a.callState i k = some .up ∧ (a.handleEvent idx clock ev).callState i k = some .held ∨
      a.callState i k = some .held ∧ (a.handleEvent idx clock ev).callState i k = some .up := by
  by_cases answered : ∃ call, ev = .answered call
  · obtain ⟨call, rfl⟩ := answered
    rw [App.handleEvent, makeActive_callState]
    split
    next previous => exact .inr (.inl ⟨(a.previous_eq_some.mp previous).2.2, rfl⟩)
    next =>
      split
      next resumed => exact .inr (.inr ⟨resumed.2, rfl⟩)
      next => exact .inl rfl
  · left
    rw [callState, handleEvent_client clock fun k is => answered ⟨k, is⟩]
    rfl

/-- The oldest event is handled. -/
theorem Settling.handleEvent {ev : Event} {events : List Event} (h : a.Settling idx)
    (queue : (a.client idx).events = ev :: events) (clock : Stream' Instant) :
    ((a.popEvent idx).handleEvent idx clock ev).Settling idx := by
  cases ev with
  | answered call =>
    have made := (a.popEvent idx).makeActive_activated idx call clock
    have left (i : Fin n) : (((a.popEvent idx).makeActive idx call clock).client i).events =
        if i = idx then events else (a.client i).events :=
      (made.events i).trans (popEvent_events queue i)
    refine ⟨fun i k up => ?_, fun k reason member => ?_, fun i elsewhere => ?_,
      made.out fun i => (popEvent_out i).trans (h.out i)⟩
    · rcases made.up i k up with same | ⟨up, other⟩
      · exact .inl (made.active.trans (congrArg some same.symm))
      · rw [popEvent_callState] at up
        rcases h.up i k up with is | ⟨here, pending⟩
        · exact absurd is other
        · rw [queue] at pending
          rcases List.mem_cons.mp pending with first | later
          · cases first
            exact .inl (made.active.trans (by rw [here]))
          · refine .inr ⟨here, ?_⟩
            rw [App.handleEvent, left, if_pos rfl]
            exact later
    · rw [App.handleEvent, left, if_pos rfl] at member
      refine made.gone idx k ((popEvent_callState idx k).trans ?_)
      exact h.ended k reason (queue ▸ List.mem_cons_of_mem _ member)
    · rw [App.handleEvent, left, if_neg elsewhere]
      exact h.events i elsewhere
  | ended call reason =>
    have gone := h.ended call reason (queue ▸ List.mem_cons_self)
    refine h.pass queue nofun (handleEvent_client clock fun _ => nofun) fun i k up is => ?_
    -- the call that ended is not the one that is up
    have other : a.active ≠ some (idx, call) := by
      intro active
      cases is.symm.trans active
      cases up.symm.trans gone
    exact (congrArg App.active (if_neg other)).trans is
  | voice call ts ulaw =>
    refine h.pass queue nofun (handleEvent_client clock fun _ => nofun) fun i k up is => ?_
    simp only [App.handleEvent]
    split <;> exact is
  | _ =>
    exact h.pass queue nofun (handleEvent_client clock fun _ => nofun) fun _ _ _ is => is

/-- One round of the loop. -/
theorem eventLoop_succ {ev : Event} {events : List Event} (clock : Stream' Instant) (fuel : Nat)
    (queue : (a.client idx).events = ev :: events) :
    App.eventLoop idx (fuel + 1) clock a =
      App.eventLoop idx fuel (clock.drop 3) ((a.popEvent idx).handleEvent idx clock ev) := by
  simp only [App.eventLoop, popEvent, PbxClient.pollEvent, queue, List.head?_cons]

/-- What every round of the loop keeps, the loop keeps. -/
theorem eventLoop_induction {P : App F n → Prop} (clock : Stream' Instant) (fuel : Nat)
    (start : P a)
    (round : ∀ (b : App F n) clock ev events, (b.client idx).events = ev :: events → P b →
      P ((b.popEvent idx).handleEvent idx clock ev)) : P (App.eventLoop idx fuel clock a) := by
  induction fuel generalizing a clock with
  | zero => exact start
  | succ fuel ih =>
    cases queue : (a.client idx).events with
    | nil =>
      simp only [App.eventLoop, PbxClient.pollEvent, queue, List.head?_nil]
      exact start
    | cons ev events =>
      rw [eventLoop_succ clock fuel queue]
      exact ih (clock.drop 3) (round a clock ev events queue start)

/-- The loop leaves no event. -/
theorem eventLoop_events (clock : Stream' Instant) (fuel : Nat)
    (enough : (a.client idx).events.length = fuel) :
    ((App.eventLoop idx fuel clock a).client idx).events = [] := by
  induction fuel generalizing a clock with
  | zero => exact List.length_eq_zero_iff.mp enough
  | succ fuel ih =>
    obtain ⟨ev, events, queue⟩ := List.exists_cons_of_length_eq_add_one enough
    rw [eventLoop_succ clock fuel queue]
    refine ih (clock.drop 3) ?_
    rw [handleEvent_events, popEvent_events queue, if_pos rfl]
    rw [queue, List.length_cons] at enough
    exact Nat.succ.inj enough

theorem Settling.eventLoop (clock : Stream' Instant) (fuel : Nat) (h : a.Settling idx)
    (enough : (a.client idx).events.length = fuel) : (App.eventLoop idx fuel clock a).Settled := by
  have handled := eventLoop_events clock fuel enough
  have settling : (App.eventLoop idx fuel clock a).Settling idx :=
    eventLoop_induction (P := fun b => b.Settling idx) clock fuel h fun _ clock _ _ queue h =>
      h.handleEvent queue clock
  refine ⟨fun i k up => ?_, fun i => ?_, settling.out⟩
  · refine (settling.up i k up).resolve_right ?_
    rintro ⟨_, pending⟩
    rw [handled] at pending
    cases pending
  · by_cases here : i = idx
    · exact here ▸ handled
    · exact settling.events i here

/-- Without an answer among the events, the calls stay as they are. -/
theorem eventLoop_callState (clock : Stream' Instant) (fuel : Nat)
    (unanswered : ∀ k, .answered k ∉ (a.client idx).events) (i : Fin n) (k : UInt16) :
    (App.eventLoop idx fuel clock a).callState i k = a.callState i k := by
  let P (b : App F n) : Prop :=
    (∀ k, .answered k ∉ (b.client idx).events) ∧ b.callState i k = a.callState i k
  suffices kept : P (App.eventLoop idx fuel clock a) from kept.2
  refine eventLoop_induction clock fuel ⟨unanswered, rfl⟩ ?_
  rintro b clock ev events queue ⟨unanswered, same⟩
  rw [queue] at unanswered
  have client (i : Fin n) : ((b.popEvent idx).handleEvent idx clock ev).client i =
      (b.popEvent idx).client i :=
    handleEvent_client clock (fun k is => unanswered k (is ▸ List.mem_cons_self)) i
  refine ⟨fun k member => ?_, ?_⟩
  · rw [client, popEvent_events queue, if_pos rfl] at member
    exact unanswered k (List.mem_cons_of_mem _ member)
  · rw [callState, client]
    exact (popEvent_callState i k).trans same

end

/-! ## Rounds -/

section

variable [F64 F] {a : App F n} {idx : Fin n}

/-- After an operation on one client that tells of what comes up, the driver settles. -/
theorem Settled.settle {c : PbxClient} (h : a.Settled) (informs : (a.client idx).Informs c)
    (clock : Stream' Instant) : ((a.setClient idx c).settle idx clock).Settled := by
  have emitted : (a.client idx).emitted c = c.events := by
    rw [PbxClient.emitted, h.events]
    rfl
  have settling : ((a.setClient idx c).flushTx idx).Settling idx := by
    refine ⟨fun i k up => ?_, fun k reason member => ?_, fun i elsewhere => ?_, fun i => ?_⟩
    · rw [flushTx_callState, callState, client_setClient] at up
      rw [flushTx_active, flushTx_events, client_setClient, if_pos rfl, ← emitted]
      split at up
      next here =>
        rcases informs.answered k up with before | answered
        · exact .inl (here ▸ h.up idx k before)
        · exact .inr ⟨here, answered⟩
      next => exact .inl (h.up i k up)
    · rw [flushTx_events, client_setClient, if_pos rfl, ← emitted] at member
      rw [flushTx_callState, callState, client_setClient, if_pos rfl]
      exact informs.ended k reason member
    · rw [flushTx_events, client_setClient, if_neg elsewhere]
      exact h.events i
    · rw [flushTx_client]
      split
      next => rfl
      next elsewhere =>
        rw [client_setClient, if_neg elsewhere]
        exact h.out i
  exact settling.eventLoop clock _ rfl

/-- Every command but an unhold tells of what comes up. -/
theorem informs_command (c : PbxClient) (cmd : Command) (unhold : ∀ k, cmd ≠ .unhold k)
    (now clock : Instant) : c.Informs (c.handleCommand cmd now clock) := by
  have step : PbxClient.Step (fun _ => Vector.replicate 16 0) c
      ⟨.handleCommand cmd, now, clock⟩ _ := .call c nofun
  exact (PbxClient.Step.outcome step).informs fun k op => unhold k (Op.handleCommand.inj op)

theorem Settled.enter (h : a.Settled) (cmd : Command) (unhold : ∀ k, cmd ≠ .unhold k)
    (now : Instant) (clock : Stream' Instant) : (a.enter idx cmd now clock).Settled :=
  h.settle (informs_command (a.client idx) cmd unhold now clock.head) clock.tail

omit [F64 F] in
/-- Steady commands, one after the other. -/
theorem handleCommands_steady (cmds : List Command) (now : Instant)
    (steady : ∀ cmd ∈ cmds, ∀ (c : PbxClient) (clock : Instant),
      c.Steady (c.handleCommand cmd now clock)) (clock : Stream' Instant) (c : PbxClient) :
    c.Steady (c.handleCommands now cmds clock) := by
  induction cmds generalizing c clock with
  | nil => exact .refl c
  | cons cmd cmds ih =>
    obtain ⟨first, later⟩ := List.forall_mem_cons.mp steady
    exact (first c clock.head).trans (ih later clock.tail _)

theorem Settled.makeActive (h : a.Settled) (call : UInt16) (clock : Stream' Instant) :
    (a.makeActive idx call clock).Settled := by
  have made := a.makeActive_activated idx call clock
  refine ⟨fun i k up => ?_, fun i => (made.events i).trans (h.events i), made.out h.out⟩
  rcases made.up i k up with same | ⟨before, other⟩
  · exact made.active.trans (congrArg some same.symm)
  · exact absurd (h.up i k before) other

/-- After the active call is hung up, no call is up. -/
theorem Settled.hangup {call : UInt16} (h : a.Settled) (active : a.active = some (idx, call))
    (now : Instant) (clock : Stream' Instant) :
    { a.enter idx (.hangup call) now clock with active := none }.Settled := by
  have settled : (a.enter idx (.hangup call) now clock).Settled := h.enter _ (by nofun) now clock
  obtain ⟨state, events⟩ := (a.client idx).hangup_state call now clock.head
  have unanswered (k : UInt16) : .answered k ∉
      (((a.command idx (.hangup call) now clock.head).flushTx idx).client idx).events := by
    rw [flushTx_events, command_client, if_pos rfl]
    intro member
    have before := events k member
    rw [h.events] at before
    cases before
  refine ⟨fun i k up => ?_, settled.events, settled.out⟩
  replace up := (eventLoop_callState clock.tail _ unanswered i k).symm.trans up
  rw [flushTx_callState, callState, command_client] at up
  split at up
  next here =>
    replace up := (state k).symm.trans up
    split at up
    next => cases up
    next other =>
      cases active.symm.trans (h.up idx k up)
      exact absurd rfl other
  next elsewhere =>
    cases active.symm.trans (h.up i k up)
    exact absurd rfl elsewhere

/-- What a line of the keyboard can do. -/
inductive Dispatched (a : App F n) (now : Instant) : App F n → Prop
  | stays {selected : Fin n} : Dispatched a now { a with selected }
  | enter {idx : Fin n} {cmd : Command} {clock : Stream' Instant} : (∀ k, cmd ≠ .unhold k) →
      Dispatched a now (a.enter idx cmd now clock)
  | dtmf {idx : Fin n} {call : UInt16} {digits : List Char} {clock clock' : Stream' Instant} :
      Dispatched a now ((a.commands idx (digits.map (.dtmf call)) now clock).settle idx clock')
  | hangup {idx : Fin n} {call : UInt16} {clock : Stream' Instant} : a.active = some (idx, call) →
      Dispatched a now { a.enter idx (.hangup call) now clock with active := none }
  | connect {idx : Fin n} {call : UInt16} {clock : Stream' Instant} :
      Dispatched a now (a.makeActive idx call clock)

theorem dispatched (a : App F n) (line : List Char) (now : Instant)
    (clock : Fin n → Stream' Instant) : a.Dispatched now (a.dispatch line now clock).2 := by
  have stays : a.Dispatched now a := .stays
  rw [App.dispatch]
  split
  next => exact stays
  next => exact stays
  next =>
    dsimp only
    split
    · exact .stays
    · exact stays
  next => exact stays
  next =>
    dsimp only
    split
    · exact stays
    · exact .enter (by nofun)
  next =>
    dsimp only
    split
    · exact .enter (by nofun)
    · exact stays
  next =>
    dsimp only
    split
    · exact stays
    · split
      · exact .dtmf
      · exact stays
  next =>
    dsimp only
    split
    next active => exact .hangup active
    next => exact stays
  next =>
    dsimp only
    split
    · exact stays
    · split
      · split
        · exact .enter (by nofun)
        · exact .connect
        · exact stays
      · exact stays
  next => exact stays

/-- Every line of the keyboard keeps the driver settled. -/
theorem Settled.dispatch (h : a.Settled) (line : List Char) (now : Instant)
    (clock : Fin n → Stream' Instant) : (a.dispatch line now clock).2.Settled := by
  have dispatched := a.dispatched line now clock
  generalize (a.dispatch line now clock).2 = b at dispatched ⊢
  cases dispatched with
  | stays => exact ⟨h.up, h.events, h.out⟩
  | enter unhold => exact h.enter _ unhold now _
  | @dtmf idx call digits clock clock' =>
    have steady := handleCommands_steady (digits.map (.dtmf call)) now
      (List.forall_mem_map.mpr fun d _ c t => c.sendDtmf_steady call d now t) clock (a.client idx)
    exact h.settle steady.informs clock'
  | hangup active => exact h.hangup active now _
  | connect => exact h.makeActive _ _

theorem Settled.onTimer (h : a.Settled) (now : Instant) (clock : Fin n → Stream' Instant) :
    (a.onTimer now clock).Settled := by
  rw [App.onTimer]
  generalize List.finRange n = l
  induction l generalizing a with
  | nil => exact h
  | cons idx l ih =>
    have step : PbxClient.Step (fun _ => Vector.replicate 16 0) (a.client idx)
        ⟨.handleTimeout, now, (clock idx).head⟩ _ := .call _ nofun
    exact ih (h.settle ((PbxClient.Step.outcome step).informs nofun) (clock idx).tail)

omit [F64 F] in
theorem Settled.pumpPlayout (h : a.Settled) : a.pumpPlayout.2.Settled := by
  rw [App.pumpPlayout]
  split
  · split
    · exact ⟨h.up, h.events, h.out⟩
    · exact h
  · exact h

omit [F64 F] in
/-- A client that is steady, and flushed. -/
theorem Settled.flushTx {c : PbxClient} (h : a.Settled) (steady : (a.client idx).Steady c) :
    ((a.setClient idx c).flushTx idx).Settled := by
  refine ⟨fun i k up => ?_, fun i => ?_, fun i => ?_⟩
  · rw [flushTx_callState, callState, client_setClient] at up
    rw [flushTx_active, setClient_active]
    split at up
    next here => exact here ▸ h.up idx k ((steady.callState k).symm.trans up)
    next => exact h.up i k up
  · rw [flushTx_events, client_setClient]
    split
    next => exact steady.events.trans (h.events idx)
    next => exact h.events i
  · rw [flushTx_client, client_setClient]
    split
    next => rfl
    next => exact h.out i

omit [F64 F] in
/-- A tick of the microphone, with the flush after it, is a list of voice commands for the active
call, if it is up. -/
theorem onAudioTick_cases (a : App F n) (frames : List Bytes) (now : Instant)
    (clock : Fin n → Stream' Instant) :
    (∃ idx call, a.active = some (idx, call) ∧ a.callState idx call = some .up ∧
      a.onAudioTick frames now clock = ((a.commands idx (frames.map (.sendVoice call)) now
        (clock idx)).flushTx idx).pumpPlayout.2) ∨
      a.onAudioTick frames now clock = a.pumpPlayout.2 := by
  cases active : a.active with
  | none => exact .inr (by simp only [App.onAudioTick, pumpMic, active])
  | some p =>
    obtain ⟨idx, call⟩ := p
    by_cases up : a.callState idx call = some .up
    · refine .inl ⟨idx, call, rfl, up, ?_⟩
      simp only [App.onAudioTick, pumpMic, active, up, if_true]
    · exact .inr (by simp only [App.onAudioTick, pumpMic, active, up, if_false])

omit [F64 F] in
theorem Settled.onAudioTick (h : a.Settled) (frames : List Bytes) (now : Instant)
    (clock : Fin n → Stream' Instant) : (a.onAudioTick frames now clock).Settled := by
  rcases a.onAudioTick_cases frames now clock with ⟨idx, call, _, _, tick⟩ | tick
  · rw [tick]
    refine (h.flushTx (handleCommands_steady _ now ?_ (clock idx) _)).pumpPlayout
    exact List.forall_mem_map.mpr fun ulaw _ c t => c.sendVoice_steady call ulaw t
  · rw [tick]
    exact h.pumpPlayout

/-- Every step keeps the driver settled. -/
theorem Settled.step {md5 : Md5} {r : Round n} {b : App F n} (h : a.Settled)
    (step : Step md5 a r b) : b.Settled := by
  cases step with
  | round _ =>
    rw [App.apply]
    split
    next idx dg _ =>
      have step : PbxClient.Step md5 (a.client idx)
        ⟨.handleInput dg, r.now, (r.clock idx).head⟩ _ := .call _ nofun
      exact h.settle ((PbxClient.Step.outcome step).informs nofun) (r.clock idx).tail
    next => exact h.onTimer r.now r.clock
    next => exact h.onAudioTick _ r.now r.clock
    next => exact h.dispatch _ r.now r.clock
    next => exact h
  | @rehash idx c _ reordered =>
    obtain ⟨calls, remoteIndex, same, _, rfl⟩ := reordered
    refine ⟨fun i k up => ?_, fun i => ?_, fun i => ?_⟩
    · rw [callState, client_setClient] at up
      split at up
      next here =>
        rw [PbxClient.callState, same.lookup_eq] at up
        exact here ▸ h.up idx k up
      next => exact h.up i k up
    · rw [client_setClient]
      split
      next => exact h.events idx
      next => exact h.events i
    · rw [client_setClient]
      split
      next => exact h.out idx
      next => exact h.out i

end

/-! ## The clients of the driver -/

section

variable {md5 : Md5} {a b c : App F n} {idx : Fin n}

variable (md5) in
/-- The driver takes each client from one state to the other by steps of the client. -/
def Drives (a b : App F n) : Prop :=
  ∀ i, Relation.ReflTransGen (fun s s' => ∃ x, PbxClient.Step md5 s x s') (a.client i) (b.client i)

theorem Drives.refl (same : ∀ i, b.client i = a.client i) : Drives md5 a b :=
  fun i => same i ▸ .refl

theorem Drives.trans (h : Drives md5 a b) (h' : Drives md5 b c) : Drives md5 a c :=
  fun i => (h i).trans (h' i)

theorem Drives.setClient {s : PbxClient}
    (h : Relation.ReflTransGen (fun s s' => ∃ x, PbxClient.Step md5 s x s') (a.client idx) s) :
    Drives md5 a (a.setClient idx s) := by
  intro i
  rw [client_setClient]
  split
  next here => exact here ▸ h
  next => exact .refl

/-- One call of an entry point of a client. -/
theorem Drives.call (x : Invocation) (h : x.op ≠ .rehash) :
    Drives md5 a (a.setClient idx ((a.client idx).apply md5 x)) :=
  .setClient (.single ⟨x, .call _ h⟩)

theorem Drives.command (cmd : Command) (now clock : Instant) :
    Drives md5 a (a.command idx cmd now clock) := .call ⟨.handleCommand cmd, now, clock⟩ nofun

theorem Drives.commands (cmds : List Command) (now : Instant) (clock : Stream' Instant) :
    Drives md5 a (a.commands idx cmds now clock) := by
  refine .setClient ?_
  generalize a.client idx = s
  induction cmds generalizing s clock with
  | nil => exact .refl
  | cons cmd cmds ih =>
    exact .head ⟨⟨.handleCommand cmd, now, clock.head⟩, .call s nofun⟩ (ih clock.tail _)

theorem Drives.flushTx : Drives md5 a (a.flushTx idx) := by
  have drained (out : List Bytes) (s : PbxClient) : Relation.ReflTransGen
      (fun s s' => ∃ x, PbxClient.Step md5 s x s') { s with out } { s with out := [] } := by
    induction out with
    | nil => exact .refl
    | cons b out ih =>
      exact .head ⟨⟨.pollTransmit, 0, 0⟩, .call { s with out := b :: out } nofun⟩ ih
  intro i
  rw [flushTx_client]
  split
  · exact drained (a.client i).out (a.client i)
  · exact .refl

theorem Drives.foldl {α : Type} {f : App F n → α → App F n} (l : List α)
    (step : ∀ a x, Drives md5 a (f a x)) : Drives md5 a (l.foldl f a) := by
  induction l generalizing a with
  | nil => exact .refl fun _ => rfl
  | cons x l ih => exact (step a x).trans ih

variable [F64 F]

theorem Drives.makeActive (call : UInt16) (clock : Stream' Instant) :
    Drives md5 a (a.makeActive idx call clock) := by
  have held (now t : Instant) : Drives md5 a (a.holdPrevious idx call now t) := by
    rw [holdPrevious]
    split
    · exact .command _ now t
    · exact .refl fun _ => rfl
  have resumed (b : App F n) (now t : Instant) : Drives md5 b (b.resume idx call now t) := by
    rw [resume]
    split
    · exact .command _ now t
    · exact .refl fun _ => rfl
  obtain ⟨b, l, made, _, same, _⟩ := a.makeActive_flushes idx call clock
  rw [made]
  have flushed : Drives md5 b (l.foldl App.flushTx b) := .foldl l fun _ _ => .flushTx
  exact ((held _ _).trans (resumed _ _ _)).trans ((Drives.refl same).trans flushed)

theorem Drives.handleEvents (clock : Stream' Instant) :
    Drives md5 a (a.handleEvents idx clock) := by
  refine eventLoop_induction (P := fun b => Drives md5 a b) clock _ (.refl fun _ => rfl) ?_
  intro b clock ev _ _ driven
  have taken : Drives md5 b (b.popEvent idx) := .call ⟨.pollEvent, 0, 0⟩ fun is => by cases is
  refine .trans driven (.trans taken ?_)
  cases ev with
  | answered call => exact .makeActive call clock
  | _ => exact .refl (handleEvent_client clock fun _ is => by cases is)

theorem Drives.settle (clock : Stream' Instant) : Drives md5 a (a.settle idx clock) :=
  .trans .flushTx (.handleEvents clock)

theorem Drives.enter (cmd : Command) (now : Instant) (clock : Stream' Instant) :
    Drives md5 a (a.enter idx cmd now clock) :=
  .trans (.command cmd now clock.head) (.settle clock.tail)

theorem Drives.dispatch (line : List Char) (now : Instant) (clock : Fin n → Stream' Instant) :
    Drives md5 a (a.dispatch line now clock).2 := by
  have dispatched := a.dispatched line now clock
  generalize (a.dispatch line now clock).2 = b at dispatched ⊢
  cases dispatched with
  | stays => exact .refl fun _ => rfl
  | enter _ => exact .enter _ now _
  | dtmf => exact .trans (.commands _ now _) (.settle _)
  | hangup _ => exact .trans (.enter _ now _) (.refl fun _ => rfl)
  | connect => exact .makeActive _ _

theorem Step.drives {r : Round n} (step : Step md5 a r b) : Drives md5 a b := by
  cases step with
  | round _ =>
    rw [App.apply]
    split
    next idx dg _ =>
      exact .trans (.call ⟨.handleInput dg, r.now, (r.clock idx).head⟩ nofun)
        (.settle (r.clock idx).tail)
    next =>
      exact .foldl _ fun _ idx =>
        .trans (.call ⟨.handleTimeout, r.now, (r.clock idx).head⟩ nofun)
          (.settle (r.clock idx).tail)
    next frames _ =>
      have played (a : App F n) : Drives md5 a a.pumpPlayout.2 := by
        rw [pumpPlayout]
        split
        · split <;> exact .refl fun _ => rfl
        · exact .refl fun _ => rfl
      rcases a.onAudioTick_cases frames r.now r.clock with ⟨idx, call, _, _, tick⟩ | tick
      · rw [tick]
        exact .trans (.trans (.commands _ r.now (r.clock idx)) .flushTx) (played _)
      · rw [tick]
        exact played a
    next => exact .dispatch _ r.now r.clock
    next => exact .refl fun _ => rfl
  | rehash rehash reordered => exact .setClient (.single ⟨⟨.rehash, 0, 0⟩, .rehash rfl reordered⟩)

/-- What the driver reaches from a run of a client is a run of the client. -/
theorem run_of_steps {cfg : Config} {past : List PbxClient.Move} {s s' : PbxClient}
    (run : (PbxClient.system md5 cfg).Run past s)
    (steps : Relation.ReflTransGen (fun s s' => ∃ x, PbxClient.Step md5 s x s') s s') :
    ∃ past', (PbxClient.system md5 cfg).Run past' s' := by
  induction steps with
  | refl => exact ⟨past, run⟩
  | tail _ step ih =>
    obtain ⟨past', run⟩ := ih
    obtain ⟨_, step⟩ := step
    exact ⟨_, .step run step⟩

end

/-! ## Every run -/

section

variable [F64 F] [NeZero n] {md5 : Md5} {cfgs : Vector Config n}
  {past : List (Transition (App F n) (Round n))} {a : App F n}

theorem new_client (cfgs : Vector Config n) (starts : Vector Instant n) (i : Fin n) :
    (new cfgs starts : App F n).client i = PbxClient.new (cfgs.get i) (starts.get i) := by
  simp only [client, new, Fin.getElem_fin, Vector.getElem_zipWith]
  rfl

/-- Each client of a softphone makes a run of its own. -/
theorem client_run (run : (system md5 F cfgs).Run past a) (i : Fin n) :
    ∃ past', (PbxClient.system md5 (cfgs.get i)).Run past' (a.client i) := by
  induction run with
  | start init =>
    obtain ⟨starts, rfl⟩ := init
    exact ⟨[], .start ⟨starts.get i, new_client cfgs starts i⟩⟩
  | step _ step ih =>
    obtain ⟨past', run⟩ := ih
    exact run_of_steps run (Step.drives step i)

/-- Between two rounds of the main loop the driver is settled. -/
theorem settled_run (run : (system md5 F cfgs).Run past a) : a.Settled := by
  refine run.invariant ?_ fun _ _ _ step h => h.step step
  rintro _ ⟨starts, rfl⟩
  refine ⟨fun i k up => ?_, fun i => ?_, fun i => ?_⟩
  · rw [callState, new_client] at up
    cases up
  · rw [new_client]
    rfl
  · rw [new_client]
    rfl

/-- What a tick of the audio sends is voice of a call that is up. -/
theorem onAudioTick_sent (run : (system md5 F cfgs).Run past a) (frames : List Bytes)
    (now : Instant) (clock : Fin n → Stream' Instant) :
    ∀ e ∈ (a.onAudioTick frames now clock).sent.drop a.sent.length,
      ∃ k, a.callState e.1 k = some .up ∧
        ∃ p ∈ frames, PbxClient.FullVoice k p e.2 ∨ PbxClient.MiniVoice k p e.2 := by
  have settled := settled_run run
  have played (b : App F n) : b.pumpPlayout.2.sent = b.sent := by
    rw [pumpPlayout]
    split
    · split <;> rfl
    · rfl
  intro e member
  rcases a.onAudioTick_cases frames now clock with ⟨idx, call, _, up, tick⟩ | tick
  · rw [tick, played, flushTx_eq, commands, client_setClient, if_pos rfl] at member
    obtain ⟨dg, queued, rfl⟩ := List.mem_map.mp (List.drop_left ▸ member)
    obtain ⟨past', run⟩ := client_run run idx
    have voice := PbxClient.handleCommands_out run call frames now (clock idx) dg queued
    rw [settled.out] at voice
    exact ⟨call, up, voice.resolve_left List.not_mem_nil⟩
  · rw [tick, played, List.drop_length] at member
    cases member

/-- One conversation over all PBXes: after every step of every run, a call that is up on any client
is the active one. So at most one call is up, and what a tick of the audio sends is voice of that
call. -/
theorem one_conversation (run : (system md5 F cfgs).Run past a) :
    (∀ i k, a.callState i k = some .up → a.active = some (i, k)) ∧
    (∀ i k j l, a.callState i k = some .up → a.callState j l = some .up → i = j ∧ k = l) ∧
    ∀ frames now clock, ∀ e ∈ (a.onAudioTick frames now clock).sent.drop a.sent.length,
      ∃ k, a.callState e.1 k = some .up ∧
        ∃ p ∈ frames, PbxClient.FullVoice k p e.2 ∨ PbxClient.MiniVoice k p e.2 := by
  have settled := settled_run run
  refine ⟨settled.up, fun i k j l up up' => ?_, onAudioTick_sent run⟩
  cases (settled.up i k up).symm.trans (settled.up j l up')
  exact ⟨rfl, rfl⟩

end

open SoftphoneSample in
/-- Both clients have a call that is answered: the second one takes the audio, and the first one is
on hold. -/
theorem one_conversation_sample :
    let a := after [ring 0, ring 1, type "a", type "a"]
    a.callState 0 16 = some .held ∧ a.callState 1 16 = some .up ∧ a.active = some (1, 16) := by
  intro a
  have up : a.callState 1 16 = some .up := by decide +kernel
  exact ⟨by decide +kernel, up, (one_conversation (run _ (by decide))).1 1 16 up⟩

end App

end Iax2
