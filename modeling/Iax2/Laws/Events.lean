import Iax2.Laws.Sessions
import Iax2.Laws.Voice
import Iax2.Softphone

/-!
# What a client tells its driver

A driver that owns several clients sees their calls through `callState` and the events. Two things
it can rely on after every operation (`Informs`): a call that came up is reported as answered,
unless it was taken off hold, and a call that is reported as ended is gone. The commands on a single
call are told apart here by what they do to the states and the queues.
-/

namespace Iax2

namespace PbxClient

/-! ## What the driver is told -/

section

variable {s s' : PbxClient} {md5 : Md5}

theorem callState_eq_some {k : UInt16} {state : CallState} :
    s.callState k = some state ↔ ∃ c, s.calls.lookup k = some c ∧ c.state = state :=
  Option.map_eq_some_iff

theorem callState_eq_none {k : UInt16} : s.callState k = none ↔ s.calls.lookup k = none :=
  Option.map_eq_none_iff

/-- A call that is up was up before, or is reported as answered; a call that is reported as ended is
not live. -/
structure Informs (s s' : PbxClient) : Prop where
  answered : ∀ k, s'.callState k = some .up →
    s.callState k = some .up ∨ .answered k ∈ s.emitted s'
  ended : ∀ k reason, .ended k reason ∈ s.emitted s' → s'.callState k = none

/-- The calls are in the states that they were in, and nothing is reported. -/
structure Steady (s s' : PbxClient) : Prop where
  callState : ∀ k, s'.callState k = s.callState k
  events : s'.events = s.events

theorem Steady.refl (s : PbxClient) : s.Steady s := ⟨fun _ => rfl, rfl⟩

theorem Steady.trans {s'' : PbxClient} (h : s.Steady s') (h' : s'.Steady s'') : s.Steady s'' :=
  ⟨fun k => (h'.callState k).trans (h.callState k), h'.events.trans h.events⟩

theorem Steady.informs (h : s.Steady s') : s.Informs s' where
  answered k up := .inl (h.callState k ▸ up)
  ended k reason hev := by
    rw [emitted_same h.events] at hev
    cases hev

/-- No reaction reports the end of a call by itself. -/
theorem ended_not_mem_reaction {i : Invocation} {call k : UInt16} {c : CallLeg} {x : CallInput}
    {reason : String} : .ended k reason ∉ (s.reaction md5 i call c x).events := by
  intro hev
  rcases reaction_events md5 s i call c x _ hev with ⟨_, text⟩ | ⟨_, course⟩
  · cases text
  · exact course

/-- A call that is reported as ended is not live. -/
theorem Outcome.ended_gone {i : Invocation} (step : s.Outcome md5 i s') {k : UInt16}
    {reason : String} (hev : .ended k reason ∈ s.emitted s') : s'.callState k = none := by
  rw [callState_eq_none]
  cases step with
  | quiet _ effect => cases effect.events _ hev
  | @touched call x c _ _ effect =>
    rw [effect.events] at hev
    have farewell := (List.mem_append.mp hev).resolve_left ended_not_mem_reaction
    rcases kept_or_farewell call (s.reaction md5 i call c x) with kept | ⟨dropped, _, eq⟩
    · rw [farewell_of_kept kept] at farewell
      cases farewell
    · rw [eq] at farewell
      cases List.mem_singleton.mp farewell
      exact (effect.calls k).trans ((if_pos rfl).trans dropped)
  | @opened o _ effect =>
    obtain ⟨ev, events, _, opens⟩ := opened_events s i s.allocCallno.1 o
    rw [effect.events, events] at hev
    cases List.mem_singleton.mp hev
    exact opens.elim
  | expired _ effect =>
    obtain ⟨service, dead, hservice, _, hdead, events⟩ := effect.events
    rw [events] at hev
    rcases List.mem_append.mp hev with hev | hev
    · cases hservice _ hev
    · obtain ⟨j, hj, same⟩ := List.mem_map.mp hev
      cases same
      obtain ⟨c, hc, spent⟩ := (Option.any_eq_true _ _).mp ((hdead k).mp hj)
      rw [effect.calls, hc, Option.bind_some, CallLeg.survivor, if_pos spent]

/-- Every step but an unhold tells of the calls that come up. -/
theorem Outcome.informs {i : Invocation} (step : s.Outcome md5 i s')
    (unhold : ∀ k, i.op ≠ .handleCommand (.unhold k)) : s.Informs s' where
  answered k up := by
    obtain ⟨c', live', up⟩ := callState_eq_some.mp up
    rcases step.entry live' with ⟨c, live, state, _⟩ | ⟨c, x, live, target, rfl⟩ | ⟨o, _, _, rfl⟩
    · exact .inl (callState_eq_some.mpr ⟨c, live, state ▸ up⟩)
    · rw [(reaction_state ..).1] at up
      rcases nextState_up up with up | ⟨rfl, ringing⟩ | rfl | ⟨f, rfl, kind⟩
      · exact .inl (callState_eq_some.mpr ⟨c, live, up⟩)
      · exact .inr ((step.answered_iff live).mpr ⟨_, target, .inl ⟨rfl, ringing⟩⟩)
      · exact absurd (target_eq_call target).2 (unhold k)
      · exact .inr ((step.answered_iff live).mpr ⟨_, target, .inr ⟨f, rfl, kind⟩⟩)
    · exact (opened_state s i k o (.inl up)).elim
  ended _ _ hev := step.ended_gone hev

/-! ## Commands on one call -/

/-- A call that keeps its entry and reports nothing is in the state of the entry. -/
theorem onCall_keep (call : UInt16) (r : CallLeg → Reaction) (state : CallLeg → CallState)
    (keeps : ∀ c, ∃ c', (r c).fate = .keep c' ∧ c'.state = state c ∧ (r c).events = []) :
    (∀ k, (s.onCall call r).callState k =
      if k = call then (s.calls.lookup call).map state else s.callState k) ∧
      (s.onCall call r).events = s.events := by
  cases live : s.calls.lookup call with
  | none =>
    simp only [onCall, live, Option.map_none, and_true]
    intro k
    split
    next same => rw [same, callState_eq_none, live]
    next => rfl
  | some c =>
    obtain ⟨c', fate, same, events⟩ := keeps c
    have touched := onCall_touched live r
    refine ⟨fun k => ?_, ?_⟩
    · rw [callState, touched.calls]
      split
      · simp only [Reaction.kept, fate, Option.map_some, same]
      · rfl
    · simp only [onCall, live, react, fate, events, List.append_nil]

theorem setHold_state (call : UInt16) (hold : Bool) (now clock : Instant) :
    (∀ k, (s.setHold call hold now clock).callState k =
      if k = call then (s.callState call).map fun _ => if hold then .held else .up
      else s.callState k) ∧ (s.setHold call hold now clock).events = s.events := by
  obtain ⟨state, events⟩ := onCall_keep (s := s) call (·.setHold hold (s.ts clock) now)
    (fun _ => if hold then .held else .up) fun c => ⟨_, rfl, rfl, rfl⟩
  refine ⟨fun k => (state k).trans ?_, events⟩
  simp only [callState, Option.map_map, Function.comp_def]

theorem steady_of_keep {call : UInt16} {r : CallLeg → Reaction}
    (keeps : ∀ c, ∃ c', (r c).fate = .keep c' ∧ c'.state = c.state ∧ (r c).events = []) :
    s.Steady (s.onCall call r) := by
  obtain ⟨state, events⟩ := onCall_keep (s := s) call r CallLeg.state keeps
  refine ⟨fun k => (state k).trans ?_, events⟩
  split
  next same => rw [same]; rfl
  next => rfl

theorem sendDtmf_steady (call : UInt16) (digit : Char) (now clock : Instant) :
    s.Steady (s.sendDtmf call digit now clock) := by
  rw [sendDtmf]
  split
  · exact .refl s
  · exact steady_of_keep fun c => ⟨_, rfl, rfl, rfl⟩

theorem sendVoice_steady (call : UInt16) (ulaw : Bytes) (clock : Instant) :
    s.Steady (s.sendVoice call ulaw clock) := by
  refine steady_of_keep fun c => ?_
  simp only [CallLeg.sendVoice]
  split
  · exact ⟨_, rfl, rfl, rfl⟩
  · split <;> exact ⟨_, rfl, rfl, rfl⟩

/-- A call that is hung up is not live, the others are as they were, and no answer is reported. -/
theorem hangup_state (call : UInt16) (now clock : Instant) :
    (∀ k, (s.hangup call now clock).callState k = if k = call then none else s.callState k) ∧
      ∀ k, .answered k ∈ (s.hangup call now clock).events → .answered k ∈ s.events := by
  cases live : s.calls.lookup call with
  | none =>
    simp only [hangup, onCall, live]
    refine ⟨fun k => ?_, fun _ h => h⟩
    split
    next same => rw [same, callState_eq_none, live]
    next => rfl
  | some c =>
    have touched := onCall_touched live (·.hangup (s.ts clock) now)
    refine ⟨fun k => ?_, fun k h => ?_⟩
    · rw [callState, hangup, touched.calls]
      split <;> rfl
    · have lookup (c' : CallLeg) : (s.calls.replace call c').lookup call = some c' := by
        rw [Table.lookup_replace, if_pos rfl, live, Option.map_some]
      simp only [hangup, onCall, live, react, CallLeg.hangup, dropCall, Reaction.entry, lookup,
        List.append_nil, List.mem_append, List.mem_singleton, reduceCtorEq, or_false] at h
      exact h

/-! ## Voice commands -/

theorem onCall_out {call : UInt16} {c : CallLeg} (live : s.calls.lookup call = some c)
    (r : CallLeg → Reaction) : (s.onCall call r).out = s.out ++ (r c).sent := by
  simp only [onCall, live, react]
  split
  · rfl
  · rw [dropCall]
    split <;> rfl

/-- A voice command queues a voice frame of its call, or nothing. -/
theorem sendVoice_out (wf : s.WellFormed) (call : UInt16) (p : Bytes) (clock : Instant) :
    ∀ dg ∈ (s.sendVoice call p clock).out,
      dg ∈ s.out ∨ FullVoice call p dg ∨ MiniVoice call p dg := by
  intro dg member
  cases live : s.calls.lookup call with
  | none =>
    simp only [sendVoice, onCall, live] at member
    exact .inl member
  | some c =>
    rw [sendVoice, onCall_out live] at member
    refine (List.mem_append.mp member).imp id fun sent => ?_
    by_cases up : c.state = .up
    · obtain ⟨dg', only, reads⟩ := sendVoice_sent up p (s.ts clock)
      rw [only] at sent
      cases List.mem_singleton.mp sent
      rw [wf.src live] at reads
      split at reads
      next => exact .inr ⟨_, reads.1, reads.2, rfl, rfl⟩
      next =>
        obtain ⟨f, decoded, voice, _, src, _, payload⟩ := reads
        exact .inl ⟨f, decoded, voice, src, payload⟩
    · simp only [CallLeg.sendVoice, ne_eq, up, not_false_eq_true, if_true, Reaction.idle,
        List.not_mem_nil] at sent

/-- Voice commands for one call, one after the other. -/
theorem handleCommands_out {cfg : Config} {past : List Move} (run : (system md5 cfg).Run past s)
    (call : UInt16) (frames : List Bytes) (now : Instant) (clock : Stream' Instant) :
    ∀ dg ∈ (s.handleCommands now (frames.map (.sendVoice call)) clock).out,
      dg ∈ s.out ∨ ∃ p ∈ frames, FullVoice call p dg ∨ MiniVoice call p dg := by
  induction frames generalizing s past clock with
  | nil => exact fun _ member => .inl member
  | cons p frames ih =>
    intro dg member
    have step : Step md5 s ⟨.handleCommand (.sendVoice call p), now, clock.head⟩ _ := .call s nofun
    rcases ih (.step run step) clock.tail dg member with before | ⟨p', hp', voice⟩
    · refine (sendVoice_out (wellFormed_run run) call p clock.head dg before).imp id fun voice => ?_
      exact ⟨p, List.mem_cons_self, voice⟩
    · exact .inr ⟨p', List.mem_cons_of_mem _ hp', voice⟩

end

end PbxClient

end Iax2
