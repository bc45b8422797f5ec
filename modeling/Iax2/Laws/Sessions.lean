import Mathlib.Data.Finset.Card
import Iax2.Laws.Store
import Iax2.Lib.Sessions

/-!
# The event stream

What the driver sees of a call. The events that mention one call number are a sequence of sessions:
a session is opened by `Incoming` or `Dialing`, closed by `Ended`, and a number is live exactly
while its last session is open (`eventGrammar_run`). `Outcome.logged` says what one step adds to the
log of one number.

With every call number in use, a new call takes the place of the first one, which is not reported as
ended. The law is about the runs that stay below that.
-/

namespace Iax2.PbxClient

variable {s s' : PbxClient} {md5 : Md5}

/-- The kinds of the events of a call. -/
def callEvents : SessionKinds Event where
  opens
    | .incoming _ _ _ | .dialing _ _ => True
    | _ => False
  continues
    | .ringing _ | .answered _ | .voice _ _ _ | .dtmf _ _ => True
    | _ => False
  closes
    | .ended _ _ => True
    | _ => False

/-- The events that mention the call `k`. -/
def about (k : UInt16) (events : List Event) : List Event := events.filter (·.call? = some k)

/-- All events of a history, oldest first. -/
def reported : List Move → List Event
  | [] => []
  | t :: past => reported past ++ t.emitted

theorem about_append (k : UInt16) (l l' : List Event) :
    about k (l ++ l') = about k l ++ about k l' :=
  List.filter_append l l'

/-- Events about other calls, or about none, are not in the log of `k`. -/
theorem about_eq_nil {k : UInt16} {events : List Event} (h : ∀ ev ∈ events, ev.call? ≠ some k) :
    about k events = [] := by
  refine List.filter_eq_nil_iff.mpr fun ev hev => ?_
  rw [decide_eq_true_eq]
  exact h ev hev

theorem about_one {k : UInt16} {ev : Event} (h : ev.call? = some k) : about k [ev] = [ev] := by
  simp only [about, List.filter_cons, h, decide_true, if_true, List.filter_nil]

/-! ## The events of a step -/

/-- A reaction reports the course of its call, and nothing about another:
beside it, at most a text for the log. -/
theorem reaction_events (md5 : Md5) (s : PbxClient) (i : Invocation) (call : UInt16) (c : CallLeg)
    (x : CallInput) : ∀ ev ∈ (s.reaction md5 i call c x).events,
      (∃ text, ev = .log text) ∨ ev.call? = some call ∧ callEvents.continues ev := by
  have none_of : ∀ ev ∈ ([] : List Event),
      (∃ text, ev = .log text) ∨ ev.call? = some call ∧ callEvents.continues ev := by
    intro ev h
    cases h
  have one_of {e : Event}
      (he : (∃ text, e = .log text) ∨ e.call? = some call ∧ callEvents.continues e) :
      ∀ ev ∈ [e], (∃ text, ev = .log text) ∨ ev.call? = some call ∧ callEvents.continues ev := by
    intro ev h
    obtain rfl := List.mem_singleton.mp h
    exact he
  cases x with
  | answer =>
    simp only [reaction, CallLeg.answer]
    split
    · exact one_of (.inr ⟨rfl, trivial⟩)
    · exact none_of
  | voice ulaw =>
    simp only [reaction, CallLeg.sendVoice]
    split
    · exact none_of
    · split <;> exact none_of
  | mini m =>
    simp only [reaction, CallLeg.onMini]
    split
    · exact one_of (.inr ⟨rfl, trivial⟩)
    · exact none_of
  | frame f =>
    have hdir : (c.noteFrame f).dir = c.dir := rfl
    simp only [reaction, CallLeg.onFrame, hdir]
    cases f.callKind c.dir with
    | voice =>
      simp only
      split
      · exact one_of (.inr ⟨rfl, trivial⟩)
      · exact none_of
    | authreq =>
      simp only
      split
      · exact one_of (.inl ⟨_, rfl⟩)
      · split
        · exact one_of (.inl ⟨_, rfl⟩)
        · exact none_of
    | accept =>
      simp only
      split <;> exact none_of
    | ringing => exact one_of (.inr ⟨rfl, trivial⟩)
    | answer => exact one_of (.inr ⟨rfl, trivial⟩)
    | dtmf => exact one_of (.inr ⟨rfl, trivial⟩)
    | other => exact one_of (.inl ⟨_, rfl⟩)
    | _ => exact none_of
  | _ => exact none_of

/-- A new call is reported by one opening event. -/
theorem opened_events (s : PbxClient) (i : Invocation) (call : UInt16) (o : Opening) :
    ∃ ev, (s.opened i call o).events = [ev] ∧ ev.call? = some call ∧ callEvents.opens ev := by
  cases o with
  | dial number => exact ⟨_, rfl, rfl, trivial⟩
  | incoming f => exact ⟨_, rfl, rfl, trivial⟩

/-- The calls that end at once are reported once each. -/
theorem about_dead {k : UInt16} {dead : List UInt16} (nodup : dead.Nodup) (reason : String) :
    about k (dead.map (Event.ended · reason)) = if k ∈ dead then [.ended k reason] else [] := by
  induction dead with
  | nil => rfl
  | cons j dead ih =>
    obtain ⟨fresh, nodup⟩ := List.nodup_cons.mp nodup
    rw [List.map_cons, ← List.singleton_append, about_append, ih nodup]
    by_cases hj : j = k
    · subst hj
      rw [if_neg fresh, if_pos List.mem_cons_self, List.append_nil]
      exact about_one rfl
    · have other : about k [Event.ended j reason] = [] := by
        refine about_eq_nil fun ev hev => ?_
        obtain rfl := List.mem_singleton.mp hev
        exact fun h => hj (Option.some.inj h)
      have hk : k ≠ j := fun h => hj h.symm
      rw [other, List.nil_append]
      simp only [List.mem_cons, hk, false_or]

/-- What a step adds to the log of the call number `k`, and what becomes of the call. -/
inductive Logged (k : UInt16) (s s' : PbxClient) : Prop
  | nothing (live : k ∈ s'.calls ↔ k ∈ s.calls) (log : about k (s.emitted s') = [])
  | course (live : k ∈ s.calls) (live' : k ∈ s'.calls)
      (log : ∀ ev ∈ about k (s.emitted s'), callEvents.continues ev)
  | opening (ev : Event) (free : k ∉ s.calls) (live' : k ∈ s'.calls)
      (log : about k (s.emitted s') = [ev]) (opens : callEvents.opens ev)
  | ending (before : List Event) (ev : Event) (live : k ∈ s.calls) (gone : k ∉ s'.calls)
      (log : about k (s.emitted s') = before ++ [ev])
      (course : ∀ ev ∈ before, callEvents.continues ev) (closes : callEvents.closes ev)

theorem mem_calls_of_lookup {j : UInt16} (h : s'.calls.lookup j = s.calls.lookup j) :
    j ∈ s'.calls ↔ j ∈ s.calls := by
  rw [Table.mem_iff_lookup, Table.mem_iff_lookup, h]

theorem not_mem_calls {j : UInt16} (h : s.calls.lookup j = none) : j ∉ s.calls := by
  intro live
  obtain ⟨c, hc⟩ := Table.mem_iff_lookup.mp live
  cases h.symm.trans hc

/-- The log of a call that a step touches. -/
theorem Touched.logged {call : UInt16} {c : CallLeg} {i : Invocation} {x : CallInput}
    {claims : Option UInt16} (live : s.calls.lookup call = some c)
    (effect : s.Touched call claims (s.reaction md5 i call c x) s') (k : UInt16) :
    Logged k s s' := by
  have events := reaction_events md5 s i call c x
  by_cases hk : k = call
  · subst hk
    have live₀ : k ∈ s.calls := Table.mem_iff_lookup.mpr ⟨c, live⟩
    have left := (effect.calls k).trans (if_pos rfl)
    have course : ∀ ev ∈ about k (s.reaction md5 i k c x).events, callEvents.continues ev := by
      intro ev hev
      obtain ⟨hev, mentions⟩ := List.mem_filter.mp hev
      rw [decide_eq_true_eq] at mentions
      rcases events ev hev with ⟨_, rfl⟩ | ⟨_, continues⟩
      · cases mentions
      · exact continues
    rcases kept_or_farewell k (s.reaction md5 i k c x) with kept | ⟨dropped, reason, farewell⟩
    · rw [kept] at left
      refine .course live₀ (Table.mem_iff_lookup.mpr ⟨_, left⟩) ?_
      rw [effect.events, farewell_of_kept kept, List.append_nil]
      exact course
    · rw [dropped] at left
      refine .ending _ (.ended k reason) live₀ (not_mem_calls left) ?_ course trivial
      rw [effect.events, farewell, about_append, about_one rfl]
  · have same := (effect.calls k).trans (if_neg hk)
    refine .nothing (mem_calls_of_lookup same) (about_eq_nil fun ev hev mentions => ?_)
    rw [effect.events] at hev
    have other : ∀ ev : Event, ev.call? = some call → ev.call? ≠ some k := by
      intro ev h h'
      exact hk (Option.some.inj (h'.symm.trans h))
    rcases List.mem_append.mp hev with hev | hev
    · rcases events ev hev with ⟨_, rfl⟩ | ⟨mine, _⟩
      · cases mentions
      · exact other ev mine mentions
    · rcases kept_or_farewell call (s.reaction md5 i call c x) with kept | ⟨_, reason, farewell⟩
      · rw [farewell_of_kept kept] at hev
        cases hev
      · rw [farewell] at hev
        obtain rfl := List.mem_singleton.mp hev
        exact other _ rfl mentions

/-- The log of a call that a step opens, and of the others. -/
theorem Opened.logged {i : Invocation} {o : Opening} {claims : Option UInt16} (wf : s.WellFormed)
    (room : s.activeCalls < 8176) (effect : s.Opened claims (s.opened i s.allocCallno.1 o) s')
    (k : UInt16) : Logged k s s' := by
  obtain ⟨ev, events, mentions, opens⟩ := opened_events s i s.allocCallno.1 o
  rw [← effect.events] at events
  by_cases hk : k = s.allocCallno.1
  · refine .opening ev ?_ ?_ ?_ opens
    · rw [hk]
      exact allocCallno_fresh wf.callnoNext room
    · exact Table.mem_iff_lookup.mpr ⟨_, (effect.calls k).trans (if_pos hk)⟩
    · rw [events]
      exact about_one (mentions.trans (by rw [hk]))
  · refine .nothing (mem_calls_of_lookup ((effect.calls k).trans (if_neg hk)))
      (about_eq_nil fun ev' hev' => ?_)
    rw [events] at hev'
    obtain rfl := List.mem_singleton.mp hev'
    exact fun h => hk (Option.some.inj (h.symm.trans mentions))

/-- The log of a call at a timeout: it ends, or it goes on in silence. -/
theorem Expired.logged {now : Instant} (effect : s.Expired now s') (k : UInt16) :
    Logged k s s' := by
  obtain ⟨service, dead, hservice, nodup, hdead, events⟩ := effect.events
  have log : about k (s.emitted s') =
      if k ∈ dead then [.ended k "reliability timeout"] else [] := by
    rw [events, about_append, about_dead nodup, about_eq_nil, List.nil_append]
    intro ev hev mentions
    cases (hservice ev hev).symm.trans mentions
  cases exhausted : s.exhausted now k with
  | true =>
    obtain ⟨c, hc, spent⟩ := (Option.any_eq_true _ _).mp exhausted
    have gone : s'.calls.lookup k = none := by
      rw [effect.calls, hc, Option.bind_some, CallLeg.survivor, if_pos spent]
    refine .ending [] (.ended k "reliability timeout") (Table.mem_iff_lookup.mpr ⟨c, hc⟩)
      (not_mem_calls gone) ?_ (fun _ h => absurd h List.not_mem_nil) trivial
    rw [log, if_pos ((hdead k).mpr exhausted), List.nil_append]
  | false =>
    have alive : k ∉ dead := fun h => by
      rw [(hdead k).mp h] at exhausted
      cases exhausted
    refine .nothing ?_ (log.trans (if_neg alive))
    rw [Table.mem_iff_lookup, Table.mem_iff_lookup, effect.calls]
    cases hc : s.calls.lookup k with
    | none => simp
    | some c =>
      have survives : (expire now c.leg.outstanding).exhausted = false := by
        simpa only [PbxClient.exhausted, hc, Option.any_some] using exhausted
      simp [CallLeg.survivor, survives]

/-- The log of every call number, for every step with room for a new call. -/
theorem Outcome.logged {i : Invocation} (wf : s.WellFormed) (step : s.Outcome md5 i s')
    (room : s.activeCalls < 8176) (k : UInt16) : Logged k s s' := by
  cases step with
  | quiet _ effect =>
    refine .nothing (mem_calls_of_lookup (effect.calls k)) (about_eq_nil fun ev hev mentions => ?_)
    cases (effect.events ev hev).symm.trans mentions
  | touched _ live effect => exact effect.logged live k
  | opened _ effect => exact effect.logged wf room k
  | expired _ effect => exact effect.logged k

/-! ## The grammar -/

/-- The log of every call number is a sequence of sessions, the last one open exactly if the number
is live, and there are as many open sessions as live calls. -/
structure EventGrammar (past : List Move) (s : PbxClient) : Prop where
  sessions : ∀ k, callEvents.InSession (about k (reported past)) ∨
    callEvents.AllClosed (about k (reported past))
  live : ∀ k, k ∈ s.calls ↔ callEvents.InSession (about k (reported past))
  active : ∃ inSession : Finset UInt16,
    (∀ k, k ∈ inSession ↔ callEvents.InSession (about k (reported past))) ∧
      s.activeCalls = inSession.card

/-- A closing event neither opens a session nor continues one. -/
theorem closes_apart (ev : Event) (h : callEvents.closes ev) :
    ¬ callEvents.opens ev ∧ ¬ callEvents.continues ev := by
  cases ev with
  | ended call reason => exact ⟨id, id⟩
  | _ => exact h.elim

/-- A step with room for a new call goes on with the log of `k`. -/
theorem logged_step {k : UInt16} {log : List Event} (step : Logged k s s')
    (h : (k ∈ s.calls → callEvents.InSession log) ∧ (k ∉ s.calls → callEvents.AllClosed log)) :
    (k ∈ s'.calls → callEvents.InSession (log ++ about k (s.emitted s'))) ∧
      (k ∉ s'.calls → callEvents.AllClosed (log ++ about k (s.emitted s'))) := by
  cases step with
  | nothing live none =>
    rw [none, List.append_nil, live]
    exact h
  | course live live' continues =>
    exact ⟨fun _ => (h.1 live).continued continues, fun gone => absurd live' gone⟩
  | opening ev free live' one opens =>
    rw [one]
    exact ⟨fun _ => (h.2 free).opened opens, fun gone => absurd live' gone⟩
  | ending before ev live gone events course closes =>
    rw [events, ← List.append_assoc]
    exact ⟨fun live' => absurd live' gone, fun _ => ((h.1 live).continued course).closed closes⟩

/-- Along every run with room for a new call at any time, a number is live exactly while its last
session is open. -/
theorem sessions_run {cfg : Config} {past : List Move} (run : (system md5 cfg).Run past s)
    (room : Always (fun t _ => t.pre.activeCalls < 8176) past) (k : UInt16) :
    (k ∈ s.calls → callEvents.InSession (about k (reported past))) ∧
      (k ∉ s.calls → callEvents.AllClosed (about k (reported past))) := by
  refine run.invariant_under (I := fun past s =>
    (k ∈ s.calls → callEvents.InSession (about k (reported past))) ∧
      (k ∉ s.calls → callEvents.AllClosed (about k (reported past)))) ?_ ?_ room
  · rintro s ⟨now, rfl⟩
    refine ⟨fun live => ?_, fun _ => .nil⟩
    exact absurd live (not_mem_calls rfl)
  · intro past s i s' run step room h
    rw [reported, about_append]
    exact logged_step ((Step.outcome step).logged (wellFormed_run run) room k) h

/-- The event stream of every run with fewer than 8176 live calls at any time. -/
theorem eventGrammar_run {cfg : Config} {past : List Move} (run : (system md5 cfg).Run past s)
    (room : Always (fun t _ => t.pre.activeCalls < 8176) past) : EventGrammar past s := by
  have sessions := sessions_run run room
  have live (k : UInt16) : k ∈ s.calls ↔ callEvents.InSession (about k (reported past)) := by
    refine ⟨(sessions k).1, fun inSession => ?_⟩
    by_contra gone
    exact inSession.not_allClosed closes_apart ((sessions k).2 gone)
  have nodup : s.calls.keys.Nodup := s.calls.keys_nodup
  exact {
    sessions := fun k => by
      by_cases hk : k ∈ s.calls
      · exact .inl ((sessions k).1 hk)
      · exact .inr ((sessions k).2 hk)
    live
    active := ⟨⟨s.calls.keys, nodup⟩, fun k => (AList.mem_keys).symm.trans (live k),
      (List.length_map _).symm⟩ }

/-- An incoming call that is answered, gets a digit and is hung up by the peer. -/
theorem eventGrammar_sample :
    EventGrammar
      (Sample.trace [Sample.receive Sample.newCall, Sample.command (.answer 16),
        Sample.receive (Sample.frame 120 1 3 Frametype.dtmf 53),
        Sample.receive (Sample.frame 140 2 3 Frametype.iax Iax.hangup)])
      (Sample.after [Sample.receive Sample.newCall, Sample.command (.answer 16),
        Sample.receive (Sample.frame 120 1 3 Frametype.dtmf 53),
        Sample.receive (Sample.frame 140 2 3 Frametype.iax Iax.hangup)]) :=
  eventGrammar_run (Sample.run _ (by decide)) (by
    refine ⟨?_, ?_, ?_, ?_, trivial⟩ <;> decide)

end Iax2.PbxClient
