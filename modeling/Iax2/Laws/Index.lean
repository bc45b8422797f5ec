import Iax2.Laws.Window

/-!
# The mini-frame index

A mini frame carries the remote number of its call and nothing else, and `remote_index` finds the
call. The law is that a remote number which exactly one live call has leads to that call
(`routed_run`).

The index has one entry for a number, and several calls can have the number: the peer repeats its
NEW, or two frames of one source reach two calls. The invariant (`Owned`) is that the entry leads to
one of the calls that have the number. It breaks when the call it leads to gives the number up while
another call keeps it, because nothing then points the entry to the other call, and when a frame
that ends a call comes from a number that another call has.
-/

namespace Iax2.PbxClient

variable {s s' : PbxClient} {md5 : Md5}

/-- The index leads from the number `r` to a live call that has it. -/
def Owned (s : PbxClient) (r : UInt16) : Prop :=
  ∃ k c, s.remoteIndex.lookup r = some k ∧ s.calls.lookup k = some c ∧ c.leg.remote = r

/-- Every remote number of a live call is owned. -/
def Indexed (s : PbxClient) : Prop :=
  ∀ k c, s.calls.lookup k = some c → c.leg.remote ≠ 0 → s.Owned c.leg.remote

/-- A remote number that exactly one live call has leads to that call: a mini frame from it is for
that call. -/
def Routed (s : PbxClient) : Prop :=
  ∀ k c, s.calls.lookup k = some c → c.leg.remote ≠ 0 →
    (∀ j d, s.calls.lookup j = some d → d.leg.remote = c.leg.remote → j = k) →
    s.remoteIndex.lookup c.leg.remote = some k ∧
      ∀ m : MiniFrame, m.srcCall = c.leg.remote → s.miniTarget m = .call k (.mini m)

theorem Indexed.routed (h : s.Indexed) : s.Routed := by
  intro k c hc hr only
  obtain ⟨k', c', index, hc', remote⟩ := h k c hc hr
  obtain rfl := only k' c' hc' remote
  refine ⟨index, fun m hm => ?_⟩
  rw [miniTarget, hm, index]
  exact reaching_live hc _

/-! ## The condition -/

/-- In the transition the call `k`, whose entry is `c`, gives its remote number up, and the call `j`
is not lost with it. -/
inductive GivesUp (k j : UInt16) (c : CallLeg) (t : Move) : Prop
  | hangup (target : t.pre.target t.label.op = .call k .hangup)
  /-- a call token resets the leg -/
  | token {token : Bytes} (target : t.pre.target t.label.op = .call k (.token token))
  /-- a frame of the call comes from another number -/
  | renumbered {f : FullFrame} (target : t.pre.target t.label.op = .call k (.frame f))
      (source : f.srcCall ≠ 0) (other : f.srcCall ≠ c.leg.remote)
  /-- the peer ends the call -/
  | ended {f : FullFrame} (target : t.pre.target t.label.op = .call k (.frame f))
      (kind : f.callKind c.dir = .busy ∨ f.callKind c.dir = .hangup ∨ f.callKind c.dir = .reject)
  /-- a frame of the call is due without tries left -/
  | exhausted (target : t.pre.target t.label.op = .timeout)
      (dead : t.pre.exhausted t.label.now k = true) (alive : t.pre.exhausted t.label.now j = false)
  /-- a new call, from another number, overwrites the call -/
  | overwritten {o : Opening} (target : t.pre.target t.label.op = .opening o) (full : t.pre.Full)
      (first : k = callnoCallBase) (other : o.claims ≠ some c.leg.remote)

/-- No call to which the index leads from its remote number gives the number up while another live
call has it, and no call is ended by a frame from a number that another live call has. -/
structure KeepsNumbers (t : Move) : Prop where
  shared : ∀ {k j c d}, t.pre.calls.lookup k = some c → t.pre.calls.lookup j = some d → j ≠ k →
    c.leg.remote ≠ 0 → d.leg.remote = c.leg.remote →
    t.pre.remoteIndex.lookup c.leg.remote = some k → ¬ GivesUp k j c t
  ended : ∀ {k j c d f}, t.pre.calls.lookup k = some c → t.pre.calls.lookup j = some d → j ≠ k →
    t.pre.target t.label.op = .call k (.frame f) →
    f.callKind c.dir = .busy ∨ f.callKind c.dir = .hangup ∨ f.callKind c.dir = .reject →
    f.srcCall ≠ 0 → d.leg.remote ≠ f.srcCall

/-! ## The invariant -/

/-- A reaction leaves the remote number that noting its input leaves. -/
theorem reaction_remote (md5 : Md5) (s : PbxClient) (i : Invocation) (call : UInt16) (c : CallLeg)
    (x : CallInput) : (s.reaction md5 i call c x).entry.leg.remote = (c.noted x).remote := by
  rcases reaction_leg md5 s i call c x with ⟨_, backs⟩ | ⟨_, spends⟩
  · exact backs.same.2.1
  · exact spends.same.2.1

/-- An input changes the remote number only as a frame with a source, or as a call token. -/
theorem noted_remote {c : CallLeg} {x : CallInput} (claims : x.claims = none)
    (token : ∀ token, x ≠ .token token) : (c.noted x).remote = c.leg.remote := by
  cases x with
  | token t => exact absurd rfl (token t)
  | frame f =>
    simp only [CallInput.claims] at claims
    split at claims
    next => cases claims
    next source => exact if_neg source
  | _ => rfl

/-- A frame with a source leaves its source as the remote number. -/
theorem noted_remote_of_claims {c : CallLeg} {x : CallInput} {q : UInt16}
    (claims : x.claims = some q) :
    (c.noted x).remote = q ∧ q ≠ 0 ∧ ∃ f, x = .frame f ∧ f.srcCall = q := by
  cases x with
  | frame f =>
    simp only [CallInput.claims] at claims
    split at claims
    next source =>
      cases claims
      exact ⟨if_pos source, source, f, rfl, rfl⟩
    next => cases claims
  | _ => cases claims

section touched

variable {i : Invocation} {call : UInt16} {x : CallInput} {c : CallLeg}
  (effect : s.Touched call x.claims (s.reaction md5 i call c x) s')

include effect

/-- A call that reacts and stays owns the number that it claims, or the one that it has and that led
to it. -/
theorem Touched.owned (kept : (s.reaction md5 i call c x).kept =
      some (s.reaction md5 i call c x).entry)
    {q : UInt16} (hq : (c.noted x).remote = q)
    (index : x.claims = some q ∨ x.claims = none ∧ s.remoteIndex.lookup q = some call) :
    s'.Owned q := by
  have lookup := (effect.calls call).trans (if_pos rfl)
  refine ⟨call, _, ?_, lookup.trans kept, (reaction_remote md5 s i call c x).trans hq⟩
  rw [effect.index, kept]
  rcases index with claims | ⟨claims, index⟩
  · rw [if_pos claims]
    rfl
  · rw [if_neg (by simp [claims]), index]
    rfl

/-- Another call owns the number that led to it, unless it is claimed. -/
theorem Touched.owned_elsewhere {k : UInt16} {d : CallLeg} (hk : k ≠ call) {q : UInt16}
    (hd : s.calls.lookup k = some d) (hq : d.leg.remote = q)
    (index : s.remoteIndex.lookup q = some k) (claims : x.claims ≠ some q) : s'.Owned q := by
  refine ⟨k, d, ?_, ((effect.calls k).trans (if_neg hk)).trans hd, hq⟩
  rw [effect.index, if_neg claims, index, Option.filter_some, if_pos]
  simp [hk]

/-- The remote number of the call that is reached is owned, if the call stays. -/
theorem Touched.indexed_self (h : s.Indexed) (live : s.calls.lookup call = some c)
    {c' : CallLeg} (stays : s'.calls.lookup call = some c') (hr : c'.leg.remote ≠ 0) :
    s'.Owned c'.leg.remote := by
  have lookup := (effect.calls call).trans (if_pos rfl)
  have hremote := reaction_remote md5 s i call c x
  have kept : (s.reaction md5 i call c x).kept = some (s.reaction md5 i call c x).entry := by
    rcases kept_or_farewell call (s.reaction md5 i call c x) with kept | ⟨dropped, _⟩
    · exact kept
    · rw [lookup, dropped] at stays
      cases stays
  obtain rfl : (s.reaction md5 i call c x).entry = c' :=
    Option.some.inj (kept.symm.trans (lookup.symm.trans stays))
  rw [hremote] at hr ⊢
  cases claims : x.claims with
  | some q =>
    exact effect.owned kept rfl (.inl (by rw [claims, (noted_remote_of_claims claims).1]))
  | none =>
    have notToken : ∀ token, x ≠ .token token := by
      rintro token rfl
      exact hr rfl
    rw [noted_remote claims notToken] at hr ⊢
    obtain ⟨k, d, index, hd, hq⟩ := h call c live hr
    by_cases hk : k = call
    · subst hk
      exact effect.owned kept (noted_remote claims notToken) (.inr ⟨claims, index⟩)
    · exact effect.owned_elsewhere hk hd hq index (by simp [claims])

/-- The remote number of every other call is owned, if no number is lost. -/
theorem Touched.indexed_elsewhere (h : s.Indexed) (cond : KeepsNumbers ⟨s, i, s'⟩)
    (target : s.target i.op = .call call x) (live : s.calls.lookup call = some c)
    {j : UInt16} (hj : j ≠ call) {d' : CallLeg} (hd : s.calls.lookup j = some d')
    (hr : d'.leg.remote ≠ 0) : s'.Owned d'.leg.remote := by
  by_cases claims : x.claims = some d'.leg.remote
  · obtain ⟨hq, source, f, rfl, hf⟩ := noted_remote_of_claims (c := c) claims
    rcases kept_or_farewell call (s.reaction md5 i call c (.frame f)) with kept | ⟨dropped, _⟩
    · exact effect.owned kept hq (.inl claims)
    · rcases reaction_dropped dropped with hangup | ⟨f', heq, kind, _⟩
      · cases hangup
      · cases heq
        exact absurd hf.symm (cond.ended live hd hj target kind (hf ▸ source))
  · obtain ⟨k, d, index, hd₀, hq⟩ := h j d' hd hr
    by_cases hk : k = call
    · subst hk
      cases live.symm.trans hd₀
      have stays : ¬ GivesUp k j c ⟨s, i, s'⟩ :=
        cond.shared live hd hj (hq ▸ hr) hq.symm (hq.symm ▸ index)
      have notToken : ∀ token, x ≠ .token token := by
        rintro token rfl
        exact stays (.token target)
      have noClaims : x.claims = none := by
        cases hx : x.claims with
        | none => rfl
        | some q =>
          obtain ⟨_, source, f, rfl, rfl⟩ := noted_remote_of_claims (c := c) hx
          refine absurd (.renumbered target source fun heq => ?_) stays
          rw [hx, heq, hq] at claims
          exact claims rfl
      rcases kept_or_farewell k (s.reaction md5 i k c x) with kept | ⟨dropped, _⟩
      · exact effect.owned kept ((noted_remote noClaims notToken).trans hq)
          (.inr ⟨noClaims, index⟩)
      · rcases reaction_dropped dropped with rfl | ⟨f, rfl, kind, _⟩
        · exact absurd (.hangup target) stays
        · exact absurd (.ended target kind) stays
    · exact effect.owned_elsewhere hk hd₀ hq index claims

/-- The invariant survives what reaches one call. -/
theorem indexed_touched (h : s.Indexed) (cond : KeepsNumbers ⟨s, i, s'⟩)
    (target : s.target i.op = .call call x) (live : s.calls.lookup call = some c) :
    s'.Indexed := by
  intro j d' hd' hr
  by_cases hj : j = call
  · subst hj
    exact effect.indexed_self h live hd' hr
  · have hd : s.calls.lookup j = some d' :=
      ((effect.calls j).trans (if_neg hj)).symm.trans hd'
    exact effect.indexed_elsewhere h cond target live hj hd hr

end touched

/-- A new call has the remote number that it enters into the index, or none. -/
theorem opened_remote (s : PbxClient) (i : Invocation) (call : UInt16) (o : Opening) :
    (s.opened i call o).entry.leg.remote = 0 ∨
      o.claims = some (s.opened i call o).entry.leg.remote := by
  cases o with
  | dial number => exact .inl rfl
  | incoming f =>
    show (if f.srcCall ≠ 0 then f.srcCall else 0) = 0 ∨
      some f.srcCall = some (if f.srcCall ≠ 0 then f.srcCall else 0)
    split
    next => exact .inr rfl
    next => exact .inl rfl

/-- The invariant survives a new call. -/
theorem indexed_opened {i : Invocation} (wf : s.WellFormed) (h : s.Indexed)
    (cond : KeepsNumbers ⟨s, i, s'⟩) {o : Opening} (target : s.target i.op = .opening o)
    (effect : s.Opened o.claims (s.opened i s.allocCallno.1 o) s') : s'.Indexed := by
  intro j d' hd' hr
  have lookup := effect.calls s.allocCallno.1
  rw [if_pos rfl] at lookup
  have other {k : UInt16} (hk : k ≠ s.allocCallno.1) : s'.calls.lookup k = s.calls.lookup k :=
    (effect.calls k).trans (if_neg hk)
  have owned_new {q : UInt16} (hq : q ≠ 0) (claims : o.claims = some q) : s'.Owned q := by
    refine ⟨s.allocCallno.1, _, ?_, lookup, ?_⟩
    · rw [effect.index, if_pos claims]
    · cases o with
      | dial number => cases claims
      | incoming f =>
        cases claims
        exact if_pos hq
  by_cases hj : j = s.allocCallno.1
  · subst hj
    obtain rfl := Option.some.inj (lookup.symm.trans hd')
    exact owned_new hr ((opened_remote s i _ o).resolve_left hr)
  · have hd : s.calls.lookup j = some d' := (other hj).symm.trans hd'
    by_cases claims : o.claims = some d'.leg.remote
    · exact owned_new hr claims
    · obtain ⟨k, d, index, hd₀, hq⟩ := h j d' hd hr
      by_cases hk : k = s.allocCallno.1
      · -- the new call overwrites the call that the index leads to
        have full : s.Full :=
          (allocCallno_live_iff wf.callnoNext).mp (hk ▸ Table.mem_iff_lookup.mpr ⟨d, hd₀⟩)
        have first : k = callnoCallBase := hk.trans (allocCallno_of_full wf.callnoNext full)
        exact absurd (.overwritten target full first (hq.symm ▸ claims))
          (cond.shared hd₀ hd (hk ▸ hj) (hq ▸ hr) hq.symm (hq.symm ▸ index))
      · refine ⟨k, d, ?_, (other hk).trans hd₀, hq⟩
        rw [effect.index, if_neg claims, index]

/-- The invariant survives the timers. -/
theorem indexed_expired {i : Invocation} (h : s.Indexed) (cond : KeepsNumbers ⟨s, i, s'⟩)
    (target : s.target i.op = .timeout) (effect : s.Expired i.now s') : s'.Indexed := by
  intro j d' hd' hr
  rw [effect.calls, Option.bind_eq_some_iff] at hd'
  obtain ⟨d, hd, survives⟩ := hd'
  obtain ⟨alive, rfl⟩ := survivor_eq_some.mp survives
  have hr : d.leg.remote ≠ 0 := hr
  show s'.Owned d.leg.remote
  obtain ⟨k, c, index, hc, hq⟩ := h j d hd hr
  cases dead : s.exhausted i.now k with
  | true =>
    have alive : s.exhausted i.now j = false := by rw [exhausted, hd]; exact alive
    have hjk : j ≠ k := by
      rintro rfl
      rw [dead] at alive
      cases alive
    exact absurd (.exhausted target dead alive)
      (cond.shared hc hd hjk (hq ▸ hr) hq.symm (hq.symm ▸ index))
  | false =>
    have survives : c.survivor i.now = some (c.expire i.now) := by
      rw [exhausted, hc] at dead
      exact survivor_eq_some.mpr ⟨dead, rfl⟩
    refine ⟨k, c.expire i.now, ?_, ?_, hq⟩
    · rw [effect.index, index, Option.filter_some, dead]
      rfl
    · rw [effect.calls, hc, Option.bind_some, survives]

/-- Every step that meets the condition keeps the invariant. -/
theorem indexed_step {i : Invocation} (wf : s.WellFormed) (h : s.Indexed)
    (cond : KeepsNumbers ⟨s, i, s'⟩) (step : s.Outcome md5 i s') : s'.Indexed := by
  cases step with
  | quiet _ effect =>
    intro j d hd hr
    rw [effect.calls] at hd
    obtain ⟨k, c, index, hc, hq⟩ := h j d hd hr
    exact ⟨k, c, (effect.index _).trans index, (effect.calls k).trans hc, hq⟩
  | touched target live effect => exact indexed_touched effect h cond target live
  | opened target effect => exact indexed_opened wf h cond target effect
  | expired target effect => exact indexed_expired h cond target effect

/-- In every state of every run in which no shared number is given up by the call that the index
leads to, a remote number that exactly one live call has leads to that call. -/
theorem routed_run {cfg : Config} {past : List Move} (run : (system md5 cfg).Run past s)
    (cond : Always (fun t _ => KeepsNumbers t) past) : s.Routed := by
  refine Indexed.routed (run.invariant_under (I := fun _ s => s.Indexed) ?_ ?_ cond)
  · rintro _ ⟨now, rfl⟩ k c hc
    cases hc
  · intro past s i s' run step cond h
    exact indexed_step (wellFormed_run run) h cond (Step.outcome step)

/-- The first incoming call is found by its remote number. -/
theorem routed_sample : (Sample.after [Sample.receive Sample.newCall]).Routed := by
  refine routed_run (Sample.run [Sample.receive Sample.newCall] (by decide)) ⟨?_, trivial⟩
  constructor
  · intro k j c d hc
    cases hc
  · intro k j c d f hc
    cases hc

/-- The peer repeats its NEW, and the second call is hung up: no index entry is left for the
first. -/
theorem hangup_loses_shared_number :
    ¬ ∀ {past : List Move} {s : PbxClient}, (system Sample.md5 Sample.cfg).Run past s →
      s.Routed := by
  intro law
  have routed := law (Sample.run [Sample.receive Sample.newCall, Sample.receive Sample.newCall,
    Sample.command (.hangup 17)] (by decide))
  let after := Sample.after [Sample.receive Sample.newCall, Sample.receive Sample.newCall,
    Sample.command (.hangup 17)]
  have first : ∃ c, after.calls.lookup 16 = some c ∧ c.leg.remote = 42 := ⟨_, rfl, rfl⟩
  have only : ∀ e ∈ after.calls.entries, e.1 = 16 := by decide
  have lost : after.remoteIndex.lookup 42 = none := by decide
  obtain ⟨c, hc, hr⟩ := first
  have found := routed 16 c hc (by rw [hr]; decide) fun j d hd _ =>
    only ⟨j, d⟩ (Table.mem_entries_iff.mpr hd)
  rw [hr] at found
  cases lost.symm.trans found.1

end Iax2.PbxClient
