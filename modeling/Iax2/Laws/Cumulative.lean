import Iax2.Laws.Isolation
import Iax2.Laws.Numbering

/-!
# Cumulative acknowledgement

Every full frame carries the number that its sender expects next, and so acknowledges what comes
before it. The frame that is not an ACK is handled here: what it removes from the window of its leg,
by the places of the frames on the leg (`cutsBelow_run`).

Nothing bounds a window, and eight bits tell 128 numbers back from 128 ahead. A burst of digits puts
the oldest and the newest entry further apart than that (`burst`): what the peer has received stays
in the window, or what it has not received leaves it.
-/

namespace Iax2.PbxClient

variable {s s' : PbxClient} {md5 : Md5}

/-! ## What a leg enters -/

/-- The datagrams that are tracked when they leave on the leg `k`. -/
def trackedOn (k : UInt16) (sent : List Bytes) : List Bytes :=
  sent.filter fun dg => (Header.read dg).any fun h => h.numberedOn k && !decide h.Untracked

theorem trackedOn_eq_nil {k : UInt16} {sent : List Bytes}
    (h : ∀ dg ∈ sent, ∀ hd, Header.read dg = some hd → hd.numberedOn k = true → hd.Untracked) :
    trackedOn k sent = [] := by
  refine List.filter_eq_nil_iff.mpr fun dg hdg tracked => ?_
  obtain ⟨hd, read, tracked⟩ := (Option.any_eq_true _ _).mp tracked
  rw [Bool.and_eq_true, Bool.not_eq_true', decide_eq_false_iff_not] at tracked
  exact tracked.2 (h dg hdg hd read tracked.1)

/-- An ACK is not tracked. -/
theorem trackedOn_ack (k : UInt16) (l : Leg) (ts : UInt32) : trackedOn k [l.ackBytes ts] = [] := by
  refine trackedOn_eq_nil fun dg hdg hd read numbered => ?_
  obtain rfl := List.mem_singleton.mp hdg
  rw [ack_not_numbered read] at numbered
  cases numbered

theorem trackedOn_one {k : UInt16} {dg : Bytes} {hd : Header} (read : Header.read dg = some hd)
    (numbered : hd.numberedOn k = true) (kind : ¬ hd.Untracked) : trackedOn k [dg] = [dg] := by
  simp only [trackedOn, List.filter_cons, List.filter_nil, read, Option.any_some, numbered,
    decide_eq_false kind, Bool.not_false, Bool.and_self, if_true]

/-- A leg that sends enters what it tracks at the end of its window. -/
theorem Backs.enters {now : Instant} {start leg : Leg} {sent : List Bytes} {k : UInt16}
    (backs : start.Backs now leg sent) (src : start.localNo &&& callMask = k) :
    ∃ entered, leg.outstanding = start.outstanding ++ entered ∧
      entered.map (·.bytes) = trackedOn k sent := by
  cases backs with
  | silent => exact ⟨[], (List.append_nil _).symm, rfl⟩
  | acked ts =>
    exact ⟨[], (List.append_nil _).symm, (trackedOn_ack ..).symm⟩
  | audio m =>
    refine ⟨[], (List.append_nil _).symm, (trackedOn_eq_nil fun dg hdg hd read _ => ?_).symm⟩
    obtain rfl := List.mem_singleton.mp hdg
    rw [Header.read_mini] at read
    cases read
  | tracked ts ft sc ies kind =>
    have read := Header.read_encode (start.build ts ft sc ies).1
    have numbered : (start.build ts ft sc ies).1.wire.numberedOn k = true := by
      rw [Header.numberedOn, kind.2, Bool.not_false, Bool.and_true, Bool.and_eq_true]
      exact ⟨decide_eq_true src, rfl⟩
    exact ⟨[_], rfl, (trackedOn_one read numbered kind.1).symm⟩

/-- An untracked frame enters nothing. -/
theorem Spends.enters {start leg : Leg} {sent : List Bytes} (k : UInt16)
    (spends : start.Spends leg sent) :
    leg.outstanding = start.outstanding ∧ trackedOn k sent = [] := by
  obtain ⟨window, dg, hd, rfl, read, _, _, untracked⟩ := spends.sent_header
  refine ⟨window, trackedOn_eq_nil fun dg' hdg hd' read' _ => ?_⟩
  obtain rfl := List.mem_singleton.mp hdg
  cases read.symm.trans read'
  exact untracked

/-- The window of a live call that reacts: what the input left of it, and what the call tracks. -/
theorem reaction_window (md5 : Md5) (wf : s.WellFormed) {k : UInt16} {c : CallLeg}
    (live : s.calls.lookup k = some c) (i : Invocation) (x : CallInput) :
    ∃ entered, (s.reaction md5 i k c x).entry.leg.outstanding = (c.noted x).outstanding ++ entered ∧
      entered.map (·.bytes) = trackedOn k (s.reaction md5 i k c x).sent := by
  have src := noted_src wf live x
  rcases reaction_leg md5 s i k c x with ⟨_, backs⟩ | ⟨_, spends⟩
  · exact Backs.enters backs src
  · obtain ⟨window, tracked⟩ := Spends.enters k spends
    exact ⟨[], by rw [window, List.append_nil], tracked.symm⟩

/-! ## The cut -/

/-- A full frame from a peer that has received the frames of the leg `k` before number `n`, in
order, and no other, and that is not an ACK. -/
structure Acknowledges (frames : List Header) (k : UInt16) (n : Nat) (f : FullFrame) : Prop where
  addressed : f.dstCall = k
  notAck : f.isAck = false
  iseq : f.iseq = UInt8.ofNat n
  received : n ≤ frames.length

/-- The window `after` has lost the entries before number `n` and kept the others, in order. Behind
them it may have entries of its own, for what the step has tracked. -/
def CutsBelow (n : Nat) (entries : List (Nat × Outstanding)) (after : List Outstanding)
    (tracked : List Bytes) : Prop :=
  ∃ entered, after = (entries.filter fun e => n ≤ e.1).map (·.2) ++ entered ∧
    entered.map (·.bytes) = tracked

/-- Eight bits tell the entries before number `n` from the others: none before is 128 or more
numbers back, and none of the others is 129 or more ahead, modulo 256. -/
structure Apart (n : Nat) (entries : List (Nat × Outstanding)) : Prop where
  behind : ∀ e ∈ entries, e.1 < n → (n - 1 - e.1) % 256 < 127
  ahead : ∀ e ∈ entries, n ≤ e.1 → (e.1 - n) % 256 ≤ 128

/-- The condition of the cut. On the leg of the call the numbers decide. What ends the call or
resets its leg leaves nothing in the window, and a NEW leaves the window as it is, unless the new
call takes the place of this one. -/
def Tells (s : PbxClient) (c : CallLeg) (f : FullFrame) (n : Nat)
    (entries : List (Nat × Outstanding)) : Prop :=
  match s.route f with
  | .call _ => (Ends c f → ∀ e ∈ entries, e.1 < n) ∧ (¬ Ends c f → Apart n entries)
  | .incomingNew =>
    (s.allocCallno.1 = f.dstCall → ∀ e ∈ entries, e.1 < n) ∧
      (s.allocCallno.1 ≠ f.dstCall → ∀ e ∈ entries, n ≤ e.1)
  -- a call token: the other routes do not lead to a call
  | _ => ∀ e ∈ entries, e.1 < n

/-- Two tests that keep the same of a list of pairs, one of which looks at the second components
only, agree on every pair. -/
theorem filter_snd_eq_iff {α β : Type*} {l : List (α × β)} (p : β → Bool) (q : α × β → Bool) :
    (l.map (·.2)).filter p = (l.filter q).map (·.2) ↔ ∀ e ∈ l, p e.2 = q e := by
  constructor
  · intro same
    have kept : ∀ e ∈ l, q e = true → p e.2 = true := by
      intro e he hq
      have mem : e.2 ∈ (l.filter q).map (·.2) :=
        List.mem_map_of_mem (List.mem_filter.mpr ⟨he, hq⟩)
      rw [← same] at mem
      exact (List.mem_filter.mp mem).2
    -- what `q` keeps is kept by `p`, and there is as much of both
    have nested : (l.filter fun e => p e.2).filter q = l.filter q := by
      rw [List.filter_filter]
      refine List.filter_congr fun e he => ?_
      cases hq : q e with
      | true => rw [kept e he hq, Bool.true_and]
      | false => rfl
    have length : ((l.filter fun e => p e.2).filter q).length =
        (l.filter fun e => p e.2).length := by
      have := congrArg List.length same
      rw [List.filter_map, List.length_map, List.length_map] at this
      rw [nested, ← this]
      rfl
    have all := List.length_filter_eq_length_iff.mp length
    intro e he
    cases hp : p e.2 with
    | true => exact (all e (List.mem_filter.mpr ⟨he, hp⟩)).symm
    | false =>
      cases hq : q e with
      | true => exact hp.symm.trans (kept e he hq)
      | false => rfl
  · intro agree
    rw [List.filter_map]
    congr 1
    exact List.filter_congr agree

/-- An emptied window is cut below `n` if nothing was to be kept. -/
theorem cutsBelow_emptied {n : Nat} {entries : List (Nat × Outstanding)}
    {after : List Outstanding} {tracked : List Bytes} (h : after.map (·.bytes) = tracked) :
    CutsBelow n entries after tracked ↔ ∀ e ∈ entries, e.1 < n := by
  constructor
  · rintro ⟨entered, window, bytes⟩ e he
    have length := congrArg List.length (bytes.trans h.symm)
    rw [window, List.length_map, List.length_map, List.length_append] at length
    have none : (entries.filter fun e => n ≤ e.1).map (·.2) = [] :=
      List.eq_nil_of_length_eq_zero (by omega)
    have kept := List.filter_eq_nil_iff.mp (List.map_eq_nil_iff.mp none) e he
    rw [decide_eq_true_eq] at kept
    omega
  · intro all
    have none : entries.filter (fun e => n ≤ e.1) = [] := by
      refine List.filter_eq_nil_iff.mpr fun e he => ?_
      have := all e he
      rw [decide_eq_true_eq]
      omega
    exact ⟨after, by rw [none]; rfl, h⟩

/-- A window that a test has thinned out, with the tracked entries behind it, is cut below `n` if
the test removes what is before `n`. -/
theorem cutsBelow_filter {n : Nat} {entries : List (Nat × Outstanding)} {window : List Outstanding}
    (hwindow : entries.map (·.2) = window) (p : Outstanding → Bool) {entered : List Outstanding}
    {tracked : List Bytes} (h : entered.map (·.bytes) = tracked) :
    CutsBelow n entries (window.filter p ++ entered) tracked ↔
      ∀ e ∈ entries, p e.2 = decide (n ≤ e.1) := by
  rw [← filter_snd_eq_iff, hwindow]
  constructor
  · rintro ⟨entered', same, bytes⟩
    have length := congrArg List.length (h.trans bytes.symm)
    rw [List.length_map, List.length_map] at length
    exact (List.append_inj' same length).1
  · intro same
    exact ⟨entered, by rw [same], h⟩

/-- A frame that is not an ACK removes what is before its number exactly if eight bits tell. -/
theorem acked_below_iff {frames : List Header} {l : Leg} {entries : List (Nat × Outstanding)}
    (numbered : Numbered frames l) (numbering : Numbering frames l.outstanding entries) (n : Nat)
    (ts : UInt32) :
    (∀ e ∈ entries, (!e.2.acked (UInt8.ofNat n) ts false) = decide (n ≤ e.1)) ↔
      Apart n entries := by
  have acked {e : Nat × Outstanding} (he : e ∈ entries) :
      e.2.acked (UInt8.ofNat n) ts false = seqBefore (UInt8.ofNat e.1) (UInt8.ofNat n) := by
    obtain ⟨h, frame, is⟩ := numbering.frame e he
    rw [Outstanding.acked, is.oseq, numbered.number e.1 h frame, Bool.false_and, Bool.or_false]
  constructor
  · intro agree
    constructor
    · intro e he before
      have agree := agree e he
      rw [acked he, decide_eq_false (by omega), Bool.not_eq_false'] at agree
      exact (seqBefore_of_lt before).mp agree
    · intro e he notBefore
      have agree := agree e he
      rw [acked he, decide_eq_true notBefore, Bool.not_eq_true'] at agree
      have := mt (seqBefore_of_le notBefore).mpr (Bool.eq_false_iff.mp agree)
      omega
  · rintro ⟨behind, ahead⟩ e he
    rw [acked he]
    by_cases before : e.1 < n
    · rw [(seqBefore_of_lt before).mpr (behind e he before), decide_eq_false (by omega)]
      rfl
    · have notBefore : n ≤ e.1 := by omega
      have later : ¬ seqBefore (UInt8.ofNat e.1) (UInt8.ofNat n) = true := fun h => by
        have := (seqBefore_of_le notBefore).mp h
        have := ahead e he notBefore
        omega
      rw [Bool.eq_false_iff.mpr later, decide_eq_true notBefore]
      rfl

/-! ## One frame -/

/-- A full frame for a live call is handled on its leg, or as a call token for it, or as a NEW. -/
theorem route_live (wf : s.WellFormed) {f : FullFrame} {c : CallLeg}
    (live : s.calls.lookup f.dstCall = some c) :
    s.route f = .call c ∨ (∃ tok, s.route f = .newToken f.dstCall tok) ∨
      s.route f = .incomingNew := by
  cases htoken : s.tokenRoute f with
  | some r =>
    obtain ⟨tok, _, _, _, _, rfl⟩ := tokenRoute_live wf live htoken
    exact .inr (.inl ⟨tok.data, route_of_token (wf.live_inCycle live).ne_zero htoken⟩)
  | none =>
    by_cases new : f.frametype = Frametype.iax ∧ f.subclass = Iax.new
    · exact .inr (.inr (route_new new htoken))
    · exact .inl (route_onLeg wf live new htoken)

/-- The frames of a new call are all in its window. -/
theorem opened_window (s : PbxClient) (i : Invocation) {k : UInt16} (hin : InCycle k)
    (o : Opening) :
    (s.opened i k o).entry.leg.outstanding.map (·.bytes) = trackedOn k (s.opened i k o).sent := by
  rcases opened_leg s i k o with ⟨_, _, backs⟩ | ⟨f, leg, accept, ringing, _, sent, backs, backs'⟩
  · obtain ⟨entered, window, bytes⟩ := Backs.enters backs hin.masked
    rw [window]
    exact bytes
  · obtain ⟨entered, window, bytes⟩ := Backs.enters backs hin.masked
    have src : leg.localNo &&& callMask = k := backs.src.trans hin.masked
    obtain ⟨entered', window', bytes'⟩ := Backs.enters backs' src
    rw [window', window, sent, List.map_append, bytes']
    show (([] : List Outstanding) ++ entered).map (·.bytes) ++ _ = _
    rw [List.nil_append, bytes]
    exact (List.filter_append _ _).symm

/-- A frame that ends the call drops it with an ACK. -/
theorem reaction_of_ends {i : Invocation} {k : UInt16} {c : CallLeg} {f : FullFrame}
    (ends : Ends c f) :
    (s.reaction md5 i k c (.frame f)).kept = none ∧
      (s.reaction md5 i k c (.frame f)).sent =
        [(c.noted (.frame f)).ackBytes (s.ts i.clock)] := by
  have hdir : (c.noteFrame f).dir = c.dir := rfl
  simp only [reaction, CallLeg.onFrame, hdir]
  rcases ends with kind | kind | kind <;> rw [kind] <;> exact ⟨rfl, rfl⟩

/-- A frame that does not end the call keeps it. -/
theorem kept_of_not_ends {i : Invocation} {k : UInt16} {c : CallLeg} {f : FullFrame}
    (stays : ¬ Ends c f) :
    (s.reaction md5 i k c (.frame f)).kept = some (s.reaction md5 i k c (.frame f)).entry := by
  rcases kept_or_farewell k (s.reaction md5 i k c (.frame f)) with kept | ⟨dropped, _⟩
  · exact kept
  · rcases reaction_dropped dropped with h | ⟨_, h, kind, _⟩
    · cases h
    · cases h
      exact absurd kind stays

section cut

variable {frames : List Header} {f : FullFrame} {c : CallLeg} {entries : List (Nat × Outstanding)}
  {n : Nat} {i : Invocation}

/-- On the leg of the call. -/
theorem cutsBelow_leg (wf : s.WellFormed) (step : s.Outcome md5 i s')
    (live : s.calls.lookup f.dstCall = some c)
    (target : s.target i.op = .call f.dstCall (.frame f)) (numbered : Numbered frames c.leg)
    (numbering : Numbering frames c.leg.outstanding entries)
    (acknowledges : Acknowledges frames f.dstCall n f) :
    CutsBelow n entries (s'.window f.dstCall) (trackedOn f.dstCall (s.pushed s')) ↔
      (Ends c f → ∀ e ∈ entries, e.1 < n) ∧ (¬ Ends c f → Apart n entries) := by
  have hin : InCycle f.dstCall := wf.live_inCycle live
  have left := step.left live target
  rw [step.sent live target]
  by_cases ends : Ends c f
  · have ⟨dropped, sent⟩ : (s.reaction md5 i f.dstCall c (.frame f)).kept = none ∧
        (s.reaction md5 i f.dstCall c (.frame f)).sent =
          [(c.noted (.frame f)).ackBytes (s.ts i.clock)] := reaction_of_ends ends
    have gone : s'.window f.dstCall = [] := by
      rw [window, if_neg hin.ne_reg, left.trans dropped]
      rfl
    have nothing : trackedOn f.dstCall (s.reaction md5 i f.dstCall c (.frame f)).sent = [] := by
      rw [sent]
      exact trackedOn_ack ..
    have emptied : CutsBelow n entries [] [] ↔ ∀ e ∈ entries, e.1 < n := cutsBelow_emptied rfl
    rw [gone, nothing, emptied]
    exact ⟨fun h => ⟨fun _ => h, fun stays => absurd ends stays⟩, fun h => h.1 ends⟩
  · obtain ⟨entered, window, bytes⟩ := reaction_window md5 wf live i (.frame f)
    have noted : (c.noted (.frame f)).outstanding =
        c.leg.outstanding.filter fun o => !o.acked (UInt8.ofNat n) f.timestamp false := by
      rw [← acknowledges.iseq, ← acknowledges.notAck]
      rfl
    rw [window_call hin.ne_reg (left.trans (kept_of_not_ends ends)), window, noted,
      cutsBelow_filter numbering.window _ bytes, acked_below_iff numbered numbering]
    exact ⟨fun h => ⟨fun not => absurd not ends, fun _ => h⟩, fun h => h.2 ends⟩

/-- A call token for the call resets its leg. -/
theorem cutsBelow_token (wf : s.WellFormed) (step : s.Outcome md5 i s') {token : Bytes}
    (live : s.calls.lookup f.dstCall = some c)
    (target : s.target i.op = .call f.dstCall (.token token)) :
    CutsBelow n entries (s'.window f.dstCall) (trackedOn f.dstCall (s.pushed s')) ↔
      ∀ e ∈ entries, e.1 < n := by
  have hin : InCycle f.dstCall := wf.live_inCycle live
  have left := step.left live target
  obtain ⟨entered, window, bytes⟩ := reaction_window md5 wf live i (.token token)
  rw [step.sent live target, window_call hin.ne_reg (left.trans rfl)]
  refine cutsBelow_emptied ?_
  exact (congrArg _ window).trans bytes

/-- A NEW opens a call, under another number or in the place of this one. -/
theorem cutsBelow_new (wf : s.WellFormed) (step : s.Outcome md5 i s')
    (live : s.calls.lookup f.dstCall = some c) (target : s.target i.op = .opening (.incoming f))
    (numbering : Numbering frames c.leg.outstanding entries) :
    CutsBelow n entries (s'.window f.dstCall) (trackedOn f.dstCall (s.pushed s')) ↔
      (s.allocCallno.1 = f.dstCall → ∀ e ∈ entries, e.1 < n) ∧
        (s.allocCallno.1 ≠ f.dstCall → ∀ e ∈ entries, n ≤ e.1) := by
  have hin : InCycle f.dstCall := wf.live_inCycle live
  have effect := step.to_opened target
  rw [effect.sent]
  by_cases same : s.allocCallno.1 = f.dstCall
  · rw [window_call hin.ne_reg ((effect.calls f.dstCall).trans (if_pos same.symm)), same,
      cutsBelow_emptied (opened_window s i hin _)]
    exact ⟨fun h => ⟨fun _ => h, fun not => absurd rfl not⟩, fun h => h.1 rfl⟩
  · have untouched := (effect.calls f.dstCall).trans (if_neg fun h => same h.symm)
    have nothing : trackedOn f.dstCall (s.opened i s.allocCallno.1 (.incoming f)).sent = [] := by
      refine trackedOn_eq_nil fun dg hdg hd read numbered => ?_
      have src := (opened_sent_header (inCycle_allocCallno wf.callnoNext).1 hdg read).1
      simp only [Header.numberedOn, Bool.and_eq_true, decide_eq_true_eq] at numbered
      exact absurd (src.symm.trans numbered.1.1) same
    have all : CutsBelow n entries (c.leg.outstanding.filter (fun _ => true) ++ []) [] ↔
        ∀ e ∈ entries, true = decide (n ≤ e.1) :=
      cutsBelow_filter numbering.window _ rfl
    rw [List.append_nil, List.filter_true] at all
    rw [window_call hin.ne_reg (untouched.trans live), nothing, all]
    constructor
    · intro h
      exact ⟨fun eq => absurd eq same, fun _ e he => of_decide_eq_true (h e he).symm⟩
    · intro h e he
      exact (decide_eq_true (h.2 same e he)).symm

/-- What a frame makes of the window of a live call, by the places of the entries. -/
theorem cutsBelow_iff (wf : s.WellFormed) (live : s.calls.lookup f.dstCall = some c)
    (numbered : Numbered frames c.leg) (numbering : Numbering frames c.leg.outstanding entries)
    (acknowledges : Acknowledges frames f.dstCall n f) {dg : Bytes}
    (decoded : FullFrame.decode dg = some f) (op : i.op = .handleInput dg) :
    CutsBelow n entries ((s.apply md5 i).window f.dstCall)
        (trackedOn f.dstCall (s.pushed (s.apply md5 i))) ↔ s.Tells c f n entries := by
  have step : s.Outcome md5 i (s.apply md5 i) := Step.outcome (.call s (by simp [op]))
  have target : s.target i.op = s.frameTarget f := by rw [op, target_full decoded]
  rw [frameTarget] at target
  rcases route_live wf live with route | ⟨tok, route⟩ | route
  · rw [route] at target
    rw [Tells, route]
    exact cutsBelow_leg wf step live (target.trans (reaching_live live _)) numbered numbering
      acknowledges
  · rw [route] at target
    rw [Tells, route]
    exact cutsBelow_token wf step live (target.trans (reaching_live live _))
  · rw [route] at target
    rw [Tells, route]
    exact cutsBelow_new wf step live target numbering

end cut

/-- In every state reached, the window of a live call is numbered by the history of its leg, and a
full frame other than an ACK, from a peer that has received the frames before number `n`, removes
exactly these from the window if and only if the numbers tell. -/
theorem cutsBelow_run {cfg : Config} {past : List Move} (run : (system md5 cfg).Run past s)
    {k : UInt16} {c : CallLeg} (live : s.calls.lookup k = some c) :
    (∃ entries, Numbering (numbered k past) c.leg.outstanding entries) ∧
      ∀ entries, Numbering (numbered k past) c.leg.outstanding entries →
        ∀ (n : Nat) (dg : Bytes) (f : FullFrame), FullFrame.decode dg = some f →
          Acknowledges (numbered k past) k n f → ∀ i : Invocation, i.op = .handleInput dg →
            (CutsBelow n entries ((s.apply md5 i).window k)
                (trackedOn k (s.pushed (s.apply md5 i))) ↔ s.Tells c f n entries) := by
  have numbered := numbered_run run live
  refine ⟨numbered.entries, ?_⟩
  intro entries numbering n dg f decoded acknowledges i op
  obtain rfl := acknowledges.addressed
  exact cutsBelow_iff (wellFormed_run run) live numbered numbering acknowledges decoded op

/-- The incoming call 16 gets the digit of a peer that has received the ACCEPT and not the RINGING:
the ACCEPT leaves the window, and the RINGING stays. -/
theorem cutsBelow_sample :
    let calls := [Sample.receive Sample.newCall]
    let entries := ((Sample.after calls).window 16).zipIdx.map Prod.swap
    let digit := Sample.frame 120 1 1 Frametype.dtmf 53
    let s' := (Sample.after calls).apply Sample.md5 (Sample.receive digit)
    entries.map (·.1) = [0, 1] ∧ Acknowledges (numbered 16 (Sample.trace calls)) 16 1 digit ∧
      CutsBelow 1 entries (s'.window 16) (trackedOn 16 ((Sample.after calls).pushed s')) := by
  intro calls entries digit s'
  have acknowledges : Acknowledges (numbered 16 (Sample.trace calls)) 16 1 digit :=
    ⟨rfl, by decide, rfl, by decide⟩
  have law := (cutsBelow_run (Sample.run calls (by decide)) rfl).2 entries
    (Numbering.of_zipIdx (by decide)) 1 digit.encode digit (by decide) acknowledges
    (Sample.receive digit) rfl
  have tells : Apart 1 entries := ⟨by decide, by decide⟩
  refine ⟨by decide, acknowledges, law.mpr ?_⟩
  exact ⟨fun ends => absurd ends (by unfold Ends; decide), fun _ => tells⟩

/-! ## A burst of digits -/

/-- A digit leaves one more frame in the window, and takes one more number. -/
theorem digit_counts {i : Invocation} {k : UInt16} {c : CallLeg} {d : Char} (wf : s.WellFormed)
    (step : s.Outcome md5 i s') (live : s.calls.lookup k = some c)
    (target : s.target i.op = .call k (.dtmf d)) (past : List Move) :
    ∃ c', s'.calls.lookup k = some c' ∧
      c'.leg.outstanding.length = c.leg.outstanding.length + 1 ∧
      (numbered k (⟨s, i, s'⟩ :: past)).length = (numbered k past).length + 1 := by
  refine ⟨(s.reaction md5 i k c (.dtmf d)).entry, step.left live target, ?_, ?_⟩
  · exact List.length_append
  · have goes : Move.starts k ⟨s, i, s'⟩ = false := by
      simp only [Move.starts, target, CallInput.resets, Bool.and_false]
    let f := (c.leg.build (s.ts i.clock) Frametype.dtmf (UInt8.ofNat d.toNat) []).1
    have pushed : Move.pushed ⟨s, i, s'⟩ = [f.encode] := step.sent live target
    have numbered : f.wire.numberedOn k = true := by
      have src := wf.src live
      have ack : f.wire.isAck = false := by
        have other : Frametype.dtmf ≠ Frametype.iax := by decide
        exact Bool.and_eq_false_iff.mpr (.inl (decide_eq_false other))
      rw [Header.numberedOn, ack, Bool.not_false, Bool.and_true, Bool.and_eq_true]
      exact ⟨decide_eq_true src, rfl⟩
    have one : fresh k [f.encode] = [f.wire] := by
      simp only [fresh, List.filterMap_cons, List.filterMap_nil, Header.read_encode,
        List.filter_cons, List.filter_nil, numbered, if_true]
    rw [PbxClient.numbered, goes, pushed, one, if_neg Bool.false_ne_true]
    exact List.length_append

/-- Nothing bounds a window: `m` digits on a live call leave `m` more frames in it. -/
theorem burst {cfg : Config} {k : UInt16} {d : Char} (valid : isDtmfDigit d.toUpper = true)
    (m : Nat) : ∀ {past : List Move} {s : PbxClient} {c : CallLeg}, (system md5 cfg).Run past s →
      s.calls.lookup k = some c →
      let digits := List.replicate m (Sample.command (.dtmf k d))
      ∃ c', (digits.foldl (apply md5) s).calls.lookup k = some c' ∧
        c'.leg.outstanding.length = c.leg.outstanding.length + m ∧
        (numbered k (traceOf (apply md5) s past digits)).length = (numbered k past).length + m := by
  induction m with
  | zero =>
    intro past s c _ live
    exact ⟨c, live, rfl, rfl⟩
  | succ m ih =>
    intro past s c run live
    have step : Step md5 s (Sample.command (.dtmf k d))
        (s.apply md5 (Sample.command (.dtmf k d))) := .call s (by simp [Sample.command])
    have target : s.target (Sample.command (.dtmf k d)).op = .call k (.dtmf d.toUpper) := by
      simp only [Sample.command, PbxClient.target, commandTarget, valid, if_true]
      exact reaching_live live _
    obtain ⟨c₁, live₁, window₁, numbered₁⟩ :=
      digit_counts (wellFormed_run run) step.outcome live target past
    obtain ⟨c', live', window', numbered'⟩ := ih (run.step step) live₁
    refine ⟨c', live', ?_, ?_⟩
    · rw [window', window₁]
      omega
    · show (numbered k (traceOf (apply md5) _ _ (List.replicate m _))).length = _
      rw [numbered', numbered₁]
      omega

/-- Increasing numbers below a bound leave room below the first of them for the rest. -/
theorem increasing_bound {bound : Nat} {l : List Nat} :
    ∀ {a : Nat}, (a :: l).Pairwise (· < ·) → (∀ x ∈ a :: l, x < bound) → a + l.length < bound := by
  induction l with
  | nil =>
    intro a _ below
    exact below a List.mem_cons_self
  | cons b l ih =>
    intro a increasing below
    obtain ⟨first, increasing⟩ := List.pairwise_cons.mp increasing
    have := first b List.mem_cons_self
    have := ih increasing fun x hx => below x (List.mem_cons_of_mem a hx)
    rw [List.length_cons]
    omega

/-- A window that holds all frames of its leg has the first of them. -/
theorem first_of_full {frames : List Header} {window : List Outstanding}
    {entries : List (Nat × Outstanding)} (numbering : Numbering frames window entries)
    (full : window.length = frames.length) (some : 0 < frames.length) : ∃ e ∈ entries, e.1 = 0 := by
  have length : entries.length = frames.length := by
    rw [← full, ← numbering.window, List.length_map]
  cases entries with
  | nil => exact absurd length.symm (Nat.ne_of_gt some)
  | cons e rest =>
    refine ⟨e, List.mem_cons_self, ?_⟩
    have bound : e.1 + (rest.map (·.1)).length < frames.length := by
      refine increasing_bound numbering.increasing fun x hx => ?_
      obtain ⟨e', he', rfl⟩ := List.mem_map.mp (List.map_cons ▸ hx)
      obtain ⟨_, frame, _⟩ := numbering.frame e' he'
      exact (List.getElem?_eq_some_iff.mp frame).1
    rw [List.length_map] at bound
    rw [List.length_cons] at length
    omega

/-- After 129 digits the window of an incoming call holds 131 frames. The digit of a peer that has
received them all leaves the first of them in it. -/
theorem burst_outruns_numbers :
    ¬ ∀ {past : List Move} {s : PbxClient}, (system Sample.md5 Sample.cfg).Run past s →
      ∀ {k : UInt16} {c : CallLeg}, s.calls.lookup k = some c →
        ∀ entries, Numbering (numbered k past) c.leg.outstanding entries →
          ∀ (n : Nat) (dg : Bytes) (f : FullFrame), FullFrame.decode dg = some f →
            Acknowledges (numbered k past) k n f → ∀ i : Invocation, i.op = .handleInput dg →
              CutsBelow n entries ((s.apply Sample.md5 i).window k)
                (trackedOn k (s.pushed (s.apply Sample.md5 i))) := by
  intro law
  -- a run after which 131 frames are outstanding
  obtain ⟨past, s, c, run, live, window, frames⟩ :
      ∃ past s c, (system Sample.md5 Sample.cfg).Run past s ∧ s.calls.lookup 16 = some c ∧
        c.leg.outstanding.length = 131 ∧ (PbxClient.numbered 16 past).length = 131 := by
    let digits := List.replicate 129 (Sample.command (.dtmf 16 '5'))
    have opened := Sample.run [Sample.receive Sample.newCall] (by decide)
    have run := run_calls Sample.md5 digits (fun i hi => by
      rw [List.eq_of_mem_replicate hi]
      decide) opened
    obtain ⟨c, live, window, numbers⟩ := burst (k := 16) (d := '5') (by decide) 129 opened rfl
    exact ⟨_, _, c, run, live, window, numbers⟩
  let f := Sample.frame 120 1 131 Frametype.dtmf 53
  have decoded : FullFrame.decode f.encode = some f := by decide
  have wf := wellFormed_run run
  have numbered := numbered_run run live
  obtain ⟨entries, numbering⟩ := numbered.entries
  have acknowledges : Acknowledges (PbxClient.numbered 16 past) 16 131 f :=
    ⟨rfl, by decide, rfl, frames.ge⟩
  have cut := law run live entries numbering 131 f.encode f decoded acknowledges
    { op := .handleInput f.encode } rfl
  have tells := (cutsBelow_iff wf live numbered numbering acknowledges decoded rfl).mp cut
  have noToken : s.tokenRoute f = none := tokenRoute_eq wf f
  have route := route_leg wf (f := f) (by decide) (by decide) noToken
  rw [if_neg (by decide), show s.calls.lookup f.dstCall = some c from live] at route
  have kind (dir : Dir) : f.callKind dir = .dtmf := by cases dir <;> rfl
  have stays : ¬ Ends c f := by
    rw [Ends, kind]
    decide
  rw [Tells, route] at tells
  -- the first frame is 131 numbers back
  obtain ⟨e, he, first⟩ := first_of_full numbering (window.trans frames.symm) (by omega)
  have behind := (tells.2 stays).behind e he (by omega)
  omega

end Iax2.PbxClient
