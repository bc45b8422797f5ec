import Iax2.Laws.Repeats
import Iax2.Lib.Serial

/-!
# Numbers and acknowledgements

The number of a frame is its place on the leg: the frames that take a number are counted from the
opening of the leg, or its last reset, and the eight bits on the wire are the count modulo 256. This
module keeps the count as a function of the history (`numbered`), relates every window to it
(`Numbering`, `numbered_run`), and says what an ACK removes.

An ACK for frame `n` carries the number after it and its timestamp, and `ackUpto` removes an entry
for either of the two. The timestamp is not a name of a frame: the ACCEPT and the RINGING of an
incoming call have the same one, so the ACK of the first removes the second
(`accept_acknowledges_ringing`). `ackCuts_iff` says exactly when an ACK removes what it should.
-/

namespace Iax2

/-! ## Serial numbers -/

/-- The comparison of the source is the one of serial numbers modulo 256. -/
theorem seqBefore_iff (a b : UInt8) : seqBefore a b = true ↔ Serial.Before 256 a.toNat b.toNat := by
  have ha := a.toNat_lt
  have distance : (b - a).toNat = Serial.dist 256 a.toNat b.toNat := by
    rw [UInt8.toNat_sub, Serial.dist]
    omega
  rw [Serial.Before, ← distance]
  simp only [seqBefore, Bool.and_eq_true, decide_eq_true_eq, ne_eq, ← UInt8.toNat_inj,
    UInt8.lt_iff_toNat_lt, Nat.pos_iff_ne_zero]
  exact Iff.rfl

/-- On counters cut to eight bits. -/
theorem seqBefore_ofNat (i n : Nat) :
    seqBefore (UInt8.ofNat i) (UInt8.ofNat n) = true ↔ Serial.Before 256 i n := by
  rw [seqBefore_iff, UInt8.toNat_ofNat', UInt8.toNat_ofNat', Serial.Before, Serial.dist_mod]
  exact Iff.rfl

theorem seqBefore_of_lt {i n : Nat} (h : i < n) :
    seqBefore (UInt8.ofNat i) (UInt8.ofNat n) = true ↔ (n - 1 - i) % 256 < 127 :=
  (seqBefore_ofNat i n).trans (Serial.before_of_lt (by decide) h)

theorem seqBefore_of_le {i n : Nat} (h : n ≤ i) :
    seqBefore (UInt8.ofNat i) (UInt8.ofNat n) = true ↔ 128 < (i - n) % 256 :=
  (seqBefore_ofNat i n).trans (Serial.before_of_le (by decide) h)

/-- What stands in a list with one more element. -/
theorem getElem?_concat_cases {α : Type*} {l : List α} {a b : α} {n : Nat}
    (h : (l ++ [a])[n]? = some b) : l[n]? = some b ∨ n = l.length ∧ b = a := by
  rcases Nat.lt_trichotomy n l.length with hlt | heq | hgt
  · exact .inl ((List.getElem?_append_left hlt).symm.trans h)
  · rw [heq, List.getElem?_concat_length] at h
    exact .inr ⟨heq, (Option.some.inj h).symm⟩
  · rw [List.getElem?_eq_none (by simp; omega)] at h
    cases h

/-! ## The frames of a leg -/

/-- The frame asks for a new call. -/
def Header.isNew (h : Header) : Prop := h.frametype = Frametype.iax ∧ h.subclass = Iax.new

/-- The frame leaves on the leg `k` for the first time, with a number of its own. -/
def Header.numberedOn (k : UInt16) (h : Header) : Bool :=
  h.srcCall = k && !h.retransmit && !h.isAck

/-- The headers of the datagrams that take a number on the leg `k`. -/
def fresh (k : UInt16) (sent : List Bytes) : List Header :=
  (sent.filterMap Header.read).filter (·.numberedOn k)

/-- The entry of the window is the frame. -/
structure Outstanding.Is (o : Outstanding) (h : Header) : Prop where
  read : Header.read o.bytes = some h
  oseq : o.oseq = h.oseq
  ts : o.ts = h.timestamp

/-- The entries of a window with the places of their frames on the leg. -/
structure Numbering (frames : List Header) (window : List Outstanding)
    (entries : List (Nat × Outstanding)) : Prop where
  window : entries.map (·.2) = window
  increasing : (entries.map (·.1)).Pairwise (· < ·)
  frame : ∀ p ∈ entries, ∃ h, frames[p.1]? = some h ∧ p.2.Is h

/-- The leg has numbered `frames`, and its window has entries of them. Only the first may be a
NEW. -/
structure Numbered (frames : List Header) (l : Leg) : Prop where
  oseq : l.oseq = UInt8.ofNat frames.length
  number : ∀ n h, frames[n]? = some h → h.oseq = UInt8.ofNat n
  later : ∀ n h, frames[n]? = some h → 0 < n → ¬ h.isNew
  entries : ∃ entries, Numbering frames l.outstanding entries

/-! ## What a leg does to its numbering -/

section

variable {frames : List Header} {l l' : Leg} {k : UInt16} {now : Instant} {sent : List Bytes}

theorem fresh_append (k : UInt16) (sent sent' : List Bytes) :
    fresh k (sent ++ sent') = fresh k sent ++ fresh k sent' := by
  simp only [fresh, List.filterMap_append, List.filter_append]

/-- An ACK takes no number. -/
theorem ack_not_numbered {l : Leg} {ts : UInt32} {hd : Header}
    (read : Header.read (l.ackBytes ts) = some hd) : hd.numberedOn k = false := by
  rw [Leg.ackBytes_read] at read
  cases read
  rw [Header.numberedOn, Leg.ackFrame_isAck, Bool.not_true, Bool.and_false]

/-- Nothing is numbered if whatever is on the wire is elsewhere, a copy or an ACK. -/
theorem fresh_eq_nil (h : ∀ dg ∈ sent, ∀ hd, Header.read dg = some hd → hd.numberedOn k = false) :
    fresh k sent = [] := by
  refine List.filter_eq_nil_iff.mpr fun hd hhd => ?_
  obtain ⟨dg, hdg, read⟩ := List.mem_filterMap.mp hhd
  exact Bool.eq_false_iff.mp (h dg hdg hd read)

theorem mem_fresh {hd : Header} (h : hd ∈ fresh k sent) :
    hd.numberedOn k = true ∧ ∃ dg ∈ sent, Header.read dg = some hd := by
  obtain ⟨hhd, numbered⟩ := List.mem_filter.mp h
  obtain ⟨dg, hdg, read⟩ := List.mem_filterMap.mp hhd
  exact ⟨numbered, dg, hdg, read⟩

/-- A leg that has sent nothing. -/
theorem Numbered.start (oseq : l.oseq = 0) (window : l.outstanding = []) : Numbered [] l where
  oseq := oseq
  number _ _ h := by cases h
  later _ _ h := by cases h
  entries := ⟨[], window.symm, List.Pairwise.nil, fun _ h => absurd h List.not_mem_nil⟩

/-- Discarding entries leaves the others numbered. -/
theorem Numbered.filter (h : Numbered frames l) (p : Outstanding → Bool)
    (oseq : l'.oseq = l.oseq) (window : l'.outstanding = l.outstanding.filter p) :
    Numbered frames l' where
  oseq := oseq.trans h.oseq
  number := h.number
  later := h.later
  entries := by
    obtain ⟨entries, numbering⟩ := h.entries
    refine ⟨entries.filter fun e => p e.2, ?_, ?_, fun e he => ?_⟩
    · rw [window, ← numbering.window, List.filter_map]
      rfl
    · exact numbering.increasing.sublist (List.filter_sublist.map _)
    · exact numbering.frame e (List.mem_of_mem_filter he)

/-- Aging the entries leaves them numbered. -/
theorem Numbered.aged (h : Numbered frames l) (now : Instant) (oseq : l'.oseq = l.oseq)
    (window : l'.outstanding = l.outstanding.map (·.aged now)) : Numbered frames l' where
  oseq := oseq.trans h.oseq
  number := h.number
  later := h.later
  entries := by
    obtain ⟨entries, numbering⟩ := h.entries
    refine ⟨entries.map fun e => (e.1, e.2.aged now), ?_, ?_, ?_⟩
    · rw [window, ← numbering.window, List.map_map, List.map_map]
      rfl
    · rw [List.map_map]
      exact numbering.increasing
    · intro e' he'
      obtain ⟨e, he, rfl⟩ := List.mem_map.mp he'
      obtain ⟨hd, frame, is⟩ := numbering.frame e he
      obtain ⟨bytes, oseq, ts⟩ := e.2.aged_same now
      exact ⟨hd, frame, by rw [bytes]; exact is.read, oseq.trans is.oseq, ts.trans is.ts⟩

/-- One more frame takes the next number; its entry is the last of the window, if it has one. -/
theorem Numbered.next (h : Numbered frames l) {hd : Header} (number : hd.oseq = l.oseq)
    (notNew : frames ≠ [] → ¬ hd.isNew) (oseq : l'.oseq = l.oseq + 1)
    (window : l'.outstanding = l.outstanding ∨
      ∃ o : Outstanding, l'.outstanding = l.outstanding ++ [o] ∧ o.Is hd) :
    Numbered (frames ++ [hd]) l' where
  oseq := by
    rw [oseq, h.oseq, List.length_append, UInt8.ofNat_add]
    rfl
  number n hd' hn := by
    rcases getElem?_concat_cases hn with hn | ⟨rfl, rfl⟩
    · exact h.number n hd' hn
    · exact number.trans h.oseq
  later n hd' hn pos := by
    rcases getElem?_concat_cases hn with hn | ⟨rfl, rfl⟩
    · exact h.later n hd' hn pos
    · exact notNew (List.length_pos_iff.mp pos)
  entries := by
    obtain ⟨entries, numbering⟩ := h.entries
    have old {e : Nat × Outstanding} (he : e ∈ entries) :
        ∃ hd', (frames ++ [hd])[e.1]? = some hd' ∧ e.2.Is hd' := by
      obtain ⟨hd', frame, is⟩ := numbering.frame e he
      exact ⟨hd', (List.getElem?_append_left (List.getElem?_eq_some_iff.mp frame).1).trans frame,
        is⟩
    rcases window with window | ⟨o, window, is⟩
    · exact ⟨entries, numbering.window.trans window.symm, numbering.increasing, fun e => old⟩
    · refine ⟨entries ++ [(frames.length, o)], ?_, ?_, fun e he => ?_⟩
      · rw [window, ← numbering.window, List.map_append]
        rfl
      · rw [List.map_append]
        refine List.pairwise_append.mpr ⟨numbering.increasing, List.pairwise_singleton _ _, ?_⟩
        intro n hn m hm
        obtain ⟨e, he, rfl⟩ := List.mem_map.mp hn
        obtain ⟨_, frame, _⟩ := numbering.frame e he
        obtain rfl := List.mem_singleton.mp hm
        exact (List.getElem?_eq_some_iff.mp frame).1
      · rcases List.mem_append.mp he with he | he
        · exact old he
        · obtain rfl := List.mem_singleton.mp he
          exact ⟨hd, List.getElem?_concat_length, is⟩

/-- A leg that sends has numbered what it sent, whether the window backs it or not. -/
theorem Numbered.backs (h : Numbered frames l) (backs : l.Backs now l' sent)
    (src : l.localNo &&& callMask = k) (notNew : frames ≠ [] → ∀ hd ∈ fresh k sent, ¬ hd.isNew) :
    Numbered (frames ++ fresh k sent) l' := by
  cases backs with
  | silent => exact (List.append_nil frames).symm ▸ h
  | acked ts =>
    rw [fresh_eq_nil fun dg hdg hd read => ?_, List.append_nil]
    · exact h
    · obtain rfl := List.mem_singleton.mp hdg
      exact ack_not_numbered read
  | audio m =>
    rw [fresh_eq_nil fun dg hdg hd read => ?_, List.append_nil]
    · exact h
    · obtain rfl := List.mem_singleton.mp hdg
      rw [Header.read_mini] at read
      cases read
  | tracked ts ft sc ies kind =>
    have one : fresh k [(l.build ts ft sc ies).1.encode] = [(l.build ts ft sc ies).1.wire] := by
      have numbered : (l.build ts ft sc ies).1.wire.numberedOn k = true := by
        rw [Header.numberedOn, kind.2, Bool.not_false, Bool.and_true, Bool.and_eq_true]
        exact ⟨decide_eq_true src, rfl⟩
      simp only [fresh, List.filterMap_cons, List.filterMap_nil, Header.read_encode,
        List.filter_cons, List.filter_nil, numbered, if_true]
    rw [one] at notNew ⊢
    exact h.next rfl (fun hne => notNew hne _ List.mem_cons_self) rfl
      (.inr ⟨_, rfl, Header.read_encode _, rfl, rfl⟩)

theorem Numbered.spends (h : Numbered frames l) (spends : l.Spends l' sent)
    (src : l.localNo &&& callMask = k) (notNew : frames ≠ [] → ∀ hd ∈ fresh k sent, ¬ hd.isNew) :
    Numbered (frames ++ fresh k sent) l' := by
  cases spends with
  | untracked ts ft sc payload kind =>
    have one : fresh k [(l.build ts ft sc []).1.encodeMedia payload] =
        [(l.build ts ft sc []).1.wire] := by
      have numbered : (l.build ts ft sc []).1.wire.numberedOn k = true := by
        rw [Header.numberedOn, kind.not_ack, Bool.not_false, Bool.and_true, Bool.and_eq_true]
        exact ⟨decide_eq_true src, rfl⟩
      simp only [fresh, List.filterMap_cons, List.filterMap_nil, Header.read_encodeMedia,
        List.filter_cons, List.filter_nil, numbered, if_true]
    rw [one] at notNew ⊢
    exact h.next rfl (fun hne => notNew hne _ List.mem_cons_self) rfl (.inl rfl)

end

/-- The input makes the leg count from zero again. -/
def CallInput.resets : CallInput → Bool
  | .token _ => true
  | _ => false

namespace PbxClient

variable {s s' : PbxClient} {md5 : Md5}

/-! ## Only an opening and a call token send a NEW -/

/-- None of the datagrams is a NEW. -/
def NoNew (sent : List Bytes) : Prop := ∀ dg ∈ sent, ∀ hd, Header.read dg = some hd → ¬ hd.isNew

theorem NoNew.nothing : NoNew [] := fun _ hdg => absurd hdg List.not_mem_nil

theorem NoNew.one {dg : Bytes} {hd : Header} (read : Header.read dg = some hd)
    (notNew : ¬ hd.isNew) : NoNew [dg] := by
  intro dg' hdg hd' read'
  obtain rfl := List.mem_singleton.mp hdg
  cases read.symm.trans read'
  exact notNew

theorem NoNew.ack (l : Leg) (ts : UInt32) : NoNew [l.ackBytes ts] := by
  refine .one (Leg.ackBytes_read l ts) ?_
  rintro ⟨_, hsub⟩
  exact absurd (show Iax.ack &&& 0x7F = Iax.new from hsub) (by decide)

theorem NoNew.audio (m : MiniFrame) : NoNew [m.encode] := by
  intro dg hdg hd read
  obtain rfl := List.mem_singleton.mp hdg
  rw [Header.read_mini] at read
  cases read

/-- A frame of a kind that is written in the source. -/
theorem NoNew.built (l : Leg) (ts : UInt32) (ft sc : UInt8) (ies : List Ie)
    (hiax : ft = Frametype.iax → sc &&& 0x7F ≠ Iax.new) :
    NoNew [(l.build ts ft sc ies).1.encode] :=
  .one (Header.read_encode _) fun h => hiax h.1 h.2

theorem onFrame_not_new (respond : String → String) (call : UInt16) (f : FullFrame) (ts : UInt32)
    (now : Instant) (c : CallLeg) : NoNew (c.onFrame respond call f ts now).sent := by
  have hdir : (c.noteFrame f).dir = c.dir := rfl
  simp only [CallLeg.onFrame, hdir]
  cases f.callKind c.dir with
  | authreq =>
    simp only
    split
    · exact .nothing
    · split
      · exact .nothing
      · exact .built _ _ _ _ _ (by decide)
  | accept =>
    simp only
    split <;> exact .ack _ _
  | lagrq => exact .built _ _ _ _ _ (by decide)
  | ping => exact .built _ _ _ _ _ (by decide)
  | ackPong => exact .nothing
  | lagrp => exact .nothing
  | _ => exact .ack _ _

/-- What a live call sends is no NEW, unless it has got a call token. -/
theorem reaction_not_new {i : Invocation} {call : UInt16} {c : CallLeg} {x : CallInput}
    (noToken : ∀ token, x ≠ .token token) : NoNew (s.reaction md5 i call c x).sent := by
  cases x with
  | answer =>
    simp only [reaction, CallLeg.answer]
    split
    · exact .built _ _ _ _ _ (by decide)
    · exact .nothing
  | hangup => exact .built _ _ _ _ _ (by decide)
  | dtmf digit => exact .built _ _ _ _ _ fun h => absurd h (by decide)
  | hold hold => exact .built _ _ _ _ _ fun h => absurd h (by decide)
  | voice ulaw =>
    simp only [reaction, CallLeg.sendVoice]
    split
    · exact .nothing
    · split
      · have voice : Frametype.voice ≠ Frametype.iax := by decide
        exact .one (Header.read_encodeMedia _ _) fun h => voice h.1
      · exact .audio _
  | mini m =>
    simp only [reaction, CallLeg.onMini]
    split <;> exact .nothing
  | token token => exact absurd rfl (noToken token)
  | frame f => exact onFrame_not_new _ _ _ _ _ _

/-! ## The numbering along a run -/

/-- The step opens the leg `k`, or a call token resets it. -/
def Move.starts (k : UInt16) (t : Move) : Bool :=
  match t.pre.target t.label.op with
  | .opening _ => t.pre.allocCallno.1 = k
  | .call call x => call = k && x.resets
  | _ => false

/-- The frames that have taken a number on the leg `k` since it was opened or reset, oldest
first. -/
def numbered (k : UInt16) : List Move → List Header
  | [] => []
  | t :: past => (if t.starts k then [] else numbered k past) ++ fresh k t.pushed

/-- A reaction numbers what it sends: from zero after a call token, else after what was numbered
before. -/
theorem numbered_reaction (wf : s.WellFormed) {k : UInt16} {c : CallLeg}
    (live : s.calls.lookup k = some c) (i : Invocation) (x : CallInput) {frames : List Header}
    (h : Numbered frames c.leg) :
    Numbered ((if x.resets then [] else frames) ++
      fresh k (s.reaction md5 i k c x).sent) (s.reaction md5 i k c x).entry.leg := by
  have src := noted_src wf live x
  have start : Numbered (if x.resets then [] else frames) (c.noted x) := by
    cases x with
    | token token => exact .start rfl rfl
    | frame f => exact h.filter _ rfl rfl
    | _ => exact h
  have notNew : (if x.resets then [] else frames) ≠ [] →
      ∀ hd ∈ fresh k (s.reaction md5 i k c x).sent, ¬ hd.isNew := by
    intro hne hd hhd
    obtain ⟨_, dg, hdg, read⟩ := mem_fresh hhd
    refine reaction_not_new (fun token htoken => ?_) dg hdg hd read
    rw [htoken] at hne
    exact hne rfl
  rcases reaction_leg md5 s i k c x with ⟨_, backs⟩ | ⟨_, spends⟩
  · exact start.backs backs src notNew
  · exact start.spends spends src notNew

/-- A new call numbers what it sends. -/
theorem numbered_opened {k : UInt16} (hin : InCycle k) (i : Invocation) (o : Opening) :
    Numbered (fresh k (s.opened i k o).sent) (s.opened i k o).entry.leg := by
  rcases opened_leg s i k o with ⟨_, _, backs⟩ | ⟨f, leg, accept, ringing, ho, sent, backs, backs'⟩
  · exact (Numbered.start rfl rfl).backs backs hin.masked fun h => absurd rfl h
  · have first : Numbered (fresh k [accept]) leg :=
      (Numbered.start rfl rfl).backs backs hin.masked fun h => absurd rfl h
    have src : leg.localNo &&& callMask = k := backs.src.trans hin.masked
    rw [sent, show [accept, ringing] = [accept] ++ [ringing] from rfl, fresh_append]
    refine first.backs backs' src fun _ hd hhd => ?_
    obtain ⟨_, dg, hdg, read⟩ := mem_fresh hhd
    subst ho
    have ring := (List.cons.inj (List.cons.inj sent).2).1
    rw [← ring] at hdg
    exact NoNew.built _ _ _ _ _ (by decide) dg hdg hd read

section elsewhere

variable {i : Invocation} {k : UInt16} (notCall : ∀ x, s.target i.op ≠ .call k x)
  (notOpened : ∀ o, s.target i.op = .opening o → k ≠ s.allocCallno.1)

include notCall notOpened

/-- A step that does not reach the leg does not start it. -/
theorem starts_elsewhere : Move.starts k ⟨s, i, s'⟩ = false := by
  unfold Move.starts
  split
  next o target => exact decide_eq_false fun heq => notOpened o target heq.symm
  next call x target =>
    rw [decide_eq_false fun heq : call = k => notCall x (heq ▸ target), Bool.false_and]
  next => rfl

/-- A step that does not reach the leg sends nothing on it for the first time. -/
theorem first_elsewhere (wf : s.WellFormed) (step : s.Outcome md5 i s') (hin : InCycle k)
    {dg : Bytes} (hdg : dg ∈ s.pushed s') {hd : Header} (read : Header.read dg = some hd)
    (first : hd.retransmit = false) : hd.srcCall ≠ k := by
  rintro rfl
  rcases step.sender wf hdg read first hin with ⟨_, x, _, target, _⟩ | ⟨o, target, alloc, _⟩
  · exact notCall x target
  · exact notOpened o target alloc

/-- A step that does not reach the leg numbers nothing on it. -/
theorem fresh_elsewhere (wf : s.WellFormed) (step : s.Outcome md5 i s') (hin : InCycle k) :
    fresh k (s.pushed s') = [] := by
  refine fresh_eq_nil fun dg hdg hd read => Bool.eq_false_iff.mpr fun numbered => ?_
  simp only [Header.numberedOn, Bool.and_eq_true, decide_eq_true_eq, Bool.not_eq_true'] at numbered
  obtain ⟨⟨src, first⟩, _⟩ := numbered
  exact first_elsewhere notCall notOpened wf step hin hdg read first src

end elsewhere

/-- In every state reached, the leg of every live call has numbered the frames it has sent. -/
theorem numbered_run {cfg : Config} {past : List Move} (run : (system md5 cfg).Run past s)
    {k : UInt16} {c : CallLeg} (live : s.calls.lookup k = some c) :
    Numbered (numbered k past) c.leg := by
  induction run generalizing c with
  | start init =>
    obtain ⟨now, rfl⟩ := init
    cases live
  | @step past s s' i run step ih =>
    have wf := wellFormed_run run
    have step := Step.outcome step
    have hin : InCycle k := (wf.outcome step).live_inCycle live
    -- a step that does not reach the leg
    have untouched {c₀ : CallLeg} (live₀ : s.calls.lookup k = some c₀)
        (notCall : ∀ x, s.target i.op ≠ .call k x)
        (notOpened : ∀ o, s.target i.op = .opening o → k ≠ s.allocCallno.1) :
        Numbered (numbered k (⟨s, i, s'⟩ :: past)) c₀.leg := by
      have goes : Move.starts k ⟨s, i, s'⟩ = false := starts_elsewhere notCall notOpened
      have none : fresh k (Move.pushed ⟨s, i, s'⟩) = [] :=
        fresh_elsewhere notCall notOpened wf step hin
      rw [numbered, goes, none, List.append_nil]
      exact ih live₀
    cases step.entryStep live with
    | kept live₀ _ notCall notOpened => exact untouched live₀ notCall notOpened
    | @aged c₀ live₀ target _ entry =>
      subst entry
      refine Numbered.aged (untouched live₀ ?_ ?_) i.now rfl ?_
      · intro x h
        cases target.symm.trans h
      · intro o h
        cases target.symm.trans h
      · show (expire i.now c₀.leg.outstanding).window = _
        rw [expire_eq]
    | @reacted c₀ x live₀ target stays =>
      have goes : Move.starts k ⟨s, i, s'⟩ = x.resets := by
        simp only [Move.starts, target, decide_true, Bool.true_and]
      have pushed : Move.pushed ⟨s, i, s'⟩ = (s.reaction md5 i k c₀ x).sent :=
        step.sent live₀ target
      rw [numbered, goes, pushed, Reaction_kept_some stays]
      exact numbered_reaction wf live₀ i x (ih live₀)
    | @opened o target number entry =>
      subst entry
      have goes : Move.starts k ⟨s, i, s'⟩ = true := by
        simp only [Move.starts, target]
        exact decide_eq_true number.symm
      have pushed : Move.pushed ⟨s, i, s'⟩ = (s.opened i k o).sent := by
        rw [number]
        exact (step.to_opened target).sent
      rw [numbered, goes, pushed]
      exact numbered_opened hin i o

/-! ## What an ACK removes -/

/-- The ACK of a peer that has received the frames of the leg `k` up to number `n`, and no other. -/
structure AcksFrame (frames : List Header) (k : UInt16) (n : Nat) (f : FullFrame) : Prop where
  addressed : f.dstCall = k
  ack : f.isAck = true
  iseq : f.iseq = UInt8.ofNat (n + 1)
  timestamp : ∃ h, frames[n]? = some h ∧ f.timestamp = h.timestamp

/-- The window is what is left of the entries when frame `n` and everything before it are removed,
and nothing that comes after. -/
structure Cuts (n : Nat) (entries : List (Nat × Outstanding)) (window : List Outstanding) :
    Prop where
  through : ∀ e ∈ entries, e.1 ≤ n → e.2 ∉ window
  beyond : ∀ e ∈ entries, n < e.1 → e.2 ∈ window
  only : ∀ o ∈ window, o ∈ entries.map (·.2)

/-- The number after `n` and the timestamp `ts` tell the entries up to frame `n` from those that
come after: eight bits see far enough back and not too far ahead, and no later entry has the
timestamp. -/
structure Separates (n : Nat) (ts : UInt32) (entries : List (Nat × Outstanding)) : Prop where
  behind : ∀ e ∈ entries, e.1 ≤ n → (n - e.1) % 256 < 127 ∨ e.2.ts = ts
  ahead : ∀ e ∈ entries, n < e.1 → (e.1 - (n + 1)) % 256 ≤ 128 ∧ e.2.ts ≠ ts

theorem isAck_iff {f : FullFrame} :
    f.isAck = true ↔ f.frametype = Frametype.iax ∧ f.subclass = Iax.ack := by
  simp only [FullFrame.isAck, Bool.and_eq_true, decide_eq_true_eq]

theorem callKind_of_isAck {f : FullFrame} (ack : f.isAck = true) (dir : Dir) :
    f.callKind dir = .ackPong := by
  obtain ⟨hft, hsub⟩ := isAck_iff.mp ack
  simp only [FullFrame.callKind, hft, hsub]
  cases dir <;> rfl

/-- Which entries an ACK for frame `n` acknowledges. -/
theorem acked_iff {o : Outstanding} {m n : Nat} {ts : UInt32} (number : o.oseq = UInt8.ofNat m) :
    (m ≤ n → (o.acked (UInt8.ofNat (n + 1)) ts true = true ↔
      (n - m) % 256 < 127 ∨ o.ts = ts)) ∧
    (n < m → (o.acked (UInt8.ofNat (n + 1)) ts true = true ↔
      ¬ ((m - (n + 1)) % 256 ≤ 128 ∧ o.ts ≠ ts))) := by
  simp only [Outstanding.acked, number, Bool.true_and, Bool.or_eq_true, decide_eq_true_eq]
  constructor
  · intro h
    rw [seqBefore_of_lt (Nat.lt_succ_of_le h), Nat.succ_sub_one]
  · intro h
    rw [seqBefore_of_le h]
    by_cases hts : o.ts = ts <;> simp [hts]

/-- The cut of a window by an ACK that is handled on the leg. -/
theorem cuts_filter_iff {frames : List Header} {l : Leg} {entries : List (Nat × Outstanding)}
    (numbered : Numbered frames l) (numbering : Numbering frames l.outstanding entries)
    (n : Nat) (ts : UInt32) :
    Cuts n entries (l.outstanding.filter fun o => !o.acked (UInt8.ofNat (n + 1)) ts true) ↔
      Separates n ts entries := by
  have mem {e : Nat × Outstanding} (he : e ∈ entries) :
      e.2 ∈ (l.outstanding.filter fun o => !o.acked (UInt8.ofNat (n + 1)) ts true) ↔
        ¬ e.2.acked (UInt8.ofNat (n + 1)) ts true = true := by
    rw [List.mem_filter, Bool.not_eq_true', Bool.not_eq_true, ← numbering.window]
    exact and_iff_right (List.mem_map_of_mem he)
  have number {e : Nat × Outstanding} (he : e ∈ entries) : e.2.oseq = UInt8.ofNat e.1 := by
    obtain ⟨h, frame, is⟩ := numbering.frame e he
    exact is.oseq.trans (numbered.number e.1 h frame)
  constructor
  · rintro ⟨through, beyond, _⟩
    constructor
    · intro e he hle
      have acked := not_not.mp fun h => through e he hle ((mem he).mpr h)
      exact ((acked_iff (number he)).1 hle).mp acked
    · intro e he hlt
      have kept := (mem he).mp (beyond e he hlt)
      exact not_not.mp fun h => kept (((acked_iff (number he)).2 hlt).mpr h)
  · rintro ⟨behind, ahead⟩
    constructor
    · intro e he hle hmem
      exact (mem he).mp hmem (((acked_iff (number he)).1 hle).mpr (behind e he hle))
    · intro e he hlt
      exact (mem he).mpr fun h => ((acked_iff (number he)).2 hlt).mp h (ahead e he hlt)
    · intro o ho
      rw [numbering.window]
      exact List.mem_of_mem_filter ho

/-- An ACK without a call token is handled on its leg, and does nothing but acknowledge. -/
theorem window_of_ack {i : Invocation} (wf : s.WellFormed) {f : FullFrame} {c : CallLeg}
    (live : s.calls.lookup f.dstCall = some c) (ack : f.isAck = true)
    (noToken : s.tokenRoute f = none) :
    (s.onFull md5 f i.now i.clock).window f.dstCall =
      (c.leg.ackUpto f.iseq f.timestamp f.isAck).outstanding := by
  have hin : InCycle f.dstCall := wf.live_inCycle live
  have notNew : ¬ (f.frametype = Frametype.iax ∧ f.subclass = Iax.new) := by
    rintro ⟨_, hsub⟩
    exact absurd ((isAck_iff.mp ack).2.symm.trans hsub) (by decide)
  have handled : s.onFull md5 f i.now i.clock =
      s.onCallFrame md5 f.dstCall c f i.now i.clock := by
    rw [onFull, route_onLeg wf live notNew noToken]
  have kept : (s.reaction md5 i f.dstCall c (.frame f)).kept = some (c.noteFrame f) := by
    simp only [reaction, CallLeg.onFrame, callKind_of_isAck ack]
    rfl
  have left := ((onCallFrame_touched md5 live i).calls f.dstCall).trans (if_pos rfl)
  rw [handled, window_call hin.ne_reg (left.trans kept)]
  rfl

/-- A frame with a call token for a live call leaves a NEW in its window, and nothing else. -/
theorem window_of_token {i : Invocation} (wf : s.WellFormed) {f : FullFrame} {c : CallLeg}
    {r : Route} (live : s.calls.lookup f.dstCall = some c) (token : s.tokenRoute f = some r) :
    ∃ o, (s.onFull md5 f i.now i.clock).window f.dstCall = [o] ∧
      ∀ hd, Header.read o.bytes = some hd → hd.isNew := by
  have hin : InCycle f.dstCall := wf.live_inCycle live
  have route := route_of_token hin.ne_zero token
  obtain ⟨tok, _, _, _, _, rfl⟩ := tokenRoute_live wf live token
  have effect := onCall_touched live fun c =>
    c.resendNew (withToken tok.data (s.newCallIes c.peer)) (s.ts i.clock) i.now
  have left := (effect.calls f.dstCall).trans (if_pos rfl)
  have handled : s.onFull md5 f i.now i.clock =
      s.resendNewWithToken f.dstCall tok.data i.now i.clock := by
    rw [onFull, route]
  rw [handled, resendNewWithToken, window_call hin.ne_reg left]
  refine ⟨_, rfl, fun hd read => ?_⟩
  rw [Header.read_encode] at read
  cases read
  have literal : Iax.new &&& 0x7F = Iax.new := by decide
  exact ⟨rfl, literal⟩

/-- In every state reached, the window of a live call is numbered by the history of its leg, and an
ACK for frame `n` cuts it after frame `n` exactly if it carries no call token and its number and
timestamp separate the entries there. -/
theorem ackCuts_iff {cfg : Config} {past : List Move} (run : (system md5 cfg).Run past s)
    {k : UInt16} {c : CallLeg} (live : s.calls.lookup k = some c) :
    (∃ entries, Numbering (numbered k past) c.leg.outstanding entries) ∧
      ∀ entries, Numbering (numbered k past) c.leg.outstanding entries →
        ∀ (n : Nat) (dg : Bytes) (f : FullFrame), FullFrame.decode dg = some f →
          AcksFrame (numbered k past) k n f → ∀ i : Invocation, i.op = .handleInput dg →
            (Cuts n entries ((s.apply md5 i).window k) ↔
              s.tokenRoute f = none ∧ Separates n f.timestamp entries) := by
  have wf := wellFormed_run run
  have numbered := numbered_run run live
  refine ⟨numbered.entries, ?_⟩
  intro entries numbering n dg f decoded acks i op
  obtain ⟨rfl, ack, iseq, _⟩ := acks
  rw [apply_full decoded (.inl op)]
  cases htoken : s.tokenRoute f with
  | none =>
    rw [window_of_ack wf live ack htoken, and_iff_right rfl, iseq, ack]
    exact cuts_filter_iff numbered numbering n f.timestamp
  | some r =>
    -- the NEW in the window would be an entry from before, and so the first frame
    refine iff_of_false (fun cuts => ?_) fun h => Option.some_ne_none r h.1
    obtain ⟨o, window, new⟩ := window_of_token wf live htoken
    rw [window] at cuts
    obtain ⟨e, he, rfl⟩ := List.mem_map.mp (cuts.only o List.mem_cons_self)
    obtain ⟨h, frame, is⟩ := numbering.frame e he
    have first : e.1 = 0 := Nat.eq_zero_of_not_pos fun pos =>
      numbered.later e.1 h frame pos (new h is.read)
    exact cuts.through e he (first ▸ Nat.zero_le n) List.mem_cons_self

/-- A window from which nothing was removed yet holds the frames of the leg from the first one on. -/
theorem Numbering.of_zipIdx {frames : List Header} {window : List Outstanding}
    (each : ∀ e ∈ window.zipIdx, frames[e.2]?.any fun h =>
      Header.read e.1.bytes = some h ∧ e.1.oseq = h.oseq ∧ e.1.ts = h.timestamp) :
    Numbering frames window (window.zipIdx.map Prod.swap) := by
  refine ⟨?_, ?_, fun e he => ?_⟩
  · rw [List.map_map]
    exact List.zipIdx_map_fst 0 window
  · rw [List.map_map]
    exact (List.zipIdx_map_snd 0 window).symm ▸ List.pairwise_lt_range'
  · obtain ⟨e, member, rfl⟩ := List.mem_map.mp he
    obtain ⟨h, frame, is⟩ := (Option.any_eq_true _ _).mp (each e member)
    obtain ⟨read, oseq, ts⟩ := of_decide_eq_true is
    exact ⟨h, frame, read, oseq, ts⟩

/-- The incoming call 16 is answered a second after it came in. The ACK of a peer that has got the
ACCEPT and the RINGING removes these, and leaves the ANSWER. -/
theorem ackCuts_sample :
    let calls := [Sample.receive Sample.newCall,
      { op := .handleCommand (.answer 16), clock := Duration.fromMillis 1000 }]
    let entries := ((Sample.after calls).window 16).zipIdx.map Prod.swap
    let ack := Sample.frame 0 1 2 Frametype.iax Iax.ack
    entries.map (·.1) = [0, 1, 2] ∧ AcksFrame (numbered 16 (Sample.trace calls)) 16 1 ack ∧
      Cuts 1 entries (((Sample.after calls).apply Sample.md5 (Sample.receive ack)).window 16) := by
  intro calls entries ack
  have acks : AcksFrame (numbered 16 (Sample.trace calls)) 16 1 ack :=
    ⟨rfl, by decide, rfl, _, rfl, rfl⟩
  have law := (ackCuts_iff (Sample.run calls (by decide)) rfl).2 entries
    (Numbering.of_zipIdx (by decide)) 1 ack.encode ack (by decide) acks (Sample.receive ack) rfl
  exact ⟨by decide, acks, law.mpr ⟨by decide, ⟨by decide, by decide⟩⟩⟩

/-- The ACCEPT (number 0) and the RINGING (number 1) of an incoming call have one timestamp: the ACK
of a peer that has only got the ACCEPT removes both. -/
theorem accept_acknowledges_ringing :
    ¬ ∀ {past : List Move} {s : PbxClient}, (system Sample.md5 Sample.cfg).Run past s →
      ∀ {k : UInt16} {c : CallLeg}, s.calls.lookup k = some c → c.leg.outstanding.length ≤ 127 →
        ∀ entries, Numbering (numbered k past) c.leg.outstanding entries →
          ∀ (n : Nat) (dg : Bytes) (f : FullFrame), FullFrame.decode dg = some f →
            AcksFrame (numbered k past) k n f → f.ies = [] →
              Cuts n entries ((s.apply Sample.md5 { op := .handleInput dg }).window k) := by
  intro law
  let past := Sample.trace [Sample.receive Sample.newCall]
  let s := Sample.after [Sample.receive Sample.newCall]
  let ack := Sample.frame 0 1 1 Frametype.iax Iax.ack
  obtain ⟨c, live, window⟩ : ∃ c, s.calls.lookup 16 = some c ∧ c.leg.outstanding = s.window 16 :=
    ⟨_, rfl, rfl⟩
  let entries := (s.window 16).zipIdx.map Prod.swap
  have numbering : Numbering (numbered 16 past) (s.window 16) entries :=
    Numbering.of_zipIdx (by decide)
  have cuts := law (Sample.run [Sample.receive Sample.newCall] (by decide)) live
    (window ▸ by decide) entries (window ▸ numbering) 0 ack.encode ack (by decide)
    ⟨rfl, by decide, rfl, _, rfl, rfl⟩ rfl
  have second : ∃ e ∈ entries, 0 < e.1 := by decide
  have empty : (s.apply Sample.md5 (Sample.receive ack)).window 16 = [] := by decide
  obtain ⟨e, he, later⟩ := second
  exact absurd (empty ▸ cuts.beyond e he later) List.not_mem_nil

end PbxClient

end Iax2
