import Iax2.Laws.Reliable

/-!
# A datagram that comes twice

The client has no filter for duplicates: neither the R bit nor the number of a received frame
decides anything, and a retransmission is handled like the frame it repeats (`handleInput_full`).
This module says what the second handling does. A NEW opens another call (`new_opens_again`). A
frame of a leg does nothing new, apart from what it sends, unless it is one of the kinds that act
each time (`Settled`, `repeat_is_silent`).
-/

namespace Iax2.PbxClient

variable {s s' : PbxClient} {md5 : Md5}

/-! ## Routing -/

/-- In a well-formed state a call token is for the registration, or for the call that the frame is
addressed to. No iteration order decides. -/
theorem tokenRoute_eq (wf : s.WellFormed) (f : FullFrame) :
    s.tokenRoute f =
      match Ie.find f.ies IeKind.calltoken with
      | none => none
      | some tok =>
        if tok.data = [] then none
        else if f.dstCall = callnoReg ∧ s.calltoken = none then some (.regToken tok.data)
        else
          match s.calls.lookup f.dstCall with
          | some c =>
            if c.dir = .outbound ∧ c.state = .trying then some (.newToken f.dstCall tok.data)
            else none
          | none => none := by
  unfold tokenRoute
  rw [wf.regNo]
  cases Ie.find f.ies IeKind.calltoken with
  | none => rfl
  | some tok =>
    simp only
    split
    next => rfl
    next =>
      split
      next => rfl
      next =>
        -- an entry that waits for the token is the entry of the addressed call
        have waits {e : Sigma fun _ : UInt16 => CallLeg} (he : e ∈ s.calls.entries)
            (hwaits : e.2.dir = .outbound ∧ e.2.state = .trying ∧ f.dstCall = e.2.leg.localNo) :
            s.calls.lookup f.dstCall = some e.2 ∧ e.1 = f.dstCall := by
          have hlookup := Table.mem_entries_iff.mp he
          have hkey : f.dstCall = e.1 := hwaits.2.2.trans (wf.localNo hlookup)
          exact ⟨hkey ▸ hlookup, hkey.symm⟩
        split
        next e hfind =>
          have hwaits := List.find?_some hfind
          simp only [decide_eq_true_eq] at hwaits
          obtain ⟨hlookup, hkey⟩ := waits (List.mem_of_find?_eq_some hfind) hwaits
          rw [hlookup, hkey]
          exact (if_pos ⟨hwaits.1, hwaits.2.1⟩).symm
        next hfind =>
          split
          next c hlookup =>
            rw [if_neg]
            rintro ⟨hdir, hstate⟩
            have hnone := List.find?_eq_none.mp hfind ⟨f.dstCall, c⟩
              (Table.mem_entries_iff.mpr hlookup)
            exact hnone (decide_eq_true ⟨hdir, hstate, (wf.localNo hlookup).symm⟩)
          next => rfl

/-- A frame with a token for a request in flight is routed to it, a NEW too. -/
theorem route_of_token {f : FullFrame} {r : Route} (dst : f.dstCall ≠ 0)
    (token : s.tokenRoute f = some r) : s.route f = r := by
  rw [route, if_neg fun h => dst h.2.2, token]

/-- A token in a frame for a live call is for that call. -/
theorem tokenRoute_live (wf : s.WellFormed) {f : FullFrame} {c : CallLeg} {r : Route}
    (live : s.calls.lookup f.dstCall = some c) (token : s.tokenRoute f = some r) :
    ∃ tok, Ie.find f.ies IeKind.calltoken = some tok ∧ tok.data ≠ [] ∧ c.dir = .outbound ∧
      c.state = .trying ∧ r = .newToken f.dstCall tok.data := by
  obtain ⟨tok, found, given, ⟨reg, _⟩ | ⟨k, c', live', dir, state, dst, rfl⟩⟩ :=
    tokenRoute_some token
  · exact absurd (reg.trans wf.regNo) (wf.live_inCycle live).ne_reg
  · obtain rfl : f.dstCall = k := dst.trans (wf.localNo live')
    cases live.symm.trans live'
    exact ⟨tok, found, given, dir, state, rfl⟩

/-- A token for an outgoing call that waits for one is routed to it. -/
theorem route_newToken (wf : s.WellFormed) {f : FullFrame} {c : CallLeg} {tok : Ie}
    (live : s.calls.lookup f.dstCall = some c) (dir : c.dir = .outbound) (state : c.state = .trying)
    (found : Ie.find f.ies IeKind.calltoken = some tok) (given : tok.data ≠ []) :
    s.route f = .newToken f.dstCall tok.data := by
  have hin := wf.live_inCycle live
  refine route_of_token hin.ne_zero ?_
  rw [tokenRoute_eq wf, found, live]
  simp only [if_neg given, hin.ne_reg, false_and, if_false]
  exact if_pos ⟨dir, state⟩

/-- Where a frame goes that is addressed to a leg and neither a NEW nor a token for a request in
flight. -/
theorem route_leg (wf : s.WellFormed) {f : FullFrame} (dst : f.dstCall ≠ 0)
    (notNew : ¬ (f.frametype = Frametype.iax ∧ f.subclass = Iax.new))
    (noToken : s.tokenRoute f = none) :
    s.route f =
      if f.dstCall = callnoReg then .reg
      else
        match s.calls.lookup f.dstCall with
        | some c => .call c
        | none => .offLeg := by
  unfold route
  rw [if_neg fun h => dst h.2.2, noToken, wf.regNo]
  exact if_neg notNew

/-- A frame for a live call is handled on its leg, if it is neither a NEW nor a token for it. -/
theorem route_onLeg (wf : s.WellFormed) {f : FullFrame} {c : CallLeg}
    (live : s.calls.lookup f.dstCall = some c)
    (notNew : ¬ (f.frametype = Frametype.iax ∧ f.subclass = Iax.new))
    (noToken : s.tokenRoute f = none) : s.route f = .call c := by
  have hin := wf.live_inCycle live
  rw [route_leg wf hin.ne_zero notNew noToken, if_neg hin.ne_reg, live]

/-- A datagram and its retransmission are handled alike. -/
theorem handleInput_full {dg : Bytes} {f : FullFrame} (h : FullFrame.decode dg = some f)
    (md5 : Md5) (s : PbxClient) (now clock : Instant) :
    s.handleInput md5 dg now clock = s.onFull md5 f now clock ∧
      s.handleInput md5 (setRetransmit dg) now clock = s.onFull md5 f now clock := by
  have full := isFullFrame_of_decode h
  constructor
  · rw [handleInput, if_pos full, h]
  · rw [handleInput, isFullFrame_setRetransmit, if_pos full, decode_setRetransmit, h]
    rfl

/-! ## A NEW that comes twice -/

/-- A frame carries no token for a request in flight, and still carries none after a step that
leaves the registration and every call that waits for a token as they were. -/
theorem tokenRoute_none_of {f : FullFrame} (wf : s.WellFormed) (wf' : s'.WellFormed)
    (h : s.tokenRoute f = none) (token : s'.calltoken = s.calltoken)
    (waiting : ∀ c', s'.calls.lookup f.dstCall = some c' → c'.dir = .outbound →
      c'.state = .trying → ∃ c, s.calls.lookup f.dstCall = some c ∧ c.dir = .outbound ∧
        c.state = .trying) : s'.tokenRoute f = none := by
  rw [tokenRoute_eq wf] at h
  rw [tokenRoute_eq wf', token]
  cases htok : Ie.find f.ies IeKind.calltoken with
  | none => rfl
  | some tok =>
    simp only [htok] at h ⊢
    split
    next => rfl
    next hdata =>
      rw [if_neg hdata] at h
      split
      next hreg =>
        rw [if_pos hreg] at h
        cases h
      next hreg =>
        rw [if_neg hreg] at h
        split
        next c' hc' =>
          rw [if_neg]
          rintro ⟨hdir, hstate⟩
          obtain ⟨c, hc, hdir, hstate⟩ := waiting c' hc' hdir hstate
          simp only [hc, if_pos (And.intro hdir hstate), reduceCtorEq] at h
        next => rfl

/-- A NEW that carries no token for a request in flight opens a call. -/
theorem route_new {f : FullFrame} (new : f.frametype = Frametype.iax ∧ f.subclass = Iax.new)
    (noToken : s.tokenRoute f = none) : s.route f = .incomingNew := by
  unfold route
  rw [if_neg, noToken]
  · exact if_pos new
  · rintro ⟨_, hsub | hsub, _⟩
    · rw [new.2] at hsub
      exact absurd hsub (by decide)
    · rw [new.2] at hsub
      exact absurd hsub (by decide)

/-- One handling of a NEW: one more call rings, under a number that was free unless all were in
use, and it is reported. -/
structure OneMore (s : PbxClient) (f : FullFrame) (k : UInt16) (s' : PbxClient) : Prop where
  live : ∀ j, j ∈ s'.calls ↔ j = k ∨ j ∈ s.calls
  free : k ∉ s.calls ∨ s.Full
  rings : ∃ c, s'.calls.lookup k = some c ∧ c.dir = .inbound ∧ c.state = .ringing
  event : s.emitted s' = [.incoming k (f.text IeKind.callingNumber) (f.text IeKind.calledNumber)]

theorem onIncomingNew_oneMore (wf : s.WellFormed) (f : FullFrame) (i : Invocation) :
    s.OneMore f s.allocCallno.1 (s.onIncomingNew f i.now i.clock) := by
  have effect := onIncomingNew_opened s f i
  exact {
    live := fun j => by
      rw [Table.mem_iff_lookup, effect.calls]
      split
      next heq => simp [heq]
      next hne => simp [hne, Table.mem_iff_lookup]
    free := by
      by_cases live : s.allocCallno.1 ∈ s.calls
      · exact .inr ((allocCallno_live_iff wf.callnoNext).mp live)
      · exact .inl live
    rings := ⟨_, (effect.calls _).trans (if_pos rfl), rfl, rfl⟩
    event := effect.events }

/-- A call of the driver with a datagram that decodes as a full frame, or with its
retransmission. -/
theorem apply_full {i : Invocation} {dg : Bytes} {f : FullFrame}
    (decoded : FullFrame.decode dg = some f)
    (op : i.op = .handleInput dg ∨ i.op = .handleInput (setRetransmit dg)) (md5 : Md5)
    (s : PbxClient) : s.apply md5 i = s.onFull md5 f i.now i.clock := by
  have both := handleInput_full decoded md5 s i.now i.clock
  rcases op with op | op
  · simp only [apply, op]
    exact both.1
  · simp only [apply, op]
    exact both.2

/-- A step that handles a full frame. -/
theorem Step.full {i : Invocation} (step : Step md5 s i s') {dg : Bytes} {f : FullFrame}
    (op : i.op = .handleInput dg) (decoded : FullFrame.decode dg = some f) :
    s' = s.onFull md5 f i.now i.clock := by
  cases step with
  | call _ => exact apply_full decoded (.inl op) md5 s
  | rehash rehash _ => cases op.symm.trans rehash

/-- The state after a datagram is one more state of a run. -/
theorem wellFormed_apply {cfg : Config} {past : List Move} (run : (system md5 cfg).Run past s)
    {i : Invocation} {dg : Bytes} (op : i.op = .handleInput dg) : (s.apply md5 i).WellFormed :=
  wellFormed_run (run.step (.call s (by simp [op])))

/-- A NEW, and the same datagram again, with the R bit or without it, open a call each. -/
theorem new_opens_again {cfg : Config} {past : List Move} (run : (system md5 cfg).Run past s)
    {dg : Bytes} {f : FullFrame} (decoded : FullFrame.decode dg = some f)
    (new : f.frametype = Frametype.iax ∧ f.subclass = Iax.new) (noToken : s.tokenRoute f = none)
    {i i' : Invocation} (op : i.op = .handleInput dg)
    (again : i'.op = .handleInput dg ∨ i'.op = .handleInput (setRetransmit dg)) :
    ∃ k₁ k₂, s.OneMore f k₁ (s.apply md5 i) ∧
      (s.apply md5 i).OneMore f k₂ ((s.apply md5 i).apply md5 i') ∧
      (k₁ ≠ k₂ ∨ (s.apply md5 i).Full) := by
  have wf := wellFormed_run run
  have wf₁ := wellFormed_apply run op
  have first : s.apply md5 i = s.onIncomingNew f i.now i.clock := by
    rw [apply_full decoded (.inl op), onFull, route_new new noToken]
  have opened := onIncomingNew_opened s f i
  rw [first] at wf₁ ⊢
  have noToken₁ : (s.onIncomingNew f i.now i.clock).tokenRoute f = none := by
    refine tokenRoute_none_of wf wf₁ noToken rfl fun c' hc' hdir hstate => ?_
    rw [opened.calls] at hc'
    split at hc'
    next =>
      cases hc'
      cases hdir
    next => exact ⟨c', hc', hdir, hstate⟩
  have second : (s.onIncomingNew f i.now i.clock).apply md5 i' =
      (s.onIncomingNew f i.now i.clock).onIncomingNew f i'.now i'.clock := by
    rw [apply_full decoded again, onFull, route_new new noToken₁]
  rw [second]
  have more₁ := onIncomingNew_oneMore wf f i
  have more₂ := onIncomingNew_oneMore wf₁ f i'
  refine ⟨_, _, more₁, more₂, ?_⟩
  rcases more₂.free with free | full
  · refine .inl fun heq => free ?_
    rw [← heq]
    exact (more₁.live _).mpr (.inl rfl)
  · exact .inr full

/-- The peer repeats the NEW of its call 42 with the R bit. -/
theorem new_opens_again_sample :
    let i := Sample.receive Sample.newCall
    let i' : Invocation := { op := .handleInput (setRetransmit Sample.newCall.encode) }
    ∃ k₁ k₂, (Sample.after []).OneMore Sample.newCall k₁ ((Sample.after []).apply Sample.md5 i) ∧
      ((Sample.after []).apply Sample.md5 i).OneMore Sample.newCall k₂
        (((Sample.after []).apply Sample.md5 i).apply Sample.md5 i') ∧
      (k₁ ≠ k₂ ∨ ((Sample.after []).apply Sample.md5 i).Full) :=
  new_opens_again (Sample.run [] (by decide)) (f := Sample.newCall) (by decide)
    ⟨rfl, rfl⟩ (by decide) rfl (.inr rfl)

/-- A repeated NEW is not absorbed: it changes the set of live calls, and is reported. -/
theorem new_not_absorbed :
    ¬ ∀ {past : List Move} {s : PbxClient}, (system Sample.md5 Sample.cfg).Run past s →
      ∀ (dg dg' : Bytes) (f : FullFrame), FullFrame.decode dg = some f →
        f.frametype = Frametype.iax → f.subclass = Iax.new → f.srcCall ≠ 0 →
        dg' = dg ∨ dg' = setRetransmit dg →
        let s₁ := s.apply Sample.md5 { op := .handleInput dg }
        let s₂ := s₁.apply Sample.md5 { op := .handleInput dg' }
        (∀ j, j ∈ s₂.calls ↔ j ∈ s₁.calls) ∧
          ∃ k caller called, s.emitted s₁ ++ s₁.emitted s₂ = [.incoming k caller called] := by
  intro law
  obtain ⟨same, _⟩ := law (Sample.run [] (by decide)) Sample.newCall.encode _ Sample.newCall
    (by decide) rfl rfl (by decide) (.inr rfl)
  have absent : (17 : UInt16) ∉ ((Sample.after []).apply Sample.md5
      (Sample.receive Sample.newCall)).calls := by decide
  exact absent ((same 17).mp (by decide))

/-! ## A frame of a leg that comes twice -/

/-- The peer ends the call with the frame. -/
def Ends (c : CallLeg) (f : FullFrame) : Prop :=
  f.callKind c.dir = .busy ∨ f.callKind c.dir = .hangup ∨ f.callKind c.dir = .reject

/-- A frame that a call does not act on each time it comes: not RINGING, not ANSWER, no digit, no
voice for a call that is up, no challenge that is answered. -/
def SettledCall (c : CallLeg) (f : FullFrame) : Prop :=
  match f.callKind c.dir with
  | .voice => c.state ≠ .up
  | .authreq => f.authmethods &&& Authmethod.md5 = 0 ∨ f.challenge = none
  | .ringing | .answer | .dtmf => False
  | _ => True

/-- A frame that the registration does not act on each time it comes: not REGACK, not REGREJ, no
challenge that is answered. -/
def SettledReg (f : FullFrame) : Prop :=
  match regKind f with
  | .regauth => f.authmethods &&& Authmethod.md5 = 0 ∨ f.challenge = none
  | .regack | .regrej => False
  | .quiet | .other => True

/-- A frame that is not acted on each time it comes. A call token for a call is, unless the second
request has the timestamp of the first. A call token for the registration comes again as a frame of
its leg: it is, unless that frame is settled and does not acknowledge the request that the token
has caused. -/
def Settled (s : PbxClient) (f : FullFrame) (i i' : Invocation) : Prop :=
  match s.route f with
  | .call c => SettledCall c f
  | .reg => SettledReg f
  | .newToken _ _ => s.ts i.clock = s.ts i'.clock
  | .regToken _ =>
    SettledReg f ∧ seqBefore 0 f.iseq = false ∧ (f.isAck = true → s.ts i.clock ≠ f.timestamp)
  | .qualify | .incomingNew | .offLeg => True

/-- Nothing is reported but logs, and every call state, the registration state and every window
stay. -/
structure Silent (s s' : PbxClient) : Prop where
  events : ∀ ev ∈ s.emitted s', ∃ text, ev = .log text
  states : ∀ k, (s'.calls.lookup k).map (·.state) = (s.calls.lookup k).map (·.state)
  regState : s'.regState = s.regState
  windows : ∀ k, s'.window k = s.window k

/-- A call that reports logs only, and keeps its state and its window, is silent. -/
theorem Touched.silent {call : UInt16} {claims : Option UInt16} {r : Reaction} {c c' : CallLeg}
    (effect : s.Touched call claims r s') (notReg : call ≠ callnoReg)
    (live : s.calls.lookup call = some c) (kept : r.kept = some c') (state : c'.state = c.state)
    (outstanding : c'.leg.outstanding = c.leg.outstanding)
    (logs : ∀ ev ∈ r.events, ∃ text, ev = .log text) : s.Silent s' := by
  have live' : s'.calls.lookup call = some c' := ((effect.calls call).trans (if_pos rfl)).trans kept
  have elsewhere {k : UInt16} (hk : k ≠ call) : s'.calls.lookup k = s.calls.lookup k :=
    (effect.calls k).trans (if_neg hk)
  have reg : s'.reg = s.reg := by rw [effect.rest]
  exact {
    events := fun ev hev => by
      rw [effect.events, farewell_of_kept kept, List.append_nil] at hev
      exact logs ev hev
    states := fun k => by
      by_cases hk : k = call
      · rw [hk, live, live', Option.map_some, Option.map_some, state]
      · rw [elsewhere hk]
    regState := by rw [effect.rest]
    windows := fun k => by
      by_cases hk : k = call
      · rw [hk, window_call notReg live, window_call notReg live', outstanding]
      · simp only [window, reg, elsewhere hk] }

/-- A settled frame leaves the call as noting it does, or ends it, and reports logs only. -/
theorem onFrame_settled {c : CallLeg} {f : FullFrame} (settled : SettledCall c f)
    (respond : String → String) (call : UInt16) (ts : UInt32) (now : Instant) :
    (∀ ev ∈ (c.onFrame respond call f ts now).events, ∃ text, ev = .log text) ∧
      (Ends c f ∧ (c.onFrame respond call f ts now).kept = none ∨
        ¬ Ends c f ∧ ∃ c', (c.onFrame respond call f ts now).kept = some c' ∧
          c'.state = c.state ∧ c'.dir = c.dir ∧
          c'.leg.outstanding = (c.noteFrame f).leg.outstanding) := by
  have hdir : (c.noteFrame f).dir = c.dir := rfl
  have hstate : (c.noteFrame f).state = c.state := rfl
  unfold SettledCall at settled
  simp only [CallLeg.onFrame, Ends, hdir, hstate]
  cases hkind : f.callKind c.dir with
  | voice =>
    simp only [hkind] at settled
    rw [if_neg settled]
    exact ⟨by simp, .inr ⟨by simp, _, rfl, rfl, rfl, rfl⟩⟩
  | authreq =>
    simp only [hkind] at settled
    by_cases hmd5 : f.authmethods &&& Authmethod.md5 = 0
    · simp only [if_pos hmd5]
      exact ⟨by simp, .inr ⟨by simp, _, rfl, rfl, rfl, rfl⟩⟩
    · simp only [if_neg hmd5, settled.resolve_left hmd5]
      exact ⟨by simp, .inr ⟨by simp, _, rfl, rfl, rfl, rfl⟩⟩
  | accept =>
    refine ⟨?_, .inr ⟨by simp, ?_⟩⟩
    · simp only
      split <;> simp
    · simp only
      split <;> exact ⟨_, rfl, rfl, rfl, rfl⟩
  | ringing => simp [hkind] at settled
  | answer => simp [hkind] at settled
  | dtmf => simp [hkind] at settled
  | busy => exact ⟨by simp, .inl ⟨by simp, rfl⟩⟩
  | hangup => exact ⟨by simp, .inl ⟨by simp, rfl⟩⟩
  | reject => exact ⟨by simp, .inl ⟨by simp, rfl⟩⟩
  | other => exact ⟨by simp, .inr ⟨by simp, _, rfl, rfl, rfl, rfl⟩⟩
  | _ => exact ⟨fun ev hev => absurd hev List.not_mem_nil, .inr ⟨by simp, _, rfl, rfl, rfl, rfl⟩⟩

/-- What an acknowledgement leaves, it leaves again. -/
theorem ackUpto_again (l : Leg) (iseq : UInt8) (ts : UInt32) (isAck : Bool)
    (w : List Outstanding) (hw : w = (l.ackUpto iseq ts isAck).outstanding) (l' : Leg)
    (hl : l'.outstanding = w) : (l'.ackUpto iseq ts isAck).outstanding = w := by
  subst hw
  show l'.outstanding.filter _ = _
  rw [hl]
  show (l.outstanding.filter _).filter _ = l.outstanding.filter _
  rw [List.filter_filter]
  simp only [Bool.and_self]

/-- A settled frame for the registration is noted, logged at most, and leaves the states. -/
theorem onRegFrame_settled {f : FullFrame} (settled : SettledReg f) (md5 : Md5) (s : PbxClient)
    (now clock : Instant) :
    ∃ evs, (∀ ev ∈ evs, ∃ text, ev = Event.log text) ∧
      s.onRegFrame md5 f now clock =
        { s with
          reg := (s.reg.noteRecv f).ackUpto f.iseq f.timestamp f.isAck
          events := s.events ++ evs } := by
  unfold SettledReg at settled
  simp only [onRegFrame]
  cases hkind : regKind f with
  | regauth =>
    simp only [hkind] at settled
    simp only
    split
    next => exact ⟨[_], by simp, rfl⟩
    next hmd5 =>
      rw [settled.resolve_left hmd5]
      exact ⟨[_], by simp, rfl⟩
  | regack => simp [hkind] at settled
  | regrej => simp [hkind] at settled
  | quiet => exact ⟨[], by simp, by rw [List.append_nil]⟩
  | other => exact ⟨[_], by simp, rfl⟩

theorem onOffLeg_silent (s : PbxClient) (f : FullFrame) : s.Silent (s.onOffLeg f) := by
  unfold onOffLeg
  split
  · exact {
      events := fun ev hev => by
        rw [emitted_same rfl] at hev
        cases hev
      states := fun _ => rfl
      regState := rfl
      windows := fun _ => rfl }
  · exact {
      events := fun ev hev => by
        rw [emitted, emit, List.drop_left] at hev
        exact ⟨_, List.mem_singleton.mp hev⟩
      states := fun _ => rfl
      regState := rfl
      windows := fun _ => rfl }

/-- A settled frame for the registration that acknowledges nothing is silent. -/
theorem reg_silent (wf : s.WellFormed) {f : FullFrame} (dst : f.dstCall = callnoReg)
    (notNew : ¬ (f.frametype = Frametype.iax ∧ f.subclass = Iax.new))
    (noToken : s.tokenRoute f = none) (settled : SettledReg f)
    (same : ((s.reg.noteRecv f).ackUpto f.iseq f.timestamp f.isAck).outstanding =
      s.reg.outstanding) (now clock : Instant) :
    s.Silent (s.onFull md5 f now clock) := by
  have hdst : f.dstCall ≠ 0 := by
    rw [dst]
    decide
  have route := route_leg wf hdst notNew noToken
  rw [if_pos dst] at route
  obtain ⟨evs, logs, handled⟩ := onRegFrame_settled settled md5 s now clock
  rw [onFull, route]
  simp only [handled]
  exact {
    events := fun ev hev => by
      rw [emitted, List.drop_left] at hev
      exact logs ev hev
    states := fun _ => rfl
    regState := rfl
    windows := fun k => by simp only [window, same] }

/-- A settled frame for the registration is silent when it comes again. -/
theorem reg_repeat_silent (wf : s.WellFormed) {f : FullFrame} (dst : f.dstCall = callnoReg)
    (notNew : ¬ (f.frametype = Frametype.iax ∧ f.subclass = Iax.new))
    (noToken : s.tokenRoute f = none) (settled : SettledReg f) {i i' : Invocation}
    (wf₁ : (s.onRegFrame md5 f i.now i.clock).WellFormed) :
    (s.onRegFrame md5 f i.now i.clock).Silent
      ((s.onRegFrame md5 f i.now i.clock).onFull md5 f i'.now i'.clock) := by
  obtain ⟨evs, _, first⟩ := onRegFrame_settled settled md5 s i.now i.clock
  rw [first] at wf₁ ⊢
  refine reg_silent wf₁ dst notNew ?_ settled ?_ _ _
  · exact tokenRoute_none_of wf wf₁ noToken rfl fun c' hc' hdir hstate => ⟨c', hc', hdir, hstate⟩
  · exact ackUpto_again (s.reg.noteRecv f) _ _ _ _ rfl _ rfl

/-- A call token for the registration is silent when it comes again, if as a frame of the leg it
is settled and does not acknowledge the request. -/
theorem regToken_repeat_silent (wf : s.WellFormed) {f : FullFrame} {token : Bytes}
    (dst : f.dstCall = callnoReg)
    (notNew : ¬ (f.frametype = Frametype.iax ∧ f.subclass = Iax.new)) (settled : SettledReg f)
    {i i' : Invocation} (notBefore : seqBefore 0 f.iseq = false)
    (notSame : f.isAck = true → s.ts i.clock ≠ f.timestamp)
    (wf₁ : (s.resendRegWithToken token i.now i.clock).WellFormed) :
    (s.resendRegWithToken token i.now i.clock).Silent
      ((s.resendRegWithToken token i.now i.clock).onFull md5 f i'.now i'.clock) := by
  have noCall : s.calls.lookup f.dstCall = none := by
    cases hc : s.calls.lookup f.dstCall with
    | none => rfl
    | some c => exact absurd dst (wf.live_inCycle hc).ne_reg
  have noToken₁ : (s.resendRegWithToken token i.now i.clock).tokenRoute f = none := by
    have calls : (s.resendRegWithToken token i.now i.clock).calls = s.calls := rfl
    have given : (s.resendRegWithToken token i.now i.clock).calltoken = some token := rfl
    rw [tokenRoute_eq wf₁, calls, noCall, given]
    cases Ie.find f.ies IeKind.calltoken with
    | none => rfl
    | some tok => simp
  refine reg_silent wf₁ dst notNew noToken₁ settled ?_ _ _
  -- the window is the request alone, and the frame does not acknowledge it
  refine List.filter_eq_self.mpr fun o ho => ?_
  have request : o.oseq = 0 ∧ o.ts = s.ts i.clock := by
    obtain rfl := List.mem_singleton.mp ho
    exact ⟨rfl, rfl⟩
  simp only [Outstanding.acked, request.1, request.2, notBefore, Bool.false_or, Bool.not_eq_true',
    Bool.and_eq_false_iff, decide_eq_false_iff_not]
  by_cases hack : f.isAck = true
  · exact .inr (notSame hack)
  · exact .inl (Bool.eq_false_of_not_eq_true hack)

/-- A settled frame of a call is silent when it comes again. -/
theorem call_repeat_silent (wf : s.WellFormed) {f : FullFrame} {c : CallLeg}
    (live : s.calls.lookup f.dstCall = some c)
    (notNew : ¬ (f.frametype = Frametype.iax ∧ f.subclass = Iax.new))
    (noToken : s.tokenRoute f = none) (settled : SettledCall c f) {i i' : Invocation}
    (wf₁ : (s.onCallFrame md5 f.dstCall c f i.now i.clock).WellFormed) :
    (s.onCallFrame md5 f.dstCall c f i.now i.clock).Silent
      ((s.onCallFrame md5 f.dstCall c f i.now i.clock).onFull md5 f i'.now i'.clock) := by
  have hin : InCycle f.dstCall := wf.live_inCycle live
  have effect := onCallFrame_touched md5 live i
  generalize s.onCallFrame md5 f.dstCall c f i.now i.clock = s₁ at wf₁ effect ⊢
  have lookup := (effect.calls f.dstCall).trans (if_pos rfl)
  have token : s₁.calltoken = s.calltoken := by rw [effect.rest]
  obtain ⟨_, outcome⟩ := onFrame_settled settled (md5Response md5 · s.cfg.secret) f.dstCall
    (s.ts i.clock) i.now
  rcases outcome with ⟨_, dropped⟩ | ⟨notEnds, c₁, kept, hstate, hdir, houtstanding⟩
  · -- the call is gone, and the frame is off leg
    have gone : s₁.calls.lookup f.dstCall = none := lookup.trans dropped
    have noToken₁ : s₁.tokenRoute f = none :=
      tokenRoute_none_of wf wf₁ noToken token fun c' hc' => by
        rw [gone] at hc'
        cases hc'
    have route := route_leg wf₁ hin.ne_zero notNew noToken₁
    rw [if_neg hin.ne_reg, gone] at route
    rw [onFull, route]
    exact onOffLeg_silent s₁ f
  · have live₁ : s₁.calls.lookup f.dstCall = some c₁ := lookup.trans kept
    have noToken₁ : s₁.tokenRoute f = none :=
      tokenRoute_none_of wf wf₁ noToken token fun c' hc' hdir' hstate' => by
        cases live₁.symm.trans hc'
        exact ⟨c, live, hdir ▸ hdir', hstate ▸ hstate'⟩
    have handled : s₁.onFull md5 f i'.now i'.clock =
        s₁.onCallFrame md5 f.dstCall c₁ f i'.now i'.clock := by
      rw [onFull, route_onLeg wf₁ live₁ notNew noToken₁]
    rw [handled]
    have effect' := onCallFrame_touched md5 live₁ i'
    have settled₁ : SettledCall c₁ f := by
      unfold SettledCall at settled ⊢
      rw [hdir, hstate]
      exact settled
    obtain ⟨logs, outcome⟩ := onFrame_settled settled₁ (md5Response md5 · s₁.cfg.secret)
      f.dstCall (s₁.ts i'.clock) i'.now
    obtain ⟨_, c₂, kept', hstate', _, houtstanding'⟩ := outcome.resolve_left fun h =>
      notEnds (by rw [Ends, ← hdir]; exact h.1)
    have again : c₂.leg.outstanding = c₁.leg.outstanding :=
      houtstanding'.trans (ackUpto_again (c.leg.noteRecv f) _ _ _ _ houtstanding _ rfl)
    exact effect'.silent hin.ne_reg live₁ kept' hstate' again logs

/-- A call token for a call is silent when it comes again, if the second request has the timestamp
of the first. -/
theorem newToken_repeat_silent (wf : s.WellFormed) {f : FullFrame} {c : CallLeg} {tok : Ie}
    (found : Ie.find f.ies IeKind.calltoken = some tok) (given : tok.data ≠ [])
    (live : s.calls.lookup f.dstCall = some c) (hdir : c.dir = .outbound)
    (hstate : c.state = .trying) {i i' : Invocation} (sameNow : i'.now = i.now)
    (sameTs : s.ts i.clock = s.ts i'.clock)
    (wf₁ : (s.resendNewWithToken f.dstCall tok.data i.now i.clock).WellFormed) :
    (s.resendNewWithToken f.dstCall tok.data i.now i.clock).Silent
      ((s.resendNewWithToken f.dstCall tok.data i.now i.clock).onFull md5 f i'.now i'.clock) := by
  have hin : InCycle f.dstCall := wf.live_inCycle live
  have effect := onCall_touched live fun c =>
    c.resendNew (withToken tok.data (s.newCallIes c.peer)) (s.ts i.clock) i.now
  have resent : s.resendNewWithToken f.dstCall tok.data i.now i.clock = s.onCall f.dstCall fun c =>
    c.resendNew (withToken tok.data (s.newCallIes c.peer)) (s.ts i.clock) i.now := rfl
  rw [← resent] at effect
  generalize s.resendNewWithToken f.dstCall tok.data i.now i.clock = s₁ at wf₁ effect ⊢
  have live₁ := (effect.calls f.dstCall).trans (if_pos rfl)
  have cfg : s₁.cfg = s.cfg := by rw [effect.rest]
  have start : s₁.start = s.start := by rw [effect.rest]
  have route₁ : s₁.route f = .newToken f.dstCall tok.data :=
    route_newToken wf₁ live₁ hdir hstate found given
  have ts : s₁.ts i'.clock = s.ts i.clock := by rw [sameTs, PbxClient.ts, start, PbxClient.ts]
  have ies : ∀ peer, s₁.newCallIes peer = s.newCallIes peer := fun _ => by
    rw [newCallIes, cfg, newCallIes]
  have handled : s₁.onFull md5 f i'.now i'.clock = s₁.onCall f.dstCall fun c =>
      c.resendNew (withToken tok.data (s.newCallIes c.peer)) (s.ts i.clock) i.now := by
    rw [onFull, route₁]
    simp only [resendNewWithToken, ts, ies, sameNow]
  rw [handled]
  have effect' := onCall_touched live₁ fun c =>
    c.resendNew (withToken tok.data (s.newCallIes c.peer)) (s.ts i.clock) i.now
  exact effect'.silent hin.ne_reg live₁ rfl rfl rfl fun ev hev => absurd hev List.not_mem_nil

/-- A settled frame for the registration, or a call token for it, is silent when it comes again. -/
theorem toReg_repeat_silent (wf : s.WellFormed) {f : FullFrame} (dst : f.dstCall = callnoReg)
    (notNew : ¬ (f.frametype = Frametype.iax ∧ f.subclass = Iax.new)) {i i' : Invocation}
    (settled : s.Settled f i i') (wf₁ : (s.onFull md5 f i.now i.clock).WellFormed) :
    (s.onFull md5 f i.now i.clock).Silent
      ((s.onFull md5 f i.now i.clock).onFull md5 f i'.now i'.clock) := by
  have hdst : f.dstCall ≠ 0 := by
    rw [dst]
    decide
  unfold Settled at settled
  cases htoken : s.tokenRoute f with
  | none =>
    have route : s.route f = .reg := (route_leg wf hdst notNew htoken).trans (if_pos dst)
    have handled : s.onFull md5 f i.now i.clock = s.onRegFrame md5 f i.now i.clock := by
      rw [onFull, route]
    rw [route] at settled
    rw [handled] at wf₁ ⊢
    exact reg_repeat_silent wf dst notNew htoken settled wf₁
  | some r =>
    have route := route_of_token hdst htoken
    obtain ⟨tok, _, _, ⟨_, _, rfl⟩ | ⟨k, c, live, _, _, here, _⟩⟩ := tokenRoute_some htoken
    · have handled : s.onFull md5 f i.now i.clock =
          s.resendRegWithToken tok.data i.now i.clock := by
        rw [onFull, route]
      rw [route] at settled
      rw [handled] at wf₁ ⊢
      exact regToken_repeat_silent wf dst notNew settled.1 settled.2.1 settled.2.2 wf₁
    · have key : k = f.dstCall := (here.trans (wf.localNo live)).symm
      exact absurd (key.trans dst) (wf.live_inCycle live).ne_reg

/-- A settled frame for a call, or a call token for it, is silent when it comes again at the same
instant. -/
theorem toCall_repeat_silent (wf : s.WellFormed) {f : FullFrame} {c : CallLeg}
    (live : s.calls.lookup f.dstCall = some c)
    (notNew : ¬ (f.frametype = Frametype.iax ∧ f.subclass = Iax.new)) {i i' : Invocation}
    (sameNow : i'.now = i.now) (settled : s.Settled f i i')
    (wf₁ : (s.onFull md5 f i.now i.clock).WellFormed) :
    (s.onFull md5 f i.now i.clock).Silent
      ((s.onFull md5 f i.now i.clock).onFull md5 f i'.now i'.clock) := by
  unfold Settled at settled
  cases htoken : s.tokenRoute f with
  | none =>
    have route := route_onLeg wf live notNew htoken
    have handled : s.onFull md5 f i.now i.clock =
        s.onCallFrame md5 f.dstCall c f i.now i.clock := by
      rw [onFull, route]
    rw [route] at settled
    rw [handled] at wf₁ ⊢
    exact call_repeat_silent wf live notNew htoken settled wf₁
  | some r =>
    have route := route_of_token (wf.live_inCycle live).ne_zero htoken
    obtain ⟨tok, found, given, hdir, hstate, rfl⟩ := tokenRoute_live wf live htoken
    have handled : s.onFull md5 f i.now i.clock =
        s.resendNewWithToken f.dstCall tok.data i.now i.clock := by
      rw [onFull, route]
    rw [route] at settled
    rw [handled] at wf₁ ⊢
    exact newToken_repeat_silent wf found given live hdir hstate sameNow settled wf₁

/-- A settled frame that is addressed to a leg and is no NEW does nothing when its retransmission
comes, at the same instant, beside what it sends and logs. -/
theorem repeat_is_silent {cfg : Config} {past : List Move} (run : (system md5 cfg).Run past s)
    {dg : Bytes} {f : FullFrame} (decoded : FullFrame.decode dg = some f)
    (addressed : f.dstCall = callnoReg ∨ f.dstCall ∈ s.calls)
    (notNew : ¬ (f.frametype = Frametype.iax ∧ f.subclass = Iax.new)) {i i' : Invocation}
    (op : i.op = .handleInput dg) (again : i'.op = .handleInput (setRetransmit dg))
    (sameNow : i'.now = i.now) (settled : s.Settled f i i') :
    (s.apply md5 i).Silent ((s.apply md5 i).apply md5 i') := by
  have wf := wellFormed_run run
  have wf₁ := wellFormed_apply run op
  rw [apply_full decoded (.inr again), apply_full decoded (.inl op)]
  rw [apply_full decoded (.inl op)] at wf₁
  rcases addressed with reg | live
  · exact toReg_repeat_silent wf reg notNew settled wf₁
  · obtain ⟨c, live⟩ := Table.mem_iff_lookup.mp live
    exact toCall_repeat_silent wf live notNew sameNow settled wf₁

/-- Comfort noise on the ringing call 16, and its retransmission. -/
theorem repeat_is_silent_sample :
    let s := Sample.after [Sample.receive Sample.newCall]
    let f := Sample.frame 120 1 2 Frametype.cng 0
    let i := Sample.receive f
    let i' : Invocation := { op := .handleInput (setRetransmit f.encode) }
    (s.apply Sample.md5 i).Silent ((s.apply Sample.md5 i).apply Sample.md5 i') :=
  repeat_is_silent (Sample.run [Sample.receive Sample.newCall] (by decide))
    (f := Sample.frame 120 1 2 Frametype.cng 0) (by decide) (.inr (by decide))
    (by decide) rfl rfl rfl trivial

/-- Not every frame is silent when it comes again: a digit is reported each time. -/
theorem digit_twice :
    ¬ ∀ {past : List Move} {s : PbxClient}, (system Sample.md5 Sample.cfg).Run past s →
      ∀ (dg : Bytes) (f : FullFrame), FullFrame.decode dg = some f →
        (f.dstCall = callnoReg ∨ f.dstCall ∈ s.calls) →
        ¬ (f.frametype = Frametype.iax ∧ f.subclass = Iax.new) → ∀ now clock : Instant,
        let s₁ := s.apply Sample.md5 { op := .handleInput dg, now, clock }
        s₁.Silent (s₁.apply Sample.md5 { op := .handleInput (setRetransmit dg), now, clock }) := by
  intro law
  have silent := law (Sample.run [Sample.receive Sample.newCall] (by decide))
    (Sample.frame 120 1 2 Frametype.dtmf 53).encode (Sample.frame 120 1 2 Frametype.dtmf 53)
    (by decide) (.inr (by decide)) (by decide) 0 0
  obtain ⟨text, htext⟩ := silent.events (.dtmf 16 '5') (by decide)
  cases htext

end Iax2.PbxClient
