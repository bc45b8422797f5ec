import Iax2.Laws.Repeats
import Iax2.Laws.Sessions

/-!
# Calls do not meet

A step acts on one call at most, the one it is addressed to (`isolated_run`), and what it does there
is a function of the entry of that call, of the account and of the input. So two frames for two
calls may be handled in either order (`frames_commute`).

The two tables are shared. A new call gets a number of its own as long as there is one, and an entry
of the mini-frame index is written under the number of the frame's source and removed by its value:
two calls that are addressed from different numbers write different entries, and the end of one call
removes no entry of the other.
-/

namespace Iax2

/-- The call that a command is for. -/
def Command.call? : Command → Option UInt16
  | .dial _ => none
  | .answer call | .hangup call | .hold call | .unhold call | .sendVoice call _ | .dtmf call _ =>
    some call

/-- The input that a full frame other than a NEW is to the call it is addressed to: a call token, if
the call waits for one, or a frame of the leg. -/
def CallLeg.inputOf (c : CallLeg) (f : FullFrame) : CallInput :=
  match Ie.find f.ies IeKind.calltoken with
  | some tok =>
    if tok.data ≠ [] ∧ c.dir = .outbound ∧ c.state = .trying then .token tok.data else .frame f
  | none => .frame f

namespace PbxClient

variable {s s' : PbxClient} {md5 : Md5}

/-! ## The addressed call -/

/-- The operation is addressed to the call: by the `dst_call` of a full frame, by the number that
the index has for the source of a mini frame, or by command. -/
inductive Addresses (s : PbxClient) : Op → UInt16 → Prop
  | command {cmd : Command} {call : UInt16} (h : cmd.call? = some call) :
      Addresses s (.handleCommand cmd) call
  | full {dg : Bytes} {f : FullFrame} (h : FullFrame.decode dg = some f) :
      Addresses s (.handleInput dg) f.dstCall
  | mini {dg : Bytes} {m : MiniFrame} {call : UInt16} (h : MiniFrame.decode dg = some m)
      (index : s.remoteIndex.lookup m.srcCall = some call) : Addresses s (.handleInput dg) call

/-- The operation starts a call: a Dial, or a NEW that carries no call token for a request in
flight. -/
inductive Starts (s : PbxClient) : Op → Prop
  | dial (number : String) : Starts s (.handleCommand (.dial number))
  | new {dg : Bytes} {f : FullFrame} (h : FullFrame.decode dg = some f)
      (new : f.frametype = Frametype.iax ∧ f.subclass = Iax.new)
      (noToken : s.tokenRoute f = none) : Starts s (.handleInput dg)

/-- A route to a request in flight is the one of the call token. -/
theorem tokenRoute_of_route {f : FullFrame} {r : Route} (h : s.route f = r)
    (token : (∃ tok, r = .regToken tok) ∨ ∃ call tok, r = .newToken call tok) :
    s.tokenRoute f = some r := by
  have other (r' : Route) (hr : r' = r) (h₁ : ∀ tok, r' ≠ .regToken tok)
      (h₂ : ∀ call tok, r' ≠ .newToken call tok) : s.tokenRoute f = some r := by
    rcases token with ⟨tok, rfl⟩ | ⟨call, tok, rfl⟩
    · exact absurd hr (h₁ tok)
    · exact absurd hr (h₂ call tok)
  unfold route at h
  split at h
  next => exact other _ h (by simp) (by simp)
  next =>
    split at h
    next r' htok => rw [htok, h]
    next =>
      split at h
      next => exact other _ h (by simp) (by simp)
      next =>
        split at h
        next => exact other _ h (by simp) (by simp)
        next =>
          split at h
          next => exact other _ h (by simp) (by simp)
          next => exact other _ h (by simp) (by simp)

/-- A call token for a call is addressed to that call. -/
theorem dstCall_of_newToken (wf : s.WellFormed) {f : FullFrame} {call : UInt16} {tok : Bytes}
    (h : s.route f = .newToken call tok) : call = f.dstCall := by
  obtain ⟨_, _, _, ⟨_, _, hr⟩ | ⟨k, c, live, _, _, hdst, hr⟩⟩ :=
    tokenRoute_some (tokenRoute_of_route h (.inr ⟨call, tok, rfl⟩))
  · cases hr
  · cases hr
    exact (hdst.trans (wf.localNo live)).symm

/-- A call token for the registration is addressed to it. -/
theorem dstCall_of_regToken (wf : s.WellFormed) {f : FullFrame} {tok : Bytes}
    (h : s.route f = .regToken tok) : f.dstCall = callnoReg := by
  obtain ⟨_, _, _, ⟨hdst, _, _⟩ | ⟨_, _, _, _, _, _, hr⟩⟩ :=
    tokenRoute_some (tokenRoute_of_route h (.inl ⟨tok, rfl⟩))
  · exact hdst.trans wf.regNo
  · cases hr

/-- A frame that is handled on the registration leg is addressed to it. -/
theorem dstCall_of_reg (wf : s.WellFormed) {f : FullFrame} (h : s.route f = .reg) :
    f.dstCall = callnoReg := by
  unfold route at h
  split at h
  next => cases h
  next =>
    split at h
    next r htok =>
      subst h
      obtain ⟨_, _, _, ⟨_, _, hr⟩ | ⟨_, _, _, _, _, _, hr⟩⟩ := tokenRoute_some htok <;> cases hr
    next =>
      split at h
      next => cases h
      next =>
        split at h
        next hdst => exact hdst.trans wf.regNo
        next => split at h <;> cases h

/-- A step reaches only the call that it is addressed to. -/
theorem addresses_of_target (wf : s.WellFormed) {op : Op} {call : UInt16} {x : CallInput}
    (h : s.target op = .call call x) : s.Addresses op call := by
  have carries := (target_eq_call h).2
  cases x with
  | dtmf digit =>
    obtain ⟨d, rfl, _, _⟩ := carries
    exact .command rfl
  | hold hold =>
    subst carries
    cases hold <;> exact .command rfl
  | mini m =>
    obtain ⟨dg, rfl, decoded, index⟩ := carries
    exact .mini decoded index
  | token tok =>
    obtain ⟨dg, f, rfl, decoded, route⟩ := carries
    rw [dstCall_of_newToken wf route]
    exact .full decoded
  | frame f =>
    obtain ⟨dg, c, rfl, decoded, _, rfl⟩ := carries
    exact .full decoded
  | _ =>
    subst carries
    exact .command rfl

/-- A full frame is handled where its route leads. -/
theorem target_full {dg : Bytes} {f : FullFrame} (h : FullFrame.decode dg = some f) :
    s.target (.handleInput dg) = s.frameTarget f := by
  simp only [target, isFullFrame_of_decode h, if_true, h]

theorem target_starts {op : Op} (h : s.Starts op) : ∃ o, s.target op = .opening o := by
  cases h with
  | dial number => exact ⟨.dial number, rfl⟩
  | @new dg f decoded new noToken =>
    refine ⟨.incoming f, ?_⟩
    rw [target_full decoded, frameTarget, route_new new noToken]

/-! ## Isolation -/

/-- A step leaves alone whatever it is not addressed to. -/
structure Isolated (s : PbxClient) (op : Op) (s' : PbxClient) : Prop where
  /-- every other live call keeps its whole entry -/
  others : ∀ j c, s.calls.lookup j = some c → ¬ s.Addresses op j → s'.calls.lookup j = some c
  /-- a new call is one more key, and every entry stays -/
  starts : s.Starts op → ∃ k c, k ∉ s.calls ∧ s'.calls.lookup k = some c ∧
    ∀ j, j ≠ k → s'.calls.lookup j = s.calls.lookup j
  /-- the registration changes only on full frames for number 1 -/
  reg : (∀ dg f, op = .handleInput dg → FullFrame.decode dg = some f → f.dstCall ≠ 1) →
    s.SameReg s'

theorem others_step {i : Invocation} (wf : s.WellFormed) (step : s.Outcome md5 i s')
    (room : s.activeCalls < 8176) (op : i.op ≠ .handleTimeout) {j : UInt16} {c : CallLeg}
    (live : s.calls.lookup j = some c) (other : ¬ s.Addresses i.op j) :
    s'.calls.lookup j = some c := by
  cases step with
  | quiet _ effect => rw [effect.calls, live]
  | @touched call x _ target _ effect =>
    have hj : j ≠ call := by
      rintro rfl
      exact other (addresses_of_target wf target)
    rw [effect.calls, if_neg hj, live]
  | opened _ effect =>
    have hj : j ≠ s.allocCallno.1 := by
      rintro rfl
      exact allocCallno_fresh wf.callnoNext room (Table.mem_iff_lookup.mpr ⟨c, live⟩)
    rw [effect.calls, if_neg hj, live]
  | expired target _ => exact absurd (op_of_timeout target) op

theorem reg_step {i : Invocation} (wf : s.WellFormed) (step : Step md5 s i s')
    (op : i.op ≠ .handleTimeout)
    (other : ∀ dg f, i.op = .handleInput dg → FullFrame.decode dg = some f → f.dstCall ≠ 1) :
    s.SameReg s' := by
  cases step.reg wf with
  | untouched _ effect => exact effect.same
  | token hop decoded route _ => exact absurd (dstCall_of_regToken wf route) (other _ _ hop decoded)
  | frame hop decoded route _ => exact absurd (dstCall_of_reg wf route) (other _ _ hop decoded)
  | timeout hop _ => exact absurd hop op

/-- In every state reached with fewer than 8176 live calls, every datagram and every command leaves
alone whatever it is not addressed to. -/
theorem isolated_run {cfg : Config} {past : List Move} (run : (system md5 cfg).Run past s)
    (room : s.activeCalls < 8176) {i : Invocation}
    (op : (∃ dg, i.op = .handleInput dg) ∨ ∃ cmd, i.op = .handleCommand cmd) :
    s.Isolated i.op (s.apply md5 i) := by
  have wf := wellFormed_run run
  have notRehash : i.op ≠ .rehash := by
    rcases op with ⟨_, h⟩ | ⟨_, h⟩ <;> simp [h]
  have notTimeout : i.op ≠ .handleTimeout := by
    rcases op with ⟨_, h⟩ | ⟨_, h⟩ <;> simp [h]
  have step : Step md5 s i (s.apply md5 i) := .call s notRehash
  exact {
    others := fun j c live other => others_step wf step.outcome room notTimeout live other
    starts := fun starts => by
      obtain ⟨o, target⟩ := target_starts starts
      have effect := step.outcome.to_opened target
      refine ⟨s.allocCallno.1, _, allocCallno_fresh wf.callnoNext room,
        (effect.calls _).trans (if_pos rfl), ?_⟩
      intro j hj
      exact (effect.calls j).trans (if_neg hj)
    reg := fun other => reg_step wf step notTimeout other }

/-- A second call comes in while call 16 rings. -/
theorem isolated_sample :
    let again := Sample.receive { Sample.newCall with srcCall := 43 }
    let s := Sample.after [Sample.receive Sample.newCall]
    s.Isolated again.op (s.apply Sample.md5 again) :=
  isolated_run (Sample.run [Sample.receive Sample.newCall] (by decide)) (by decide)
    (.inl ⟨_, rfl⟩)

/-! ## Two frames for two calls -/

/-- Where a full frame other than a NEW goes is decided by the entry of the call it is addressed
to. -/
theorem target_live (wf : s.WellFormed) {dg : Bytes} {f : FullFrame} {c : CallLeg}
    (decoded : FullFrame.decode dg = some f) (live : s.calls.lookup f.dstCall = some c)
    (notNew : ¬ (f.frametype = Frametype.iax ∧ f.subclass = Iax.new)) :
    s.target (.handleInput dg) = .call f.dstCall (c.inputOf f) := by
  have hin : InCycle f.dstCall := wf.live_inCycle live
  have onLeg (noToken : s.tokenRoute f = none) :
      s.frameTarget f = .call f.dstCall (.frame f) := by
    rw [frameTarget, route_onLeg wf live notNew noToken]
    exact reaching_live live _
  have htoken := tokenRoute_eq wf f
  rw [target_full decoded, CallLeg.inputOf]
  cases htok : Ie.find f.ies IeKind.calltoken with
  | none =>
    rw [htok] at htoken
    exact onLeg htoken
  | some tok =>
    simp only [htok, live, hin.ne_reg, false_and, if_false] at htoken
    simp only
    by_cases hdata : tok.data = []
    · rw [if_pos hdata] at htoken
      rw [onLeg htoken, if_neg fun h => h.1 hdata]
    · rw [if_neg hdata] at htoken
      split at htoken
      next waits =>
        rw [if_pos ⟨hdata, waits⟩, frameTarget, route_of_token hin.ne_zero htoken]
        exact reaching_live live _
      next waits => rw [onLeg htoken, if_neg fun h => waits h.2]

/-- The datagram is a full frame that leaves on the leg `k`. -/
def Leaves (k : UInt16) (dg : Bytes) : Prop := ∃ hd, Header.read dg = some hd ∧ hd.srcCall = k

/-- What a frame makes a call send are full frames. -/
theorem onFrame_reads (respond : String → String) (call : UInt16) (f : FullFrame) (ts : UInt32)
    (now : Instant) (c : CallLeg) :
    ∀ dg ∈ (c.onFrame respond call f ts now).sent, ∃ hd, Header.read dg = some hd := by
  have one {g : FullFrame} : ∀ dg ∈ [g.encode], ∃ hd, Header.read dg = some hd := by
    intro dg hdg
    obtain rfl := List.mem_singleton.mp hdg
    exact ⟨_, Header.read_encode g⟩
  have none : ∀ dg ∈ ([] : List Bytes), ∃ hd, Header.read dg = some hd := by
    intro dg hdg
    cases hdg
  have hdir : (c.noteFrame f).dir = c.dir := rfl
  simp only [CallLeg.onFrame, hdir]
  cases f.callKind c.dir with
  | authreq =>
    simp only
    split
    · exact none
    · split
      · exact none
      · exact one
  | accept =>
    simp only
    split <;> exact one
  | ackPong => exact none
  | lagrp => exact none
  | _ => exact one

/-- What an addressed frame makes a live call send leaves on the leg of that call. -/
theorem inputOf_leaves (wf : s.WellFormed) {call : UInt16} {c : CallLeg}
    (live : s.calls.lookup call = some c) (i : Invocation) (f : FullFrame) :
    ∀ dg ∈ (s.reaction md5 i call c (c.inputOf f)).sent, Leaves call dg := by
  intro dg hdg
  have reads : ∃ hd, Header.read dg = some hd := by
    have frame : ∀ dg ∈ (s.reaction md5 i call c (.frame f)).sent, ∃ hd, Header.read dg = some hd :=
      onFrame_reads _ _ _ _ _ _
    unfold CallLeg.inputOf at hdg
    split at hdg
    · split at hdg
      · obtain rfl := List.mem_singleton.mp hdg
        exact ⟨_, Header.read_encode _⟩
      · exact frame dg hdg
    · exact frame dg hdg
  obtain ⟨hd, read⟩ := reads
  exact ⟨hd, read, (reaction_sent_header wf live hdg read).1⟩

/-- An event about the call `k`, or about none. -/
def Concerns (k : UInt16) (ev : Event) : Prop := ev.call? = none ∨ ev.call? = some k

/-- The events of a reaction, with the end of the call, concern that call. -/
theorem reaction_concerns {i : Invocation} {call : UInt16} {c : CallLeg} {x : CallInput} :
    ∀ ev ∈ (s.reaction md5 i call c x).events ++ (s.reaction md5 i call c x).farewell call,
      Concerns call ev := by
  intro ev hev
  rcases List.mem_append.mp hev with hev | hev
  · rcases reaction_events md5 s i call c x ev hev with ⟨_, rfl⟩ | ⟨mine, _⟩
    · exact .inl rfl
    · exact .inr mine
  · rcases kept_or_farewell call (s.reaction md5 i call c x) with kept | ⟨_, reason, farewell⟩
    · rw [farewell_of_kept kept] at hev
      cases hev
    · rw [farewell] at hev
      obtain rfl := List.mem_singleton.mp hev
      exact .inr rfl

/-- From `s`, one step leads to `sa` and another to `sb`. Made after each other, in one order to
`sab` and in the other to `sba`, they come to the same tables and the same registration, and each
sends and reports what it does in the other order, on its own call. -/
structure Commute (a b : UInt16) (s sa sb sab sba : PbxClient) : Prop where
  calls : ∀ k, sba.calls.lookup k = sab.calls.lookup k
  index : ∀ q, sba.remoteIndex.lookup q = sab.remoteIndex.lookup q
  reg : sab.SameReg sba
  sentA : sb.pushed sba = s.pushed sa ∧ ∀ dg ∈ s.pushed sa, Leaves a dg
  sentB : sa.pushed sab = s.pushed sb ∧ ∀ dg ∈ s.pushed sb, Leaves b dg
  eventsA : sb.emitted sba = s.emitted sa ∧ ∀ ev ∈ s.emitted sa, Concerns a ev
  eventsB : sa.emitted sab = s.emitted sb ∧ ∀ ev ∈ s.emitted sb, Concerns b ev

/-- The number that a frame for a live call enters into the index is its source. -/
theorem claims_inputOf {c : CallLeg} {f : FullFrame} {q : UInt16}
    (h : (c.inputOf f).claims = some q) : q = f.srcCall := by
  have frame (h : (CallInput.frame f).claims = some q) : q = f.srcCall := by
    simp only [CallInput.claims] at h
    split at h
    · exact (Option.some.inj h).symm
    · cases h
  unfold CallLeg.inputOf at h
  split at h
  · split at h
    · cases h
    · exact frame h
  · exact frame h

/-- Entries for two calls under two numbers may be written, and the entries of the calls that end
removed, in either order. -/
theorem index_comm {a b : UInt16} (ne : a ≠ b) {qa qb : Option UInt16} (keepA keepB : Bool)
    (apart : ∀ q, qa = some q → qb ≠ some q) (q : UInt16) (old : Option UInt16) :
    (if qa = some q then some a
      else (if qb = some q then some b else old).filter fun v => keepB || v ≠ b).filter
        (fun v => keepA || v ≠ a) =
    (if qb = some q then some b
      else (if qa = some q then some a else old).filter fun v => keepA || v ≠ a).filter
        (fun v => keepB || v ≠ b) := by
  by_cases ha : qa = some q
  · have hb : qb ≠ some q := apart q ha
    cases keepA <;> simp [ha, hb, ne, Option.filter_some]
  · by_cases hb : qb = some q
    · cases keepB <;> simp [ha, hb, ne.symm, Option.filter_some]
    · simp only [if_neg ha, if_neg hb, Option.filter_filter]
      congr 1
      funext v
      rw [Bool.and_comm]

/-- A full frame for a live call, if it is not a NEW, touches that call. -/
theorem frame_touched (md5 : Md5) (wf : s.WellFormed) {dg : Bytes} {f : FullFrame} {c : CallLeg}
    (decoded : FullFrame.decode dg = some f) (live : s.calls.lookup f.dstCall = some c)
    (notNew : ¬ (f.frametype = Frametype.iax ∧ f.subclass = Iax.new)) (now clock : Instant) :
    (s.handleInput md5 dg now clock).WellFormed ∧
      s.Touched f.dstCall (c.inputOf f).claims
        (s.reaction md5 ⟨.handleInput dg, now, clock⟩ f.dstCall c (c.inputOf f))
        (s.handleInput md5 dg now clock) := by
  have step : Step md5 s ⟨.handleInput dg, now, clock⟩ (s.handleInput md5 dg now clock) :=
    .call s (by simp)
  exact ⟨wf.outcome step.outcome,
    step.outcome.to_touched live (target_live wf decoded live notNew)⟩

/-- A reaction reads the account and its own entry only. -/
theorem SameRest.reaction_eq (rest : s.SameRest s') (i : Invocation) (call : UInt16) (c : CallLeg)
    (x : CallInput) : s'.reaction md5 i call c x = s.reaction md5 i call c x := by
  rw [rest]
  cases x <;> rfl

/-- In every state reached, a full frame for one live call and a full frame for another, neither of
them a NEW and with different sources, may be handled in either order. -/
theorem frames_commute {cfg : Config} {past : List Move} (run : (system md5 cfg).Run past s)
    {a b : UInt16} (ne : a ≠ b) (liveA : a ∈ s.calls) (liveB : b ∈ s.calls) {dga dgb : Bytes}
    {fa fb : FullFrame} (decodedA : FullFrame.decode dga = some fa)
    (decodedB : FullFrame.decode dgb = some fb) (dstA : fa.dstCall = a) (dstB : fb.dstCall = b)
    (notNewA : ¬ (fa.frametype = Frametype.iax ∧ fa.subclass = Iax.new))
    (notNewB : ¬ (fb.frametype = Frametype.iax ∧ fb.subclass = Iax.new))
    (sources : fa.srcCall ≠ fb.srcCall) (now clock : Instant) :
    let sa := s.handleInput md5 dga now clock
    let sb := s.handleInput md5 dgb now clock
    Commute a b s sa sb (sa.handleInput md5 dgb now clock) (sb.handleInput md5 dga now clock) := by
  have wf := wellFormed_run run
  obtain ⟨ca, liveA⟩ := Table.mem_iff_lookup.mp liveA
  obtain ⟨cb, liveB⟩ := Table.mem_iff_lookup.mp liveB
  subst dstA dstB
  obtain ⟨wfA, effectA⟩ := frame_touched md5 wf decodedA liveA notNewA now clock
  obtain ⟨wfB, effectB⟩ := frame_touched md5 wf decodedB liveB notNewB now clock
  -- the other call has kept its entry
  have liveA' := ((effectB.calls fa.dstCall).trans (if_neg ne)).trans liveA
  have liveB' := ((effectA.calls fb.dstCall).trans (if_neg ne.symm)).trans liveB
  obtain ⟨_, effectBA⟩ := frame_touched md5 wfB decodedA liveA' notNewA now clock
  obtain ⟨_, effectAB⟩ := frame_touched md5 wfA decodedB liveB' notNewB now clock
  rw [effectB.rest.reaction_eq] at effectBA
  rw [effectA.rest.reaction_eq] at effectAB
  exact {
    calls := fun k => by
      rw [effectBA.calls, effectAB.calls, effectA.calls, effectB.calls]
      by_cases ha : k = fa.dstCall
      · rw [if_pos ha, if_neg (fun hb => ne (ha.symm.trans hb)), if_pos ha]
      · rw [if_neg ha, if_neg ha]
    index := fun q => by
      rw [effectBA.index, effectAB.index, effectA.index, effectB.index]
      refine index_comm ne _ _ (fun q ha hb => sources ?_) q _
      rw [← claims_inputOf ha, ← claims_inputOf hb]
    reg := by
      constructor <;> rw [effectBA.rest, effectB.rest, effectAB.rest, effectA.rest]
    sentA := ⟨effectBA.sent.trans effectA.sent.symm, by
      rw [effectA.sent]
      exact inputOf_leaves wf liveA _ fa⟩
    sentB := ⟨effectAB.sent.trans effectB.sent.symm, by
      rw [effectB.sent]
      exact inputOf_leaves wf liveB _ fb⟩
    eventsA := ⟨effectBA.events.trans effectA.events.symm, by
      rw [effectA.events]
      exact reaction_concerns⟩
    eventsB := ⟨effectAB.events.trans effectB.events.symm, by
      rw [effectB.events]
      exact reaction_concerns⟩ }

end PbxClient

/-! ## A sample: two calls -/

namespace Sample

/-- The peer's calls 42 and 43 are our calls 16 and 17. -/
def twoCalls : List Invocation := [receive newCall, receive { newCall with srcCall := 43 }]

/-- The peer hangs up call 16. -/
def farewell : FullFrame := frame 120 1 2 Frametype.iax Iax.hangup

/-- The peer answers call 17, from the number 44. -/
def renumber : FullFrame := FullFrame.new 44 17 120 1 2 Frametype.control Control.answer []

/-- One frame ends its call, the other claims a number for another call. -/
theorem two_calls_commute :
    PbxClient.Commute 16 17 (after twoCalls)
      ((after twoCalls).handleInput md5 farewell.encode 0 0)
      ((after twoCalls).handleInput md5 renumber.encode 0 0)
      (((after twoCalls).handleInput md5 farewell.encode 0 0).handleInput md5 renumber.encode 0 0)
      (((after twoCalls).handleInput md5 renumber.encode 0 0).handleInput md5 farewell.encode 0 0) :=
  have decoded : FullFrame.decode farewell.encode = some farewell := by decide
  have decoded' : FullFrame.decode renumber.encode = some renumber := by decide
  PbxClient.frames_commute (run twoCalls (by decide)) (by decide) (by decide) (by decide) decoded
    decoded' rfl rfl (by decide) (by decide) (by decide) 0 0

end Sample

end Iax2
