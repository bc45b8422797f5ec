import Iax2.Laws.Numbering
import Iax2.Laws.Origin
import Iax2.Network

/-!
# Who dialled and who answered

A phone rings only if somebody dialled at the other end, and it shows a call that it dialled as
connected only if somebody answered there. Both are about two phones and the network between them,
and both are put together in the same way: from what a phone sends, and from what that makes of the
other one. The driver gives holds to connected calls only, so no call gets connected by one.

This is one invariant of a client (`Sound`), relative to what has happened in the network so far
(`Known`), and it is lifted over the rounds of the driver.
-/

namespace Iax2

/-- The frame is a CONTROL ANSWER. -/
def Header.IsAnswer (h : Header) : Prop :=
  h.frametype = Frametype.control ∧ h.subclass = Control.answer

/-- What has happened in the network, as far as it matters to a client. -/
structure Known where
  /-- the numbers of the calls that its user has answered, as the other end knows them -/
  answeredFrom : UInt16 → Prop
  /-- its calls that the other end has answered -/
  pickedUp : UInt16 → Prop
  /-- its calls that its user has answered -/
  answered : UInt16 → Prop
  /-- its calls that its user has dialled -/
  dialled : UInt16 → Prop
  /-- somebody has dialled at the other end -/
  called : Prop

/-- More has happened. -/
structure Known.Le (K K' : Known) : Prop where
  answeredFrom : ∀ k, K.answeredFrom k → K'.answeredFrom k
  pickedUp : ∀ k, K.pickedUp k → K'.pickedUp k
  answered : ∀ k, K.answered k → K'.answered k
  dialled : ∀ k, K.dialled k → K'.dialled k
  called : K.called → K'.called

/-- The client may send the datagram: an ANSWER goes to a call that was answered, and a NEW comes from
a call that was dialled. -/
def Permits (K : Known) (dg : Bytes) : Prop :=
  ∀ h, Header.read dg = some h →
    (h.IsAnswer → K.answeredFrom h.dstCall) ∧ (h.isNew → K.dialled h.srcCall)

theorem Permits.later {K K' : Known} (le : K.Le K') {dg : Bytes} (h : Permits K dg) :
    Permits K' dg := fun hd read =>
  ⟨fun answer => le.answeredFrom _ ((h hd read).1 answer),
    fun new => le.dialled _ ((h hd read).2 new)⟩

/-- A copy has the kind and the numbers of the frame. -/
theorem Permits.copy {K : Known} {dg : Bytes} (h : Permits K dg) :
    Permits K (setRetransmit dg) := by
  intro hd read
  rw [Header.read_setRetransmit, Option.map_eq_some_iff] at read
  obtain ⟨first, read, rfl⟩ := read
  exact h first read

/-- A plain frame may be sent. -/
theorem Built.Plain.permits {b : Built} (h : b.Plain) (K : Known) : Permits K b.bytes := by
  intro hd read
  rw [b.read_bytes] at read
  cases read
  exact ⟨fun answer => absurd answer.2 (h.answer answer.1), fun new => absurd new.2 (h.new new.1)⟩

namespace PbxClient

variable {s s' : PbxClient} {md5 : Md5}

/-! ## The invariant of a client -/

/-- What the client sends is permitted. Its connected calls have been answered, by the other end or,
if they came in, by its user; its outgoing calls were dialled by its user, and its incoming calls by
the other end. -/
structure Sound (K : Known) (s : PbxClient) : Prop extends s.Ready (Permits K) (Permits K) where
  connected : ∀ k c, s.calls.lookup k = some c → c.Connected →
    K.pickedUp k ∨ c.dir = .inbound ∧ K.answered k
  outgoing : ∀ k c, s.calls.lookup k = some c → c.dir = .outbound → K.dialled k
  incoming : ∀ k c, s.calls.lookup k = some c → c.dir = .inbound → K.called

/-- What the driver may ask of a client: it is known what the user does, and what comes from the
other end, and what is put on hold or off it is connected. -/
structure Admits (K : Known) (s : PbxClient) (op : Op) : Prop where
  answer : ∀ k c, op = .handleCommand (.answer k) → s.calls.lookup k = some c →
    c.dir = .inbound → c.state = .ringing →
    K.answeredFrom (c.leg.remote &&& callMask) ∧ K.answered k
  dial : ∀ number, op = .handleCommand (.dial number) → K.dialled s.allocCallno.1
  pickUp : ∀ dg f, op = .handleInput dg → FullFrame.decode dg = some f →
    f.frametype = Frametype.control → f.subclass = Control.answer → K.pickedUp f.dstCall
  call : ∀ dg f, op = .handleInput dg → FullFrame.decode dg = some f →
    f.frametype = Frametype.iax → f.subclass = Iax.new → K.called
  hold : ∀ k c (hold : Bool), op = .handleCommand (if hold then .hold k else .unhold k) →
    s.calls.lookup k = some c → c.Connected

variable {K K' : Known}

theorem Sound.later (h : s.Sound K) (le : K.Le K') : s.Sound K' where
  toReady := h.toReady.imp (fun _ => Permits.later le) fun _ => Permits.later le
  connected k c live connected :=
    (h.connected k c live connected).imp (le.pickedUp k) fun own => ⟨own.1, le.answered k own.2⟩
  outgoing k c live dir := le.dialled k (h.outgoing k c live dir)
  incoming k c live dir := le.called (h.incoming k c live dir)

/-- What an admitted step sends is permitted. -/
theorem Sound.pushed (h : s.Sound K) {i : Invocation} (step : Step md5 s i s')
    (admits : s.Admits K i.op) : ∀ dg ∈ s.pushed s', Permits K dg := by
  have notAnswer : Frametype.iax ≠ Frametype.control := by decide
  intro dg sent hd read
  have full : dg ∈ (s.pushed s').filter isFullFrame :=
    List.mem_filter.mpr ⟨sent, isFullFrame_of_read read⟩
  obtain ⟨copies, emits, originals⟩ := emits_step h.wf step
  have emits : (s.pushed s').filter isFullFrame = (s.builds md5 i).map Built.bytes ++ copies := emits
  rw [emits] at full
  rcases List.mem_append.mp full with built | copy
  · obtain ⟨b, member, rfl⟩ := List.mem_map.mp built
    rcases builds_cases member with plain | ⟨k, c, op, live, inbound, ringing, rfl⟩ |
      ⟨number, op, rfl⟩ | ⟨k, c, ies, live, outbound, rfl⟩ | ⟨k, ulaw, _, voice⟩
    · exact plain.permits K hd read
    all_goals
      rw [Built.read_bytes] at read
      cases read
    · have control : Frametype.control ≠ Frametype.iax := by decide
      exact ⟨fun _ => (admits.answer k c op live inbound ringing).1, fun new => absurd new.1 control⟩
    · refine ⟨fun answer => absurd answer.1 notAnswer, fun _ => ?_⟩
      show K.dialled (s.allocCallno.1 &&& callMask)
      rw [(inCycle_allocCallno h.wf.callnoNext).1.masked]
      exact admits.dial number op
    · refine ⟨fun answer => absurd answer.1 notAnswer, fun _ => ?_⟩
      show K.dialled (c.leg.localNo &&& callMask)
      rw [h.wf.src live]
      exact h.outgoing k c live outbound
    · exact ⟨fun answer => absurd (voice.symm.trans answer.1) (by decide),
        fun new => absurd (voice.symm.trans new.1) (by decide)⟩
  · obtain ⟨k, o, ho, rfl⟩ := originals dg copy
    exact (h.window k o ho).copy hd read

theorem kind_of_incomingNew {f : FullFrame} (h : s.route f = .incomingNew) :
    f.frametype = Frametype.iax ∧ f.subclass = Iax.new := by
  unfold route at h
  split at h
  next => cases h
  next =>
    split at h
    next token =>
      subst h
      obtain ⟨_, _, _, ⟨_, _, same⟩ | ⟨_, _, _, _, _, _, same⟩⟩ := tokenRoute_some token <;>
        cases same
    next =>
      split at h
      next new => exact new
      next =>
        split at h
        next => cases h
        next => split at h <;> cases h

/-- An incoming call is opened by a NEW. -/
theorem op_of_incoming {op : Op} {f : FullFrame} (h : s.target op = .opening (.incoming f)) :
    ∃ dg, op = .handleInput dg ∧ FullFrame.decode dg = some f ∧ f.frametype = Frametype.iax ∧
      f.subclass = Iax.new := by
  cases op with
  | handleInput dg =>
    refine ⟨dg, rfl, ?_⟩
    cases decoded : FullFrame.decode dg with
    | some g =>
      rw [target_full decoded, frameTarget] at h
      cases route : s.route g with
      | incomingNew =>
        rw [route] at h
        cases h
        exact ⟨rfl, kind_of_incomingNew route⟩
      | newToken call token =>
        simp only [route, reaching] at h
        split at h <;> cases h
      | call c =>
        simp only [route, reaching] at h
        split at h <;> cases h
      | _ =>
        rw [route] at h
        cases h
    | none =>
      simp only [target, decoded, miniTarget, reaching] at h
      repeat' split at h
      all_goals cases h
  | handleCommand cmd =>
    cases cmd with
    | dial number => cases h
    | dtmf call digit =>
      simp only [target, commandTarget, reaching] at h
      repeat' split at h
      all_goals cases h
    | _ =>
      simp only [target, commandTarget, reaching] at h
      split at h <;> cases h
  | _ => cases h

/-- Admitted steps keep the invariant. -/
theorem Sound.step (h : s.Sound K) {i : Invocation} (step : Step md5 s i s')
    (admits : s.Admits K i.op) : s'.Sound K := by
  have sent := h.pushed step admits
  have outcome := Step.outcome step
  have ready := h.toReady.step step (fun _ dg tracks => sent dg tracks.sent) sent
  refine ⟨ready, fun k c' live connected => ?_, fun k c' live dir => ?_, fun k c' live dir => ?_⟩
  · rcases outcome.entry live with ⟨c, before, state, dir, _⟩ | ⟨c, x, before, target, rfl⟩ |
      ⟨o, _, _, rfl⟩
    · rw [dir]
      refine h.connected k c before ?_
      rwa [CallLeg.Connected, ← state]
    · obtain ⟨state, dir, _⟩ := reaction_state md5 s i k c x
      rw [CallLeg.Connected, state] at connected
      rw [dir]
      have carried := (target_eq_call target).2
      rcases nextState_connected_cases connected with was | ⟨rfl, inbound, rings⟩ | ⟨hold, rfl⟩ |
        ⟨f, rfl, kind⟩
      · exact h.connected k c before was
      · exact .inr ⟨inbound, (admits.answer k c carried before inbound rings).2⟩
      · exact h.connected k c before (admits.hold k c hold carried before)
      · -- the ANSWER that connects the call has come as a datagram
        obtain ⟨dg, _, op, decoded, _, rfl⟩ := carried
        have takes := f.callKind_takes c.dir
        rw [kind] at takes
        exact .inl (admits.pickUp dg f op decoded takes.1 takes.2)
    · exact (opened_state s i k o connected).elim
  · rcases outcome.entry live with ⟨c, before, _, same, _⟩ | ⟨c, x, before, _, rfl⟩ |
      ⟨o, ⟨_, number⟩, target, rfl⟩
    · exact h.outgoing k c before (same ▸ dir)
    · exact h.outgoing k c before ((reaction_state md5 s i k c x).2.1 ▸ dir)
    · cases o with
      | dial called =>
        have number : k = s.allocCallno.1 := number
        exact number ▸ admits.dial called (op_of_dial target)
      | incoming f => cases dir
  · rcases outcome.entry live with ⟨c, before, _, same, _⟩ | ⟨c, x, before, _, rfl⟩ |
      ⟨o, _, target, rfl⟩
    · exact h.incoming k c before (same ▸ dir)
    · exact h.incoming k c before ((reaction_state md5 s i k c x).2.1 ▸ dir)
    · cases o with
      | dial called => cases dir
      | incoming f =>
        obtain ⟨dg, op, decoded, ft, sc⟩ := op_of_incoming target
        exact admits.call dg f op decoded ft sc

end PbxClient

namespace App

variable {F : Type} {n : Nat} {md5 : Md5} {a₀ a b c : App F n} {r : Round n} {idx : Fin n}

/-! ## The invariant of a phone -/

/-- The invariant of every client, and of what was sent. -/
structure Sound (K : Fin n → Known) (a : App F n) : Prop where
  client : ∀ idx, (a.client idx).Sound (K idx)
  sent : ∀ e ∈ a.sent, Permits (K e.1) e.2

variable {K K' : Fin n → Known}

theorem Sound.later (h : a.Sound K) (le : ∀ idx, (K idx).Le (K' idx)) : a.Sound K' where
  client idx := (h.client idx).later (le idx)
  sent e he := (h.sent e he).later (le e.1)

/-- A round keeps the invariant, if it is known what comes in with it and what the user does in it. -/
theorem Sound.works (h : a.Sound K) (works : Works md5 a₀ r a b)
    (comes : ∀ idx dg f, r.wakeup = .datagram idx dg → FullFrame.decode dg = some f →
      (f.frametype = Frametype.control ∧ f.subclass = Control.answer → (K idx).pickedUp f.dstCall) ∧
        (f.frametype = Frametype.iax ∧ f.subclass = Iax.new → (K idx).called))
    (answers : ∀ idx k c, a₀.PressesAnswer r idx k → (a₀.client idx).calls.lookup k = some c →
      c.dir = .inbound → c.state = .ringing →
      (K idx).answeredFrom (c.leg.remote &&& callMask) ∧ (K idx).answered k)
    (dials : PressesDial r → (K a₀.selected).dialled (a₀.client a₀.selected).allocCallno.1) :
    b.Sound K := by
  refine (works.lift (fun idx s sound => ⟨sound.out, ?_⟩)
    (fun idx s i s' sound asks step => sound.step step ?_) h.client h.sent).elim Sound.mk
  · exact { sound with toReady := sound.toReady.sent }
  · exact
      { answer := fun k c op live inbound ringing => by
          obtain ⟨presses, same⟩ := asks.answer k op
          exact answers idx k c presses (same ▸ live) inbound ringing
        dial := fun number op => by
          obtain ⟨presses, rfl, same⟩ := asks.dial number op
          exact same ▸ dials presses
        pickUp := fun dg f op decoded ft sc => (comes idx dg f (asks.input dg op) decoded).1 ⟨ft, sc⟩
        call := fun dg f op decoded ft sc => (comes idx dg f (asks.input dg op) decoded).2 ⟨ft, sc⟩
        hold := asks.hold }

end App

namespace Network

variable {P F : Type} [DecidableEq P] [F64 F] {n : Nat} [NeZero n] {md5 : Md5}
  {cfgs : P → Vector Config n} {peer : P × Fin n → P × Fin n} {net : Network P F n}
  {past : List (Transition (Network P F n) (P × Round n))}

/-! ## Every run of the network -/

/-- The user at the socket `e` answers the call `k`, which came in and rings. -/
structure UserAnswers (e : P × Fin n) (k : UInt16) (c : CallLeg)
    (t : Transition (Network P F n) (P × Round n)) : Prop where
  party : t.label.1 = e.1
  key : (t.pre e.1).PressesAnswer t.label.2 e.2 k
  live : ((t.pre e.1).client e.2).calls.lookup k = some c
  inbound : c.dir = .inbound
  ringing : c.state = .ringing

/-- The user at the socket `e` dials a number, and the call gets the number `k`. -/
structure UserDials (e : P × Fin n) (k : UInt16) (t : Transition (Network P F n) (P × Round n)) :
    Prop where
  party : t.label.1 = e.1
  key : App.PressesDial t.label.2
  selected : (t.pre e.1).selected = e.2
  number : ((t.pre e.1).client e.2).allocCallno.1 = k

/-- The user at the socket has answered the call. -/
def Answered (past : List (Transition (Network P F n) (P × Round n))) (e : P × Fin n)
    (k : UInt16) : Prop := ∃ t ∈ past, ∃ c, UserAnswers e k c t

/-- The user at the socket has answered a call that has this number at the other end. -/
def AnsweredFrom (past : List (Transition (Network P F n) (P × Round n))) (e : P × Fin n)
    (number : UInt16) : Prop :=
  ∃ t ∈ past, ∃ k c, UserAnswers e k c t ∧ c.leg.remote &&& callMask = number

/-- The user at the socket has dialled the call. -/
def Dialled (past : List (Transition (Network P F n) (P × Round n))) (e : P × Fin n)
    (k : UInt16) : Prop := ∃ t ∈ past, UserDials e k t

/-- What has happened, for the client at a socket. -/
def known (peer : P × Fin n → P × Fin n)
    (past : List (Transition (Network P F n) (P × Round n))) (e : P × Fin n) : Known where
  answeredFrom := AnsweredFrom past e
  pickedUp := AnsweredFrom past (peer e)
  answered := Answered past e
  dialled := Dialled past e
  called := ∃ number, Dialled past (peer e) number

omit [DecidableEq P] [F64 F] [NeZero n] in
theorem known_le (peer : P × Fin n → P × Fin n) (t : Transition (Network P F n) (P × Round n))
    (e : P × Fin n) : (known peer past e).Le (known peer (t :: past) e) where
  answeredFrom _ := fun ⟨t', mem, rest⟩ => ⟨t', List.mem_cons_of_mem _ mem, rest⟩
  pickedUp _ := fun ⟨t', mem, rest⟩ => ⟨t', List.mem_cons_of_mem _ mem, rest⟩
  answered _ := fun ⟨t', mem, rest⟩ => ⟨t', List.mem_cons_of_mem _ mem, rest⟩
  dialled _ := fun ⟨t', mem, rest⟩ => ⟨t', List.mem_cons_of_mem _ mem, rest⟩
  called := fun ⟨number, t', mem, rest⟩ => ⟨number, t', List.mem_cons_of_mem _ mem, rest⟩

omit [DecidableEq P] in
theorem sound_new (p : P) (starts : Vector Instant n) :
    (App.new (cfgs p) starts : App F n).Sound fun idx => known (F := F) peer [] (p, idx) := by
  refine ⟨fun idx => ?_, fun e he => absurd he List.not_mem_nil⟩
  rw [App.new_client]
  exact ⟨.new _ _, fun k c live => (nomatch live), fun k c live => (nomatch live),
    fun k c live => (nomatch live)⟩

/-- The invariant holds of every party in every run. The datagrams that a party receives were sent by
its peer, and the invariant of the peer says what can be among them. -/
theorem sound_run (run : (system md5 F cfgs peer).Run past net) (p : P) :
    (net p).Sound fun idx => known peer past (p, idx) := by
  induction run generalizing p with
  | start init =>
    obtain ⟨starts, made⟩ := init p
    rw [made]
    exact sound_new p starts
  | @step past net net' e _ step ih =>
    obtain ⟨happens, a, step, rfl⟩ := step
    have before (p : P) := (ih p).later fun idx =>
      known_le peer ⟨net, e, Function.update net e.1 a⟩ (p, idx)
    by_cases own : p = e.1
    · subst own
      rw [Function.update_self]
      refine (before e.1).works step.works (fun idx dg f wakeup decoded => ?_) ?_ ?_
      · have permits := (before _).sent _ (happens idx dg wakeup) _ (Header.read_of_decode decoded)
        exact ⟨permits.1, fun new => ⟨_, permits.2 new⟩⟩
      · intro idx k c presses live inbound ringing
        have answers : UserAnswers (e.1, idx) k c
            (⟨net, e, Function.update net e.1 a⟩ : Transition (Network P F n) (P × Round n)) :=
          ⟨rfl, presses, live, inbound, ringing⟩
        exact ⟨⟨_, List.mem_cons_self, k, c, answers, rfl⟩, ⟨_, List.mem_cons_self, c, answers⟩⟩
      · exact fun presses => ⟨_, List.mem_cons_self, ⟨rfl, presses, rfl, rfl⟩⟩
    · rw [Function.update_of_ne own]
      exact before p

/-- In every run of softphones that call each other, over a network that may lose, repeat and reorder
what they send, a call is connected only if a user answered: the one at the other end, a call that
has this number here, or, if the call came in, the one at this end. So a call that was dialled is
shown as connected only after somebody picked up at the other end. -/
theorem connected_was_answered (run : (system md5 F cfgs peer).Run past net) {p : P} {idx : Fin n}
    {k : UInt16} {c : CallLeg} (live : ((net p).client idx).calls.lookup k = some c)
    (connected : c.Connected) :
    AnsweredFrom past (peer (p, idx)) k ∨ c.dir = .inbound ∧ Answered past (p, idx) k :=
  ((sound_run run p).client idx).connected k c live connected

/-- The left phone dials, the right one answers, and the answer arrives: by then somebody has answered
a call that has the number 16 on the left phone. -/
theorem connected_sample :
    AnsweredFrom (NetworkSample.trace NetworkSample.start [] NetworkSample.call) (true, 0) 16 := by
  have run := NetworkSample.run NetworkSample.call (by decide +kernel)
    (.start fun p => ⟨#v[0], rfl⟩)
  have shown : ((NetworkSample.after NetworkSample.start NetworkSample.call false).client
      0).callState 16 = some .up := by decide +kernel
  have dialled : ((((NetworkSample.after NetworkSample.start NetworkSample.call false).client
      0).calls.lookup 16).map (·.dir)) = some .outbound := by decide +kernel
  obtain ⟨c, live, up⟩ := PbxClient.callState_eq_some.mp shown
  rw [live] at dialled
  have dir : c.dir = .outbound := Option.some.inj dialled
  refine (connected_was_answered run live (.inl up)).resolve_right fun own => ?_
  cases dir.symm.trans own.1

end Network

end Iax2
