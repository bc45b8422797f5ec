import Iax2.Laws.Elements
import Iax2.Laws.Softphone

/-!
# Where a datagram comes from

What a client sends for the first time it builds, and the kinds that matter are built in a few
places only: a CONTROL ANSWER for the answer command, on an incoming call that rings; a NEW for a
dial, and when a call that was dialled gets a token; voice for a voice command (`builds_cases`). All
the rest is plain, or a copy of a frame in a window.

A round of the driver asks its clients for something and sends what they have queued (`Works`), and
it gives a client an answer, a dial, a datagram, a hold or voice on few occasions only (`Asks`). So
what holds of everything that a client has ready to send, and survives these, holds of everything
that the driver sends (`Works.lift`).
-/

namespace Iax2

/-! ## What a client builds -/

/-- The frame is no ANSWER, no NEW and no voice. -/
structure Built.Plain (b : Built) : Prop where
  answer : b.frame.frametype = Frametype.control → b.frame.subclass &&& 0x7F ≠ Control.answer
  new : b.frame.frametype = Frametype.iax → b.frame.subclass &&& 0x7F ≠ Iax.new
  voice : b.frame.frametype ≠ Frametype.voice

theorem Built.read_bytes (b : Built) : Header.read b.bytes = some b.frame.wire := by
  cases b with
  | command f => exact Header.read_encode f
  | media f payload => exact Header.read_encodeMedia f payload

theorem Built.plain_nil : ∀ b ∈ ([] : List Built), b.Plain := fun _ h => absurd h List.not_mem_nil

/-- A frame whose kind is written in the source. -/
theorem Built.plain_one {b : Built}
    (answer : b.frame.frametype = Frametype.control → b.frame.subclass &&& 0x7F ≠ Control.answer)
    (new : b.frame.frametype = Frametype.iax → b.frame.subclass &&& 0x7F ≠ Iax.new)
    (voice : b.frame.frametype ≠ Frametype.voice) : ∀ b' ∈ [b], b'.Plain :=
  List.forall_mem_singleton.mpr ⟨answer, new, voice⟩

/-- A frame of the protocol itself. -/
theorem Built.plain_iax {b : Built} (sc : UInt8) (ft : b.frame.frametype = Frametype.iax)
    (kind : b.frame.subclass = sc) (new : sc &&& 0x7F ≠ Iax.new) : ∀ b' ∈ [b], b'.Plain :=
  plain_one (fun h => absurd (ft.symm.trans h) (by decide)) (fun _ => kind ▸ new)
    fun h => absurd (ft.symm.trans h) (by decide)

/-- A live call builds an ANSWER only for the answer command, and only if it rings, a NEW only when it
gets a token, and voice only for a voice command. -/
theorem CallLeg.builds_plain {respond : String → String} {newIes : List Ie} {ts : UInt32}
    {c : CallLeg} {x : CallInput} (other : x = .answer → ¬(c.dir = .inbound ∧ c.state = .ringing))
    (noToken : ∀ token, x ≠ .token token) (noVoice : ∀ ulaw, x ≠ .voice ulaw) :
    ∀ b ∈ c.builds respond newIes ts x, b.Plain := by
  cases x with
  | answer =>
    rw [CallLeg.builds, if_neg (other rfl)]
    exact Built.plain_nil
  | hangup => exact Built.plain_iax Iax.hangup rfl rfl (by decide)
  | dtmf digit =>
    have control : Frametype.dtmf ≠ Frametype.control := by decide
    have iax : Frametype.dtmf ≠ Frametype.iax := by decide
    have voice : Frametype.dtmf ≠ Frametype.voice := by decide
    exact Built.plain_one (fun h => absurd h control) (fun h => absurd h iax) voice
  | hold hold =>
    have iax : Frametype.control ≠ Frametype.iax := by decide
    have voice : Frametype.control ≠ Frametype.voice := by decide
    refine Built.plain_one (fun _ => ?_) (fun h => absurd h iax) voice
    show (if hold then Control.hold else Control.unhold) &&& 0x7F ≠ Control.answer
    cases hold <;> decide
  | voice ulaw => exact absurd rfl (noVoice ulaw)
  | mini m => exact Built.plain_nil
  | token token => exact absurd rfl (noToken token)
  | frame f =>
    simp only [CallLeg.builds]
    cases f.callKind c.dir with
    | authreq =>
      simp only
      split
      · exact Built.plain_nil
      · cases f.challenge with
        | none => exact Built.plain_nil
        | some chal => exact Built.plain_iax Iax.authrep rfl rfl (by decide)
    | lagrq => exact Built.plain_iax Iax.lagrp rfl rfl (by decide)
    | ping => exact Built.plain_iax Iax.pong rfl rfl (by decide)
    | ackPong => exact Built.plain_nil
    | lagrp => exact Built.plain_nil
    | _ => exact Built.plain_iax Iax.ack rfl rfl (by decide)

namespace PbxClient

variable {s s' : PbxClient} {md5 : Md5}

/-- The registration and the probes build none of these. -/
theorem serviceBuilds_plain (f : FullFrame) (i : Invocation) :
    ∀ b ∈ s.serviceBuilds md5 f i, b.Plain := by
  unfold serviceBuilds
  cases s.route f with
  | qualify => exact Built.plain_iax Iax.pong rfl rfl (by decide)
  | regToken token => exact Built.plain_iax Iax.regreq rfl rfl (by decide)
  | reg =>
    simp only
    cases regKind f with
    | regauth =>
      simp only
      split
      · exact Built.plain_nil
      · cases f.challenge with
        | none => exact Built.plain_nil
        | some chal => exact Built.plain_iax Iax.regreq rfl rfl (by decide)
    | regack => exact Built.plain_iax Iax.ack rfl rfl (by decide)
    | regrej => exact Built.plain_iax Iax.ack rfl rfl (by decide)
    | quiet => exact Built.plain_nil
    | other => exact Built.plain_nil
  | _ => exact Built.plain_nil

/-- What a step builds is plain, except for the answer command, a dial, a token for a call that was
dialled, and a voice command. -/
theorem builds_cases {i : Invocation} {b : Built} (h : b ∈ s.builds md5 i) :
    b.Plain ∨
      (∃ k c, i.op = .handleCommand (.answer k) ∧ s.calls.lookup k = some c ∧ c.dir = .inbound ∧
        c.state = .ringing ∧
        b = .command (c.leg.build (s.ts i.clock) Frametype.control Control.answer []).1) ∨
      (∃ number, i.op = .handleCommand (.dial number) ∧
        b = .command ((Leg.new s.allocCallno.1).build (s.ts i.clock) Frametype.iax Iax.new
          (s.newCallIes number)).1) ∨
      (∃ k c ies, s.calls.lookup k = some c ∧ c.dir = .outbound ∧
        b = .command (c.leg.reset.build (s.ts i.clock) Frametype.iax Iax.new ies).1) ∨
      ∃ k ulaw, i.op = .handleCommand (.sendVoice k ulaw) ∧ b.frame.frametype = Frametype.voice := by
  unfold builds at h
  cases target : s.target i.op with
  | timeout =>
    simp only [target, timeoutBuilds] at h
    refine .inl ?_
    split at h
    · exact Built.plain_iax Iax.regreq rfl rfl (by decide) b h
    · split at h
      · exact Built.plain_iax Iax.poke rfl rfl (by decide) b h
      · cases h
  | opening o =>
    simp only [target] at h
    cases o with
    | dial number =>
      exact .inr (.inr (.inl ⟨number, op_of_dial target, List.mem_singleton.mp h⟩))
    | incoming f =>
      have ringing : Control.ringing &&& 0x7F ≠ Control.answer := by decide
      have iax : Frametype.control ≠ Frametype.iax := by decide
      have voice : Frametype.control ≠ Frametype.voice := by decide
      obtain rfl | h := List.mem_cons.mp h
      · exact .inl (Built.plain_iax Iax.accept rfl rfl (by decide) _ List.mem_cons_self)
      · obtain rfl := List.mem_singleton.mp h
        exact .inl ⟨fun _ => ringing, fun h => absurd h iax, voice⟩
  | call k x =>
    simp only [target] at h
    split at h
    next c live =>
      by_cases token : ∃ token, x = .token token
      · obtain ⟨token, rfl⟩ := token
        obtain ⟨dg, f, _, _, route⟩ := (target_eq_call target).2
        obtain ⟨_, _, _, ⟨_, _, same⟩ | ⟨k', c', live', outbound, _, _, same⟩⟩ :=
          tokenRoute_some (tokenRoute_of_route route (.inr ⟨k, token, rfl⟩))
        · cases same
        · cases same
          cases live.symm.trans live'
          exact .inr (.inr (.inr (.inl ⟨k, c, _, live, outbound, List.mem_singleton.mp h⟩)))
      by_cases voice : ∃ ulaw, x = .voice ulaw
      · obtain ⟨ulaw, rfl⟩ := voice
        refine .inr (.inr (.inr (.inr ⟨k, ulaw, (target_eq_call target).2, ?_⟩)))
        simp only [CallLeg.builds] at h
        split at h
        · rw [List.mem_singleton.mp h]
          rfl
        · cases h
      · by_cases rings : x = .answer ∧ c.dir = .inbound ∧ c.state = .ringing
        · obtain ⟨rfl, rings⟩ := rings
          rw [CallLeg.builds, if_pos rings] at h
          exact .inr (.inl ⟨k, c, (target_eq_call target).2, live, rings.1, rings.2,
            List.mem_singleton.mp h⟩)
        · exact .inl (CallLeg.builds_plain (fun is rings' => rings ⟨is, rings'⟩)
            (fun t is => token ⟨t, is⟩) (fun ulaw is => voice ⟨ulaw, is⟩) b h)
    next => cases h
  | elsewhere =>
    simp only [target] at h
    split at h
    · split at h
      · exact .inl (serviceBuilds_plain _ _ b h)
      · cases h
    · cases h

/-! ## What a client queues -/

theorem react_grows (s : PbxClient) (call : UInt16) (r : Reaction) : s.out <+: (s.react call r).out := by
  unfold react
  cases r.fate with
  | keep c => exact List.prefix_append _ _
  | drop c reason =>
    simp only [dropCall]
    split <;> exact List.prefix_append _ _

theorem onCall_grows (call : UInt16) (r : CallLeg → Reaction) :
    s.out <+: (s.onCall call r).out := by
  unfold onCall
  split
  · exact react_grows _ _ _
  · exact List.prefix_refl _

theorem Serviced.out_grows (h : s.Serviced s') : s.out <+: s'.out := by
  obtain ⟨sent, same, _⟩ := h.sends
  rw [same]
  exact List.prefix_append _ _

theorem onFull_grows (f : FullFrame) (now clock : Instant) :
    s.out <+: (s.onFull md5 f now clock).out := by
  unfold onFull
  cases s.route f with
  | qualify => exact List.prefix_append _ _
  | regToken token => exact (resendRegWithToken_serviced s token now clock).out_grows
  | newToken call token => exact onCall_grows _ _
  | incomingNew => exact List.prefix_append _ _
  | reg => exact (onRegFrame_serviced md5 s f now clock).out_grows
  | call c =>
    have reacted (b : PbxClient) (same : b.out = s.out) (r : Reaction) :
        s.out <+: (b.react f.dstCall r).out := same ▸ b.react_grows f.dstCall r
    simp only [onCallFrame]
    exact reacted _ (by split <;> rfl) _
  | offLeg => exact (onOffLeg_serviced s f).out_grows

/-- A step queues datagrams after those that wait, or takes the first of them. -/
theorem Step.out_cases {i : Invocation} (step : Step md5 s i s') :
    s.out <+: s'.out ∨ s'.out = s.out.tail := by
  cases step with
  | rehash _ reordered =>
    obtain ⟨_, _, _, _, rfl⟩ := reordered
    exact .inl (List.prefix_refl _)
  | call _ =>
    unfold apply
    cases i.op with
    | handleTimeout =>
      refine .inl ((beforeCalls_serviced s i.now i.clock).out_grows.trans ?_)
      rw [handleTimeout_eq, (retransmitCalls_rest ..).2]
      exact List.prefix_append _ _
    | handleCommand cmd =>
      cases cmd with
      | dial number => exact .inl (List.prefix_append _ _)
      | dtmf call digit =>
        simp only [handleCommand, sendDtmf]
        split
        · exact .inl (List.prefix_refl _)
        · exact .inl (onCall_grows _ _)
      | _ => exact .inl (onCall_grows _ _)
    | handleInput dg =>
      simp only [handleInput]
      split
      · split
        · exact .inl (onFull_grows _ _ _)
        · exact .inl (List.prefix_refl _)
      · split
        · simp only [onMini]
          split
          · exact .inl (onCall_grows _ _)
          · exact .inl (List.prefix_refl _)
        · exact .inl (List.prefix_refl _)
    | pollTransmit => exact .inr rfl
    | pollEvent => exact .inl (List.prefix_refl _)
    | rehash => exact .inl (List.prefix_refl _)

/-- What waits after a step waited before it, or the step queued it. -/
theorem Step.mem_out {i : Invocation} (step : Step md5 s i s') {dg : Bytes} (h : dg ∈ s'.out) :
    dg ∈ s.out ∨ dg ∈ s.pushed s' := by
  rcases step.out_cases with ⟨sent, same⟩ | taken
  · rw [← same] at h
    rw [pushed_append same.symm]
    exact List.mem_append.mp h
  · rw [taken] at h
    exact .inl (List.mem_of_mem_tail h)

/-- A step other than a voice command queues what it builds, and copies of frames in a window. -/
theorem pushed_cases {i : Invocation} (wf : s.WellFormed) (step : Step md5 s i s')
    (noVoice : ∀ k ulaw, i.op ≠ .handleCommand (.sendVoice k ulaw)) {dg : Bytes}
    (h : dg ∈ s.pushed s') :
    (∃ b ∈ s.builds md5 i, dg = b.bytes) ∨
      ∃ k, ∃ o ∈ s.window k, dg = setRetransmit o.bytes := by
  have built {l : List Built} (mem : dg ∈ l.map Built.bytes) : ∃ b ∈ l, dg = b.bytes := by
    obtain ⟨b, here, rfl⟩ := List.mem_map.mp mem
    exact ⟨b, here, rfl⟩
  cases Step.outcome step with
  | quiet target _ =>
    rw [elsewhere_built step target] at h
    exact .inl (built h)
  | @touched k x c target live effect =>
    rw [effect.sent] at h
    simp only [builds, target, live]
    rcases reaction_built md5 s i k c x with sent | ⟨ulaw, rfl, _⟩
    · rw [sent] at h
      exact .inl (built h)
    · exact absurd (target_eq_call target).2 (noVoice k ulaw)
  | opened target effect =>
    rw [effect.sent, opened_built] at h
    simp only [builds, target]
    exact .inl (built h)
  | expired target _ =>
    rw [step.timeout_eq (op_of_timeout target), handleTimeout_pushed] at h
    simp only [builds, target]
    exact (List.mem_append.mp h).imp built (copies_entries wf i.now dg)

/-- What the client has ready to send: the frames in its windows, and the datagrams in its queue. -/
structure Ready (W Q : Bytes → Prop) (s : PbxClient) : Prop where
  wf : s.WellFormed
  window : ∀ k, ∀ o ∈ s.window k, W o.bytes
  out : ∀ dg ∈ s.out, Q dg

section

variable {W Q : Bytes → Prop}

/-- A new client has nothing ready. -/
theorem Ready.new (cfg : Config) (now : Instant) : Ready W Q (PbxClient.new cfg now) := by
  refine ⟨wellFormed_new cfg now, fun k o ho => ?_, fun _ hdg => absurd hdg List.not_mem_nil⟩
  by_cases reg : k = callnoReg
  · rw [reg, window_reg] at ho
    cases ho
  · obtain ⟨_, live, _⟩ := mem_window reg ho
    cases live

theorem Ready.imp {W' Q' : Bytes → Prop} (h : s.Ready W Q) (window : ∀ dg, W dg → W' dg)
    (out : ∀ dg, Q dg → Q' dg) : s.Ready W' Q' where
  wf := h.wf
  window k o ho := window _ (h.window k o ho)
  out dg hdg := out dg (h.out dg hdg)

theorem Ready.sent (h : s.Ready W Q) : Ready W Q { s with out := [] } where
  wf := { h.wf with }
  window := h.window
  out _ hdg := absurd hdg List.not_mem_nil

/-- A step keeps what holds of it, if it holds of what the step queues and tracks. -/
theorem Ready.step {i : Invocation} (h : s.Ready W Q) (step : Step md5 s i s')
    (tracks : ∀ k dg, Tracks k dg ⟨s, i, s'⟩ → W dg) (pushed : ∀ dg ∈ s.pushed s', Q dg) :
    s'.Ready W Q := by
  have outcome := Step.outcome step
  have wf := h.wf.outcome outcome
  refine ⟨wf, fun k o ho => ?_, fun dg hdg => (step.mem_out hdg).elim (h.out dg) (pushed dg)⟩
  have origin : Origin k o ⟨s, i, s'⟩ := by
    by_cases reg : k = callnoReg
    · subst reg
      exact reg_origin h.wf step ho
    · obtain ⟨c, live, _⟩ := mem_window reg ho
      exact call_origin h.wf outcome (wf.live_inCycle live) ho
  cases origin with
  | entered enters _ => exact tracks k _ enters
  | stays before => exact h.window k o before
  | @resent first before _ _ same =>
    rw [same]
    exact h.window k first before

end

end PbxClient

namespace App

variable {F : Type} {n : Nat} {md5 : Md5} {a₀ a b c : App F n} {r : Round n} {idx : Fin n}

/-! ## What a round does to the clients -/

/-- The user presses the key that answers the call `k` of the client `idx`: the call is the first one
that rings, or the user enters its place in the list of calls. -/
def PressesAnswer (a : App F n) (r : Round n) (idx : Fin n) (k : UInt16) : Prop :=
  ∃ text, r.wakeup = .line text ∧
    (Key.parse text.toList = .answer ∧ a.findRinging = some (idx, k) ∨
      ∃ j, 1 ≤ j ∧ Key.parse text.toList = .connect j ∧ a.callsIndex[j - 1]? = some (idx, k))

/-- The user enters a number to dial. -/
def PressesDial (r : Round n) : Prop :=
  ∃ text number, r.wakeup = .line text ∧ Key.parse text.toList = .dial number ∧ number ≠ []

/-- A tick of the audio has the frame for the call `k` of the client `idx`, which is active and up. -/
structure Speaks (a : App F n) (r : Round n) (idx : Fin n) (k : UInt16) (ulaw : Bytes) : Prop where
  frame : ∃ frames, r.wakeup = .audioTick frames ∧ ulaw ∈ frames
  active : a.active = some (idx, k)
  up : a.callState idx k = some .up

/-- What the driver asks of a client in a round that starts in the state `a₀`. -/
structure Asks (a₀ : App F n) (r : Round n) (idx : Fin n) (s : PbxClient) (op : Op) : Prop where
  answer : ∀ k, op = .handleCommand (.answer k) → a₀.PressesAnswer r idx k ∧ s = a₀.client idx
  dial : ∀ number, op = .handleCommand (.dial number) →
    PressesDial r ∧ idx = a₀.selected ∧ s = a₀.client idx
  input : ∀ dg, op = .handleInput dg → r.wakeup = .datagram idx dg
  hold : ∀ k c (hold : Bool), op = .handleCommand (if hold then .hold k else .unhold k) →
    s.calls.lookup k = some c → c.Connected
  voice : ∀ k ulaw, op = .handleCommand (.sendVoice k ulaw) → a₀.Speaks r idx k ulaw

variable (md5 a₀ r) in
/-- The driver gets from one state to the other by asking its clients and sending what they have
queued. -/
inductive Works (a : App F n) : App F n → Prop
  | start : Works a a
  | same {b c : App F n} : Works a b → (∀ i, c.client i = b.client i) → c.sent = b.sent →
      Works a c
  | asks {b : App F n} {idx : Fin n} {i : Invocation} {s : PbxClient} : Works a b →
      Asks a₀ r idx (b.client idx) i.op → PbxClient.Step md5 (b.client idx) i s →
      Works a (b.setClient idx s)
  | flush {b : App F n} {idx : Fin n} : Works a b → Works a (b.flushTx idx)

theorem Works.trans (h : Works md5 a₀ r a b) (h' : Works md5 a₀ r b c) : Works md5 a₀ r a c := by
  induction h' with
  | start => exact h
  | same _ clients sent ih => exact ih.same clients sent
  | asks _ asks step ih => exact ih.asks asks step
  | flush _ ih => exact ih.flush

theorem Works.of_same (clients : ∀ i, b.client i = a.client i) (sent : b.sent = a.sent) :
    Works md5 a₀ r a b := Works.start.same clients sent

/-- One call of an entry point. -/
theorem Works.call (i : Invocation) (h : i.op ≠ .rehash)
    (asks : Asks a₀ r idx (a.client idx) i.op) :
    Works md5 a₀ r a (a.setClient idx ((a.client idx).apply md5 i)) :=
  Works.start.asks asks (.call _ h)

/-- An operation that is no answer, no dial, no datagram, no hold and no voice. -/
theorem Asks.plain {s : PbxClient} {op : Op} (answer : ∀ k, op ≠ .handleCommand (.answer k))
    (dial : ∀ number, op ≠ .handleCommand (.dial number)) (input : ∀ dg, op ≠ .handleInput dg)
    (hold : ∀ k, op ≠ .handleCommand (.hold k)) (unhold : ∀ k, op ≠ .handleCommand (.unhold k))
    (voice : ∀ k ulaw, op ≠ .handleCommand (.sendVoice k ulaw)) : Asks a₀ r idx s op where
  answer k is := absurd is (answer k)
  dial number is := absurd is (dial number)
  input dg is := absurd is (input dg)
  hold k c hold' is := by
    cases hold' with
    | true => exact absurd is (hold k)
    | false => exact absurd is (unhold k)
  voice k ulaw is := absurd is (voice k ulaw)

/-- A poll, the timer and the rehash. -/
theorem Asks.quiet {s : PbxClient} {op : Op} (command : ∀ cmd, op ≠ .handleCommand cmd)
    (input : ∀ dg, op ≠ .handleInput dg) : Asks a₀ r idx s op :=
  .plain (fun _ => command _) (fun _ => command _) input (fun _ => command _) (fun _ => command _)
    fun _ _ => command _

theorem Works.foldl {α : Type} {f : App F n → α → App F n} (l : List α)
    (step : ∀ a x, Works md5 a₀ r a (f a x)) : Works md5 a₀ r a (l.foldl f a) := by
  induction l generalizing a with
  | nil => exact .start
  | cons x l ih => exact (step a x).trans ih

/-- Commands that may be asked in any state. -/
theorem Works.commands (cmds : List Command) (now : Instant) (clock : Stream' Instant)
    (plain : ∀ cmd ∈ cmds, ∀ s, Asks a₀ r idx s (.handleCommand cmd)) :
    Works md5 a₀ r a (a.commands idx cmds now clock) := by
  induction cmds generalizing a clock with
  | nil =>
    refine .of_same (fun i => ?_) rfl
    rw [commands, client_setClient]
    split
    next here => rw [here, PbxClient.handleCommands]
    next => rfl
  | cons cmd cmds ih =>
    obtain ⟨here, rest⟩ := List.forall_mem_cons.mp plain
    have first : Works md5 a₀ r a (a.command idx cmd now clock.head) :=
      .call ⟨.handleCommand cmd, now, clock.head⟩ (by simp) (here _)
    refine (first.trans (ih clock.tail rest)).same (fun i => ?_) rfl
    simp only [commands, command, client_setClient, if_true, PbxClient.handleCommands]
    split <;> rfl

variable [F64 F]

/-- The call that was active is up when it is put on hold, and the one that is taken off hold is
held. -/
theorem Works.makeActive (call : UInt16) (clock : Stream' Instant) :
    Works md5 a₀ r a (a.makeActive idx call clock) := by
  have asks (b : App F n) (i : Fin n) (k : UInt16) (state : CallState) (now t : Instant) (hold : Bool)
      (is : b.callState i k = some state) (connected : state = .up ∨ state = .held) :
      Works md5 a₀ r b (b.command i (if hold then .hold k else .unhold k) now t) := by
    obtain ⟨c, live, rfl⟩ := PbxClient.callState_eq_some.mp is
    refine .call ⟨.handleCommand (if hold then .hold k else .unhold k), now, t⟩ nofun
      ⟨fun k' is => ?_, fun number is => ?_, nofun, fun k' c' hold' is live' => ?_,
        fun k' ulaw is => ?_⟩
    · cases hold <;> cases is
    · cases hold <;> cases is
    · have same : k' = k := by cases hold <;> cases hold' <;> cases is <;> rfl
      subst same
      cases live.symm.trans live'
      exact connected
    · cases hold <;> cases is
  have held (now t : Instant) : Works md5 a₀ r a (a.holdPrevious idx call now t) := by
    rw [holdPrevious]
    split
    next pidx pcall previous =>
      exact asks a pidx pcall .up now t true (a.previous_eq_some.mp previous).2.2 (.inl rfl)
    next => exact .start
  have resumed (b : App F n) (now t : Instant) : Works md5 a₀ r b (b.resume idx call now t) := by
    rw [resume]
    split
    next held => exact asks b idx call .held now t false held (.inr rfl)
    next => exact .start
  obtain ⟨b, l, made, _, same, sent, _⟩ := a.makeActive_flushes idx call clock
  rw [made]
  exact (((held _ _).trans (resumed _ _ _)).same same sent).trans
    (.foldl l fun _ _ => Works.start.flush)

theorem handleEvent_sent_eq (a : App F n) (clock : Stream' Instant) {ev : Event}
    (other : ∀ k, ev ≠ .answered k) : (a.handleEvent idx clock ev).sent = a.sent := by
  cases ev with
  | answered k => exact absurd rfl (other k)
  | voice k ts ulaw =>
    simp only [App.handleEvent]
    split <;> rfl
  | ended k reason =>
    simp only [App.handleEvent]
    split <;> rfl
  | _ => rfl

theorem Works.handleEvents (clock : Stream' Instant) :
    Works md5 a₀ r a (a.handleEvents idx clock) := by
  refine eventLoop_induction (P := fun b => Works md5 a₀ r a b) clock _ .start ?_
  intro b clock ev _ _ works
  have taken : Works md5 a₀ r b (b.popEvent idx) :=
    .call ⟨.pollEvent, 0, 0⟩ (by simp) (.quiet (by simp) (by simp))
  refine (works.trans taken).trans ?_
  cases ev with
  | answered call => exact .makeActive call clock
  | _ =>
    exact .of_same (handleEvent_client clock fun _ => nofun)
      (handleEvent_sent_eq _ clock fun _ => nofun)

theorem Works.settle (clock : Stream' Instant) : Works md5 a₀ r a (a.settle idx clock) :=
  Works.start.flush.trans (.handleEvents clock)

theorem Works.enter (cmd : Command) (now : Instant) (clock : Stream' Instant)
    (asks : Asks a₀ r idx (a.client idx) (.handleCommand cmd)) :
    Works md5 a₀ r a (a.enter idx cmd now clock) :=
  Works.trans (.call ⟨.handleCommand cmd, now, clock.head⟩ nofun asks) (.settle clock.tail)

omit [F64 F] in
theorem Works.pumpPlayout : Works md5 a₀ r a a.pumpPlayout.2 := by
  rw [App.pumpPlayout]
  split
  · split <;> exact .of_same (fun _ => rfl) rfl
  · exact .start

/-- A line of the keyboard, read in the state that the round starts in. -/
theorem Works.dispatch {text : String} (line : r.wakeup = .line text) (now : Instant)
    (clock : Fin n → Stream' Instant) :
    Works md5 a₀ r a₀ (a₀.dispatch text.toList now clock).2 := by
  have plain (idx : Fin n) (s : PbxClient) (cmd : Command)
      (other : (∃ d k, cmd = .dtmf k d) ∨ ∃ k, cmd = .hangup k) :
      Asks a₀ r idx s (.handleCommand cmd) := by
    obtain ⟨d, k, rfl⟩ | ⟨k, rfl⟩ := other
    · exact .plain nofun nofun nofun nofun nofun nofun
    · exact .plain nofun nofun nofun nofun nofun nofun
  have answer (idx : Fin n) (call : UInt16)
      (key : Key.parse text.toList = .answer ∧ a₀.findRinging = some (idx, call) ∨
        ∃ j, 1 ≤ j ∧ Key.parse text.toList = .connect j ∧
          a₀.callsIndex[j - 1]? = some (idx, call)) :
      Asks a₀ r idx (a₀.client idx) (.handleCommand (.answer call)) := by
    refine ⟨fun k is => ?_, nofun, nofun, fun _ _ hold is => (by cases hold <;> cases is), nofun⟩
    cases is
    exact ⟨⟨text, line, key⟩, rfl⟩
  unfold App.dispatch
  cases key : Key.parse text.toList with
  | quit => exact .start
  | list => exact .start
  | pbx k =>
    cases k with
    | none => exact .start
    | some k =>
      simp only
      split
      · exact .of_same (fun _ => rfl) rfl
      · exact .start
  | dial number =>
    simp only
    split
    next => exact .start
    next some =>
      exact .enter _ now _
        ⟨nofun, fun _ _ => ⟨⟨text, number, line, key, some⟩, rfl, rfl⟩, nofun,
          fun _ _ hold is => (by cases hold <;> cases is), nofun⟩
  | answer =>
    simp only
    split
    next rings => exact .enter _ now _ (answer _ _ (.inl ⟨key, rings⟩))
    next => exact .start
  | dtmf digits =>
    simp only
    split
    · exact .start
    · split
      next idx call _ =>
        refine .trans (.commands _ now _ fun cmd mem s => ?_) (.settle _)
        obtain ⟨d, _, rfl⟩ := List.mem_map.mp mem
        exact plain idx s _ (.inl ⟨d, call, rfl⟩)
      next => exact .start
  | hangup =>
    simp only
    split
    next idx call _ =>
      have hungUp : Works md5 a₀ r a₀ (a₀.enter idx (.hangup call) now (clock idx)) :=
        .enter _ now _ (plain idx _ _ (.inr ⟨call, rfl⟩))
      exact hungUp.same (fun _ => rfl) rfl
    next => exact .start
  | connect k =>
    simp only
    split
    next => exact .start
    next place =>
      split
      next entry =>
        split
        · exact .enter _ now _ (answer _ _ (.inr ⟨k, Nat.not_lt.mp place, key, entry⟩))
        · exact .makeActive _ _
        · exact .start
      next => exact .start
  | unknown => exact .start

/-- A round of the driver is asked of the clients like this. -/
theorem Step.works (step : Step md5 a r b) : Works md5 a r a b := by
  cases step with
  | round _ =>
    rw [App.apply]
    split
    next idx dg wakeup =>
      have asks : Asks a r idx (a.client idx) (.handleInput dg) :=
        { answer := by simp
          dial := by simp
          input := fun _ is => Op.handleInput.inj is ▸ wakeup
          hold := fun _ _ hold is => by cases hold <;> cases is
          voice := by simp }
      exact .trans (.call ⟨.handleInput dg, r.now, (r.clock idx).head⟩ (by simp) asks)
        (.settle (r.clock idx).tail)
    next =>
      exact .foldl _ fun _ idx =>
        .trans (.call ⟨.handleTimeout, r.now, (r.clock idx).head⟩ (by simp)
          (.quiet (by simp) (by simp))) (.settle (r.clock idx).tail)
    next frames wakeup =>
      rcases a.onAudioTick_cases frames r.now r.clock with ⟨idx, call, active, up, tick⟩ | tick
      · rw [tick]
        refine .trans (Works.flush (.commands _ r.now _ fun cmd mem s => ?_)) .pumpPlayout
        obtain ⟨ulaw, frame, rfl⟩ := List.mem_map.mp mem
        exact
          { answer := by simp
            dial := by simp
            input := by simp
            hold := fun _ _ hold is => by cases hold <;> cases is
            voice := fun k _ is => by
              cases is
              exact ⟨⟨frames, wakeup, frame⟩, active, up⟩ }
      · rw [tick]
        exact .pumpPlayout
    next text wakeup => exact .dispatch wakeup r.now r.clock
    next => exact .start
  | rehash _ reordered =>
    exact Works.start.asks (i := ⟨.rehash, 0, 0⟩) (.quiet (by simp) (by simp)) (.rehash rfl reordered)

omit [F64 F] in
/-- What holds of every client and of what it has queued, and survives all that a round asks of it,
holds after the round, also of what was sent. -/
theorem Works.lift {J : Fin n → PbxClient → Prop} {Q : Fin n → Bytes → Prop}
    (out : ∀ idx s, J idx s → (∀ dg ∈ s.out, Q idx dg) ∧ J idx { s with out := [] })
    (step : ∀ idx s i s', J idx s → Asks a₀ r idx s i.op → PbxClient.Step md5 s i s' → J idx s')
    (works : Works md5 a₀ r a b) (clients : ∀ idx, J idx (a.client idx))
    (sent : ∀ e ∈ a.sent, Q e.1 e.2) :
    (∀ idx, J idx (b.client idx)) ∧ ∀ e ∈ b.sent, Q e.1 e.2 := by
  induction works with
  | start => exact ⟨clients, sent⟩
  | same _ kept log ih => exact ⟨fun idx => kept idx ▸ ih.1 idx, log ▸ ih.2⟩
  | @asks b idx i s _ asks call ih =>
    refine ⟨fun j => ?_, ih.2⟩
    rw [client_setClient]
    split
    next here => exact here ▸ step idx _ i s (ih.1 idx) asks call
    next => exact ih.1 j
  | @flush b idx _ ih =>
    refine ⟨fun j => ?_, ?_⟩
    · rw [flushTx_client]
      split
      · exact (out j _ (ih.1 j)).2
      · exact ih.1 j
    · rw [flushTx_eq]
      intro e he
      rcases List.mem_append.mp he with he | he
      · exact ih.2 e he
      · obtain ⟨dg, queued, rfl⟩ := List.mem_map.mp he
        exact (out idx _ (ih.1 idx)).1 dg queued

end App

end Iax2
