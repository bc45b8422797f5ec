import Iax2.Conversation
import Iax2.Laws.Heard
import Iax2.Laws.Origin

/-!
# What is heard was said

What a phone plays was captured by the device of the phone at the other end of the socket, in a tick
of its audio, for the call that it had up then (`heard_was_said`). Nothing that a phone plays comes
from anywhere else, and nothing comes out of its network that was not said, however late, repeated
or out of order it arrives.

Three parts meet here. A client sends voice for a voice command only (`voices_step`), so all voice
that a phone has sent was said (`sourced_run`). What arrives was sent by the peer (`arrived_run`).
And what the loudspeaker is given arrived before (`Phone.heard_run` is about one phone, whatever it
receives, and `phone_run` says that each party makes a run of it).
-/

namespace Iax2

/-- The datagram carries voice from the call `k`: a full VOICE frame or a mini frame. -/
def Carries (k : UInt16) (ulaw dg : Bytes) : Prop :=
  PbxClient.FullVoice k ulaw dg ∨ PbxClient.MiniVoice k ulaw dg

/-- The datagram is a full frame and no voice. -/
def Voiceless (dg : Bytes) : Prop := ∃ hd, Header.read dg = some hd ∧ hd.frametype ≠ Frametype.voice

section

variable {k k' : UInt16} {ulaw ulaw' dg : Bytes}

theorem Voiceless.copy (h : Voiceless dg) : Voiceless (setRetransmit dg) := by
  obtain ⟨hd, read, other⟩ := h
  refine ⟨{ hd with retransmit := true }, ?_, other⟩
  rw [Header.read_setRetransmit, read, Option.map_some]

theorem Voiceless.not_carries (h : Voiceless dg) : ¬Carries k ulaw dg := by
  obtain ⟨hd, read, other⟩ := h
  rintro (⟨f, decoded, voice, _⟩ | ⟨m, short, _⟩)
  · rw [Header.read_of_decode decoded] at read
    cases read
    exact other voice
  · rw [isFullFrame_of_read read] at short
    cases short

/-- A datagram carries one payload from one call. -/
theorem Carries.unique (h : Carries k ulaw dg) (h' : Carries k' ulaw' dg) : k = k' ∧ ulaw = ulaw' := by
  rcases h with ⟨f, decoded, _, rfl, rfl⟩ | ⟨m, short, decoded, rfl, rfl⟩
  · rcases h' with ⟨f', decoded', _, rfl, rfl⟩ | ⟨_, short', _⟩
    · cases decoded.symm.trans decoded'
      exact ⟨rfl, rfl⟩
    · rw [isFullFrame_of_decode decoded] at short'
      cases short'
  · rcases h' with ⟨_, decoded', _⟩ | ⟨m', _, decoded', rfl, rfl⟩
    · rw [isFullFrame_of_decode decoded'] at short
      cases short
    · cases decoded.symm.trans decoded'
      exact ⟨rfl, rfl⟩

end

/-- All voice in the datagram comes from the source `S`. -/
def Voices (S : UInt16 → Bytes → Prop) (dg : Bytes) : Prop := ∀ k ulaw, Carries k ulaw dg → S k ulaw

theorem Voiceless.voices {dg : Bytes} (h : Voiceless dg) (S : UInt16 → Bytes → Prop) : Voices S dg := by
  intro k ulaw carries
  exact absurd carries h.not_carries

namespace PbxClient

variable {s s' : PbxClient} {md5 : Md5} {S : UInt16 → Bytes → Prop}

/-- What a client builds is no voice, except for a voice command. -/
theorem builds_voiceless {i : Invocation}
    (noVoice : ∀ k ulaw, i.op ≠ .handleCommand (.sendVoice k ulaw)) {b : Built}
    (h : b ∈ s.builds md5 i) : Voiceless b.bytes := by
  refine ⟨b.frame.wire, b.read_bytes, ?_⟩
  have control : Frametype.control ≠ Frametype.voice := by decide
  have iax : Frametype.iax ≠ Frametype.voice := by decide
  rcases builds_cases h with plain | ⟨_, _, _, _, _, _, rfl⟩ | ⟨_, _, rfl⟩ | ⟨_, _, _, _, _, rfl⟩ |
    ⟨k, ulaw, op, _⟩
  · exact plain.voice
  · exact control
  · exact iax
  · exact iax
  · exact absurd op (noVoice k ulaw)

/-- All voice that a client has ready comes from the source, if its voice commands do. -/
theorem voices_step {i : Invocation} (h : s.Ready Voiceless (Voices S)) (step : Step md5 s i s')
    (source : ∀ k ulaw, i.op = .handleCommand (.sendVoice k ulaw) → S k ulaw) :
    s'.Ready Voiceless (Voices S) := by
  refine h.step step ?_ ?_
  · intro k dg tracks
    obtain ⟨hd, read, _, _, _, tracked⟩ := tracks.header
    exact ⟨hd, read, fun voice => tracked (.inl voice)⟩
  · intro dg sent
    by_cases voice : ∃ k ulaw, i.op = .handleCommand (.sendVoice k ulaw)
    · obtain ⟨k, ulaw, op⟩ := voice
      have queued : dg ∈ (s.sendVoice k ulaw i.clock).out := by
        cases step with
        | rehash rehash _ => cases op.symm.trans rehash
        | call _ =>
          unfold apply at sent
          rw [op] at sent
          exact List.mem_of_mem_drop sent
      rcases sendVoice_out h.wf k ulaw i.clock dg queued with before | carries
      · exact h.out dg before
      · intro k' ulaw' carries'
        obtain ⟨rfl, rfl⟩ := Carries.unique carries carries'
        exact source k ulaw op
    · have noVoice : ∀ k ulaw, i.op ≠ .handleCommand (.sendVoice k ulaw) := by
        intro k ulaw op
        exact voice ⟨k, ulaw, op⟩
      rcases pushed_cases h.wf step noVoice sent with ⟨b, built, rfl⟩ | ⟨k, o, member, rfl⟩
      · exact (builds_voiceless noVoice built).voices S
      · exact (h.window k o member).copy.voices S

end PbxClient

namespace App

variable {G : Type} {n : Nat} {a b : App G n}

/-- All voice that a phone has sent, or is about to send, comes from the sources of its clients. -/
structure Sourced (S : Fin n → UInt16 → Bytes → Prop) (a : App G n) : Prop where
  client : ∀ idx, (a.client idx).Ready Voiceless (Voices (S idx))
  sent : ∀ e ∈ a.sent, Voices (S e.1) e.2

variable {S S' : Fin n → UInt16 → Bytes → Prop}

theorem Sourced.later (h : a.Sourced S) (more : ∀ idx k ulaw, S idx k ulaw → S' idx k ulaw) :
    a.Sourced S' where
  client idx := (h.client idx).imp (fun _ same => same) fun _ voices k ulaw carries =>
    more idx k ulaw (voices k ulaw carries)
  sent e he k ulaw carries := more e.1 k ulaw (h.sent e he k ulaw carries)

theorem Sourced.step [F64 G] {md5 : Md5} {r : Round n} (h : a.Sourced S) (step : Step md5 a r b)
    (source : ∀ idx k ulaw, a.Speaks r idx k ulaw → S idx k ulaw) : b.Sourced S := by
  refine (step.works.lift (J := fun idx s => s.Ready Voiceless (Voices (S idx)))
    (fun idx s ready => ⟨ready.out, ready.sent⟩) ?_ h.client h.sent).elim Sourced.mk
  intro idx s i s' ready asks step
  exact PbxClient.voices_step ready step fun k ulaw op => source idx k ulaw (asks.voice k ulaw op)

end App

namespace Conversation

variable {P G F : Type} {R : Rubato F} {n : Nat}

/-! ## What is said -/

/-- One transition of a run. -/
abbrev Move (P G : Type) {F : Type} (R : Rubato F) (n : Nat) :=
  Transition (Conversation P G R n) (P × PhoneRound n F)

/-- At the socket `e` a frame of the microphone is taken for the call `k`, which is active and up. -/
structure Says [F32 F] (e : P × Fin n) (k : UInt16) (pcm : List Int16) (t : Move P G R n) : Prop where
  party : t.label.1 = e.1
  tick : t.label.2.wakeup = .audioTick
  active : (t.pre e.1).app.active = some (e.2, k)
  up : (t.pre e.1).app.callState e.2 k = some .up
  frame : pcm ∈ ((t.pre e.1).audio.takeFrames8k frameSamples).1

/-- At the socket `e` the frame was said in the call `k`. -/
def Said [F32 F] (past : List (Move P G R n)) (e : P × Fin n) (k : UInt16) (pcm : List Int16) :
    Prop := ∃ t ∈ past, Says e k pcm t

/-- The payload is a frame that was said. -/
def Spoken [F32 F] (past : List (Move P G R n)) (e : P × Fin n) (k : UInt16) (ulaw : Bytes) : Prop :=
  ∃ pcm, Said past e k pcm ∧ ulaw = G711.encodeBlock pcm []

section

variable [F32 F] {past : List (Move P G R n)} {e : P × Fin n} {k : UInt16} {ulaw : Bytes}

theorem Spoken.later (t : Move P G R n) (h : Spoken past e k ulaw) : Spoken (t :: past) e k ulaw := by
  obtain ⟨pcm, ⟨t', member, spoken⟩, payload⟩ := h
  exact ⟨pcm, ⟨t', List.mem_cons_of_mem _ member, spoken⟩, payload⟩

/-- The frames that the driver hands to a call in a step of the program are said in that step. -/
theorem spoken_of_speaks {t : Move P G R n} {r : Round n} (named : (t.pre e.1).round t.label.2 = some r)
    (party : t.label.1 = e.1) (speaks : (t.pre e.1).app.Speaks r e.2 k ulaw) :
    Spoken (t :: past) e k ulaw := by
  obtain ⟨frames, wakeup, member⟩ := speaks.frame
  have tick : t.label.2.wakeup = .audioTick ∧ frames = (t.pre e.1).micFrames := by
    unfold Phone.round at named
    split at named <;> cases named <;> cases wakeup
    exact ⟨‹_›, rfl⟩
  obtain ⟨tick, rfl⟩ := tick
  obtain ⟨pcm, frame, rfl⟩ := List.mem_map.mp member
  exact ⟨pcm, ⟨t, List.mem_cons_self, party, tick, speaks.active, speaks.up, frame⟩, rfl⟩

variable [DecidableEq P] [F64 G] [NeZero n] {md5 : Md5} {cfgs : P → Vector Config n}
  {audio : P → AudioIo R} {peer : P × Fin n → P × Fin n} {net : Conversation P G R n}

/-- All voice that a party has sent was said there. -/
theorem sourced_run (run : (system md5 G cfgs audio peer).Run past net) (p : P) :
    (net p).app.Sourced fun idx => Spoken past (p, idx) := by
  induction run generalizing p with
  | start init =>
    obtain ⟨starts, made⟩ := init p
    rw [made]
    refine ⟨fun idx => ?_, fun e he => absurd he List.not_mem_nil⟩
    show ((App.new (cfgs p) starts : App G n).client idx).Ready _ _
    rw [App.new_client]
    exact .new _ _
  | @step past net net' e _ step ih =>
    obtain ⟨_, q, step, rfl⟩ := step
    have before (p : P) : (net p).app.Sourced fun idx =>
        Spoken (⟨net, e, Function.update net e.1 q⟩ :: past) (p, idx) :=
      (ih p).later fun idx k ulaw spoken => spoken.later _
    by_cases own : p = e.1
    · subst own
      rw [Function.update_self]
      rcases step.app with ⟨r, named, driver⟩ | ⟨_, same⟩
      · refine (before e.1).step driver ?_
        intro idx k ulaw speaks
        exact spoken_of_speaks (e := (e.1, idx)) named rfl speaks
      · rw [same]
        exact before e.1
    · rw [Function.update_of_ne own]
      exact before p

/-- All voice that has arrived at a socket was said at the other end. -/
theorem arrived_run (run : (system md5 G cfgs audio peer).Run past net) :
    ∀ t ∈ past, ∀ idx dg, t.label.2.wakeup = .datagram idx dg → ∀ k ulaw, Carries k ulaw dg →
      Spoken past (peer (t.label.1, idx)) k ulaw := by
  induction run with
  | start _ => exact fun t member => absurd member List.not_mem_nil
  | @step past net net' e run step ih =>
    intro t member idx dg wakeup k ulaw carries
    rcases List.mem_cons.mp member with rfl | before
    · obtain ⟨happens, _⟩ := step
      have sent := (sourced_run run _).sent _ (happens idx dg wakeup)
      exact (sent k ulaw carries).later _
    · exact (ih t before idx dg wakeup k ulaw carries).later _

end

/-! ## What is heard -/

section

variable [DecidableEq P]

/-- What happens to one of the parties. -/
def own (p : P) (past : List (Move P G R n)) : List (Phone.Move G R n) :=
  past.filterMap fun t => if t.label.1 = p then some ⟨t.pre p, t.label.2, t.post p⟩ else none

theorem own_cons (p : P) (t : Move P G R n) (past : List (Move P G R n)) :
    own p (t :: past) =
      if t.label.1 = p then ⟨t.pre p, t.label.2, t.post p⟩ :: own p past else own p past := by
  rw [own, List.filterMap_cons]
  split
  next other => rw [if_neg fun same => by simp [same] at other]; rfl
  next t' here =>
    split at here
    next same =>
      cases here
      rw [if_pos same]
      rfl
    next => cases here

/-- What happens to a party happens in the network. -/
theorem mem_own {p : P} {past : List (Move P G R n)} {t : Phone.Move G R n} (h : t ∈ own p past) :
    ∃ t' ∈ past, t'.label = (p, t.label) := by
  obtain ⟨t', member, here⟩ := List.mem_filterMap.mp h
  split at here
  next same =>
    cases here
    exact ⟨t', member, Prod.ext same rfl⟩
  next => cases here

variable [F64 G] [F32 F] [NeZero n] {md5 : Md5} {cfgs : P → Vector Config n}
  {audio : P → AudioIo R} {peer : P × Fin n → P × Fin n} {net : Conversation P G R n}
  {past : List (Move P G R n)}

/-- Each party makes a run of its own. -/
theorem phone_run (run : (system md5 G cfgs audio peer).Run past net) (p : P) :
    (Phone.system md5 G (cfgs p) (audio p)).Run (own p past) (net p) := by
  induction run with
  | start init => exact .start (init p)
  | @step past net net' e _ step ih =>
    obtain ⟨_, q, step, rfl⟩ := step
    rw [own_cons]
    split
    next same =>
      obtain rfl : e.1 = p := same
      show System.Run _ (⟨net e.1, e.2, Function.update net e.1 q e.1⟩ :: own e.1 past) _
      rw [Function.update_self]
      exact .step ih step
    next other =>
      rw [Function.update_of_ne fun same => other same.symm]
      exact ih

end

/-- Voice that arrives for a call is carried by the datagram that arrives. -/
theorem carries_of_arrived {i : Fin n} {k : UInt16} {ulaw : Bytes} {t : Phone.Move G R n}
    (h : Phone.Arrived i k ulaw t) :
    ∃ dg s, t.label.wakeup = .datagram i dg ∧ Carries s ulaw dg := by
  obtain ⟨dg, heard, wakeup, arrives, rfl, _⟩ := h
  refine ⟨dg, ?_⟩
  simp only [PbxClient.Move.heard] at arrives
  split at arrives
  next f decoded =>
    split at arrives
    next =>
      simp only [CallInput.heard] at arrives
      split at arrives
      next voice =>
        cases arrives
        exact ⟨f.srcCall, wakeup, .inl ⟨f, decoded, voice, rfl, rfl⟩⟩
      next => cases arrives
    next => cases arrives
  next m _ decoded =>
    split at arrives
    next =>
      cases arrives
      exact ⟨m.srcCall, wakeup, .inr ⟨m, (decode_of_mini decoded).1, decoded, rfl, rfl⟩⟩
    next => cases arrives
  next => cases arrives

section

variable [DecidableEq P] [F64 G] [F32 F] [NeZero n] {md5 : Md5} {cfgs : P → Vector Config n}
  {audio : P → AudioIo R} {peer : P × Fin n → P × Fin n} {net : Conversation P G R n}
  {past : List (Move P G R n)}

/-- What a tick of a party hands to the loudspeaker was said at the other end of the socket of its
active call: it is a frame of 160 samples that the device there had ready, for the call that was
active and up there, coded and decoded. Where frames are missing it is the frame that was played
last, and it has lost half of its amplitude for each of them. A tick that finds neither hands nothing
to the loudspeaker. -/
def HeardWasSaid (peer : P × Fin n → P × Fin n) (t : Move P G R n) (past : List (Move P G R n)) :
    Prop :=
  t.label.2.wakeup = .audioTick →
    ((t.pre t.label.1).spoken = none →
      Phone.Mute (t.pre t.label.1).audio (t.post t.label.1).audio) ∧
    ∀ pcm, (t.pre t.label.1).spoken = some pcm →
    ∃ i k s said missing, (t.pre t.label.1).app.active = some (i, k) ∧
      (t.pre t.label.1).app.callState i k = some .up ∧
      Said past (peer (t.label.1, i)) s said ∧ said.length = frameSamples ∧
      Phone.lastPlayed (own t.label.1 (t :: past)) = some (G711.encodeBlock said [], missing) ∧
      pcm = Phone.attenuate^[missing] (G711.decodeBlock (G711.encodeBlock said []) []) ∧
      (missing = 0 → List.Forall₂ G711.Near said pcm)

/-- In every run of phones that call each other, over a network that may lose, repeat and reorder
what they send, whatever is heard was said at the other end. -/
theorem heard_was_said (run : (system md5 G cfgs audio peer).Run past net) :
    Always (HeardWasSaid peer) past := by
  refine run.always ?_
  intro past net ⟨p, r⟩ net' run step tick
  have ownRun := phone_run (.step run step) p
  rw [own_cons, if_pos rfl] at ownRun
  obtain ⟨mute, heard⟩ := (Phone.heard_run ownRun).1 tick
  refine ⟨mute, fun pcm speaks => ?_⟩
  obtain ⟨_, i, k, ulaw, missing, active, up, fed, played, frame, _⟩ := heard pcm speaks
  -- the frame has not arrived in this tick, but before it
  have before : Phone.Fed i k ulaw (own p past) := by
    refine fed.2.resolve_left ?_
    rintro ⟨dg, _, wakeup, _⟩
    cases tick.symm.trans wakeup
  obtain ⟨t, member, arrived⟩ := before.occurred
  obtain ⟨dg, s, wakeup, carries⟩ := carries_of_arrived arrived
  obtain ⟨t', there, label⟩ := mem_own member
  obtain ⟨said, ⟨t'', earlier, spoken⟩, rfl⟩ :=
    arrived_run run t' there i dg (by rw [label]; exact wakeup) s ulaw carries
  rw [label] at spoken
  refine ⟨i, k, s, said, missing, active, up, ⟨t'', earlier, spoken⟩,
    AudioIo.length_of_frame spoken.frame, ?_, frame, ?_⟩
  · rw [own_cons, if_pos rfl]
    exact played
  · rintro rfl
    rw [frame]
    exact G711.block_near said

set_option maxRecDepth 4000 in
open ConversationSample in
/-- The left phone dials and the right one answers. A tick on the left plays a frame, and it was said
on the right. -/
theorem conversation_sample :
    ∃ s said, Said (trace (start AudioIo.Sample.device) [] talk) (true, 0) s said ∧
      said.length = frameSamples := by
  have talked := ConversationSample.run AudioIo.Sample.device talk (by decide +kernel)
    (.start fun p => ⟨#v[0], rfl⟩)
  have speaks : (after (start AudioIo.Sample.device) talk false).spoken.isSome = true := by
    decide +kernel
  obtain ⟨pcm, speaks⟩ := Option.isSome_iff_exists.mp speaks
  have ticked := System.Run.step (e := (false, { wakeup := .audioTick })) talked
    ⟨nofun, _, .round _ nofun, rfl⟩
  obtain ⟨i, _, s, said, _, _, _, heard, whole, _⟩ :=
    ((heard_was_said ticked).1 rfl).2 pcm speaks
  rw [Subsingleton.elim i 0] at heard
  exact ⟨s, said, heard, whole⟩

end

end Conversation

end Iax2
