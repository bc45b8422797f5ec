import Iax2.Laws.Conservation
import Iax2.Laws.Phone

/-!
# What the loudspeaker plays

Whatever the loudspeaker is given is voice of the active call: the payload of a frame that arrived
for that call, on the socket of its client, since the call became the active one, or such a payload
again where a frame is missing (`heard_run`). Every frame that is missing in a row halves the
samples, so the sixteenth one is silence at the latest.

The invariant (`Tuned`) is about the two places where voice waits in the driver: the jitter buffer and
the frame that was played last. It does not depend on where the voice comes from, which is a
parameter: within a round of the main loop more voice arrives, and the call may change.
-/

namespace Iax2

/-- A client reports voice that arrived for a call that is up. -/
theorem PbxClient.voice_arrived {md5 : Md5} {s s' : PbxClient} {i : Invocation}
    (step : Step md5 s i s') (none : s.events = []) {k : UInt16} {ts : UInt32} {ulaw : Bytes}
    (mem : .voice k ts ulaw ∈ s'.events) :
    ∃ h, Move.heard k ⟨s, i, s'⟩ = some h ∧ h.payload = ulaw ∧ s.callState k = some .up := by
  have emitted : s.emitted s' = s'.events := by
    rw [PbxClient.emitted, none]
    rfl
  have voice : (k, ts, ulaw) ∈ Move.voices ⟨s, i, s'⟩ :=
    List.mem_filterMap.mpr ⟨.voice k ts ulaw, (congrArg (_ ∈ ·) emitted).mpr mem, rfl⟩
  obtain ⟨j, c, x, h, target, live, up, heard, eq⟩ := mem_voices step voice
  cases eq
  exact ⟨h, (heard_of_target (t := ⟨s, i, s'⟩) target).trans heard, rfl,
    callState_eq_some.mpr ⟨c, live, up⟩⟩

/-! ## The jitter buffer -/

namespace JitterBuffer

variable {F : Type} {b : JitterBuffer F} {P : Bytes → Prop}

/-- All payloads that wait have a property. -/
def Holds (b : JitterBuffer F) (P : Bytes → Prop) : Prop :=
  ∀ (ts : UInt32) (payload : Bytes), b.frames[ts]? = some payload → P payload

/-- A pull returns what waited. -/
theorem Holds.pull (h : b.Holds P) :
    b.pull.2.Holds P ∧ ∀ payload, b.pull.1 = .play payload → P payload := by
  have pulled := b.pulled
  generalize b.pull = r at pulled ⊢
  cases pulled with
  | waits => exact ⟨h, nofun⟩
  | plays running found =>
    refine ⟨fun ts payload member => ?_, fun payload same => ?_⟩
    · rw [Std.ExtTreeMap.lookup_erase] at member
      split at member
      next => cases member
      next => exact h ts payload member
    · cases same
      exact h _ _ found
  | conceals => exact ⟨h, nofun⟩
  | drains => exact ⟨h, nofun⟩

variable [F64 F]

theorem Holds.push (h : b.Holds P) {payload : Bytes} (new : P payload) (ts : UInt32)
    (now : Instant) : (b.push ts payload now).Holds P := by
  have pushed := b.pushed ts payload now
  generalize b.push ts payload now = b' at pushed ⊢
  cases pushed with
  | late => exact h
  | @stored _ _ _ frames _ _ keeps _ _ =>
    intro j held member
    replace member : frames[j]? = some held := member
    rw [keeps j (Std.ExtTreeMap.mem_iff_lookup.mpr ⟨held, member⟩), entered_lookup] at member
    split at member
    next => exact Option.some.inj member ▸ new
    next =>
      split at member
      next => cases member
      next => exact h j held member

theorem Holds.reset (b : JitterBuffer F) (P : Bytes → Prop) : b.reset.Holds P := by
  intro ts payload member
  rw [show b.reset.frames = ∅ from rfl, Std.ExtTreeMap.getElem?_empty] at member
  cases member

end JitterBuffer

namespace App

variable {F : Type} {n : Nat} (a : App F n)

theorem flushTx_jb (idx : Fin n) : (a.flushTx idx).jb = a.jb := by
  rw [flushTx_eq]
  rfl

theorem holdPrevious_jb (idx : Fin n) (call : UInt16) (now clock : Instant) :
    (a.holdPrevious idx call now clock).jb = a.jb := by
  rw [holdPrevious]
  split <;> rfl

theorem resume_jb (idx : Fin n) (call : UInt16) (now clock : Instant) :
    (a.resume idx call now clock).jb = a.jb := by
  rw [resume]
  split <;> rfl

theorem foldl_flushTx_jb (l : List (Fin n)) : (l.foldl flushTx a).jb = a.jb := by
  induction l generalizing a with
  | nil => rfl
  | cons i l ih => exact (ih (a.flushTx i)).trans (a.flushTx_jb i)

/-- The jitter buffer, after a call became the active one. -/
theorem makeActive_jb [F64 F] (idx : Fin n) (call : UInt16) (clock : Stream' Instant) :
    (a.makeActive idx call clock).jb =
      if a.active ≠ some (idx, call) then a.jb.reset else a.jb := by
  rw [makeActive, foldl_flushTx_jb, resume_jb, holdPrevious_jb]

end App

namespace Phone

/-! ## Concealment -/

/-- A frame at half the amplitude. -/
def attenuate (pcm : List Int16) : List Int16 := pcm.map halve

theorem halve_natAbs (s : Int16) : (halve s).toInt.natAbs = s.toInt.natAbs / 2 := by
  have low := s.le_toInt
  have high := s.toInt_lt
  have magnitude : (s.toInt.tdiv 2).natAbs = s.toInt.natAbs / 2 := Int.natAbs_tdiv ..
  rw [halve, Int16.toInt_ofInt_of_le (by omega) (by omega), magnitude]

/-- A frame that is concealed again and again fades. -/
theorem attenuate_natAbs {pcm : List Int16} {bound : Nat}
    (loud : ∀ s ∈ pcm, s.toInt.natAbs ≤ bound) (times : Nat) :
    ∀ s ∈ attenuate^[times] pcm, s.toInt.natAbs ≤ bound / 2 ^ times := by
  induction times with
  | zero => simpa using loud
  | succ times ih =>
    rw [Function.iterate_succ_apply', Nat.pow_succ, ← Nat.div_div_eq_div_mul]
    intro s mem
    obtain ⟨s', before, rfl⟩ := List.mem_map.mp mem
    rw [halve_natAbs]
    exact Nat.div_le_div_right (ih s' before)

variable {G F : Type} {R : Rubato F} {n : Nat}

/-- The samples that a tick hands to the loudspeaker. -/
def spoken (p : Phone G R n) : Option (List Int16) :=
  match p.app.pumpPlayout.1 with
  | some (.play ulaw) => some (G711.decodeBlock ulaw [])
  | some .conceal => if p.lastPcm ≠ [] then some (attenuate p.lastPcm) else none
  | _ => none

theorem pumpPlayout_eq [F32 F] (p : Phone G R n) :
    p.pumpPlayout =
      { app := p.app.pumpPlayout.2
        audio := (p.spoken.map p.audio.playPcm8k).getD p.audio
        lastPcm := p.spoken.getD p.lastPcm } := by
  rw [pumpPlayout, spoken]
  obtain ⟨pull, app⟩ := p.app.pumpPlayout
  cases pull with
  | none => rfl
  | some pull =>
    cases pull with
    | play ulaw => rfl
    | conceal =>
      dsimp only
      split <;> rfl
    | silence => rfl

/-! ## The voice that waits -/

/-- What waits of voice is the active call's: the payloads in the jitter buffer come from the source
`S`, and the frame that was played last is one of `L`. -/
structure Tuned (S : Fin n → UInt16 → Bytes → Prop) (L : Fin n → UInt16 → List Int16 → Prop)
    (p : Phone G R n) : Prop where
  frames : ∀ i k, p.app.active = some (i, k) → p.app.jb.Holds (S i k)
  last : ∀ i k, p.app.active = some (i, k) → p.lastPcm ≠ [] → L i k p.lastPcm

section

variable {S : Fin n → UInt16 → Bytes → Prop} {L : Fin n → UInt16 → List Int16 → Prop}
  {p q : Phone G R n} {idx : Fin n}

theorem Tuned.of_eq (h : p.Tuned S L) (active : q.app.active = p.app.active)
    (jb : q.app.jb = p.app.jb) (last : q.lastPcm = p.lastPcm) : q.Tuned S L where
  frames i k is := jb ▸ h.frames i k (active ▸ is)
  last i k is := last ▸ h.last i k (active ▸ is)

theorem Tuned.imp {S' : Fin n → UInt16 → Bytes → Prop} {L' : Fin n → UInt16 → List Int16 → Prop}
    (h : p.Tuned S L)
    (source : ∀ i k, p.app.active = some (i, k) → ∀ ulaw, S i k ulaw → S' i k ulaw)
    (frame : ∀ i k, p.app.active = some (i, k) → ∀ pcm, L i k pcm → L' i k pcm) : p.Tuned S' L' where
  frames i k is ts payload member := source i k is _ (h.frames i k is ts payload member)
  last i k is some := frame i k is _ (h.last i k is some)

variable [F64 G]

/-- A call that becomes the active one finds no voice, unless it was the active one. -/
theorem Tuned.makeActive (h : p.Tuned S L) (call : UInt16) (clock : Stream' Instant) :
    (p.makeActive idx call clock).Tuned S L := by
  have active := (p.app.makeActive_activated idx call clock).active
  have jb := p.app.makeActive_jb idx call clock
  by_cases same : p.app.active = some (idx, call)
  · rw [if_neg (not_not_intro same)] at jb
    exact h.of_eq (active.trans same.symm) jb (if_neg (not_not_intro same))
  · rw [if_pos same] at jb
    constructor
    · intro i k _
      rw [makeActive_app, jb]
      exact .reset _ _
    · intro i k _ some
      exact absurd (if_pos same) some

/-- An event brings voice for the active call, or none. -/
theorem Tuned.handleEvent (h : p.Tuned S L) {ev : Event}
    (source : ∀ k ts ulaw, ev = .voice k ts ulaw → S idx k ulaw) (clock : Stream' Instant) :
    (p.handleEvent idx clock ev).Tuned S L := by
  cases ev with
  | answered call => exact h.makeActive call clock
  | voice call ts ulaw =>
    by_cases active : p.app.active = some (idx, call)
    · have pushed : (p.handleEvent idx clock (.voice call ts ulaw)).app =
          { p.app with jb := p.app.jb.push ts ulaw clock.head } := if_pos active
      constructor
      · intro i k is
        rw [pushed] at is ⊢
        cases active.symm.trans is
        exact (h.frames _ _ active).push (source call ts ulaw rfl) ts clock.head
      · intro i k is some
        rw [pushed] at is
        exact h.last i k is some
    · have passed : (p.handleEvent idx clock (.voice call ts ulaw)).app = p.app := if_neg active
      exact h.of_eq (by rw [passed]) (by rw [passed]) rfl
  | ended call reason =>
    by_cases active : p.app.active = some (idx, call)
    · have ended : (p.handleEvent idx clock (.ended call reason)).app =
          { p.app with active := none, jb := p.app.jb.reset } := if_pos active
      constructor <;>
      · intro i k is
        rw [ended] at is
        cases is
    · have passed : (p.handleEvent idx clock (.ended call reason)).app = p.app := if_neg active
      exact h.of_eq (by rw [passed]) (by rw [passed]) (if_neg active)
  | _ => exact h.of_eq rfl rfl rfl

/-- The events of a client bring voice from its source alone. -/
theorem Tuned.settle (h : p.Tuned S L)
    (source : ∀ k ts ulaw, .voice k ts ulaw ∈ (p.app.client idx).events → S idx k ulaw)
    (clock : Stream' Instant) : (p.settle idx clock).Tuned S L := by
  let P (q : Phone G R n) : Prop :=
    (∀ k ts ulaw, .voice k ts ulaw ∈ (q.app.client idx).events → S idx k ulaw) ∧ q.Tuned S L
  have start : P { p with app := p.app.flushTx idx } := by
    refine ⟨fun k ts ulaw mem => ?_, h.of_eq (p.app.flushTx_active idx) (p.app.flushTx_jb idx) rfl⟩
    rw [App.flushTx_events] at mem
    exact source k ts ulaw mem
  refine (eventLoop_induction (P := P) idx clock _ start ?_).2
  rintro q clock ev events queue ⟨source, tuned⟩
  rw [queue] at source
  have popped : (q.popEvent idx).Tuned S L := tuned.of_eq rfl rfl rfl
  constructor
  · intro k ts ulaw mem
    rw [handleEvent_app, App.handleEvent_events] at mem
    rw [popEvent, App.popEvent_events queue, if_pos rfl] at mem
    exact source k ts ulaw (List.mem_cons_of_mem _ mem)
  · exact popped.handleEvent (fun k ts ulaw is => source k ts ulaw (is ▸ List.mem_cons_self)) clock

/-- An operation on a client, and what follows it, brings the voice that arrives for a call that is
up. -/
theorem Tuned.operate (h : p.Tuned S L) (settled : p.app.Settled) {md5 : Md5} {x : Invocation}
    {c : PbxClient} (step : PbxClient.Step md5 (p.app.client idx) x c)
    (source : ∀ k heard, PbxClient.Move.heard k ⟨p.app.client idx, x, c⟩ = some heard →
      p.app.callState idx k = some .up → S idx k heard.payload) (clock : Stream' Instant) :
    ({ p with app := p.app.setClient idx c }.settle idx clock).Tuned S L := by
  have set : Tuned S L { p with app := p.app.setClient idx c } := h.of_eq rfl rfl rfl
  refine set.settle (fun k ts ulaw mem => ?_) clock
  rw [App.client_setClient, if_pos rfl] at mem
  obtain ⟨heard, arrived, rfl, up⟩ := PbxClient.voice_arrived step (settled.events idx) mem
  exact source k heard arrived up

theorem Tuned.enter (h : p.Tuned S L) (settled : p.app.Settled) (cmd : Command) (now : Instant)
    (clock : Stream' Instant) : (p.enter idx cmd now clock).Tuned S L := by
  have step : PbxClient.Step (fun _ => Vector.replicate 16 0) (p.app.client idx)
      ⟨.handleCommand cmd, now, clock.head⟩ _ := .call _ nofun
  exact h.operate settled step (fun k heard arrived _ => by cases arrived) clock.tail

theorem Tuned.dispatch (h : p.Tuned S L) (settled : p.app.Settled) (line : List Char)
    (now : Instant) (clock : Fin n → Stream' Instant) : (p.dispatch line now clock).2.Tuned S L := by
  rw [Phone.dispatch]
  split
  next => exact h
  next => exact h
  next =>
    dsimp only
    split
    · exact h.of_eq rfl rfl rfl
    · exact h
  next => exact h
  next =>
    dsimp only
    split
    · exact h
    · exact h.enter settled _ now _
  next =>
    dsimp only
    split
    · exact h.enter settled _ now _
    · exact h
  next digits _ =>
    dsimp only
    split
    · exact h
    · split
      next idx call _ =>
        have steady := App.handleCommands_steady (digits.map (.dtmf call)) now
          (List.forall_mem_map.mpr fun d _ c t => c.sendDtmf_steady call d now t) (clock idx)
          (p.app.client idx)
        have set : Tuned S L { p with
            app := p.app.commands idx (digits.map (.dtmf call)) now (clock idx) } :=
          h.of_eq rfl rfl rfl
        refine set.settle (fun k ts ulaw mem => ?_) _
        rw [App.commands, App.client_setClient, if_pos rfl, steady.events, settled.events] at mem
        cases mem
      next => exact h
  next =>
    dsimp only
    split
    · constructor <;>
      · intro i k is
        cases is
    · exact h
  next =>
    dsimp only
    split
    · exact h
    · split
      · split
        · exact h.enter settled _ now _
        · exact h.makeActive _ _
        · exact h
      · exact h
  next => exact h

theorem Tuned.onTimer (h : p.Tuned S L) (settled : p.app.Settled) (now : Instant)
    (clock : Fin n → Stream' Instant) : (p.onTimer now clock).Tuned S L := by
  rw [Phone.onTimer]
  generalize List.finRange n = l
  induction l generalizing p with
  | nil => exact h
  | cons idx l ih =>
    have step : PbxClient.Step (fun _ => Vector.replicate 16 0) (p.app.client idx)
        ⟨.handleTimeout, now, (clock idx).head⟩ _ := .call _ (by simp)
    refine ih (h.operate settled step (fun k heard arrived _ => by cases arrived) _) ?_
    rw [settle_app]
    exact settled.settle ((PbxClient.Step.outcome step).informs (by simp)) (clock idx).tail

end

/-! ## A tick -/

section

variable [F32 F]

/-- A tick of the microphone leaves alone what the loudspeaker needs. -/
theorem onAudioTick_eq (p : Phone G R n) (now : Instant) (clock : Fin n → Stream' Instant) :
    ∃ q : Phone G R n, p.onAudioTick now clock = q.pumpPlayout ∧
      q.app.active = p.app.active ∧ q.app.jb = p.app.jb ∧ q.lastPcm = p.lastPcm ∧
      (∀ i k, q.app.callState i k = p.app.callState i k) ∧
      q.audio = if p.app.active = none then p.audio
        else (p.audio.takeFrames8k frameSamples).2 := by
  rw [onAudioTick, pumpMic]
  cases active : p.app.active with
  | none => exact ⟨p, rfl, active, rfl, rfl, fun _ _ => rfl, rfl⟩
  | some c =>
    obtain ⟨idx, call⟩ := c
    by_cases up : p.app.callState idx call = some .up
    · have pumped : p.app.pumpMic p.micFrames now clock = (some idx,
          p.app.commands idx (p.micFrames.map (.sendVoice call)) now (clock idx)) := by
        simp only [App.pumpMic, active, up, if_true]
      have steady := App.handleCommands_steady (p.micFrames.map (.sendVoice call)) now
        (List.forall_mem_map.mpr fun ulaw _ c t => c.sendVoice_steady call ulaw t) (clock idx)
        (p.app.client idx)
      simp only [micFrames] at pumped steady
      simp only [pumped]
      refine ⟨_, rfl, ?_, ?_, rfl, fun i k => ?_, rfl⟩
      · rw [App.flushTx_active]
        exact active
      · rw [App.flushTx_jb]
        rfl
      · rw [App.flushTx_callState, App.callState, App.commands, App.client_setClient]
        split
        next here => exact here ▸ steady.callState k
        next => rfl
    · have pumped : p.app.pumpMic p.micFrames now clock = (none, p.app) := by
        simp only [App.pumpMic, active, up, if_false]
      simp only [micFrames] at pumped
      simp only [pumped]
      exact ⟨_, rfl, active, rfl, rfl, fun _ _ => rfl, rfl⟩

end

/-- A tick takes a payload of the active call from the jitter buffer, or finds that one is missing,
or neither. -/
theorem pumpPlayout_cases (p : Phone G R n) :
    (∃ i k, p.app.active = some (i, k) ∧ p.app.callState i k = some .up ∧
      p.app.pumpPlayout = (some p.app.jb.pull.1, { p.app with jb := p.app.jb.pull.2 })) ∨
      p.app.pumpPlayout = (none, p.app) := by
  rw [App.pumpPlayout]
  split
  next i k active =>
    split
    next up => exact .inl ⟨i, k, active, up, rfl⟩
    next => exact .inr rfl
  next => exact .inr rfl

/-- One transition of a run of the program. -/
abbrev Move (G : Type) {F : Type} (R : Rubato F) (n : Nat) :=
  Transition (Phone G R n) (PhoneRound n F)

/-- What a tick finds in the jitter buffer. -/
def Move.pull (t : Move G R n) : Option Pull :=
  match t.label.wakeup with
  | .audioTick => t.pre.app.pumpPlayout.1
  | _ => none

/-- A voice frame with the payload arrives on the socket of the client `i`, for its call `k`, which is
up. -/
def Arrived (i : Fin n) (k : UInt16) (ulaw : Bytes) (t : Move G R n) : Prop :=
  ∃ dg heard, t.label.wakeup = .datagram i dg ∧
    PbxClient.Move.heard k ⟨t.pre.app.client i, ⟨.handleInput dg, t.label.now, (t.label.clock i).head⟩,
      t.post.app.client i⟩ = some heard ∧
    heard.payload = ulaw ∧ t.pre.app.callState i k = some .up

/-- A voice frame with the payload arrived for the call `k` of the client `i`, and the call was the
active one ever since. -/
def Fed (i : Fin n) (k : UInt16) (ulaw : Bytes) : List (Move G R n) → Prop :=
  Since (fun t => t.post.app.active ≠ some (i, k)) (Arrived i k ulaw)

/-- The payload that was played last, and how many were missing after it. -/
def lastPlayed : List (Move G R n) → Option (Bytes × Nat)
  | [] => none
  | t :: past =>
    match t.pull with
    | some (.play ulaw) => some (ulaw, 0)
    | some .conceal => (lastPlayed past).map fun (ulaw, missing) => (ulaw, missing + 1)
    | _ => lastPlayed past

/-- A frame is the payload of the call that was played last, attenuated once for each that was
missing after it. -/
def Voiced (past : List (Move G R n)) (i : Fin n) (k : UInt16) (pcm : List Int16) : Prop :=
  ∃ ulaw missing, Fed i k ulaw past ∧ lastPlayed past = some (ulaw, missing) ∧
    pcm = attenuate^[missing] (G711.decodeBlock ulaw [])

/-- The voice that waits in the driver is the active call's. -/
def TunedTo (past : List (Move G R n)) (p : Phone G R n) : Prop :=
  p.Tuned (fun i k ulaw => Fed i k ulaw past) (Voiced past)

/-- A round other than a tick, which brings the voice that arrives. -/
theorem Tuned.round {past : List (Move G R n)} {t : Move G R n}
    (h : t.post.Tuned (fun i k ulaw => Arrived i k ulaw t ∨ Fed i k ulaw past) (Voiced past))
    (quiet : t.pull = none) : t.post.TunedTo (t :: past) := by
  refine h.imp (fun i k active ulaw source => ⟨not_not_intro active, source⟩) ?_
  rintro i k active pcm ⟨ulaw, missing, fed, last, is⟩
  refine ⟨ulaw, missing, ⟨not_not_intro active, .inr fed⟩, ?_, is⟩
  rw [lastPlayed, quiet]
  exact last

theorem pumpPlayout_active (p : Phone G R n) : p.app.pumpPlayout.2.active = p.app.active := by
  rcases p.pumpPlayout_cases with ⟨_, _, _, _, takes⟩ | quiet
  · rw [takes]
  · rw [quiet]

/-- A tick of the loudspeaker depends on the active call, its state and the jitter buffer. -/
theorem pumpPlayout_congr {p q : Phone G R n} (active : q.app.active = p.app.active)
    (jb : q.app.jb = p.app.jb) (state : ∀ i k, q.app.callState i k = p.app.callState i k) :
    q.app.pumpPlayout.1 = p.app.pumpPlayout.1 ∧
      q.app.pumpPlayout.2.jb = p.app.pumpPlayout.2.jb := by
  rw [App.pumpPlayout, App.pumpPlayout, active]
  cases p.app.active with
  | none => exact ⟨rfl, jb⟩
  | some c =>
    simp only [state, jb]
    split
    · exact ⟨rfl, rfl⟩
    · exact ⟨rfl, jb⟩

/-- Nothing is handed to the loudspeaker: what waits for it stays. -/
def Mute (a a' : AudioIo R) : Prop :=
  a'.playQ = a.playQ ∧ a'.playRs = a.playRs

/-- What a tick does, by what it found before. -/
theorem tick_eq [F32 F] (p : Phone G R n) (now : Instant) (clock : Fin n → Stream' Instant) :
    (p.onAudioTick now clock).app.active = p.app.active ∧
      (p.onAudioTick now clock).app.jb = p.app.pumpPlayout.2.jb ∧
      (p.onAudioTick now clock).lastPcm = p.spoken.getD p.lastPcm ∧
      (∀ pcm, p.spoken = some pcm → (p.onAudioTick now clock).audio =
        (p.audio.takeFrames8k frameSamples).2.playPcm8k pcm) ∧
      (p.spoken = none → Mute p.audio (p.onAudioTick now clock).audio) := by
  obtain ⟨q, onto, active, jb, last, state, audio⟩ := p.onAudioTick_eq now clock
  obtain ⟨pull, popped⟩ := pumpPlayout_congr active jb state
  have spoken : q.spoken = p.spoken := by rw [Phone.spoken, Phone.spoken, pull, last]
  rw [onto, pumpPlayout_eq, spoken, last]
  refine ⟨q.pumpPlayout_active.trans active, popped, rfl, fun pcm speaks => ?_, fun silent => ?_⟩
  · have live : p.app.active ≠ none := by
      rcases p.pumpPlayout_cases with ⟨i, k, is, _⟩ | quiet
      · rw [is]
        exact nofun
      · rw [Phone.spoken, quiet] at speaks
        cases speaks
    rw [speaks, audio, if_neg live]
    rfl
  · rw [silent, audio]
    split <;> exact ⟨rfl, rfl⟩

/-- What a tick leaves, and what it found in the jitter buffer. -/
structure Ticks (t : Move G R n) : Prop where
  pull : t.pull = t.pre.app.pumpPlayout.1
  active : t.post.app.active = t.pre.app.active
  jb : t.post.app.jb = t.pre.app.pumpPlayout.2.jb
  last : t.post.lastPcm = t.pre.spoken.getD t.pre.lastPcm

section

variable {past : List (Move G R n)} {t : Move G R n}

theorem Ticks.fed (ticks : Ticks t) {i : Fin n} {k : UInt16} {ulaw : Bytes}
    (is : t.pre.app.active = some (i, k)) (before : Fed i k ulaw past) : Fed i k ulaw (t :: past) :=
  ⟨not_not_intro (ticks.active.trans is), .inr before⟩

/-- The frames that a tick leaves in the jitter buffer were there before. -/
theorem Ticks.frames (ticks : Ticks t) (h : t.pre.TunedTo past) (i : Fin n) (k : UInt16)
    (is : t.post.app.active = some (i, k)) :
    t.post.app.jb.Holds fun ulaw => Fed i k ulaw (t :: past) := by
  rw [ticks.active] at is
  have before := h.frames i k is
  rw [ticks.jb]
  rcases t.pre.pumpPlayout_cases with ⟨_, _, _, _, takes⟩ | quiet
  · rw [takes]
    exact fun ts payload member => ticks.fed is (before.pull.1 ts payload member)
  · rw [quiet]
    exact fun ts payload member => ticks.fed is (before ts payload member)

/-- A tick that plays nothing leaves the last frame as it was. -/
theorem Ticks.quiet (ticks : Ticks t) (h : t.pre.TunedTo past) (silent : t.pre.spoken = none)
    (same : t.pre.lastPcm ≠ [] → lastPlayed (t :: past) = lastPlayed past) :
    t.post.TunedTo (t :: past) where
  frames := ticks.frames h
  last i k is some := by
    have kept : t.post.lastPcm = t.pre.lastPcm := by rw [ticks.last, silent, Option.getD_none]
    rw [ticks.active] at is
    rw [kept] at some ⊢
    obtain ⟨ulaw, missing, before, played, frame⟩ := h.last i k is some
    exact ⟨ulaw, missing, ticks.fed is before, (same some).trans played, frame⟩

/-- A tick that plays a frame waits with it. -/
theorem Ticks.speak (ticks : Ticks t) (h : t.pre.TunedTo past) {pcm : List Int16} {i : Fin n}
    {k : UInt16} (speaks : t.pre.spoken = some pcm) (is : t.pre.app.active = some (i, k))
    (voiced : Voiced (t :: past) i k pcm) : t.post.TunedTo (t :: past) where
  frames := ticks.frames h
  last i' k' is' _ := by
    rw [ticks.active] at is'
    cases is.symm.trans is'
    rw [ticks.last, speaks]
    exact voiced

/-- What a tick hands to the loudspeaker waited for the active call, which is up. -/
theorem Ticks.voiced (ticks : Ticks t) (h : t.pre.TunedTo past) {pcm : List Int16}
    (speaks : t.pre.spoken = some pcm) :
    ∃ i k, t.pre.app.active = some (i, k) ∧ t.pre.app.callState i k = some .up ∧
      Voiced (t :: past) i k pcm := by
  rcases t.pre.pumpPlayout_cases with ⟨i, k, is, up, takes⟩ | quiet
  · refine ⟨i, k, is, up, ?_⟩
    have pull : t.pull = some t.pre.app.jb.pull.1 := by rw [ticks.pull, takes]
    rw [spoken, takes] at speaks
    cases pulled : t.pre.app.jb.pull.1 with
    | play ulaw =>
      simp only [pulled] at speaks pull
      cases speaks
      refine ⟨ulaw, 0, ticks.fed is ((h.frames i k is).pull.2 ulaw pulled), ?_, rfl⟩
      rw [lastPlayed, pull]
    | conceal =>
      simp only [pulled] at speaks pull
      split at speaks
      next some =>
        cases speaks
        obtain ⟨ulaw, missing, before, played, frame⟩ := h.last i k is some
        refine ⟨ulaw, missing + 1, ticks.fed is before, ?_, ?_⟩
        · rw [lastPlayed, pull, played]
          rfl
        · rw [frame, Function.iterate_succ_apply']
      next => cases speaks
    | silence =>
      simp only [pulled] at speaks
      cases speaks
  · rw [spoken, quiet] at speaks
    cases speaks

/-- A tick plays what waited, and waits with what it played. -/
theorem Ticks.tuned (ticks : Ticks t) (h : t.pre.TunedTo past) : t.post.TunedTo (t :: past) := by
  cases speaks : t.pre.spoken with
  | some pcm =>
    obtain ⟨i, k, is, _, voiced⟩ := ticks.voiced h speaks
    exact ticks.speak h speaks is voiced
  | none =>
    refine ticks.quiet h speaks fun some => ?_
    rw [lastPlayed, ticks.pull]
    rw [spoken] at speaks
    split at speaks
    next => cases speaks
    next => rw [if_pos some] at speaks; cases speaks
    next => rfl

end

/-! ## Every run -/

section

variable [F64 G] [F32 F] {md5 : Md5}

/-- Every step keeps the voice that waits the active call's. -/
theorem Step.tunedTo {past : List (Move G R n)} {p q : Phone G R n} {r : PhoneRound n F}
    (step : Step md5 p r q) (settled : p.app.Settled) (h : p.TunedTo past) :
    q.TunedTo (⟨p, r, q⟩ :: past) := by
  have before : p.Tuned (fun i k ulaw => Arrived i k ulaw ⟨p, r, q⟩ ∨ Fed i k ulaw past)
      (Voiced past) := h.imp (fun _ _ _ _ fed => .inr fed) fun _ _ _ _ voiced => voiced
  cases step with
  | round other =>
    rcases r with ⟨wakeup, now, clock⟩
    cases wakeup with
    | datagram idx dg =>
      refine Tuned.round (t := ⟨p, _, _⟩) ?_ rfl
      have step : PbxClient.Step md5 (p.app.client idx)
          ⟨.handleInput dg, now, (clock idx).head⟩ _ := .call _ nofun
      exact before.operate settled step
        (fun k heard arrived up => .inl ⟨dg, heard, rfl, arrived, rfl, up⟩) _
    | timer => exact Tuned.round (t := ⟨p, _, _⟩) (before.onTimer settled now clock) rfl
    | audioTick =>
      obtain ⟨active, jb, last, _, _⟩ := p.tick_eq now clock
      exact Ticks.tuned (t := ⟨p, _, _⟩) ⟨rfl, active, jb, last⟩ h
    | line text =>
      exact Tuned.round (t := ⟨p, _, _⟩) (before.dispatch settled text.toList now clock) rfl
    | rehash idx => exact absurd rfl (other idx)
    | capture frame => exact Tuned.round (t := ⟨p, _, _⟩) (before.of_eq rfl rfl rfl) rfl
    | render frames => exact Tuned.round (t := ⟨p, _, _⟩) (before.of_eq rfl rfl rfl) rfl
  | rehash wakeup _ =>
    refine Tuned.round (t := ⟨p, r, _⟩) (before.of_eq rfl rfl rfl) ?_
    rw [Move.pull, wakeup]

variable [NeZero n] {cfgs : Vector Config n} {audio : AudioIo R} {past : List (Move G R n)}
  {p : Phone G R n}

theorem tunedTo_run (run : (system md5 G cfgs audio).Run past p) : p.TunedTo past := by
  induction run with
  | start init =>
    obtain ⟨starts, rfl⟩ := init
    exact ⟨nofun, nofun⟩
  | step run step ih =>
    obtain ⟨_, driver⟩ := app_run run
    exact step.tunedTo (App.settled_run driver) ih

/-- What a tick hands to the loudspeaker is voice of the active call, which is up: the payload of a
frame that arrived for this call, on the socket of its client, while it was the active one as it has
been ever since. Where frames are missing, it is the payload that was played last, and it has lost
half of its amplitude for each of them. Else the tick hands nothing to the loudspeaker. -/
def PlaysActive (t : Move G R n) (past : List (Move G R n)) : Prop :=
  t.label.wakeup = .audioTick →
    (t.pre.spoken = none → Mute t.pre.audio t.post.audio) ∧
    ∀ pcm, t.pre.spoken = some pcm →
    t.post.audio = (t.pre.audio.takeFrames8k frameSamples).2.playPcm8k pcm ∧
    ∃ i k ulaw missing, t.pre.app.active = some (i, k) ∧ t.pre.app.callState i k = some .up ∧
      Fed i k ulaw (t :: past) ∧ lastPlayed (t :: past) = some (ulaw, missing) ∧
      pcm = attenuate^[missing] (G711.decodeBlock ulaw []) ∧
      ∀ s ∈ pcm, s.toInt.natAbs ≤ 32124 / 2 ^ missing

/-- Along every run, the loudspeaker is given voice of the active call alone. -/
theorem heard_run (run : (system md5 G cfgs audio).Run past p) : Always PlaysActive past := by
  refine run.always fun past p r q run step tick => ?_
  have tuned := tunedTo_run run
  rcases r with ⟨wakeup, now, clock⟩
  cases tick
  cases step with
  | rehash wakeup _ => cases wakeup
  | round _ =>
    obtain ⟨active, jb, last, audio, mute⟩ := p.tick_eq now clock
    refine ⟨mute, fun pcm speaks => ?_⟩
    obtain ⟨i, k, is, up, ulaw, missing, fed, played, frame⟩ :=
      Ticks.voiced (t := ⟨p, _, _⟩) ⟨rfl, active, jb, last⟩ tuned speaks
    refine ⟨audio pcm speaks, i, k, ulaw, missing, is, up, fed, played, frame, ?_⟩
    rw [frame]
    refine attenuate_natAbs (fun s mem => ?_) missing
    rw [G711.decodeBlock, List.nil_append] at mem
    obtain ⟨u, _, rfl⟩ := List.mem_map.mp mem
    exact G711.decode_natAbs_le u

theorem heard_sample :
    Always PlaysActive (PhoneSample.trace AudioIo.Sample.device PhoneSample.talk) :=
  heard_run (PhoneSample.run AudioIo.Sample.device PhoneSample.talk PhoneSample.talk_rounds)

end

/-! ## The device between two calls -/

/-- Nothing waits in the queues of the device. -/
structure Emptied (a : AudioIo R) : Prop where
  capQ : a.capQ = []
  playQ : a.playQ = []
  capAcc : a.capAcc = []

theorem emptied_flush (a : AudioIo R) : Emptied a.flush := ⟨rfl, rfl, rfl⟩

/-- If the active call is another one than it was, nothing waits in the device. -/
def Follows (was : Option (Fin n × UInt16)) (p : Phone G R n) : Prop :=
  p.app.active ≠ was → Emptied p.audio

section

variable {was : Option (Fin n × UInt16)} {p : Phone G R n} {idx : Fin n} [F64 G]

theorem Follows.handleEvent (h : p.Follows was) (clock : Stream' Instant) (ev : Event) :
    (p.handleEvent idx clock ev).Follows was := by
  cases ev with
  | answered call => exact fun _ => emptied_flush p.audio
  | voice call ts ulaw =>
    intro other
    refine h fun same => other ?_
    rw [handleEvent_app, App.handleEvent]
    split <;> exact same
  | ended call reason =>
    intro other
    by_cases active : p.app.active = some (idx, call)
    · have flushed : (p.handleEvent idx clock (.ended call reason)).audio = p.audio.flush :=
        if_pos active
      rw [flushed]
      exact emptied_flush p.audio
    · have passed : (p.handleEvent idx clock (.ended call reason)).app = p.app := if_neg active
      have kept : (p.handleEvent idx clock (.ended call reason)).audio = p.audio := if_neg active
      rw [passed] at other
      rw [kept]
      exact h other
  | _ => exact h

theorem Follows.settle (h : p.Follows was) (clock : Stream' Instant) :
    (p.settle idx clock).Follows was := by
  refine eventLoop_induction (P := fun q => q.Follows was) idx clock _ ?_ fun q clock ev _ _ h => ?_
  · intro other
    exact h ((p.app.flushTx_active idx) ▸ other)
  · exact Follows.handleEvent (p := q.popEvent idx) h clock ev

theorem Follows.enter (h : p.Follows was) (cmd : Command) (now : Instant)
    (clock : Stream' Instant) : (p.enter idx cmd now clock).Follows was :=
  Follows.settle (p := { p with app := p.app.command idx cmd now clock.head }) h clock.tail

theorem Follows.dispatch (h : p.Follows was) (line : List Char) (now : Instant)
    (clock : Fin n → Stream' Instant) : (p.dispatch line now clock).2.Follows was := by
  rw [Phone.dispatch]
  split
  next => exact h
  next => exact h
  next =>
    dsimp only
    split <;> exact h
  next => exact h
  next =>
    dsimp only
    split
    · exact h
    · exact h.enter _ now _
  next =>
    dsimp only
    split
    · exact h.enter _ now _
    · exact h
  next digits _ =>
    dsimp only
    split
    · exact h
    · split
      next idx call _ =>
        exact Follows.settle (p := { p with
          app := p.app.commands idx (digits.map (.dtmf call)) now (clock idx) }) h _
      next => exact h
  next =>
    dsimp only
    split
    · exact fun _ => emptied_flush _
    · exact h
  next =>
    dsimp only
    split
    · exact h
    · split
      · split
        · exact h.enter _ now _
        · exact fun _ => emptied_flush _
        · exact h
      · exact h
  next => exact h

variable [F32 F] {md5 : Md5}

/-- In every step that changes the active call, of whatever kind, the device is flushed. What the
resamplers hold, less than a block of each, is not part of its queues and stays. -/
theorem switch_flushes {q : Phone G R n} {r : PhoneRound n F} (step : Step md5 p r q)
    (switched : q.app.active ≠ p.app.active) : Emptied q.audio := by
  have start : p.Follows p.app.active := fun other => absurd rfl other
  suffices follows : q.Follows p.app.active from follows switched
  cases step with
  | round other =>
    rcases r with ⟨wakeup, now, clock⟩
    cases wakeup with
    | datagram idx dg =>
      exact Follows.settle (p := { p with
        app := p.app.setClient idx ((p.app.client idx).handleInput md5 dg now (clock idx).head) })
        start (clock idx).tail
    | timer =>
      show (p.onTimer now clock).Follows _
      rw [Phone.onTimer]
      generalize p.app.active = was at start
      generalize List.finRange n = l
      clear switched other
      induction l generalizing p with
      | nil => exact start
      | cons idx l ih =>
        exact ih (Follows.settle (p := { p with
          app := p.app.setClient idx ((p.app.client idx).handleTimeout now (clock idx).head) })
          start (clock idx).tail)
    | audioTick => exact fun other => absurd (p.tick_eq now clock).1 other
    | line text => exact start.dispatch text.toList now clock
    | rehash idx => exact absurd rfl (other idx)
    | capture frame => exact fun other => absurd rfl other
    | render frames => exact fun other => absurd rfl other
  | rehash _ _ => exact start

/-- A frame of the active call waits to be played, and a sample to be sent, when the call is hung
up. -/
theorem switch_sample :
    let p := PhoneSample.after AudioIo.Sample.device
      [PhoneSample.receive Sample.newCall.encode 0, { wakeup := .line "a" },
        PhoneSample.receive ((Sample.frame 20 1 1 Frametype.voice 4).encodeMedia
          (List.replicate 160 0x80)) 20,
        PhoneSample.receive (MiniFrame.encode ⟨42, 40, List.replicate 160 0x00⟩) 40,
        { wakeup := .audioTick }, { wakeup := .capture [0] }]
    p.audio.playQ.length = 62 ∧ p.audio.capQ.length = 1 ∧
      Emptied (p.apply Sample.md5 ({ wakeup := .line "h" } : PhoneRound 2 ℚ)).audio := by
  intro p
  exact ⟨by decide +kernel, by decide +kernel,
    switch_flushes (.round p (by simp)) (by decide +kernel)⟩

end

end Phone

end Iax2
