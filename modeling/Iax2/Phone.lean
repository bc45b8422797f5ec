import Iax2.Audio
import Iax2.Softphone

/-!
# The softphone with its audio

The whole driver: the one of `App`, with the device and the frame that was played last. Where the
driver switches the audio over to another call it flushes the device, and it conceals a frame that is
missing by the one before it, at half the amplitude.

The microphone is read from the device here, so a tick of the audio has no input, and the call backs
of the device come between two rounds of the main loop: each of them works on a queue that a round
of the main loop only empties, or touches once.
-/

namespace Iax2

/-- The driver with its audio. -/
structure Phone (G : Type) {F : Type} (R : Rubato F) (n : Nat) where
  app : App G n
  audio : AudioIo R
  /-- the samples that were played last, to conceal the loss of a frame -/
  lastPcm : List Int16

namespace Phone

variable {G F : Type} [F64 G] [F32 F] {R : Rubato F} {n : Nat}

/-- The driver at its start. -/
def new [NeZero n] (cfgs : Vector Config n) (starts : Vector Instant n) (audio : AudioIo R) :
    Phone G R n :=
  { app := .new cfgs starts, audio, lastPcm := [] }

section

variable (p : Phone G R n) (idx : Fin n)

/-! ## Events -/

/-- Make a call the active one. The device is flushed even if it was the active one before. -/
def makeActive (call : UInt16) (clock : Stream' Instant) : Phone G R n :=
  { app := p.app.makeActive idx call clock
    audio := p.audio.flush
    lastPcm := if p.app.active ≠ some (idx, call) then [] else p.lastPcm }

/-- Handle an event of the client `idx`. -/
def handleEvent (clock : Stream' Instant) : Event → Phone G R n
  | .answered call => p.makeActive idx call clock
  | .ended call reason =>
    { app := p.app.handleEvent idx clock (.ended call reason)
      audio := if p.app.active = some (idx, call) then p.audio.flush else p.audio
      lastPcm := if p.app.active = some (idx, call) then [] else p.lastPcm }
  | ev => { p with app := p.app.handleEvent idx clock ev }

/-- The loop of `handle_events`, with `fuel` rounds left. -/
def eventLoop (idx : Fin n) : Nat → Stream' Instant → Phone G R n → Phone G R n
  | 0, _, p => p
  | fuel + 1, clock, p =>
    match (p.app.client idx).pollEvent with
    | (some ev, c) =>
      eventLoop idx fuel (clock.drop 3)
        ({ p with app := p.app.setClient idx c }.handleEvent idx clock ev)
    | (none, _) => p

def handleEvents (clock : Stream' Instant) : Phone G R n :=
  eventLoop idx (p.app.client idx).events.length clock p

/-- What follows an operation on a client: send, and handle the events. -/
def settle (clock : Stream' Instant) : Phone G R n :=
  { p with app := p.app.flushTx idx }.handleEvents idx clock

/-! ## Audio -/

/-- Half of a sample, towards zero. -/
def halve (s : Int16) : Int16 := Int16.ofInt (s.toInt.tdiv 2)

/-- A tick of the loudspeaker: the next frame of the active call, or the last one again, attenuated,
if it is missing. -/
def pumpPlayout : Phone G R n :=
  match p.app.pumpPlayout with
  | (some (.play ulaw), app) =>
    let pcm := G711.decodeBlock ulaw []
    { app, audio := p.audio.playPcm8k pcm, lastPcm := pcm }
  | (some .conceal, app) =>
    if p.lastPcm ≠ [] then
      let pcm := p.lastPcm.map halve
      { app, audio := p.audio.playPcm8k pcm, lastPcm := pcm }
    else { p with app }
  | (_, app) => { p with app }

/-- A tick of the microphone: the captured frames go to the active call, if it is up. Returns the
client to flush. -/
def pumpMic (now : Instant) (clock : Fin n → Stream' Instant) : Option (Fin n) × Phone G R n :=
  match p.app.active with
  | some _ =>
    let (frames, audio) := p.audio.takeFrames8k frameSamples
    let (touched, app) := p.app.pumpMic (frames.map (G711.encodeBlock · [])) now clock
    (touched, { p with app, audio })
  | none => (none, p)

/-! ## Keys -/

/-- A command of the keyboard, and what follows it. -/
def enter (cmd : Command) (now : Instant) (clock : Stream' Instant) : Phone G R n :=
  { p with app := p.app.command idx cmd now clock.head }.settle idx clock.tail

end

theorem pbx_lt {k : Nat} (h : 1 ≤ k ∧ k ≤ n) : k - 1 < n := by omega

/-- Carry out a line of the keyboard. Returns false if the program is to end. -/
def dispatch (p : Phone G R n) (line : List Char) (now : Instant)
    (clock : Fin n → Stream' Instant) : Bool × Phone G R n :=
  match Key.parse line with
  | .quit => (false, p)
  | .list => (true, p)
  | .pbx (some k) =>
    (true,
      if h : 1 ≤ k ∧ k ≤ n then { p with app := { p.app with selected := ⟨k - 1, pbx_lt h⟩ } }
      else p)
  | .pbx none => (true, p)
  | .dial number =>
    (true,
      if number = [] then p
      else
        p.enter p.app.selected (.dial (String.ofList number)) now (clock p.app.selected))
  | .answer =>
    (true,
      match p.app.findRinging with
      | some (idx, call) => p.enter idx (.answer call) now (clock idx)
      | none => p)
  | .dtmf digits =>
    (true,
      if digits = [] then p
      else
        match p.app.active with
        | some (idx, call) =>
          { p with app := p.app.commands idx (digits.map (.dtmf call)) now (clock idx) }.settle idx
            ((clock idx).drop digits.length)
        | none => p)
  | .hangup =>
    (true,
      match p.app.active with
      | some (idx, call) =>
        let p := p.enter idx (.hangup call) now (clock idx)
        { p with app := { p.app with active := none }, audio := p.audio.flush }
      | none => p)
  | .connect k =>
    (true,
      if k < 1 then p
      else
        match p.app.callsIndex[k - 1]? with
        | some (idx, call) =>
          match p.app.callState idx call with
          | some .ringing => p.enter idx (.answer call) now (clock idx)
          | some _ => p.makeActive idx call (clock idx)
          | none => p
        | none => p)
  | .unknown => (true, p)

/-! ## The main loop -/

variable (md5 : Md5)

/-- A datagram on the socket of the client `idx`. -/
def onDatagram (p : Phone G R n) (idx : Fin n) (dg : Bytes) (now : Instant)
    (clock : Stream' Instant) : Phone G R n :=
  { p with
    app := p.app.setClient idx ((p.app.client idx).handleInput md5 dg now clock.head) }.settle idx
      clock.tail

/-- The timer, or the first round: every client in turn. -/
def onTimer (p : Phone G R n) (now : Instant) (clock : Fin n → Stream' Instant) : Phone G R n :=
  (List.finRange n).foldl
    (fun p idx =>
      { p with
        app := p.app.setClient idx ((p.app.client idx).handleTimeout now (clock idx).head) }.settle
          idx (clock idx).tail) p

/-- A tick of the audio: microphone, then loudspeaker. -/
def onAudioTick (p : Phone G R n) (now : Instant) (clock : Fin n → Stream' Instant) :
    Phone G R n :=
  let (touched, p) := p.pumpMic now clock
  let p :=
    match touched with
    | some idx => { p with app := p.app.flushTx idx }
    | none => p
  p.pumpPlayout

end Phone

/-- What the program waits for: the wakeups of the main loop, and the call backs of the device. -/
inductive PhoneWakeup (n : Nat) (F : Type)
  | datagram (idx : Fin n) (dg : Bytes)
  | timer
  | audioTick
  | line (text : String)
  | rehash (idx : Fin n)
  | capture (frame : List F)
  | render (frames : Nat)
  deriving Repr

/-- A wakeup, with the readings of the clock. -/
structure PhoneRound (n : Nat) (F : Type) where
  wakeup : PhoneWakeup n F
  now : Instant := 0
  clock : Fin n → Stream' Instant := fun _ => .const 0

namespace Phone

variable {G F : Type} [F64 G] [F32 F] {R : Rubato F} {n : Nat} (md5 : Md5)

/-- The state after a round. A rehash has no effect here. -/
def apply (p : Phone G R n) (r : PhoneRound n F) : Phone G R n :=
  match r.wakeup with
  | .datagram idx dg => p.onDatagram md5 idx dg r.now (r.clock idx)
  | .timer => p.onTimer r.now r.clock
  | .audioTick => p.onAudioTick r.now r.clock
  | .line text => (p.dispatch text.toList r.now r.clock).2
  | .rehash _ => p
  | .capture frame => { p with audio := p.audio.capture frame }
  | .render frames => { p with audio := (p.audio.render frames).2 }

/-- A step of the program. -/
inductive Step : Phone G R n → PhoneRound n F → Phone G R n → Prop
  | round (p : Phone G R n) {r : PhoneRound n F} : (∀ idx, r.wakeup ≠ .rehash idx) →
      Step p r (p.apply md5 r)
  | rehash (p : Phone G R n) {r : PhoneRound n F} {idx : Fin n} {c : PbxClient} :
      r.wakeup = .rehash idx → (p.app.client idx).Reordered c →
      Step p r { p with app := p.app.setClient idx c }

/-- The softphone of some accounts, on a device. -/
def system [NeZero n] (G : Type) [F64 G] (cfgs : Vector Config n) (audio : AudioIo R) :
    System (Phone G R n) (PhoneRound n F) where
  init p := ∃ starts, p = new cfgs starts audio
  step := Step md5

end Phone

/-! ## Sample runs

The two accounts of `SoftphoneSample`, on a device. -/

namespace PhoneSample

section

variable {R : Rubato ℚ} (audio : AudioIo R)

def start : Phone ℚ R 2 := { app := SoftphoneSample.after [], audio, lastPcm := [] }

/-- The state after a list of rounds. -/
def after (rounds : List (PhoneRound 2 ℚ)) : Phone ℚ R 2 :=
  rounds.foldl (Phone.apply Sample.md5) (start audio)

/-- The transitions of a list of rounds. -/
def trace (rounds : List (PhoneRound 2 ℚ)) :
    List (Transition (Phone ℚ R 2) (PhoneRound 2 ℚ)) :=
  traceOf (Phone.apply Sample.md5) (start audio) [] rounds

theorem run (rounds : List (PhoneRound 2 ℚ))
    (wakeups : ∀ r ∈ rounds, ∀ idx, r.wakeup ≠ .rehash idx) :
    (Phone.system Sample.md5 ℚ SoftphoneSample.cfgs audio).Run (trace audio rounds)
      (after audio rounds) :=
  .traceOf (P := fun r => ∀ idx, r.wakeup ≠ .rehash idx) (fun p _ wakeup => Phone.Step.round p wakeup)
    rounds wakeups (.start ⟨_, rfl⟩)

end

/-- A datagram of the peer, at a time in milliseconds. -/
def receive (dg : Bytes) (ms : Nat) : PhoneRound 2 ℚ :=
  { wakeup := .datagram ⟨0, Nat.two_pos⟩ dg, clock := fun _ => .const (Duration.fromMillis ms) }

/-- A call comes in, it is answered, and three frames of voice are sent, of which the second one is
lost. -/
def talk : List (PhoneRound 2 ℚ) :=
  [receive Sample.newCall.encode 0, { wakeup := .line "a" },
    receive ((Sample.frame 20 1 1 Frametype.voice 4).encodeMedia [0x80, 0xFF]) 20,
    receive (MiniFrame.encode ⟨42, 60, [0x00]⟩) 60,
    { wakeup := .audioTick }, { wakeup := .audioTick }]

theorem talk_rounds : ∀ r ∈ talk, ∀ idx, r.wakeup ≠ .rehash idx := by
  simp [talk, receive]

/-- Then two blocks of silence are captured. -/
def speech : List (PhoneRound 2 ℚ) := talk ++ List.replicate 256 { wakeup := .capture [0] }

theorem speech_rounds : ∀ r ∈ speech, ∀ idx, r.wakeup ≠ .rehash idx := by
  intro r member
  rcases List.mem_append.mp member with before | captures
  · exact talk_rounds r before
  · rw [List.eq_of_mem_replicate captures]
    exact nofun

end PhoneSample

end Iax2
