import Iax2.Laws.Audio
import Iax2.Laws.G711
import Iax2.Laws.Softphone
import Iax2.Phone

/-!
# The softphone with its audio refines the driver

The audio follows the driver and never leads it: without it, a run of the whole program is a run of
`App`, in which a tick of the audio gets the frames that the device had ready, encoded (`app_run`).
So what is proved of the driver is true of the program.
-/

namespace Iax2

namespace Phone

variable {G F : Type} {R : Rubato F} {n : Nat}

/-! ## The driver within -/

section

variable [F64 G] (p : Phone G R n) (idx : Fin n)

@[simp] theorem makeActive_app (call : UInt16) (clock : Stream' Instant) :
    (p.makeActive idx call clock).app = p.app.makeActive idx call clock := rfl

@[simp] theorem handleEvent_app (clock : Stream' Instant) (ev : Event) :
    (p.handleEvent idx clock ev).app = p.app.handleEvent idx clock ev := by
  cases ev <;> rfl

/-- The driver with the oldest event of a client taken. -/
def popEvent : Phone G R n := { p with app := p.app.popEvent idx }

/-- One round of the loop. -/
theorem eventLoop_succ {ev : Event} {events : List Event} (clock : Stream' Instant) (fuel : Nat)
    (queue : (p.app.client idx).events = ev :: events) :
    eventLoop idx (fuel + 1) clock p =
      eventLoop idx fuel (clock.drop 3) ((p.popEvent idx).handleEvent idx clock ev) := by
  simp only [eventLoop, popEvent, App.popEvent, PbxClient.pollEvent, queue, List.head?_cons]

/-- What every round of the loop keeps, the loop keeps. -/
theorem eventLoop_induction {P : Phone G R n → Prop} {p : Phone G R n} (clock : Stream' Instant)
    (fuel : Nat) (start : P p)
    (round : ∀ (q : Phone G R n) clock ev events, (q.app.client idx).events = ev :: events → P q →
      P ((q.popEvent idx).handleEvent idx clock ev)) : P (eventLoop idx fuel clock p) := by
  induction fuel generalizing p clock with
  | zero => exact start
  | succ fuel ih =>
    cases queue : (p.app.client idx).events with
    | nil =>
      simp only [eventLoop, PbxClient.pollEvent, queue, List.head?_nil]
      exact start
    | cons ev events =>
      rw [eventLoop_succ p idx clock fuel queue]
      exact ih (clock.drop 3) (round p clock ev events queue start)

@[simp] theorem eventLoop_app (clock : Stream' Instant) (fuel : Nat) :
    (eventLoop idx fuel clock p).app = App.eventLoop idx fuel clock p.app := by
  induction fuel generalizing p clock with
  | zero => rfl
  | succ fuel ih =>
    cases queue : (p.app.client idx).events with
    | nil => simp only [eventLoop, App.eventLoop, PbxClient.pollEvent, queue, List.head?_nil]
    | cons ev events =>
      rw [eventLoop_succ p idx clock fuel queue, App.eventLoop_succ clock fuel queue, ih,
        handleEvent_app]
      rfl

@[simp] theorem settle_app (clock : Stream' Instant) :
    (p.settle idx clock).app = p.app.settle idx clock := eventLoop_app _ idx clock _

@[simp] theorem enter_app (cmd : Command) (now : Instant) (clock : Stream' Instant) :
    (p.enter idx cmd now clock).app = p.app.enter idx cmd now clock := settle_app _ idx clock.tail

end

@[simp] theorem pumpPlayout_app [F32 F] (p : Phone G R n) :
    p.pumpPlayout.app = p.app.pumpPlayout.2 := by
  rw [pumpPlayout]
  split
  next played => rw [played]
  next concealed =>
    rw [concealed]
    split <;> rfl
  next other => rw [other]

variable [F64 G]

/-- A line of the keyboard does to the driver what it does without the audio. -/
theorem dispatch_app (p : Phone G R n) (line : List Char) (now : Instant)
    (clock : Fin n → Stream' Instant) :
    (p.dispatch line now clock).2.app = (p.app.dispatch line now clock).2 := by
  cases key : Key.parse line with
  | pbx k =>
    cases k with
    | none => simp only [dispatch, App.dispatch, key]
    | some k =>
      simp only [dispatch, App.dispatch, key]
      split <;> rfl
  | dial number =>
    simp only [dispatch, App.dispatch, key]
    split
    · rfl
    · exact enter_app ..
  | answer =>
    simp only [dispatch, App.dispatch, key]
    cases p.app.findRinging with
    | none => rfl
    | some c => exact enter_app p c.1 _ now _
  | dtmf digits =>
    simp only [dispatch, App.dispatch, key]
    split
    · rfl
    · cases p.app.active with
      | none => rfl
      | some c => exact settle_app _ c.1 _
  | hangup =>
    simp only [dispatch, App.dispatch, key]
    cases p.app.active with
    | none => rfl
    | some c => exact congrArg (fun a : App G n => { a with active := none }) (enter_app p c.1 _ now _)
  | connect k =>
    simp only [dispatch, App.dispatch, key]
    split
    · rfl
    · cases p.app.callsIndex[k - 1]? with
      | none => rfl
      | some c =>
        dsimp only
        cases p.app.callState c.1 c.2 with
        | none => rfl
        | some state =>
          cases state with
          | ringing => exact enter_app p c.1 _ now _
          | _ => rfl
  | _ => simp only [dispatch, App.dispatch, key]

theorem onTimer_app (p : Phone G R n) (now : Instant) (clock : Fin n → Stream' Instant) :
    (p.onTimer now clock).app = p.app.onTimer now clock := by
  rw [onTimer, App.onTimer]
  generalize List.finRange n = l
  induction l generalizing p with
  | nil => rfl
  | cons idx l ih =>
    rw [List.foldl_cons, List.foldl_cons, ih, settle_app]

variable [F32 F]

/-- The frames that the device has ready, encoded. -/
def micFrames (p : Phone G R n) : List Bytes :=
  (p.audio.takeFrames8k frameSamples).1.map (G711.encodeBlock · [])

omit [F64 G] in
theorem onAudioTick_app (p : Phone G R n) (now : Instant) (clock : Fin n → Stream' Instant) :
    (p.onAudioTick now clock).app = p.app.onAudioTick p.micFrames now clock := by
  rw [onAudioTick, App.onAudioTick]
  cases active : p.app.active with
  | none =>
    have driver : p.app.pumpMic p.micFrames now clock = (none, p.app) := by
      rw [App.pumpMic, active]
    have mic : p.pumpMic now clock = (none, p) := by
      rw [pumpMic, active]
    rw [mic, driver, pumpPlayout_app]
  | some c =>
    have mic : p.pumpMic now clock = ((p.app.pumpMic p.micFrames now clock).1,
        { p with
          app := (p.app.pumpMic p.micFrames now clock).2
          audio := (p.audio.takeFrames8k frameSamples).2 }) := by
      simp only [pumpMic, active, micFrames]
    rw [mic]
    obtain ⟨touched, a⟩ := p.app.pumpMic p.micFrames now clock
    cases touched with
    | none => exact pumpPlayout_app (F := F) _
    | some idx => exact pumpPlayout_app (F := F) _

/-- The round of the driver within a round of the program. The call backs of the device are none. -/
def round (p : Phone G R n) (r : PhoneRound n F) : Option (Round n) :=
  match r.wakeup with
  | .datagram idx dg => some ⟨.datagram idx dg, r.now, r.clock⟩
  | .timer => some ⟨.timer, r.now, r.clock⟩
  | .audioTick => some ⟨.audioTick p.micFrames, r.now, r.clock⟩
  | .line text => some ⟨.line text, r.now, r.clock⟩
  | .rehash idx => some ⟨.rehash idx, r.now, r.clock⟩
  | .capture _ => none
  | .render _ => none

variable {md5 : Md5}

/-- A step of the program is a step of the driver, or changes nothing of it. -/
theorem Step.app {p q : Phone G R n} {r : PhoneRound n F} (step : Step md5 p r q) :
    (∃ r', p.round r = some r' ∧ App.Step md5 p.app r' q.app) ∨
      p.round r = none ∧ q.app = p.app := by
  cases step with
  | round other =>
    have driver {wakeup : Wakeup n} (named : p.round r = some ⟨wakeup, r.now, r.clock⟩)
        (here : ∀ idx, wakeup ≠ .rehash idx)
        (same : (p.apply md5 r).app = p.app.apply md5 ⟨wakeup, r.now, r.clock⟩) :
        ∃ r', p.round r = some r' ∧ App.Step md5 p.app r' (p.apply md5 r).app :=
      ⟨_, named, same ▸ App.Step.round p.app here⟩
    rcases r with ⟨wakeup, now, clock⟩
    cases wakeup with
    | datagram idx dg => exact .inl (driver rfl nofun (settle_app _ idx _))
    | timer => exact .inl (driver rfl nofun (onTimer_app p now clock))
    | audioTick => exact .inl (driver rfl nofun (onAudioTick_app p now clock))
    | line text => exact .inl (driver rfl nofun (dispatch_app p text.toList now clock))
    | rehash idx => exact absurd rfl (other idx)
    | capture frame => exact .inr ⟨rfl, rfl⟩
    | render frames => exact .inr ⟨rfl, rfl⟩
  | @rehash idx c wakeup reordered =>
    rcases r with ⟨_, now, clock⟩
    cases wakeup
    exact .inl ⟨_, rfl, .rehash p.app rfl reordered⟩

/-! ## The device within -/

/-- The device gets from one state to the other by steps of its own. -/
def Plays (a b : AudioIo R) : Prop := ∃ ops : List (AudioOp F), b = a.applyAll ops

omit [F64 G] in
theorem Plays.refl (a : AudioIo R) : Plays a a := ⟨[], rfl⟩

theorem Plays.op (a : AudioIo R) (op : AudioOp F) : Plays a (a.apply op) := ⟨[op], rfl⟩

theorem Plays.trans {a b c : AudioIo R} (h : Plays a b) (h' : Plays b c) : Plays a c := by
  obtain ⟨ops, rfl⟩ := h
  obtain ⟨ops', rfl⟩ := h'
  exact ⟨ops ++ ops', (List.foldl_append ..).symm⟩

theorem handleEvent_plays (p : Phone G R n) (idx : Fin n) (clock : Stream' Instant) (ev : Event) :
    Plays p.audio (p.handleEvent idx clock ev).audio := by
  cases ev with
  | answered call => exact .op p.audio .flush
  | ended call reason =>
    show Plays p.audio (if p.app.active = some (idx, call) then p.audio.flush else p.audio)
    split
    · exact .op p.audio .flush
    · exact .refl p.audio
  | _ => exact .refl p.audio

theorem settle_plays (p : Phone G R n) (idx : Fin n) (clock : Stream' Instant) :
    Plays p.audio (p.settle idx clock).audio :=
  eventLoop_induction (P := fun q => Plays p.audio q.audio) idx clock _ (.refl p.audio)
    fun q clock ev _ _ h => h.trans ((q.popEvent idx).handleEvent_plays idx clock ev)

theorem enter_plays (p : Phone G R n) (idx : Fin n) (cmd : Command) (now : Instant)
    (clock : Stream' Instant) : Plays p.audio (p.enter idx cmd now clock).audio :=
  settle_plays { p with app := p.app.command idx cmd now clock.head } idx clock.tail

theorem dispatch_plays (p : Phone G R n) (line : List Char) (now : Instant)
    (clock : Fin n → Stream' Instant) : Plays p.audio (p.dispatch line now clock).2.audio := by
  rw [dispatch]
  split
  next => exact .refl _
  next => exact .refl _
  next =>
    dsimp only
    split <;> exact .refl _
  next => exact .refl _
  next =>
    dsimp only
    split
    · exact .refl _
    · exact enter_plays ..
  next =>
    dsimp only
    split
    · exact enter_plays ..
    · exact .refl _
  next =>
    dsimp only
    split
    · exact .refl _
    · split
      · exact settle_plays _ _ _
      · exact .refl _
  next =>
    dsimp only
    split
    · exact (enter_plays ..).trans (.op _ .flush)
    · exact .refl _
  next =>
    dsimp only
    split
    · exact .refl _
    · split
      · split
        · exact enter_plays ..
        · exact .op p.audio .flush
        · exact .refl _
      · exact .refl _
  next => exact .refl _

theorem onTimer_plays (p : Phone G R n) (now : Instant) (clock : Fin n → Stream' Instant) :
    Plays p.audio (p.onTimer now clock).audio := by
  rw [onTimer]
  generalize List.finRange n = l
  induction l generalizing p with
  | nil => exact .refl _
  | cons idx l ih =>
    rw [List.foldl_cons]
    refine .trans ?_ (ih _)
    exact settle_plays _ idx (clock idx).tail

omit [F64 G] in
theorem pumpPlayout_plays (p : Phone G R n) : Plays p.audio p.pumpPlayout.audio := by
  rw [pumpPlayout]
  split
  next => exact .op p.audio (.playPcm _)
  next =>
    split
    · exact .op p.audio (.playPcm _)
    · exact .refl _
  next => exact .refl _

omit [F64 G] in
theorem onAudioTick_plays (p : Phone G R n) (now : Instant) (clock : Fin n → Stream' Instant) :
    Plays p.audio (p.onAudioTick now clock).audio := by
  have mic : Plays p.audio (p.pumpMic now clock).2.audio := by
    rw [pumpMic]
    split
    · exact .op p.audio .takeFrames
    · exact .refl _
  rw [onAudioTick]
  refine mic.trans ?_
  obtain ⟨touched, q⟩ := p.pumpMic now clock
  cases touched with
  | none => exact pumpPlayout_plays q
  | some idx => exact pumpPlayout_plays { q with app := q.app.flushTx idx }

/-- A step of the program is a list of steps of the device. -/
theorem Step.plays {p q : Phone G R n} {r : PhoneRound n F} (step : Step md5 p r q) :
    Plays p.audio q.audio := by
  cases step with
  | round other =>
    rcases r with ⟨wakeup, now, clock⟩
    cases wakeup with
    | datagram idx dg => exact settle_plays _ idx (clock idx).tail
    | timer => exact onTimer_plays p now clock
    | audioTick => exact onAudioTick_plays p now clock
    | line text => exact dispatch_plays p text.toList now clock
    | rehash idx => exact .refl _
    | capture frame => exact .op p.audio (.capture frame)
    | render frames => exact .op p.audio (.render frames)
  | rehash _ _ => exact .refl _

variable [NeZero n] {cfgs : Vector Config n} {audio : AudioIo R}
  {past : List (Transition (Phone G R n) (PhoneRound n F))} {p : Phone G R n}

/-- The driver within a run of the program makes a run of its own. -/
theorem app_run (run : (system md5 G cfgs audio).Run past p) :
    ∃ past', (App.system md5 G cfgs).Run past' p.app := by
  induction run with
  | start init =>
    obtain ⟨starts, rfl⟩ := init
    exact ⟨[], .start ⟨starts, rfl⟩⟩
  | step _ step ih =>
    obtain ⟨past', run⟩ := ih
    rcases step.app with ⟨r', _, driver⟩ | ⟨_, same⟩
    · exact ⟨_, .step run driver⟩
    · exact ⟨past', same ▸ run⟩

/-- The device within a run of the program makes a run of its own. -/
theorem audio_run {inRate outRate : UInt32} {inCh outCh : UInt16}
    (made : AudioIo.new R inRate inCh outRate outCh = some audio)
    (run : (system md5 G cfgs audio).Run past p) :
    ∃ past', (AudioIo.system R inRate inCh outRate outCh).Run past' p.audio := by
  induction run with
  | start init =>
    obtain ⟨starts, rfl⟩ := init
    exact ⟨[], .start made⟩
  | step _ step ih =>
    obtain ⟨past', run⟩ := ih
    obtain ⟨ops, plays⟩ := step.plays
    rw [plays]
    exact ⟨_, run.traceOf (P := fun _ => True) (fun _ _ _ => rfl) ops fun _ _ => trivial⟩

/-- The program refines the driver and the device. Without the audio, a step of it is a step of the
driver, in which a tick gets the frames that the device had ready, encoded; without the driver, it is
a list of steps of the device. So in every run both make runs of their own. -/
theorem refines {inRate outRate : UInt32} {inCh outCh : UInt16}
    (made : AudioIo.new R inRate inCh outRate outCh = some audio)
    (run : (system md5 G cfgs audio).Run past p) :
    (∃ past', (App.system md5 G cfgs).Run past' p.app) ∧
      (∃ past', (AudioIo.system R inRate inCh outRate outCh).Run past' p.audio) ∧
      ∀ r q, Step md5 p r q →
        ((∃ r', p.round r = some r' ∧ App.Step md5 p.app r' q.app) ∨
          p.round r = none ∧ q.app = p.app) ∧ Plays p.audio q.audio :=
  ⟨app_run run, audio_run made run, fun _ _ step => ⟨step.app, step.plays⟩⟩

theorem refines_sample :
    (∃ past, (App.system Sample.md5 ℚ SoftphoneSample.cfgs).Run past
      (PhoneSample.after AudioIo.Sample.device PhoneSample.talk).app) ∧
    ∃ past, (AudioIo.system AudioIo.Sample.silence 8000 1 8000 1).Run past
      (PhoneSample.after AudioIo.Sample.device PhoneSample.talk).audio :=
  have made : AudioIo.new AudioIo.Sample.silence 8000 1 8000 1 = some AudioIo.Sample.device := rfl
  have refined := refines made
    (PhoneSample.run AudioIo.Sample.device PhoneSample.talk PhoneSample.talk_rounds)
  ⟨refined.1, refined.2.1⟩

/-- What a tick sends in any run is voice of the active call, which is up: the bytes of a frame of 160
samples that the device had ready. Who decodes them gets each sample to within one part in 32 of its
biased magnitude. -/
theorem microphone_run (run : (system md5 G cfgs audio).Run past p) (now : Instant)
    (clock : Fin n → Stream' Instant) :
    ∀ e ∈ (p.onAudioTick now clock).app.sent.drop p.app.sent.length,
      ∃ k, p.app.callState e.1 k = some .up ∧ p.app.active = some (e.1, k) ∧
        ∃ pcm ∈ (p.audio.takeFrames8k frameSamples).1,
          (PbxClient.FullVoice k (G711.encodeBlock pcm []) e.2 ∨
            PbxClient.MiniVoice k (G711.encodeBlock pcm []) e.2) ∧
          pcm.length = frameSamples ∧
          List.Forall₂ G711.Near pcm (G711.decodeBlock (G711.encodeBlock pcm []) []) := by
  obtain ⟨_, driver⟩ := app_run run
  intro e member
  rw [onAudioTick_app] at member
  obtain ⟨k, up, payload, ready, voice⟩ := App.onAudioTick_sent driver _ now clock e member
  obtain ⟨pcm, frame, rfl⟩ := List.mem_map.mp ready
  exact ⟨k, up, (App.settled_run driver).up e.1 k up, pcm, frame, voice,
    AudioIo.length_of_frame frame, G711.block_near pcm⟩

/-- A frame of silence is sent. -/
theorem microphone_sample :
    let p := PhoneSample.after AudioIo.Sample.device PhoneSample.speech
    ∃ e ∈ (p.onAudioTick 0 fun _ => .const 0).app.sent.drop p.app.sent.length,
      ∃ k, p.app.active = some (e.1, k) := by
  intro p
  obtain ⟨e, member⟩ := List.exists_mem_of_ne_nil
    ((p.onAudioTick 0 fun _ => .const 0).app.sent.drop p.app.sent.length) (by decide +kernel)
  obtain ⟨k, _, active, _⟩ := microphone_run
    (PhoneSample.run AudioIo.Sample.device PhoneSample.speech PhoneSample.speech_rounds) 0
    (fun _ => .const 0) e member
  exact ⟨e, member, k, active⟩

end Phone

end Iax2
