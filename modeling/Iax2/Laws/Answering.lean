import Iax2.Laws.Audio
import Iax2.Laws.Regdaemon

/-!
# The calls of the registration daemon

A call lasts from the NEW that the daemon answers to the HANGUP that is handled on its leg
(`session`). The invariant of a run is that the daemon is in a call in the sessions only, that its
device is where the steps since the beginning lead (`deviceOps`), and that the datagrams of the audio
ticks say the frames that these steps took (`Consistent`). With the law of the microphone it says
what the other end gets to hear (`says_what_was_captured`).
-/

namespace Iax2.Regdaemon

open Blocks (blocks)
open StreamResampler (Succeeds processed)

variable {F : Type} {R : Rubato F}

/-! ## What is said -/

section

/-- The datagrams say the frames: the first one in a full VOICE frame, that names the format, and the
rest in mini frames. -/
def Speech : List (List Int16) → List Bytes → Prop
  | [], dgs => dgs = []
  | pcm :: said, dgs =>
    ∃ remote ts iseq minis,
      dgs = (FullFrame.new callLocalCall remote ts 2 iseq Frametype.voice Format.ulaw.toUInt8
        []).encodeMedia (G711.encodeBlock pcm []) :: minis ∧
      List.Forall₂ (fun pcm dg => ∃ ts, dg =
        MiniFrame.encode ⟨callLocalCall, ts, G711.encodeBlock pcm []⟩) said minis

/-- The call has said these frames, in these datagrams. The ACCEPT and the ANSWER have taken the
numbers 0 and 1, and the VOICE frame takes the last one. -/
structure Talking (c : Call) (said : List (List Int16)) (dgs : List Bytes) : Prop where
  localNo : c.leg.localNo = callLocalCall
  answered : c.answered = true
  oseq : c.leg.oseq = if c.sentFormat then 3 else 2
  format : c.sentFormat = true ↔ said ≠ []
  speech : Speech said dgs

variable {d : Regdaemon R} {c : Call} {said : List (List Int16)} {dgs : List Bytes}

theorem Talking.sayFrame (h : Talking c said dgs) (pcm : List Int16) (clock : Instant) :
    Talking (d.sayFrame c pcm clock).2 (said ++ [pcm]) (dgs ++ [(d.sayFrame c pcm clock).1]) := by
  unfold Regdaemon.sayFrame
  cases format : c.sentFormat with
  | false =>
    have first : said = [] := by simpa [format] using h.format
    subst first
    have silent : dgs = [] := h.speech
    have oseq : c.leg.oseq = 2 := by rw [h.oseq, format]; rfl
    subst silent
    refine ⟨h.localNo, h.answered, ?_, by simp, ?_⟩
    · simp [Leg.full, oseq]
    · refine ⟨c.leg.remote, d.ts clock, c.leg.iseq, [], ?_, .nil⟩
      simp [Leg.full, oseq, h.localNo]
  | true =>
    have later := h.format.mp format
    cases said with
    | nil => exact absurd rfl later
    | cons first said =>
      obtain ⟨remote, ts, iseq, minis, rfl, rest⟩ := h.speech
      refine ⟨h.localNo, h.answered, ?_, by simp [format], ?_⟩
      · simp [h.oseq, format]
      · refine ⟨remote, ts, iseq, minis ++ [_], rfl, List.rel_append rest (.cons ?_ .nil)⟩
        exact ⟨(d.ts clock).toUInt16, by simp [h.localNo]⟩

theorem Talking.sayLoop (h : Talking c said dgs) (frames : List (List Int16))
    (clock : Stream' Instant) :
    Talking (d.sayLoop frames clock c).2 (said ++ frames)
      (dgs ++ (d.sayLoop frames clock c).1) := by
  induction frames generalizing clock c said dgs with
  | nil => simpa [Regdaemon.sayLoop] using h
  | cons pcm frames ih =>
    have rest := ih (h.sayFrame (d := d) pcm clock.head) clock.tail
    simpa [Regdaemon.sayLoop] using rest

end

/-! ## Sessions -/

section

variable [F32 F] {md5 : Md5} {d : Regdaemon R} {r : Round F}

/-- A call comes in, and is answered. -/
def begins (t : Move R) : Bool :=
  (arrival t.label).any fun f => t.pre.route f = .newCall

/-- The other end hangs up. -/
def ends (t : Move R) : Bool :=
  (arrival t.label).any fun f =>
    match t.pre.route f with
    | .call _ => callKind f = .hangup
    | _ => false

/-- What a round does to the device. -/
def deviceOps (t : Move R) : List (AudioOp F) :=
  match t.label.wakeup with
  | .audioTick => if t.pre.call.any (·.answered) then [.takeFrames] else []
  | .datagram dg =>
    match FullFrame.decode dg with
    | some f =>
      match t.pre.route f with
      | .newCall => [.flush]
      | .call _ =>
        match callKind f with
        | .voice => [.playUlaw f.mediaPayload]
        | .hangup => [.flush]
        | _ => []
      | _ => []
    | none =>
      if isFullFrame dg then []
      else
        match t.pre.call, MiniFrame.decode dg with
        | some _, some m => [.playUlaw m.payload]
        | _, _ => []
  | .capture frame => [.capture frame]
  | .render frames => [.render frames]
  | _ => []

/-- The device as the call found it, flushed, and what was done with it since. -/
def session : List (Move R) → Option (AudioIo R × List (AudioOp F))
  | [] => none
  | t :: past =>
    if begins t then some (t.pre.audio.flush, [])
    else if ends t then none
    else (session past).map fun s => (s.1, s.2 ++ deviceOps t)

/-- The datagrams of the audio ticks since the last call began. -/
def spoken : List (Move R) → List Bytes
  | [] => []
  | t :: past =>
    if begins t then []
    else
      match t.label.wakeup with
      | .audioTick => spoken past ++ newly t
      | _ => spoken past

/-- The state, after a session. -/
structure InSession (d : Regdaemon R) (s : AudioIo R × List (AudioOp F)) (dgs : List Bytes) :
    Prop where
  call : ∃ c, d.call = some c ∧ Talking c (s.1.takenAll s.2) dgs
  audio : d.audio = s.1.applyAll s.2

/-- There is a call in a session, and only then. -/
def Consistent (d : Regdaemon R) (past : List (Move R)) : Prop :=
  match session past with
  | some s => d.InSession s (spoken past)
  | none => d.call = none

/-! ## What a round does to the device and to the call -/

omit [F32 F] in
theorem arrival_eq_none (other : ∀ dg, r.wakeup ≠ .datagram dg) : arrival r = none := by
  unfold arrival
  split
  next dg wakeup => exact absurd wakeup (other dg)
  next => rfl

omit [F32 F] in
@[simp] theorem settle_audio (f : FullFrame) : (d.settle f).audio = d.audio := by
  unfold settle
  split <;> rfl

omit [F32 F] in
@[simp] theorem settle_call (f : FullFrame) : (d.settle f).call = d.call := by
  unfold settle
  split <;> rfl

omit [F32 F] in
theorem onReg_same (f : FullFrame) (clock : Stream' Instant) :
    (d.onReg f md5 clock).call = d.call ∧ (d.onReg f md5 clock).audio = d.audio := by
  unfold onReg
  dsimp only
  split
  · split
    · exact ⟨rfl, rfl⟩
    · split <;> exact ⟨rfl, rfl⟩
  all_goals exact ⟨rfl, rfl⟩

omit [F32 F] in
theorem onHouse_same (clock : Stream' Instant) :
    (d.onHouse clock).call = d.call ∧ (d.onHouse clock).audio = d.audio := by
  have repeated (e : Regdaemon R) :
      (e.retransmit clock).call = e.call ∧ (e.retransmit clock).audio = e.audio := by
    unfold retransmit
    split
    · split
      · split <;> exact ⟨rfl, rfl⟩
      · exact ⟨rfl, rfl⟩
    · exact ⟨rfl, rfl⟩
  unfold onHouse register
  split
  · exact repeated _
  · exact repeated d

/-- What a frame does to the device. -/
theorem onFull_audio (f : FullFrame) (clock : Stream' Instant) :
    (d.onFull f md5 clock).audio = d.audio.applyAll
      (match d.route f with
        | .newCall => [.flush]
        | .call _ =>
          match callKind f with
          | .voice => [.playUlaw f.mediaPayload]
          | .hangup => [.flush]
          | _ => []
        | _ => []) := by
  unfold onFull
  cases d.route f with
  | reg => exact (onReg_same f clock).2
  | call c =>
    dsimp only
    unfold onCall
    cases callKind f <;> rfl
  | _ => rfl

/-- The device does in a round what `deviceOps` lists. -/
theorem apply_audio (d : Regdaemon R) (md5 : Md5) (r : Round F) :
    (d.apply md5 r).audio = d.audio.applyAll (deviceOps ⟨d, r, d.apply md5 r⟩) := by
  unfold apply deviceOps
  cases wakeup : r.wakeup with
  | audioTick =>
    dsimp only
    unfold onAudioTick
    cases d.call with
    | none => rfl
    | some c =>
      dsimp only [Option.any_some]
      split <;> rfl
  | keepalive =>
    dsimp only
    unfold onKeepalive
    split <;> rfl
  | house =>
    exact (onHouse_same r.clock).2
  | datagram dg =>
    dsimp only
    cases decoded : FullFrame.decode dg with
    | some f =>
      dsimp only
      rw [onDatagram_full md5 r.clock decoded, onFull_audio, settle_audio, settle_route]
    | none =>
      rw [onDatagram, decoded]
      dsimp only
      split
      · rfl
      · cases d.call <;> cases MiniFrame.decode dg <;> rfl
  | recvError => rfl
  | capture frame => rfl
  | render frames => rfl

/-- What was said in the call stays said. -/
def GoesOn (c c' : Call) : Prop := ∀ said dgs, Talking c said dgs → Talking c' said dgs

omit [F32 F] in
theorem goesOn_refl (call : Option Call) : Option.Rel GoesOn call call := by
  cases call with
  | none => exact .none
  | some c => exact .some fun _ _ talking => talking

/-- Where a frame neither begins nor ends the call, the call goes on. -/
theorem onFull_call (d : Regdaemon R) (md5 : Md5) (f : FullFrame) (clock : Stream' Instant) :
    match d.route f with
    | .newCall => ∃ c, (d.onFull f md5 clock).call = some c ∧ Talking c [] []
    | .call _ =>
      if callKind f = .hangup then (d.onFull f md5 clock).call = none
      else Option.Rel GoesOn d.call (d.onFull f md5 clock).call
    | _ => Option.Rel GoesOn d.call (d.onFull f md5 clock).call := by
  unfold onFull
  cases route : d.route f with
  | reg =>
    dsimp only
    rw [(onReg_same f clock).1]
    exact goesOn_refl d.call
  | call c =>
    have noted : GoesOn c { c with leg := c.leg.noteRecv f } :=
      fun _ _ h => ⟨h.localNo, h.answered, h.oseq, h.format, h.speech⟩
    dsimp only
    rw [(route_call route).1]
    unfold onCall
    cases callKind f with
    | hangup => rfl
    | _ => exact .some noted
  | newCall => exact ⟨_, rfl, rfl, rfl, rfl, by simp, rfl⟩
  | _ => exact goesOn_refl d.call

/-- Frames are taken in the ticks of the audio. -/
theorem takenAll_deviceOps (t : Move R) (other : t.label.wakeup ≠ .audioTick) (a : AudioIo R) :
    a.takenAll (deviceOps t) = [] := by
  unfold deviceOps
  split
  next tick => exact absurd tick other
  next =>
    split
    · split
      · rfl
      · split <;> rfl
      · rfl
    · split
      · rfl
      · split <;> rfl
  all_goals rfl

/-! ## Runs -/

variable {past : List (Move R)}

theorem InSession.continue {t : Move R} {s : AudioIo R × List (AudioOp F)} {dgs : List Bytes}
    (h : t.pre.InSession s dgs) (other : t.label.wakeup ≠ .audioTick)
    (call : Option.Rel GoesOn t.pre.call t.post.call)
    (audio : t.post.audio = t.pre.audio.applyAll (deviceOps t)) :
    t.post.InSession (s.1, s.2 ++ deviceOps t) dgs := by
  obtain ⟨c, here, talking⟩ := h.call
  rw [here] at call
  cases after : t.post.call with
  | none =>
    rw [after] at call
    cases call
  | some c' =>
    rw [after] at call
    cases call with
    | some goesOn =>
      refine ⟨⟨c', after, goesOn _ _ ?_⟩, ?_⟩
      · dsimp only
        rw [AudioIo.takenAll_append, takenAll_deviceOps t other, List.append_nil]
        exact talking
      · rw [audio, h.audio]
        exact (List.foldl_append ..).symm

/-- A round that is no tick of the audio and neither begins nor ends a call. -/
theorem Consistent.continue {t : Move R} (h : t.pre.Consistent past)
    (other : t.label.wakeup ≠ .audioTick) (begins : begins t = false) (ends : ends t = false)
    (call : Option.Rel GoesOn t.pre.call t.post.call)
    (audio : t.post.audio = t.pre.audio.applyAll (deviceOps t)) :
    t.post.Consistent (t :: past) := by
  have said : spoken (t :: past) = spoken past := by
    rw [spoken, begins]
    cases wakeup : t.label.wakeup with
    | audioTick => exact absurd wakeup other
    | _ => rfl
  unfold Consistent at h ⊢
  rw [session, begins, ends, said]
  cases before : session past with
  | none =>
    rw [before] at h
    rw [show t.pre.call = none from h] at call
    cases after : t.post.call with
    | none => rfl
    | some c' =>
      rw [after] at call
      cases call
  | some s =>
    rw [before] at h
    exact h.continue other call audio

omit [F32 F] in
theorem session_tick (past : List (Move R)) {t : Move R} (tick : t.label.wakeup = .audioTick) :
    session (t :: past) = (session past).map (fun s => (s.1, s.2 ++ deviceOps t)) ∧
      spoken (t :: past) = spoken past ++ newly t := by
  have silent : arrival t.label = none := arrival_eq_none fun dg => by simp [tick]
  constructor
  · rw [session, begins, ends, silent]
    rfl
  · rw [spoken, begins, silent, tick]
    rfl

omit [F32 F] in
theorem deviceOps_tick {t : Move R} (tick : t.label.wakeup = .audioTick) {c : Call}
    (call : t.pre.call = some c) {said : List (List Int16)} {dgs : List Bytes}
    (talking : Talking c said dgs) :
    deviceOps t = [.takeFrames] := by
  simp [deviceOps, tick, call, talking.answered]

/-- A tick of the audio. -/
theorem Consistent.tick (h : d.Consistent past) (md5 : Md5) (r : Round F)
    (tick : r.wakeup = .audioTick) :
    (d.apply md5 r).Consistent (⟨d, r, d.apply md5 r⟩ :: past) := by
  have audio := d.apply_audio md5 r
  have next := session_tick past (t := ⟨d, r, d.apply md5 r⟩) tick
  unfold Consistent at h ⊢
  rw [next.1, next.2]
  cases before : session past with
  | none =>
    rw [before] at h
    show (d.apply md5 r).call = none
    have none : d.call = none := h
    simp [Regdaemon.apply, tick, onAudioTick, none]
  | some s =>
    rw [before] at h
    obtain ⟨⟨c, call, talking⟩, device⟩ := h
    have ops : deviceOps ⟨d, r, d.apply md5 r⟩ = [.takeFrames] := deviceOps_tick tick call talking
    have after : d.apply md5 r =
        { d with
          audio := (d.audio.takeFrames8k frameSamples).2
          call := some (d.sayLoop (d.audio.takeFrames8k frameSamples).1 r.clock c).2
          sent := d.sent ++ (d.sayLoop (d.audio.takeFrames8k frameSamples).1 r.clock c).1 } := by
      simp [Regdaemon.apply, tick, onAudioTick, call, talking.answered]
    have frames : s.1.takenAll (s.2 ++ [.takeFrames]) =
        s.1.takenAll s.2 ++ (d.audio.takeFrames8k frameSamples).1 := by
      rw [AudioIo.takenAll_append, device]
      simp [AudioIo.takenAll, AudioIo.taken]
    have said : newly ⟨d, r, d.apply md5 r⟩ =
        (d.sayLoop (d.audio.takeFrames8k frameSamples).1 r.clock c).1 := by
      rw [newly, after, List.drop_left]
    refine ⟨⟨_, by rw [after], ?_⟩, ?_⟩
    · dsimp only
      rw [ops, frames, said]
      exact talking.sayLoop _ r.clock
    · rw [audio, ops, device]
      exact (List.foldl_append ..).symm

/-- A full frame arrives. -/
theorem Consistent.arrives (h : d.Consistent past) (md5 : Md5) (r : Round F) {dg : Bytes}
    {f : FullFrame} (wakeup : r.wakeup = .datagram dg) (decoded : FullFrame.decode dg = some f) :
    (d.apply md5 r).Consistent (⟨d, r, d.apply md5 r⟩ :: past) := by
  have audio := d.apply_audio md5 r
  have here : arrival r = some f := by simp [arrival, wakeup, decoded]
  have after : d.apply md5 r = (d.settle f).onFull f md5 r.clock := by
    simp [Regdaemon.apply, wakeup, onDatagram_full md5 r.clock decoded]
  have call := (d.settle f).onFull_call md5 f r.clock
  rw [← after, settle_route, settle_call] at call
  have other : r.wakeup ≠ .audioTick := by simp [wakeup]
  cases route : d.route f with
  | newCall =>
    rw [route] at call
    have begins : begins ⟨d, r, d.apply md5 r⟩ = true := by simp [begins, here, route]
    have flushed : deviceOps ⟨d, r, d.apply md5 r⟩ = [.flush] := by
      simp [deviceOps, wakeup, decoded, route]
    unfold Consistent
    rw [session, spoken, begins]
    exact ⟨call, by rw [audio, flushed]; rfl⟩
  | call c =>
    rw [route] at call
    have begins : begins ⟨d, r, d.apply md5 r⟩ = false := by simp [begins, here, route]
    by_cases hangup : callKind f = .hangup
    · have ends : ends ⟨d, r, d.apply md5 r⟩ = true := by simp [ends, here, route, hangup]
      unfold Consistent
      rw [session, begins, ends]
      simpa [hangup] using call
    · refine h.continue other begins ?_ (by simpa [hangup] using call) audio
      simp [ends, here, route, hangup]
  | _ =>
    rw [route] at call
    exact h.continue other (by simp [begins, here, route]) (by simp [ends, here, route]) call audio

theorem Consistent.apply (h : d.Consistent past) (md5 : Md5) (r : Round F) :
    (d.apply md5 r).Consistent (⟨d, r, d.apply md5 r⟩ :: past) := by
  have audio := d.apply_audio md5 r
  -- a round in which no full frame arrives leaves the call alone
  have quiet (none : arrival r = none) (other : r.wakeup ≠ .audioTick)
      (same : (d.apply md5 r).call = d.call) :
      (d.apply md5 r).Consistent (⟨d, r, d.apply md5 r⟩ :: past) := by
    refine h.continue other ?_ ?_ (same ▸ goesOn_refl d.call) audio
    · rw [begins, none]
      rfl
    · rw [ends, none]
      rfl
  cases wakeup : r.wakeup with
  | audioTick => exact h.tick md5 r wakeup
  | datagram dg =>
    cases decoded : FullFrame.decode dg with
    | some f => exact h.arrives md5 r wakeup decoded
    | none =>
      refine quiet (by simp [arrival, wakeup, decoded]) (by simp [wakeup]) ?_
      obtain ⟨audio, played⟩ := d.onDatagram_other md5 r.clock decoded
      simp [Regdaemon.apply, wakeup, played]
  | keepalive =>
    refine quiet (arrival_eq_none (by simp [wakeup])) (by simp [wakeup]) ?_
    simp only [Regdaemon.apply, wakeup, onKeepalive]
    split <;> rfl
  | house =>
    refine quiet (arrival_eq_none (by simp [wakeup])) (by simp [wakeup]) ?_
    rw [Regdaemon.apply, wakeup]
    exact (onHouse_same r.clock).1
  | _ =>
    refine quiet (arrival_eq_none (by simp [wakeup])) (by simp [wakeup]) ?_
    rw [Regdaemon.apply, wakeup]

variable {username secret : String} {refresh : UInt16} {audio : AudioIo R}
  {start first : Instant}

variable {inRate outRate : UInt32} {inCh outCh : UInt16}

/-- The device of a daemon makes a run of its own. -/
theorem audio_run (made : AudioIo.new R inRate inCh outRate outCh = some audio)
    (run : (system md5 (new username secret refresh audio start first)).Run past d) :
    ∃ past', (AudioIo.system R inRate inCh outRate outCh).Run past' d.audio := by
  induction run with
  | start init =>
    obtain rfl := init
    exact ⟨[], .start made⟩
  | step _ step ih =>
    obtain ⟨past', run⟩ := ih
    obtain ⟨_, _, rfl⟩ := step
    rw [apply_audio]
    exact ⟨_, run.traceOf (P := fun _ => True) (fun _ _ _ => rfl) _ fun _ _ => trivial⟩

end

end Iax2.Regdaemon
