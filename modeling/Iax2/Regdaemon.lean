import Iax2.Audio
import Iax2.Client.Run
import Mathlib.Data.Stream.Defs

/-!
# The registration daemon

A phone of its own, without the client: it keeps one account registered, answers every call at once,
one at a time, and probes the PBX so that the path back stays open. It has its own legs, which only
count, and one datagram in flight at most (`pending`), the last REGREQ or ANSWER that it sent: any
full frame on one of its legs ends the wait for it, and what comes next takes its place.

A reception that fails ends the main loop, and with it the program. What is printed leaves the
model. The clock is read more than once in a round of the main loop, for
instants and for timestamps, and what these readings find is a stream `clock`: a reading stands at
its own place in it, whether the ones before it are made or not.
-/

namespace Iax2.Regdaemon

def regLocalCall : UInt16 := 1
def callLocalCall : UInt16 := 2
/-- The source of the POKEs. -/
def keepaliveCall : UInt16 := 4
/-- The source of the refusal of a second call. -/
def busyCall : UInt16 := 99
def retxAfter : Duration := Duration.fromMillis 700
def retxMax : Nat := 5

/-! ## Legs -/

/-- The numbers of a leg. -/
structure Leg where
  localNo : UInt16
  remote : UInt16
  oseq : UInt8
  iseq : UInt8
  deriving DecidableEq, Repr

namespace Leg

def new (localNo : UInt16) : Leg := { localNo, remote := 0, oseq := 0, iseq := 0 }

def reset (l : Leg) : Leg := { l with remote := 0, oseq := 0, iseq := 0 }

def noteRecv (l : Leg) (f : FullFrame) : Leg :=
  { l with remote := if f.srcCall ≠ 0 then f.srcCall else l.remote, iseq := f.oseq + 1 }

/-- Build a frame, consuming a number. -/
def full (l : Leg) (ts : UInt32) (ft sc : UInt8) (ies : List Ie) : FullFrame × Leg :=
  (FullFrame.new l.localNo l.remote ts l.oseq l.iseq ft sc ies, { l with oseq := l.oseq + 1 })

def ack (l : Leg) (ts : UInt32) : Bytes :=
  (FullFrame.new l.localNo l.remote ts l.oseq l.iseq Frametype.iax Iax.ack []).encode

end Leg

/-! ## The state -/

/-- The call. -/
structure Call where
  leg : Leg
  answered : Bool
  sentFormat : Bool
  deriving DecidableEq, Repr

/-- The datagram in flight. -/
structure Pending where
  bytes : Bytes
  deadline : Instant
  tries : Nat
  deriving DecidableEq, Repr

end Regdaemon

/-- The state of the main loop. -/
structure Regdaemon {F : Type} (R : Rubato F) where
  username : String
  secret : String
  /-- the refresh of the registration, in seconds: as it was asked for, then as the PBX wants it -/
  refresh : UInt16
  audio : AudioIo R
  start : Instant
  reg : Regdaemon.Leg
  call : Option Regdaemon.Call
  calltoken : Option Bytes
  registered : Bool
  pending : Option Regdaemon.Pending
  nextReg : Instant
  /-- what was sent so far -/
  sent : List Bytes
  /-- the main loop has not ended -/
  running : Bool

namespace Regdaemon

variable {F : Type} [F32 F] {R : Rubato F}

/-- The daemon at its start. It registers at once. -/
def new (username secret : String) (refresh : UInt16) (audio : AudioIo R) (start nextReg : Instant) :
    Regdaemon R :=
  { username, secret, refresh, audio, start
    reg := Leg.new regLocalCall
    call := none
    calltoken := none
    registered := false
    pending := none
    nextReg
    sent := []
    running := true }

section

variable (d : Regdaemon R)

def ts (clock : Instant) : UInt32 := UInt32.ofNat (Duration.asMillis (clock - d.start))

def send (bytes : Bytes) : Regdaemon R := { d with sent := d.sent ++ [bytes] }

/-- Send a datagram and wait for its acknowledgement. -/
def transmit (bytes : Bytes) (now : Instant) : Regdaemon R :=
  { d.send bytes with pending := some { bytes, deadline := now + retxAfter, tries := 0 } }

def regIes : List Ie :=
  [Ie.str IeKind.username d.username, Ie.u16 IeKind.refresh d.refresh] ++
    match d.calltoken with
    | some t => [⟨IeKind.calltoken, t⟩]
    | none => [Ie.empty IeKind.calltoken]

/-! ## Ticks -/

/-- A frame of voice: the first one of a call names the format. -/
def sayFrame (c : Call) (pcm : List Int16) (clock : Instant) : Bytes × Call :=
  let payload := G711.encodeBlock pcm []
  if !c.sentFormat then
    let (vf, leg) := c.leg.full (d.ts clock) Frametype.voice Format.ulaw.toUInt8 []
    (vf.encodeMedia payload, { c with leg, sentFormat := true })
  else
    (MiniFrame.encode ⟨c.leg.localNo, (d.ts clock).toUInt16, payload⟩, c)

/-- The loop over the captured frames. -/
def sayLoop : List (List Int16) → Stream' Instant → Call → List Bytes × Call
  | [], _, c => ([], c)
  | pcm :: frames, clock, c =>
    let (dg, c) := d.sayFrame c pcm clock.head
    let (dgs, c) := sayLoop frames clock.tail c
    (dg :: dgs, c)

/-- A tick of the audio: the captured frames go to the call. -/
def onAudioTick (clock : Stream' Instant) : Regdaemon R :=
  match d.call with
  | some c =>
    if c.answered then
      let (frames, audio) := d.audio.takeFrames8k frameSamples
      let (dgs, c) := d.sayLoop frames clock c
      { d with audio, call := some c, sent := d.sent ++ dgs }
    else d
  | none => d

/-- A tick of the keepalive. -/
def onKeepalive (clock : Stream' Instant) : Regdaemon R :=
  if d.registered then
    d.send (FullFrame.new keepaliveCall 0 (d.ts clock.head) 0 0 Frametype.iax Iax.poke []).encode
  else d

/-- Register, for the first time or again, if it is time and nothing is in flight. -/
def register (clock : Stream' Instant) : Regdaemon R :=
  if d.pending = none ∧ d.nextReg ≤ clock.head then
    let d := { d with reg := d.reg.reset, calltoken := none }
    let (f, reg) := d.reg.full (d.ts (clock.get 1)) Frametype.iax Iax.regreq d.regIes
    let d := { d with reg }.transmit f.encode (clock.get 2)
    { d with nextReg := clock.get 3 + Duration.fromSecs 10 }
  else d

/-- Repeat the datagram in flight, if it is due. -/
def retransmit (clock : Stream' Instant) : Regdaemon R :=
  match d.pending with
  | some p =>
    if p.deadline ≤ clock.get 4 then
      if retxMax ≤ p.tries then
        { d with
          pending := none
          registered := false
          nextReg := clock.get 5 + Duration.fromSecs 3 }
      else
        { d.send p.bytes with
          pending := some { p with tries := p.tries + 1, deadline := clock.get 5 + retxAfter } }
    else d
  | none => d

/-- A tick of the housekeeping. -/
def onHouse (clock : Stream' Instant) : Regdaemon R := (d.register clock).retransmit clock

end

/-! ## Where a full frame goes -/

/-- The destinations of a full frame. -/
inductive Route
  /-- a POKE or PING, on whatever leg -/
  | qualify
  /-- a NEW, while there is a call -/
  | busy
  /-- a NEW -/
  | newCall
  /-- a call token -/
  | token (token : Bytes)
  /-- the registration leg -/
  | reg
  /-- the leg of the call -/
  | call (c : Call)
  /-- no leg -/
  | offLeg
  deriving DecidableEq, Repr

section

variable (d : Regdaemon R) (f : FullFrame)

/-- The frame is on one of the legs. -/
def onRealLeg : Bool :=
  f.dstCall = d.reg.localNo || (d.call.map fun c => decide (f.dstCall = c.leg.localNo)).getD false

/-- The first call token of a registration. -/
def freshToken : Option Bytes :=
  match Ie.find f.ies IeKind.calltoken with
  | some tok => if tok.data ≠ [] ∧ d.calltoken = none then some tok.data else none
  | none => none

/-- Where the main loop takes a full frame. The source decides by a sequence of early returns. -/
def route : Route :=
  if f.frametype = Frametype.iax ∧ (f.subclass = Iax.poke ∨ f.subclass = Iax.ping) then .qualify
  else if f.frametype = Frametype.iax ∧ f.subclass = Iax.new then
    if d.call.isSome then .busy else .newCall
  else
    match d.freshToken f with
    | some token => .token token
    | none =>
      if f.dstCall = d.reg.localNo then .reg
      else
        match d.call with
        | some c => if f.dstCall = c.leg.localNo then .call c else .offLeg
        | none => .offLeg

/-! ## Handling it there -/

def onQualify : Regdaemon R :=
  d.send (FullFrame.new (max f.dstCall 3) f.srcCall f.timestamp 0 (f.oseq + 1) Frametype.iax Iax.pong
    []).encode

/-- Refuse a second call. -/
def onBusy (clock : Stream' Instant) : Regdaemon R :=
  d.send (FullFrame.new busyCall f.srcCall (d.ts clock.head) 0 (f.oseq + 1) Frametype.iax Iax.reject
    [Ie.str IeKind.cause "Busy"]).encode

/-- Accept a call and answer it. Only the ANSWER is repeated. -/
def onNew (clock : Stream' Instant) : Regdaemon R :=
  let leg := (Leg.new callLocalCall).noteRecv f
  let (accept, leg) := leg.full (d.ts clock.head) Frametype.iax Iax.accept
    [Ie.u32 IeKind.format Format.ulaw]
  let d := d.send accept.encode
  let (answer, leg) := leg.full (d.ts (clock.get 1)) Frametype.control Control.answer []
  let d := d.transmit answer.encode (clock.get 2)
  { d with audio := d.audio.flush, call := some { leg, answered := true, sentFormat := false } }

/-- Repeat the registration request with the token. -/
def onToken (token : Bytes) (clock : Stream' Instant) : Regdaemon R :=
  let d := { d with calltoken := some token, reg := d.reg.reset }
  let (f, reg) := d.reg.full (d.ts clock.head) Frametype.iax Iax.regreq d.regIes
  { d with reg }.transmit f.encode (clock.get 1)

/-- The arms of the match on the call leg. -/
inductive CallKind
  | voice | quiet | hangup | other
  deriving DecidableEq, Repr

/-- The arm that a frame takes on the call leg. -/
def callKind : CallKind :=
  if f.frametype = Frametype.voice then .voice
  else if f.frametype = Frametype.iax ∧ f.subclass = Iax.ack then .quiet
  else if f.frametype = Frametype.iax ∧ f.subclass = Iax.hangup then .hangup
  else .other

/-- Handle a frame of the call `c`. -/
def onCall (c : Call) (clock : Stream' Instant) : Regdaemon R :=
  let c := { c with leg := c.leg.noteRecv f }
  let d := { d with call := some c }
  match callKind f with
  | .voice => { d with audio := d.audio.playUlaw f.mediaPayload }.send (c.leg.ack (d.ts clock.head))
  | .quiet => d
  | .hangup =>
    { d.send (c.leg.ack (d.ts clock.head)) with audio := d.audio.flush, call := none }
  | .other => d.send (c.leg.ack (d.ts clock.head))

variable (md5 : Md5)

/-- Handle a frame on the registration leg. -/
def onReg (clock : Stream' Instant) : Regdaemon R :=
  let d := { d with reg := d.reg.noteRecv f }
  match PbxClient.regKind f with
  | .regauth =>
    if f.authmethods &&& Authmethod.md5 = 0 then d
    else
      match f.challenge with
      | none => d
      | some chal =>
        let ies := d.regIes.insertIdx 1
          (Ie.str IeKind.md5Result (md5Response md5 chal d.secret))
        let (fr, reg) := d.reg.full (d.ts clock.head) Frametype.iax Iax.regreq ies
        { d with reg }.transmit fr.encode (clock.get 1)
  | .regack =>
    let refresh :=
      match (Ie.find f.ies IeKind.refresh).bind Ie.asU16 with
      | some rf => if 0 < rf then rf else d.refresh
      | none => d.refresh
    let d := { d with
      refresh
      registered := true
      nextReg := clock.head + Duration.fromSecs (refresh.toNat * 4 / 5) }
    d.send (d.reg.ack (d.ts (clock.get 1)))
  | .regrej =>
    let d := { d with
      calltoken := none, registered := false, nextReg := clock.head + Duration.fromSecs 5 }
    d.send (d.reg.ack (d.ts (clock.get 1)))
  | .quiet => d
  | .other => d

/-- Handle a full frame. -/
def onFull (clock : Stream' Instant) : Regdaemon R :=
  match d.route f with
  | .qualify => d.onQualify f
  | .busy => d.onBusy f clock
  | .newCall => d.onNew f clock
  | .token token => d.onToken token clock
  | .reg => d.onReg f md5 clock
  | .call c => d.onCall f c clock
  | .offLeg => d

end

/-- A frame on one of the legs ends the wait. -/
def settle (d : Regdaemon R) (f : FullFrame) : Regdaemon R :=
  if d.onRealLeg f then { d with pending := none } else d

/-- A datagram. -/
def onDatagram (d : Regdaemon R) (md5 : Md5) (dg : Bytes) (clock : Stream' Instant) : Regdaemon R :=
  if isFullFrame dg then
    match FullFrame.decode dg with
    | some f => (d.settle f).onFull f md5 clock
    | none => d
  else
    match d.call, MiniFrame.decode dg with
    | some _, some m => { d with audio := d.audio.playUlaw m.payload }
    | _, _ => d

/-- What the daemon waits for, and the call backs of the device. -/
inductive Wakeup (F : Type)
  | audioTick
  | keepalive
  | house
  | datagram (dg : Bytes)
  /-- the reception fails -/
  | recvError
  | capture (frame : List F)
  | render (frames : Nat)
  deriving Repr

/-- A wakeup, with the readings of the clock. -/
structure Round (F : Type) where
  wakeup : Wakeup F
  clock : Stream' Instant := .const 0

/-- The state after a round of the main loop. -/
def apply (md5 : Md5) (d : Regdaemon R) (r : Round F) : Regdaemon R :=
  match r.wakeup with
  | .audioTick => d.onAudioTick r.clock
  | .keepalive => d.onKeepalive r.clock
  | .house => d.onHouse r.clock
  | .datagram dg => d.onDatagram md5 dg r.clock
  | .recvError => { d with running := false }
  | .capture frame => { d with audio := d.audio.capture frame }
  | .render frames => { d with audio := (d.audio.render frames).2 }

/-- The daemon from its start to its end. The clock does not go back within a round. -/
def system (md5 : Md5) (start : Regdaemon R) : System (Regdaemon R) (Round F) where
  init d := d = start
  step d r d' := d.running = true ∧ Monotone r.clock ∧ d' = d.apply md5 r

end Regdaemon

/-! ## Sample runs -/

namespace RegdaemonSample

section

variable {R : Rubato ℚ} (audio : AudioIo R)

def start : Regdaemon R := .new "10001" "segreto" 60 audio 0 0

/-- A round at a time in milliseconds. -/
def round (ms : Nat) (wakeup : Regdaemon.Wakeup ℚ) : Regdaemon.Round ℚ :=
  { wakeup, clock := .const (Duration.fromMillis ms) }

def after (rounds : List (Regdaemon.Round ℚ)) : Regdaemon R :=
  rounds.foldl (Regdaemon.apply Sample.md5) (start audio)

def trace (rounds : List (Regdaemon.Round ℚ)) :
    List (Transition (Regdaemon R) (Regdaemon.Round ℚ)) :=
  traceOf (Regdaemon.apply Sample.md5) (start audio) [] rounds

/-- Whether the main loop goes on to the last round. -/
def goes (d : Regdaemon R) : List (Regdaemon.Round ℚ) → Bool
  | [] => true
  | r :: rounds => d.running && goes (d.apply Sample.md5 r) rounds

theorem run_from {d : Regdaemon R} {past : List (Transition (Regdaemon R) (Regdaemon.Round ℚ))}
    (rounds : List (Regdaemon.Round ℚ)) (clocks : ∀ r ∈ rounds, Monotone r.clock)
    (going : goes d rounds = true)
    (run : (Regdaemon.system Sample.md5 (start audio)).Run past d) :
    (Regdaemon.system Sample.md5 (start audio)).Run
      (traceOf (Regdaemon.apply Sample.md5) d past rounds)
      (rounds.foldl (Regdaemon.apply Sample.md5) d) := by
  induction rounds generalizing d past with
  | nil => exact run
  | cons r rounds ih =>
    obtain ⟨clock, clocks⟩ := List.forall_mem_cons.mp clocks
    obtain ⟨here, rest⟩ := (Bool.and_eq_true _ _).mp going
    exact ih clocks rest (.step run ⟨here, clock, rfl⟩)

theorem run (rounds : List (Regdaemon.Round ℚ)) (clocks : ∀ r ∈ rounds, Monotone r.clock)
    (going : goes (start audio) rounds = true) :
    (Regdaemon.system Sample.md5 (start audio)).Run (trace audio rounds) (after audio rounds) :=
  run_from audio rounds clocks going (.start rfl)

end

theorem round_mono (ms : Nat) (wakeup : Regdaemon.Wakeup ℚ) : Monotone (round ms wakeup).clock :=
  monotone_const

/-- Nobody answers. The request is sent, repeated five times and given up. -/
def silence : List (Regdaemon.Round ℚ) :=
  [0, 700, 1400, 2100, 2800, 3500, 4200].map (round · .house)

theorem silence_clocks : ∀ r ∈ silence, Monotone r.clock := by
  intro r member
  obtain ⟨ms, _, rfl⟩ := List.mem_map.mp member
  exact round_mono ms .house

/-- The PBX accepts the registration. -/
def regack : FullFrame := FullFrame.new 42 1 0 0 1 Frametype.iax Iax.regack []

/-- The request is accepted, and the keepalive ticks. -/
def registered : List (Regdaemon.Round ℚ) :=
  [round 0 .house, round 20 (.datagram regack.encode), round 15000 .keepalive]

theorem registered_clocks : ∀ r ∈ registered, Monotone r.clock := by
  intro r member
  simp only [registered, List.mem_cons, List.not_mem_nil, or_false] at member
  rcases member with rfl | rfl | rfl <;> exact round_mono _ _

/-- A call comes in, and a frame of silence is captured. -/
def answered : List (Regdaemon.Round ℚ) :=
  round 0 (.datagram Sample.newCall.encode) :: List.replicate 256 (round 20 (.capture [0]))

end RegdaemonSample

end Iax2
