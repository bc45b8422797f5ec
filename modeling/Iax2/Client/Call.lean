import Iax2.Client.Leg

/-!
# Calls

The entry of one call, and what it does with a command or a received frame.

In the source every such operation looks the entry up, changes it in place, queues datagrams and
events, and possibly removes the entry. A `Reaction` is that effect as data: what becomes of the
entry, the datagrams and the events, in order. The client applies it (`PbxClient.react`, or
`PbxClient.insertCall` for a new call). The functions of this module are the bodies of `dial`,
`on_incoming_new`, `answer`, `hangup`, `send_dtmf`, `set_hold`, `send_voice`,
`resend_new_with_token` and `on_call_frame` between the lookup and the queues.
-/

namespace Iax2

inductive CallState
  /-- outgoing: NEW sent, nothing heard yet -/
  | trying
  /-- ringing, on our side (incoming) or on the remote side (outgoing) -/
  | ringing
  /-- connected, audio flows -/
  | up
  /-- on local hold -/
  | held
  deriving DecidableEq, Repr

/-- The direction of a call: `In` and `Out` of the source. -/
inductive Dir
  | inbound
  | outbound
  deriving DecidableEq, Repr

/-- Events for the driver. -/
inductive Event
  | registered
  | registerLost (reason : String)
  /-- an incoming call rings -/
  | incoming (call : UInt16) (caller called : String)
  /-- the NEW of our call is sent -/
  | dialing (call : UInt16) (number : String)
  | ringing (call : UInt16)
  | answered (call : UInt16)
  | voice (call : UInt16) (ts : UInt32) (ulaw : Bytes)
  | ended (call : UInt16) (reason : String)
  | dtmf (call : UInt16) (digit : Char)
  | log (text : String)
  deriving DecidableEq, Repr

/-- The entry of a call. -/
structure CallLeg where
  leg : Leg
  state : CallState
  dir : Dir
  /-- who calls (incoming) or the dialled number (outgoing) -/
  peer : String
  fmt : UInt32
  /-- the first full VOICE frame is sent -/
  sentFormat : Bool
  /-- the last 32-bit voice timestamp, the reference of `reconstructTs` -/
  lastVoiceTs : UInt32
  /-- a voice timestamp was seen -/
  voiceTsSeen : Bool
  deriving DecidableEq, Repr

/-- What becomes of an entry: it stays in the table as `c`, or it is removed, having been changed
to `c` first. -/
inductive Fate
  | keep (c : CallLeg)
  | drop (c : CallLeg) (reason : String)

/-- The effect of an operation on one call. -/
structure Reaction where
  fate : Fate
  sent : List Bytes
  events : List Event

/-- Nothing happens. -/
def Reaction.idle (c : CallLeg) : Reaction := ⟨.keep c, [], []⟩

/-- The entry as the operation leaves it, in the table or not. -/
def Reaction.entry (r : Reaction) : CallLeg :=
  match r.fate with
  | .keep c => c
  | .drop c _ => c

namespace FullFrame

/-- A text that a frame carries, empty if it does not. -/
def text (f : FullFrame) (kind : UInt8) : String := ((Ie.find f.ies kind).map Ie.asStr).getD ""

/-- The methods that a REGAUTH or AUTHREQ offers. -/
def authmethods (f : FullFrame) : UInt16 :=
  ((Ie.find f.ies IeKind.authmethods).bind Ie.asU16).getD 0

/-- The challenge that a REGAUTH or AUTHREQ carries. -/
def challenge (f : FullFrame) : Option String := (Ie.find f.ies IeKind.challenge).map Ie.asStr

/-- The cause code that a REJECT or REGREJ carries, as the debug format prints it. -/
def causecode (f : FullFrame) : String :=
  match (Ie.find f.ies IeKind.causecode).bind (·.data.head?) with
  | some code => "Some(" ++ toString code.toNat ++ ")"
  | none => "None"

end FullFrame

namespace CallLeg

/-! ## New calls -/

/-- `dial`, for the free number `call`: the entry of an outgoing call, its NEW and its event. -/
def dialled (call : UInt16) (number : String) (fmt : UInt32) (ies : List Ie) (ts : UInt32)
    (now : Instant) : Reaction :=
  let (f, leg) := (Leg.new call).build ts Frametype.iax Iax.new ies
  { fate := .keep
      { leg := leg.trackReliable f now, state := .trying, dir := .outbound, peer := number, fmt
        sentFormat := false, lastVoiceTs := 0, voiceTsSeen := false }
    sent := [f.encode]
    events := [.dialing call number] }

/-- `on_incoming_new`, for the free number `call`: the entry of an incoming call, its ACCEPT and
RINGING, both tracked, and its event. -/
def offered (call : UInt16) (f : FullFrame) (fmt : UInt32) (ts : UInt32) (now : Instant) :
    Reaction :=
  let called := f.text IeKind.calledNumber
  let caller := f.text IeKind.callingNumber
  let leg := (Leg.new call).noteRecv f
  let (accept, leg) := leg.build ts Frametype.iax Iax.accept [Ie.u32 IeKind.format fmt]
  let leg := leg.trackReliable accept now
  let (ringing, leg) := leg.build ts Frametype.control Control.ringing []
  let leg := leg.trackReliable ringing now
  { fate := .keep
      { leg, state := .ringing, dir := .inbound, peer := caller, fmt, sentFormat := false
        lastVoiceTs := 0, voiceTsSeen := false }
    sent := [accept.encode, ringing.encode]
    events := [.incoming call caller called] }

/-! ## Commands -/

/-- `answer`, for the call number `call`: an incoming call that rings goes up. -/
def answer (c : CallLeg) (call : UInt16) (ts : UInt32) (now : Instant) : Reaction :=
  if c.dir = .inbound ∧ c.state = .ringing then
    let (ans, leg) := c.leg.build ts Frametype.control Control.answer []
    { fate := .keep { c with leg := leg.trackReliable ans now, state := .up, sentFormat := false }
      sent := [ans.encode]
      events := [.answered call] }
  else .idle c

/-- `hangup`: the HANGUP is tracked in the window of the entry, and the entry is removed. -/
def hangup (c : CallLeg) (ts : UInt32) (now : Instant) : Reaction :=
  let (hb, leg) := c.leg.build ts Frametype.iax Iax.hangup [Ie.str IeKind.cause "Normal Clearing"]
  { fate := .drop { c with leg := leg.trackReliable hb now } "local hangup"
    sent := [hb.encode]
    events := [] }

/-- `send_dtmf`, after the check of the digit: the subclass is its ASCII code. -/
def sendDtmf (c : CallLeg) (d : Char) (ts : UInt32) (now : Instant) : Reaction :=
  let (f, leg) := c.leg.build ts Frametype.dtmf (UInt8.ofNat d.toNat) []
  { fate := .keep { c with leg := leg.trackReliable f now }
    sent := [f.encode]
    events := [] }

/-- `set_hold`, in whatever state the call is. -/
def setHold (c : CallLeg) (hold : Bool) (ts : UInt32) (now : Instant) : Reaction :=
  let sc := if hold then Control.hold else Control.unhold
  let (f, leg) := c.leg.build ts Frametype.control sc []
  { fate := .keep { c with leg := leg.trackReliable f now, state := if hold then .held else .up }
    sent := [f.encode]
    events := [] }

/-- `send_voice`: the first frame is a full VOICE frame, which declares the format; the following
are mini frames. -/
def sendVoice (c : CallLeg) (ulaw : Bytes) (ts : UInt32) : Reaction :=
  if c.state ≠ .up then .idle c
  else if !c.sentFormat then
    let (vf, leg) := c.leg.build ts Frametype.voice c.fmt.toUInt8 []
    { fate := .keep { c with leg, sentFormat := true }
      sent := [vf.encodeMedia ulaw]
      events := [] }
  else
    let mf : MiniFrame := { srcCall := c.leg.localNo, timestamp16 := ts.toUInt16, payload := ulaw }
    { fate := .keep c, sent := [mf.encode], events := [] }

/-! ## Timeouts -/

/-- The entry after its pass of the retransmission loop. -/
def expire (now : Instant) (c : CallLeg) : CallLeg :=
  { c with leg := { c.leg with outstanding := (Iax2.expire now c.leg.outstanding).window } }

/-! ## Received datagrams -/

/-- The mini-frame arm of `handle_input`: audio for a call that is up. -/
def onMini (c : CallLeg) (call : UInt16) (m : MiniFrame) : Reaction :=
  if c.state = .up then
    let ts := reconstructTs c.lastVoiceTs m.timestamp16 c.voiceTsSeen
    { fate := .keep { c with lastVoiceTs := ts, voiceTsSeen := true }
      sent := []
      events := [.voice call ts m.payload] }
  else .idle c

/-- `resend_new_with_token`: a fresh request on a reset leg. -/
def resendNew (c : CallLeg) (ies : List Ie) (ts : UInt32) (now : Instant) : Reaction :=
  let (f, leg) := c.leg.reset.build ts Frametype.iax Iax.new ies
  { fate := .keep { c with leg := leg.trackReliable f now }
    sent := [f.encode]
    events := [] }

end CallLeg

/-- The arms of the match of `on_call_frame`. -/
inductive CallKind
  | voice | authreq | accept | ringing | answer | busy | hangup | reject | ackPong | lagrq | ping
  | lagrp | dtmf | cng | control | other
  deriving DecidableEq, Repr

/-- The arm a frame takes on a leg of direction `dir`: the patterns of the match, in order. -/
def FullFrame.callKind (f : FullFrame) (dir : Dir) : CallKind :=
  if f.frametype = Frametype.voice then .voice
  else if f.frametype = Frametype.iax ∧ f.subclass = Iax.authreq ∧ dir = .outbound then .authreq
  else if f.frametype = Frametype.iax ∧ f.subclass = Iax.accept then .accept
  else if f.frametype = Frametype.control ∧ f.subclass = Control.ringing then .ringing
  else if f.frametype = Frametype.control ∧ f.subclass = Control.answer then .answer
  else if f.frametype = Frametype.control ∧ f.subclass = Control.busy then .busy
  else if f.frametype = Frametype.iax ∧ f.subclass = Iax.hangup then .hangup
  else if f.frametype = Frametype.iax ∧ f.subclass = Iax.reject then .reject
  else if f.frametype = Frametype.iax ∧ (f.subclass = Iax.ack ∨ f.subclass = Iax.pong) then .ackPong
  else if f.frametype = Frametype.iax ∧ f.subclass = Iax.lagrq then .lagrq
  else if f.frametype = Frametype.iax ∧ f.subclass = Iax.ping then .ping
  else if f.frametype = Frametype.iax ∧ f.subclass = Iax.lagrp then .lagrp
  else if f.frametype = Frametype.dtmf then .dtmf
  else if f.frametype = Frametype.cng then .cng
  else if f.frametype = Frametype.control then .control
  else .other

/-- The sequence and window part of `on_call_frame`, before the match. -/
def CallLeg.noteFrame (c : CallLeg) (f : FullFrame) : CallLeg :=
  { c with leg := (c.leg.noteRecv f).ackUpto f.iseq f.timestamp f.isAck }

/-- `on_call_frame`: the reaction of the call `call` to a full frame on its leg. `respond` is the
answer to an MD5 challenge. -/
def CallLeg.onFrame (respond : String → String) (call : UInt16) (f : FullFrame) (ts : UInt32)
    (now : Instant) (c : CallLeg) : Reaction :=
  let c := c.noteFrame f
  let ack := c.leg.ackBytes ts
  match f.callKind c.dir with
  | .voice =>
    { fate := .keep { c with lastVoiceTs := f.timestamp, voiceTsSeen := true }
      sent := [ack]
      events := if c.state = .up then [.voice call f.timestamp f.mediaPayload] else [] }
  | .authreq =>
    if f.authmethods &&& Authmethod.md5 = 0 then ⟨.keep c, [], [.log "AUTHREQ without MD5"]⟩
    else
      match f.challenge with
      | none => ⟨.keep c, [], [.log "AUTHREQ eithout challenge"]⟩
      | some chal =>
        let (rep, leg) := c.leg.build ts Frametype.iax Iax.authrep
          [Ie.str IeKind.md5Result (respond chal)]
        ⟨.keep { c with leg := leg.trackReliable rep now }, [rep.encode], []⟩
  | .accept =>
    match (Ie.find f.ies IeKind.format).bind Ie.asU32 with
    | some fmt => ⟨.keep { c with fmt }, [ack], []⟩
    | none => ⟨.keep c, [ack], []⟩
  | .ringing => ⟨.keep { c with state := .ringing }, [ack], [.ringing call]⟩
  | .answer => ⟨.keep { c with state := .up, sentFormat := false }, [ack], [.answered call]⟩
  | .busy => ⟨.drop c "busy", [ack], []⟩
  | .hangup => ⟨.drop c "hangup by remote", [ack], []⟩
  | .reject => ⟨.drop c ("refused causecode=" ++ f.causecode), [ack], []⟩
  | .ackPong => .idle c
  | .lagrq =>
    -- the reply echoes the timestamp of the request, and is not tracked
    let (lagrp, leg) := c.leg.build f.timestamp Frametype.iax Iax.lagrp []
    ⟨.keep { c with leg }, [lagrp.encode], []⟩
  | .ping =>
    let (pong, leg) := c.leg.build f.timestamp Frametype.iax Iax.pong []
    ⟨.keep { c with leg }, [pong.encode], []⟩
  | .lagrp => .idle c
  | .dtmf => ⟨.keep c, [ack], [.dtmf call (Char.ofNat f.subclass.toNat)]⟩
  | .cng => ⟨.keep c, [ack], []⟩
  | .control => ⟨.keep c, [ack], []⟩
  | .other =>
    ⟨.keep c, [ack],
      [.log ("call leg ft=0x" ++ Bytes.hex2 f.frametype ++ " sc=0x" ++ Bytes.hex2 f.subclass)]⟩

end Iax2
