import Iax2.Client.State

/-!
# Commands and datagrams

The two entry points of the driver beside the timer: `handleCommand` and `handleInput`.

`handleInput` decides once where a full frame goes (`route`) and then handles it there. The source
writes the same tests as a sequence of early returns, numbered 1 to 5; none of them has an effect
before its frame is accepted, so the decision is a pure function of the state and the frame.
-/

namespace Iax2

/-- Commands of the driver. -/
inductive Command
  | dial (number : String)
  | answer (call : UInt16)
  | hangup (call : UInt16)
  | hold (call : UInt16)
  | unhold (call : UInt16)
  | sendVoice (call : UInt16) (ulaw : Bytes)
  | dtmf (call : UInt16) (digit : Char)
  deriving DecidableEq, Repr

/-- A valid DTMF digit, in upper case. -/
def isDtmfDigit (d : Char) : Bool :=
  d.isDigit || d = '*' || d = '#' || (decide ('A' ≤ d) && decide (d ≤ 'D'))

namespace PbxClient

/-! ## Commands -/

/-- Start an outgoing call. -/
def dial (s : PbxClient) (number : String) (now clock : Instant) : PbxClient :=
  let (call, s) := s.allocCallno
  s.insertCall call
    (CallLeg.dialled call number s.cfg.audioFormat (s.newCallIes number) (s.ts clock) now)

def answer (s : PbxClient) (call : UInt16) (now clock : Instant) : PbxClient :=
  s.onCall call (·.answer call (s.ts clock) now)

def hangup (s : PbxClient) (call : UInt16) (now clock : Instant) : PbxClient :=
  s.onCall call (·.hangup (s.ts clock) now)

def sendDtmf (s : PbxClient) (call : UInt16) (digit : Char) (now clock : Instant) : PbxClient :=
  let d := digit.toUpper
  if !isDtmfDigit d then s else s.onCall call (·.sendDtmf d (s.ts clock) now)

def setHold (s : PbxClient) (call : UInt16) (hold : Bool) (now clock : Instant) : PbxClient :=
  s.onCall call (·.setHold hold (s.ts clock) now)

def sendVoice (s : PbxClient) (call : UInt16) (ulaw : Bytes) (clock : Instant) : PbxClient :=
  s.onCall call (·.sendVoice ulaw (s.ts clock))

def handleCommand (s : PbxClient) (cmd : Command) (now clock : Instant) : PbxClient :=
  match cmd with
  | .dial number => s.dial number now clock
  | .answer call => s.answer call now clock
  | .hangup call => s.hangup call now clock
  | .hold call => s.setHold call true now clock
  | .unhold call => s.setHold call false now clock
  | .sendVoice call ulaw => s.sendVoice call ulaw clock
  | .dtmf call digit => s.sendDtmf call digit now clock

/-! ## Where a full frame goes -/

/-- The destinations of a full frame. -/
inductive Route
  /-- 1) a standalone POKE or PING, answered by a PONG -/
  | qualify
  /-- 2) a call token for the registration -/
  | regToken (token : Bytes)
  /-- 2) a call token for the outgoing call `call` -/
  | newToken (call : UInt16) (token : Bytes)
  /-- 3) an incoming call -/
  | incomingNew
  /-- 4) the registration leg -/
  | reg
  /-- 4) the leg of a live call, the `dst_call` of the frame -/
  | call (c : CallLeg)
  /-- 5) no leg -/
  | offLeg

/-- The request in flight that a call token is for, if the frame carries a token. -/
def tokenRoute (s : PbxClient) (f : FullFrame) : Option Route :=
  match Ie.find f.ies IeKind.calltoken with
  | none => none
  | some tok =>
    if tok.data = [] then none
    else if f.dstCall = s.reg.localNo ∧ s.calltoken = none then some (.regToken tok.data)
    else
      match s.calls.entries.find? fun e =>
          e.2.dir = .outbound ∧ e.2.state = .trying ∧ f.dstCall = e.2.leg.localNo with
      | some e => some (.newToken e.1 tok.data)
      | none => none

/-- Where `handle_input` takes a full frame. -/
def route (s : PbxClient) (f : FullFrame) : Route :=
  if f.frametype = Frametype.iax ∧ (f.subclass = Iax.poke ∨ f.subclass = Iax.ping) ∧
      f.dstCall = 0 then .qualify
  else
    match s.tokenRoute f with
    | some r => r
    | none =>
      if f.frametype = Frametype.iax ∧ f.subclass = Iax.new then .incomingNew
      else if f.dstCall = s.reg.localNo then .reg
      else
        match s.calls.lookup f.dstCall with
        | some c => .call c
        | none => .offLeg

/-! ## Handling it there -/

/-- Answer a standalone probe from a rotating call number, echoing its timestamp. -/
def onQualify (s : PbxClient) (f : FullFrame) : PbxClient :=
  let (src, s) := s.nextQualifyCallno
  s.push (FullFrame.new src f.srcCall f.timestamp 0 (f.oseq + 1) Frametype.iax Iax.pong []).encode

/-- Repeat the registration request with the token, on a reset leg. -/
def resendRegWithToken (s : PbxClient) (token : Bytes) (now clock : Instant) : PbxClient :=
  let s := { s with calltoken := some token, reg := s.reg.reset }
  let (f, reg) := s.reg.build (s.ts clock) Frametype.iax Iax.regreq s.regIes
  { s with reg := reg.trackReliable f now }.push f.encode

/-- Put the token in the place of the empty CALLTOKEN. -/
def withToken (token : Bytes) (ies : List Ie) : List Ie :=
  ies.lookmap fun e => if e.kind = IeKind.calltoken then some ⟨IeKind.calltoken, token⟩ else none

/-- Repeat the request of an outgoing call with the token, on a reset leg. -/
def resendNewWithToken (s : PbxClient) (call : UInt16) (token : Bytes) (now clock : Instant) :
    PbxClient :=
  s.onCall call fun c =>
    c.resendNew (withToken token (s.newCallIes c.peer)) (s.ts clock) now

/-- Accept a NEW as a ringing call: whether to answer is a command. -/
def onIncomingNew (s : PbxClient) (f : FullFrame) (now clock : Instant) : PbxClient :=
  let (call, s) := s.allocCallno
  let s := { s with remoteIndex := s.remoteIndex.insert f.srcCall call }
  s.insertCall call (CallLeg.offered call f s.cfg.audioFormat (s.ts clock) now)

/-- The arms of the match of `on_reg_frame`, on the subclass alone. -/
inductive RegKind
  | regauth | regack | regrej | quiet | other
  deriving DecidableEq, Repr

/-- The arm a frame takes on the registration leg. -/
def regKind (f : FullFrame) : RegKind :=
  if f.subclass = Iax.regauth then .regauth
  else if f.subclass = Iax.regack then .regack
  else if f.subclass = Iax.regrej then .regrej
  else if f.subclass = Iax.ack ∨ f.subclass = Iax.calltoken then .quiet
  else .other

section

variable (md5 : Md5)

/-- Handle a frame on the registration leg. -/
def onRegFrame (s : PbxClient) (f : FullFrame) (now clock : Instant) : PbxClient :=
  let s := { s with reg := (s.reg.noteRecv f).ackUpto f.iseq f.timestamp f.isAck }
  match regKind f with
  | .regauth =>
    if f.authmethods &&& Authmethod.md5 = 0 then s.emit (.log "REGAUTH without MD5")
    else
      match f.challenge with
      | none => s.emit (.log "REGAUTH without challenge")
      | some chal =>
        let ies := s.regIes.insertIdx 1
          (Ie.str IeKind.md5Result (md5Response md5 chal s.cfg.secret))
        let (fr, reg) := s.reg.build (s.ts clock) Frametype.iax Iax.regreq ies
        { s with reg := reg.trackReliable fr now }.push fr.encode
  | .regack =>
    let refresh :=
      match (Ie.find f.ies IeKind.refresh).bind Ie.asU16 with
      | some rf => if 0 < rf then rf else s.refresh
      | none => s.refresh
    let s := { s with
      refresh
      regState := .registered
      -- register again after about 80% of the refresh
      nextReg := now + Duration.fromSecs (refresh.toNat * 4 / 5)
      nextKeepalive := now + keepaliveEvery }
    (s.push (s.reg.ackBytes (s.ts clock))).emit .registered
  | .regrej =>
    let s := { s with calltoken := none, regState := .idle, nextReg := now + regRetry }
    (s.push (s.reg.ackBytes (s.ts clock))).emit (.registerLost ("REGREJ causecode=" ++ f.causecode))
  | .quiet => s
  | .other => s.emit (.log ("reg leg subclass=0x" ++ Bytes.hex2 f.subclass))

/-- Handle a frame on the leg of the live call `call`, whose entry is `c`. -/
def onCallFrame (s : PbxClient) (call : UInt16) (c : CallLeg) (f : FullFrame)
    (now clock : Instant) : PbxClient :=
  let s' :=
    if f.srcCall ≠ 0 then { s with remoteIndex := s.remoteIndex.insert f.srcCall call } else s
  s'.react call (c.onFrame (md5Response md5 · s.cfg.secret) call f (s.ts clock) now)

/-- Handle a full frame that belongs to no leg: silence for ACK, PONG and INVAL. -/
def onOffLeg (s : PbxClient) (f : FullFrame) : PbxClient :=
  if f.frametype = Frametype.iax ∧
      (f.subclass = Iax.ack ∨ f.subclass = Iax.pong ∨ f.subclass = Iax.inval) then s
  else s.emit (.log ("out of leg frame dst_call=" ++ toString f.dstCall.toNat ++ " ft=0x" ++
    Bytes.hex2 f.frametype ++ " sc=0x" ++ Bytes.hex2 f.subclass))

/-- Handle a mini frame: audio, by the remote number. -/
def onMini (s : PbxClient) (m : MiniFrame) : PbxClient :=
  match s.remoteIndex.lookup m.srcCall with
  | some call => s.onCall call (·.onMini call m)
  | none => s

/-- Handle a full frame. -/
def onFull (s : PbxClient) (f : FullFrame) (now clock : Instant) : PbxClient :=
  match s.route f with
  | .qualify => s.onQualify f
  | .regToken token => s.resendRegWithToken token now clock
  | .newToken call token => s.resendNewWithToken call token now clock
  | .incomingNew => s.onIncomingNew f now clock
  | .reg => s.onRegFrame md5 f now clock
  | .call c => s.onCallFrame md5 f.dstCall c f now clock
  | .offLeg => s.onOffLeg f

/-- Handle a datagram. -/
def handleInput (s : PbxClient) (dg : Bytes) (now clock : Instant) : PbxClient :=
  if isFullFrame dg then
    match FullFrame.decode dg with
    | some f => s.onFull md5 f now clock
    | none => s
  else
    match MiniFrame.decode dg with
    | some m => s.onMini m
    | none => s

end

end PbxClient

end Iax2
