import Iax2.Client.Call
import Iax2.Lib.Table
import Mathlib.Data.List.Sort

/-!
# The client

The state of one account on one PBX, its timers and its call-number allocator.

The two hash tables are `Table`s: what an operation reads of them is a lookup, and where the source
iterates, it iterates over `entries`, whose order no operation may rely on. The two output queues
are lists; `push` and `emit` append to them. The clock is read once in each operation, through
`PbxClient.ts`: the milliseconds since the client was made, cut to 32 bits.
-/

namespace Iax2

/-- The digest function of the `md5` package. -/
abbrev Md5 := Bytes → Vector UInt8 16

/-- The answer to a challenge: the digest of challenge and secret, in lower-case hexadecimal. -/
def md5Response (md5 : Md5) (challenge secret : String) : String :=
  String.join ((md5 (Bytes.ofText challenge ++ Bytes.ofText secret)).toList.map Bytes.hex2)

/-- The account. -/
structure Config where
  username : String
  secret : String
  /-- the requested registration refresh, in seconds -/
  refresh : UInt16
  /-- the audio format, a FORMAT mask -/
  audioFormat : UInt32

inductive RegState
  | idle
  | registering
  | registered
  deriving DecidableEq, Repr

/-- The client. `remoteIndex` maps a remote call number to the local one, for mini frames. -/
structure PbxClient where
  cfg : Config
  start : Instant
  reg : Leg
  regState : RegState
  refresh : UInt16
  calltoken : Option Bytes
  nextReg : Instant
  nextKeepalive : Instant
  calls : Table UInt16 CallLeg
  remoteIndex : Table UInt16 UInt16
  callnoNext : UInt16
  qualifyNext : UInt16
  out : List Bytes
  events : List Event

namespace PbxClient

/-- A client made at `now`: it registers at once. -/
def new (cfg : Config) (now : Instant) : PbxClient :=
  { cfg
    start := now
    reg := Leg.new callnoReg
    regState := .idle
    refresh := cfg.refresh
    calltoken := none
    nextReg := now
    nextKeepalive := now + keepaliveEvery
    calls := ∅
    remoteIndex := ∅
    callnoNext := callnoCallBase
    qualifyNext := callnoQualifyBase
    out := []
    events := [] }

/-- The number of live calls. -/
def activeCalls (s : PbxClient) : Nat := s.calls.entries.length

/-- The state of a live call. -/
def callState (s : PbxClient) (call : UInt16) : Option CallState :=
  (s.calls.lookup call).map (·.state)

/-- The numbers of the live calls, in increasing order. -/
def callIds (s : PbxClient) : List UInt16 :=
  (s.calls.entries.map (·.1)).insertionSort (· ≤ ·)

/-- The frame timestamp when the clock reads `clock`. -/
def ts (s : PbxClient) (clock : Instant) : UInt32 :=
  UInt32.ofNat (Duration.asMillis (clock - s.start))

/-- Queue a datagram. -/
def push (s : PbxClient) (bytes : Bytes) : PbxClient := { s with out := s.out ++ [bytes] }

/-- Queue an event. -/
def emit (s : PbxClient) (ev : Event) : PbxClient := { s with events := s.events ++ [ev] }

/-- Take the oldest datagram. -/
def pollTransmit (s : PbxClient) : Option Bytes × PbxClient :=
  (s.out.head?, { s with out := s.out.tail })

/-- Take the oldest event. -/
def pollEvent (s : PbxClient) : Option Event × PbxClient :=
  (s.events.head?, { s with events := s.events.tail })

/-- The earlier of a deadline and the earliest one so far. -/
def consider (x : Instant) (t : Option Instant) : Option Instant :=
  match t with
  | some c => if c ≤ x then some c else some x
  | none => some x

/-- The deadlines of a window, on top of the earliest one so far. -/
def considerWindow (w : List Outstanding) (t : Option Instant) : Option Instant :=
  w.foldl (fun t o => consider o.deadline t) t

/-- The next instant at which the driver is to call `handle_timeout`. -/
def pollTimeout (s : PbxClient) : Option Instant :=
  let t := some s.nextReg
  let t := if s.regState = .registered then consider s.nextKeepalive t else t
  let t := considerWindow s.reg.outstanding t
  s.calls.entries.foldl (fun t e => considerWindow e.2.leg.outstanding t) t

/-! ## Call numbers -/

/-- The successor of `callno_next`, which cycles through `[CALLNO_CALL_BASE, 0x1FFF]`. -/
def callnoSucc (n : UInt16) : UInt16 := if 0x1FFF ≤ n then callnoCallBase else n + 1

/-- The scan of `alloc_callno` with `fuel` rounds left: the number found, and the next start. -/
def allocLoop (calls : Table UInt16 CallLeg) : Nat → UInt16 → UInt16 × UInt16
  | 0, next => (callnoCallBase, next)
  | fuel + 1, n =>
    if callnoCallBase ≤ n ∧ n ∉ calls then (n, callnoSucc n)
    else allocLoop calls fuel (callnoSucc n)

/-- The first call number that is not in use, from `callno_next` on. -/
def allocCallno (s : PbxClient) : UInt16 × PbxClient :=
  let (n, next) := allocLoop s.calls 0x7000 s.callnoNext
  (n, { s with callnoNext := next })

/-- The next rotating source of a qualify PONG. -/
def nextQualifyCallno (s : PbxClient) : UInt16 × PbxClient :=
  (s.qualifyNext,
    { s with qualifyNext := callnoQualifyBase +
        ((s.qualifyNext - callnoQualifyBase + 1) &&& callnoQualifySpan) })

/-! ## Entries of the call table -/

/-- Remove a call that is live, with its entries of the mini-frame index. -/
def dropCall (s : PbxClient) (call : UInt16) (reason : String) : PbxClient :=
  match s.calls.lookup call with
  | some _ =>
    { s with
      calls := s.calls.erase call
      remoteIndex := s.remoteIndex.retain fun _ v => v ≠ call
      events := s.events ++ [.ended call reason] }
  | none => s

/-- Apply the reaction of the call `call`. -/
def react (s : PbxClient) (call : UInt16) (r : Reaction) : PbxClient :=
  let s := { s with
    calls := s.calls.replace call r.entry
    out := s.out ++ r.sent
    events := s.events ++ r.events }
  match r.fate with
  | .keep _ => s
  | .drop _ reason => s.dropCall call reason

/-- Enter a new call into the table, under the number `call`. -/
def insertCall (s : PbxClient) (call : UInt16) (r : Reaction) : PbxClient :=
  { s with
    calls := s.calls.insert call r.entry
    out := s.out ++ r.sent
    events := s.events ++ r.events }

/-- Look a call up and apply its reaction; nothing happens if there is no such call. -/
def onCall (s : PbxClient) (call : UInt16) (r : CallLeg → Reaction) : PbxClient :=
  match s.calls.lookup call with
  | some c => s.react call (r c)
  | none => s

/-! ## Element lists -/

/-- The elements of a REGREQ. -/
def regIes (s : PbxClient) : List Ie :=
  [Ie.str IeKind.username s.cfg.username, Ie.u16 IeKind.refresh s.refresh] ++
    match s.calltoken with
    | some t => [⟨IeKind.calltoken, t⟩]
    | none => [Ie.empty IeKind.calltoken]

/-- The elements of a NEW. -/
def newCallIes (s : PbxClient) (called : String) : List Ie :=
  [Ie.u16 IeKind.version iaxProtoVersion,
   Ie.str IeKind.callingNumber s.cfg.username,
   Ie.str IeKind.callingName "iax2",
   Ie.str IeKind.username s.cfg.username,
   Ie.u32 IeKind.capability s.cfg.audioFormat,
   Ie.u32 IeKind.format s.cfg.audioFormat,
   Ie.str IeKind.calledNumber called,
   Ie.empty IeKind.calltoken]

/-! ## Timers -/

/-- Send a fresh REGREQ on a reset registration leg. -/
def startRegistration (s : PbxClient) (now clock : Instant) : PbxClient :=
  let s := { s with reg := s.reg.reset, calltoken := none, regState := .registering }
  let (f, reg) := s.reg.build (s.ts clock) Frametype.iax Iax.regreq s.regIes
  let s := { s with reg := reg.trackReliable f now }.push f.encode
  { s with nextReg := now + regGuard }.emit (.log "REGREQ sended")

/-- Retransmit on the registration leg; a frame without tries left loses the registration. -/
def retransmitReg (s : PbxClient) (now : Instant) : PbxClient :=
  let e := expire now s.reg.outstanding
  let s := { s with reg := { s.reg with outstanding := e.window }, out := s.out ++ e.copies }
  if e.exhausted then
    { s with
      reg := { s.reg with outstanding := [] }
      regState := .idle
      nextReg := now + regRetry }.emit (.registerLost "no ACK after retransmissions")
  else s

/-- Retransmit on the leg of every call; a leg with a frame without tries left ends its call. -/
def retransmitCalls (s : PbxClient) (now : Instant) : PbxClient :=
  let toSend := s.calls.entries.flatMap fun e => (expire now e.2.leg.outstanding).copies
  let dead := (s.calls.entries.filter fun e => (expire now e.2.leg.outstanding).exhausted).map (·.1)
  let s := { s with calls := s.calls.mapValues (·.expire now), out := s.out ++ toSend }
  dead.foldl (fun s call => s.dropCall call "reliability timeout") s

/-- `handle_timeout`: registration, keepalive, retransmissions. -/
def handleTimeout (s : PbxClient) (now clock : Instant) : PbxClient :=
  let s := if s.reg.outstanding = [] ∧ s.nextReg ≤ now then s.startRegistration now clock else s
  let s :=
    if s.regState = .registered ∧ s.nextKeepalive ≤ now then
      let poke := FullFrame.new callnoKeepalive 0 (s.ts clock) 0 0 Frametype.iax Iax.poke []
      { s.push poke.encode with nextKeepalive := now + keepaliveEvery }
    else s
  (s.retransmitReg now).retransmitCalls now

end PbxClient

end Iax2
