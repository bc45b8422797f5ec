import Iax2.Client.Run
import Iax2.Jitter
import Mathlib.Data.Stream.Defs

/-!
# The softphone

The driver of several clients, one for each PBX. It reads the keyboard, the sockets and the timer,
and after each operation on a client it sends what the client has queued (`flushTx`) and handles the
events that it has emitted (`handleEvents`). One call of all is *active*: its voice is played
through the jitter buffer, and the microphone speaks to it.

The number `n` of clients does not change, so an index of a client is a `Fin n`. What is printed and
what is played leaves the model, and the microphone enters it as the frames captured, encoded.

The clock is read many times in one round of the main loop: first by the loop (`now`), then by the
clients and by the handling of events. What these later readings find is a stream `clock`. A client
reads it once in each command, and the handling of an event reads it three times at most.
-/

namespace Iax2

/-! ## Lines of the keyboard -/

/-- The characters at which `split_whitespace` splits: those with the Unicode property. -/
def isWhitespace (c : Char) : Bool :=
  let n := c.toNat
  (9 ≤ n && n ≤ 13) || n = 0x20 || n = 0x85 || n = 0xA0 || n = 0x1680 ||
    (0x2000 ≤ n && n ≤ 0x200A) || n = 0x2028 || n = 0x2029 || n = 0x202F || n = 0x205F ||
    n = 0x3000

/-- The words of a line. -/
def splitWhitespace (line : List Char) : List (List Char) :=
  (line.splitOnP isWhitespace).filter (· ≠ [])

/-- `parse::<usize>`: decimal digits, at least one, with a plus sign before them or not, below the
end of the range. -/
def parseUsize (word : List Char) : Option Nat :=
  let digits := if word.head? = some '+' then word.tail else word
  if digits ≠ [] ∧ digits.all Char.isDigit then
    let value := digits.foldl (fun value d => value * 10 + (d.toNat - '0'.toNat)) 0
    if value < 2 ^ 64 then some value else none
  else none

/-- What a line asks for: the arms of the match of `dispatch`. -/
inductive Key
  | quit
  | list
  | pbx (n : Option Nat)
  | dial (number : List Char)
  | answer
  | dtmf (digits : List Char)
  | hangup
  /-- a number of the list of calls, with or without a hash sign -/
  | connect (n : Nat)
  | unknown
  deriving DecidableEq, Repr

/-- The arm that a line takes. -/
def Key.parse (line : List Char) : Key :=
  let words := splitWhitespace line
  let cmd := words.head?.getD []
  let rest := words.tail
  if cmd = ['q'] then .quit
  else if cmd = ['l'] then .list
  else if cmd = ['p'] then .pbx (rest.head?.bind parseUsize)
  else if cmd = ['d'] then .dial (List.intercalate [' '] rest)
  else if cmd = ['a'] then .answer
  else if cmd = ['t'] then .dtmf rest.flatten
  else if cmd = ['h'] then .hangup
  else
    match parseUsize (if cmd.head? = some '#' then cmd.tail else cmd) with
    | some n => .connect n
    | none => .unknown

/-! ## The state -/

/-- Commands, one after the other. -/
def PbxClient.handleCommands (now : Instant) :
    List Command → Stream' Instant → PbxClient → PbxClient
  | [], _, s => s
  | cmd :: cmds, clock, s => handleCommands now cmds clock.tail (s.handleCommand cmd now clock.head)

/-- The state of the driver. -/
structure App (F : Type) (n : Nat) where
  clients : Vector PbxClient n
  /-- what was sent so far: the index of the socket and the datagram -/
  sent : List (Fin n × Bytes)
  /-- the call whose audio is live: the index of its client and its number -/
  active : Option (Fin n × UInt16)
  /-- the client that dials -/
  selected : Fin n
  /-- the jitter buffer of the active call -/
  jb : JitterBuffer F

namespace App

variable {F : Type} [F64 F] {n : Nat}

/-- The driver at its start, before the first round of registrations. Each client is made at its own
instant. -/
def new [NeZero n] (cfgs : Vector Config n) (starts : Vector Instant n) : App F n :=
  { clients := Vector.zipWith PbxClient.new cfgs starts
    sent := []
    active := none
    selected := 0
    jb := JitterBuffer.new }

section

variable (a : App F n) (idx : Fin n)

def client : PbxClient := a.clients[idx]

def setClient (c : PbxClient) : App F n := { a with clients := a.clients.set idx c }

/-- Hand a command to a client. -/
def command (cmd : Command) (now clock : Instant) : App F n :=
  a.setClient idx ((a.client idx).handleCommand cmd now clock)

/-- Hand commands to a client, one after the other. -/
def commands (cmds : List Command) (now : Instant) (clock : Stream' Instant) : App F n :=
  a.setClient idx ((a.client idx).handleCommands now cmds clock)

/-- The state of a call, if it is live. -/
def callState (call : UInt16) : Option CallState := (a.client idx).callState call

/-! ## Queues -/

/-- The loop of `flush_tx`, with `fuel` rounds left: the datagrams taken, and the client. -/
def takeTransmits : Nat → PbxClient → List Bytes × PbxClient
  | 0, c => ([], c)
  | fuel + 1, c =>
    match c.pollTransmit with
    | (some b, c) => (b :: (takeTransmits fuel c).1, (takeTransmits fuel c).2)
    | (none, c) => ([], c)

/-- Send all that a client has queued, on its socket. -/
def flushTx : App F n :=
  let (batch, c) := takeTransmits (a.client idx).out.length (a.client idx)
  { a.setClient idx c with sent := a.sent ++ batch.map (idx, ·) }

/-- The call that has to be put on hold for another one: the active one, if it is up. -/
def previous (call : UInt16) : Option (Fin n × UInt16) :=
  a.active.filter fun p => p ≠ (idx, call) ∧ a.callState p.1 p.2 = some .up

def holdPrevious (call : UInt16) (now clock : Instant) : App F n :=
  match a.previous idx call with
  | some (pidx, pcall) => a.command pidx (.hold pcall) now clock
  | none => a

/-- Take a call off hold, if it is held. -/
def resume (call : UInt16) (now clock : Instant) : App F n :=
  if a.callState idx call = some .held then a.command idx (.unhold call) now clock else a

/-- Make a call the active one, in the place of the one that was. The jitter buffer starts afresh
for another call. -/
def makeActive (call : UInt16) (clock : Stream' Instant) : App F n :=
  let now := clock.head
  let b := (a.holdPrevious idx call now (clock.get 1)).resume idx call now (clock.get 2)
  let b := { b with
    active := some (idx, call)
    jb := if a.active ≠ some (idx, call) then b.jb.reset else b.jb }
  -- the sockets of the clients that were touched, in increasing order
  let touched := ((a.previous idx call).map (·.1)).toList ++ [idx]
  (touched.insertionSort (· ≤ ·)).dedup.foldl flushTx b

/-- Handle an event of the client `idx`. -/
def handleEvent (clock : Stream' Instant) : Event → App F n
  | .answered call => a.makeActive idx call clock
  | .voice call ts ulaw =>
    if a.active = some (idx, call) then { a with jb := a.jb.push ts ulaw clock.head } else a
  | .ended call _ =>
    if a.active = some (idx, call) then { a with active := none, jb := a.jb.reset } else a
  | _ => a

/-- The loop of `handle_events`, with `fuel` rounds left. -/
def eventLoop (idx : Fin n) : Nat → Stream' Instant → App F n → App F n
  | 0, _, a => a
  | fuel + 1, clock, a =>
    match (a.client idx).pollEvent with
    | (some ev, c) =>
      eventLoop idx fuel (clock.drop 3) ((a.setClient idx c).handleEvent idx clock ev)
    | (none, _) => a

/-- Handle the events of the client `idx`, until there are no more. -/
def handleEvents (clock : Stream' Instant) : App F n :=
  eventLoop idx (a.client idx).events.length clock a

/-- What follows an operation on a client: send, and handle the events. -/
def settle (clock : Stream' Instant) : App F n := (a.flushTx idx).handleEvents idx clock

/-! ## Audio -/

/-- A tick of the loudspeaker: the next frame of the active call, if it is up. -/
def pumpPlayout : Option Pull × App F n :=
  match a.active with
  | some (idx, call) =>
    if a.callState idx call = some .up then (some a.jb.pull.1, { a with jb := a.jb.pull.2 })
    else (none, a)
  | none => (none, a)

/-- A tick of the microphone: the captured frames go to the active call, if it is up. Returns the
client to flush. -/
def pumpMic (frames : List Bytes) (now : Instant) (clock : Fin n → Stream' Instant) :
    Option (Fin n) × App F n :=
  match a.active with
  | some (idx, call) =>
    if a.callState idx call = some .up then
      (some idx, a.commands idx (frames.map (.sendVoice call)) now (clock idx))
    else (none, a)
  | none => (none, a)

end

/-! ## Keys -/

/-- The live calls of all clients, as `list` shows them. -/
def callsIndex (a : App F n) : List (Fin n × UInt16) :=
  (List.finRange n).flatMap fun idx => (a.client idx).callIds.map (idx, ·)

/-- The first call of `callsIndex` that rings. -/
def findRinging (a : App F n) : Option (Fin n × UInt16) :=
  (List.finRange n).findSome? fun idx =>
    ((a.client idx).callIds.find? fun call => a.callState idx call = some .ringing).map (idx, ·)

/-- A command of the keyboard, and what follows it. -/
def enter (a : App F n) (idx : Fin n) (cmd : Command) (now : Instant) (clock : Stream' Instant) :
    App F n :=
  (a.command idx cmd now clock.head).settle idx clock.tail

/-- Carry out a line of the keyboard. Returns false if the program is to end. -/
def dispatch (a : App F n) (line : List Char) (now : Instant) (clock : Fin n → Stream' Instant) :
    Bool × App F n :=
  match Key.parse line with
  | .quit => (false, a)
  | .list => (true, a)
  | .pbx (some k) =>
    (true, if h : 1 ≤ k ∧ k ≤ n then { a with selected := ⟨k - 1, by omega⟩ } else a)
  | .pbx none => (true, a)
  | .dial number =>
    (true,
      if number = [] then a
      else a.enter a.selected (.dial (String.ofList number)) now (clock a.selected))
  | .answer =>
    (true,
      match a.findRinging with
      | some (idx, call) => a.enter idx (.answer call) now (clock idx)
      | none => a)
  | .dtmf digits =>
    (true,
      if digits = [] then a
      else
        match a.active with
        | some (idx, call) =>
          (a.commands idx (digits.map (.dtmf call)) now (clock idx)).settle idx
            ((clock idx).drop digits.length)
        | none => a)
  | .hangup =>
    (true,
      match a.active with
      | some (idx, call) =>
        { a.enter idx (.hangup call) now (clock idx) with active := none }
      | none => a)
  | .connect k =>
    (true,
      if k < 1 then a
      else
        match a.callsIndex[k - 1]? with
        | some (idx, call) =>
          match a.callState idx call with
          | some .ringing => a.enter idx (.answer call) now (clock idx)
          | some _ => a.makeActive idx call (clock idx)
          | none => a
        | none => a)
  | .unknown => (true, a)

/-! ## The main loop -/

section

variable (md5 : Md5)

/-- A datagram on the socket of the client `idx`. -/
def onDatagram (a : App F n) (idx : Fin n) (dg : Bytes) (now : Instant)
    (clock : Stream' Instant) : App F n :=
  (a.setClient idx ((a.client idx).handleInput md5 dg now clock.head)).settle idx clock.tail

/-- The timer, or the first round: every client in turn. -/
def onTimer (a : App F n) (now : Instant) (clock : Fin n → Stream' Instant) : App F n :=
  (List.finRange n).foldl
    (fun a idx =>
      (a.setClient idx ((a.client idx).handleTimeout now (clock idx).head)).settle idx
        (clock idx).tail) a

/-- A tick of the audio: microphone, then loudspeaker. -/
def onAudioTick (a : App F n) (frames : List Bytes) (now : Instant)
    (clock : Fin n → Stream' Instant) : App F n :=
  let (touched, a) := a.pumpMic frames now clock
  let a :=
    match touched with
    | some idx => a.flushTx idx
    | none => a
  a.pumpPlayout.2

end

end App

/-- What the main loop waits for. -/
inductive Wakeup (n : Nat)
  | datagram (idx : Fin n) (dg : Bytes)
  | timer
  | audioTick (frames : List Bytes)
  | line (text : String)
  /-- the hash tables of a client come to iterate in another order -/
  | rehash (idx : Fin n)
  deriving DecidableEq, Repr

/-- A wakeup, with the reading of the clock by the main loop, and the later ones on behalf of each
client. -/
structure Round (n : Nat) where
  wakeup : Wakeup n
  now : Instant := 0
  clock : Fin n → Stream' Instant := fun _ => .const 0

namespace App

variable {F : Type} [F64 F] {n : Nat} (md5 : Md5)

/-- The state after a round of the main loop. A rehash is not a round: it has no effect here. -/
def apply (a : App F n) (r : Round n) : App F n :=
  match r.wakeup with
  | .datagram idx dg => a.onDatagram md5 idx dg r.now (r.clock idx)
  | .timer => a.onTimer r.now r.clock
  | .audioTick frames => a.onAudioTick frames r.now r.clock
  | .line text => (a.dispatch text.toList r.now r.clock).2
  | .rehash _ => a

/-- A step of the driver. -/
inductive Step : App F n → Round n → App F n → Prop
  | round (a : App F n) {r : Round n} : (∀ idx, r.wakeup ≠ .rehash idx) → Step a r (a.apply md5 r)
  | rehash (a : App F n) {r : Round n} {idx : Fin n} {c : PbxClient} : r.wakeup = .rehash idx →
      (a.client idx).Reordered c → Step a r (a.setClient idx c)

/-- The softphone of some accounts. -/
def system [NeZero n] (F : Type) [F64 F] (cfgs : Vector Config n) : System (App F n) (Round n) where
  init a := ∃ starts, a = new cfgs starts
  step := Step md5

end App

/-! ## Sample runs

Two accounts, and a peer of each whose call 42 is the first incoming call. -/

namespace SoftphoneSample

def cfgs : Vector Config 2 := #v[Sample.cfg, Sample.cfg]

/-- The state after a list of rounds, from a start at the instant zero. -/
def after (rounds : List (Round 2)) : App ℚ 2 :=
  rounds.foldl (App.apply Sample.md5) (App.new cfgs #v[0, 0])

/-- The peer of a client calls. -/
def ring (idx : Fin 2) : Round 2 := { wakeup := .datagram idx Sample.newCall.encode }

def type (text : String) : Round 2 := { wakeup := .line text }

theorem run (rounds : List (Round 2)) (wakeups : ∀ r ∈ rounds, ∀ idx, r.wakeup ≠ .rehash idx) :
    (App.system Sample.md5 ℚ cfgs).Run
      (traceOf (App.apply Sample.md5) (App.new cfgs #v[0, 0]) [] rounds) (after rounds) :=
  .traceOf (P := fun r => ∀ idx, r.wakeup ≠ .rehash idx) (fun a _ wakeup => App.Step.round a wakeup)
    rounds wakeups (.start ⟨_, rfl⟩)

end SoftphoneSample

end Iax2
