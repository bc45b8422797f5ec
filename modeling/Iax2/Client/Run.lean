import Iax2.Client.Input
import Iax2.Lib.Run

/-!
# Runs of the client

The client as a transition system. A step is one call of the driver, at the instant `now` it passes
and with the clock at `clock`, or a rehash: between two operations the hash tables may come to
iterate in another order. Nothing relates `now`, `clock` and their values in other steps, so what
is proved of all runs holds whatever the driver and the clock do.
-/

namespace Iax2

/-- The calls of the driver, and the rehash. -/
inductive Op
  | handleTimeout
  | handleCommand (cmd : Command)
  | handleInput (dg : Bytes)
  | pollTransmit
  | pollEvent
  | rehash
  deriving DecidableEq, Repr

/-- A call of the driver, with the instant it passes and the reading of the clock. -/
structure Invocation where
  op : Op
  now : Instant := 0
  clock : Instant := 0
  deriving DecidableEq, Repr

namespace PbxClient

/-- The two states differ in the iteration order of their tables only. -/
def Reordered (s s' : PbxClient) : Prop :=
  ∃ calls remoteIndex, s.calls.Reordered calls ∧ s.remoteIndex.Reordered remoteIndex ∧
    s' = { s with calls, remoteIndex }

section

variable (md5 : Md5)

/-- The state after a call. A rehash is not a call: it has no effect here. -/
def apply (s : PbxClient) (i : Invocation) : PbxClient :=
  match i.op with
  | .handleTimeout => s.handleTimeout i.now i.clock
  | .handleCommand cmd => s.handleCommand cmd i.now i.clock
  | .handleInput dg => s.handleInput md5 dg i.now i.clock
  | .pollTransmit => s.pollTransmit.2
  | .pollEvent => s.pollEvent.2
  | .rehash => s

/-- A step of the client. -/
inductive Step : PbxClient → Invocation → PbxClient → Prop
  | call (s : PbxClient) {i : Invocation} : i.op ≠ .rehash → Step s i (s.apply md5 i)
  | rehash {s s' : PbxClient} {i : Invocation} : i.op = .rehash → s.Reordered s' → Step s i s'

/-- The client of one account. -/
def system (cfg : Config) : System PbxClient Invocation where
  init s := ∃ now, s = new cfg now
  step := Step md5

/-- A list of calls makes a run. -/
theorem run_calls {cfg : Config} {past : List (Transition PbxClient Invocation)} {s : PbxClient}
    (is : List Invocation) (calls : ∀ i ∈ is, i.op ≠ .rehash) (run : (system md5 cfg).Run past s) :
    (system md5 cfg).Run (traceOf (apply md5) s past is) (is.foldl (apply md5) s) :=
  run.traceOf (fun s _ call => Step.call s call) is calls

end

/-- The datagrams that a step queues. -/
def pushed (s s' : PbxClient) : List Bytes := s'.out.drop s.out.length

/-- The events that a step queues. -/
def emitted (s s' : PbxClient) : List Event := s'.events.drop s.events.length

end PbxClient

/-- One transition of a run of the client. -/
abbrev PbxClient.Move := Transition PbxClient Invocation

namespace PbxClient.Move

/-- The datagrams of the transition. -/
def pushed (t : Move) : List Bytes := t.pre.pushed t.post

/-- The events of the transition. -/
def emitted (t : Move) : List Event := t.pre.emitted t.post

end PbxClient.Move

/-! ## Sample runs

The parts of the runs that the laws exhibit: one account, and one peer whose call 42 is the first
incoming call. -/

namespace Sample

def cfg : Config :=
  { username := "10001", secret := "segreto", refresh := 60, audioFormat := Format.ulaw }

/-- No frame of a sample run asks for a response. -/
def md5 : Md5 := fun _ => Vector.replicate 16 0

/-- The NEW of the peer's call 42. -/
def newCall : FullFrame :=
  FullFrame.new 42 0 100 0 0 Frametype.iax Iax.new
    [Ie.str IeKind.callingNumber "200", Ie.str IeKind.calledNumber "10001"]

/-- A frame without elements on the peer's call 42, for our call 16. -/
def frame (ts : UInt32) (oseq iseq ft sc : UInt8) : FullFrame :=
  FullFrame.new 42 16 ts oseq iseq ft sc []

def receive (f : FullFrame) : Invocation := { op := .handleInput f.encode }

def command (cmd : Command) : Invocation := { op := .handleCommand cmd }

/-- The transitions of a list of calls of the driver, on a new client. -/
def trace (is : List Invocation) : List PbxClient.Move :=
  traceOf (PbxClient.apply md5) (PbxClient.new cfg 0) [] is

/-- The state after a list of calls of the driver, on a new client. -/
def after (is : List Invocation) : PbxClient := is.foldl (PbxClient.apply md5) (PbxClient.new cfg 0)

theorem run (is : List Invocation) (calls : ∀ i ∈ is, i.op ≠ .rehash) :
    (PbxClient.system md5 cfg).Run (trace is) (after is) :=
  PbxClient.run_calls md5 is calls (.start ⟨0, rfl⟩)

end Sample

end Iax2
