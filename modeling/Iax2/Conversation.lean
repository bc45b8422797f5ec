import Iax2.Network
import Iax2.Phone

/-!
# Conversations

The softphones of `Network`, each with its audio: what its device captures goes to the other end, and
what comes from there is played. The call backs of a device are steps of their own, like everything
else that happens to a party.
-/

namespace Iax2

/-- The states of the parties, with their audio. -/
abbrev Conversation (P G : Type) {F : Type} (R : Rubato F) (n : Nat) := P → Phone G R n

namespace Conversation

variable {P G F : Type} [DecidableEq P] [F64 G] [F32 F] {R : Rubato F} {n : Nat}

/-- What the party `p` wakes up for can happen: a datagram was sent by the peer of its socket. -/
def CanHappen (peer : P × Fin n → P × Fin n) (net : Conversation P G R n) (p : P)
    (r : PhoneRound n F) : Prop :=
  ∀ idx dg, r.wakeup = .datagram idx dg →
    ((peer (p, idx)).2, dg) ∈ (net (peer (p, idx)).1).app.sent

/-- The softphones of some accounts, on some devices. -/
def system [NeZero n] (md5 : Md5) (G : Type) [F64 G] (cfgs : P → Vector Config n)
    (audio : P → AudioIo R) (peer : P × Fin n → P × Fin n) :
    System (Conversation P G R n) (P × PhoneRound n F) where
  init net := ∀ p, ∃ starts, net p = Phone.new (cfgs p) starts (audio p)
  step net e net' := CanHappen peer net e.1 e.2 ∧
    ∃ q, Phone.Step md5 (net e.1) e.2 q ∧ net' = Function.update net e.1 q

end Conversation

/-! ## Sample runs

The two phones of `NetworkSample`, on devices of their own. -/

namespace ConversationSample

section

variable {R : Rubato ℚ} (audio : AudioIo R)

def start : Conversation Bool ℚ R 1 :=
  fun p => { app := NetworkSample.start p, audio, lastPcm := [] }

/-- What happens to a party. A datagram is given by its place among all that the other one has sent.
Times are in milliseconds. -/
inductive Act
  | type (text : String)
  | arrive (i : Nat) (ms : Nat)
  | capture
  | tick (ms : Nat)

def round (net : Conversation Bool ℚ R 1) (p : Bool) : Act → PhoneRound 1 ℚ
  | .type text => { wakeup := .line text }
  | .arrive i ms =>
    { wakeup := .datagram (Fin.last 0) ((net !p).app.sent.getD i (Fin.last 0, [])).2
      clock := fun _ => .const (Duration.fromMillis ms) }
  | .capture => { wakeup := .capture [0] }
  | .tick ms => { wakeup := .audioTick, clock := fun _ => .const (Duration.fromMillis ms) }

def next (net : Conversation Bool ℚ R 1) (act : Bool × Act) : Conversation Bool ℚ R 1 :=
  Function.update net act.1 ((net act.1).apply Sample.md5 (round net act.1 act.2))

/-- Whether every datagram that arrives was sent. -/
def sent (net : Conversation Bool ℚ R 1) : List (Bool × Act) → Bool
  | [] => true
  | (p, .arrive i ms) :: acts =>
    i < (net !p).app.sent.length && sent (next net (p, .arrive i ms)) acts
  | act :: acts => sent (next net act) acts

def after (net : Conversation Bool ℚ R 1) : List (Bool × Act) → Conversation Bool ℚ R 1 :=
  List.foldl next net

def trace (net : Conversation Bool ℚ R 1)
    (past : List (Transition (Conversation Bool ℚ R 1) (Bool × PhoneRound 1 ℚ))) :
    List (Bool × Act) → List (Transition (Conversation Bool ℚ R 1) (Bool × PhoneRound 1 ℚ))
  | [] => past
  | act :: acts =>
    trace (next net act) (⟨net, (act.1, round net act.1 act.2), next net act⟩ :: past) acts

theorem run {net : Conversation Bool ℚ R 1}
    {past : List (Transition (Conversation Bool ℚ R 1) (Bool × PhoneRound 1 ℚ))}
    (acts : List (Bool × Act)) (arrive : sent net acts = true)
    (run : (Conversation.system Sample.md5 ℚ NetworkSample.cfgs (fun _ => audio)
      NetworkSample.peer).Run past net) :
    (Conversation.system Sample.md5 ℚ NetworkSample.cfgs (fun _ => audio)
      NetworkSample.peer).Run (trace net past acts) (after net acts) := by
  induction acts generalizing net past with
  | nil => exact run
  | cons act acts ih =>
    obtain ⟨p, act⟩ := act
    cases act with
    | arrive i ms =>
      obtain ⟨here, rest⟩ := (Bool.and_eq_true _ _).mp arrive
      have here : i < (net !p).app.sent.length := of_decide_eq_true here
      refine ih rest (.step run ⟨?_, _, .round _ (by simp [round]), rfl⟩)
      intro idx dg wakeup
      have member := List.getElem_mem here
      cases wakeup
      show (0, ((net !p).app.sent.getD i (0, [])).2) ∈ (net !p).app.sent
      rw [List.getD_eq_getElem?_getD, List.getElem?_eq_getElem here, Option.getD_some]
      rwa [← Prod.mk.eta (p := (net !p).app.sent[i]),
        Subsingleton.elim ((net !p).app.sent[i]).1 0] at member
    | _ =>
      refine ih arrive (.step run ⟨fun idx dg is => ?_, _, .round _ ?_, rfl⟩)
      · cases is
      · simp [round]

end

/-- The left phone dials, the right one answers and captures silence. Two frames of it are sent, and
they arrive on the left. -/
def talk : List (Bool × Act) :=
  [(false, .type "d 300"), (true, .arrive 0 0), (false, .arrive 0 0), (false, .arrive 1 0),
      (true, .type "a"), (false, .arrive 2 0)] ++
    (List.replicate 256 (true, .capture) ++ [(true, .tick 20)]) ++
    (List.replicate 256 (true, .capture) ++ [(true, .tick 60)]) ++
    [(false, .arrive 3 20), (false, .arrive 4 60)]

end ConversationSample

end Iax2
