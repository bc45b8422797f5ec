import Iax2.Softphone
import Mathlib.Logic.Function.Basic

/-!
# Softphones that call each other

A softphone speaks to whatever is at the other end of its sockets. Here that is the sockets of other
softphones: `peer` says which one. Every socket is connected to one address, so what it receives was
sent by its peer. The network does not promise more: a datagram may come late, out of order, more
than once, or never.
-/

namespace Iax2

/-- The states of the parties. Each has `n` accounts. -/
abbrev Network (P F : Type) (n : Nat) := P → App F n

namespace Network

variable {P F : Type} [DecidableEq P] [F64 F] {n : Nat}

/-- What the party `p` wakes up for can happen: a datagram was sent by the peer of its socket. -/
def CanHappen (peer : P × Fin n → P × Fin n) (net : Network P F n) (p : P) (r : Round n) : Prop :=
  ∀ idx dg, r.wakeup = .datagram idx dg → ((peer (p, idx)).2, dg) ∈ (net (peer (p, idx)).1).sent

/-- The softphones of some accounts, each taking a round of its own at a time. -/
def system [NeZero n] (md5 : Md5) (F : Type) [F64 F] (cfgs : P → Vector Config n)
    (peer : P × Fin n → P × Fin n) : System (Network P F n) (P × Round n) where
  init net := ∀ p, ∃ starts, net p = App.new (cfgs p) starts
  step net e net' := CanHappen peer net e.1 e.2 ∧
    ∃ a, App.Step md5 (net e.1) e.2 a ∧ net' = Function.update net e.1 a

end Network

/-! ## Sample runs

Two phones with one account each. -/

namespace NetworkSample

def cfgs : Bool → Vector Config 1 := fun _ => #v[Sample.cfg]

def peer (e : Bool × Fin 1) : Bool × Fin 1 := (!e.1, e.2)

def start : Network Bool ℚ 1 := fun p => App.new (cfgs p) #v[0]

/-- What happens to a party: a line of its keyboard, or a datagram of the other one arrives, given by
its place among all that the other one has sent. -/
abbrev Act := Bool × (String ⊕ Nat)

def round (net : Network Bool ℚ 1) : Act → Round 1
  | (_, .inl text) => { wakeup := .line text }
  | (p, .inr i) => { wakeup := .datagram 0 ((net !p).sent.getD i (0, [])).2 }

def next (net : Network Bool ℚ 1) (act : Act) : Network Bool ℚ 1 :=
  Function.update net act.1 ((net act.1).apply Sample.md5 (round net act))

/-- Whether every datagram that arrives was sent. -/
def sent (net : Network Bool ℚ 1) : List Act → Bool
  | [] => true
  | (p, .inl text) :: acts => sent (next net (p, .inl text)) acts
  | (p, .inr i) :: acts => i < (net !p).sent.length && sent (next net (p, .inr i)) acts

def after : Network Bool ℚ 1 → List Act → Network Bool ℚ 1 := List.foldl next

def trace (net : Network Bool ℚ 1)
    (past : List (Transition (Network Bool ℚ 1) (Bool × Round 1))) :
    List Act → List (Transition (Network Bool ℚ 1) (Bool × Round 1))
  | [] => past
  | act :: acts => trace (next net act) (⟨net, (act.1, round net act), next net act⟩ :: past) acts

theorem run {net : Network Bool ℚ 1}
    {past : List (Transition (Network Bool ℚ 1) (Bool × Round 1))} (acts : List Act)
    (arrive : sent net acts = true)
    (run : (Network.system Sample.md5 ℚ cfgs peer).Run past net) :
    (Network.system Sample.md5 ℚ cfgs peer).Run (trace net past acts) (after net acts) := by
  induction acts generalizing net past with
  | nil => exact run
  | cons act acts ih =>
    obtain ⟨p, text | i⟩ := act
    · exact ih arrive (.step run ⟨nofun, _, .round _ nofun, rfl⟩)
    · obtain ⟨here, rest⟩ := (Bool.and_eq_true _ _).mp arrive
      have here : i < (net !p).sent.length := of_decide_eq_true here
      refine ih rest (.step run ⟨fun idx dg wakeup => ?_, _, .round _ nofun, rfl⟩)
      have member := List.getElem_mem here
      cases wakeup
      show (0, ((net !p).sent.getD i (0, [])).2) ∈ (net !p).sent
      rw [List.getD_eq_getElem?_getD, List.getElem?_eq_getElem here, Option.getD_some]
      rwa [← Prod.mk.eta (p := (net !p).sent[i]), Subsingleton.elim ((net !p).sent[i]).1 0]
        at member

/-- The left phone dials, and the right one answers. -/
def call : List Act :=
  [(false, .inl "d 300"), (true, .inr 0), (false, .inr 0), (false, .inr 1), (true, .inl "a"),
    (false, .inr 2)]

end NetworkSample

end Iax2
