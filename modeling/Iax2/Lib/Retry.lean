import Iax2.Lib.Run
import Mathlib.Algebra.Order.Group.Nat
import Mathlib.Algebra.Order.Monoid.Defs

/-!
# Stop and wait

A sender with one message in flight at most. It repeats the message when its deadline has passed, a
number of times, and then gives up. A message in flight may be settled, or displaced by the next one,
at any time.

What the sender does is listed with the times at which it does it (`Act`), newest first, and
`Sender w n log flight` lists what can be done with a wait of `w` and `n` repeats. The law of such a
log is `Sender.disciplined`: what is repeated is what was sent last, at least a wait ago, and not too
often; and the sender gives up after all its repeats and as many waits (`Sent.elapsed`).
-/

namespace Retry

/-- What a sender does. -/
inductive Act (M T : Type*)
  /-- send a message for the first time -/
  | send (m : M) (t : T)
  | resend (m : M) (t : T)
  /-- the message in flight is waited for no longer -/
  | settle
  | giveUp (t : T)
  deriving DecidableEq, Repr

/-- A message in flight. -/
structure Flight (M T : Type*) where
  msg : M
  deadline : T
  /-- how often it was repeated -/
  tries : ℕ
  deriving DecidableEq, Repr

variable {M T : Type*} {m : M}

/-- The messages that went out, oldest first. -/
def transmitted : List (Act M T) → List M
  | [] => []
  | .send m _ :: log => transmitted log ++ [m]
  | .resend m _ :: log => transmitted log ++ [m]
  | _ :: log => transmitted log

variable [AddCommMonoid T] [PartialOrder T] (w : T)

/-- `Sent w m k t₀ t log`: the latest that was done is to send `m`, for the first time at `t₀`, and
to repeat it `k` times, each time at least `w` after the last, and at last at `t`. -/
inductive Sent (m : M) : ℕ → T → T → List (Act M T) → Prop
  | send {log : List (Act M T)} (t : T) : Sent m 0 t t (.send m t :: log)
  | resend {k : ℕ} {t₀ t t' : T} {log : List (Act M T)} :
      Sent m k t₀ t log → t + w ≤ t' → Sent m (k + 1) t₀ t' (.resend m t' :: log)

/-- The sender has done `log`, newest first, with the wait `w` and `n` repeats, and waits for
`flight`. -/
inductive Sender (n : ℕ) : List (Act M T) → Option (Flight M T) → Prop
  | start : Sender n [] none
  | send {log : List (Act M T)} {flight : Option (Flight M T)} (m : M) (t : T) :
      Sender n log flight → Sender n (.send m t :: log) (some ⟨m, t + w, 0⟩)
  | resend {log : List (Act M T)} {f : Flight M T} {t : T} :
      Sender n log (some f) → f.deadline ≤ t → f.tries < n →
        Sender n (.resend f.msg t :: log) (some ⟨f.msg, t + w, f.tries + 1⟩)
  | settle {log : List (Act M T)} {flight : Option (Flight M T)} :
      Sender n log flight → Sender n (.settle :: log) none
  | giveUp {log : List (Act M T)} {f : Flight M T} {t : T} :
      Sender n log (some f) → f.deadline ≤ t → n ≤ f.tries → Sender n (.giveUp t :: log) none

/-- What may be done after `log`: to repeat what was sent last, at least `w` ago and not yet repeated
`n` times, and to give it up at least `w` after the last repeat, when all the waits are over. -/
def Disciplined (n : ℕ) : Act M T → List (Act M T) → Prop
  | .resend m t, log => ∃ k t₀ t', Sent w m k t₀ t' log ∧ t' + w ≤ t ∧ k < n
  | .giveUp t, log => ∃ m t₀ t', Sent w m n t₀ t' log ∧ t' + w ≤ t ∧ t₀ + (n + 1) • w ≤ t
  | _, _ => True

variable {w} {n : ℕ} {log : List (Act M T)} {flight : Option (Flight M T)}

/-- What was repeated went out again and again with nothing in between. -/
theorem Sent.transmitted {k : ℕ} {t₀ t : T} (h : Sent w m k t₀ t log) :
    ∃ before, transmitted log = before ++ List.replicate (k + 1) m := by
  induction h with
  | send _ => exact ⟨_, rfl⟩
  | resend _ _ ih =>
    obtain ⟨before, out⟩ := ih
    refine ⟨before, ?_⟩
    rw [Retry.transmitted, out, List.append_assoc, List.replicate_succ' (n := _ + 1)]

variable [IsOrderedAddMonoid T]

/-- The repeats take their time. -/
theorem Sent.elapsed {k : ℕ} {t₀ t : T} (h : Sent w m k t₀ t log) : t₀ + k • w ≤ t := by
  induction h with
  | send _ => rw [zero_nsmul, add_zero]
  | @resend k t₀ t t' _ _ late ih =>
    calc t₀ + (k + 1) • w = t₀ + k • w + w := by rw [succ_nsmul, add_assoc]
      _ ≤ t + w := by gcongr
      _ ≤ t' := late

omit [IsOrderedAddMonoid T] in
/-- What is in flight is what was sent last. -/
theorem Sender.sent (h : Sender w n log flight) :
    ∀ f, flight = some f →
      ∃ t₀ t, Sent w f.msg f.tries t₀ t log ∧ f.deadline = t + w ∧ f.tries ≤ n := by
  induction h with
  | start => exact fun _ none => nomatch none
  | send m t _ _ =>
    intro f here
    cases here
    exact ⟨t, t, .send t, rfl, Nat.zero_le n⟩
  | @resend _ f t _ late few ih =>
    intro f' here
    cases here
    obtain ⟨t₀, t', sent, deadline, _⟩ := ih f rfl
    exact ⟨t₀, t, .resend sent (deadline ▸ late), rfl, few⟩
  | settle _ _ => exact fun _ none => nomatch none
  | giveUp _ _ _ _ => exact fun _ none => nomatch none

theorem Sender.disciplined (h : Sender w n log flight) : Always (Disciplined w n) log := by
  induction h with
  | start => trivial
  | send _ _ _ ih => exact ⟨trivial, ih⟩
  | @resend _ f t before late few ih =>
    obtain ⟨t₀, t', sent, deadline, _⟩ := before.sent f rfl
    exact ⟨⟨f.tries, t₀, t', sent, deadline ▸ late, few⟩, ih⟩
  | settle _ ih => exact ⟨trivial, ih⟩
  | @giveUp _ f t before late many ih =>
    obtain ⟨t₀, t', sent, deadline, few⟩ := before.sent f rfl
    obtain rfl := le_antisymm few many
    have late : t' + w ≤ t := deadline ▸ late
    exact ⟨⟨f.msg, t₀, t', sent, late, (Sent.resend sent late).elapsed⟩, ih⟩

end Retry
