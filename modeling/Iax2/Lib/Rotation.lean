import Mathlib.Data.List.Chain
import Mathlib.Data.List.Iterate
import Mathlib.Data.Nat.ModEq
import Mathlib.Logic.Function.Iterate

/-!
# Rotating cursors

A cursor goes round a cycle of `N` values, one value after the other, and what it passes is used up:
a number is given out, a slot is tried. `Rotates` says that it is a cycle. `Trail` is what the
cursor has passed so far, newest first.

The use of such a cursor is in two facts about every trail. A value is not passed again before all
the others are (`Trail.between`), and the next value is none of the last `N - 1` ones
(`Trail.fresh`).
-/

/-- `next` goes round the values of `P` in `N` steps. -/
structure Rotates {α : Type*} (next : α → α) (P : α → Prop) (N : Nat) : Prop where
  closed : ∀ x, P x → P (next x)
  /-- no value returns earlier -/
  period : ∀ x, P x → ∀ i, next^[i] x = x → N ∣ i
  reach : ∀ x y, P x → P y → ∃ i < N, next^[i] x = y

/-- The cursor stands at `c`, and has passed the values `l`, newest first. -/
def Trail {α : Type*} (next : α → α) (c : α) (l : List α) : Prop :=
  (c :: l).IsChain fun a b => a = next b

namespace Rotates

variable {α : Type*} {next : α → α} {P : α → Prop} {N : Nat} {x : α}

theorem iterate (h : Rotates next P N) (hx : P x) (i : Nat) : P (next^[i] x) := by
  induction i with
  | zero => exact hx
  | succ i ih =>
    rw [Function.iterate_succ_apply']
    exact h.closed _ ih

/-- A counter modulo `N` rotates. The position of a value is its count. -/
theorem of_count (count : α → Nat) (closed : ∀ x, P x → P (next x))
    (bound : ∀ x, P x → count x < N)
    (inj : ∀ x y, P x → P y → count x = count y → x = y)
    (succ : ∀ x, P x → count (next x) = (count x + 1) % N) : Rotates next P N := by
  have stays (x : α) (hx : P x) (i : Nat) :
      P (next^[i] x) ∧ count (next^[i] x) = (count x + i) % N := by
    induction i with
    | zero => exact ⟨hx, (Nat.mod_eq_of_lt (bound x hx)).symm⟩
    | succ i ih =>
      rw [Function.iterate_succ_apply']
      exact ⟨closed _ ih.1, by rw [succ _ ih.1, ih.2, Nat.mod_add_mod, Nat.add_assoc]⟩
  refine ⟨closed, fun x hx i same => ?_, fun x y hx hy => ?_⟩
  · have back := (stays x hx i).2
    rw [same] at back
    have congruent : count x + i ≡ count x + 0 [MOD N] := by
      show (count x + i) % N = count x % N
      rw [← back, Nat.mod_eq_of_lt (bound x hx)]
    exact (Nat.modEq_zero_iff_dvd).mp (Nat.ModEq.add_left_cancel' _ congruent)
  · have hx' := bound x hx
    have hy' := bound y hy
    refine ⟨(count y + (N - count x)) % N, Nat.mod_lt _ (by omega), ?_⟩
    obtain ⟨inside, reached⟩ := stays x hx ((count y + (N - count x)) % N)
    refine inj _ _ inside hy ?_
    rw [reached, Nat.add_mod_mod, show count x + (count y + (N - count x)) = count y + N by omega,
      Nat.add_mod_right, Nat.mod_eq_of_lt hy']

end Rotates

namespace Trail

variable {α : Type*} {next : α → α} {P : α → Prop} {N : Nat} {c n m : α} {l w rest : List α}

theorem nil (next : α → α) (c : α) : Trail next c [] := .singleton c

/-- The cursor passes the value it stands at. -/
theorem pass (h : Trail next c l) : Trail next (next c) (c :: l) := .cons_cons rfl h

/-- The cursor passes `k` values. -/
theorem pass_iterate (h : Trail next c l) (k : Nat) :
    Trail next (next^[k] c) ((List.iterate next c k).reverse ++ l) := by
  induction k generalizing c l with
  | zero => exact h
  | succ k ih =>
    rw [List.iterate, List.reverse_cons, List.append_assoc]
    exact ih h.pass

/-- What the cursor has passed leads to where it stands. -/
theorem iterate_eq (h : Trail next c l) {i : Nat} {x : α} (hx : l[i]? = some x) :
    next^[i + 1] x = c := by
  induction l generalizing c i with
  | nil => cases hx
  | cons b l ih =>
    obtain ⟨here, before⟩ := List.isChain_cons_cons.mp h
    cases i with
    | zero =>
      cases hx
      exact here.symm
    | succ i => rw [Function.iterate_succ_apply', ih before hx, here]

/-- Since a value was passed, so were those that follow it. -/
theorem mem_of_lt (h : Trail next c (w ++ n :: rest)) {i : Nat} (hi : i < w.length) :
    next^[i + 1] n ∈ w := by
  induction w generalizing c with
  | nil => cases hi
  | cons b w ih =>
    have before : Trail next b (w ++ n :: rest) := (List.isChain_cons_cons.mp h).2
    rcases Nat.lt_succ_iff_lt_or_eq.mp hi with older | last
    · exact List.mem_cons_of_mem b (ih before older)
    · have arrived : next^[w.length + 1] n = b :=
        before.iterate_eq (by rw [List.getElem?_append_right (Nat.le_refl _), Nat.sub_self]; rfl)
      rw [last, arrived]
      exact List.mem_cons_self

/-- Between two times that a value is passed, every other value is. -/
theorem between (rotates : Rotates next P N) (hn : P n) (hm : P m) (ne : m ≠ n)
    (h : Trail next n (w ++ n :: rest)) : m ∈ w := by
  have round : N ≤ w.length + 1 := by
    refine Nat.le_of_dvd (Nat.succ_pos _) (rotates.period n hn _ ?_)
    exact h.iterate_eq (by rw [List.getElem?_append_right (Nat.le_refl _), Nat.sub_self]; rfl)
  obtain ⟨i, hi, reached⟩ := rotates.reach n m hn hm
  cases i with
  | zero => exact absurd reached.symm ne
  | succ i => exact reached ▸ h.mem_of_lt (by omega)

/-- The value where the cursor stands is none of the last ones. -/
theorem fresh (rotates : Rotates next P N) (hc : P c) (h : Trail next c l) :
    c ∉ l.take (N - 1) := by
  intro passed
  obtain ⟨i, hi, at_i⟩ := List.mem_iff_getElem.mp passed
  rw [List.length_take] at hi
  rw [List.getElem_take] at at_i
  have again : next^[i + 1] c = c := h.iterate_eq (List.getElem?_eq_some_iff.mpr ⟨_, at_i⟩)
  have := Nat.le_of_dvd (Nat.succ_pos i) (rotates.period c hc _ again)
  omega

end Trail
