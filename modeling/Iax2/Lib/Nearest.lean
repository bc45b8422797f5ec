import Mathlib.Data.Nat.Dist
import Mathlib.Data.Nat.ModEq

/-!
# The nearest representative

A counter below `B` travels modulo `m`. The receiver has a reference, the last counter that it
knows, and takes the representative that is nearest to it. `Nearest` says when this is the counter
that was sent. It is unique (`Nearest.unique`), so a receiver that computes it reads a counter right
exactly when the counter is the nearest one. With `m` even this is so when the counter is at most
half of `m` away from the reference, or when the range leaves no other choice
(`Nearest.iff_bounds`).
-/

/-- Of the numbers below `B` that are congruent to `x` modulo `m`, none is as near to `r` as `x`, or
it is larger. -/
structure Nearest (m B r x : Nat) : Prop where
  bound : x < B
  least : ∀ y < B, y ≡ x [MOD m] → y ≠ x →
    Nat.dist r x < Nat.dist r y ∨ Nat.dist r x = Nat.dist r y ∧ x < y

namespace Nearest

variable {m h B r x y : Nat}

theorem unique (hx : Nearest m B r x) (hy : Nearest m B r y) (same : x ≡ y [MOD m]) : x = y := by
  by_contra ne
  have nearer := hx.least y hy.bound same.symm (Ne.symm ne)
  have nearer' := hy.least x hx.bound same ne
  omega

/-- Two representatives are at least `m` apart. -/
theorem apart (same : y ≡ x [MOD m]) (ne : y ≠ x) : x + m ≤ y ∨ y + m ≤ x := by
  rcases Nat.lt_or_gt_of_ne ne with less | greater
  · right
    have divides := (Nat.modEq_iff_dvd' (Nat.le_of_lt less)).mp same
    have := Nat.le_of_dvd (Nat.sub_pos_of_lt less) divides
    omega
  · left
    have divides := (Nat.modEq_iff_dvd' (Nat.le_of_lt greater)).mp same.symm
    have := Nat.le_of_dvd (Nat.sub_pos_of_lt greater) divides
    omega

/-- What is less than half of `m` away is the nearest. -/
theorem of_close (bound : x < B) (close : 2 * Nat.dist r x < m) : Nearest m B r x := by
  refine ⟨bound, fun y _ same ne => .inl ?_⟩
  rcases apart same ne with h | h
  · simp only [Nat.dist] at close ⊢
    omega
  · simp only [Nat.dist] at close ⊢
    omega

/-- A number is the nearest if it is not too far below the reference, or no number follows it in the
range, and not too far above the reference, or no number precedes it. On a tie the smaller one is
taken, so below is half of `m` and above is less. -/
theorem iff_bounds (pos : 0 < h) : Nearest (2 * h) B r x ↔
    x < B ∧ (r ≤ x + h ∨ B ≤ x + 2 * h) ∧ (x < r + h ∨ x < 2 * h) := by
  constructor
  · rintro ⟨bound, least⟩
    refine ⟨bound, ?_, ?_⟩
    · -- otherwise the next number is nearer
      by_contra far
      have next := least (x + 2 * h) (by omega) (Nat.add_modEq_right) (by omega)
      simp only [Nat.dist] at next
      omega
    · -- otherwise the number before is nearer, or as near and smaller
      by_contra far
      have same : x - 2 * h ≡ x [MOD 2 * h] := by
        have := (Nat.add_modEq_right : x - 2 * h + 2 * h ≡ x - 2 * h [MOD 2 * h])
        rw [Nat.sub_add_cancel (by omega)] at this
        exact this.symm
      have before := least (x - 2 * h) (by omega) same (by omega)
      simp only [Nat.dist] at before
      omega
  · rintro ⟨bound, below, above⟩
    refine ⟨bound, fun y hy same ne => ?_⟩
    simp only [Nat.dist]
    rcases apart same ne with far | far <;> omega

end Nearest
