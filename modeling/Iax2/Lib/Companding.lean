import Mathlib.Data.Nat.Log
import Mathlib.Tactic.Ring

/-!
# Quantisation at the leading bit

A number is kept as the position of its leading bit and the `p` bits below it, and read back as the
middle of the cell of all numbers with the same code. The steps between the cells double from one
position to the next, so the error is relative to the number (`middle_near`).

The smallest step is `2 ^ (d + 1)`, for the numbers from `2 ^ (p + d + 1)` on. All steps are even, so
the middle of a cell is a number.
-/

namespace Companding

variable {p d e m x y : Nat}

/-- The position of the leading bit, from the first one on that has a code, and the bits below. -/
def code (p d x : Nat) : Nat × Nat :=
  let e := Nat.log2 x - (p + d + 1)
  (e, x / 2 ^ (e + d + 1) % 2 ^ p)

/-- The middle of the cell of a code. -/
def middle (p d e m : Nat) : Nat := (2 ^ p + m) * 2 ^ (e + d + 1) + 2 ^ (e + d)

/-- A number is in the cell of a code. -/
def InCell (p d x e m : Nat) : Prop :=
  (2 ^ p + m) * 2 ^ (e + d + 1) ≤ x ∧ x < (2 ^ p + m + 1) * 2 ^ (e + d + 1)

theorem middle_inCell (p d e m : Nat) : InCell p d (middle p d e m) e m := by
  have half : 2 ^ (e + d) < 2 ^ (e + d + 1) := Nat.pow_lt_pow_right (by omega) (by omega)
  constructor
  · exact Nat.le_add_right _ _
  · rw [middle, Nat.succ_mul]
    omega

/-- The leading bit of the numbers of a cell. -/
theorem InCell.log2 (cell : InCell p d x e m) (hm : m < 2 ^ p) : Nat.log2 x = e + (p + d + 1) := by
  have lower : 2 ^ (e + (p + d + 1)) ≤ x := by
    calc 2 ^ (e + (p + d + 1)) = 2 ^ p * 2 ^ (e + d + 1) := by rw [← Nat.pow_add]; congr 1; omega
      _ ≤ (2 ^ p + m) * 2 ^ (e + d + 1) := Nat.mul_le_mul_right _ (by omega)
      _ ≤ x := cell.1
  have upper : x < 2 ^ (e + (p + d + 1) + 1) := by
    calc x < (2 ^ p + m + 1) * 2 ^ (e + d + 1) := cell.2
      _ ≤ 2 ^ (p + 1) * 2 ^ (e + d + 1) := Nat.mul_le_mul_right _ (by rw [Nat.pow_succ]; omega)
      _ = 2 ^ (e + (p + d + 1) + 1) := by rw [← Nat.pow_add]; congr 1; omega
  have pos : x ≠ 0 := by
    have := Nat.two_pow_pos (e + (p + d + 1))
    omega
  exact (Nat.log2_eq_iff pos).mpr ⟨lower, upper⟩

/-- The cells do not overlap: a number is in the cell of its code alone. -/
theorem InCell.code_eq (cell : InCell p d x e m) (hm : m < 2 ^ p) : code p d x = (e, m) := by
  have leading : Nat.log2 x - (p + d + 1) = e := by rw [cell.log2 hm]; omega
  have bits : x / 2 ^ (e + d + 1) = 2 ^ p + m :=
    Nat.div_eq_of_lt_le cell.1 cell.2
  rw [code, leading, bits, Nat.add_mod_left, Nat.mod_eq_of_lt hm]

/-- Every number from the first cell on is in the cell of its code. -/
theorem code_inCell (large : 2 ^ (p + d + 1) ≤ x) :
    InCell p d x (code p d x).1 (code p d x).2 := by
  have pos : x ≠ 0 := by
    have := Nat.two_pow_pos (p + d + 1)
    omega
  have reach : p + d + 1 ≤ Nat.log2 x := (Nat.le_log2 pos).mpr large
  obtain ⟨e, he⟩ := Nat.exists_eq_add_of_le' reach
  have exponent : Nat.log2 x - (p + d + 1) = e := by omega
  obtain ⟨lower, upper⟩ := (Nat.log2_eq_iff pos).mp he
  have step := Nat.two_pow_pos (e + d + 1)
  have low : 2 ^ p ≤ x / 2 ^ (e + d + 1) := by
    rw [Nat.le_div_iff_mul_le step, ← Nat.pow_add]
    exact le_trans (Nat.pow_le_pow_right (by omega) (by omega)) lower
  have high : x / 2 ^ (e + d + 1) < 2 * 2 ^ p := by
    rw [Nat.div_lt_iff_lt_mul step, ← Nat.pow_succ', ← Nat.pow_add]
    exact lt_of_lt_of_le upper (Nat.pow_le_pow_right (by omega) (by omega))
  have bits : 2 ^ p + x / 2 ^ (e + d + 1) % 2 ^ p = x / 2 ^ (e + d + 1) := by
    rw [Nat.mod_eq_sub_mod low, Nat.mod_eq_of_lt (by omega)]
    omega
  rw [code, exponent]
  constructor
  · rw [bits]
    exact Nat.div_mul_le_self _ _
  · rw [bits]
    exact (Nat.div_lt_iff_lt_mul step).mp (Nat.lt_succ_self _)

theorem code_snd_lt (p d x : Nat) : (code p d x).2 < 2 ^ p := Nat.mod_lt _ (Nat.two_pow_pos p)

/-- The middle of a cell is read back. -/
theorem code_middle (hm : m < 2 ^ p) : code p d (middle p d e m) = (e, m) :=
  (middle_inCell p d e m).code_eq hm

/-- The middle of a cell is within half a step of each of its numbers. -/
theorem InCell.near (cell : InCell p d x e m) :
    x ≤ middle p d e m + 2 ^ (e + d) ∧ middle p d e m ≤ x + 2 ^ (e + d) := by
  obtain ⟨lower, upper⟩ := cell
  rw [Nat.succ_mul] at upper
  have step : 2 ^ (e + d + 1) = 2 ^ (e + d) + 2 ^ (e + d) := by rw [Nat.pow_succ]; omega
  rw [middle]
  omega

/-- What is read back differs from the number by no more than one part in `2 ^ (p + 1)`. -/
theorem middle_near (large : 2 ^ (p + d + 1) ≤ x) :
    2 ^ (p + 1) * ((middle p d (code p d x).1 (code p d x).2 : Int) - x).natAbs ≤ x := by
  have cell := code_inCell large
  have near := cell.near
  generalize (code p d x).1 = e at *
  generalize (code p d x).2 = m at *
  have apart : ((middle p d e m : Int) - x).natAbs ≤ 2 ^ (e + d) := by omega
  calc 2 ^ (p + 1) * ((middle p d e m : Int) - x).natAbs
      ≤ 2 ^ (p + 1) * 2 ^ (e + d) := Nat.mul_le_mul_left _ apart
    _ = 2 ^ p * 2 ^ (e + d + 1) := by rw [← Nat.pow_add, ← Nat.pow_add]; congr 1; omega
    _ ≤ (2 ^ p + m) * 2 ^ (e + d + 1) := Nat.mul_le_mul_right _ (by omega)
    _ ≤ x := cell.1

/-- The cells follow one another. -/
theorem InCell.middle_le {e' m' : Nat} (cell : InCell p d x e m) (cell' : InCell p d y e' m')
    (hm : m < 2 ^ p) (hm' : m' < 2 ^ p) (le : x ≤ y) : middle p d e m ≤ middle p d e' m' := by
  have leading : e ≤ e' := by
    have logs : Nat.log2 x ≤ Nat.log2 y := by
      rw [Nat.log2_eq_log_two, Nat.log2_eq_log_two]
      exact Nat.log_mono_right le
    rw [cell.log2 hm, cell'.log2 hm'] at logs
    omega
  rcases Nat.lt_or_eq_of_le leading with less | rfl
  · -- the cell of `x` ends below the next leading bit
    calc middle p d e m ≤ (2 ^ p + m + 1) * 2 ^ (e + d + 1) := (middle_inCell p d e m).2.le
      _ ≤ 2 ^ (p + 1) * 2 ^ (e + d + 1) := Nat.mul_le_mul_right _ (by rw [Nat.pow_succ]; omega)
      _ = 2 ^ p * 2 ^ (e + d + 2) := by rw [← Nat.pow_add, ← Nat.pow_add]; congr 1; omega
      _ ≤ 2 ^ p * 2 ^ (e' + d + 1) :=
        Nat.mul_le_mul_left _ (Nat.pow_le_pow_right (by omega) (by omega))
      _ ≤ (2 ^ p + m') * 2 ^ (e' + d + 1) := Nat.mul_le_mul_right _ (by omega)
      _ ≤ middle p d e' m' := Nat.le_add_right _ _
  · have below : m ≤ m' := by
      by_contra more
      have ends : (2 ^ p + m' + 1) * 2 ^ (e + d + 1) ≤ (2 ^ p + m) * 2 ^ (e + d + 1) :=
        Nat.mul_le_mul_right _ (by omega)
      have := cell.1
      have := cell'.2
      omega
    exact Nat.add_le_add_right (Nat.mul_le_mul_right _ (by omega)) _

/-- Reading back keeps the order. -/
theorem middle_mono (large : 2 ^ (p + d + 1) ≤ x) (le : x ≤ y) :
    middle p d (code p d x).1 (code p d x).2 ≤ middle p d (code p d y).1 (code p d y).2 :=
  (code_inCell large).middle_le (code_inCell (le_trans large le)) (code_snd_lt p d x)
    (code_snd_lt p d y) le

end Companding
