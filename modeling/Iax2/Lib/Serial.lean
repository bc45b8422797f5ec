import Mathlib.Data.Nat.ModEq

/-!
# Serial numbers

Counters that grow without bound and travel modulo `m`. A receiver sees two residues and compares
them by their distance on the circle: one comes before another when the way forward is shorter than
half the circle.

`Serial.before_of_lt` and `Serial.before_of_le` say what the comparison of the residues tells of the
counters. Forward it is right up to half the circle. Backward it is right as far as that, and wrong
beyond it: what is more than half the circle ahead seems to lie behind.
-/

namespace Serial

/-- The way forward from `a` to `b` on a circle of `m` numbers. -/
def dist (m a b : Nat) : Nat := (b + (m - a % m)) % m

/-- Forward, `a` is less than half the circle before `b`. -/
def Before (m a b : Nat) : Prop := 0 < dist m a b ∧ dist m a b < m / 2

variable {m a b : Nat}

/-- Only the residues count. -/
theorem dist_mod (m a b : Nat) : dist m (a % m) (b % m) = dist m a b := by
  rw [dist, dist, Nat.mod_mod, Nat.mod_add_mod]

/-- The way back to the start completes the circle. -/
private theorem dist_add (pos : 0 < m) : dist m a b + a ≡ b [MOD m] := by
  have hlt : a % m < m := Nat.mod_lt a pos
  have circle : m - a % m + a = m * (a / m + 1) := by
    have split := Nat.div_add_mod a m
    rw [Nat.mul_add, Nat.mul_one]
    omega
  calc dist m a b + a
      ≡ b + (m - a % m) + a [MOD m] := (Nat.mod_modEq _ _).add_right a
    _ = b + m * (a / m + 1) := by rw [Nat.add_assoc, circle]
    _ ≡ b [MOD m] := Nat.add_mul_mod_self_left b m _

/-- The distance is the one residue that leads from `a` to `b`. -/
theorem dist_eq {d : Nat} (hd : d < m) (h : d + a ≡ b [MOD m]) : dist m a b = d := by
  have pos : 0 < m := Nat.lt_of_le_of_lt (Nat.zero_le d) hd
  have same : dist m a b ≡ d [MOD m] :=
    Nat.ModEq.add_right_cancel' a ((dist_add pos).trans h.symm)
  exact Nat.ModEq.eq_of_lt_of_lt same (Nat.mod_lt _ pos) hd

/-- Forward, the distance is the difference. -/
theorem dist_of_le (pos : 0 < m) (h : a ≤ b) : dist m a b = (b - a) % m := by
  refine dist_eq (Nat.mod_lt _ pos) ?_
  calc (b - a) % m + a
      ≡ b - a + a [MOD m] := (Nat.mod_modEq _ _).add_right a
    _ = b := Nat.sub_add_cancel h

/-- Backward, it is the rest of the circle. -/
theorem dist_of_ge (pos : 0 < m) (h : b ≤ a) : dist m a b = (m - (a - b) % m) % m := by
  refine dist_eq (Nat.mod_lt _ pos) ?_
  have hlt : (a - b) % m < m := Nat.mod_lt _ pos
  have circle : m - (a - b) % m + (a - b) = m * ((a - b) / m + 1) := by
    have split := Nat.div_add_mod (a - b) m
    rw [Nat.mul_add, Nat.mul_one]
    omega
  calc (m - (a - b) % m) % m + a
      ≡ m - (a - b) % m + a [MOD m] := (Nat.mod_modEq _ _).add_right a
    _ = m * ((a - b) / m + 1) + b := by rw [← circle]; omega
    _ ≡ b [MOD m] := Nat.mul_add_mod m _ b

/-- A smaller counter comes before a larger one unless it is half the circle or more behind. -/
theorem before_of_lt (half : 1 < m) (h : a < b) :
    Before m a b ↔ (b - 1 - a) % m < m / 2 - 1 := by
  have pos : 0 < m := Nat.lt_of_succ_lt half
  have next : (b - a) % m = ((b - 1 - a) % m + 1) % m := by
    rw [Nat.mod_add_mod]
    congr 1
    omega
  have hlt : (b - 1 - a) % m < m := Nat.mod_lt _ pos
  rw [Before, dist_of_le pos (Nat.le_of_lt h), next]
  rcases Nat.lt_or_ge ((b - 1 - a) % m + 1) m with hsmall | hlast
  · rw [Nat.mod_eq_of_lt hsmall]
    omega
  · rw [show (b - 1 - a) % m + 1 = m from Nat.le_antisymm hlt hlast, Nat.mod_self]
    omega

/-- A larger counter seems to come before a smaller one when it is more than half the circle
ahead. -/
theorem before_of_le (pos : 0 < m) (h : b ≤ a) : Before m a b ↔ m - m / 2 < (a - b) % m := by
  have hlt : (a - b) % m < m := Nat.mod_lt _ pos
  rw [Before, dist_of_ge pos h]
  rcases Nat.eq_zero_or_pos ((a - b) % m) with hzero | hpos
  · rw [hzero, Nat.sub_zero, Nat.mod_self]
    omega
  · rw [Nat.mod_eq_of_lt (by omega)]
    omega

end Serial
