import Mathlib.Data.List.Basic

/-!
# Streams in blocks

A stream that is handled in blocks of `n` values: its complete blocks, in order, and the values that
are left until the next block is complete. `blocks_append` says how the blocks go on when the stream
does, so that it does not matter where the stream was cut.

A stateful function on blocks is carried along a list of blocks by `mapAccum`, which collects what
it returns.
-/

namespace Blocks

variable {α β σ : Type*} {n : Nat} {xs ys b : List α}

/-- The complete blocks of a list, in order. -/
def blocks (n : Nat) (xs : List α) : List (List α) :=
  (List.range (xs.length / n)).map fun i => (xs.drop (i * n)).take n

/-- What follows the last complete block. -/
def rest (n : Nat) (xs : List α) : List α := xs.drop (xs.length / n * n)

/-- The state after a list of blocks, and all that was returned for them. -/
def mapAccum (step : σ → List α → σ × List β) : σ → List (List α) → σ × List β
  | st, [] => (st, [])
  | st, b :: bs =>
    let (st', out) := step st b
    let (st'', outs) := mapAccum step st' bs
    (st'', out ++ outs)

/-! ## Short lists and first blocks -/

theorem blocks_of_lt (short : xs.length < n) : blocks n xs = [] := by
  rw [blocks, Nat.div_eq_of_lt short]
  rfl

theorem rest_of_lt (short : xs.length < n) : rest n xs = xs := by
  rw [rest, Nat.div_eq_of_lt short, Nat.zero_mul, List.drop_zero]

private theorem length_div (pos : 0 < n) (full : b.length = n) :
    (b ++ xs).length / n = xs.length / n + 1 := by
  rw [List.length_append, full, Nat.add_comm n, Nat.add_div_right _ pos]

private theorem drop_block (full : b.length = n) (i : Nat) :
    (b ++ xs).drop ((i + 1) * n) = xs.drop (i * n) := by
  rw [Nat.succ_mul, Nat.add_comm, ← full, List.drop_length_add_append]

/-- The first block. -/
theorem blocks_append_block (pos : 0 < n) (full : b.length = n) :
    blocks n (b ++ xs) = b :: blocks n xs := by
  rw [blocks, length_div pos full, List.range_succ_eq_map, List.map_cons, List.map_map]
  refine congrArg₂ List.cons ?_ ?_
  · rw [Nat.zero_mul, List.drop_zero]
    exact List.take_left' full
  · refine List.map_congr_left fun i _ => ?_
    show ((b ++ xs).drop ((i + 1) * n)).take n = _
    rw [drop_block full]

theorem rest_append_block (pos : 0 < n) (full : b.length = n) :
    rest n (b ++ xs) = rest n xs := by
  rw [rest, length_div pos full, drop_block full]
  rfl

/-- A list is shorter than a block, or a block is followed by a list. -/
theorem induction {P : List α → Prop} (pos : 0 < n) (short : ∀ xs, xs.length < n → P xs)
    (block : ∀ b xs, b.length = n → P xs → P (b ++ xs)) (xs : List α) : P xs := by
  induction h : xs.length using Nat.strongRecOn generalizing xs with
  | ind m ih =>
    rcases Nat.lt_or_ge xs.length n with less | enough
    · exact short xs less
    · rw [← List.take_append_drop n xs]
      refine block _ _ (List.length_take_of_le enough) (ih _ ?_ _ rfl)
      rw [List.length_drop]
      omega

/-! ## Laws -/

/-- The blocks and the rest are the list. -/
theorem flatten_append_rest (pos : 0 < n) (xs : List α) :
    (blocks n xs).flatten ++ rest n xs = xs := by
  induction xs using induction pos with
  | short xs less =>
    rw [blocks_of_lt less, rest_of_lt less]
    rfl
  | block b xs full ih =>
    rw [blocks_append_block pos full, rest_append_block pos full, List.flatten_cons,
      List.append_assoc, ih]

/-- A list that is cut into blocks and less than a block is cut so. -/
theorem blocks_unique (pos : 0 < n) {bs : List (List α)} (full : ∀ b ∈ bs, b.length = n)
    (short : ys.length < n) : blocks n (bs.flatten ++ ys) = bs ∧ rest n (bs.flatten ++ ys) = ys := by
  induction bs with
  | nil => exact ⟨blocks_of_lt short, rest_of_lt short⟩
  | cons b bs ih =>
    have block := full b List.mem_cons_self
    obtain ⟨cut, left⟩ := ih fun b' mem => full b' (List.mem_cons_of_mem _ mem)
    rw [List.flatten_cons, List.append_assoc, blocks_append_block pos block,
      rest_append_block pos block, cut]
    exact ⟨rfl, left⟩

theorem length_of_mem_blocks (pos : 0 < n) (mem : b ∈ blocks n xs) : b.length = n := by
  induction xs using induction pos with
  | short xs less =>
    rw [blocks_of_lt less] at mem
    cases mem
  | block b' xs full ih =>
    rw [blocks_append_block pos full] at mem
    rcases List.mem_cons.mp mem with rfl | mem
    · exact full
    · exact ih mem

theorem length_rest (xs : List α) : (rest n xs).length = xs.length % n := by
  rw [rest, List.length_drop, Nat.mod_eq_sub_div_mul]

/-- When a list goes on, so do its blocks, from what was left. -/
theorem blocks_append (pos : 0 < n) (xs ys : List α) :
    blocks n (xs ++ ys) = blocks n xs ++ blocks n (rest n xs ++ ys) := by
  induction xs using induction pos with
  | short xs less =>
    rw [blocks_of_lt less, rest_of_lt less]
    rfl
  | block b xs full ih =>
    rw [List.append_assoc, blocks_append_block pos full, ih, blocks_append_block pos full,
      rest_append_block pos full]
    rfl

theorem rest_append (pos : 0 < n) (xs ys : List α) :
    rest n (xs ++ ys) = rest n (rest n xs ++ ys) := by
  induction xs using induction pos with
  | short xs less => rw [rest_of_lt less]
  | block b xs full ih =>
    rw [List.append_assoc, rest_append_block pos full, ih, rest_append_block pos full]

theorem mapAccum_append (step : σ → List α → σ × List β) (st : σ) (bs cs : List (List α)) :
    mapAccum step st (bs ++ cs) =
      ((mapAccum step (mapAccum step st bs).1 cs).1,
        (mapAccum step st bs).2 ++ (mapAccum step (mapAccum step st bs).1 cs).2) := by
  induction bs generalizing st with
  | nil => rfl
  | cons b bs ih => simp only [List.cons_append, mapAccum, ih, List.append_assoc]

end Blocks
