import Mathlib.Data.List.Basic

/-!
# Queues that drop their oldest values

A queue of bounded length between a producer and a consumer. What does not fit any more pushes the
oldest values out, and at times the queue is cleared.

`Fates` is the account of such a queue: the stream of all values that entered it is, in order, the
values that are decided, each either taken by the consumer or lost, and then the values that wait.
So the consumer sees the stream in order, with gaps but without repetitions.
-/

namespace DropOldest

variable {α : Type*} {cap : Nat} {q xs : List α}

/-- Pop values from the front, as long as there are more than the cap. -/
def trim (cap : Nat) : List α → List α
  | [] => []
  | x :: q => if cap < (x :: q).length then trim cap q else x :: q

/-- Append values to a queue, and drop the oldest ones beyond the cap. -/
def put (cap : Nat) (q xs : List α) : List α := trim cap (q ++ xs)

theorem trim_eq (cap : Nat) (q : List α) : trim cap q = q.drop (q.length - cap) := by
  induction q with
  | nil => rw [trim, List.drop_nil]
  | cons x q ih =>
    rw [trim]
    split
    next full =>
      rw [List.length_cons] at full ⊢
      rw [ih, Nat.succ_sub (Nat.le_of_lt_succ full), List.drop_succ_cons]
    next fits => rw [Nat.sub_eq_zero_of_le (Nat.not_lt.mp fits), List.drop_zero]

theorem put_eq (cap : Nat) (q xs : List α) :
    put cap q xs = (q ++ xs).drop ((q ++ xs).length - cap) := trim_eq cap (q ++ xs)

theorem length_put (cap : Nat) (q xs : List α) :
    (put cap q xs).length = min (q.length + xs.length) cap := by
  rw [put_eq, List.length_drop, List.length_append]
  omega

theorem length_put_le (cap : Nat) (q xs : List α) : (put cap q xs).length ≤ cap := by
  rw [length_put]
  exact Nat.min_le_right _ _

/-- Where there is room, nothing is dropped. -/
theorem put_of_le (room : q.length + xs.length ≤ cap) : put cap q xs = q ++ xs := by
  rw [put_eq, List.length_append, Nat.sub_eq_zero_of_le room, List.drop_zero]

/-- The values with a fate: taken, or not. -/
def withFate (fate : Bool) (gone : List (α × Bool)) : List α :=
  (gone.filter fun v => v.2 == fate).map Prod.fst

theorem withFate_append (fate : Bool) (gone gone' : List (α × Bool)) :
    withFate fate (gone ++ gone') = withFate fate gone ++ withFate fate gone' := by
  rw [withFate, List.filter_append, List.map_append]
  rfl

theorem withFate_pairs (fate fate' : Bool) (xs : List α) :
    withFate fate (xs.map (·, fate')) = if fate' = fate then xs else [] := by
  induction xs with
  | nil => exact (ite_self _).symm
  | cons x xs ih =>
    rw [withFate, List.map_cons, List.filter_cons]
    by_cases same : fate' = fate
    · rw [if_pos same] at ih ⊢
      rw [if_pos (beq_iff_eq.mpr same), List.map_cons]
      exact congrArg (x :: ·) ih
    · rw [if_neg same] at ih ⊢
      rw [if_neg (by simpa using same)]
      exact ih

/-- The account of a queue: what entered, what was taken, what was lost, and what waits. -/
structure Fates (entered taken lost q : List α) : Prop where
  split : ∃ gone : List (α × Bool), entered = gone.map Prod.fst ++ q ∧
    taken = withFate true gone ∧ lost = withFate false gone

namespace Fates

variable {entered taken lost : List α}

theorem empty : Fates ([] : List α) [] [] [] := ⟨[], rfl, rfl, rfl⟩

private theorem decided (q : List α) (n : Nat) (fate : Bool) :
    ((q.take n).map (·, fate)).map Prod.fst ++ q.drop n = q := by
  rw [List.map_map]
  show (q.take n).map id ++ q.drop n = q
  rw [List.map_id, List.take_append_drop]

/-- The oldest values are taken. -/
theorem take (h : Fates entered taken lost q) (n : Nat) :
    Fates entered (taken ++ q.take n) lost (q.drop n) := by
  obtain ⟨gone, whole, heard, missed⟩ := h.split
  refine ⟨gone ++ (q.take n).map (·, true), ?_, ?_, ?_⟩
  · rw [whole, List.map_append, List.append_assoc, decided]
  · rw [heard, withFate_append, withFate_pairs, if_pos rfl]
  · rw [missed, withFate_append, withFate_pairs, if_neg nofun, List.append_nil]

/-- The oldest values are lost. -/
theorem lose (h : Fates entered taken lost q) (n : Nat) :
    Fates entered taken (lost ++ q.take n) (q.drop n) := by
  obtain ⟨gone, whole, heard, missed⟩ := h.split
  refine ⟨gone ++ (q.take n).map (·, false), ?_, ?_, ?_⟩
  · rw [whole, List.map_append, List.append_assoc, decided]
  · rw [heard, withFate_append, withFate_pairs, if_neg nofun, List.append_nil]
  · rw [missed, withFate_append, withFate_pairs, if_pos rfl]

/-- Values enter at the end. -/
theorem enter (h : Fates entered taken lost q) (xs : List α) :
    Fates (entered ++ xs) taken lost (q ++ xs) := by
  obtain ⟨gone, whole, heard, missed⟩ := h.split
  exact ⟨gone, by rw [whole, List.append_assoc], heard, missed⟩

/-- Values enter, and the oldest ones beyond the cap are lost. -/
theorem put (h : Fates entered taken lost q) (cap : Nat) (xs : List α) :
    Fates (entered ++ xs) taken (lost ++ (q ++ xs).take ((q ++ xs).length - cap))
      (DropOldest.put cap q xs) := by
  rw [put_eq]
  exact (h.enter xs).lose _

/-- The queue is cleared. -/
theorem clear (h : Fates entered taken lost q) : Fates entered taken (lost ++ q) [] := by
  have all := h.lose q.length
  rwa [List.take_length, List.drop_length] at all

end Fates

end DropOldest
