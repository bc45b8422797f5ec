import Mathlib.Data.List.DropRight

/-!
# Trimmed texts

A text is a list of characters, and `p` marks those that count as blank. `trim` drops the blank
characters at both ends. A text is trimmed when that changes nothing, which its two ends decide, so
a text with a mark at each end is trimmed whatever is between the marks.

`splitOnce` cuts a text at the first occurrence of a separator.
-/

namespace Text

variable {α : Type*} {p : α → Bool} {l m : List α} {a b : α}

/-- The text without the blank characters at its ends. -/
def trim (p : α → Bool) (l : List α) : List α := (l.dropWhile p).rdropWhile p

/-- A text with no blank character at its ends. -/
def Trimmed (p : α → Bool) (l : List α) : Prop :=
  (∀ a ∈ l.head?, p a = false) ∧ ∀ a ∈ l.getLast?, p a = false

instance (p : α → Bool) (l : List α) : Decidable (Trimmed p l) :=
  inferInstanceAs (Decidable ((∀ a ∈ l.head?, p a = false) ∧ ∀ a ∈ l.getLast?, p a = false))

theorem Trimmed.trim_eq (h : Trimmed p l) : trim p l = l := by
  have front : l.dropWhile p = l := by
    cases l with
    | nil => rfl
    | cons a l =>
      have : p a = false := h.1 a rfl
      exact List.dropWhile_cons_of_neg (by simp [this])
  rw [trim, front]
  refine List.rdropWhile_eq_self_iff.mpr fun hl => ?_
  have := h.2 _ (List.getLast?_eq_some_getLast hl)
  simp [this]

theorem trim_within (p : α → Bool) (l : List α) : trim p l <:+: l := by
  have back := List.rdropWhile_prefix p (l.dropWhile p)
  exact back.isInfix.trans (List.dropWhile_suffix p).isInfix

theorem mem_of_mem_trim (h : a ∈ trim p l) : a ∈ l := (trim_within p l).subset h

theorem trimmed_trim (p : α → Bool) (l : List α) : Trimmed p (trim p l) := by
  constructor
  · intro a front
    -- What is left starts where the first cut left it.
    obtain ⟨dropped, whole⟩ : trim p l <+: l.dropWhile p := List.rdropWhile_prefix ..
    have start : (l.dropWhile p).head? = some a := by
      rw [← whole, List.head?_append, Option.mem_def.mp front]
      rfl
    obtain ⟨rest, shape⟩ := List.head?_eq_some_iff.mp start
    have head := List.head_dropWhile_not p (l := l) (by simp [shape])
    simpa [shape] using head
  · intro a back
    have ne : trim p l ≠ [] := List.ne_nil_of_mem (List.mem_of_getLast? back)
    have last : ¬p ((trim p l).getLast ne) = true := List.rdropWhile_last_not p _ ne
    rw [List.getLast?_eq_some_getLast ne] at back
    cases back
    simpa using last

/-- Two marks around a text. -/
theorem Trimmed.of_ends (front : p a = false) (back : p b = false) :
    Trimmed p (a :: (l ++ [b])) :=
  ⟨by simpa using front, by rw [← List.cons_append, List.getLast?_concat]; simpa using back⟩

/-- A mark in front of a trimmed text. -/
theorem Trimmed.cons (h : Trimmed p l) (front : p a = false) : Trimmed p (a :: l) := by
  refine ⟨by simpa using front, fun c back => ?_⟩
  cases l with
  | nil => cases back; exact front
  | cons b l => exact h.2 c (by simpa using back)

theorem Trimmed.nil : Trimmed p [] := ⟨nofun, nofun⟩

theorem Trimmed.append (h : Trimmed p m) (front : ∀ a ∈ l, p a = false) : Trimmed p (l ++ m) := by
  induction l with
  | nil => exact h
  | cons a l ih =>
    obtain ⟨here, rest⟩ := List.forall_mem_cons.mp front
    exact (ih rest).cons here

/-! ## A separator -/

variable [DecidableEq α]

/-- What is before the first separator and what is after it. -/
def splitOnce (sep : α) : List α → Option (List α × List α)
  | [] => none
  | a :: l => if a = sep then some ([], l) else (splitOnce sep l).map fun kv => (a :: kv.1, kv.2)

theorem splitOnce_append {sep : α} (absent : sep ∉ l) (m : List α) :
    splitOnce sep (l ++ sep :: m) = some (l, m) := by
  induction l with
  | nil => rw [List.nil_append, splitOnce, if_pos rfl]
  | cons a l ih =>
    obtain ⟨ne, rest⟩ := not_or.mp (mt List.mem_cons.mpr absent)
    rw [List.cons_append, splitOnce, if_neg fun h => ne h.symm, ih rest]
    rfl

theorem eq_append_of_splitOnce {sep : α} {kv : List α × List α}
    (h : splitOnce sep l = some kv) : l = kv.1 ++ sep :: kv.2 := by
  induction l generalizing kv with
  | nil => cases h
  | cons a l ih =>
    rw [splitOnce] at h
    split at h
    next here =>
      cases h
      rw [here]
      rfl
    next elsewhere =>
      obtain ⟨kv', found, rfl⟩ := Option.map_eq_some_iff.mp h
      rw [ih found]
      rfl

end Text
