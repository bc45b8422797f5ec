import Mathlib.Data.List.Basic

/-!
# Ledgers

A ledger lists items that entered a system, each with the fate that it met, or none while it is
still there. A step of the system settles pending items, by a function that gives some of them a
fate; a fate that was met stays. Every item is listed once, so it has exactly one fate or is
pending, and what is to prove of a system is that its contents are the pending items and its
counters the lengths of the lists of settled ones. `pending_settle` and `settled_settle` say how a
step changes these.
-/

/-- Items, each with its fate or pending. -/
abbrev Ledger (α φ : Type*) := List (α × Option φ)

namespace Ledger

variable {α φ : Type*}

/-- The items that are still there. -/
def pending (l : Ledger α φ) : List α := (l.filter (·.2.isNone)).map (·.1)

/-- The items that met a fate of the kind `P`. -/
def settled (P : φ → Bool) (l : Ledger α φ) : List α := (l.filter (·.2.any P)).map (·.1)

/-- Give the pending items the fates that `f` says. -/
def settle (f : α → Option φ) (l : Ledger α φ) : Ledger α φ := l.map fun e => (e.1, e.2.or (f e.1))

/-- Settling keeps the items. -/
theorem map_settle (f : α → Option φ) (l : Ledger α φ) :
    (l.settle f).map (·.1) = l.map (·.1) := by
  rw [settle, List.map_map]
  rfl

theorem pending_append (l m : Ledger α φ) : pending (l ++ m) = l.pending ++ m.pending := by
  rw [pending, List.filter_append, List.map_append, pending, pending]

theorem settled_append (P : φ → Bool) (l m : Ledger α φ) :
    settled P (l ++ m) = l.settled P ++ m.settled P := by
  rw [settled, List.filter_append, List.map_append, settled, settled]

/-- What stays pending are the pending items without a fate. -/
theorem pending_settle (f : α → Option φ) (l : Ledger α φ) :
    (l.settle f).pending = l.pending.filter fun a => (f a).isNone := by
  induction l with
  | nil => rfl
  | cons e l ih =>
    obtain ⟨a, fate⟩ := e
    cases fate with
    | some x => simpa [settle, pending] using ih
    | none => cases h : f a <;> simpa [settle, pending, h] using ih

/-- What is newly settled are the pending items with a fate. -/
theorem settled_settle (P : φ → Bool) (f : α → Option φ) (l : Ledger α φ) :
    ((l.settle f).settled P).Perm (l.settled P ++ l.pending.filter fun a => (f a).any P) := by
  induction l with
  | nil => rfl
  | cons e l ih =>
    obtain ⟨a, fate⟩ := e
    cases fate with
    | some x =>
      cases h : P x <;> simpa [settle, settled, pending, h] using ih
    | none =>
      cases h : (f a).any P with
      | true =>
        have last := (ih.cons a).trans List.perm_middle.symm
        simpa [settle, settled, pending, h] using last
      | false => simpa [settle, settled, pending, h] using ih

/-- Where each fate is of one of two kinds, an item stays pending or meets a fate of one of them. -/
theorem length_split {f : α → Option φ} {P Q : φ → Bool} {l : List α}
    (kinds : ∀ a ∈ l, ∀ x, f a = some x → P x = !Q x) :
    l.length = (l.filter fun a => (f a).isNone).length + (l.filter fun a => (f a).any P).length +
      (l.filter fun a => (f a).any Q).length := by
  induction l with
  | nil => rfl
  | cons a l ih =>
    have rest := ih fun a ha => kinds a (List.mem_cons_of_mem _ ha)
    cases h : f a with
    | none => simp [h]; omega
    | some x =>
      have kind := kinds a List.mem_cons_self x h
      cases hq : Q x <;> simp [h, hq, kind] <;> omega

end Ledger
