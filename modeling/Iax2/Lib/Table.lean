import Mathlib.Data.List.AList

/-!
# Finite tables

A hash table with unspecified iteration order, as Mathlib's association lists `AList` with a
constant value family. Reading a key is `AList.lookup`, a fresh binding is `AList.insert`, and an
update in place is `AList.replace`, which keeps the position of the binding. This module adds the
two bulk operations that a table of sessions needs: `mapValues` updates every value in place, and
`retain` keeps the bindings that pass a test.

Each operation has one law, its effect on `lookup`. The laws are stated with a decision on the
key, so a proof about a chain of updates is a chain of rewrites.

The order of `entries` stands for the iteration order of the table. `Reordered` relates two tables
that differ in that order only, and `Reordered.lookup_eq` says that no lookup sees it.
-/

/-- A table from keys to values, with no key bound twice. -/
abbrev Table (κ ν : Type*) := AList (fun _ : κ => ν)

namespace Table

variable {κ ν : Type*} [DecidableEq κ]

/-! ## Reading after a write -/

/-- Insertion changes one key. -/
theorem lookup_insert (m : Table κ ν) (k j : κ) (v : ν) :
    (m.insert k v).lookup j = if j = k then some v else m.lookup j := by
  by_cases h : j = k
  · subst h
    rw [if_pos rfl]
    exact AList.lookup_insert m
  · rw [if_neg h]
    exact AList.lookup_insert_ne h

/-- Erasure forgets one key. -/
theorem lookup_erase (m : Table κ ν) (k j : κ) :
    (m.erase k).lookup j = if j = k then none else m.lookup j := by
  by_cases h : j = k
  · subst h
    rw [if_pos rfl]
    exact AList.lookup_erase _ m
  · rw [if_neg h]
    exact AList.lookup_erase_ne h

private theorem dlookup_cons (k a : κ) (b : ν) (l : List (Sigma fun _ : κ => ν)) :
    List.dlookup k (⟨a, b⟩ :: l) = if k = a then some b else l.dlookup k := by
  by_cases h : k = a
  · subst h
    rw [if_pos rfl]
    exact List.dlookup_cons_eq (β := fun _ => ν) l k b
  · rw [if_neg h]
    exact List.dlookup_cons_ne (β := fun _ => ν) l ⟨a, b⟩ h

private theorem dlookup_kreplace (k j : κ) (v : ν) (l : List (Sigma fun _ : κ => ν)) :
    (l.kreplace k v).dlookup j =
      if j = k then (l.dlookup k).map (fun _ => v) else l.dlookup j := by
  induction l with
  | nil => simp [List.kreplace]
  | cons e l ih =>
    obtain ⟨a, b⟩ := e
    by_cases ha : k = a
    · subst ha
      rw [List.kreplace, List.lookmap_cons_some _ l (b := ⟨k, v⟩) (if_pos rfl), dlookup_cons,
        dlookup_cons, dlookup_cons, if_pos rfl]
      by_cases hj : j = k
      · rw [if_pos hj, if_pos hj, Option.map_some]
      · rw [if_neg hj, if_neg hj, if_neg hj]
    · rw [List.kreplace, List.lookmap_cons_none _ l (if_neg ha), ← List.kreplace, dlookup_cons,
        dlookup_cons, dlookup_cons, if_neg ha, ih]
      by_cases hj : j = k
      · rw [if_pos hj, if_neg (fun h => ha (hj ▸ h)), if_pos hj]
      · rw [if_neg hj, if_neg hj]

/-- Replacement changes one key, and only if it is bound. -/
theorem lookup_replace (m : Table κ ν) (k j : κ) (v : ν) :
    (m.replace k v).lookup j = if j = k then (m.lookup k).map (fun _ => v) else m.lookup j :=
  dlookup_kreplace k j v m.entries

/-- A binding in iteration order is a successful lookup. -/
theorem mem_entries_iff {m : Table κ ν} {k : κ} {v : ν} :
    (⟨k, v⟩ : Sigma fun _ : κ => ν) ∈ m.entries ↔ m.lookup k = some v :=
  (List.mem_dlookup_iff m.nodupKeys).symm

/-- A table without a successful lookup is empty. -/
theorem eq_empty {m : Table κ ν} (none : ∀ k, m.lookup k = none) : m = ∅ := by
  refine AList.ext (List.eq_nil_iff_forall_not_mem.mpr fun e member => ?_)
  cases (none e.1).symm.trans (mem_entries_iff.mp member)

/-- Replacement of a value by itself changes nothing. -/
theorem replace_self {m : Table κ ν} {k : κ} {v : ν} (h : m.lookup k = some v) :
    m.replace k v = m :=
  AList.ext (List.kreplace_self m.nodupKeys (mem_entries_iff.mpr h))

/-- A key is bound exactly when its lookup succeeds. -/
theorem mem_iff_lookup {m : Table κ ν} {k : κ} : k ∈ m ↔ ∃ v, m.lookup k = some v := by
  rw [← AList.lookup_isSome, Option.isSome_iff_exists]

/-! ## Bulk operations -/

omit [DecidableEq κ] in
/-- Update every value in place. -/
def mapValues (f : ν → ν) (m : Table κ ν) : Table κ ν :=
  ⟨m.entries.map (.map id fun _ => f), m.nodupKeys.map₂ _ _⟩

/-- A bulk update acts on each lookup. -/
theorem lookup_mapValues (f : ν → ν) (m : Table κ ν) (k : κ) :
    (m.mapValues f).lookup k = (m.lookup k).map f :=
  List.dlookup_map₂ k

omit [DecidableEq κ] in
/-- Keep the bindings that pass the test. -/
def retain (p : κ → ν → Bool) (m : Table κ ν) : Table κ ν :=
  ⟨m.entries.filter fun e => p e.1 e.2, m.nodupKeys.sublist List.filter_sublist⟩

/-- A lookup survives exactly when its binding passes the test. -/
theorem lookup_retain (p : κ → ν → Bool) (m : Table κ ν) (k : κ) :
    (m.retain p).lookup k = (m.lookup k).filter (p k) := by
  have keep (v : ν) : (m.retain p).lookup k = some v ↔ m.lookup k = some v ∧ p k v = true := by
    rw [← mem_entries_iff, ← mem_entries_iff]
    exact List.mem_filter
  ext v
  simp only [keep, Option.filter_eq_some_iff]

/-! ## Iteration order -/

omit [DecidableEq κ] in
/-- Two tables with the same bindings, possibly in another order. -/
def Reordered (m m' : Table κ ν) : Prop := m.entries.Perm m'.entries

/-- No lookup sees the iteration order. -/
theorem Reordered.lookup_eq {m m' : Table κ ν} (h : Reordered m m') (k : κ) :
    m'.lookup k = m.lookup k :=
  (AList.perm_lookup h).symm

/-- The bindings are those of the keys, in their order. -/
theorem entries_eq (m : Table κ ν) :
    m.entries = m.keys.filterMap fun k => (m.lookup k).map (Sigma.mk k) := by
  have self : ∀ e ∈ m.entries, (m.lookup e.1).map (Sigma.mk e.1) = some e := by
    rintro ⟨k, v⟩ he
    rw [mem_entries_iff.mp he, Option.map_some]
  rw [AList.keys, List.keys, List.filterMap_map]
  exact (List.filterMap_congr self).trans List.filterMap_some |>.symm

/-- Two orders of one table with the keys alike are the same. -/
theorem Reordered.unique {m m₁ m₂ : Table κ ν} (h₁ : m.Reordered m₁) (h₂ : m.Reordered m₂)
    (keys : m₁.keys = m₂.keys) : m₁ = m₂ := by
  refine AList.ext ?_
  rw [entries_eq m₁, entries_eq m₂, keys]
  simp only [h₁.lookup_eq, h₂.lookup_eq]

end Table
