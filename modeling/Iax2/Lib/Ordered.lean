import Mathlib.Data.List.Nodup
import Mathlib.Tactic.Common

/-!
# Ordered maps

A map that is iterated in the order of its keys: the extensional tree maps of the standard library,
over a key type with a lawful comparison. Two of them are equal when their lookups are, so the shape
of the tree is not seen.

This module adds the two ends of the iteration, `firstKey?` and `lastKey?`, and says what they are
in terms of the order of the keys. The writes are read back by a decision on the key, as for the
tables without order.
-/

namespace Std.ExtTreeMap

variable {κ ν : Type*} [Ord κ] [TransOrd κ]

/-- The first key of the iteration. -/
def firstKey? (m : ExtTreeMap κ ν) : Option κ := m.keys.head?

/-- The last key of the iteration. -/
def lastKey? (m : ExtTreeMap κ ν) : Option κ := m.keys.getLast?

/-! ## Writes -/

section

variable [LawfulEqOrd κ] [DecidableEq κ]

/-- Insertion changes one key. -/
theorem lookup_insert (m : ExtTreeMap κ ν) (k j : κ) (v : ν) :
    (m.insert k v)[j]? = if j = k then some v else m[j]? := by
  simp only [getElem?_insert, compare_eq_iff_eq, @eq_comm _ j]

/-- Erasure forgets one key. -/
theorem lookup_erase (m : ExtTreeMap κ ν) (k j : κ) :
    (m.erase k)[j]? = if j = k then none else m[j]? := by
  simp only [getElem?_erase, compare_eq_iff_eq, @eq_comm _ j]

omit [DecidableEq κ] in
theorem mem_insert_iff {m : ExtTreeMap κ ν} {k j : κ} {v : ν} :
    j ∈ m.insert k v ↔ j = k ∨ j ∈ m := by
  simp only [mem_insert, compare_eq_iff_eq, @eq_comm _ j]

omit [DecidableEq κ] in
theorem mem_erase_iff {m : ExtTreeMap κ ν} {k j : κ} : j ∈ m.erase k ↔ j ≠ k ∧ j ∈ m := by
  simp only [mem_erase, ne_eq, compare_eq_iff_eq, @eq_comm _ j]

omit [LawfulEqOrd κ] [DecidableEq κ] in
/-- A key is bound exactly when its lookup succeeds. -/
theorem mem_iff_lookup {m : ExtTreeMap κ ν} {k : κ} : k ∈ m ↔ ∃ v, m[k]? = some v := by
  rw [mem_iff_isSome_getElem?, Option.isSome_iff_exists]

omit [LawfulEqOrd κ] [DecidableEq κ] in
/-- A map that is not empty has a key. -/
theorem exists_mem {m : ExtTreeMap κ ν} (h : m ≠ ∅) : ∃ k, k ∈ m := by
  by_contra none
  exact h (eq_empty_iff_forall_not_mem.mpr (not_exists.mp none))

omit [DecidableEq κ] in
instance decidableForallMem (m : ExtTreeMap κ ν) (P : κ → Prop) [DecidablePred P] :
    Decidable (∀ k ∈ m, P k) :=
  decidable_of_iff (∀ k ∈ m.keys, P k) (by simp only [mem_keys])

end

/-! ## The bindings as a list -/

section

variable [LawfulEqOrd κ]

theorem nodup_toList (m : ExtTreeMap κ ν) : m.toList.Nodup := by
  refine List.Pairwise.imp (fun differ same => ?_) m.distinct_keys_toList
  rw [same, compare_self] at differ
  exact differ rfl

/-- A list without repetition that has the bindings of a map as members is its list of bindings, up
to order. -/
theorem perm_toList {m : ExtTreeMap κ ν} {l : List (κ × ν)} (nodup : l.Nodup)
    (mem : ∀ k v, (k, v) ∈ l ↔ m[k]? = some v) : l.Perm m.toList := by
  refine (List.perm_ext_iff_of_nodup nodup m.nodup_toList).mpr fun e => ?_
  rw [mem e.1 e.2, mem_toList_iff_getElem?_eq_some]

/-- A map that agrees with another one on its keys is the part of it with these keys. -/
theorem filter_toList [DecidableEq κ] {m m' : ExtTreeMap κ ν} (part : ∀ k ∈ m', m'[k]? = m[k]?) :
    (m.toList.filter (·.1 ∈ m')).Perm m'.toList := by
  refine perm_toList (m.nodup_toList.filter _) fun k v => ?_
  rw [List.mem_filter, mem_toList_iff_getElem?_eq_some, decide_eq_true_iff]
  constructor
  · rintro ⟨found, member⟩
    rw [part k member, found]
  · intro found
    have member : k ∈ m' := mem_iff_lookup.mpr ⟨v, found⟩
    exact ⟨(part k member).symm.trans found, member⟩

/-- The bindings of one key. -/
theorem filter_toList_key [DecidableEq κ] {m : ExtTreeMap κ ν} {k : κ} {v : ν}
    (found : m[k]? = some v) : m.toList.filter (·.1 = k) = [(k, v)] := by
  refine List.perm_singleton.mp ?_
  refine (List.perm_ext_iff_of_nodup (m.nodup_toList.filter _) (List.nodup_singleton _)).mpr ?_
  rintro ⟨j, w⟩
  rw [List.mem_filter, mem_toList_iff_getElem?_eq_some, decide_eq_true_iff, List.mem_singleton]
  constructor
  · rintro ⟨found', rfl⟩
    exact congrArg _ (Option.some.inj (found'.symm.trans found))
  · rintro same
    cases same
    exact ⟨found, rfl⟩

/-- A key has at most one binding. -/
theorem length_filter_key [DecidableEq κ] (m : ExtTreeMap κ ν) (k : κ) :
    (m.toList.filter (·.1 = k)).length = if k ∈ m then 1 else 0 := by
  split
  next member =>
    obtain ⟨v, found⟩ := mem_iff_lookup.mp member
    rw [filter_toList_key found]
    rfl
  next absent =>
    rw [List.length_eq_zero_iff, List.filter_eq_nil_iff]
    intro e member
    rw [mem_toList_iff_getElem?_eq_some] at member
    rw [decide_eq_true_iff]
    rintro rfl
    exact absent (mem_iff_lookup.mpr ⟨_, member⟩)

end

/-- A map has at most one key exactly if any two of its keys are equal. -/
theorem size_le_one_iff [LawfulEqOrd κ] {m : ExtTreeMap κ ν} :
    m.size ≤ 1 ↔ ∀ i ∈ m, ∀ j ∈ m, i = j := by
  have distinct := m.distinct_keys
  simp only [← length_keys, ← mem_keys]
  generalize m.keys = keys at distinct ⊢
  match keys with
  | [] => simp only [List.length_nil, Nat.zero_le, List.not_mem_nil, false_imp_iff, implies_true]
  | [k] =>
    simp only [List.length_singleton, Nat.le_refl, List.mem_singleton, forall_eq]
  | i :: j :: rest =>
    constructor
    · intro short
      rw [List.length_cons, List.length_cons] at short
      omega
    · intro same
      have differ := (List.pairwise_cons.mp distinct).1 j List.mem_cons_self
      rw [same i List.mem_cons_self j (List.mem_cons_of_mem _ List.mem_cons_self),
        compare_self] at differ
      exact absurd rfl differ

/-! ## The ends of the iteration -/

theorem firstKey?_eq_none_iff {m : ExtTreeMap κ ν} : m.firstKey? = none ↔ m = ∅ := by
  rw [firstKey?, ← minKey?_eq_head?_keys, minKey?_eq_none_iff]

theorem lastKey?_eq_none_iff {m : ExtTreeMap κ ν} : m.lastKey? = none ↔ m = ∅ := by
  rw [lastKey?, ← maxKey?_eq_getLast?_keys, maxKey?_eq_none_iff]

/-- A map that is not empty has a first key. -/
theorem exists_firstKey {m : ExtTreeMap κ ν} (h : m ≠ ∅) : ∃ k, m.firstKey? = some k :=
  Option.ne_none_iff_exists'.mp (mt firstKey?_eq_none_iff.mp h)

/-- A map that is not empty has a last key. -/
theorem exists_lastKey {m : ExtTreeMap κ ν} (h : m ≠ ∅) : ∃ k, m.lastKey? = some k :=
  Option.ne_none_iff_exists'.mp (mt lastKey?_eq_none_iff.mp h)

section

variable [LawfulEqOrd κ] [LE κ] [LawfulOrderOrd κ]

/-- The first key is the least one. -/
theorem firstKey?_eq_some_iff {m : ExtTreeMap κ ν} {k : κ} :
    m.firstKey? = some k ↔ k ∈ m ∧ ∀ j ∈ m, k ≤ j := by
  rw [firstKey?, ← minKey?_eq_head?_keys, minKey?_eq_some_iff_mem_and_forall]
  simp only [isLE_compare]

/-- The last key is the greatest one. -/
theorem lastKey?_eq_some_iff {m : ExtTreeMap κ ν} {k : κ} :
    m.lastKey? = some k ↔ k ∈ m ∧ ∀ j ∈ m, j ≤ k := by
  rw [lastKey?, ← maxKey?_eq_getLast?_keys, maxKey?_eq_some_iff_mem_and_forall]
  simp only [isLE_compare]

end

end Std.ExtTreeMap
