import Mathlib.Data.List.Forall2

/-!
# Entries under headers

A stream of items, each a header, an entry or nothing, stands for a list of groups: a header with
the entries up to the next one. Entries before the first header belong to no group. `groups` reads
the groups off the stream and `items` writes them back.

`scan` is the reader that a program has: one pass that keeps the header it is under with what it has
added up of its entries, and closes a group, which may fail, when it meets the next header or the
end. `scan_eq` says that the pass is the groups closed one after the other, so it stops at the first
that fails.
-/

namespace Sections

variable {η ε κ β σ : Type*}

/-- One item of a stream. -/
inductive Item (η ε : Type*)
  | header (h : η)
  | entry (e : ε)
  | skip

/-- The entries before the next header. -/
def leading : List (Item η ε) → List ε
  | [] => []
  | .header _ :: _ => []
  | .entry e :: items => e :: leading items
  | .skip :: items => leading items

/-- Each header with its entries. -/
def groups : List (Item η ε) → List (η × List ε)
  | [] => []
  | .header h :: items => (h, leading items) :: groups items
  | .entry _ :: items => groups items
  | .skip :: items => groups items

/-- The items that spell out groups. -/
def items : List (η × List ε) → List (Item η ε)
  | [] => []
  | g :: gs => .header g.1 :: (g.2.map .entry ++ items gs)

theorem leading_entries (es : List ε) (rest : List (Item η ε)) :
    leading (es.map .entry ++ rest) = es ++ leading rest := by
  induction es with
  | nil => rfl
  | cons e es ih => exact congrArg (e :: ·) ih

theorem groups_entries (es : List ε) (rest : List (Item η ε)) :
    groups (es.map .entry ++ rest) = groups rest := by
  induction es with
  | nil => rfl
  | cons e es ih => exact ih

theorem leading_items (gs : List (η × List ε)) : leading (items gs) = [] := by
  cases gs <;> rfl

/-- Written groups are read back. -/
theorem groups_items (gs : List (η × List ε)) : groups (items gs) = gs := by
  induction gs with
  | nil => rfl
  | cons g gs ih =>
    rw [items, groups, leading_entries, leading_items, List.append_nil, groups_entries, ih]

/-- An entry of a group is in the stream. -/
theorem entry_mem_of_leading {l : List (Item η ε)} {e : ε} (h : e ∈ leading l) : .entry e ∈ l := by
  fun_induction leading l with
  | case1 => cases h
  | case2 => cases h
  | case3 e' items ih =>
    obtain rfl | later := List.mem_cons.mp h
    · exact List.mem_cons_self
    · exact List.mem_cons_of_mem _ (ih later)
  | case4 items ih => exact List.mem_cons_of_mem _ (ih h)

/-- The header of a group is in the stream, and so are its entries. -/
theorem mem_of_group {l : List (Item η ε)} {g : η × List ε} (h : g ∈ groups l) :
    .header g.1 ∈ l ∧ ∀ e ∈ g.2, .entry e ∈ l := by
  fun_induction groups l with
  | case1 => cases h
  | case2 name items ih =>
    obtain rfl | later := List.mem_cons.mp h
    · exact ⟨List.mem_cons_self, fun e he => List.mem_cons_of_mem _ (entry_mem_of_leading he)⟩
    · obtain ⟨named, filled⟩ := ih later
      exact ⟨List.mem_cons_of_mem _ named, fun e he => List.mem_cons_of_mem _ (filled e he)⟩
  | case3 e items ih =>
    obtain ⟨named, filled⟩ := ih h
    exact ⟨List.mem_cons_of_mem _ named, fun e he => List.mem_cons_of_mem _ (filled e he)⟩
  | case4 items ih =>
    obtain ⟨named, filled⟩ := ih h
    exact ⟨List.mem_cons_of_mem _ named, fun e he => List.mem_cons_of_mem _ (filled e he)⟩

/-- What is written is a header or an entry of some group. -/
theorem mem_items {gs : List (η × List ε)} {i : Item η ε} (h : i ∈ items gs) :
    ∃ g ∈ gs, i = .header g.1 ∨ ∃ e ∈ g.2, i = .entry e := by
  induction gs with
  | nil => cases h
  | cons g gs ih =>
    obtain rfl | rest := List.mem_cons.mp h
    · exact ⟨g, List.mem_cons_self, .inl rfl⟩
    · obtain own | later := List.mem_append.mp rest
      · obtain ⟨e, mem, rfl⟩ := List.mem_map.mp own
        exact ⟨g, List.mem_cons_self, .inr ⟨e, mem, rfl⟩⟩
      · obtain ⟨g', mem, what⟩ := ih later
        exact ⟨g', List.mem_cons_of_mem _ mem, what⟩

/-! ## Closing the groups -/

section Results

variable {α : Type*} {f : α → Except σ β} {l : List α}

theorem mapM_cons_eq (f : α → Except σ β) (a : α) (l : List α) :
    (a :: l).mapM f = (f a).bind fun b => (l.mapM f).map (b :: ·) := by
  rw [List.mapM_cons]
  cases f a with
  | error e => rfl
  | ok b => cases List.mapM f l <;> rfl

/-- All succeed, and these are the results. -/
theorem mapM_eq_ok {bs : List β} :
    l.mapM f = .ok bs ↔ List.Forall₂ (fun a b => f a = .ok b) l bs := by
  induction l generalizing bs with
  | nil =>
    rw [List.mapM_nil, List.forall₂_nil_left_iff]
    exact ⟨fun h => (Except.ok.inj h).symm, fun h => congrArg Except.ok h.symm⟩
  | cons a l ih =>
    rw [mapM_cons_eq, List.forall₂_cons_left_iff]
    cases here : f a with
    | error e => exact ⟨fun h => (nomatch h), fun ⟨_, _, h, _⟩ => (nomatch h)⟩
    | ok b =>
      cases later : l.mapM f with
      | error e =>
        refine ⟨fun h => (nomatch h), fun ⟨_, bs', _, rest, _⟩ => ?_⟩
        rw [ih.mpr rest] at later
        cases later
      | ok bs' =>
        constructor
        · intro h
          exact ⟨b, bs', rfl, ih.mp later, (Except.ok.inj h).symm⟩
        · rintro ⟨c, cs, same, rest, rfl⟩
          cases same
          rw [ih.mpr rest] at later
          cases later
          rfl

/-- Each result is that of an element. -/
theorem exists_of_mapM_ok {bs : List β} {b : β} (h : l.mapM f = .ok bs) (mem : b ∈ bs) :
    ∃ a ∈ l, f a = .ok b := by
  have pairs := mapM_eq_ok.mp h
  clear h
  induction pairs with
  | nil => cases mem
  | @cons a b' l bs here rest ih =>
    obtain rfl | later := List.mem_cons.mp mem
    · exact ⟨a, List.mem_cons_self, here⟩
    · obtain ⟨a', there, made⟩ := ih later
      exact ⟨a', List.mem_cons_of_mem _ there, made⟩

/-- The first that fails decides. -/
theorem mapM_eq_error {e : σ} :
    l.mapM f = .error e ↔
      ∃ before a after, l = before ++ a :: after ∧ (∀ x ∈ before, ∃ b, f x = .ok b) ∧
        f a = .error e := by
  induction l with
  | nil =>
    refine ⟨fun h => (nomatch h), fun ⟨before, a, after, h, _⟩ => ?_⟩
    cases before <;> cases h
  | cons a l ih =>
    rw [mapM_cons_eq]
    cases here : f a with
    | error e' =>
      constructor
      · intro h
        cases h
        exact ⟨[], a, l, rfl, fun x hx => (nomatch hx), here⟩
      · rintro ⟨before, a', after, split, fine, fails⟩
        cases before with
        | nil =>
          cases split
          exact congrArg Except.error (Except.error.inj (here.symm.trans fails))
        | cons x before =>
          cases split
          obtain ⟨b, ok⟩ := fine a List.mem_cons_self
          cases here.symm.trans ok
    | ok b =>
      have tail : (Except.ok b).bind (fun b => (l.mapM f).map (b :: ·)) = .error e ↔
          l.mapM f = .error e := by
        cases l.mapM f with
        | error e' => exact ⟨fun h => congrArg Except.error (Except.error.inj h),
            fun h => congrArg Except.error (Except.error.inj h)⟩
        | ok bs => exact ⟨fun h => (nomatch h), fun h => (nomatch h)⟩
      rw [tail, ih]
      constructor
      · rintro ⟨before, a', after, rfl, fine, fails⟩
        exact ⟨a :: before, a', after, rfl, List.forall_mem_cons.mpr ⟨⟨b, here⟩, fine⟩, fails⟩
      · rintro ⟨before, a', after, split, fine, fails⟩
        cases before with
        | nil =>
          cases split
          cases here.symm.trans fails
        | cons x before =>
          cases split
          exact ⟨before, a', after, rfl, (List.forall_mem_cons.mp fine).2, fails⟩

end Results

/-! ## One pass -/

section Scan

variable (add : κ → ε → κ) (empty : κ) (close : η → κ → Except σ β)

/-- The group that is open is closed. -/
def flush (cur : Option (η × κ)) (out : List β) : Except σ (List β) :=
  match cur with
  | none => .ok out
  | some (h, acc) => (close h acc).map fun b => out ++ [b]

/-- The pass. -/
def scan : List (Item η ε) → Option (η × κ) → List β → Except σ (List β)
  | [], cur, out => flush close cur out
  | .header h :: items, cur, out => (flush close cur out).bind (scan items (some (h, empty)))
  | .entry e :: items, cur, out => scan items (cur.map fun c => (c.1, add c.2 e)) out
  | .skip :: items, cur, out => scan items cur out

/-- A group closed by itself. -/
def closeGroup (g : η × List ε) : Except σ β := close g.1 (g.2.foldl add empty)

theorem scan_eq_from (items : List (Item η ε)) (cur : Option (η × κ)) (out : List β) :
    scan add empty close items cur out =
      (flush close (cur.map fun c => (c.1, (leading items).foldl add c.2)) out).bind fun out =>
        ((groups items).mapM (closeGroup add empty close)).map (out ++ ·) := by
  induction items generalizing cur out with
  | nil =>
    have same : (cur.map fun c => (c.1, ([] : List ε).foldl add c.2)) = cur := by
      cases cur <;> rfl
    rw [scan, leading, same]
    cases flush close cur out with
    | error e => rfl
    | ok out => exact congrArg Except.ok (List.append_nil out).symm
  | cons item items ih =>
    cases item with
    | header h =>
      have same : (cur.map fun c => (c.1, ([] : List ε).foldl add c.2)) = cur := by
        cases cur <;> rfl
      rw [scan, leading, same, groups]
      cases flush close cur out with
      | error e => rfl
      | ok out =>
        show scan add empty close items (some (h, empty)) out = _
        rw [ih, mapM_cons_eq, closeGroup]
        show ((close h ((leading items).foldl add empty)).map _).bind _ = Except.map _ _
        cases close h ((leading items).foldl add empty) with
        | error e => rfl
        | ok b =>
          show Except.map _ ((groups items).mapM _) = Except.map _ (Except.map _ _)
          cases (groups items).mapM (closeGroup add empty close) with
          | error e => rfl
          | ok bs => exact congrArg Except.ok (List.append_assoc out [b] bs)
    | entry e =>
      rw [scan, ih, leading, groups, Option.map_map]
      rfl
    | skip => rw [scan, ih, leading, groups]

/-- The pass is the groups closed one after the other. -/
theorem scan_eq (items : List (Item η ε)) :
    scan add empty close items none [] = (groups items).mapM (closeGroup add empty close) := by
  rw [scan_eq_from]
  show Except.map _ ((groups items).mapM _) = _
  cases (groups items).mapM (closeGroup add empty close) <;> rfl

end Scan

end Sections
