import Mathlib.Init

/-!
# Sessions

A log of events as a sequence of sessions. A session is opened by one event, goes on with any number
of events of another kind, and is closed by one event of a third kind. `AllClosed` and `InSession`
say of a whole log that it is a concatenation of closed sessions, or of closed sessions and an open
one. The three lemmas after them append one event each, so a log that a system writes step by step
is read by induction on the steps.
-/

/-- The three kinds of events of a session. -/
structure SessionKinds (α : Type*) where
  opens : α → Prop
  continues : α → Prop
  closes : α → Prop

namespace SessionKinds

variable {α : Type*} (K : SessionKinds α)

/-- A session that is not closed yet. -/
def Open (l : List α) : Prop := ∃ e body, l = e :: body ∧ K.opens e ∧ ∀ x ∈ body, K.continues x

/-- A session from its opening to its end. -/
def Closed (l : List α) : Prop := ∃ session e, l = session ++ [e] ∧ K.Open session ∧ K.closes e

/-- The log is a concatenation of closed sessions. -/
def AllClosed (log : List α) : Prop :=
  ∃ sessions : List (List α), (∀ l ∈ sessions, K.Closed l) ∧ log = sessions.flatten

/-- The log is a concatenation of closed sessions and an open one, which comes last. -/
def InSession (log : List α) : Prop :=
  ∃ (sessions : List (List α)) (last : List α), (∀ l ∈ sessions, K.Closed l) ∧ K.Open last ∧
    log = sessions.flatten ++ last

variable {K} {log : List α} {e : α}

theorem AllClosed.nil : K.AllClosed [] := ⟨[], fun _ h => absurd h List.not_mem_nil, rfl⟩

/-- An opening event starts a session. -/
theorem AllClosed.opened (h : K.AllClosed log) (opens : K.opens e) : K.InSession (log ++ [e]) := by
  obtain ⟨sessions, closed, rfl⟩ := h
  exact ⟨sessions, [e], closed, ⟨e, [], rfl, opens, fun _ hx => absurd hx List.not_mem_nil⟩, rfl⟩

/-- Events of the middle kind go on with the session. -/
theorem InSession.continued (h : K.InSession log) {events : List α}
    (continues : ∀ x ∈ events, K.continues x) : K.InSession (log ++ events) := by
  obtain ⟨sessions, last, closed, ⟨e, body, rfl, opens, within⟩, rfl⟩ := h
  refine ⟨sessions, e :: (body ++ events), closed, ⟨e, body ++ events, rfl, opens, ?_⟩, ?_⟩
  · intro x hx
    rcases List.mem_append.mp hx with hx | hx
    · exact within x hx
    · exact continues x hx
  · rw [List.append_assoc, List.cons_append]

/-- A closing event ends the session. -/
theorem InSession.closed (h : K.InSession log) (closes : K.closes e) : K.AllClosed (log ++ [e]) := by
  obtain ⟨sessions, last, closed, isOpen, rfl⟩ := h
  refine ⟨sessions ++ [last ++ [e]], ?_, ?_⟩
  · intro l hl
    rcases List.mem_append.mp hl with hl | hl
    · exact closed l hl
    · obtain rfl := List.mem_singleton.mp hl
      exact ⟨last, e, rfl, isOpen, closes⟩
  · rw [List.flatten_append, List.flatten_singleton, List.append_assoc]

/-- A log that ends in an open session is not a concatenation of closed ones, if no closing event
is of another kind. -/
theorem InSession.not_allClosed
    (apart : ∀ x, K.closes x → ¬ K.opens x ∧ ¬ K.continues x) (h : K.InSession log) :
    ¬ K.AllClosed log := by
  rintro ⟨sessions', closed', heq⟩
  obtain ⟨sessions, last, _, ⟨e, body, rfl, opens, within⟩, rfl⟩ := h
  -- the last event of the log is the opening event, or one of the middle kind
  have kind : ∀ x, (e :: body).getLast? = some x → ¬ K.closes x := by
    intro x hx closes
    rcases List.mem_cons.mp (List.mem_of_getLast? hx) with rfl | hx
    · exact (apart x closes).1 opens
    · exact (apart x closes).2 (within x hx)
  have nonempty : (e :: body) ≠ [] := List.cons_ne_nil e body
  have ends : (sessions.flatten ++ (e :: body)).getLast? = (e :: body).getLast? := by
    rw [List.getLast?_append, List.getLast?_eq_some_getLast nonempty, Option.some_or]
  rw [heq] at ends
  rcases List.eq_nil_or_concat sessions' with rfl | ⟨front, l, rfl⟩
  · exact nonempty (List.append_eq_nil_iff.mp heq).2
  · obtain ⟨session, x, rfl, _, closes⟩ := closed' l (by simp)
    refine kind x ?_ closes
    rw [← ends, List.concat_eq_append, List.flatten_append, List.flatten_singleton,
      ← List.append_assoc, List.getLast?_concat]

end SessionKinds
