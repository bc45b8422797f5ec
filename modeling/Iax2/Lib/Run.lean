import Mathlib.Init

/-!
# Runs with their past

A labelled transition system and its runs. A run carries its whole past, newest transition first,
so a property of histories ("the call was answered before", "the frame was sent since the last
reset") is a function by recursion on the past, and no ghost variable enters the state.

`System.Run.invariant` is the induction of every invariant. `System.Run.invariant_under` is the
same induction along the runs whose transitions all meet a condition: the shape of a guarantee
that a system keeps as long as its environment keeps its side. `Always` is the past-time box: a
property of a transition and the past it is appended to, along a whole run.
-/

/-- A labelled transition system. -/
structure System (σ ε : Type*) where
  /-- the states a run can start from -/
  init : σ → Prop
  /-- one step, with its label -/
  step : σ → ε → σ → Prop

/-- One transition of a run. -/
structure Transition (σ ε : Type*) where
  pre : σ
  label : ε
  post : σ

/-- `S.Run past s`: a run of `S` that has made the transitions `past`, newest first, and is now in
the state `s`. -/
inductive System.Run {σ ε : Type*} (S : System σ ε) : List (Transition σ ε) → σ → Prop
  | start {s : σ} : S.init s → S.Run [] s
  | step {past : List (Transition σ ε)} {s s' : σ} {e : ε} :
      S.Run past s → S.step s e s' → S.Run (⟨s, e, s'⟩ :: past) s'

/-- The transitions of a list of labels, under a step function, appended to a past. -/
def traceOf {σ ε : Type*} (f : σ → ε → σ) (s : σ) (past : List (Transition σ ε)) :
    List ε → List (Transition σ ε)
  | [] => past
  | e :: es => traceOf f (f s e) (⟨s, e, f s e⟩ :: past) es

/-- The property holds of every transition of the history, each with the past it was appended
to. -/
def Always {τ : Type*} (P : τ → List τ → Prop) : List τ → Prop
  | [] => True
  | t :: past => P t past ∧ Always P past

instance Always.decidable {τ : Type*} {P : τ → List τ → Prop} [∀ t past, Decidable (P t past)] :
    ∀ past : List τ, Decidable (Always P past)
  | [] => isTrue trivial
  | t :: past =>
    have : Decidable (Always P past) := Always.decidable past
    inferInstanceAs (Decidable (P t past ∧ Always P past))

theorem Always.imp {τ : Type*} {P Q : τ → List τ → Prop} (h : ∀ t past, P t past → Q t past)
    {past : List τ} (always : Always P past) : Always Q past := by
  induction past with
  | nil => trivial
  | cons t past ih => exact ⟨h t past always.1, ih always.2⟩

theorem Always.and {τ : Type*} {P Q : τ → List τ → Prop} {past : List τ} (hp : Always P past)
    (hq : Always Q past) : Always (fun t past => P t past ∧ Q t past) past := by
  induction past with
  | nil => trivial
  | cons t past ih => exact ⟨⟨hp.1, hq.1⟩, ih hp.2 hq.2⟩

theorem Always.of_mem {τ : Type*} {P : τ → List τ → Prop} {t : τ} {past : List τ}
    (always : Always P past) (h : t ∈ past) : ∃ before, P t before := by
  induction past with
  | nil => cases h
  | cons t' past ih =>
    rcases List.mem_cons.mp h with rfl | h
    · exact ⟨past, always.1⟩
    · exact ih always.2 h

/-- Since the last beginning `b`, the event `e` occurred. The beginning itself does not count. -/
def Since {τ : Type*} (b e : τ → Prop) : List τ → Prop
  | [] => False
  | t :: past => ¬ b t ∧ (e t ∨ Since b e past)

instance Since.decidable {τ : Type*} {b e : τ → Prop} [DecidablePred b] [DecidablePred e] :
    ∀ past : List τ, Decidable (Since b e past)
  | [] => isFalse id
  | t :: past =>
    have : Decidable (Since b e past) := Since.decidable past
    inferInstanceAs (Decidable (¬ b t ∧ (e t ∨ Since b e past)))

/-- What is neither the beginning nor the event changes nothing. -/
theorem Since.cons_iff {τ : Type*} {b e : τ → Prop} {t : τ} (begins : ¬ b t) (occurs : ¬ e t)
    (past : List τ) : Since b e (t :: past) ↔ Since b e past := by
  simp only [Since, begins, occurs, not_false_eq_true, true_and, false_or]

theorem Since.occurred {τ : Type*} {b e : τ → Prop} {past : List τ} (h : Since b e past) :
    ∃ t ∈ past, e t := by
  induction past with
  | nil => exact h.elim
  | cons t past ih =>
    rcases h.2 with now | before
    · exact ⟨t, List.mem_cons_self, now⟩
    · obtain ⟨t', member, occurs⟩ := ih before
      exact ⟨t', List.mem_cons_of_mem _ member, occurs⟩

namespace System.Run

variable {σ ε : Type*} {S : System σ ε} {past : List (Transition σ ε)} {s : σ}

/-- A list of labels makes a run, if the system steps by the function on each of them. -/
theorem traceOf {f : σ → ε → σ} {P : ε → Prop} (step : ∀ s e, P e → S.step s e (f s e))
    (es : List ε) (labels : ∀ e ∈ es, P e) (run : S.Run past s) :
    S.Run (traceOf f s past es) (es.foldl f s) := by
  induction es generalizing past s with
  | nil => exact run
  | cons e es ih =>
    exact ih (fun e' h => labels e' (List.mem_cons_of_mem _ h))
      (.step run (step s e (labels e List.mem_cons_self)))

/-- What holds initially and survives every step holds in every state of every run. -/
theorem invariant {I : σ → Prop} (init : ∀ s, S.init s → I s)
    (step : ∀ s e s', S.step s e s' → I s → I s') (run : S.Run past s) : I s := by
  induction run with
  | start h => exact init _ h
  | step _ h ih => exact step _ _ _ h ih

/-- An invariant of the state and its past, along the runs whose transitions all meet `Q`. -/
theorem invariant_under {Q : Transition σ ε → List (Transition σ ε) → Prop}
    {I : List (Transition σ ε) → σ → Prop} (init : ∀ s, S.init s → I [] s)
    (step : ∀ past s e s', S.Run past s → S.step s e s' → Q ⟨s, e, s'⟩ past → I past s →
      I (⟨s, e, s'⟩ :: past) s')
    (run : S.Run past s) (cond : Always Q past) : I past s := by
  induction run with
  | start h => exact init _ h
  | step r h ih => exact step _ _ _ _ r h cond.1 (ih cond.2)

/-- What holds initially and of the state after every transition holds of the state reached. -/
theorem reached {I : List (Transition σ ε) → σ → Prop} (init : ∀ s, S.init s → I [] s)
    (run : S.Run past s) (always : Always (fun t past => I (t :: past) t.post) past) :
    I past s := by
  cases run with
  | start h => exact init _ h
  | step _ _ => exact always.1

/-- Two properties of transitions that agree on every step of a run that has met the first so far
hold along the same runs. -/
theorem always_iff {P Q : Transition σ ε → List (Transition σ ε) → Prop}
    (step : ∀ past s e s', S.Run past s → S.step s e s' → Always P past →
      (P ⟨s, e, s'⟩ past ↔ Q ⟨s, e, s'⟩ past)) (run : S.Run past s) :
    Always P past ↔ Always Q past := by
  induction run with
  | start _ => exact Iff.rfl
  | step r h ih =>
    constructor
    · rintro ⟨now, before⟩
      exact ⟨(step _ _ _ _ r h before).mp now, ih.mp before⟩
    · rintro ⟨now, before⟩
      have before := ih.mpr before
      exact ⟨(step _ _ _ _ r h before).mpr now, before⟩

/-- Two properties of transitions that agree on every step of a run that meets `H`, and has met the
first so far, hold along the same runs that meet `H`. -/
theorem always_iff_under {H P Q : Transition σ ε → List (Transition σ ε) → Prop}
    (step : ∀ past s e s', S.Run past s → S.step s e s' → Always H (⟨s, e, s'⟩ :: past) →
      Always P past → (P ⟨s, e, s'⟩ past ↔ Q ⟨s, e, s'⟩ past))
    (run : S.Run past s) (cond : Always H past) :
    Always P past ↔ Always Q past := by
  induction run with
  | start _ => exact Iff.rfl
  | step r h ih =>
    have rest := ih cond.2
    constructor
    · rintro ⟨now, before⟩
      exact ⟨(step _ _ _ _ r h cond before).mp now, rest.mp before⟩
    · rintro ⟨now, before⟩
      have before := rest.mpr before
      exact ⟨(step _ _ _ _ r h cond before).mpr now, before⟩

/-- A property of every step of every run holds along every run. -/
theorem always {P : Transition σ ε → List (Transition σ ε) → Prop}
    (step : ∀ past s e s', S.Run past s → S.step s e s' → P ⟨s, e, s'⟩ past)
    (run : S.Run past s) : Always P past := by
  induction run with
  | start _ => trivial
  | step r h ih => exact ⟨step _ _ _ _ r h, ih⟩

/-- A property of every step of every run that meets `Q` holds along the runs that meet `Q`. -/
theorem always_under {P Q : Transition σ ε → List (Transition σ ε) → Prop}
    (step : ∀ past s e s', S.Run past s → S.step s e s' → Always Q past → Q ⟨s, e, s'⟩ past →
      P ⟨s, e, s'⟩ past)
    (run : S.Run past s) (cond : Always Q past) : Always P past := by
  induction run with
  | start _ => trivial
  | step r h ih => exact ⟨step _ _ _ _ r h cond.2 cond.1, ih cond.2⟩

end System.Run
