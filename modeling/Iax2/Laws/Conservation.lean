import Iax2.Laws.Jitter
import Iax2.Lib.Ledger

/-!
# Where the frames go

A frame that is pushed is in the buffer until one of six things happens to it: it is refused as
late or dropped by the cap, a later push takes its timestamp, a pull plays it, or a
resynchronisation or a reset discards it. The ledger of a run lists the pushed frames with what
happened to each, read off the operations of the run. `frames_conserved` says that the buffer holds
exactly the pending frames, that every pull plays exactly the frame that the ledger says, and that
the counters count.
-/

namespace Iax2.JitterBuffer

variable {F : Type}

/-- What becomes of a frame that is not in the buffer any more. -/
inductive FrameFate
  /-- returned by the operation of this number -/
  | played (n : Nat)
  | late
  | overflow
  /-- by a later frame with the same timestamp -/
  | replaced
  /-- discarded by a resynchronisation -/
  | resynced
  /-- discarded by a reset -/
  | reset
  deriving DecidableEq, Repr

def FrameFate.isPlayed : FrameFate → Bool
  | .played _ => true
  | _ => false

namespace Move

/-- The payload that the transition returns. -/
def returned (t : Move F) : Option Bytes :=
  match t.outcome with
  | some (.play payload) => some payload
  | _ => none

/-- The frame that the transition pushes. -/
def pushed (t : Move F) : Option (UInt32 × Bytes) :=
  match t.label with
  | .push ts payload _ => some (ts, payload)
  | _ => none

/-- What becomes of the frame that the transition pushes, at once. -/
def entryFate (t : Move F) (frame : UInt32 × Bytes) : Option FrameFate :=
  if t.pre.isLate frame.1 then some .late
  else if frame.1 ∈ t.post.frames then none
  else some .overflow

/-- What becomes of a buffered frame in the transition number `n`. -/
def fate (t : Move F) (n : Nat) (frame : UInt32 × Bytes) : Option FrameFate :=
  match t.label with
  | .push ts _ _ =>
    if t.pre.isLate ts then none
    else if t.pre.isAhead ts then some .resynced
    else if frame.1 = ts then some .replaced
    else if frame.1 ∈ t.post.frames then none
    else some .overflow
  | .pull => if frame.1 ∈ t.post.frames then none else some (.played n)
  | .reset => some .reset

end Move

/-- The frames pushed so far, newest first. -/
def pushedFrames (past : List (Move F)) : List (UInt32 × Bytes) := past.filterMap Move.pushed

/-- The frames pushed so far, newest first, with what became of each. Operations are numbered from
the beginning of the run. -/
def ledger : List (Move F) → Ledger (UInt32 × Bytes) FrameFate
  | [] => []
  | t :: past =>
    (t.pushed.map fun frame => (frame, t.entryFate frame)).toList ++
      (ledger past).settle (t.fate past.length)

/-- The payload that the operation number `n` returned. -/
def returnedBy : List (Move F) → Nat → Option Bytes
  | [], _ => none
  | t :: past, n => if n = past.length then t.returned else returnedBy past n

/-- What the ledger of a run says about the state that the run reached. -/
structure Accounted (past : List (Move F)) (b : JitterBuffer F) : Prop where
  buffered : (ledger past).pending.Perm b.frames.toList
  played : ∀ n, ((ledger past).settled (· = .played n)).map (·.2) = (returnedBy past n).toList
  playedCount : b.played = ((ledger past).settled FrameFate.isPlayed).length
  lateCount : b.late = ((ledger past).settled (· = .late)).length
  overflowCount : b.overflow = ((ledger past).settled (· = .overflow)).length
  concealedCount : b.concealed = past.countP (·.outcome = some .conceal)

section

variable (t : Move F) (past : List (Move F))

/-- The entry that a transition makes on the ledger. -/
def Move.entry : Ledger (UInt32 × Bytes) FrameFate :=
  (t.pushed.map fun frame => (frame, t.entryFate frame)).toList

theorem pending_ledger : (ledger (t :: past)).pending =
    t.entry.pending ++ (ledger past).pending.filter fun a => (t.fate past.length a).isNone := by
  rw [ledger, Ledger.pending_append, Ledger.pending_settle]
  rfl

theorem settled_ledger (P : FrameFate → Bool) : ((ledger (t :: past)).settled P).Perm
    (t.entry.settled P ++ ((ledger past).settled P ++
      (ledger past).pending.filter fun a => (t.fate past.length a).any P)) := by
  rw [ledger, Ledger.settled_append]
  exact (Ledger.settled_settle P _ _).append_left _

end

theorem map_ledger (past : List (Move F)) : (ledger past).map (·.1) = pushedFrames past := by
  induction past with
  | nil => rfl
  | cons t past ih =>
    rw [ledger, List.map_append, Ledger.map_settle, ih, pushedFrames, pushedFrames,
      List.filterMap_cons]
    cases t.pushed <;> rfl

/-- A pushed frame is not played at once. -/
theorem entry_not_played (t : Move F) {P : FrameFate → Bool} (late : P .late = false)
    (overflow : P .overflow = false) : t.entry.settled P = [] := by
  cases pushed : t.pushed with
  | none => simp only [Move.entry, pushed]; rfl
  | some frame =>
    have fate : (t.entryFate frame).any P = false := by
      rw [Move.entryFate]
      split
      · exact late
      · split
        · rfl
        · exact overflow
    simp only [Move.entry, pushed, Option.map_some, Option.toList_some, Ledger.settled,
      List.filter_cons, fate]
    rfl

/-- A transition plays under its own number. -/
theorem fate_played (t : Move F) {m n : Nat} (ne : n ≠ m) (a : UInt32 × Bytes) :
    (t.fate m a).any (· = .played n) = false := by
  rw [Move.fate]
  split
  · split
    · rfl
    · split
      · rfl
      · split
        · rfl
        · split <;> rfl
  · split
    · rfl
    · exact decide_eq_false fun same => ne (FrameFate.played.inj same).symm
  · rfl

/-- The number of an operation is not given before. -/
theorem settled_played_eq_nil (past : List (Move F)) {n : Nat} (later : past.length ≤ n) :
    (ledger past).settled (· = .played n) = [] := by
  induction past with
  | nil => rfl
  | cons t past ih =>
    rw [List.length_cons] at later
    refine List.Perm.eq_nil ((settled_ledger t past _).trans ?_)
    have none (a : UInt32 × Bytes) : (t.fate past.length a).any (· = .played n) = false :=
      fate_played t (by omega) a
    rw [entry_not_played t rfl rfl, ih (by omega), List.nil_append, List.nil_append,
      List.filter_eq_nil_iff.mpr fun a _ => by rw [none a]; exact Bool.false_ne_true]

/-- A list without order of at most one element has one order. -/
theorem eq_toList_of_perm {α : Type*} {l : List α} {o : Option α} (perm : l.Perm o.toList) :
    l = o.toList := by
  cases o with
  | none => exact perm.eq_nil
  | some a => exact List.perm_singleton.mp perm

/-! ## One transition -/

section

variable {past : List (Move F)} {b : JitterBuffer F} {t : Move F}

/-- What is pending is buffered. -/
theorem Accounted.mem_pending (acc : Accounted past b) {k : UInt32} {v : Bytes} :
    (k, v) ∈ (ledger past).pending ↔ b.frames[k]? = some v := by
  rw [acc.buffered.mem_iff, Std.ExtTreeMap.mem_toList_iff_getElem?_eq_some]

/-- The frames that a transition settles under a kind of fate that none of them meets. -/
theorem settled_same (t : Move F) (past : List (Move F)) (P : FrameFate → Bool)
    (entry : t.entry.settled P = [])
    (none : ∀ a ∈ (ledger past).pending, (t.fate past.length a).any P = false) :
    ((ledger (t :: past)).settled P).Perm ((ledger past).settled P) := by
  refine (settled_ledger t past P).trans ?_
  rw [entry, List.filter_eq_nil_iff.mpr fun a ha => by rw [none a ha]; exact Bool.false_ne_true,
    List.nil_append, List.append_nil]

/-- A transition that returns no payload plays no frame. -/
theorem played_same (acc : Accounted past b) (returns : t.returned = none)
    (none : ∀ a ∈ (ledger past).pending, ∀ n, t.fate past.length a ≠ some (.played n)) (n : Nat) :
    ((ledger (t :: past)).settled (· = .played n)).map (·.2) =
      (returnedBy (t :: past) n).toList := by
  have settled : (returnedBy (t :: past) n).toList = (returnedBy past n).toList := by
    rw [returnedBy]
    split
    next same =>
      have before := acc.played n
      rw [settled_played_eq_nil past (Nat.le_of_eq same.symm)] at before
      rw [returns, ← before]
      rfl
    next => rfl
  rw [settled]
  refine eq_toList_of_perm ?_
  rw [← acc.played n]
  refine (settled_same _ _ _ (entry_not_played t rfl rfl) fun a ha => ?_).map _
  cases fate : t.fate past.length a with
  | none => rfl
  | some x => exact decide_eq_false fun same => none a ha n (fate.trans (congrArg _ same))

/-- If no pending frame meets a fate and none is pushed, the ledger stays. -/
theorem pending_quiet (entry : t.entry = [])
    (none : ∀ a ∈ (ledger past).pending, t.fate past.length a = none) :
    (ledger (t :: past)).pending = (ledger past).pending := by
  rw [pending_ledger, entry, List.filter_eq_self.mpr fun a ha => by rw [none a ha]; rfl]
  rfl

theorem settled_quiet (entry : t.entry = [])
    (none : ∀ a ∈ (ledger past).pending, t.fate past.length a = none) (P : FrameFate → Bool) :
    ((ledger (t :: past)).settled P).Perm ((ledger past).settled P) :=
  settled_same _ _ P (by rw [entry]; rfl) fun a ha => by rw [none a ha]; rfl

/-- A pull that plays nothing keeps the books. -/
theorem accounted_quiet (acc : Accounted past b) {r : Pull} {b' : JitterBuffer F}
    (eq : b.pull = (r, b')) (returns : ∀ payload, r ≠ .play payload)
    (frames : b'.frames = b.frames) (played : b'.played = b.played) (late : b'.late = b.late)
    (overflow : b'.overflow = b.overflow)
    (concealed : b'.concealed = b.concealed + if r = .conceal then 1 else 0) :
    Accounted (⟨b, .pull, b'⟩ :: past) b' := by
  have outcome : Move.outcome ⟨b, .pull, b'⟩ = some r :=
    congrArg (fun x : Pull × JitterBuffer F => some x.1) eq
  have none : ∀ a ∈ (ledger past).pending, Move.fate ⟨b, .pull, b'⟩ past.length a = none := by
    intro a ha
    have member : a.1 ∈ b'.frames := by
      rw [frames]
      exact Std.ExtTreeMap.mem_iff_lookup.mpr ⟨a.2, acc.mem_pending.mp ha⟩
    simp only [Move.fate, member, if_true]
  have same := settled_quiet (t := ⟨b, .pull, b'⟩) rfl none
  refine ⟨?_, ?_, ?_, ?_, ?_, ?_⟩
  · rw [pending_quiet rfl none, frames]
    exact acc.buffered
  · refine played_same acc ?_ fun a ha n is => by rw [none a ha] at is; cases is
    simp only [Move.returned, outcome]
    cases r with
    | play payload => exact absurd rfl (returns payload)
    | _ => rfl
  · rw [played, acc.playedCount, (same _).length_eq]
  · rw [late, acc.lateCount, (same _).length_eq]
  · rw [overflow, acc.overflowCount, (same _).length_eq]
  · rw [concealed, acc.concealedCount, List.countP_cons, outcome]
    simp only [Option.some.injEq, decide_eq_true_eq]

theorem fate_pull (b b' : JitterBuffer F) (n : Nat) (a : UInt32 × Bytes) :
    Move.fate ⟨b, .pull, b'⟩ n a = if a.1 ∈ b'.frames then none else some (.played n) := rfl

/-- What a pull leaves of the buffer is what is still pending. -/
theorem pending_pull (acc : Accounted past b) {b' : JitterBuffer F}
    (part : ∀ k ∈ b'.frames, b'.frames[k]? = b.frames[k]?) :
    (ledger (⟨b, .pull, b'⟩ :: past)).pending.Perm b'.frames.toList := by
  refine .trans (.of_eq ?_) ((acc.buffered.filter _).trans (Std.ExtTreeMap.filter_toList part))
  rw [pending_ledger]
  refine List.filter_congr fun a _ => ?_
  rw [fate_pull]
  by_cases member : a.1 ∈ b'.frames
  · rw [if_pos member, decide_eq_true member]
    rfl
  · rw [if_neg member, decide_eq_false member]
    rfl

section

variable {payload : Bytes} {b' : JitterBuffer F}

/-- A pull that plays settles the frame due, and no other. -/
theorem settled_play (acc : Accounted past b) (found : b.frames[b.due]? = some payload)
    (frames : b'.frames = b.frames.erase b.due) {P : FrameFate → Bool}
    (hit : P (.played past.length) = true) : ((ledger (⟨b, .pull, b'⟩ :: past)).settled P).Perm
      ((ledger past).settled P ++ [(b.due, payload)]) := by
  refine (settled_ledger ⟨b, .pull, b'⟩ past P).trans ?_
  have entry : (Move.entry ⟨b, .pull, b'⟩).settled P = [] := rfl
  rw [entry, List.nil_append, ← Std.ExtTreeMap.filter_toList_key found]
  refine List.Perm.append_left _ ?_
  refine .trans (.of_eq ?_) (acc.buffered.filter _)
  refine List.filter_congr fun a ha => ?_
  have member : a.1 ∈ b.frames :=
    Std.ExtTreeMap.mem_iff_lookup.mpr ⟨a.2, acc.mem_pending.mp ha⟩
  have stays : a.1 ∈ b'.frames ↔ a.1 ≠ b.due ∧ a.1 ∈ b.frames := by
    rw [frames, Std.ExtTreeMap.mem_erase_iff]
  rw [fate_pull]
  by_cases same : a.1 = b.due
  · rw [if_neg fun still => (stays.mp still).1 same, decide_eq_true same]
    exact hit
  · rw [if_pos (stays.mpr ⟨same, member⟩), decide_eq_false same]
    rfl

/-- It settles no frame under another fate. -/
theorem settled_play_same (P : FrameFate → Bool) (other : P (.played past.length) = false) :
    ((ledger (⟨b, .pull, b'⟩ :: past)).settled P).Perm ((ledger past).settled P) := by
  refine settled_same _ _ _ rfl fun a _ => ?_
  rw [fate_pull]
  split
  · rfl
  · exact other

/-- A pull that plays keeps the books. -/
theorem accounted_play (acc : Accounted past b) (eq : b.pull = (.play payload, b'))
    (found : b.frames[b.due]? = some payload) (frames : b'.frames = b.frames.erase b.due)
    (played : b'.played = b.played + 1) (late : b'.late = b.late)
    (overflow : b'.overflow = b.overflow) (concealed : b'.concealed = b.concealed) :
    Accounted (⟨b, .pull, b'⟩ :: past) b' := by
  have outcome : Move.outcome ⟨b, .pull, b'⟩ = some (.play payload) :=
    congrArg (fun x : Pull × JitterBuffer F => some x.1) eq
  refine ⟨pending_pull acc fun k member => ?_, fun n => ?_, ?_, ?_, ?_, ?_⟩
  · rw [frames, Std.ExtTreeMap.mem_erase_iff] at member
    rw [frames, Std.ExtTreeMap.lookup_erase, if_neg member.1]
  · rw [returnedBy]
    split
    next same =>
      subst same
      have returns : Move.returned ⟨b, .pull, b'⟩ = some payload := by
        simp only [Move.returned, outcome]
      have settled := settled_play acc found frames (P := (· = .played past.length))
        (decide_eq_true rfl)
      rw [settled_played_eq_nil past (Nat.le_refl _)] at settled
      rw [returns]
      exact eq_toList_of_perm (settled.map _)
    next other =>
      refine eq_toList_of_perm ?_
      rw [← acc.played n]
      exact (settled_same _ _ _ rfl fun a _ => fate_played _ other a).map _
  · have settled := (settled_play acc found frames (P := FrameFate.isPlayed) rfl).length_eq
    rw [played, acc.playedCount, settled, List.length_append]
    rfl
  · rw [late, acc.lateCount, (settled_play_same _ rfl).length_eq]
  · rw [overflow, acc.overflowCount, (settled_play_same _ rfl).length_eq]
  · rw [concealed, acc.concealedCount, List.countP_cons, outcome]
    rfl

end

theorem accounted_pull (acc : Accounted past b) :
    Accounted (⟨b, .pull, b.pull.2⟩ :: past) b.pull.2 := by
  have h := b.pulled
  rcases eq : b.pull with ⟨r, b'⟩
  rw [eq] at h
  cases h with
  | waits => exact accounted_quiet acc eq nofun rfl rfl rfl rfl rfl
  | plays _ found => exact accounted_play acc eq found rfl rfl rfl rfl rfl
  | conceals => exact accounted_quiet acc eq nofun rfl rfl rfl rfl rfl
  | drains => exact accounted_quiet acc eq nofun rfl rfl rfl rfl rfl

theorem accounted_reset [F64 F] (acc : Accounted past b) :
    Accounted (⟨b, .reset, b.reset⟩ :: past) b.reset := by
  have same {P : FrameFate → Bool} (other : P .reset = false) :=
    settled_same ⟨b, .reset, b.reset⟩ past P rfl fun _ _ => other
  refine ⟨?_, played_same acc rfl fun _ _ _ => nofun, ?_, ?_, ?_, ?_⟩
  · rw [pending_ledger]
    have gone : ((ledger past).pending.filter fun a =>
        (Move.fate ⟨b, .reset, b.reset⟩ past.length a).isNone) = [] :=
      List.filter_eq_nil_iff.mpr fun _ _ => Bool.false_ne_true
    rw [gone]
    exact Std.ExtTreeMap.perm_toList .nil fun k v => by
      simp only [reset, Std.ExtTreeMap.getElem?_empty, List.not_mem_nil, reduceCtorEq,
        Move.entry, Move.pushed, Ledger.pending, Option.map_none, Option.toList_none,
        List.filter_nil, List.map_nil, List.append_nil]
  · exact acc.playedCount.trans (same rfl).length_eq.symm
  · exact acc.lateCount.trans (same rfl).length_eq.symm
  · exact acc.overflowCount.trans (same rfl).length_eq.symm
  · exact acc.concealedCount

/-- A push that is late enters the frame on the ledger, and nothing in the buffer. -/
theorem accounted_late (acc : Accounted past b) {ts : UInt32} {payload : Bytes}
    {now : Instant} {b' : JitterBuffer F} (isLate : b.isLate ts = true)
    (frames : b'.frames = b.frames) (played : b'.played = b.played) (late : b'.late = b.late + 1)
    (overflow : b'.overflow = b.overflow) (concealed : b'.concealed = b.concealed) :
    Accounted (⟨b, .push ts payload now, b'⟩ :: past) b' := by
  have none (a : UInt32 × Bytes) :
      Move.fate ⟨b, .push ts payload now, b'⟩ past.length a = none := by
    simp only [Move.fate, isLate, if_true]
  have entry : Move.entry ⟨b, .push ts payload now, b'⟩ = [((ts, payload), some .late)] := by
    simp only [Move.entry, Move.pushed, Option.map_some, Option.toList_some, Move.entryFate, isLate,
      if_true]
  have same {P : FrameFate → Bool} (other : P .late = false) :=
    settled_same ⟨b, .push ts payload now, b'⟩ past P
      (by rw [entry]; simp only [Ledger.settled, List.filter_cons, Option.any_some, other]; rfl)
      fun a _ => by rw [none a]; rfl
  refine ⟨?_, played_same acc rfl fun a _ n is => ?_, ?_, ?_, ?_, ?_⟩
  · rw [pending_ledger, entry, List.filter_eq_self.mpr fun a _ => by rw [none a]; rfl, frames]
    exact acc.buffered
  · rw [none a] at is
    cases is
  · rw [played, acc.playedCount, (same rfl).length_eq]
  · have settled := settled_ledger ⟨b, .push ts payload now, b'⟩ past (· = .late)
    rw [entry, List.filter_eq_nil_iff.mpr fun a _ => by rw [none a]; exact Bool.false_ne_true,
      List.append_nil] at settled
    rw [late, acc.lateCount, settled.length_eq, List.length_append, Nat.add_comm]
    rfl
  · rw [overflow, acc.overflowCount, (same rfl).length_eq]
  · exact concealed.trans acc.concealedCount

end

/-! ## A push that is stored -/

section

variable {past : List (Move F)} {b b' : JitterBuffer F} {ts : UInt32} {payload : Bytes}
  {now : Instant}

theorem fate_stored (onTime : b.isLate ts = false) (n : Nat) (a : UInt32 × Bytes) :
    Move.fate ⟨b, .push ts payload now, b'⟩ n a =
      if b.isAhead ts then some .resynced else if a.1 = ts then some .replaced
      else if a.1 ∈ b'.frames then none else some .overflow := by
  simp only [Move.fate, onTime, Bool.false_eq_true, if_false]

theorem entry_stored (onTime : b.isLate ts = false) :
    Move.entry ⟨b, .push ts payload now, b'⟩ =
      [((ts, payload), if ts ∈ b'.frames then none else some .overflow)] := by
  simp only [Move.entry, Move.pushed, Option.map_some, Option.toList_some, Move.entryFate, onTime,
    Bool.false_eq_true, if_false]

/-- The frames that are entered, by timestamp. -/
theorem entered_lookup (b : JitterBuffer F) (ts : UInt32) (payload : Bytes) (j : UInt32) :
    (b.entered ts payload)[j]? =
      if j = ts then some payload else if b.isAhead ts then none else b.frames[j]? := by
  rw [entered, Std.ExtTreeMap.lookup_insert]
  split
  · rfl
  · split
    · exact Std.ExtTreeMap.getElem?_empty
    · rfl

/-- A push leaves pending what it keeps of the buffer, and its own frame unless the cap drops it. -/
theorem pending_stored (acc : Accounted past b) (now : Instant) (onTime : b.isLate ts = false)
    (keeps : ∀ j ∈ b'.frames, b'.frames[j]? = (b.entered ts payload)[j]?) :
    (ledger (⟨b, .push ts payload now, b'⟩ :: past)).pending.Perm b'.frames.toList := by
  have nodup : (ledger past).pending.Nodup := acc.buffered.nodup_iff.mpr b.frames.nodup_toList
  have own : (Move.entry ⟨b, .push ts payload now, b'⟩).pending =
      if ts ∈ b'.frames then [(ts, payload)] else [] := by
    rw [entry_stored onTime]
    split <;> rfl
  have stays {a : UInt32 × Bytes} :
      (Move.fate ⟨b, .push ts payload now, b'⟩ past.length a).isNone = true ↔
        b.isAhead ts = false ∧ a.1 ≠ ts ∧ a.1 ∈ b'.frames := by
    rw [fate_stored onTime]
    cases b.isAhead ts <;> by_cases h : a.1 = ts <;> by_cases h' : a.1 ∈ b'.frames <;> simp [h, h']
  rw [pending_ledger, own]
  refine Std.ExtTreeMap.perm_toList (List.nodup_append.mpr ⟨?_, nodup.filter _, ?_⟩) fun k v => ?_
  · split
    · exact List.nodup_singleton _
    · exact .nil
  · -- the frame that had the timestamp is replaced
    intro e he e' he' same
    have other := (stays.mp (List.mem_filter.mp he').2).2.1
    split at he
    · rw [← same, List.mem_singleton.mp he] at other
      exact other rfl
    · cases he
  · rw [List.mem_append, List.mem_filter, stays, acc.mem_pending]
    by_cases member : k ∈ b'.frames
    · rw [keeps k member, entered_lookup]
      by_cases same : k = ts
      · subst same
        simp [member, @eq_comm _ v payload]
      · cases b.isAhead ts <;> simp [member, same]
    · have absent : b'.frames[k]? = none := Std.ExtTreeMap.getElem?_eq_none member
      rw [absent]
      by_cases same : k = ts
      · subst same
        simp [member]
      · by_cases stored : ts ∈ b'.frames <;> simp [member, same, stored]

/-- The frames that a push discards or replaces are the ones that are not entered with its own. -/
theorem length_discarded (acc : Accounted past b) (b' : JitterBuffer F) (payload : Bytes)
    (now : Instant) (onTime : b.isLate ts = false) :
    (b.entered ts payload).size + ((ledger past).pending.filter fun a =>
      (Move.fate ⟨b, .push ts payload now, b'⟩ past.length a).any (· ≠ .overflow)).length =
      (ledger past).pending.length + 1 := by
  cases ahead : b.isAhead ts with
  | true =>
    -- everything is discarded
    rw [List.filter_eq_self.mpr fun a _ => by rw [fate_stored onTime, if_pos ahead]; rfl, entered,
      if_pos ahead, Std.ExtTreeMap.size_insert, Std.ExtTreeMap.contains_empty]
    exact Nat.add_comm _ _
  | false =>
    -- the frame that has the timestamp is replaced
    have replaced : ((ledger past).pending.filter fun a =>
        (Move.fate ⟨b, .push ts payload now, b'⟩ past.length a).any (· ≠ .overflow)).length =
        if ts ∈ b.frames then 1 else 0 := by
      rw [← Std.ExtTreeMap.length_filter_key, ← (acc.buffered.filter _).length_eq]
      refine congrArg List.length (List.filter_congr fun a _ => ?_)
      rw [fate_stored onTime, ahead, if_neg Bool.false_ne_true]
      by_cases same : a.1 = ts
      · rw [if_pos same, decide_eq_true same]
        rfl
      · rw [if_neg same, decide_eq_false same]
        split <;> rfl
    rw [replaced, acc.buffered.length_eq, Std.ExtTreeMap.length_toList, entered, ahead,
      if_neg Bool.false_ne_true, Std.ExtTreeMap.size_insert]
    by_cases member : ts ∈ b.frames
    · rw [if_pos (Std.ExtTreeMap.mem_iff_contains.mp member), if_pos member]
    · rw [if_neg fun has => member (Std.ExtTreeMap.mem_iff_contains.mpr has), if_neg member]

/-- The frames that the cap drops are the ones by which it exceeds the buffer. -/
theorem overflow_stored (acc : Accounted past b) (onTime : b.isLate ts = false)
    (keeps : ∀ j ∈ b'.frames, b'.frames[j]? = (b.entered ts payload)[j]?)
    (total : b'.overflow + b'.frames.size = b.overflow + (b.entered ts payload).size) :
    b'.overflow =
      ((ledger (⟨b, .push ts payload now, b'⟩ :: past)).settled (· = .overflow)).length := by
  have settled := (settled_ledger ⟨b, .push ts payload now, b'⟩ past (· = .overflow)).length_eq
  have left := (pending_stored acc now onTime keeps).length_eq
  have discarded := length_discarded acc b' payload now onTime
  have split := Ledger.length_split (f := Move.fate ⟨b, .push ts payload now, b'⟩ past.length)
    (P := (· ≠ .overflow)) (Q := (· = .overflow)) (l := (ledger past).pending)
    fun _ _ _ _ => decide_not
  -- its own frame is stored or dropped
  have own : (Move.entry ⟨b, .push ts payload now, b'⟩).pending.length +
      ((Move.entry ⟨b, .push ts payload now, b'⟩).settled (· = .overflow)).length = 1 := by
    rw [entry_stored onTime]
    split <;> rfl
  rw [pending_ledger, List.length_append, Std.ExtTreeMap.length_toList] at left
  rw [List.length_append, List.length_append, ← acc.overflowCount] at settled
  omega

/-- A push that is stored settles the frames that it discards, replaces and drops, and enters its
own frame. -/
theorem accounted_stored (acc : Accounted past b) (onTime : b.isLate ts = false)
    (keeps : ∀ j ∈ b'.frames, b'.frames[j]? = (b.entered ts payload)[j]?)
    (total : b'.overflow + b'.frames.size = b.overflow + (b.entered ts payload).size)
    (played : b'.played = b.played) (late : b'.late = b.late)
    (concealed : b'.concealed = b.concealed) :
    Accounted (⟨b, .push ts payload now, b'⟩ :: past) b' := by
  have same {P : FrameFate → Bool} (resynced : P .resynced = false) (replaced : P .replaced = false)
      (overflow : P .overflow = false) := by
    refine settled_same ⟨b, .push ts payload now, b'⟩ past P ?_ fun a _ => ?_
    · rw [entry_stored onTime]
      split <;> simp only [Ledger.settled, List.filter_cons, Option.any_none, Option.any_some,
        overflow] <;> rfl
    · rw [fate_stored onTime]
      split
      · exact resynced
      · split
        · exact replaced
        · split
          · rfl
          · exact overflow
  refine ⟨pending_stored acc now onTime keeps, played_same acc rfl fun a _ n is => ?_, ?_, ?_,
    overflow_stored acc onTime keeps total, concealed.trans acc.concealedCount⟩
  · rw [fate_stored onTime] at is
    split at is
    · cases is
    · split at is
      · cases is
      · split at is <;> cases is
  · rw [played, acc.playedCount, (same rfl rfl rfl).length_eq]
  · rw [late, acc.lateCount, (same rfl rfl rfl).length_eq]

/-- A push keeps the books. -/
theorem accounted_push [F64 F] (acc : Accounted past b) :
    Accounted (⟨b, .push ts payload now, b.push ts payload now⟩ :: past)
      (b.push ts payload now) := by
  have h := b.pushed ts payload now
  generalize b.push ts payload now = b' at h ⊢
  cases h with
  | late isLate => exact accounted_late acc isLate rfl rfl rfl rfl rfl
  | stored onTime keeps total => exact accounted_stored acc onTime keeps total rfl rfl rfl

end

/-! ## Every run -/

section

variable [F64 F] {past : List (Move F)} {b : JitterBuffer F}

/-- The books of every run are right. -/
theorem accounted (run : (system F).Run past b) : Accounted past b := by
  induction run with
  | start init =>
    cases init
    refine ⟨?_, fun _ => rfl, rfl, rfl, rfl, rfl⟩
    exact Std.ExtTreeMap.perm_toList .nil fun k v => by
      simp only [new, Std.ExtTreeMap.getElem?_empty, ledger, Ledger.pending, List.filter_nil,
        List.map_nil, List.not_mem_nil, reduceCtorEq]
  | @step _ _ _ op _ step acc =>
    cases step
    cases op with
    | push => exact accounted_push acc
    | pull => exact accounted_pull acc
    | reset => exact accounted_reset acc

/-- No operation leaves more frames than the cap. -/
theorem size_le (run : (system F).Run past b) : b.frames.size ≤ maxFrames := by
  refine run.invariant (I := fun b => b.frames.size ≤ maxFrames) ?_ ?_
  · rintro _ rfl
    exact Nat.zero_le _
  · rintro b op _ rfl fits
    cases op with
    | push ts payload now =>
      have h := b.pushed ts payload now
      rw [apply]
      generalize b.push ts payload now = b' at h ⊢
      cases h with
      | late => exact fits
      | stored _ _ _ fits => exact fits
    | pull =>
      have h := b.pulled
      rw [apply]
      generalize b.pull = r at h ⊢
      cases h with
      | plays => exact Nat.le_trans (Std.ExtTreeMap.size_erase_le) fits
      | _ => exact fits
    | reset => exact Nat.zero_le _

/-- In every run each pushed frame has exactly one fate: the ledger lists the pushed frames with
their fates, the ones without are the buffered ones, an operation that returns a payload settles
exactly the frame with this payload, and one that returns none plays none. The counters are the
numbers of frames with these fates and of concealed pulls, and the buffer is within the cap. -/
theorem frames_conserved (run : (system F).Run past b) :
    (ledger past).map (·.1) = pushedFrames past ∧
    (ledger past).pending.Perm b.frames.toList ∧
    (∀ n, ((ledger past).settled (· = .played n)).map (·.2) = (returnedBy past n).toList) ∧
    b.stats.played = ((ledger past).settled FrameFate.isPlayed).length ∧
    b.stats.late = ((ledger past).settled (· = .late)).length ∧
    b.stats.overflow = ((ledger past).settled (· = .overflow)).length ∧
    b.stats.concealed = past.countP (·.outcome = some .conceal) ∧
    b.stats.buffered ≤ maxFrames := by
  have acc := accounted run
  exact ⟨map_ledger past, acc.buffered, acc.played, acc.playedCount, acc.lateCount,
    acc.overflowCount, acc.concealedCount, size_le run⟩

end

open JitterSample in
/-- Of four frames the first is played, the second replaced and the fourth late. -/
theorem frames_conserved_sample :
    (after [frame 0, frame 20, frame 20, .pull, frame 0]).stats.late = 1 := by
  rw [(frames_conserved (run [frame 0, frame 20, frame 20, .pull, frame 0])).2.2.2.2.1]
  decide +kernel

end Iax2.JitterBuffer
