import Iax2.Laws.Reliable

/-!
# Timers

`poll_timeout` and `handle_timeout` read the same deadlines. Before the instant that `poll_timeout`
announces, `handle_timeout` changes nothing at all (`timeout_only_when_due`).

After it, every deadline that was due is in the future, with one exception: the registration timer.
`handle_timeout` looks at it only when no request is in flight, and `poll_timeout` announces it
always, so with a request in flight it stays in the past (`timerProgress_iff`).

The registration timer is also what keeps two fresh registrations apart. A REGACK sets it to four
fifths of the refresh, whatever that is (`startsSpaced_run`).
-/

namespace Iax2

/-- A frame on the registration leg, from the peer's number 42. -/
def Sample.regFrame (iseq sc : UInt8) (ies : List Ie) : FullFrame :=
  FullFrame.new 42 callnoReg 0 0 iseq Frametype.iax sc ies

/-- The driver passes an instant with the operation. -/
def Op.Timed : Op → Prop
  | .handleTimeout | .handleCommand _ | .handleInput _ => True
  | .pollTransmit | .pollEvent | .rehash => False

instance : DecidablePred Op.Timed
  | .handleTimeout | .handleCommand _ | .handleInput _ => isTrue trivial
  | .pollTransmit | .pollEvent | .rehash => isFalse id

namespace PbxClient

variable {s s' : PbxClient} {md5 : Md5}

/-! ## The announced instant -/

/-- The instant is announced that comes after exactly the instants with `P`. -/
def Announces (t : Option Instant) (P : Instant → Prop) : Prop :=
  ∃ d, t = some d ∧ ∀ now, now < d ↔ P now

theorem Announces.congr {t : Option Instant} {P Q : Instant → Prop} (h : Announces t P)
    (same : ∀ now, P now ↔ Q now) : Announces t Q := by
  obtain ⟨d, ht, before⟩ := h
  exact ⟨d, ht, fun now => (before now).trans (same now)⟩

theorem consider_some (x d : Instant) : consider x (some d) = some (min d x) := by
  simp only [consider]
  split
  next le => rw [Nat.min_eq_left le]
  next lt => rw [Nat.min_eq_right (Nat.le_of_lt (Nat.not_le.mp lt))]

theorem Announces.consider {t : Option Instant} {P : Instant → Prop} (h : Announces t P)
    (x : Instant) : Announces (consider x t) fun now => P now ∧ now < x := by
  obtain ⟨d, rfl, before⟩ := h
  refine ⟨min d x, consider_some x d, fun now => ?_⟩
  show now < min d x ↔ P now ∧ now < x
  rw [← before]
  exact Nat.lt_min

theorem Announces.window {t : Option Instant} {P : Instant → Prop} (h : Announces t P)
    (w : List Outstanding) :
    Announces (considerWindow w t) fun now => P now ∧ ∀ o ∈ w, now < o.deadline := by
  induction w generalizing t P with
  | nil => exact h.congr fun now => by simp
  | cons o rest ih =>
    refine (ih (h.consider o.deadline)).congr fun now => ?_
    simp only [List.forall_mem_cons, and_assoc]

theorem Announces.calls {t : Option Instant} {P : Instant → Prop} (h : Announces t P)
    (l : List (Sigma fun _ : UInt16 => CallLeg)) :
    Announces (l.foldl (fun t e => considerWindow e.2.leg.outstanding t) t) fun now =>
      P now ∧ ∀ e ∈ l, ∀ o ∈ e.2.leg.outstanding, now < o.deadline := by
  induction l generalizing t P with
  | nil => exact h.congr fun now => by simp
  | cons e rest ih =>
    refine (ih (h.window e.2.leg.outstanding)).congr fun now => ?_
    simp only [List.forall_mem_cons, and_assoc]

/-- Nothing is due at `now`, and nothing has been. -/
structure AllLater (s : PbxClient) (now : Instant) : Prop where
  nextReg : now < s.nextReg
  nextKeepalive : s.regState = .registered → now < s.nextKeepalive
  reg : ∀ o ∈ s.reg.outstanding, now < o.deadline
  calls : ∀ k c, s.calls.lookup k = some c → ∀ o ∈ c.leg.outstanding, now < o.deadline

/-- `poll_timeout` announces the first instant at which something is due. -/
theorem pollTimeout_announces (s : PbxClient) : Announces s.pollTimeout s.AllLater := by
  have first : Announces (some s.nextReg) fun now => now < s.nextReg := ⟨_, rfl, fun _ => Iff.rfl⟩
  have keepalive : Announces
      (if s.regState = .registered then consider s.nextKeepalive (some s.nextReg)
        else some s.nextReg)
      fun now => now < s.nextReg ∧ (s.regState = .registered → now < s.nextKeepalive) := by
    split
    next registered =>
      exact (first.consider s.nextKeepalive).congr fun now => by simp [registered]
    next not => exact first.congr fun now => by simp [not]
  refine ((keepalive.window s.reg.outstanding).calls s.calls.entries).congr fun now => ?_
  constructor
  · rintro ⟨⟨⟨nextReg, nextKeepalive⟩, reg⟩, calls⟩
    exact ⟨nextReg, nextKeepalive, reg, fun k c hc o ho =>
      calls ⟨k, c⟩ (Table.mem_entries_iff.mpr hc) o ho⟩
  · rintro ⟨nextReg, nextKeepalive, reg, calls⟩
    exact ⟨⟨⟨nextReg, nextKeepalive⟩, reg⟩, fun e he o ho =>
      calls e.1 e.2 (Table.mem_entries_iff.mp he) o ho⟩

/-! ## Before it -/

/-- A window without a due entry goes round unchanged. -/
theorem expire_later {now : Instant} {w : List Outstanding} (later : ∀ o ∈ w, now < o.deadline) :
    expire now w = ⟨w, [], false⟩ := by
  induction w with
  | nil => rfl
  | cons o rest ih =>
    have hd : ¬ o.deadline ≤ now := Nat.not_le.mpr (later o List.mem_cons_self)
    rw [expire, ih fun o' ho' => later o' (List.mem_cons_of_mem o ho'), if_neg hd]

theorem retransmitReg_later {now : Instant} (later : ∀ o ∈ s.reg.outstanding, now < o.deadline) :
    s.retransmitReg now = s := by
  simp only [retransmitReg, expire_later later, List.append_nil, Bool.false_eq_true, if_false]

theorem retransmitCalls_later {now : Instant}
    (later : ∀ k c, s.calls.lookup k = some c → ∀ o ∈ c.leg.outstanding, now < o.deadline) :
    s.retransmitCalls now = s := by
  have entry : ∀ e ∈ s.calls.entries,
      expire now e.2.leg.outstanding = ⟨e.2.leg.outstanding, [], false⟩ := fun e he =>
    expire_later (later e.1 e.2 (Table.mem_entries_iff.mp he))
  have calls : s.calls.mapValues (·.expire now) = s.calls := by
    refine AList.ext ?_
    show s.calls.entries.map _ = _
    refine (List.map_congr_left fun e he => ?_).trans (List.map_id _)
    show (⟨e.1, e.2.expire now⟩ : Sigma fun _ : UInt16 => CallLeg) = e
    rw [CallLeg.expire, entry e he]
  have copies :
      s.calls.entries.flatMap (fun e => (expire now e.2.leg.outstanding).copies) = [] := by
    refine List.flatMap_eq_nil_iff.mpr fun e he => ?_
    rw [entry e he]
  have dead :
      s.calls.entries.filter (fun e => (expire now e.2.leg.outstanding).exhausted) = [] := by
    refine List.filter_eq_nil_iff.mpr fun e he => ?_
    rw [entry e he]
    exact Bool.false_ne_true
  rw [retransmitCalls, calls, copies, dead, List.append_nil]
  rfl

/-- Before the announced instant nothing is due, and `handle_timeout` changes nothing. -/
theorem handleTimeout_later {now : Instant} (later : s.AllLater now) (clock : Instant) :
    s.handleTimeout now clock = s := by
  have waits : ¬ (s.reg.outstanding = [] ∧ s.nextReg ≤ now) := fun h =>
    Nat.not_le.mpr later.nextReg h.2
  have quiet : ¬ (s.regState = .registered ∧ s.nextKeepalive ≤ now) := fun h =>
    Nat.not_le.mpr (later.nextKeepalive h.1) h.2
  rw [handleTimeout_eq, beforeCalls, if_neg waits, keepalive, if_neg quiet,
    retransmitReg_later later.reg, retransmitCalls_later later.calls]

/-- In every state, `poll_timeout` announces an instant before which `handle_timeout` changes
nothing: no datagram, no event, no leg, no timer, no table. Whenever it has something to do, the
announced instant has come. -/
theorem timeout_only_when_due (s : PbxClient) (now clock : Instant) :
    ∃ d, s.pollTimeout = some d ∧ (now < d → s.handleTimeout now clock = s) ∧
      (s.handleTimeout now clock ≠ s → d ≤ now) := by
  obtain ⟨d, poll, before⟩ := s.pollTimeout_announces
  have idle (early : now < d) : s.handleTimeout now clock = s :=
    handleTimeout_later ((before now).mp early) clock
  refine ⟨d, poll, idle, fun works => ?_⟩
  by_contra early
  exact works (idle (Nat.not_le.mp early))

/-! ## After it -/

/-- An entry that goes round with tries left is not due any more. -/
theorem aged_later {now : Instant} {o : Outstanding} (left : ¬ o.Spent now) :
    now < (o.aged now).deadline := by
  unfold Outstanding.aged
  split
  next => exact Nat.lt_add_of_pos_right (by decide)
  next waits =>
    by_contra early
    rcases Nat.lt_or_ge o.tries retxMax with few | many
    · exact waits ⟨Nat.not_lt.mp early, few⟩
    · exact left ⟨Nat.not_lt.mp early, many⟩

/-- A window that goes round without a spent entry has nothing due. -/
theorem window_later {now : Instant} {w : List Outstanding} (left : ¬ w.any (·.Spent now)) :
    ∀ o ∈ w.map (·.aged now), now < o.deadline := by
  intro _ h
  obtain ⟨o, ho, rfl⟩ := List.mem_map.mp h
  exact aged_later fun spent => left (List.any_eq_true.mpr ⟨o, ho, decide_eq_true spent⟩)

theorem retransmitReg_timers (s : PbxClient) (now : Instant) :
    (s.retransmitReg now).nextReg =
        (if s.reg.outstanding.any (·.Spent now) then now + regRetry else s.nextReg) ∧
      (s.retransmitReg now).nextKeepalive = s.nextKeepalive ∧
      ((s.retransmitReg now).regState = .registered → s.regState = .registered) := by
  simp only [retransmitReg, expire_eq]
  split
  · exact ⟨rfl, rfl, fun idle => by cases idle⟩
  · exact ⟨rfl, rfl, id⟩

theorem keepalive_timers (s : PbxClient) (now clock : Instant) :
    (s.keepalive now clock).nextReg = s.nextReg ∧
      ((s.keepalive now clock).regState = .registered →
        now < (s.keepalive now clock).nextKeepalive) := by
  simp only [keepalive]
  split
  next => exact ⟨rfl, fun _ => Nat.lt_add_of_pos_right (by decide)⟩
  next quiet =>
    refine ⟨rfl, fun registered => ?_⟩
    by_contra early
    exact quiet ⟨registered, Nat.not_lt.mp early⟩

/-- The registration timer after a timeout: it is set when a registration starts and when one is
lost. -/
theorem handleTimeout_nextReg (s : PbxClient) (now clock : Instant) :
    (s.handleTimeout now clock).nextReg =
      if s.reg.outstanding = [] ∧ s.nextReg ≤ now then now + regGuard
      else if s.reg.outstanding.any (·.Spent now) then now + regRetry
      else s.nextReg := by
  rw [handleTimeout_eq, (retransmitCalls_rest _ now).1]
  show (s.beforeCalls now clock).nextReg = _
  simp only [beforeCalls]
  rw [(retransmitReg_timers _ now).1, (keepalive_reg _ now clock).1,
    (keepalive_timers _ now clock).1]
  split
  next =>
    rw [startRegistration_unspent, if_neg Bool.false_ne_true]
    rfl
  next => rfl

theorem handleTimeout_keepalive (s : PbxClient) (now clock : Instant)
    (registered : (s.handleTimeout now clock).regState = .registered) :
    now < (s.handleTimeout now clock).nextKeepalive := by
  rw [handleTimeout_eq, (retransmitCalls_rest _ now).1] at registered ⊢
  let s₀ := if s.reg.outstanding = [] ∧ s.nextReg ≤ now then s.startRegistration now clock else s
  obtain ⟨_, same, before⟩ := retransmitReg_timers (s₀.keepalive now clock) now
  exact same ▸ (keepalive_timers s₀ now clock).2 (before registered)

/-- A timeout leaves nothing due on the registration leg. -/
theorem handleTimeout_reg_later (s : PbxClient) (now clock : Instant) :
    ∀ o ∈ (s.handleTimeout now clock).reg.outstanding, now < o.deadline := by
  intro o ho
  obtain ⟨_, _, ⟨_, hreg, _⟩ | ⟨_, hreg, _⟩⟩ := handleTimeout_reg s now clock
  · obtain ⟨fresh, window, entered⟩ := startRegistration_window s now clock
    rw [hreg, window] at ho
    obtain rfl := List.mem_singleton.mp ho
    exact Nat.not_le.mp entered.not_due
  · rw [hreg] at ho
    simp only at ho
    split at ho
    next => cases ho
    next left => exact window_later left o ho

/-- A timeout leaves nothing due on the leg of any call. -/
theorem handleTimeout_calls_later (s : PbxClient) (now clock : Instant) {k : UInt16} {c : CallLeg}
    (hc : (s.handleTimeout now clock).calls.lookup k = some c) :
    ∀ o ∈ c.leg.outstanding, now < o.deadline := by
  intro o ho
  rw [(handleTimeout_expired s now clock).calls, Option.bind_eq_some_iff] at hc
  obtain ⟨c₀, _, survives⟩ := hc
  obtain ⟨left, rfl⟩ := survivor_eq_some.mp survives
  have ho : o ∈ (expire now c₀.leg.outstanding).window := ho
  rw [expire_eq] at ho left
  exact window_later (by simpa using left) o ho

/-- After a timeout everything is in the future, except perhaps the registration timer. -/
theorem handleTimeout_allLater (s : PbxClient) (now clock : Instant) :
    (s.handleTimeout now clock).AllLater now ↔
      (s.nextReg ≤ now →
        s.reg.outstanding = [] ∨ ∃ o ∈ s.reg.outstanding, o.Spent now) := by
  have timer : (s.handleTimeout now clock).AllLater now ↔
      now < (s.handleTimeout now clock).nextReg := by
    refine ⟨AllLater.nextReg, fun nextReg => ⟨nextReg, handleTimeout_keepalive s now clock,
      handleTimeout_reg_later s now clock, fun _ _ => handleTimeout_calls_later s now clock⟩⟩
  rw [timer, handleTimeout_nextReg]
  split
  next starts =>
    exact ⟨fun _ _ => .inl starts.1, fun _ => Nat.lt_add_of_pos_right (by decide)⟩
  next waits =>
    split
    next spent =>
      obtain ⟨o, ho, hspent⟩ := List.any_eq_true.mp spent
      exact ⟨fun _ _ => .inr ⟨o, ho, of_decide_eq_true hspent⟩,
        fun _ => Nat.lt_add_of_pos_right (by decide)⟩
    next left =>
      constructor
      · intro later due
        exact absurd due (Nat.not_le.mpr later)
      · intro served
        by_contra early
        have due : s.nextReg ≤ now := Nat.not_lt.mp early
        rcases served due with empty | ⟨o, ho, spent⟩
        · exact waits ⟨empty, due⟩
        · exact left (List.any_eq_true.mpr ⟨o, ho, decide_eq_true spent⟩)

/-- A timeout at or after the announced instant moves the announced instant past it. -/
def TimerProgress (t : Move) : Prop :=
  t.label.op = .handleTimeout → ∀ d, t.pre.pollTimeout = some d → d ≤ t.label.now →
    ∃ d', t.post.pollTimeout = some d' ∧ t.label.now < d'

/-- A timeout that finds the registration timer due finds no request in flight, or one without
tries left. -/
def RegTimerServed (t : Move) : Prop :=
  t.label.op = .handleTimeout → t.pre.nextReg ≤ t.label.now →
    t.pre.reg.outstanding = [] ∨ ∃ o ∈ t.pre.reg.outstanding, o.Spent t.label.now

/-- One step makes progress exactly when the registration timer, if it is due, is served. -/
theorem timerProgress_step {i : Invocation} (step : Step md5 s i s') :
    TimerProgress ⟨s, i, s'⟩ ↔ RegTimerServed ⟨s, i, s'⟩ := by
  refine forall_congr' fun op => ?_
  have effect := step.timeout_eq op
  show _ ↔ (s.nextReg ≤ i.now → s.reg.outstanding = [] ∨ ∃ o ∈ s.reg.outstanding, o.Spent i.now)
  subst effect
  rw [← handleTimeout_allLater s i.now i.clock]
  obtain ⟨d, poll, before⟩ := s.pollTimeout_announces
  obtain ⟨d', poll', before'⟩ := (s.handleTimeout i.now i.clock).pollTimeout_announces
  rw [← before']
  constructor
  · intro progress
    rcases Nat.lt_or_ge i.now d with early | due
    · -- nothing happens, and what was in the future is in the future
      rw [handleTimeout_later ((before _).mp early), poll] at poll'
      cases poll'
      exact early
    · obtain ⟨d'', poll'', later⟩ := progress d poll due
      cases poll'.symm.trans poll''
      exact later
  · intro later _ _ _
    exact ⟨d', poll', later⟩

/-- Along every run, every timeout at or after the announced instant moves it past that timeout,
exactly as long as no timeout finds the registration timer due behind a request that is in flight
and has tries left. -/
theorem timerProgress_iff {cfg : Config} {past : List Move} (run : (system md5 cfg).Run past s) :
    Always (fun t _ => TimerProgress t) past ↔ Always (fun t _ => RegTimerServed t) past :=
  run.always_iff fun _ _ _ _ _ step _ => timerProgress_step step

/-- A registration that is acknowledged, and the timeouts after it. -/
theorem timerProgress_sample :
    let is := [{ op := .handleTimeout },
      { op := .handleInput (Sample.regFrame 1 Iax.regack []).encode, now := 100000000 },
      { op := .handleTimeout, now := 15100000000 }]
    Always (fun t _ => TimerProgress t) (Sample.trace is) ↔
      Always (fun t _ => RegTimerServed t) (Sample.trace is) :=
  timerProgress_iff (Sample.run _ (by decide))

/-- The second REGREQ, in flight when the guard of the first one is over, hides the registration
timer: the driver is told the same instant again. -/
theorem request_hides_timer :
    ¬ ∀ {past : List Move} {s : PbxClient}, (system Sample.md5 Sample.cfg).Run past s →
      Always (fun t _ => TimerProgress t) past := by
  intro law
  let is : List Invocation := [{ op := .handleTimeout },
    { op := .handleInput (Sample.regFrame 1 Iax.ack []).encode, now := 100000000 },
    { op := .handleInput (Sample.regFrame 1 Iax.regauth
        [Ie.u16 IeKind.authmethods Authmethod.md5, Ie.str IeKind.challenge "1234"]).encode
      now := 9800000000 }]
  have run := Sample.run (is ++ [{ op := .handleTimeout, now := 10000000000 }]) (by decide)
  have poll : (Sample.after is).pollTimeout = some 10000000000 := by decide
  have poll' : ((Sample.after is).handleTimeout 10000000000 0).pollTimeout =
      some 10000000000 := by decide
  obtain ⟨d, hd, later⟩ := (law run).1 rfl _ poll (Nat.le_refl _)
  cases poll'.symm.trans hd
  exact Nat.lt_irrefl _ later

/-! ## Between two registrations -/

/-- The transition executes `start_registration`: a timeout finds the registration timer due and
nothing in flight. -/
def StartsReg (t : Move) : Prop :=
  t.label.op = .handleTimeout ∧ t.pre.reg.outstanding = [] ∧ t.pre.nextReg ≤ t.label.now

instance (t : Move) : Decidable (StartsReg t) := inferInstanceAs (Decidable (_ ∧ _))

/-- At `d`, every registration that was started is at least `REG_RETRY` old. -/
def GuardOver (past : List Move) (d : Instant) : Prop :=
  ∀ t ∈ past, StartsReg t → t.label.now + regRetry ≤ d

/-- A registration starts at least `REG_RETRY` after every earlier one. -/
def Spaced (t : Move) (past : List Move) : Prop :=
  StartsReg t → GuardOver past t.label.now

/-- The driver passes no instant before one that it has passed. -/
def NonDecreasing (t : Move) (past : List Move) : Prop :=
  t.label.op.Timed → ∀ t' ∈ past, t'.label.op.Timed → t'.label.now ≤ t.label.now

instance (t : Move) (past : List Move) : Decidable (NonDecreasing t past) :=
  inferInstanceAs (Decidable (_ → _))

/-- The refresh after a REGACK: what the frame says, unless it says nothing or zero. -/
def agreedRefresh (s : PbxClient) (f : FullFrame) : UInt16 :=
  match (Ie.find f.ies IeKind.refresh).bind Ie.asU16 with
  | some rf => if 0 < rf then rf else s.refresh
  | none => s.refresh

/-- A REGACK on the registration leg agrees on a refresh whose four fifths do not end before the
guard. -/
def PatientAck (t : Move) (past : List Move) : Prop :=
  ∀ {dg f}, t.label.op = .handleInput dg → FullFrame.decode dg = some f → t.pre.route f = .reg →
    regKind f = .regack →
    GuardOver past (t.label.now + Duration.fromSecs ((t.pre.agreedRefresh f).toNat * 4 / 5))

/-- What a frame does to the registration timer. -/
theorem onRegFrame_nextReg (md5 : Md5) (s : PbxClient) (f : FullFrame) (now clock : Instant) :
    (s.onRegFrame md5 f now clock).nextReg =
      match regKind f with
      | .regack => now + Duration.fromSecs ((s.agreedRefresh f).toNat * 4 / 5)
      | .regrej => now + regRetry
      | _ => s.nextReg := by
  simp only [onRegFrame]
  cases regKind f with
  | regauth =>
    simp only
    split
    · rfl
    · split <;> rfl
  | _ => rfl

theorem GuardOver.cons_of_not {past : List Move} {d : Instant} {t : Move} (h : GuardOver past d)
    (idle : ¬ StartsReg t) : GuardOver (t :: past) d := by
  intro t' ht' starts
  rcases List.mem_cons.mp ht' with rfl | ht'
  · exact absurd starts idle
  · exact h t' ht' starts

/-- The pause after a refused or lost registration is as long as the guard asks. -/
theorem NonDecreasing.guardOver {t : Move} {past : List Move} (h : NonDecreasing t past)
    (timed : t.label.op.Timed) : GuardOver past (t.label.now + regRetry) := by
  intro t' ht' starts
  have timed' : t'.label.op.Timed := by
    rw [starts.1]
    trivial
  exact Nat.add_le_add_right (h timed t' ht' timed') regRetry

/-- A step sets the registration timer to an instant that keeps the guard, or not at all. -/
theorem guardOver_step {i : Invocation} {past : List Move} (wf : s.WellFormed)
    (step : Step md5 s i s') (mono : NonDecreasing ⟨s, i, s'⟩ past)
    (patient : PatientAck ⟨s, i, s'⟩ past) (h : GuardOver past s.nextReg) :
    GuardOver (⟨s, i, s'⟩ :: past) s'.nextReg := by
  have later {d : Instant} (notTimeout : i.op ≠ .handleTimeout) (h : GuardOver past d) :
      GuardOver (⟨s, i, s'⟩ :: past) d :=
    h.cons_of_not fun starts => notTimeout starts.1
  cases step.reg wf with
  | untouched op effect =>
    rw [effect.same.nextReg]
    exact later op h
  | token op _ _ effect =>
    have same : s'.nextReg = s.nextReg := by rw [effect]; rfl
    rw [same]
    exact later (by simp [op]) h
  | @frame dg f op decoded route effect =>
    refine later (by simp [op]) ?_
    rw [effect, onRegFrame_nextReg]
    cases kind : regKind f with
    | regack => exact patient op decoded route kind
    | regrej =>
      refine mono.guardOver ?_
      show i.op.Timed
      rw [op]
      trivial
    | _ => exact h
  | timeout op effect =>
    have timed : i.op.Timed := by
      rw [op]
      trivial
    have pause : GuardOver past (i.now + regRetry) := mono.guardOver timed
    rw [effect, handleTimeout_nextReg]
    split
    next starts =>
      have longer : regRetry ≤ regGuard := by decide
      intro t ht started
      rcases List.mem_cons.mp ht with rfl | ht
      · exact Nat.add_le_add_left longer _
      · exact (pause t ht started).trans (Nat.add_le_add_left longer _)
    next waits =>
      have idle : ¬ StartsReg ⟨s, i, s'⟩ := fun starts => waits starts.2
      split
      · exact pause.cons_of_not idle
      · exact h.cons_of_not idle

/-- The registration timer is not due before every registration that was started is old enough. -/
theorem guardOver_run {cfg : Config} {past : List Move} (run : (system md5 cfg).Run past s)
    (cond : Always (fun t past => NonDecreasing t past ∧ PatientAck t past) past) :
    GuardOver past s.nextReg := by
  refine run.invariant_under (I := fun past s => GuardOver past s.nextReg) ?_ ?_ cond
  · intro s _ t ht
    cases ht
  · intro past s i s' run step ⟨mono, patient⟩ h
    exact guardOver_step (wellFormed_run run) step mono patient h

/-- Along every run whose instants do not decrease, and in which no REGACK sets the registration
timer to an instant within the guard, two executions of `start_registration` are at least
`REG_RETRY` apart. -/
theorem startsSpaced_run {cfg : Config} {past : List Move} (run : (system md5 cfg).Run past s)
    (cond : Always (fun t past => NonDecreasing t past ∧ PatientAck t past) past) :
    Always Spaced past :=
  run.always_under
    (fun _ _ _ _ run _ cond _ starts t ht started =>
      (guardOver_run run cond t ht started).trans starts.2.2) cond

/-- A registration for one minute, and the next one after forty-eight seconds. -/
theorem startsSpaced_sample :
    Always Spaced (Sample.trace [{ op := .handleTimeout },
      { op := .handleInput (Sample.regFrame 1 Iax.regack [Ie.u16 IeKind.refresh 60]).encode
        now := 100000000 },
      { op := .handleTimeout, now := 48100000000 }]) := by
  let ack := Sample.regFrame 1 Iax.regack [Ie.u16 IeKind.refresh 60]
  have decoded : FullFrame.decode ack.encode = some ack := by decide
  refine startsSpaced_run (Sample.run _ (by decide))
    ⟨⟨by decide, fun op => ?_⟩, ⟨by decide, fun op h _ _ => ?_⟩, ⟨by decide, fun op => ?_⟩, trivial⟩
  · cases op
  · cases op
    cases decoded.symm.trans h
    intro t ht _
    obtain rfl := List.mem_singleton.mp ht
    decide
  · cases op

/-- A peer that grants a refresh of one second is registered with again in the same instant. -/
theorem short_refresh_undoes_guard :
    ¬ ∀ {past : List Move} {s : PbxClient}, (system Sample.md5 Sample.cfg).Run past s →
      Always NonDecreasing past → Always Spaced past := by
  intro law
  let is : List Invocation := [{ op := .handleTimeout },
    { op := .handleInput (Sample.regFrame 1 Iax.regack [Ie.u16 IeKind.refresh 1]).encode
      now := 100000000 },
    { op := .handleTimeout, now := 100000000 }]
  have run := Sample.run is (by decide)
  have mono : Always NonDecreasing (Sample.trace is) := ⟨by decide, by decide, by decide, trivial⟩
  -- the second start, after the REGACK and the first one
  have apart := (law run mono).1 (by decide) _ (List.mem_cons_of_mem _ List.mem_cons_self)
    (by decide)
  exact absurd apart (by decide)

end PbxClient

end Iax2
