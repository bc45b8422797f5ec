import Iax2.Laws.Regdaemon

/-!
# The registration daemon in silence

Whatever has happened, the daemon waits for a time: for the deadline of what is in flight, or for the
next registration (`due`). It is never far off (`Timely`), and if nothing arrives any more and the
reception does not fail, which ends the program, each tick of the housekeeping that finds it past
brings the next registration request nearer (`patience`).
-/

namespace Iax2.Regdaemon

variable {F : Type} {R : Rubato F}

/-- The time for the next act of the housekeeping. -/
def due (d : Regdaemon R) : Instant :=
  match d.pending with
  | some p => p.deadline
  | none => d.nextReg

/-- The longest time between two registrations. -/
def renewal (d : Regdaemon R) : Duration :=
  max (Duration.fromSecs 10) (Duration.fromSecs (d.refresh.toNat * 4 / 5))

/-- All is due at most a renewal after `now`. -/
structure Timely (now : Instant) (d : Regdaemon R) : Prop where
  pending : ∀ p, d.pending = some p → p.deadline ≤ now + retxAfter
  nextReg : d.nextReg ≤ now + d.renewal

section

variable {now : Instant} {d d' : Regdaemon R} {clock : Stream' Instant}

theorem Timely.due (h : Timely now d) : d.due ≤ now + d.renewal := by
  unfold Regdaemon.due
  split
  next p pending =>
    have short : retxAfter ≤ d.renewal := le_max_of_le_left (by decide)
    exact (h.pending p pending).trans (Nat.add_le_add_left short now)
  next => exact h.nextReg

/-- A new datagram is in flight, and the rest is as it was. -/
theorem Timely.transmit (h : Timely now d) {dg : Bytes} {t : Instant} (known : t ≤ now)
    (pending : d'.pending = some ⟨dg, t + retxAfter, 0⟩) (nextReg : d'.nextReg = d.nextReg)
    (refresh : d'.refresh = d.refresh) : Timely now d' where
  pending p here := by
    rw [pending] at here
    cases here
    exact Nat.add_le_add_right known _
  nextReg := by
    rw [nextReg, renewal, refresh]
    exact h.nextReg

theorem Timely.same (h : Timely now d) (pending : d'.pending = d.pending ∨ d'.pending = none)
    (nextReg : d'.nextReg = d.nextReg) (refresh : d'.refresh = d.refresh) : Timely now d' where
  pending p here := by
    rcases pending with same | none
    · exact h.pending p (same ▸ here)
    · rw [none] at here
      cases here
  nextReg := by
    rw [nextReg, renewal, refresh]
    exact h.nextReg

theorem Timely.onHouse (h : Timely now d) (known : ∀ i, clock.get i ≤ now) :
    Timely now (d.onHouse clock) := by
  have repeated (e : Regdaemon R) (h : Timely now e) : Timely now (e.retransmit clock) := by
    unfold retransmit
    split
    next p pending =>
      split
      · split
        · have short : Duration.fromSecs 3 ≤ e.renewal := le_max_of_le_left (by decide)
          exact ⟨nofun, Nat.add_le_add (known 5) short⟩
        · refine ⟨fun p' here => ?_, h.nextReg⟩
          cases here
          exact Nat.add_le_add_right (known 5) _
      · exact h
    · exact h
  unfold Regdaemon.onHouse register
  split
  · refine repeated _ ⟨fun p here => ?_, ?_⟩
    · cases here
      exact Nat.add_le_add_right (known 2) _
    · exact Nat.add_le_add (known 3) (le_max_left _ _)
  · exact repeated d h

theorem Timely.onReg (h : Timely now d) (f : FullFrame) (md5 : Md5)
    (known : ∀ i, clock.get i ≤ now) : Timely now (d.onReg f md5 clock) := by
  unfold Regdaemon.onReg
  dsimp only
  split
  · split
    · exact h.same (.inl rfl) rfl rfl
    · split
      · exact h.same (.inl rfl) rfl rfl
      · exact h.transmit (known 1) rfl rfl rfl
  · exact ⟨h.pending, Nat.add_le_add (known 0) (le_max_right _ _)⟩
  · have short : Duration.fromSecs 5 ≤ d.renewal := le_max_of_le_left (by decide)
    exact ⟨h.pending, Nat.add_le_add (known 0) short⟩
  · exact h.same (.inl rfl) rfl rfl
  · exact h.same (.inl rfl) rfl rfl

variable [F32 F] {r : Round F}

theorem Timely.onFull (h : Timely now d) (f : FullFrame) (md5 : Md5)
    (known : ∀ i, clock.get i ≤ now) : Timely now (d.onFull f md5 clock) := by
  unfold Regdaemon.onFull
  cases d.route f with
  | newCall => exact h.transmit (known 2) rfl rfl rfl
  | token token => exact h.transmit (known 1) rfl rfl rfl
  | reg => exact h.onReg f md5 known
  | call c =>
    dsimp only
    unfold onCall
    cases callKind f <;> exact h.same (.inl rfl) rfl rfl
  | _ => exact h.same (.inl rfl) rfl rfl

theorem Timely.apply (h : Timely now d) (md5 : Md5) (known : ∀ i, r.clock.get i ≤ now) :
    Timely now (d.apply md5 r) := by
  unfold Regdaemon.apply
  split
  · unfold onAudioTick
    split
    · split <;> exact h.same (.inl rfl) rfl rfl
    · exact h
  · unfold onKeepalive
    split <;> exact h.same (.inl rfl) rfl rfl
  · exact h.onHouse known
  next dg _ =>
    cases decoded : FullFrame.decode dg with
    | none =>
      obtain ⟨audio, played⟩ := d.onDatagram_other md5 r.clock decoded
      rw [played]
      exact h.same (.inl rfl) rfl rfl
    | some f =>
      rw [onDatagram_full md5 r.clock decoded]
      refine Timely.onFull ?_ f md5 known
      unfold settle
      split
      · exact h.same (.inr rfl) rfl rfl
      · exact h
  · exact h.same (.inl rfl) rfl rfl
  · exact h.same (.inl rfl) rfl rfl
  · exact h.same (.inl rfl) rfl rfl

variable {md5 : Md5} {username secret : String} {refresh : UInt16} {audio : AudioIo R}
  {start first : Instant} {past : List (Move R)}

theorem timely_run (run : (system md5 (new username secret refresh audio start first)).Run past d)
    (begun : first ≤ now) (known : ∀ t ∈ past, ∀ i, t.label.clock.get i ≤ now) :
    Timely now d := by
  induction run with
  | start init =>
    obtain rfl := init
    exact ⟨nofun, begun.trans (Nat.le_add_right _ _)⟩
  | step _ step ih =>
    obtain ⟨_, _, rfl⟩ := step
    obtain ⟨here, before⟩ := List.forall_mem_cons.mp known
    exact (ih before).apply md5 here

end

/-! ## Silence -/

section

/-- The time until the next registration request at most, if the housekeeping ticks every `δ`: what
is in flight is repeated, and given up. -/
def patience (d : Regdaemon R) (δ : Duration) : Duration :=
  match d.pending with
  | some p => (retxMax - p.tries) * (retxAfter + δ) + (δ + Duration.fromSecs 3)
  | none => 0

/-- Nothing arrives, no reception fails, and the housekeeping ticks: each tick is over `δ` after the
last one began. -/
def Ticking (δ : Duration) : Instant → List (Round F) → Prop
  | _, [] => True
  | last, r :: rounds =>
    Monotone r.clock ∧
      match r.wakeup with
      | .house => r.clock.get 5 ≤ last + δ ∧ Ticking δ r.clock.head rounds
      | .datagram _ | .recvError => False
      | _ => Ticking δ last rounds

/-- From one state to the other a REGREQ goes out. -/
def Renews (d d' : Regdaemon R) : Prop :=
  ∃ dgs, d'.sent = d.sent ++ dgs ∧ ∃ dg ∈ dgs, kind dg = some (Frametype.iax, Iax.regreq)

/-- What was sent stays sent. -/
def Grows (d d' : Regdaemon R) : Prop := ∃ dgs, d'.sent = d.sent ++ dgs

variable {d d' d'' : Regdaemon R} {clock : Stream' Instant}

theorem Grows.same (sent : d'.sent = d.sent) : d.Grows d' := ⟨[], by rw [sent, List.append_nil]⟩

theorem Renews.grows (h : d.Renews d') (h' : d'.Grows d'') : d.Renews d'' := by
  obtain ⟨dgs, sent, dg, mem, regreq⟩ := h
  obtain ⟨dgs', sent'⟩ := h'
  refine ⟨dgs ++ dgs', ?_, dg, List.mem_append_left _ mem, regreq⟩
  rw [sent', sent, List.append_assoc]

theorem Grows.renews (h : d.Grows d') (h' : d'.Renews d'') : d.Renews d'' := by
  obtain ⟨dgs, sent⟩ := h
  obtain ⟨dgs', sent', dg, mem, regreq⟩ := h'
  refine ⟨dgs ++ dgs', ?_, dg, List.mem_append_right _ mem, regreq⟩
  rw [sent', sent, List.append_assoc]

theorem retransmit_grows (d : Regdaemon R) (clock : Stream' Instant) :
    d.Grows (d.retransmit clock) := by
  unfold retransmit
  split
  next p _ =>
    split
    · split
      · exact .same rfl
      · exact ⟨[p.bytes], rfl⟩
    · exact .same rfl
  next => exact .same rfl

theorem onHouse_due (idle : d.pending = none) (late : d.nextReg ≤ clock.head) :
    d.Renews (d.onHouse clock) := by
  have registers : d.Renews (d.register clock) := by
    unfold register
    rw [if_pos ⟨idle, late⟩]
    exact ⟨_, rfl, _, List.mem_singleton_self _, kind_encode⟩
  exact registers.grows (retransmit_grows _ clock)

/-- A tick of the housekeeping registers, or finds nothing due, or repeats what is in flight, or
gives it up. -/
theorem onHouse_cases (d : Regdaemon R) (mono : Monotone clock) :
    d.Renews (d.onHouse clock) ∨
      (d.onHouse clock = d ∧ clock.head < d.due) ∨
      ∃ p, d.pending = some p ∧ d.Grows (d.onHouse clock) ∧
        ((p.tries < retxMax ∧ (d.onHouse clock).pending =
            some { p with tries := p.tries + 1, deadline := clock.get 5 + retxAfter }) ∨
          ((d.onHouse clock).pending = none ∧
            (d.onHouse clock).nextReg = clock.get 5 + Duration.fromSecs 3)) := by
  cases pending : d.pending with
  | none =>
    by_cases late : d.nextReg ≤ clock.head
    · exact .inl (onHouse_due pending late)
    · refine .inr (.inl ⟨?_, ?_⟩)
      · rw [onHouse, register, if_neg fun both => late both.2, retransmit, pending]
      · rw [due, pending]
        exact Nat.lt_of_not_le late
  | some p =>
    have waits : d.register clock = d := by
      rw [register, if_neg]
      simp [pending]
    rw [onHouse, waits]
    refine .inr ?_
    by_cases late : p.deadline ≤ clock.get 4
    · refine .inr ⟨p, rfl, retransmit_grows d clock, ?_⟩
      rw [retransmit, pending]
      dsimp only
      rw [if_pos late]
      split
      next => exact .inr ⟨rfl, rfl⟩
      next few => exact .inl ⟨Nat.lt_of_not_le few, rfl⟩
    · refine .inl ⟨?_, ?_⟩
      · rw [retransmit, pending]
        exact if_neg late
      · rw [due, pending]
        exact (mono (Nat.zero_le 4)).trans_lt (Nat.lt_of_not_le late)

/-- The next request goes out by then, if the last tick began at `last`. -/
def renewsBy (d : Regdaemon R) (δ : Duration) (last : Instant) : Instant :=
  max d.due last + d.patience δ

theorem max_add_le {head a b last δ : ℕ} (le : head ≤ a) (late : a ≤ last + δ) (k c : ℕ) :
    max (a + b) head + (k + c) ≤ last + (k + (b + δ) + c) := by
  omega

/-- A tick that does not register brings the next request no later, and it is not the last one before
it. -/
theorem onHouse_renewsBy {δ : Duration} {last : Instant} (mono : Monotone clock)
    (late : clock.get 5 ≤ last + δ) :
    d.Renews (d.onHouse clock) ∨
      (d.Grows (d.onHouse clock) ∧
        (d.onHouse clock).renewsBy δ clock.head ≤ d.renewsBy δ last ∧
        clock.head < d.renewsBy δ last) := by
  have began : clock.head ≤ clock.get 5 := mono (Nat.zero_le 5)
  rcases d.onHouse_cases mono with renews | ⟨same, early⟩ | ⟨p, pending, grows, act⟩
  · exact .inl renews
  · refine .inr ⟨.same (by rw [same]), ?_, ?_⟩
    · rw [same, renewsBy, renewsBy, max_eq_left early.le]
      exact Nat.add_le_add_right (le_max_left _ _) _
    · exact early.trans_le ((le_max_left _ _).trans (Nat.le_add_right _ _))
  · have waits : d.patience δ =
        (retxMax - p.tries) * (retxAfter + δ) + (δ + Duration.fromSecs 3) := by
      rw [patience, pending]
    have least : last + d.patience δ ≤ d.renewsBy δ last :=
      Nat.add_le_add_right (le_max_right _ _) _
    refine .inr ⟨grows, le_trans ?_ least, ?_⟩
    · rcases act with ⟨few, again⟩ | ⟨idle, next⟩
      · -- one repeat less to wait for
        obtain ⟨k, left⟩ : ∃ k, retxMax - p.tries = k + 1 := ⟨retxMax - p.tries - 1, by omega⟩
        have fewer : retxMax - (p.tries + 1) = k := by omega
        rw [waits, renewsBy, due, patience, again, left, Nat.succ_mul]
        dsimp only
        rw [fewer]
        exact max_add_le began late _ _
      · rw [waits, renewsBy, due, patience, idle, next]
        refine (max_add_le began late 0 0).trans (Nat.add_le_add_left ?_ last)
        rw [Nat.zero_add, Nat.add_zero, Nat.add_comm]
        exact Nat.le_add_left _ _
    · have pause : δ < d.patience δ := by
        rw [waits]
        exact (Nat.lt_add_of_pos_right (by decide)).trans_le (Nat.le_add_left _ _)
      exact ((began.trans late).trans_lt (Nat.add_lt_add_left pause last)).trans_le least

variable [F32 F] {md5 : Md5} {r : Round F}

/-- A round without a datagram and without a tick of the housekeeping. -/
theorem apply_other (d : Regdaemon R) (md5 : Md5) (house : r.wakeup ≠ .house)
    (datagram : ∀ dg, r.wakeup ≠ .datagram dg) :
    d.Grows (d.apply md5 r) ∧ (d.apply md5 r).pending = d.pending ∧
      (d.apply md5 r).nextReg = d.nextReg := by
  unfold apply
  split
  · unfold onAudioTick
    split
    · split
      · exact ⟨⟨_, rfl⟩, rfl, rfl⟩
      · exact ⟨.same rfl, rfl, rfl⟩
    · exact ⟨.same rfl, rfl, rfl⟩
  · unfold onKeepalive
    split
    · exact ⟨⟨_, rfl⟩, rfl, rfl⟩
    · exact ⟨.same rfl, rfl, rfl⟩
  next wakeup => exact absurd wakeup house
  next dg wakeup => exact absurd wakeup (datagram dg)
  · exact ⟨.same rfl, rfl, rfl⟩
  · exact ⟨.same rfl, rfl, rfl⟩
  · exact ⟨.same rfl, rfl, rfl⟩

omit [F32 F] in
theorem Grows.trans (h : d.Grows d') (h' : d'.Grows d'') : d.Grows d'' := by
  obtain ⟨dgs, sent⟩ := h
  obtain ⟨dgs', sent'⟩ := h'
  exact ⟨dgs ++ dgs', by rw [sent', sent, List.append_assoc]⟩

omit [F32 F] in
/-- What a list of rounds begins with. -/
theorem ticking_cons {δ : Duration} {last : Instant} {rounds : List (Round F)}
    (ticking : Ticking δ last (r :: rounds)) :
    (r.wakeup = .house ∧ Monotone r.clock ∧ r.clock.get 5 ≤ last + δ ∧
        Ticking δ r.clock.head rounds) ∨
      (r.wakeup ≠ .house ∧ (∀ dg, r.wakeup ≠ .datagram dg) ∧ Ticking δ last rounds) := by
  obtain ⟨mono, rest⟩ := ticking
  cases wakeup : r.wakeup with
  | house =>
    rw [wakeup] at rest
    exact .inl ⟨rfl, mono, rest⟩
  | datagram dg =>
    rw [wakeup] at rest
    exact rest.elim
  | recvError =>
    rw [wakeup] at rest
    exact rest.elim
  | _ =>
    rw [wakeup] at rest
    exact .inr ⟨by simp, by simp, rest⟩

theorem ticking_grows {δ : Duration} {last : Instant} {rounds : List (Round F)}
    (ticking : Ticking δ last rounds) : d.Grows (rounds.foldl (apply md5) d) := by
  induction rounds generalizing d last with
  | nil => exact .same rfl
  | cons r rounds ih =>
    rcases ticking_cons ticking with ⟨house, mono, late, rest⟩ | ⟨house, datagram, rest⟩
    · have tick : d.Grows (d.apply md5 r) := by
        rw [apply, house]
        rcases onHouse_renewsBy (d := d) mono late with ⟨dgs, sent, _⟩ | ⟨grows, _⟩
        · exact ⟨dgs, sent⟩
        · exact grows
      exact tick.trans (ih rest)
    · exact (d.apply_other md5 house datagram).1.trans (ih rest)

/-- If nothing arrives, a registration request goes out before a tick that begins late enough is
over. -/
theorem renews (md5 : Md5) {δ : Duration} {last : Instant} {rounds : List (Round F)}
    (ticking : Ticking δ last rounds)
    (late : ∃ r ∈ rounds, r.wakeup = .house ∧ d.renewsBy δ last ≤ r.clock.head) :
    d.Renews (rounds.foldl (apply md5) d) := by
  induction rounds generalizing d last with
  | nil =>
    obtain ⟨r, mem, _⟩ := late
    cases mem
  | cons r rounds ih =>
    obtain ⟨r', mem, tick, late⟩ := late
    rcases ticking_cons ticking with ⟨house, mono, on, rest⟩ | ⟨house, datagram, rest⟩
    · rw [List.foldl_cons, apply, house]
      rcases onHouse_renewsBy (d := d) mono on with renews | ⟨grows, sooner, early⟩
      · exact renews.grows (ticking_grows rest)
      · rcases List.mem_cons.mp mem with rfl | mem
        · exact absurd late (Nat.not_le_of_lt early)
        · exact grows.renews (ih rest ⟨r', mem, tick, sooner.trans late⟩)
    · obtain ⟨grows, pending, nextReg⟩ := d.apply_other md5 house datagram
      rcases List.mem_cons.mp mem with rfl | mem
      · exact absurd tick house
      · have same : (d.apply md5 r).renewsBy δ last = d.renewsBy δ last := by
          simp only [renewsBy, due, patience, pending, nextReg]
        exact grows.renews (ih rest ⟨r', mem, tick, same ▸ late⟩)

omit [F32 F] in
/-- The rounds before a round are ticking too. -/
theorem Ticking.prefix {δ : Duration} {before after : List (Round F)} {last : Instant}
    (ticking : Ticking δ last (before ++ after)) : Ticking δ last before := by
  induction before generalizing last with
  | nil => trivial
  | cons r before ih =>
    obtain ⟨mono, rest⟩ := ticking
    refine ⟨mono, ?_⟩
    cases wakeup : r.wakeup with
    | house =>
      rw [wakeup] at rest
      exact ⟨rest.1, ih rest.2⟩
    | datagram dg =>
      rw [wakeup] at rest
      exact rest
    | recvError =>
      rw [wakeup] at rest
      exact rest
    | _ =>
      rw [wakeup] at rest
      exact ih rest

omit [F32 F] in
/-- If the ticks before it began before `bound`, a tick is over `δ` after that. -/
theorem Ticking.near {δ : Duration} {before after : List (Round F)} {last bound : Instant}
    (ticking : Ticking δ last (before ++ r :: after)) (tick : r.wakeup = .house)
    (soon : last ≤ bound) (early : ∀ r' ∈ before, r'.wakeup = .house → r'.clock.head ≤ bound) :
    r.clock.get 5 ≤ bound + δ := by
  induction before generalizing last with
  | nil =>
    obtain ⟨_, rest⟩ := ticking
    rw [tick] at rest
    exact rest.1.trans (Nat.add_le_add_right soon δ)
  | cons r' before ih =>
    obtain ⟨here, early⟩ := List.forall_mem_cons.mp early
    rcases ticking_cons ticking with ⟨house, _, _, rest⟩ | ⟨_, _, rest⟩
    · exact ih rest (here house) early
    · exact ih rest soon early

omit [F32 F] in
/-- Of the ticks that begin late enough, there is a first one. -/
theorem first_late {bound : Instant} {rounds : List (Round F)}
    (late : ∃ r ∈ rounds, r.wakeup = .house ∧ bound ≤ r.clock.head) :
    ∃ before r after, rounds = before ++ r :: after ∧ r.wakeup = .house ∧ bound ≤ r.clock.head ∧
      ∀ r' ∈ before, r'.wakeup = .house → r'.clock.head < bound := by
  induction rounds with
  | nil =>
    obtain ⟨_, mem, _⟩ := late
    cases mem
  | cons r rounds ih =>
    by_cases here : r.wakeup = .house ∧ bound ≤ r.clock.head
    · exact ⟨[], r, rounds, rfl, here.1, here.2, List.forall_mem_nil _⟩
    · obtain ⟨r', mem, tick, late⟩ := late
      have later : r' ∈ rounds := by
        rcases List.mem_cons.mp mem with rfl | mem
        · exact absurd ⟨tick, late⟩ here
        · exact mem
      obtain ⟨before, first, after, rfl, known⟩ := ih ⟨r', later, tick, late⟩
      refine ⟨r :: before, first, after, rfl, known.1, known.2.1, fun x mem house => ?_⟩
      rcases List.mem_cons.mp mem with rfl | mem
      · exact Nat.lt_of_not_le fun late => here ⟨house, late⟩
      · exact known.2.2 x mem house

/-! ## The program goes on -/

omit [F32 F] in
theorem onReg_running (f : FullFrame) : (d.onReg f md5 clock).running = d.running := by
  unfold onReg
  dsimp only
  split
  · split
    · rfl
    · split <;> rfl
  all_goals rfl

omit [F32 F] in
theorem onHouse_running (d : Regdaemon R) (clock : Stream' Instant) :
    (d.onHouse clock).running = d.running := by
  have repeated (e : Regdaemon R) : (e.retransmit clock).running = e.running := by
    unfold retransmit
    split
    · split
      · split <;> rfl
      · rfl
    · rfl
  unfold onHouse register
  split
  · exact repeated _
  · exact repeated d

theorem onFull_running (f : FullFrame) : (d.onFull f md5 clock).running = d.running := by
  unfold onFull
  cases d.route f with
  | reg => exact onReg_running f
  | call c =>
    dsimp only
    unfold onCall
    cases callKind f <;> rfl
  | _ => rfl

/-- Nothing ends the program but a reception that fails. -/
theorem apply_running (d : Regdaemon R) (md5 : Md5) (r : Round F) :
    (d.apply md5 r).running = true ↔ d.running = true ∧ r.wakeup ≠ .recvError := by
  suffices other : r.wakeup ≠ .recvError → (d.apply md5 r).running = d.running by
    by_cases fails : r.wakeup = .recvError
    · simp [apply, fails]
    · simp [other fails, fails]
  intro other
  unfold apply
  cases wakeup : r.wakeup with
  | audioTick =>
    dsimp only
    unfold onAudioTick
    split
    · split <;> rfl
    · rfl
  | keepalive =>
    dsimp only
    unfold onKeepalive
    split <;> rfl
  | house => exact onHouse_running d r.clock
  | datagram dg =>
    dsimp only
    cases decoded : FullFrame.decode dg with
    | none =>
      obtain ⟨audio, played⟩ := d.onDatagram_other md5 r.clock decoded
      rw [played]
    | some f =>
      rw [onDatagram_full md5 r.clock decoded, onFull_running]
      unfold settle
      split <;> rfl
  | recvError => exact absurd wakeup other
  | _ => rfl

variable {now : Instant} {username secret : String} {refresh : UInt16} {audio : AudioIo R}
  {start first : Instant} {past : List (Move R)}

/-- Rounds in which nothing arrives and no reception fails go on with the run. -/
theorem ticking_run
    (run : (system md5 (new username secret refresh audio start first)).Run past d)
    (running : d.running = true) {δ : Duration} {last : Instant} {rounds : List (Round F)}
    (ticking : Ticking δ last rounds) :
    (system md5 (new username secret refresh audio start first)).Run
      (traceOf (apply md5) d past rounds) (rounds.foldl (apply md5) d) := by
  induction rounds generalizing d past last with
  | nil => exact run
  | cons r rounds ih =>
    have goes : (d.apply md5 r).running = true := by
      refine (d.apply_running md5 r).mpr ⟨running, fun fails => ?_⟩
      have rest := ticking.2
      rw [fails] at rest
      exact rest
    have next := run.step (e := r) ⟨running, ticking.1, rfl⟩
    rcases ticking_cons ticking with ⟨_, _, _, rest⟩ | ⟨_, _, rest⟩
    · exact ih next goes rest
    · exact ih next goes rest

/-- Whatever has happened up to `now`, if the program has not ended, nothing arrives and no reception
fails from then on, and the housekeeping ticks every `δ`, then a registration request goes out within
a renewal and the time of five repeats. -/
theorem keeps_registering
    (run : (system md5 (new username secret refresh audio start first)).Run past d)
    (running : d.running = true)
    (begun : first ≤ now) (known : ∀ t ∈ past, ∀ i, t.label.clock.get i ≤ now) {δ : Duration}
    {rounds : List (Round F)} (ticking : Ticking δ now rounds)
    (late : ∃ r ∈ rounds, r.wakeup = .house ∧
      now + d.renewal + (Duration.fromMillis 6500 + 6 * δ) ≤ r.clock.head) :
    ∃ before r after, rounds = before ++ r :: after ∧
      (system md5 (new username secret refresh audio start first)).Run
        (traceOf (apply md5) d past (before ++ [r])) ((before ++ [r]).foldl (apply md5) d) ∧
      r.clock.get 5 ≤ now + d.renewal + (Duration.fromMillis 6500 + 7 * δ) ∧
      ∃ dg ∈ ((before ++ [r]).foldl (apply md5) d).sent.drop d.sent.length,
        kind dg = some (Frametype.iax, Iax.regreq) := by
  have due := (timely_run run begun known).due
  have soon : d.renewsBy δ now ≤ now + d.renewal + (Duration.fromMillis 6500 + 6 * δ) := by
    refine Nat.add_le_add (max_le due (Nat.le_add_right _ _)) ?_
    unfold patience
    split
    next p _ =>
      have few : retxMax - p.tries ≤ 5 := Nat.sub_le _ _
      have sum (x : ℕ) : 5 * (700000000 + x) + (x + 3000000000) = 6500000000 + 6 * x := by omega
      exact (Nat.add_le_add_right (Nat.mul_le_mul_right _ few) _).trans (sum δ).le
    next => exact Nat.zero_le _
  -- the first tick that begins late enough
  generalize reached : now + d.renewal + (Duration.fromMillis 6500 + 6 * δ) = bound at soon late
  obtain ⟨before, r, after, rfl, tick, late, early⟩ := first_late late
  have whole : Ticking δ now (before ++ [r] ++ after) := by
    rwa [List.append_assoc]
  have these : Ticking δ now (before ++ [r]) := whole.prefix
  have begins : now ≤ bound := by
    rw [← reached, Nat.add_assoc]
    exact Nat.le_add_right _ _
  refine ⟨before, r, after, rfl, ticking_run run running these, ?_, ?_⟩
  · have near := ticking.near tick begins fun r' mem house => (early r' mem house).le
    rw [← reached] at near
    have seven : 6 * δ + δ = 7 * δ := (Nat.succ_mul 6 δ).symm
    rw [← seven, ← Nat.add_assoc (Duration.fromMillis 6500), ← Nat.add_assoc (now + d.renewal)]
    exact near
  · obtain ⟨dgs, sent, dg, mem, regreq⟩ := renews (d := d) md5 these
      ⟨r, List.mem_append_right _ List.mem_cons_self, tick, soon.trans late⟩
    refine ⟨dg, ?_, regreq⟩
    rw [sent, List.drop_left]
    exact mem

theorem minutes_ticking (k n : ℕ) :
    Ticking (Duration.fromSecs 60) (Duration.fromSecs (60 * k))
      ((List.range' (k + 1) n).map fun i => RegdaemonSample.round (60000 * i) .house) := by
  induction n generalizing k with
  | zero => trivial
  | succ n ih =>
    have same : Duration.fromMillis (60000 * (k + 1)) = Duration.fromSecs (60 * (k + 1)) := by
      show (60000 * (k + 1) * 1000000 : ℕ) = 60 * (k + 1) * 1000000000
      omega
    refine ⟨RegdaemonSample.round_mono _ _, ?_, ?_⟩
    · refine same.le.trans ?_
      show (60 * (k + 1) * 1000000000 : ℕ) ≤ 60 * k * 1000000000 + 60 * 1000000000
      omega
    · show Ticking _ (Duration.fromMillis (60000 * (k + 1))) _
      rw [same]
      exact ih (k + 1)

/-- A tick every minute, from the start on. -/
theorem keeps_registering_sample :
    ∃ before r after, (List.range' 1 7).map (fun i => RegdaemonSample.round (60000 * i) .house) =
        before ++ r :: after ∧
      r.clock.get 5 ≤ Duration.fromMillis (60000 * 8) ∧
      ∃ dg ∈ ((before ++ [r]).foldl (apply Sample.md5)
          (RegdaemonSample.after AudioIo.Sample.device [])).sent.drop
          (RegdaemonSample.after AudioIo.Sample.device []).sent.length,
        kind dg = some (Frametype.iax, Iax.regreq) := by
  have wait : 0 + (RegdaemonSample.after AudioIo.Sample.device []).renewal +
      (Duration.fromMillis 6500 + 6 * Duration.fromSecs 60) ≤ Duration.fromMillis (60000 * 7) := by
    decide +kernel
  have bound : 0 + (RegdaemonSample.after AudioIo.Sample.device []).renewal +
      (Duration.fromMillis 6500 + 7 * Duration.fromSecs 60) ≤ Duration.fromMillis (60000 * 8) := by
    decide +kernel
  obtain ⟨before, r, after, split, _, soon, goes⟩ := keeps_registering
    (RegdaemonSample.run AudioIo.Sample.device [] (List.forall_mem_nil _) rfl) rfl
    (Nat.zero_le 0) (List.forall_mem_nil _) (minutes_ticking 0 7)
    ⟨RegdaemonSample.round (60000 * 7) .house, List.mem_map.mpr ⟨7, by decide, rfl⟩, rfl, wait⟩
  exact ⟨before, r, after, split, soon.trans bound, goes⟩

end

end Iax2.Regdaemon
