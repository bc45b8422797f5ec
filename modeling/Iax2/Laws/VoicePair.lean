import Iax2.Laws.VoiceTime

/-!
# Two clients that speak

One client speaks on a call, and another one hears it. The sender has sent what was said
(`voiceSent_read`), and the receiver reports what arrives, each frame read against the one before
(`reported_run`). So if everything arrives in order, whether the two agree on the times is decided
by what was said alone (`played_said`).

They agree as long as each mini frame is nearest to the frame before (`voiceTimes_iff`). The sender
does not see to this: it sends a full frame once, and again only when the call is answered anew,
however long it pauses.
-/

namespace Iax2

/-- The voice frame that a datagram is. -/
def Heard.read (dg : Bytes) : Option Heard :=
  match FullFrame.decode dg, MiniFrame.decode dg with
  | some f, _ => (CallInput.frame f).heard
  | none, some m => (CallInput.mini m).heard
  | none, none => none

/-- Voice frames as they are reported, the latest first: each is read against the one before. -/
def played : List Heard → List (UInt32 × Bytes)
  | [] => []
  | h :: before => (h.reading ((played before).head?.map Prod.fst), h.payload) :: played before

/-- What is said: the reading of the clock, the payload, and whether it goes in a full frame. -/
structure Said where
  ts : UInt32
  payload : Bytes
  fresh : Bool
  deriving DecidableEq

namespace Said

/-- The voice frame in which it arrives. -/
def heard (x : Said) : Heard :=
  if x.fresh then .full x.ts x.payload else .mini x.ts.toUInt16 x.payload

/-- What is to be reported of it. -/
def reported (x : Said) : UInt32 × Bytes := (x.ts, x.payload)

/-- It goes in a full frame, or its time is the nearest, of those with its low bits, to the one
before. -/
def Near (later earlier : Said) : Prop :=
  later.fresh = true ∨ Nearest 65536 (2 ^ 32) earlier.ts.toNat later.ts.toNat

instance (later earlier : Said) : Decidable (later.Near earlier) :=
  inferInstanceAs (Decidable (_ ∨ _))

/-- After another frame, it is read right exactly if it is near. -/
theorem reading_eq_iff {x : Said} {earlier : Said} :
    x.heard.reading (some earlier.ts) = x.ts ↔ x.Near earlier := by
  unfold heard Near
  cases x.fresh with
  | true => simp [Heard.reading]
  | false =>
    simp only [Bool.false_eq_true, if_false, false_or]
    exact reconstructTs_eq_iff

theorem heard_payload (x : Said) : x.heard.payload = x.payload := by
  unfold heard
  split <;> rfl

end Said

/-- What was said is reported right exactly if each is near to the one before. -/
theorem played_said {l : List Said} (begins : ∀ x ∈ l.getLast?, x.fresh = true) :
    played (l.map Said.heard) = l.map Said.reported ↔ l.IsChain Said.Near := by
  induction l with
  | nil => exact iff_of_true rfl .nil
  | cons y l ih =>
    cases l with
    | nil =>
      have fresh : y.fresh = true := begins y rfl
      refine iff_of_true ?_ (.singleton y)
      simp [played, Said.heard, fresh, Heard.reading, Heard.payload, Said.reported]
    | cons x rest =>
      have rest_iff := ih (by rwa [List.getLast?_cons_cons] at begins)
      rw [List.isChain_cons_cons, ← rest_iff]
      show (_, _) :: played ((x :: rest).map Said.heard) =
        y.reported :: (x :: rest).map Said.reported ↔ _
      rw [List.cons.injEq]
      constructor
      · rintro ⟨now, before⟩
        rw [before] at now
        exact ⟨Said.reading_eq_iff.mp (congrArg Prod.fst now), before⟩
      · rintro ⟨near, before⟩
        refine ⟨?_, before⟩
        rw [before]
        exact Prod.ext (Said.reading_eq_iff.mpr near) y.heard_payload

namespace PbxClient

variable {s s' : PbxClient} {md5 : Md5} {k : UInt16} {cfg : Config} {past : List Move}

/-! ## Since a call was opened -/

/-- The datagram that arrives in the transition. -/
def Move.received (t : Move) : List Bytes :=
  match t.label.op with
  | .handleInput dg => [dg]
  | _ => []

/-- The transitions since the call `k` was opened. -/
def life (k : UInt16) (past : List Move) : List Move := past.takeWhile fun t => ¬ Opens k t

/-- What the transition says on the call `k`. -/
def Move.said (k : UInt16) (t : Move) : Option Said :=
  match t.label.op, t.pre.calls.lookup k with
  | .handleCommand (.sendVoice j p), some c =>
    if j = k ∧ c.state = .up then some ⟨t.pre.ts t.label.clock, p, !c.sentFormat⟩ else none
  | _, _ => none

/-- What was said on the call `k` since it was opened, the latest first. -/
def said (k : UInt16) (past : List Move) : List Said := (life k past).filterMap (Move.said k)

/-- The datagrams in which it was sent. -/
def voiceSent (k : UInt16) (past : List Move) : List Bytes :=
  ((life k past).filter fun t => (t.said k).isSome).flatMap Move.pushed

/-- The voice frames that arrived for the call `k` since it was opened, the latest first. -/
def heard (k : UInt16) (past : List Move) : List Heard := (life k past).filterMap (Move.heard k)

/-- The datagrams in which they arrived. -/
def voiceReceived (k : UInt16) (past : List Move) : List Bytes :=
  ((life k past).filter fun t => (t.heard k).isSome).flatMap Move.received

/-- The voice that was reported for the call `k` since it was opened, the latest first. -/
def voiceReported (k : UInt16) (past : List Move) : List (UInt32 × Bytes) :=
  (life k past).flatMap fun t => (t.voices.filter (·.1 = k)).map Prod.snd

theorem life_opens {t : Move} (opens : Opens k t) : life k (t :: past) = [] :=
  List.takeWhile_cons_of_neg (by simp [opens])

theorem life_cons {t : Move} (opens : ¬ Opens k t) : life k (t :: past) = t :: life k past :=
  List.takeWhile_cons_of_pos (by simp [opens])

theorem mem_of_mem_life {t : Move} (h : t ∈ life k past) : t ∈ past :=
  (List.takeWhile_sublist _).subset h

/-! ## The sender -/

/-- What is said is sent in one datagram, which reads as it was said. -/
theorem said_sent {i : Invocation} {x : Said} (step : Step md5 s i s')
    (spoke : Move.said k ⟨s, i, s'⟩ = some x) :
    ∃ dg, s.pushed s' = [dg] ∧ Heard.read dg = some x.heard := by
  simp only [Move.said] at spoke
  split at spoke
  next j p c op live =>
    split at spoke
    next hup =>
      obtain ⟨rfl, hup⟩ := hup
      cases spoke
      rcases sendVoice_step step op with ⟨c', live', _, _, sent⟩ | ⟨notUp, _⟩
      · cases live.symm.trans live'
        obtain ⟨dg, one, reads⟩ := sendVoice_sent hup p (s.ts i.clock)
        refine ⟨dg, sent.trans one, ?_⟩
        cases flag : c.sentFormat with
        | true =>
          rw [if_pos flag] at reads
          simp only [Heard.read, (decode_of_mini reads.2).2, reads.2]
          rfl
        | false =>
          rw [if_neg (by rw [flag]; exact Bool.false_ne_true)] at reads
          obtain ⟨f, decoded, voice, _, _, ts, payload⟩ := reads
          simp only [Heard.read, decoded, CallInput.heard, if_pos voice, ts, payload]
          rfl
      · exact absurd ⟨c, live, hup⟩ notUp
    next => cases spoke
  next => cases spoke

/-- What is collected of the transitions reads as it was marked, if each does. -/
theorem collect_read {β : Type} {f : Move → Option β} {g : Move → List Bytes} {r : β → Heard}
    {l : List Move}
    (each : ∀ t ∈ l, ∀ x, f t = some x → ∃ dg, g t = [dg] ∧ Heard.read dg = some (r x)) :
    ((l.filter fun t => (f t).isSome).flatMap g).map Heard.read =
      (l.filterMap f).map fun x => some (r x) := by
  induction l with
  | nil => rfl
  | cons t l ih =>
    obtain ⟨now, rest⟩ := List.forall_mem_cons.mp each
    cases marked : f t with
    | none =>
      rw [List.filter_cons_of_neg (by simp [marked]), List.filterMap_cons_none marked]
      exact ih rest
    | some x =>
      obtain ⟨dg, one, reads⟩ := now x marked
      rw [List.filter_cons_of_pos (by simp [marked]), List.filterMap_cons_some marked,
        List.flatMap_cons, one, List.map_append, ih rest, List.map_cons, List.map_cons, reads]
      rfl

/-- What was said is what the datagrams read as. -/
theorem voiceSent_read (run : (system md5 cfg).Run past s) :
    (voiceSent k past).map Heard.read = (said k past).map fun x => some x.heard := by
  have each : Always (fun t _ => ∀ x, t.said k = some x →
      ∃ dg, t.pushed = [dg] ∧ Heard.read dg = some x.heard) past :=
    run.always fun _ _ _ _ _ step _ spoke => said_sent step spoke
  refine collect_read fun t ht x spoke => ?_
  obtain ⟨_, sent⟩ := each.of_mem (mem_of_mem_life ht)
  exact sent x spoke

/-- If voice was sent, something was said. -/
theorem said_of_spoken (spoken : Spoken k past) : said k past ≠ [] := by
  induction past with
  | nil => exact spoken.elim
  | cons t past ih =>
    have opens : ¬ Opens k t := fun opens => spoken.1 (.inl opens)
    rw [said, life_cons opens]
    rcases spoken.2 with ⟨⟨p, op⟩, c, live, hup⟩ | before
    · have spoke : t.said k = some ⟨t.pre.ts t.label.clock, p, !c.sentFormat⟩ := by
        rw [Move.said, op, live]
        exact if_pos ⟨rfl, hup⟩
      rw [List.filterMap_cons_some spoke]
      exact List.cons_ne_nil _ _
    · rw [List.filterMap_cons]
      split
      next => exact ih before
      next => exact List.cons_ne_nil _ _

/-- What is said first goes in a full frame. -/
theorem said_begins (run : (system md5 cfg).Run past s) :
    ∀ x ∈ (said k past).getLast?, x.fresh = true := by
  induction run with
  | start _ =>
    intro x mem
    cases mem
  | @step past s s' i run step ih =>
    by_cases opens : Opens k ⟨s, i, s'⟩
    · rw [said, life_opens opens]
      intro x mem
      cases mem
    · rw [said, life_cons opens, List.filterMap_cons]
      split
      next => exact ih
      next y spoke =>
        show ∀ x ∈ (y :: said k past).getLast?, x.fresh = true
        cases prev : said k past with
        | nil =>
          rintro x mem
          cases mem
          simp only [Move.said] at spoke
          split at spoke
          next c _ live =>
            split at spoke
            next =>
              cases spoke
              cases flag : c.sentFormat with
              | false => rfl
              | true => exact absurd prev (said_of_spoken ((sentFormat_run run k c live).mp flag))
            next => cases spoke
          next => cases spoke
        | cons z rest =>
          rw [List.getLast?_cons_cons, ← prev]
          exact ih

/-! ## The receiver -/

/-- A voice frame that arrives is what its datagram reads as. -/
theorem heard_read {t : Move} {h : Heard} (heard : t.heard k = some h) :
    ∃ dg, t.received = [dg] ∧ Heard.read dg = some h := by
  simp only [Move.heard] at heard
  split at heard
  next dg op =>
    refine ⟨dg, by rw [Move.received, op], ?_⟩
    split at heard
    next f decoded =>
      split at heard
      next =>
        rw [Heard.read, decoded]
        exact heard
      next => cases heard
    next m notFull decoded =>
      split at heard
      next =>
        rw [Heard.read, notFull, decoded]
        exact heard
      next => cases heard
    next => cases heard
  next => cases heard

theorem voiceReceived_read (past : List Move) :
    (voiceReceived k past).map Heard.read = (heard k past).map some :=
  collect_read (r := id) fun _ _ _ heard => heard_read heard

theorem voiceReported_cons {t : Move} (opens : ¬ Opens k t) :
    voiceReported k (t :: past) =
      (t.voices.filter (·.1 = k)).map Prod.snd ++ voiceReported k past := by
  rw [voiceReported, life_cons opens, List.flatMap_cons]
  rfl

/-- The last timestamp that was reported is the reference of the call. -/
def ReferenceReported (k : UInt16) (past : List Move) (s : PbxClient) : Prop :=
  ∀ c, s.calls.lookup k = some c → c.reference = (voiceReported k past).head?.map Prod.fst

/-- A voice frame that arrives for a call that is up is reported, and is the new reference. -/
theorem reported_step {i : Invocation} {h : Heard} (wf : s.WellFormed) (step : Step md5 s i s')
    (opens : ¬ Opens k ⟨s, i, s'⟩) (hears : Move.heard k ⟨s, i, s'⟩ = some h) (up : s.Up k)
    (before : ReferenceReported k past s) :
    voiceReported k (⟨s, i, s'⟩ :: past) =
        (h.reading ((voiceReported k past).head?.map Prod.fst), h.payload) ::
          voiceReported k past ∧
      ReferenceReported k (⟨s, i, s'⟩ :: past) s' := by
  obtain ⟨c, live, hup⟩ := up
  have reads : voiceReported k (⟨s, i, s'⟩ :: past) =
      (h.reading c.reference, h.payload) :: voiceReported k past := by
    rw [voiceReported_cons opens, voices_heard wf step live hup hears]
    simp
  refine ⟨by rw [reads, before c live], fun c' live' => ?_⟩
  rcases reference_step wf step live' with ⟨opens', _⟩ | ⟨_, c₀, live₀, after⟩
  · exact absurd opens' opens
  · cases live.symm.trans live₀
    rw [after, Move.reference, hears, reads]
    exact if_pos (.inr ⟨c, live, hup⟩)

/-- A step in which no voice arrives reports none, and keeps the reference. -/
theorem unreported_step {i : Invocation} (wf : s.WellFormed) (step : Step md5 s i s')
    (opens : ¬ Opens k ⟨s, i, s'⟩) (deaf : Move.heard k ⟨s, i, s'⟩ = none)
    (before : ReferenceReported k past s) :
    voiceReported k (⟨s, i, s'⟩ :: past) = voiceReported k past ∧
      ReferenceReported k (⟨s, i, s'⟩ :: past) s' := by
  have same : voiceReported k (⟨s, i, s'⟩ :: past) = voiceReported k past := by
    rw [voiceReported_cons opens, voices_silent step deaf]
    rfl
  refine ⟨same, fun c' live' => ?_⟩
  rcases reference_step wf step live' with ⟨opens', _⟩ | ⟨_, c, live, after⟩
  · exact absurd opens' opens
  · rw [after, Move.reference, deaf, same]
    exact before c live

/-- A call that is up when voice arrives reports it, each frame read against the one before. -/
theorem reported_run (run : (system md5 cfg).Run past s)
    (up : ∀ t ∈ life k past, (t.heard k).isSome → t.pre.Up k) :
    voiceReported k past = played (heard k past) ∧ ReferenceReported k past s := by
  induction run with
  | start init =>
    obtain ⟨now, rfl⟩ := init
    refine ⟨rfl, fun c live => ?_⟩
    cases live
  | @step past s s' i run step ih =>
    have wf := wellFormed_run run
    by_cases opens : Opens k ⟨s, i, s'⟩
    · refine ⟨by rw [voiceReported, heard, life_opens opens]; rfl, fun c' live' => ?_⟩
      rw [voiceReported, life_opens opens]
      rcases reference_step wf step live' with ⟨_, fresh⟩ | ⟨notOpens, _⟩
      · exact fresh
      · exact absurd opens notOpens
    · rw [life_cons opens] at up
      obtain ⟨now, rest⟩ := List.forall_mem_cons.mp up
      obtain ⟨before, reference⟩ := ih rest
      cases hears : Move.heard k ⟨s, i, s'⟩ with
      | none =>
        obtain ⟨same, after⟩ := unreported_step wf step opens hears reference
        rw [same, heard, life_cons opens, List.filterMap_cons_none hears]
        exact ⟨before, after⟩
      | some h =>
        have isUp : s.Up k := now (by rw [hears]; rfl)
        obtain ⟨cons, after⟩ := reported_step wf step opens hears isUp reference
        rw [cons, heard, life_cons opens, List.filterMap_cons_some hears, played, ← heard, ← before]
        exact ⟨rfl, after⟩

/-! ## Their times -/

/-- What is reported of voice that arrives in order, for a call that is up, is what was said, each
frame read against the one before. -/
theorem reported_said {md5' : Md5} {cfg' : Config} {past' : List Move} {a b : UInt16}
    (sender : (system md5 cfg).Run past s) (receiver : (system md5' cfg').Run past' s')
    (up : ∀ t ∈ life b past', (t.heard b).isSome → t.pre.Up b)
    (delivered : voiceReceived b past' = voiceSent a past) :
    voiceReported b past' = played ((said a past).map Said.heard) := by
  have arrives : heard b past' = (said a past).map Said.heard := by
    have same : (heard b past').map some = ((said a past).map Said.heard).map some := by
      rw [← voiceReceived_read, delivered, voiceSent_read sender, List.map_map]
      rfl
    exact List.map_injective_iff.mpr (Option.some_injective _) same
  rw [(reported_run receiver up).1, arrives]

/-- If the datagrams in which a client speaks arrive in order at another one, for a call that is up,
this one reports what was said, at the times at which it was said, exactly if each mini frame is
nearest to the frame before. -/
theorem voiceTimes_iff {md5' : Md5} {cfg' : Config} {past' : List Move} {a b : UInt16}
    (sender : (system md5 cfg).Run past s) (receiver : (system md5' cfg').Run past' s')
    (up : ∀ t ∈ life b past', (t.heard b).isSome → t.pre.Up b)
    (delivered : voiceReceived b past' = voiceSent a past) :
    voiceReported b past' = (said a past).map Said.reported ↔
      (said a past).IsChain Said.Near := by
  rw [reported_said sender receiver up delivered]
  exact played_said (said_begins sender)

/-- Two clients agree on the times of voice, if no pause is as long as half of the sixteen bits. -/
theorem voiceTimes_of_close {md5' : Md5} {cfg' : Config} {past' : List Move} {a b : UInt16}
    (sender : (system md5 cfg).Run past s) (receiver : (system md5' cfg').Run past' s')
    (up : ∀ t ∈ life b past', (t.heard b).isSome → t.pre.Up b)
    (delivered : voiceReceived b past' = voiceSent a past)
    (close : (said a past).IsChain fun later earlier =>
      2 * Nat.dist earlier.ts.toNat later.ts.toNat < 65536) :
    voiceReported b past' = (said a past).map Said.reported := by
  rw [reported_said sender receiver up delivered]
  exact (played_said (said_begins sender)).mpr
    (close.imp fun later _ near => .inr (.of_close later.ts.toNat_lt near))

/-- A client dials, and is answered by a call with the number 16. -/
def speaker : List Invocation :=
  [Sample.command (.dial "200"),
    Sample.receive (FullFrame.new 16 16 0 0 1 Frametype.iax Iax.accept []),
    Sample.receive (FullFrame.new 16 16 20 1 1 Frametype.control Control.answer [])]

/-- A voice command after so many milliseconds. -/
def speak (ms : Nat) : Invocation :=
  { op := .handleCommand (.sendVoice 16 [0x7F]), clock := ms * 1000000 }

/-- A client is called by a call with the number 16, answers, and hears what was said. -/
def listener (past : List Move) : List Invocation :=
  [Sample.receive { Sample.newCall with srcCall := 16 }, Sample.command (.answer 16)] ++
    (voiceSent 16 past).reverse.map fun dg => { op := .handleInput dg }

/-- A hold of twenty seconds, across the end of the sixteen bits. -/
theorem voiceTimes_sample :
    let past := Sample.trace (speaker ++ [speak 50000, Sample.command (.hold 16),
      Sample.command (.unhold 16), speak 70000])
    voiceReported 16 (Sample.trace (listener past)) = (said 16 past).map Said.reported :=
  (voiceTimes_iff (Sample.run _ (by decide)) (Sample.run _ (by decide)) (by decide)
    (by decide)).mpr (by decide)

/-- After a pause of forty seconds the listener is a minute behind the speaker. -/
theorem long_pause_loses_time :
    ¬ ∀ {past past' : List Move} {s s' : PbxClient} {a b : UInt16},
      (system Sample.md5 Sample.cfg).Run past s → (system Sample.md5 Sample.cfg).Run past' s' →
      (∀ t ∈ life b past', (t.heard b).isSome → t.pre.Up b) →
      voiceReceived b past' = voiceSent a past →
      (∀ t ∈ past, Duration.asMillis (t.label.clock - t.pre.start) < 2 ^ 32) →
      (said a past).IsChain (fun later earlier => earlier.ts < later.ts) →
      voiceReported b past' = (said a past).map Said.reported := by
  intro law
  let past := Sample.trace (speaker ++ [speak 40000, speak 80000])
  have agree := law (a := 16) (b := 16)
    (Sample.run (speaker ++ [speak 40000, speak 80000]) (by decide))
    (Sample.run (listener past) (by decide)) (by decide) (by decide) (by decide) (by decide)
  exact absurd agree (by decide)

end PbxClient

end Iax2
