import Iax2.Laws.Voice
import Iax2.Lib.Nearest

/-!
# The time of voice

A full VOICE frame carries its timestamp, and a mini frame the low sixteen bits of it. The receiver
keeps the timestamp of the last voice frame that it took, and reads a mini frame as the nearest
number with its bits (`reconstructTs_decodes`).

The receiver takes a full frame in every state of the call, but a mini frame only while the call is
up. So after a hold the reference is as old as the hold is long, and the timestamps that are
reported are exact as long as none is further from the reference than half of the sixteen bits
(`voiceExact_iff`). A call that is up whenever a mini frame arrives keeps them exact
(`voiceExact_of_up`).
-/

namespace Iax2

/-! ## Reading a timestamp -/

private theorem high_bits {n : Nat} (bound : n < 2 ^ 32) :
    n &&& 0xFFFF0000 = n / 65536 * 65536 := by
  have mask : 0xFFFF0000 = (2 ^ 16 - 1) <<< 16 := by decide
  have shifted : n / 65536 * 65536 = (n >>> 16) <<< 16 := by
    rw [Nat.shiftLeft_eq, Nat.shiftRight_eq_div_pow]
  rw [mask, shifted]
  refine Nat.eq_of_testBit_eq fun i => ?_
  rw [Nat.testBit_and, Nat.testBit_shiftLeft, Nat.testBit_shiftLeft, Nat.testBit_two_pow_sub_one,
    Nat.testBit_shiftRight]
  rcases Nat.lt_or_ge i 16 with low | high
  · simp [Nat.not_le.mpr low]
  · rw [Nat.add_sub_cancel' high]
    rcases Nat.lt_or_ge i 32 with inside | outside
    · simp [high, show i - 16 < 16 by omega]
    · have clear : n.testBit i = false :=
        Nat.testBit_lt_two_pow (Nat.lt_of_lt_of_le bound (Nat.pow_le_pow_right (by decide) outside))
      simp [clear]

/-- The candidate with the high bits of the reference. -/
private theorem candidate_toNat (last : UInt32) (ts16 : UInt16) :
    (last &&& 0xFFFF0000 ||| ts16.toUInt32).toNat = last.toNat / 65536 * 65536 + ts16.toNat := by
  have joined := Nat.shiftLeft_add_eq_or_of_lt ts16.toNat_lt (last.toNat / 65536)
  rw [Nat.shiftLeft_eq] at joined
  rw [UInt32.toNat_or, UInt32.toNat_and, UInt16.toNat_toUInt32]
  show last.toNat &&& 0xFFFF0000 ||| ts16.toNat = _
  rw [high_bits last.toNat_lt]
  exact joined.symm

/-- With a reference, a mini frame is read as the nearest number with its bits. -/
theorem reconstructTs_nearest (last : UInt32) (ts16 : UInt16) :
    (reconstructTs last ts16 true).toNat % 65536 = ts16.toNat ∧
      Nearest 65536 (2 ^ 32) last.toNat (reconstructTs last ts16 true).toNat := by
  have hlast := last.toNat_lt
  have hts := ts16.toNat_lt
  have cand := candidate_toNat last ts16
  have lower := UInt32.toNat_sub (last &&& 0xFFFF0000 ||| ts16.toUInt32) 0x10000
  have upper := UInt32.toNat_add (last &&& 0xFFFF0000 ||| ts16.toUInt32) 0x10000
  rw [cand, show (0x10000 : UInt32).toNat = 65536 from rfl] at lower upper
  rw [show 65536 = 2 * 32768 from rfl, Nearest.iff_bounds (by decide)]
  simp only [reconstructTs, Bool.not_true, Bool.false_eq_true, if_false]
  generalize last &&& 0xFFFF0000 ||| ts16.toUInt32 = c at *
  generalize c - 0x10000 = l at *
  generalize c + 0x10000 = u at *
  -- a candidate that wraps around is further than the one without wrap
  split <;> split <;> omega

/-- A timestamp is read back from its low bits exactly if it is the nearest to the reference. -/
theorem reconstructTs_eq_iff {last ts : UInt32} :
    reconstructTs last ts.toUInt16 true = ts ↔ Nearest 65536 (2 ^ 32) last.toNat ts.toNat := by
  obtain ⟨bits, nearest⟩ := reconstructTs_nearest last ts.toUInt16
  constructor
  · intro same
    rwa [same] at nearest
  · intro nearest'
    exact UInt32.toNat_inj.mp (nearest.unique nearest' (bits.trans (UInt32.toNat_toUInt16 ts)))

/-- The distance of two 32-bit values as integers is that of their numbers. -/
private theorem natAbs_sub_eq_dist (a b : UInt32) :
    ((a.toNat : Int) - b.toNat).natAbs = Nat.dist b.toNat a.toNat := by
  simp only [Nat.dist]
  omega

/-- The decoder of the sixteen bits. Of all the 32-bit values with these low bits it returns the one
with the smallest integer distance to the reference, and the smaller one on a tie. So a timestamp
less than 32768 away from the reference is read back. -/
theorem reconstructTs_decodes (last : UInt32) :
    (∀ ts16 : UInt16, (reconstructTs last ts16 true).toUInt16 = ts16 ∧
      ∀ y : UInt32, y.toUInt16 = ts16 → y ≠ reconstructTs last ts16 true →
        ((reconstructTs last ts16 true).toNat - last.toNat : Int).natAbs <
            (y.toNat - last.toNat : Int).natAbs ∨
          ((reconstructTs last ts16 true).toNat - last.toNat : Int).natAbs =
              (y.toNat - last.toNat : Int).natAbs ∧
            reconstructTs last ts16 true < y) ∧
    ∀ ts : UInt32, (ts.toNat - last.toNat : Int).natAbs < 32768 →
      reconstructTs last ts.toUInt16 true = ts := by
  refine ⟨fun ts16 => ?_, fun ts close => ?_⟩
  · obtain ⟨bits, nearest⟩ := reconstructTs_nearest last ts16
    refine ⟨UInt16.toNat_inj.mp ((UInt32.toNat_toUInt16 _).trans bits), fun y same ne => ?_⟩
    have congruent : y.toNat ≡ (reconstructTs last ts16 true).toNat [MOD 65536] := by
      rw [Nat.ModEq, bits, ← same]
      exact (UInt32.toNat_toUInt16 y).symm
    rw [natAbs_sub_eq_dist, natAbs_sub_eq_dist]
    exact nearest.least y.toNat y.toNat_lt congruent fun h => ne (UInt32.toNat_inj.mp h)
  · rw [natAbs_sub_eq_dist] at close
    exact reconstructTs_eq_iff.mpr (.of_close ts.toNat_lt (by omega))

/-- A tie, the candidates that wrap around at either end of the range, and a timestamp that is read
back across a multiple of 65536. -/
theorem reconstructTs_sample :
    reconstructTs 0x18000 0 true = 0x10000 ∧ reconstructTs 10 0xFFFF true = 0xFFFF ∧
      reconstructTs 0xFFFFFFF0 5 true = 0xFFFF0005 ∧
      reconstructTs 0x1FFF0 (0x20010 : UInt32).toUInt16 true = 0x20010 :=
  ⟨by decide, by decide, by decide, (reconstructTs_decodes 0x1FFF0).2 0x20010 (by decide)⟩

instance (r ts : Nat) : Decidable (Nearest 65536 (2 ^ 32) r ts) :=
  decidable_of_iff _ (Nearest.iff_bounds (h := 32768) (by decide)).symm

namespace Heard

/-- The timestamp as it is read, if the reference is `r`. -/
def reading (r : Option UInt32) : Heard → UInt32
  | full ts _ => ts
  | mini ts16 _ => reconstructTs (r.getD 0) ts16 r.isSome

/-- The frame is full. -/
def whole : Heard → Bool
  | full _ _ => true
  | mini _ _ => false

end Heard

/-- The timestamp of the last voice frame that the call took. -/
def CallLeg.reference (c : CallLeg) : Option UInt32 :=
  if c.voiceTsSeen then some c.lastVoiceTs else none

namespace CallLeg

/-- The reference after an input: a full frame is taken in every state of the call, and a mini frame
if the call is up. -/
def nextReference (c : CallLeg) (x : CallInput) : Option UInt32 :=
  match x.heard with
  | some h => if h.whole ∨ c.state = .up then some (h.reading c.reference) else c.reference
  | none => c.reference

/-- The reference as a function of the voice data. -/
theorem reference_eq (c : CallLeg) {v : UInt32 × Bool} (h : (c.lastVoiceTs, c.voiceTsSeen) = v) :
    c.reference = if v.2 then some v.1 else none := by
  subst h
  rfl

/-- A mini frame is read against the reference. -/
theorem reconstructTs_reference (c : CallLeg) (ts16 : UInt16) :
    reconstructTs c.lastVoiceTs ts16 c.voiceTsSeen =
      reconstructTs (c.reference.getD 0) ts16 c.reference.isSome := by
  unfold reference
  cases c.voiceTsSeen with
  | false => simp [reconstructTs]
  | true => rfl

/-- What a call that is up hears is read against the reference. -/
theorem nextVoiceTs_heard {c : CallLeg} {x : CallInput} {h : Heard} (heard : x.heard = some h)
    (hup : c.state = .up) : (c.nextVoiceTs x).1 = h.reading c.reference := by
  cases x with
  | mini m =>
    cases heard
    simp only [nextVoiceTs, if_pos hup]
    exact c.reconstructTs_reference m.timestamp16
  | frame f =>
    simp only [CallInput.heard] at heard
    split at heard
    next voice =>
      cases heard
      simp only [nextVoiceTs, if_pos (FullFrame.callKind_voice_iff.mpr voice)]
      rfl
    next => cases heard
  | _ => cases heard

theorem nextReference_eq (c : CallLeg) (x : CallInput) :
    c.nextReference x = if (c.nextVoiceTs x).2 then some (c.nextVoiceTs x).1 else none := by
  unfold nextReference
  cases x with
  | mini m =>
    by_cases hup : c.state = .up
    · have read := nextVoiceTs_heard (x := .mini m) rfl hup
      simp only [CallInput.heard, hup, or_true, if_true]
      rw [← read]
      simp only [nextVoiceTs, if_pos hup, if_true]
    · simp only [CallInput.heard, nextVoiceTs, if_neg hup]
      exact if_neg fun h => h.elim Bool.false_ne_true hup
  | frame f =>
    by_cases voice : f.frametype = Frametype.voice
    · simp only [CallInput.heard, if_pos voice, nextVoiceTs,
        if_pos (FullFrame.callKind_voice_iff.mpr voice), if_true]
      exact if_pos (.inl rfl)
    · simp only [CallInput.heard, if_neg voice, nextVoiceTs,
        if_neg (mt FullFrame.callKind_voice_iff.mp voice)]
      rfl
  | _ => rfl

end CallLeg

namespace PbxClient

variable {s s' : PbxClient} {md5 : Md5} {k : UInt16} {cfg : Config} {past : List Move}

instance (s : PbxClient) (k : UInt16) : Decidable (s.Up k) :=
  match h : s.calls.lookup k with
  | some c => decidable_of_iff (c.state = .up) ⟨fun up => ⟨c, h, up⟩, fun ⟨c', h', up⟩ => by
      cases h.symm.trans h'
      exact up⟩
  | none => isFalse fun ⟨_, h', _⟩ => by cases h.symm.trans h'

theorem up_iff {c : CallLeg} (live : s.calls.lookup k = some c) : s.Up k ↔ c.state = .up :=
  ⟨fun ⟨c', live', hup⟩ => by cases live.symm.trans live'; exact hup, fun hup => ⟨c, live, hup⟩⟩

instance (k : UInt16) (t : Move) : Decidable (Opens k t) :=
  match h : t.pre.target t.label.op with
  | .opening o => decidable_of_iff (k = t.pre.allocCallno.1) ⟨fun n => ⟨⟨o, h⟩, n⟩, And.right⟩
  | .timeout => isFalse (not_opens h (by simp))
  | .call _ _ => isFalse (not_opens h (by simp))
  | .elsewhere => isFalse (not_opens h (by simp))

/-- The reference after the transition, if before it was `r`. -/
def Move.reference (k : UInt16) (t : Move) (r : Option UInt32) : Option UInt32 :=
  match t.heard k with
  | some h => if h.whole ∨ t.pre.Up k then some (h.reading r) else r
  | none => r

/-- What a step makes of the reference of a call. -/
theorem reference_step {i : Invocation} {c' : CallLeg} (wf : s.WellFormed) (step : Step md5 s i s')
    (live' : s'.calls.lookup k = some c') :
    Opens k ⟨s, i, s'⟩ ∧ c'.reference = none ∨
      ¬ Opens k ⟨s, i, s'⟩ ∧ ∃ c, s.calls.lookup k = some c ∧
        c'.reference = Move.reference k ⟨s, i, s'⟩ c.reference := by
  have deaf {c : CallLeg} (live : s.calls.lookup k = some c)
      (notCall : ∀ x, s.target i.op ≠ .call k x) : Move.heard k ⟨s, i, s'⟩ = none := by
    refine Option.eq_none_iff_forall_ne_some.mpr fun h heard => ?_
    obtain ⟨x, target, _⟩ := target_of_heard (t := ⟨s, i, s'⟩) wf live heard
    exact notCall x target
  cases (Step.outcome step).entryStep live' with
  | kept live _ notCall notOpened =>
    refine .inr ⟨fun ⟨⟨o, target⟩, number⟩ => notOpened o target number, c', live, ?_⟩
    rw [Move.reference, deaf live notCall]
  | @aged c live target _ entry =>
    subst entry
    refine .inr ⟨not_opens target (by simp), c, live, ?_⟩
    rw [Move.reference, deaf live (by simp [target])]
    rfl
  | @reacted c x live target stays =>
    obtain rfl := Reaction_kept_some stays
    refine .inr ⟨not_opens target (by simp), c, live, ?_⟩
    rw [CallLeg.reference_eq _ (reaction_voice ..).2.2, ← CallLeg.nextReference_eq, Move.reference,
      heard_of_target target, CallLeg.nextReference]
    simp only [up_iff live]
  | @opened o target number entry =>
    subst entry
    refine .inl ⟨⟨⟨o, target⟩, number⟩, ?_⟩
    cases o <;> rfl

/-- What a step reports of a voice frame that arrives for a call that is up. -/
theorem voices_heard {i : Invocation} {c : CallLeg} {h : Heard} (wf : s.WellFormed)
    (step : Step md5 s i s') (live : s.calls.lookup k = some c) (hup : c.state = .up)
    (heard : Move.heard k ⟨s, i, s'⟩ = some h) :
    Move.voices ⟨s, i, s'⟩ = [(k, h.reading c.reference, h.payload)] := by
  obtain ⟨x, target, hx⟩ := target_of_heard (t := ⟨s, i, s'⟩) wf live heard
  rw [voices_touched step live target, CallLeg.hears, if_pos hup, hx,
    ← CallLeg.nextVoiceTs_heard hx hup]
  rfl

/-! ## Hearing across a hold -/

/-- The number of voice frames that arrived for the call `k`. -/
def arrived (k : UInt16) : List Move → Nat
  | [] => 0
  | t :: past => if (t.heard k).isSome then arrived k past + 1 else arrived k past

section stream

variable (T : Nat → UInt32) (k : UInt16)

/-- If the voice frames that arrive have the timestamps `T`, the timestamp of the last one that the
call took since it was opened. -/
def lastTaken : List Move → Option UInt32
  | [] => none
  | t :: past =>
    if Opens k t then none
    else
      match t.heard k with
      | some h => if h.whole ∨ t.pre.Up k then some (T (arrived k past)) else lastTaken past
      | none => lastTaken past

/-- A full VOICE frame arrives for the call `k`. -/
def HearsWhole (t : Move) : Prop := (t.heard k).any Heard.whole

/-- A voice frame that arrives has the next timestamp of `T`, a full frame the whole of it and a
mini frame its low bits. A mini frame comes after a full one. -/
def FollowsStream (t : Move) (past : List Move) : Prop :=
  match t.heard k with
  | some (.full ts _) => ts = T (arrived k past)
  | some (.mini ts16 _) =>
    ts16 = (T (arrived k past)).toUInt16 ∧ Since (Opens k) (HearsWhole k) past
  | none => True

/-- What is reported has the timestamp of the frame that arrives. -/
def ExactVoice (t : Move) (past : List Move) : Prop :=
  ∀ ts p, (k, ts, p) ∈ t.voices → ts = T (arrived k past)

/-- The timestamp of a mini frame that arrives for a call that is up is the nearest, of those with
its low bits, to the last one that the call took. -/
def NearTaken (t : Move) (past : List Move) : Prop :=
  match t.heard k, lastTaken T k past with
  | some (.mini _ _), some r =>
    t.pre.Up k → Nearest 65536 (2 ^ 32) r.toNat (T (arrived k past)).toNat
  | _, _ => True

instance : DecidablePred (HearsWhole k) := fun t =>
  inferInstanceAs (Decidable ((t.heard k).any Heard.whole = true))

instance (t : Move) (past : List Move) : Decidable (FollowsStream T k t past) :=
  match h : t.heard k with
  | some (.full ts _) => decidable_of_iff (ts = T (arrived k past)) (by rw [FollowsStream, h])
  | some (.mini ts16 _) =>
    decidable_of_iff (ts16 = (T (arrived k past)).toUInt16 ∧ Since (Opens k) (HearsWhole k) past)
      (by rw [FollowsStream, h])
  | none => isTrue (by rw [FollowsStream, h]; trivial)

instance (t : Move) (past : List Move) : Decidable (NearTaken T k t past) :=
  match h : t.heard k, l : lastTaken T k past with
  | some (.mini _ _), some r =>
    decidable_of_iff
      (t.pre.Up k → Nearest 65536 (2 ^ 32) r.toNat (T (arrived k past)).toNat)
      (by rw [NearTaken, h, l])
  | some (.full _ _), _ => isTrue (by rw [NearTaken, h]; trivial)
  | some (.mini _ _), none => isTrue (by rw [NearTaken, h, l]; trivial)
  | none, _ => isTrue (by rw [NearTaken, h]; trivial)

end stream

variable {T : Nat → UInt32}

/-- After a full frame there is a timestamp that was taken. -/
theorem lastTaken_of_whole (h : Since (Opens k) (HearsWhole k) past) :
    ∃ r, lastTaken T k past = some r := by
  induction past with
  | nil => exact h.elim
  | cons t past ih =>
    rw [lastTaken, if_neg h.1]
    cases heard : t.heard k with
    | none =>
      rcases h.2 with now | before
      · rw [HearsWhole, heard] at now
        cases now
      · exact ih before
    | some g =>
      simp only
      split
      next => exact ⟨_, rfl⟩
      next notTaken =>
        rcases h.2 with now | before
        · rw [HearsWhole, heard] at now
          exact absurd (.inl now) notTaken
        · exact ih before

/-- As long as the timestamps were exact, the reference of the call is the last one that it took. -/
theorem lastTaken_run (run : (system md5 cfg).Run past s) (stream : Always (FollowsStream T k) past)
    (exact : Always (ExactVoice T k) past) :
    ∀ c, s.calls.lookup k = some c → c.reference = lastTaken T k past := by
  induction run with
  | start init =>
    obtain ⟨now, rfl⟩ := init
    intro c live
    cases live
  | @step past s s' i run step ih =>
    have before := ih stream.2 exact.2
    have wf := wellFormed_run run
    intro c' live'
    rcases reference_step wf step live' with ⟨opens, fresh⟩ | ⟨notOpens, c, live, after⟩
    · rw [fresh, lastTaken, if_pos opens]
    · rw [after, lastTaken, if_neg notOpens, Move.reference]
      cases heard : Move.heard k ⟨s, i, s'⟩ with
      | none => exact before c live
      | some h =>
        simp only
        split
        next takes =>
          congr 1
          cases h with
          | full ts p =>
            have follows := stream.1
            rw [FollowsStream, heard] at follows
            exact follows
          | mini ts16 p =>
            have hup : c.state = .up := (up_iff live).mp (takes.resolve_left Bool.false_ne_true)
            refine exact.1 _ p ?_
            rw [voices_heard wf step live hup heard]
            exact List.mem_singleton_self _
        next => exact before c live

/-- As long as the timestamps were exact, the next one is exact if and only if the frame is near. -/
theorem exactVoice_step {i : Invocation} (run : (system md5 cfg).Run past s)
    (step : Step md5 s i s') (stream : Always (FollowsStream T k) (⟨s, i, s'⟩ :: past))
    (before : Always (ExactVoice T k) past) :
    ExactVoice T k ⟨s, i, s'⟩ past ↔ NearTaken T k ⟨s, i, s'⟩ past := by
  have wf := wellFormed_run run
  have reference := lastTaken_run run stream.2 before
  have follows := stream.1
  constructor
  · intro exact
    unfold NearTaken
    split
    next ts16 p r heard last =>
      rintro ⟨c, live, hup⟩
      have read := exact _ p (by
        rw [voices_heard wf step live hup heard]
        exact List.mem_singleton_self _)
      rw [FollowsStream, heard] at follows
      rw [reference c live, last, Heard.reading, follows.1] at read
      exact reconstructTs_eq_iff.mp read
    next => trivial
  · rintro near ts p mem
    obtain ⟨j, c, x, h, target, live, hup, hx, eq⟩ := mem_voices step mem
    cases eq
    have heard := (heard_of_target (t := ⟨s, i, s'⟩) target).trans hx
    rw [CallLeg.nextVoiceTs_heard hx hup]
    rw [FollowsStream, heard] at follows
    cases h with
    | full ts p => exact follows
    | mini ts16 p =>
      obtain ⟨r, last⟩ := lastTaken_of_whole (T := T) follows.2
      rw [NearTaken, heard, last] at near
      rw [reference c live, last, Heard.reading, follows.1]
      exact reconstructTs_eq_iff.mpr (near ⟨c, live, hup⟩)

/-- Along every run in which the voice frames for a number have the timestamps `T`, what is reported
has exactly these timestamps as long as each mini frame that arrives for a call that is up is
nearest to the last frame taken, and no longer. -/
theorem voiceExact_iff (run : (system md5 cfg).Run past s)
    (stream : Always (FollowsStream T k) past) :
    Always (ExactVoice T k) past ↔ Always (NearTaken T k) past :=
  run.always_iff_under (fun _ _ _ _ run step stream => exactVoice_step run step stream) stream

/-- If every frame is taken, the last one that was taken is the last one that arrived. -/
theorem lastTaken_of_up (up : ∀ t ∈ past, ∀ h, t.heard k = some h → h.whole ∨ t.pre.Up k)
    {r : UInt32} (last : lastTaken T k past = some r) : ∃ n, arrived k past = n + 1 ∧ r = T n := by
  induction past with
  | nil => cases last
  | cons t past ih =>
    obtain ⟨now, before⟩ := List.forall_mem_cons.mp up
    rw [lastTaken] at last
    split at last
    next => cases last
    next =>
      cases heard : t.heard k with
      | none =>
        rw [heard] at last
        obtain ⟨n, count, eq⟩ := ih before last
        exact ⟨n, by rw [arrived, heard]; exact count, eq⟩
      | some h =>
        rw [heard] at last
        simp only [if_pos (now h heard), Option.some.injEq] at last
        exact ⟨arrived k past, by rw [arrived, heard]; rfl, last.symm⟩

/-- A call that is up when mini frames arrive reports exact timestamps, if each is less than half of
the sixteen bits away from the one before. -/
theorem voiceExact_of_up (run : (system md5 cfg).Run past s)
    (stream : Always (FollowsStream T k) past)
    (close : ∀ n, 2 * Nat.dist (T n).toNat (T (n + 1)).toNat < 65536)
    (up : ∀ t ∈ past, ∀ h, t.heard k = some h → h.whole ∨ t.pre.Up k) :
    Always (ExactVoice T k) past := by
  refine (run.always_iff_under (fun _ _ _ _ run step stream => exactVoice_step run step stream)
    stream).mpr ?_
  clear stream
  induction run with
  | start _ => trivial
  | @step past s s' i run step ih =>
    obtain ⟨_, before⟩ := List.forall_mem_cons.mp up
    refine ⟨?_, ih before⟩
    unfold NearTaken
    split
    next last =>
      obtain ⟨n, count, rfl⟩ := lastTaken_of_up before last
      rw [count]
      exact fun _ => .of_close (T (n + 1)).toNat_lt (close n)
    next => trivial

/-- An incoming call is answered, hears a full VOICE frame, and is put on hold. -/
def heldCall : List Invocation :=
  [Sample.receive Sample.newCall, Sample.command (.answer 16),
    { op := .handleInput ((Sample.frame 0 1 1 Frametype.voice 4).encodeMedia [0xFF]) },
    Sample.command (.hold 16)]

/-- A mini frame of the peer of the sample call, with the timestamp `ts`. -/
def hearMini (ts : UInt16) : Invocation :=
  { op := .handleInput (MiniFrame.encode ⟨42, ts, [0xFF]⟩) }

/-- A short hold, of two frames. -/
theorem voiceExact_sample :
    Always (ExactVoice (fun n => UInt32.ofNat (20 * n)) 16) (Sample.trace (heldCall ++
      [hearMini 20, hearMini 40, Sample.command (.unhold 16), hearMini 60])) :=
  (voiceExact_iff (Sample.run _ (by decide)) (by decide)).mpr (by decide)

/-- After a hold of a minute and a half a mini frame is read a minute too early, although no frame
is further than half a minute from the one before. -/
theorem long_hold_loses_time :
    ¬ ∀ {past : List Move} {s : PbxClient} {T : Nat → UInt32} {k : UInt16},
      (system Sample.md5 Sample.cfg).Run past s → Always (FollowsStream T k) past →
      (∀ n, 2 * Nat.dist (T n).toNat (T (n + 1)).toNat < 65536) → Always (ExactVoice T k) past := by
  intro law
  let T (n : Nat) : UInt32 := UInt32.ofNat (30000 * min n 3)
  have close (n : Nat) : 2 * Nat.dist (T n).toNat (T (n + 1)).toNat < 65536 := by
    rcases n with _ | _ | _ | n
    · decide
    · decide
    · decide
    · have last (n : Nat) : T (n + 3) = 90000 := by simp [T]
      rw [last, show n + 1 + 1 + 1 + 1 = n + 1 + 3 from rfl, last, Nat.dist_self]
      decide
  let is := heldCall ++ [hearMini 30000, hearMini 60000, Sample.command (.unhold 16)]
  have exact := (law (T := T) (k := 16) (Sample.run (is ++ [hearMini 24464]) (by decide))
    (by decide) close).1
  exact absurd (exact 24464 [0xFF] (by decide)) (by decide)

end PbxClient

end Iax2
