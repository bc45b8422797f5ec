import Iax2.Laws.CallState
import Iax2.Laws.Elements

/-!
# Voice

What a call does with voice, in both directions. Each of its three pieces of state is a function of
the past of the call. The format is what the last ACCEPT named (`negotiated_run`), so this is what a
full VOICE frame declares (`declaredFormat_run`). The flag says whether voice was sent since the
call was opened or last answered (`sentFormat_run`), so this decides between a full VOICE frame and
a mini frame. And the state of the call decides whether voice passes at all: it does if the call is
up, one frame for each command and one event for each frame (`voiceDiscipline_run`).
-/

namespace Iax2

/-- The format that a frame names. -/
def FullFrame.format? (f : FullFrame) : Option UInt32 :=
  (Ie.find f.ies IeKind.format).bind Ie.asU32

theorem FullFrame.callKind_voice_iff {f : FullFrame} {dir : Dir} :
    f.callKind dir = .voice ↔ f.frametype = Frametype.voice := by
  constructor
  · intro kind
    have takes := f.callKind_takes dir
    rw [kind] at takes
    exact takes
  · exact fun voice => if_pos voice

theorem FullFrame.callKind_accept_iff {f : FullFrame} {dir : Dir} :
    f.callKind dir = .accept ↔ f.frametype = Frametype.iax ∧ f.subclass = Iax.accept := by
  constructor
  · intro kind
    have takes := f.callKind_takes dir
    rw [kind] at takes
    exact takes
  · intro accept
    have notVoice : f.frametype ≠ Frametype.voice := by
      rw [accept.1]
      decide
    have notAuthreq : ¬ (f.frametype = Frametype.iax ∧ f.subclass = Iax.authreq ∧
        dir = .outbound) := by
      rw [accept.2]
      exact fun h => absurd h.2.1 (by decide)
    rw [FullFrame.callKind, if_neg notVoice, if_neg notAuthreq, if_pos accept]

namespace CallLeg

/-- The format after an input. -/
def nextFmt (c : CallLeg) : CallInput → UInt32
  | .frame f => if f.callKind c.dir = .accept then f.format?.getD c.fmt else c.fmt
  | _ => c.fmt

/-- Whether the first full VOICE frame is sent, after an input. -/
def nextSentFormat (c : CallLeg) : CallInput → Bool
  | .answer => if c.dir = .inbound ∧ c.state = .ringing then false else c.sentFormat
  | .voice _ => if c.state = .up then true else c.sentFormat
  | .frame f => if f.callKind c.dir = .answer then false else c.sentFormat
  | _ => c.sentFormat

/-- The last voice timestamp after an input, if one was seen. -/
def nextVoiceTs (c : CallLeg) : CallInput → UInt32 × Bool
  | .mini m =>
    if c.state = .up then (reconstructTs c.lastVoiceTs m.timestamp16 c.voiceTsSeen, true)
    else (c.lastVoiceTs, c.voiceTsSeen)
  | .frame f =>
    if f.callKind c.dir = .voice then (f.timestamp, true) else (c.lastVoiceTs, c.voiceTsSeen)
  | _ => (c.lastVoiceTs, c.voiceTsSeen)

end CallLeg

/-- What a voice event reports. -/
def Event.voice? : Event → Option (UInt16 × UInt32 × Bytes)
  | .voice call ts ulaw => some (call, ts, ulaw)
  | _ => none

/-- A voice frame as it arrives: with its whole timestamp, or with the low sixteen bits of it. -/
inductive Heard
  | full (ts : UInt32) (payload : Bytes)
  | mini (ts : UInt16) (payload : Bytes)
  deriving DecidableEq

def Heard.payload : Heard → Bytes
  | full _ p => p
  | mini _ p => p

/-- The voice frame that an input is. -/
def CallInput.heard : CallInput → Option Heard
  | .mini m => some (.mini m.timestamp16 m.payload)
  | .frame f =>
    if f.frametype = Frametype.voice then some (.full f.timestamp f.mediaPayload) else none
  | _ => none

/-- The voice event of an input: the call, the timestamp and the payload. -/
def CallLeg.hears (c : CallLeg) (k : UInt16) (x : CallInput) : List (UInt16 × UInt32 × Bytes) :=
  if c.state = .up then (x.heard.map fun h => (k, (c.nextVoiceTs x).1, h.payload)).toList else []

namespace PbxClient

variable {s s' : PbxClient} {md5 : Md5} {k : UInt16}

/-- What a reaction makes of the voice data of the entry. -/
theorem reaction_voice (md5 : Md5) (s : PbxClient) (i : Invocation) (call : UInt16) (c : CallLeg)
    (x : CallInput) :
    (s.reaction md5 i call c x).entry.fmt = c.nextFmt x ∧
      (s.reaction md5 i call c x).entry.sentFormat = c.nextSentFormat x ∧
      ((s.reaction md5 i call c x).entry.lastVoiceTs,
        (s.reaction md5 i call c x).entry.voiceTsSeen) = c.nextVoiceTs x := by
  cases x with
  | answer =>
    simp only [reaction, CallLeg.answer, CallLeg.nextSentFormat]
    split <;> exact ⟨rfl, rfl, rfl⟩
  | voice ulaw =>
    simp only [reaction, CallLeg.sendVoice, CallLeg.nextSentFormat]
    by_cases hup : c.state = .up
    · rw [if_neg (not_not.mpr hup), if_pos hup]
      cases hsent : c.sentFormat with
      | false => exact ⟨rfl, rfl, rfl⟩
      | true => exact ⟨rfl, hsent, rfl⟩
    · rw [if_pos hup, if_neg hup]
      exact ⟨rfl, rfl, rfl⟩
  | mini m =>
    simp only [reaction, CallLeg.onMini, CallLeg.nextVoiceTs]
    split <;> exact ⟨rfl, rfl, rfl⟩
  | frame f =>
    have hdir : (c.noteFrame f).dir = c.dir := rfl
    simp only [reaction, CallLeg.onFrame, CallLeg.nextFmt, CallLeg.nextSentFormat,
      CallLeg.nextVoiceTs, hdir]
    cases f.callKind c.dir with
    | authreq =>
      simp only [reduceCtorEq, if_false]
      split
      · exact ⟨rfl, rfl, rfl⟩
      · split <;> exact ⟨rfl, rfl, rfl⟩
    | accept =>
      simp only [reduceCtorEq, if_false, if_true, FullFrame.format?]
      split
      next fmt h => exact ⟨by rw [h]; rfl, rfl, rfl⟩
      next h => exact ⟨by rw [h]; rfl, rfl, rfl⟩
    | _ => exact ⟨rfl, rfl, rfl⟩
  | _ => exact ⟨rfl, rfl, rfl⟩

/-! ## The format in force -/

/-- The format in force for the call `k` after the transition, if before it was `fmt`: a new call
has the format of the account, and an ACCEPT that names a format sets it. -/
def Move.format (cfg : Config) (k : UInt16) (t : Move) (fmt : UInt32) : UInt32 :=
  match t.pre.target t.label.op with
  | .opening _ => if k = t.pre.allocCallno.1 then cfg.audioFormat else fmt
  | .call j (.frame f) =>
    if j = k ∧ f.frametype = Frametype.iax ∧ f.subclass = Iax.accept then f.format?.getD fmt
    else fmt
  | _ => fmt

/-- The format in force for the call `k`: the one that the last ACCEPT with a format named since the
call was opened, or the format of the account. -/
def negotiated (cfg : Config) (k : UInt16) : List Move → UInt32
  | [] => cfg.audioFormat
  | t :: past => t.format cfg k (negotiated cfg k past)

/-- A step that neither opens nor reaches a call leaves its format in force. -/
theorem Move.format_other {cfg : Config} {t : Move} {fmt : UInt32}
    (notCall : ∀ x, t.pre.target t.label.op ≠ .call k x)
    (notOpened : ∀ o, t.pre.target t.label.op = .opening o → k ≠ t.pre.allocCallno.1) :
    t.format cfg k fmt = fmt := by
  unfold Move.format
  split
  next o target => exact if_neg (notOpened o target)
  next j f target =>
    refine if_neg fun h => notCall (.frame f) ?_
    rw [target, h.1]
  next => rfl

/-- Every live call has the format in force. -/
theorem negotiated_run {cfg : Config} {past : List Move} (run : (system md5 cfg).Run past s) :
    ∀ k c, s.calls.lookup k = some c → c.fmt = negotiated cfg k past := by
  induction run with
  | start init =>
    obtain ⟨now, rfl⟩ := init
    intro k c live
    cases live
  | @step past s s' i run step ih =>
    intro k c' live'
    show c'.fmt = Move.format cfg k ⟨s, i, s'⟩ (negotiated cfg k past)
    cases (Step.outcome step).entryStep live' with
    | kept live _ notCall notOpened =>
      rw [Move.format_other notCall notOpened]
      exact ih k c' live
    | @aged c live target _ entry =>
      subst entry
      rw [Move.format_other (by simp [target]) (by simp [target])]
      exact ih k c live
    | @reacted c x live target stays =>
      obtain rfl := Reaction_kept_some stays
      rw [(reaction_voice ..).1, Move.format, ← ih k c live]
      simp only [target]
      cases x with
      | frame f => simp only [CallLeg.nextFmt, FullFrame.callKind_accept_iff, true_and]
      | _ => rfl
    | @opened o target number entry =>
      subst entry
      have fmt : (s.opened i k o).entry.fmt = s.cfg.audioFormat := by cases o <;> rfl
      simp only [Move.format, target]
      rw [fmt, cfg_run run, if_pos number]

/-! ## Voice commands -/

/-- The call `k` is up. -/
def Up (s : PbxClient) (k : UInt16) : Prop := ∃ c, s.calls.lookup k = some c ∧ c.state = .up

/-- A full VOICE frame of the call `k` with the payload `p`. -/
def FullVoice (k : UInt16) (p : Bytes) (dg : Bytes) : Prop :=
  ∃ f, FullFrame.decode dg = some f ∧ f.frametype = Frametype.voice ∧ f.srcCall = k ∧
    f.mediaPayload = p

/-- A mini frame of the call `k` with the payload `p`. -/
def MiniVoice (k : UInt16) (p : Bytes) (dg : Bytes) : Prop :=
  ∃ m, isFullFrame dg = false ∧ MiniFrame.decode dg = some m ∧ m.srcCall = k ∧ m.payload = p

/-- What a call that is up sends for a voice command, and how it reads. -/
theorem sendVoice_sent {c : CallLeg} (hup : c.state = .up) (ulaw : Bytes) (ts : UInt32) :
    ∃ dg, (c.sendVoice ulaw ts).sent = [dg] ∧
      if c.sentFormat then
        isFullFrame dg = false ∧ MiniFrame.decode dg = some
          { srcCall := c.leg.localNo &&& callMask, timestamp16 := ts.toUInt16, payload := ulaw }
      else
        ∃ f, FullFrame.decode dg = some f ∧ f.frametype = Frametype.voice ∧
          f.subclass = c.fmt.toUInt8 &&& 0x7F ∧ f.srcCall = c.leg.localNo &&& callMask ∧
          f.timestamp = ts ∧ f.mediaPayload = ulaw := by
  simp only [CallLeg.sendVoice, if_neg (not_not.mpr hup)]
  cases c.sentFormat with
  | true =>
    refine ⟨_, rfl, ?_⟩
    rw [if_pos rfl]
    exact ⟨isFullFrame_mini _, decode_mini _⟩
  | false =>
    refine ⟨_, rfl, ?_⟩
    rw [if_neg Bool.false_ne_true]
    let f := (c.leg.build ts Frametype.voice c.fmt.toUInt8 []).1
    refine ⟨f.wire.frame [] ulaw, ?_, rfl, rfl, rfl, rfl, rfl⟩
    rw [decode_eq, Header.read_encodeMedia, Option.bind_some]
    exact if_pos rfl

/-- A voice command sends for a call that is up, and else it changes nothing. -/
theorem sendVoice_step {i : Invocation} {p : Bytes} (step : Step md5 s i s')
    (op : i.op = .handleCommand (.sendVoice k p)) :
    (∃ c, s.calls.lookup k = some c ∧ c.state = .up ∧ s.target i.op = .call k (.voice p) ∧
      s.pushed s' = (c.sendVoice p (s.ts i.clock)).sent) ∨ ¬ s.Up k ∧ s' = s := by
  have effect : s' = s.sendVoice k p i.clock := by
    cases step with
    | call _ => simp only [apply, op, handleCommand]
    | rehash rehash _ => cases op.symm.trans rehash
  have target : s.target i.op = s.reaching k (.voice p) := by
    rw [op]
    rfl
  cases live : s.calls.lookup k with
  | none =>
    refine .inr ⟨?_, by rw [effect, sendVoice, onCall, live]⟩
    rintro ⟨c, h, _⟩
    cases live.symm.trans h
  | some c =>
    rw [reaching_live live] at target
    by_cases hup : c.state = .up
    · exact .inl ⟨c, rfl, hup, target, (Step.outcome step).sent live target⟩
    · refine .inr ⟨?_, ?_⟩
      · rintro ⟨c', h, up⟩
        cases live.symm.trans h
        exact hup up
      · have idle : c.sendVoice p (s.ts i.clock) = .idle c := if_pos hup
        rw [effect, sendVoice, onCall, live]
        simp only [idle]
        exact react_idle live

/-- An ACCEPT of the call `k` names no other format than that of the account. -/
def NamesOwnFormat (cfg : Config) (k : UInt16) (t : Move) : Prop :=
  ∀ f fmt, t.pre.target t.label.op = .call k (.frame f) → f.frametype = Frametype.iax →
    f.subclass = Iax.accept → f.format? = some fmt → fmt = cfg.audioFormat

theorem negotiated_own {cfg : Config} {past : List Move}
    (own : ∀ t ∈ past, NamesOwnFormat cfg k t) : negotiated cfg k past = cfg.audioFormat := by
  induction past with
  | nil => rfl
  | cons t past ih =>
    obtain ⟨head, tail⟩ := List.forall_mem_cons.mp own
    rw [negotiated, ih tail, Move.format]
    split
    next => exact ite_self _
    next j f target =>
      split
      next accept =>
        obtain ⟨rfl, ft, sc⟩ := accept
        cases named : f.format? with
        | none => rfl
        | some fmt => exact head f fmt target ft sc named
      next => rfl
    next => rfl

/-- A full VOICE frame that a voice command sends declares the format in force, of which the wire
has room for the low seven bits. This is the format of the account, if it has seven bits and the
peer has named no other. -/
structure DeclaresFormat (cfg : Config) (t : Move) (past : List Move) : Prop where
  inForce : ∀ k p, t.label.op = .handleCommand (.sendVoice k p) → ∀ dg ∈ t.pushed, ∀ f,
    FullFrame.decode dg = some f → f.frametype = Frametype.voice →
      f.subclass = (negotiated cfg k past).toUInt8 &&& 0x7F
  own : cfg.audioFormat < 0x80 → ∀ k p, t.label.op = .handleCommand (.sendVoice k p) →
    (∀ t' ∈ past, NamesOwnFormat cfg k t') → ∀ dg ∈ t.pushed, ∀ f,
    FullFrame.decode dg = some f → f.frametype = Frametype.voice →
      f.subclass.toUInt32 = cfg.audioFormat

theorem low_bits {fmt : UInt32} (h : fmt < 0x80) : (fmt.toUInt8 &&& 0x7F).toUInt32 = fmt := by
  have h : fmt.toNat < 128 := UInt32.lt_iff_toNat_lt.mp h
  apply UInt32.toNat_inj.mp
  rw [UInt8.toNat_toUInt32, UInt8.toNat_and, UInt32.toNat_toUInt8]
  show fmt.toNat % 2 ^ 8 &&& (2 ^ 7 - 1) = fmt.toNat
  rw [Nat.and_two_pow_sub_one_eq_mod]
  omega

/-- Along every run, every full VOICE frame that a voice command sends declares the format that the
last ACCEPT named, or else that of the account. -/
theorem declaredFormat_run {cfg : Config} {past : List Move} (run : (system md5 cfg).Run past s) :
    Always (DeclaresFormat cfg) past := by
  refine run.always fun past s i s' run step => ?_
  have inForce : ∀ k p, i.op = .handleCommand (.sendVoice k p) → ∀ dg ∈ s.pushed s', ∀ f,
      FullFrame.decode dg = some f → f.frametype = Frametype.voice →
        f.subclass = (negotiated cfg k past).toUInt8 &&& 0x7F := by
    intro k p op dg hdg f decoded _
    rcases sendVoice_step step op with ⟨c, live, hup, _, sent⟩ | ⟨_, rfl⟩
    · obtain ⟨dg', one, reads⟩ := sendVoice_sent hup p (s.ts i.clock)
      rw [sent, one] at hdg
      obtain rfl := List.mem_singleton.mp hdg
      split at reads
      next =>
        rw [isFullFrame_of_decode decoded] at reads
        cases reads.1
      next =>
        obtain ⟨g, decoded', _, sub, _⟩ := reads
        cases decoded.symm.trans decoded'
        rw [sub, negotiated_run run k c live]
    · rw [pushed_same rfl] at hdg
      cases hdg
  refine ⟨inForce, fun small k p op own dg hdg f decoded voice => ?_⟩
  rw [inForce k p op dg hdg f decoded voice, negotiated_own own]
  exact low_bits small

/-- The peer accepts the call of the client with its own format, answers, and is spoken to. -/
theorem declaredFormat_sample :
    Always (DeclaresFormat Sample.cfg) (Sample.trace [Sample.command (.dial "200"),
      Sample.receive (FullFrame.new 42 16 0 0 1 Frametype.iax Iax.accept
        [Ie.u32 IeKind.format Format.ulaw]),
      Sample.receive (Sample.frame 20 1 1 Frametype.control Control.answer),
      Sample.command (.sendVoice 16 [0x7F])]) :=
  declaredFormat_run (Sample.run _ (by decide))

/-- A peer that accepts with another format is sent frames that declare that format. -/
theorem accept_sets_format :
    ¬ ∀ {cfg : Config} {past : List Move} {s : PbxClient}, (system Sample.md5 cfg).Run past s →
      (∃ bit < 7, cfg.audioFormat = UInt32.ofNat (2 ^ bit)) →
      Always (fun t _ => ∀ k p, t.label.op = .handleCommand (.sendVoice k p) →
        ∀ dg ∈ t.pushed, ∀ f, FullFrame.decode dg = some f → f.frametype = Frametype.voice →
          f.subclass.toUInt32 = cfg.audioFormat) past := by
  intro law
  let is := [Sample.command (.dial "200"),
    Sample.receive (FullFrame.new 42 16 0 0 1 Frametype.iax Iax.accept [Ie.u32 IeKind.format 8]),
    Sample.receive (Sample.frame 20 1 1 Frametype.control Control.answer)]
  let f := FullFrame.new 16 42 0 1 2 Frametype.voice 8 []
  have declared := (law (Sample.run (is ++ [Sample.command (.sendVoice 16 [0x7F])]) (by decide))
    ⟨2, by decide, by decide⟩).1 16 [0x7F] rfl (f.encodeMedia [0x7F]) (by decide)
    { f with mediaPayload := [0x7F] } (by decide) rfl
  exact absurd declared (by decide)

/-! ## The voice of a call -/

/-- The voice of the call `k` begins anew: the call is opened, or it is answered. -/
def Resets (k : UInt16) (t : Move) : Prop := Opens k t ∨ .answered k ∈ t.emitted

/-- The driver speaks on the call `k`, which is up. -/
def SpeaksOn (k : UInt16) (t : Move) : Prop :=
  (∃ p, t.label.op = .handleCommand (.sendVoice k p)) ∧ t.pre.Up k

/-- Voice was sent since the call `k` was opened or last answered. -/
def Spoken (k : UInt16) : List Move → Prop := Since (Resets k) (SpeaksOn k)

/-- A full VOICE frame of the call `k` is sent. -/
def SendsFull (k : UInt16) (t : Move) : Prop := ∃ p, ∃ dg ∈ t.pushed, FullVoice k p dg

theorem target_sendVoice {op : Op} {c : CallLeg} {p : Bytes} (live : s.calls.lookup k = some c)
    (h : op = .handleCommand (.sendVoice k p)) : s.target op = .call k (.voice p) := by
  rw [h]
  exact reaching_live live _

/-- A step that does not reach a live call does not touch its voice. -/
theorem spoken_idle {i : Invocation} {c : CallLeg} (step : Step md5 s i s')
    (live : s.calls.lookup k = some c) (notCall : ∀ x, s.target i.op ≠ .call k x)
    (notOpened : ¬ Opens k ⟨s, i, s'⟩) (past : List Move) :
    Spoken k (⟨s, i, s'⟩ :: past) ↔ Spoken k past := by
  refine Since.cons_iff (fun resets => ?_) (fun speaks => ?_) past
  · rcases resets with h | h
    · exact notOpened h
    · obtain ⟨x, target, _⟩ := ((Step.outcome step).answered_iff live).mp h
      exact notCall x target
  · obtain ⟨⟨p, op⟩, _⟩ := speaks
    exact notCall _ (target_sendVoice live op)

section reached

variable {i : Invocation} {c : CallLeg} {x : CallInput} (live : s.calls.lookup k = some c)
  (target : s.target i.op = .call k x)

include live target

/-- An input begins the voice of a call anew if it answers the call. -/
theorem resets_iff (step : Step md5 s i s') :
    Resets k ⟨s, i, s'⟩ ↔ x = .answer ∧ c.dir = .inbound ∧ c.state = .ringing ∨
      ∃ f, x = .frame f ∧ f.callKind c.dir = .answer := by
  have notOpens : ¬ Opens k ⟨s, i, s'⟩ := not_opens target (by simp)
  rw [Resets, or_iff_right notOpens]
  show .answered k ∈ s.emitted s' ↔ _
  rw [(Step.outcome step).answered_iff live, target]
  constructor
  · rintro ⟨y, reached, answers⟩
    cases reached
    exact answers
  · exact fun answers => ⟨x, rfl, answers⟩

/-- An input speaks on a call if it is a voice command, and the call is up. -/
theorem speaksOn_iff : SpeaksOn k ⟨s, i, s'⟩ ↔ (∃ p, x = .voice p) ∧ c.state = .up := by
  constructor
  · rintro ⟨⟨p, op⟩, c', live', hup⟩
    cases live.symm.trans live'
    cases target.symm.trans (target_sendVoice live op)
    exact ⟨⟨p, rfl⟩, hup⟩
  · rintro ⟨⟨p, rfl⟩, hup⟩
    exact ⟨⟨p, (target_eq_call target).2⟩, c, live, hup⟩

/-- An input moves the flag as it moves what the flag stands for. -/
theorem spoken_reached (step : Step md5 s i s') {past : List Move}
    (before : c.sentFormat = true ↔ Spoken k past) :
    c.nextSentFormat x = true ↔ Spoken k (⟨s, i, s'⟩ :: past) := by
  rw [Spoken, Since, resets_iff live target step, speaksOn_iff live target]
  have before : c.sentFormat = true ↔ Since (Resets k) (SpeaksOn k) past := before
  cases x with
  | answer =>
    simp only [CallLeg.nextSentFormat, reduceCtorEq, exists_false, false_and, false_or,
      true_and, or_false]
    split
    next ring => simp [ring]
    next ring => simpa [ring] using before
  | voice p =>
    simp only [CallLeg.nextSentFormat, reduceCtorEq, false_and, exists_false, or_self,
      not_false_eq_true, true_and, CallInput.voice.injEq, exists_eq']
    split
    next up => simp [up]
    next up => simpa [up] using before
  | frame f =>
    simp only [CallLeg.nextSentFormat, reduceCtorEq, false_and, exists_false, false_or,
      CallInput.frame.injEq, exists_eq_left']
    split
    next answers => simp [answers]
    next answers => simpa [answers] using before
  | _ => simpa [CallLeg.nextSentFormat] using before

end reached

/-- The flag of a live call says whether voice was sent. -/
theorem sentFormat_run {cfg : Config} {past : List Move} (run : (system md5 cfg).Run past s) :
    ∀ k c, s.calls.lookup k = some c → (c.sentFormat = true ↔ Spoken k past) := by
  induction run with
  | start init =>
    obtain ⟨now, rfl⟩ := init
    intro k c live
    cases live
  | @step past s s' i run step ih =>
    intro k c' live'
    cases (Step.outcome step).entryStep live' with
    | kept live _ notCall notOpened =>
      have notOpens : ¬ Opens k ⟨s, i, s'⟩ := fun ⟨⟨o, target⟩, number⟩ =>
        notOpened o target number
      rw [ih k c' live, spoken_idle step live notCall notOpens]
    | @aged c live target _ entry =>
      subst entry
      rw [spoken_idle step live (by simp [target]) (not_opens target (by simp))]
      exact ih k c live
    | @reacted c x live target stays =>
      obtain rfl := Reaction_kept_some stays
      rw [(reaction_voice ..).2.1]
      exact spoken_reached live target step (ih k c live)
    | @opened o target number entry =>
      subst entry
      have fresh : (s.opened i k o).entry.sentFormat = false := by cases o <;> rfl
      rw [fresh]
      refine ⟨fun h => absurd h Bool.false_ne_true, fun spoken => ?_⟩
      exact absurd (.inl ⟨⟨o, target⟩, number⟩) spoken.1

/-- What was said began with a full VOICE frame. -/
theorem fullFirst_run {cfg : Config} {past : List Move} (run : (system md5 cfg).Run past s)
    (spoken : Spoken k past) : Since (Resets k) (SendsFull k) past := by
  induction run with
  | start _ => exact spoken
  | @step past s s' i run step ih =>
    refine ⟨spoken.1, ?_⟩
    rcases spoken.2 with ⟨⟨p, op⟩, up⟩ | before
    · rcases sendVoice_step step op with ⟨c, live, hup, _, sent⟩ | ⟨notUp, _⟩
      · cases flag : c.sentFormat with
        | true => exact .inr (ih ((sentFormat_run run k c live).mp flag))
        | false =>
          obtain ⟨dg, one, reads⟩ := sendVoice_sent hup p (s.ts i.clock)
          rw [if_neg (by rw [flag]; exact Bool.false_ne_true)] at reads
          obtain ⟨f, decoded, voice, _, src, _, payload⟩ := reads
          refine .inl ⟨p, dg, ?_, f, decoded, voice, ?_, payload⟩
          · show dg ∈ s.pushed s'
            rw [sent, one]
            exact List.mem_singleton_self dg
          · rw [src, (wellFormed_run run).src live]
      · exact absurd up notUp
    · exact .inr (ih before)

/-- Only a voice command sends a mini frame, for a call that has sent voice. -/
theorem mini_sent {cfg : Config} {past : List Move} {i : Invocation} {dg : Bytes}
    (run : (system md5 cfg).Run past s) (step : Step md5 s i s') (hdg : dg ∈ s.pushed s')
    (mini : isFullFrame dg = false) :
    ∃ j c p, s.calls.lookup j = some c ∧ c.state = .up ∧ c.sentFormat = true ∧
      s.pushed s' = (c.sendVoice p (s.ts i.clock)).sent := by
  have wf := wellFormed_run run
  have notBuilt {l : List Built} (h : dg ∈ l.map Built.bytes) : False := by
    obtain ⟨b, _, rfl⟩ := List.mem_map.mp h
    rw [b.full] at mini
    cases mini
  cases Step.outcome step with
  | quiet target _ =>
    rw [elsewhere_built step target] at hdg
    exact (notBuilt hdg).elim
  | @touched j x c _ live effect =>
    rw [effect.sent] at hdg ⊢
    rcases reaction_built md5 s i j c x with built | ⟨p, rfl, hup, flag⟩
    · rw [built] at hdg
      exact (notBuilt hdg).elim
    · exact ⟨j, c, p, live, hup, flag, rfl⟩
  | opened _ effect =>
    rw [effect.sent, opened_built] at hdg
    exact (notBuilt hdg).elim
  | expired target _ =>
    rw [step.timeout_eq (op_of_timeout target), handleTimeout_pushed] at hdg
    rcases List.mem_append.mp hdg with h | h
    · exact (notBuilt h).elim
    · -- a copy is full, because it repeats an entry
      obtain ⟨j, o, ho, rfl⟩ := copies_entries wf i.now dg h
      obtain ⟨_, life⟩ := lives_run run j o ho
      obtain ⟨_, read, _⟩ := life.reads
      rw [isFullFrame_setRetransmit, isFullFrame_of_read read] at mini
      cases mini

/-! ## What is heard -/

/-- The voice events of the transition. -/
def Move.voices (t : Move) : List (UInt16 × UInt32 × Bytes) := t.emitted.filterMap Event.voice?

/-- The voice frame that arrives for the call `k`: a full VOICE frame that is addressed to it, or a
mini frame from a number that the index has for it. -/
def Move.heard (k : UInt16) (t : Move) : Option Heard :=
  match t.label.op with
  | .handleInput dg =>
    match FullFrame.decode dg, MiniFrame.decode dg with
    | some f, _ => if f.dstCall = k then (CallInput.frame f).heard else none
    | none, some m =>
      if t.pre.remoteIndex.lookup m.srcCall = some k then (CallInput.mini m).heard else none
    | none, none => none
  | _ => none

/-- A full VOICE frame has no elements. -/
theorem ies_of_voice {dg : Bytes} {f : FullFrame} (decoded : FullFrame.decode dg = some f)
    (voice : f.frametype = Frametype.voice) : f.ies = [] := by
  rw [decode_eq, Option.bind_eq_some_iff] at decoded
  obtain ⟨hd, _, h⟩ := decoded
  split at h
  next =>
    cases h
    rfl
  next notMedia =>
    obtain ⟨ies, _, rfl⟩ := Option.map_eq_some_iff.mp h
    exact absurd (by rw [show hd.frametype = Frametype.voice from voice]; rfl) notMedia

/-- The input that reaches a live call is the voice frame that arrives for it. -/
theorem heard_of_target {t : Move} {x : CallInput} (target : t.pre.target t.label.op = .call k x) :
    t.heard k = x.heard := by
  have carries := (target_eq_call target).2
  have command {cmd : Command} (op : t.label.op = .handleCommand cmd) : t.heard k = none := by
    rw [Move.heard, op]
  cases x with
  | mini m =>
    obtain ⟨dg, op, decoded, index⟩ := carries
    rw [Move.heard, op]
    simp only [decode_of_mini decoded, decoded, index, if_true]
  | frame f =>
    obtain ⟨dg, c, op, decoded, _, rfl⟩ := carries
    rw [Move.heard, op]
    simp only [decoded, if_true]
  | token token =>
    obtain ⟨dg, f, op, decoded, route⟩ := carries
    rw [Move.heard, op]
    simp only [decoded, CallInput.heard]
    split
    next =>
      -- a call token is an element, and voice has none
      refine if_neg fun voice => ?_
      obtain ⟨tok, found, _⟩ := tokenRoute_some (tokenRoute_of_route route (.inr ⟨k, token, rfl⟩))
      rw [ies_of_voice decoded voice] at found
      cases found
    next => rfl
  | dtmf digit =>
    obtain ⟨d, op, _⟩ := carries
    exact command op
  | _ => exact command carries

/-- A voice frame that arrives for a live call reaches it. -/
theorem target_of_heard {t : Move} {c : CallLeg} {h : Heard} (wf : t.pre.WellFormed)
    (live : t.pre.calls.lookup k = some c) (heard : t.heard k = some h) :
    ∃ x, t.pre.target t.label.op = .call k x ∧ x.heard = some h := by
  simp only [Move.heard] at heard
  split at heard
  next dg op =>
    rw [op]
    split at heard
    next f decoded =>
      split at heard
      next dst =>
        subst dst
        refine ⟨.frame f, ?_, heard⟩
        have voice : f.frametype = Frametype.voice := by
          simp only [CallInput.heard] at heard
          split at heard
          next voice => exact voice
          next => cases heard
        have notNew : ¬ (f.frametype = Frametype.iax ∧ f.subclass = Iax.new) := fun h =>
          absurd (voice.symm.trans h.1) (by decide)
        rw [target_live wf decoded live notNew, CallLeg.inputOf, ies_of_voice decoded voice]
        rfl
      next => cases heard
    next m notFull decoded =>
      split at heard
      next index =>
        refine ⟨.mini m, ?_, heard⟩
        simp only [target, (decode_of_mini decoded).1, Bool.false_eq_true, if_false, decoded,
          miniTarget, index]
        exact reaching_live live _
      next => cases heard
    next => cases heard
  next => cases heard

/-- A voice frame arrives for one number. -/
theorem heard_unique {t : Move} {j : UInt16} {h h' : Heard} (hj : t.heard j = some h)
    (hk : t.heard k = some h') : j = k := by
  simp only [Move.heard] at hj hk
  split at hj
  next dg op =>
    rw [op] at hk
    simp only at hk
    split at hj
    next f decoded =>
      simp only [decoded] at hk
      split at hj
      next dst =>
        split at hk
        next dst' => exact dst.symm.trans dst'
        next => cases hk
      next => cases hj
    next m notFull decoded =>
      simp only [notFull, decoded] at hk
      split at hj
      next index =>
        split at hk
        next index' => exact Option.some.inj (index.symm.trans index')
        next => cases hk
      next => cases hj
    next => cases hj
  next => cases hj

/-- What a reaction reports of voice. -/
theorem reaction_hears (md5 : Md5) (s : PbxClient) (i : Invocation) (k : UInt16) (c : CallLeg)
    (x : CallInput) :
    (s.reaction md5 i k c x).events.filterMap Event.voice? = c.hears k x := by
  cases x with
  | answer =>
    simp only [reaction, CallLeg.answer, CallLeg.hears, CallInput.heard, Option.map_none,
      Option.toList_none, ite_self]
    split <;> rfl
  | voice ulaw =>
    simp only [reaction, CallLeg.sendVoice, CallLeg.hears, CallInput.heard, Option.map_none,
      Option.toList_none, ite_self]
    split
    · rfl
    · split <;> rfl
  | mini m =>
    simp only [reaction, CallLeg.onMini, CallLeg.hears, CallInput.heard, CallLeg.nextVoiceTs]
    split <;> rfl
  | frame f =>
    have hdir : (c.noteFrame f).dir = c.dir := rfl
    have hstate : (c.noteFrame f).state = c.state := rfl
    have heard : (CallInput.frame f).heard =
        if f.callKind c.dir = .voice then some (.full f.timestamp f.mediaPayload) else none := by
      simp only [CallInput.heard, FullFrame.callKind_voice_iff]
    simp only [reaction, CallLeg.onFrame, CallLeg.hears, CallLeg.nextVoiceTs, hdir, hstate, heard]
    cases f.callKind c.dir with
    | voice =>
      simp only [if_true]
      split <;> rfl
    | authreq =>
      simp only [reduceCtorEq, if_false, Option.map_none, Option.toList_none, ite_self]
      split
      · rfl
      · split <;> rfl
    | accept =>
      simp only [reduceCtorEq, if_false, Option.map_none, Option.toList_none, ite_self]
      split <;> rfl
    | _ =>
      simp only [reduceCtorEq, if_false, Option.map_none, Option.toList_none, ite_self]
      rfl
  | _ =>
    simp only [CallLeg.hears, CallInput.heard, Option.map_none, Option.toList_none, ite_self]
    rfl

/-- A step reports voice for the live call that it reaches, and for no other. -/
theorem voices_touched {i : Invocation} {c : CallLeg} {x : CallInput} (step : Step md5 s i s')
    (live : s.calls.lookup k = some c) (target : s.target i.op = .call k x) :
    Move.voices ⟨s, i, s'⟩ = c.hears k x := by
  have farewell : ((s.reaction md5 i k c x).farewell k).filterMap Event.voice? = [] := by
    unfold Reaction.farewell
    split <;> rfl
  show (s.emitted s').filterMap Event.voice? = _
  rw [((Step.outcome step).to_touched live target).events, List.filterMap_append, reaction_hears,
    farewell, List.append_nil]

/-- A step that reaches no call reports no voice. -/
theorem voices_elsewhere {i : Invocation} (step : Step md5 s i s')
    (notCall : ∀ k x, s.target i.op ≠ .call k x) : Move.voices ⟨s, i, s'⟩ = [] := by
  have silent {l : List Event} (h : ∀ ev ∈ l, ev.call? = none) : l.filterMap Event.voice? = [] := by
    refine List.filterMap_eq_nil_iff.mpr fun ev hev => ?_
    cases ev with
    | voice => cases h _ hev
    | _ => rfl
  show (s.emitted s').filterMap Event.voice? = []
  cases Step.outcome step with
  | quiet _ effect => exact silent effect.events
  | @touched j x _ target _ _ => exact absurd target (notCall j x)
  | @opened o _ effect =>
    rw [effect.events]
    cases o <;> rfl
  | expired _ effect =>
    obtain ⟨service, dead, quiet, _, _, events⟩ := effect.events
    have ends : (dead.map (Event.ended · "reliability timeout")).filterMap Event.voice? = [] := by
      rw [List.filterMap_map]
      exact List.filterMap_eq_nil_iff.mpr fun _ _ => rfl
    rw [events, List.filterMap_append, silent quiet, ends]
    rfl

/-- A step reports as voice what a call that is up hears. -/
theorem mem_voices {i : Invocation} {v : UInt16 × UInt32 × Bytes} (step : Step md5 s i s')
    (mem : v ∈ Move.voices ⟨s, i, s'⟩) :
    ∃ j c x h, s.target i.op = .call j x ∧ s.calls.lookup j = some c ∧ c.state = .up ∧
      x.heard = some h ∧ v = (j, (c.nextVoiceTs x).1, h.payload) := by
  by_cases reached : ∃ j x, s.target i.op = .call j x
  · obtain ⟨j, x, target⟩ := reached
    obtain ⟨c, live⟩ := Table.mem_iff_lookup.mp (target_eq_call target).1
    rw [voices_touched step live target, CallLeg.hears] at mem
    split at mem
    next hup =>
      obtain ⟨h, heard, rfl⟩ := Option.map_eq_some_iff.mp (Option.mem_toList.mp mem)
      exact ⟨j, c, x, h, target, live, hup, heard, rfl⟩
    next => cases mem
  · rw [voices_elsewhere step fun j x target => reached ⟨j, x, target⟩] at mem
    cases mem

/-- If no voice frame arrives for a number, no voice is reported for it. -/
theorem voices_silent {i : Invocation} (step : Step md5 s i s')
    (deaf : Move.heard k ⟨s, i, s'⟩ = none) :
    (Move.voices ⟨s, i, s'⟩).filter (·.1 = k) = [] := by
  refine List.filter_eq_nil_iff.mpr fun v mem number => ?_
  obtain ⟨j, c, x, h, target, _, _, hx, rfl⟩ := mem_voices step mem
  obtain rfl := of_decide_eq_true number
  cases deaf.symm.trans ((heard_of_target target).trans hx)

/-! ## Every run -/

/-- What the call `k` does with voice. -/
structure VoiceDiscipline (k : UInt16) (t : Move) (past : List Move) : Prop where
  /-- a voice command for a call that is up sends one frame with the payload: a full frame, if
  nothing was said since the call was opened or last answered, and else a mini frame -/
  speaks : ∀ p, t.label.op = .handleCommand (.sendVoice k p) → t.pre.Up k →
    ∃ dg, t.pushed = [dg] ∧ (¬ Spoken k past → FullVoice k p dg) ∧
      (Spoken k past → MiniVoice k p dg)
  /-- any other voice command changes nothing -/
  silent : ∀ p, t.label.op = .handleCommand (.sendVoice k p) → ¬ t.pre.Up k → t.post = t.pre
  /-- a mini frame of the call is preceded by a full VOICE frame -/
  mini : ∀ p, ∀ dg ∈ t.pushed, MiniVoice k p dg → Since (Resets k) (SendsFull k) past
  /-- a voice frame that arrives for a call that is up is reported, with its payload -/
  hears : ∀ h, t.heard k = some h → t.pre.Up k → ∃ ts, t.voices = [(k, ts, h.payload)]
  /-- any other voice frame is not reported -/
  deaf : ∀ h, t.heard k = some h → ¬ t.pre.Up k → t.voices = []
  /-- nothing else is reported as voice -/
  only : ∀ ts p, (k, ts, p) ∈ t.voices → t.pre.Up k ∧ ∃ h, t.heard k = some h ∧ h.payload = p

/-- Along every run, every call keeps the discipline of the voice path. -/
theorem voiceDiscipline_run {cfg : Config} {past : List Move} (run : (system md5 cfg).Run past s) :
    Always (fun t past => ∀ k, VoiceDiscipline k t past) past := by
  refine run.always fun past s i s' run step k => ?_
  have wf := wellFormed_run run
  exact {
    speaks := fun p op up => by
      rcases sendVoice_step step op with ⟨c, live, hup, _, sent⟩ | ⟨notUp, _⟩
      · obtain ⟨dg, one, reads⟩ := sendVoice_sent hup p (s.ts i.clock)
        refine ⟨dg, sent.trans one, fun quiet => ?_, fun spoken => ?_⟩
        · rw [if_neg fun flag => quiet ((sentFormat_run run k c live).mp flag)] at reads
          obtain ⟨f, decoded, voice, _, src, _, payload⟩ := reads
          exact ⟨f, decoded, voice, src.trans (wf.src live), payload⟩
        · rw [if_pos ((sentFormat_run run k c live).mpr spoken)] at reads
          exact ⟨_, reads.1, reads.2, wf.src live, rfl⟩
      · exact absurd up notUp
    silent := fun p op notUp => by
      rcases sendVoice_step step op with ⟨c, live, hup, _⟩ | ⟨_, same⟩
      · exact absurd ⟨c, live, hup⟩ notUp
      · exact same
    mini := fun p dg hdg ⟨m, notFull, decoded, src, _⟩ => by
      obtain ⟨j, c, q, live, hup, flag, sent⟩ := mini_sent run step hdg notFull
      obtain ⟨dg', one, reads⟩ := sendVoice_sent hup q (s.ts i.clock)
      have same : dg = dg' := by
        have hdg : dg ∈ s.pushed s' := hdg
        rw [sent, one] at hdg
        exact List.mem_singleton.mp hdg
      rw [if_pos flag, ← same, decoded] at reads
      obtain rfl : j = k := by
        rw [← wf.src live, ← src, Option.some.inj reads.2]
      exact fullFirst_run run ((sentFormat_run run j c live).mp flag)
    hears := fun h heard ⟨c, live, hup⟩ => by
      obtain ⟨x, target, hx⟩ := target_of_heard (t := ⟨s, i, s'⟩) wf live heard
      refine ⟨(c.nextVoiceTs x).1, ?_⟩
      rw [voices_touched step live target, CallLeg.hears, if_pos hup, hx]
      rfl
    deaf := fun h heard notUp => by
      refine List.eq_nil_iff_forall_not_mem.mpr fun v mem => ?_
      obtain ⟨j, c, x, h', target, live, hup, hx, _⟩ := mem_voices step mem
      obtain rfl := heard_unique ((heard_of_target target).trans hx) heard
      exact notUp ⟨c, live, hup⟩
    only := fun ts p mem => by
      obtain ⟨j, c, x, h, target, live, hup, hx, eq⟩ := mem_voices step mem
      cases eq
      exact ⟨⟨c, live, hup⟩, h, (heard_of_target target).trans hx, rfl⟩ }

/-- An incoming call is answered by command, spoken to twice, put on hold, and hears a full frame
and a mini frame. -/
theorem voiceDiscipline_sample :
    Always (fun t past => ∀ k, VoiceDiscipline k t past) (Sample.trace
      [Sample.receive Sample.newCall, Sample.command (.answer 16),
        Sample.command (.sendVoice 16 [0x7F]), Sample.command (.sendVoice 16 [0x7E]),
        { op := .handleInput ((Sample.frame 20 1 1 Frametype.voice 4).encodeMedia [0xFF]) },
        { op := .handleInput (MiniFrame.encode ⟨42, 40, [0xFE]⟩) },
        Sample.command (.hold 16), Sample.command (.sendVoice 16 [0x7D])]) :=
  voiceDiscipline_run (Sample.run _ (by decide))

end PbxClient

end Iax2
