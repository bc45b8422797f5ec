import Iax2.Laws.Elements
import Iax2.Lib.Rotation

/-!
# What a full frame is answered with

A full frame on the leg of a live call is answered by one frame, which leaves on the leg, goes to
the peer's call and acknowledges the frame: an ACK, or a reply that does so by its number
(`frame_replied`). An ACK, a PONG and a LAGRP are not answered. Of the others only a challenge that
the client cannot meet is left without an answer (`acknowledged_iff`).

A probe is answered with its own timestamp. On the leg of a call the reply takes a number of the
leg. A standalone probe is answered from a number of its own, which rotates clear of the calls
(`probes_answered`).

What no leg takes leaves no trace but a log (`unroutable_inert`).
-/

namespace Iax2

/-! ## The reply on a leg -/

/-- The frame `g` answers `f` on the leg `k`: it goes to the peer's call, and acknowledges `f`. -/
structure Replies (k : UInt16) (f g : FullFrame) : Prop where
  srcCall : g.srcCall = k
  dstCall : g.dstCall = f.srcCall
  iseq : g.iseq = f.oseq + 1

/-- The frame is a challenge for an outgoing call that the call cannot meet: it does not offer MD5,
or it brings no challenge text. -/
def CallLeg.RefusesChallenge (c : CallLeg) (f : FullFrame) : Prop :=
  f.frametype = Frametype.iax ∧ f.subclass = Iax.authreq ∧ c.dir = .outbound ∧
    (f.authmethods &&& Authmethod.md5 = 0 ∨ f.challenge = none)

instance (c : CallLeg) (f : FullFrame) : Decidable (c.RefusesChallenge f) :=
  inferInstanceAs (Decidable (_ ∧ _ ∧ _ ∧ _))

/-- The frame is one of those that are not answered: an ACK, a PONG, a LAGRP, or a NEW, which opens
a call. -/
def FullFrame.Unanswered (f : FullFrame) : Prop :=
  f.frametype = Frametype.iax ∧
    (f.subclass = Iax.ack ∨ f.subclass = Iax.pong ∨ f.subclass = Iax.lagrp ∨ f.subclass = Iax.new)

instance (f : FullFrame) : Decidable f.Unanswered := inferInstanceAs (Decidable (_ ∧ _))

/-- What the leg of a call notes before it answers. -/
theorem replies_noted {c : CallLeg} {f g : FullFrame} (src : f.srcCall ≠ 0)
    (srcCall : g.srcCall = (c.noteFrame f).leg.localNo)
    (dstCall : g.dstCall = (c.noteFrame f).leg.remote)
    (iseq : g.iseq = (c.noteFrame f).leg.iseq) : Replies c.leg.localNo f g :=
  ⟨srcCall, dstCall.trans (if_pos src), iseq⟩

/-- A challenge that a call cannot meet takes the arm of the challenges. -/
theorem callKind_refused {c : CallLeg} {f : FullFrame} (refuses : c.RefusesChallenge f) :
    f.callKind c.dir = .authreq := by
  obtain ⟨ft, sc, hdir, _⟩ := refuses
  have notVoice : ¬ f.frametype = Frametype.voice := by
    rw [ft]
    decide
  rw [FullFrame.callKind, if_neg notVoice, if_pos ⟨ft, sc, hdir⟩]

/-- Nothing is built for a challenge that the call cannot meet. -/
theorem builds_refused {respond : String → String} {newIes : List Ie} {ts : UInt32} {c : CallLeg}
    {f : FullFrame} (refuses : c.RefusesChallenge f) :
    c.builds respond newIes ts (.frame f) = [] := by
  simp only [CallLeg.builds, callKind_refused refuses]
  obtain ⟨_, _, _, noMd5 | noText⟩ := refuses
  · exact if_pos noMd5
  · rw [noText]
    exact ite_self _

/-- For every other frame that is to be answered, the leg builds the one frame that answers it. -/
theorem builds_reply {respond : String → String} {newIes : List Ie} {ts : UInt32} {c : CallLeg}
    {f : FullFrame} (src : f.srcCall ≠ 0) (answered : ¬ f.Unanswered)
    (meets : ¬ c.RefusesChallenge f) :
    ∃ g, c.builds respond newIes ts (.frame f) = [.command g] ∧ Replies c.leg.localNo f g := by
  have takes := f.callKind_takes c.dir
  simp only [CallLeg.builds]
  cases kind : f.callKind c.dir with
  | authreq =>
    rw [kind] at takes
    have both : ¬ (f.authmethods &&& Authmethod.md5 = 0 ∨ f.challenge = none) := fun lacks =>
      meets ⟨takes.1, takes.2.1, takes.2.2, lacks⟩
    obtain ⟨md5, text⟩ := not_or.mp both
    obtain ⟨chal, hchal⟩ := Option.ne_none_iff_exists'.mp text
    simp only [if_neg md5, hchal]
    exact ⟨_, rfl, replies_noted src rfl rfl rfl⟩
  | ackPong =>
    rw [kind] at takes
    exact absurd ⟨takes.1, takes.2.imp id .inl⟩ answered
  | lagrp =>
    rw [kind] at takes
    exact absurd ⟨takes.1, .inr (.inr (.inl takes.2))⟩ answered
  | _ => exact ⟨_, rfl, replies_noted src rfl rfl rfl⟩

/-- An answer is read as an answer. -/
theorem Replies.read {k : UInt16} {f g r : FullFrame} (h : Replies k f g)
    (hin : PbxClient.InCycle k) (fits : f.Fits) (decoded : FullFrame.decode g.encode = some r) :
    Replies k f r := by
  have same := (Header.read_of_decode decoded).symm.trans (Header.read_encode g)
  obtain ⟨src, dst, _, _, _, iseq, _, _⟩ := Header.mk.inj (Option.some.inj same)
  refine ⟨?_, ?_, iseq.trans h.iseq⟩
  · rw [src, h.srcCall]
    exact hin.masked
  · rw [dst, h.dstCall]
    exact fits.masked

namespace PbxClient

variable {s s' : PbxClient} {md5 : Md5}

/-! ## Every frame of a call -/

/-- A datagram is handled by a call of the driver. -/
theorem step_input (md5 : Md5) (s : PbxClient) (dg : Bytes) (now clock : Instant) :
    Step md5 s ⟨.handleInput dg, now, clock⟩ (s.handleInput md5 dg now clock) :=
  .call s (by simp)

/-- A frame of a live call that is no NEW, and gives it no token, is handled on its leg. -/
theorem handleInput_touched (md5 : Md5) (wf : s.WellFormed) {dg : Bytes} {f : FullFrame}
    {c : CallLeg} (decoded : FullFrame.decode dg = some f)
    (live : s.calls.lookup f.dstCall = some c)
    (notNew : ¬ (f.frametype = Frametype.iax ∧ f.subclass = Iax.new))
    (onLeg : c.inputOf f = .frame f) (now clock : Instant) :
    s.Touched f.dstCall (CallInput.frame f).claims
      (s.reaction md5 ⟨.handleInput dg, now, clock⟩ f.dstCall c (.frame f))
      (s.handleInput md5 dg now clock) := by
  have target := target_live wf decoded live notNew
  rw [onLeg] at target
  exact (Step.outcome (step_input md5 s dg now clock)).to_touched live target

/-- A frame without a call token is no token. -/
theorem inputOf_tokenless {c : CallLeg} {f : FullFrame}
    (noToken : ∀ e ∈ f.ies, e.kind = IeKind.calltoken → e.data = []) : c.inputOf f = .frame f := by
  unfold CallLeg.inputOf
  cases found : Ie.find f.ies IeKind.calltoken with
  | none => rfl
  | some tok =>
    obtain ⟨mem, kind⟩ := Ie.find_eq_some found
    exact if_neg fun given => given.1 (noToken tok mem kind)

/-- What is sent for a frame on the leg of a call. -/
theorem Touched.built {k : UInt16} {claims : Option UInt16} {i : Invocation} {c : CallLeg}
    {f : FullFrame} (effect : s.Touched k claims (s.reaction md5 i k c (.frame f)) s') :
    s.pushed s' = (c.builds (md5Response md5 · s.cfg.secret) (s.newCallIes c.peer) (s.ts i.clock)
      (.frame f)).map Built.bytes := by
  rw [effect.sent]
  rcases reaction_built md5 s i k c (.frame f) with sent | ⟨_, voice, _⟩
  · exact sent
  · cases voice

/-- In every reachable state, a frame of a live call that is to be answered is acknowledged, unless
it is a challenge that the call cannot meet, and only then. -/
theorem acknowledged_iff {cfg : Config} {past : List Move} (run : (system md5 cfg).Run past s)
    {k : UInt16} {c : CallLeg} (live : s.calls.lookup k = some c) {dg : Bytes} {f : FullFrame}
    (decoded : FullFrame.decode dg = some f) (dst : f.dstCall = k) (src : f.srcCall ≠ 0)
    (answered : ¬ f.Unanswered)
    (noToken : ∀ e ∈ f.ies, e.kind = IeKind.calltoken → e.data = []) (now clock : Instant) :
    (∃ dg' ∈ s.pushed (s.handleInput md5 dg now clock), ∃ g, FullFrame.decode dg' = some g ∧
      g.srcCall = k ∧ g.dstCall = f.srcCall ∧ g.iseq = f.oseq + 1) ↔ ¬ c.RefusesChallenge f := by
  have wf := wellFormed_run run
  subst dst
  have notNew : ¬ (f.frametype = Frametype.iax ∧ f.subclass = Iax.new) := fun new =>
    answered ⟨new.1, .inr (.inr (.inr new.2))⟩
  have effect :=
    handleInput_touched md5 wf decoded live notNew (inputOf_tokenless noToken) now clock
  rw [effect.built]
  constructor
  · rintro ⟨dg', sent, _⟩ refuses
    rw [builds_refused refuses] at sent
    cases sent
  · intro meets
    have answer : ∃ g, c.builds (md5Response md5 · s.cfg.secret) (s.newCallIes c.peer) (s.ts clock)
        (.frame f) = [.command g] ∧ Replies c.leg.localNo f g := builds_reply src answered meets
    obtain ⟨g, builds, replies⟩ := answer
    have reads : ReadsBack (.command g) := by
      refine call_builds_read (x := .frame f) (md5Response_fits md5 · s.cfg.secret)
        (fun token h => ?_) _ (builds ▸ List.mem_singleton_self _)
      cases h
    obtain ⟨r, read, _⟩ := reads
    have answer := (wf.localNo live ▸ replies).read (wf.live_inCycle live) (.of_decode decoded) read
    rw [builds]
    exact ⟨g.encode, List.mem_singleton_self _, r, read, answer.srcCall, answer.dstCall,
      answer.iseq⟩

/-- A challenge of the peer's call 42 for our outgoing call 16. -/
def Sample.authreq (ies : List Ie) : FullFrame :=
  FullFrame.new 42 16 20 0 1 Frametype.iax Iax.authreq ies

/-- A challenge that the call can meet. -/
theorem acknowledged_sample :
    let f := Sample.authreq [Ie.u16 IeKind.authmethods Authmethod.md5, Ie.str IeKind.challenge "1"]
    let s := Sample.after [Sample.command (.dial "200")]
    ∃ dg' ∈ s.pushed (s.handleInput Sample.md5 f.encode 0 0), ∃ g, FullFrame.decode dg' = some g ∧
      g.srcCall = 16 ∧ g.dstCall = 42 ∧ g.iseq = 1 := by
  intro f s
  have run := Sample.run [Sample.command (.dial "200")] (by decide)
  have decoded : FullFrame.decode f.encode = some f := by decide
  obtain ⟨c, live⟩ := Option.isSome_iff_exists.mp (show (s.calls.lookup 16).isSome from by decide)
  refine (acknowledged_iff run live decoded rfl (by decide) (by decide) (by decide) 0 0).mpr
    fun refuses => ?_
  exact refuses.2.2.2.elim (by decide) (by decide)

/-- A challenge without the methods that it offers is not acknowledged. -/
theorem challenge_unanswered :
    ¬ ∀ {past : List Move} {s : PbxClient}, (system Sample.md5 Sample.cfg).Run past s →
      ∀ {k : UInt16} {c : CallLeg}, s.calls.lookup k = some c → ∀ {dg : Bytes} {f : FullFrame},
        FullFrame.decode dg = some f → f.dstCall = k → f.srcCall ≠ 0 → ¬ f.Unanswered →
        (∀ e ∈ f.ies, e.kind = IeKind.calltoken → e.data = []) → ∀ now clock : Instant,
        ∃ dg' ∈ s.pushed (s.handleInput Sample.md5 dg now clock), ∃ g,
          FullFrame.decode dg' = some g ∧ g.srcCall = k ∧ g.dstCall = f.srcCall ∧
            g.iseq = f.oseq + 1 := by
  intro law
  let s := Sample.after [Sample.command (.dial "200")]
  let f := Sample.authreq []
  have run := Sample.run [Sample.command (.dial "200")] (by decide)
  have decoded : FullFrame.decode f.encode = some f := by decide
  obtain ⟨c, live⟩ := Option.isSome_iff_exists.mp (show (s.calls.lookup 16).isSome from by decide)
  obtain ⟨dg', sent, _⟩ := law run live decoded rfl (by decide) (by decide) (by decide) 0 0
  have silent : s.pushed (s.handleInput Sample.md5 f.encode 0 0) = [] := by decide
  rw [silent] at sent
  cases sent

/-! ## Probes on the leg of a call -/

/-- The subclass of the reply that a probe asks for. -/
def probeReply (f : FullFrame) : Option UInt8 :=
  if f.frametype = Frametype.iax ∧ f.subclass = Iax.ping then some Iax.pong
  else if f.frametype = Frametype.iax ∧ f.subclass = Iax.lagrq then some Iax.lagrp
  else none

/-- The reply to a probe on the leg of a call: it echoes the timestamp, and takes a number. -/
theorem onFrame_probe {f : FullFrame} {reply : UInt8} (probe : probeReply f = some reply)
    (respond : String → String) (call : UInt16) (ts : UInt32) (now : Instant) (c : CallLeg) :
    let leg := (c.noteFrame f).leg
    c.onFrame respond call f ts now =
      { fate := .keep { c.noteFrame f with leg := { leg with oseq := leg.oseq + 1 } }
        sent := [(leg.build f.timestamp Frametype.iax reply []).1.encode]
        events := [] } := by
  have kinds (ft : f.frametype = Frametype.iax) (sc : f.subclass = Iax.ping) :
      f.callKind (c.noteFrame f).dir = .ping := by
    unfold FullFrame.callKind
    rw [ft, sc]
    cases (c.noteFrame f).dir <;> rfl
  have kinds' (ft : f.frametype = Frametype.iax) (sc : f.subclass = Iax.lagrq) :
      f.callKind (c.noteFrame f).dir = .lagrq := by
    unfold FullFrame.callKind
    rw [ft, sc]
    cases (c.noteFrame f).dir <;> rfl
  unfold probeReply at probe
  split at probe
  next ping =>
    cases probe
    simp only [CallLeg.onFrame, kinds ping.1 ping.2]
    rfl
  next =>
    split at probe
    next lagrq =>
      cases probe
      simp only [CallLeg.onFrame, kinds' lagrq.1 lagrq.2]
      rfl
    next => cases probe

/-! ## Standalone probes -/

/-- The frame is a standalone probe: a POKE or a PING for no call. -/
def Standalone (f : FullFrame) : Prop :=
  f.frametype = Frametype.iax ∧ (f.subclass = Iax.poke ∨ f.subclass = Iax.ping) ∧ f.dstCall = 0

instance (f : FullFrame) : Decidable (Standalone f) := inferInstanceAs (Decidable (_ ∧ _ ∧ _))

theorem route_standalone (s : PbxClient) {f : FullFrame} (h : Standalone f) :
    s.route f = .qualify :=
  if_pos h

theorem standalone_of_route {f : FullFrame} (h : s.route f = .qualify) : Standalone f := by
  unfold route at h
  split at h
  next probe => exact probe
  next =>
    split at h
    next r htok =>
      subst h
      obtain ⟨_, _, _, ⟨_, _, hr⟩ | ⟨_, _, _, _, _, _, hr⟩⟩ := tokenRoute_some htok <;> cases hr
    next =>
      repeat' split at h
      all_goals cases h

/-- The number after `qualify_next`, which cycles through the numbers of the probes. -/
def qualifySucc (n : UInt16) : UInt16 :=
  callnoQualifyBase + ((n - callnoQualifyBase + 1) &&& callnoQualifySpan)

theorem qualify_iff (n : UInt16) : Qualify n ↔ 0x2000 ≤ n.toNat ∧ n.toNat ≤ 0x2FFF :=
  and_congr (UInt16.le_iff_toNat_le (a := 0x2000) (b := n))
    (UInt16.le_iff_toNat_le (a := n) (b := 0x2FFF))

/-- The numbers of the probes go round. -/
theorem rotates_qualifySucc : Rotates qualifySucc Qualify 4096 := by
  have count {n : UInt16} (hn : Qualify n) :
      (qualifySucc n).toNat = 0x2000 + (n.toNat - 0x2000 + 1) % 4096 := by
    have range := (qualify_iff n).mp hn
    have above : (n - callnoQualifyBase + 1).toNat = n.toNat - 0x2000 + 1 := by
      rw [UInt16.toNat_add, UInt16.toNat_sub_of_le _ _ hn.1]
      show (n.toNat - 0x2000 + 1) % 65536 = _
      omega
    have low : ((n - callnoQualifyBase + 1) &&& callnoQualifySpan).toNat =
        (n.toNat - 0x2000 + 1) % 4096 := by
      rw [UInt16.toNat_and, above]
      exact Nat.and_two_pow_sub_one_eq_mod _ 12
    rw [qualifySucc, UInt16.toNat_add, low]
    show (0x2000 + _) % 65536 = _
    omega
  refine .of_count (·.toNat - 0x2000) (fun n hn => ?_) (fun n hn => ?_) (fun n m hn hm same => ?_)
    (fun n hn => ?_)
  · rw [qualify_iff, count hn]
    omega
  · have := (qualify_iff n).mp hn
    omega
  · have := (qualify_iff n).mp hn
    have := (qualify_iff m).mp hm
    exact UInt16.toNat_inj.mp (by omega)
  · show (qualifySucc n).toNat - 0x2000 = _
    rw [count hn, Nat.add_sub_cancel_left]

/-- A standalone probe is answered on the number of the probes, and nothing else happens. -/
theorem handleInput_standalone (md5 : Md5) (s : PbxClient) {dg : Bytes} {f : FullFrame}
    (decoded : FullFrame.decode dg = some f) (probe : Standalone f) (now clock : Instant) :
    s.handleInput md5 dg now clock = { s with
      qualifyNext := qualifySucc s.qualifyNext
      out := s.out ++ [(FullFrame.new s.qualifyNext f.srcCall f.timestamp 0 (f.oseq + 1)
        Frametype.iax Iax.pong []).encode] } := by
  rw [(handleInput_full decoded md5 s now clock).1, onFull, route_standalone s probe]
  rfl

/-- The transition handles a standalone probe. -/
def Move.Probed (t : Move) : Prop :=
  ∃ dg f, t.label.op = .handleInput dg ∧ FullFrame.decode dg = some f ∧ Standalone f

/-- The source of the PONG that answers a standalone probe, if the transition handles one. -/
def Move.pong (t : Move) : Option UInt16 :=
  match t.label.op with
  | .handleInput dg =>
    match FullFrame.decode dg with
    | some f =>
      if Standalone f then (t.pushed.head?.bind Header.read).map (·.srcCall) else none
    | none => none
  | _ => none

theorem Qualify.masked {n : UInt16} (h : Qualify n) : n &&& callMask = n := by
  have range := (qualify_iff n).mp h
  rw [← UInt16.toNat_inj, UInt16.toNat_and]
  show n.toNat &&& (2 ^ 15 - 1) = _
  rw [Nat.and_two_pow_sub_one_eq_mod]
  omega

/-- A transition that handles a standalone probe answers it on `qualify_next`, which moves on. -/
theorem Step.probed {i : Invocation} (step : Step md5 s i s') (range : Qualify s.qualifyNext)
    (probed : Move.Probed ⟨s, i, s'⟩) :
    Move.pong ⟨s, i, s'⟩ = some s.qualifyNext ∧ s'.qualifyNext = qualifySucc s.qualifyNext := by
  obtain ⟨dg, f, op, decoded, probe⟩ := probed
  have effect : s' = s.handleInput md5 dg i.now i.clock :=
    (step.full op decoded).trans (handleInput_full decoded md5 s _ _).1.symm
  rw [handleInput_standalone md5 s decoded probe] at effect
  have sent : s.pushed s' = [(FullFrame.new s.qualifyNext f.srcCall f.timestamp 0 (f.oseq + 1)
      Frametype.iax Iax.pong []).encode] := pushed_append (by rw [effect])
  refine ⟨?_, by rw [effect]⟩
  unfold Move.pong Move.pushed
  simp only [show i.op = .handleInput dg from op, decoded, if_pos probe, sent, List.head?_cons,
    Option.bind_some, Header.read_encode, Option.map_some]
  exact congrArg some range.masked

/-- Any other transition answers none, and leaves `qualify_next`. -/
theorem Step.not_probed {i : Invocation} (step : Step md5 s i s')
    (other : ¬ Move.Probed ⟨s, i, s'⟩) :
    Move.pong ⟨s, i, s'⟩ = none ∧ s'.qualifyNext = s.qualifyNext := by
  refine ⟨?_, ?_⟩
  · unfold Move.pong
    split
    next dg op =>
      split
      next f decoded => exact if_neg fun probe => other ⟨dg, f, op, decoded, probe⟩
      next => rfl
    next => rfl
  · cases step.arm with
    | silent _ effect => rw [effect.rest]
    | qualify _ op decoded route _ =>
      exact absurd ⟨_, _, op, decoded, standalone_of_route route⟩ other
    | offLeg _ effect => exact effect ▸ (onOffLeg_serviced s _).qualifyNext
    | regToken _ _ _ _ effect => exact effect ▸ (resendRegWithToken_serviced s _ _ _).qualifyNext
    | regFrame _ _ _ _ effect => exact effect ▸ (onRegFrame_serviced md5 s _ _ _).qualifyNext
    | touched _ _ effect => rw [effect.rest]
    | opened _ effect =>
      rw [effect.rest]
      rfl
    | timeout _ effect => exact effect ▸ (handleTimeout_expired s _ _).qualifyNext

/-- The cursor of the probes has moved over the numbers that the run has answered probes on. -/
theorem pongs_run {cfg : Config} {past : List Move} (run : (system md5 cfg).Run past s) :
    Trail qualifySucc s.qualifyNext (past.filterMap Move.pong) := by
  induction run with
  | start _ => exact .nil _ _
  | @step past s s' i r step ih =>
    by_cases probed : Move.Probed ⟨s, i, s'⟩
    · obtain ⟨pong, next⟩ := Step.probed step (wellFormed_run r).qualifyNext probed
      rw [List.filterMap_cons_some pong, next]
      exact ih.pass
    · obtain ⟨silent, same⟩ := Step.not_probed step probed
      rw [List.filterMap_cons_none silent, same]
      exact ih

/-- A PONG or LAGRP reads back. -/
theorem decode_reply {src dst : UInt16} {ts : UInt32} {oseq iseq reply : UInt8}
    (hsrc : src < 0x8000) (hdst : dst < 0x8000) (hreply : reply < 0x80) :
    FullFrame.decode (FullFrame.new src dst ts oseq iseq Frametype.iax reply []).encode =
      some (FullFrame.new src dst ts oseq iseq Frametype.iax reply []) :=
  FullFrame.Fits.decode_encode ⟨hsrc, hdst, hreply⟩ rfl rfl fun _ he => by cases he

/-- The live call `k` with the entry `c` answers the probe `f` by a frame of subclass `reply`, on
its leg and with the timestamp of the probe, and takes one number. No call changes its state. -/
structure CallProbeAnswered (s s' : PbxClient) (k : UInt16) (c : CallLeg) (f : FullFrame)
    (reply : UInt8) : Prop where
  sent : ∃ out g, s.pushed s' = [out] ∧ FullFrame.decode out = some g ∧
    g.frametype = Frametype.iax ∧ g.subclass = reply ∧ g.timestamp = f.timestamp ∧
    g.srcCall = k ∧ g.dstCall = f.srcCall ∧ g.iseq = f.oseq + 1 ∧ g.oseq = c.leg.oseq
  number : ∃ c', s'.calls.lookup k = some c' ∧ c'.leg.oseq = c.leg.oseq + 1
  states : ∀ j, s'.callState j = s.callState j

/-- The standalone probe `f` is answered by a PONG with its timestamp, from a number that is none of
the last 4095 ones, no live call's and no reserved one. No leg changes. -/
structure StandaloneAnswered (past : List Move) (s s' : PbxClient) (f : FullFrame) : Prop where
  sent : ∃ out g, s.pushed s' = [out] ∧ FullFrame.decode out = some g ∧
    g.frametype = Frametype.iax ∧ g.subclass = Iax.pong ∧ g.timestamp = f.timestamp ∧
    g.dstCall = f.srcCall ∧ g.srcCall ∉ (past.filterMap Move.pong).take 4095 ∧
    g.srcCall ∉ s.calls ∧ g.srcCall ≠ callnoReg ∧ g.srcCall ≠ callnoKeepalive
  reg : s'.reg = s.reg
  calls : s'.calls = s.calls

theorem callProbe_answered (md5 : Md5) (wf : s.WellFormed) {dg : Bytes} {f : FullFrame}
    {c : CallLeg} {reply : UInt8} (decoded : FullFrame.decode dg = some f)
    (probe : probeReply f = some reply) (low : reply < 0x80)
    (notNew : ¬ (f.frametype = Frametype.iax ∧ f.subclass = Iax.new))
    (live : s.calls.lookup f.dstCall = some c) (src : f.srcCall ≠ 0)
    (onLeg : c.inputOf f = .frame f) (now clock : Instant) :
    CallProbeAnswered s (s.handleInput md5 dg now clock) f.dstCall c f reply := by
  have effect := handleInput_touched md5 wf decoded live notNew onLeg now clock
  have reaction : s.reaction md5 ⟨.handleInput dg, now, clock⟩ f.dstCall c (.frame f) = _ :=
    onFrame_probe probe _ _ _ _ _
  rw [reaction] at effect
  have fits : f.Fits := .of_decode decoded
  let leg := (c.noteFrame f).leg
  have remote : leg.remote = f.srcCall := if_pos src
  have localNo : leg.localNo = f.dstCall := wf.localNo (c := c) live
  have read : FullFrame.decode (leg.build f.timestamp Frametype.iax reply []).1.encode = some _ :=
    decode_reply (localNo ▸ fits.dstCall) (remote ▸ fits.srcCall) low
  refine ⟨⟨_, _, effect.sent, read, rfl, rfl, rfl, localNo, remote, rfl, rfl⟩,
    ⟨_, (effect.calls _).trans (if_pos rfl), rfl⟩, fun j => ?_⟩
  · rw [callState, effect.calls]
    split
    next same =>
      rw [same, callState, live]
      rfl
    next => rfl

theorem standalone_answered {cfg : Config} {past : List Move} (run : (system md5 cfg).Run past s)
    {dg : Bytes} {f : FullFrame} (decoded : FullFrame.decode dg = some f) (probe : Standalone f)
    (now clock : Instant) : StandaloneAnswered past s (s.handleInput md5 dg now clock) f := by
  have wf := wellFormed_run run
  have range : Qualify s.qualifyNext := wf.qualifyNext
  have number := (qualify_iff _).mp range
  have fresh := (pongs_run run).fresh rotates_qualifySucc range
  have notLive : s.qualifyNext ∉ s.calls := fun live => (wf.inCycle live).apart.2.2 range
  have notReserved (n : UInt16) (hn : n.toNat < 0x2000) : s.qualifyNext ≠ n := by
    rintro rfl
    omega
  have read : FullFrame.decode (FullFrame.new s.qualifyNext f.srcCall f.timestamp 0 (f.oseq + 1)
      Frametype.iax Iax.pong []).encode = some _ :=
    decode_reply (UInt16.lt_iff_toNat_lt.mpr (Nat.lt_of_le_of_lt number.2 (by decide)))
      (FullFrame.Fits.of_decode decoded).srcCall (by decide)
  rw [handleInput_standalone md5 s decoded probe]
  exact ⟨⟨_, _, pushed_append rfl, read, rfl, rfl, rfl, rfl, fresh, notLive,
    notReserved _ (by decide), notReserved _ (by decide)⟩, rfl, rfl⟩

/-- Probes are answered. A PING or a LAGRQ on the leg of a live call is answered on the leg, and a
standalone POKE or PING on a number of the probes, each with the timestamp of the probe. -/
theorem probes_answered {cfg : Config} {past : List Move} (run : (system md5 cfg).Run past s)
    {dg : Bytes} {f : FullFrame} (decoded : FullFrame.decode dg = some f)
    (ft : f.frametype = Frametype.iax) (now clock : Instant) :
    (∀ k c reply, s.calls.lookup k = some c → f.dstCall = k → f.srcCall ≠ 0 →
      (∀ e ∈ f.ies, e.kind ≠ IeKind.calltoken) →
      f.subclass = Iax.ping ∧ reply = Iax.pong ∨ f.subclass = Iax.lagrq ∧ reply = Iax.lagrp →
      CallProbeAnswered s (s.handleInput md5 dg now clock) k c f reply) ∧
    (f.subclass = Iax.poke ∨ f.subclass = Iax.ping → f.dstCall = 0 →
      StandaloneAnswered past s (s.handleInput md5 dg now clock) f) := by
  refine ⟨?_, fun sc dst => standalone_answered run decoded ⟨ft, sc, dst⟩ now clock⟩
  rintro _ c reply live rfl src noToken kinds
  have onLeg : c.inputOf f = .frame f :=
    inputOf_tokenless fun e he kind => absurd kind (noToken e he)
  have probe : probeReply f = some reply ∧ reply < 0x80 ∧ f.subclass ≠ Iax.new := by
    rcases kinds with ⟨sc, rfl⟩ | ⟨sc, rfl⟩ <;> rw [probeReply, ft, sc] <;> decide
  exact callProbe_answered md5 (wellFormed_run run) decoded probe.1 probe.2.1
    (fun new => probe.2.2 new.2) live src onLeg now clock

/-- A PING for the ringing call 16, and a POKE for no call. -/
theorem probes_sample :
    let is := [Sample.receive Sample.newCall]
    let ping := Sample.frame 500 1 2 Frametype.iax Iax.ping
    let poke := FullFrame.new 7 0 600 0 0 Frametype.iax Iax.poke []
    let s := Sample.after is
    (∃ c, s.calls.lookup 16 = some c ∧
      CallProbeAnswered s (s.handleInput Sample.md5 ping.encode 0 0) 16 c ping Iax.pong) ∧
      StandaloneAnswered (Sample.trace is) s (s.handleInput Sample.md5 poke.encode 0 0) poke := by
  intro is ping poke s
  have run := Sample.run is (by decide)
  have decoded : FullFrame.decode ping.encode = some ping := by decide
  have decoded' : FullFrame.decode poke.encode = some poke := by decide
  obtain ⟨c, live⟩ := Option.isSome_iff_exists.mp (show (s.calls.lookup 16).isSome from by decide)
  exact ⟨⟨c, live, (probes_answered run decoded rfl 0 0).1 16 c _ live rfl (by decide) (by decide)
      (.inl ⟨rfl, rfl⟩)⟩,
    (probes_answered run decoded' rfl 0 0).2 (.inl rfl) rfl⟩

/-! ## What no leg takes -/

/-- The datagram is for no leg. Its decoder rejects it, or it is a mini frame that the index leads
to no call that is up, or a full frame for neither the registration nor a live call that is no
standalone probe and no NEW. -/
inductive Unroutable (s : PbxClient) (dg : Bytes) : Prop
  | notFull (full : isFullFrame dg = true) (rejected : FullFrame.decode dg = none)
  | notMini (mini : isFullFrame dg = false) (rejected : MiniFrame.decode dg = none)
  | noCall {m : MiniFrame} (mini : isFullFrame dg = false) (decoded : MiniFrame.decode dg = some m)
      (notUp : ∀ call c, s.remoteIndex.lookup m.srcCall = some call →
        s.calls.lookup call = some c → c.state ≠ .up)
  | noLeg {f : FullFrame} (full : isFullFrame dg = true) (decoded : FullFrame.decode dg = some f)
      (notProbe : ¬ Standalone f)
      (notNew : ¬ (f.frametype = Frametype.iax ∧ f.subclass = Iax.new))
      (notReg : f.dstCall ≠ 1) (notLive : f.dstCall ∉ s.calls)

/-- A mini frame that leads to no call that is up is dropped. -/
theorem onMini_unmapped {m : MiniFrame} (notUp : ∀ call c,
    s.remoteIndex.lookup m.srcCall = some call → s.calls.lookup call = some c → c.state ≠ .up) :
    s.onMini m = s := by
  unfold onMini onCall
  split
  next call mapped =>
    split
    next c live =>
      have idle : c.onMini call m = .idle c := if_neg (notUp call c mapped live)
      simp only [idle]
      exact react_idle live
    next => rfl
  next => rfl

/-- A full frame for no leg is routed to none: no call token is for it. -/
theorem route_noLeg (wf : s.WellFormed) {f : FullFrame}
    (notProbe : ¬ Standalone f) (notNew : ¬ (f.frametype = Frametype.iax ∧ f.subclass = Iax.new))
    (notReg : f.dstCall ≠ callnoReg) (notLive : s.calls.lookup f.dstCall = none) :
    s.route f = .offLeg := by
  have noToken : s.tokenRoute f = none := by
    rw [tokenRoute_eq wf, notLive]
    cases Ie.find f.ies IeKind.calltoken with
    | none => rfl
    | some tok => simp [notReg]
  have probe : s.route f = _ := if_neg notProbe
  rw [probe, noToken, wf.regNo, notLive]
  simp only [if_neg notNew, if_neg notReg]

/-- In every reachable state, a datagram for no leg queues no datagram and at most a log. Nothing
else changes. -/
theorem unroutable_inert {cfg : Config} {past : List Move} (run : (system md5 cfg).Run past s)
    {dg : Bytes} (h : s.Unroutable dg) (now clock : Instant) :
    ∃ logs : List Event, logs.length ≤ 1 ∧ (∀ ev ∈ logs, ∃ text, ev = .log text) ∧
      s.handleInput md5 dg now clock = { s with events := s.events ++ logs } := by
  have nothing (effect : s.handleInput md5 dg now clock = s) : ∃ logs : List Event,
      logs.length ≤ 1 ∧ (∀ ev ∈ logs, ∃ text, ev = .log text) ∧
        s.handleInput md5 dg now clock = { s with events := s.events ++ logs } := by
    refine ⟨[], Nat.zero_le _, fun ev hev => (by cases hev), ?_⟩
    rw [effect, List.append_nil]
  unfold handleInput at nothing ⊢
  cases h with
  | notFull full rejected =>
    rw [if_pos full, rejected] at nothing ⊢
    exact nothing rfl
  | notMini mini rejected =>
    rw [mini, rejected] at nothing ⊢
    exact nothing rfl
  | noCall mini decoded notUp =>
    rw [mini, decoded] at nothing ⊢
    exact nothing (onMini_unmapped notUp)
  | @noLeg f full decoded notProbe notNew notReg notLive =>
    have route : s.route f = .offLeg :=
      route_noLeg (wellFormed_run run) notProbe notNew notReg (AList.lookup_eq_none.mpr notLive)
    rw [if_pos full, decoded] at nothing ⊢
    simp only [onFull, route] at nothing ⊢
    rcases s.onOffLeg_reports f with silent | ⟨text, log⟩
    · exact nothing silent
    · rw [log]
      exact ⟨[.log text], Nat.le_refl _, fun ev hev => ⟨text, List.mem_singleton.mp hev⟩, rfl⟩

/-- An ANSWER for a call that is not there is reported, and nothing else. -/
theorem unroutable_sample :
    let s := Sample.after [Sample.receive Sample.newCall]
    let f := FullFrame.new 42 99 120 1 2 Frametype.control Control.answer []
    ∃ logs : List Event, logs.length ≤ 1 ∧ (∀ ev ∈ logs, ∃ text, ev = .log text) ∧
      s.handleInput Sample.md5 f.encode 0 0 = { s with events := s.events ++ logs } := by
  intro s f
  have decoded : FullFrame.decode f.encode = some f := by decide
  exact unroutable_inert (Sample.run [Sample.receive Sample.newCall] (by decide))
    (.noLeg (by decide) decoded (by decide) (by decide) (by decide) (by decide)) 0 0

end PbxClient

end Iax2
