import Iax2.Laws.Audio
import Iax2.Laws.Wire
import Iax2.Lib.Retry
import Iax2.Regdaemon

/-!
# What the registration daemon keeps

The datagram in flight makes the daemon a sender that stops and waits (`stops_and_waits`). What it
does about this datagram is read off its rounds (`did`), and `Follows` relates the state to the log:
each handler keeps it, with what it does put before the log.

The daemon takes itself for registered from what it takes for a REGACK to what it takes for a REGREJ,
or until it gives something up, and it sends POKEs only then (`registration`).
-/

namespace Iax2.Regdaemon

open Retry (Act Flight Sender Disciplined transmitted)

variable {F : Type} {R : Rubato F}

/-- A round of the main loop. -/
abbrev Move (R : Rubato F) := Transition (Regdaemon R) (Round F)

/-- The full frame that arrives in a round. -/
def arrival (r : Round F) : Option FullFrame :=
  match r.wakeup with
  | .datagram dg => FullFrame.decode dg
  | _ => none

/-! ## Routes -/

section

variable {d : Regdaemon R} {f : FullFrame}

@[simp] theorem settle_reg (d : Regdaemon R) (f : FullFrame) : (d.settle f).reg = d.reg := by
  unfold settle
  split <;> rfl

@[simp] theorem settle_route (d : Regdaemon R) (f g : FullFrame) :
    (d.settle f).route g = d.route g := by
  unfold settle
  split <;> rfl

theorem route_reg (h : d.route f = .reg) : f.dstCall = d.reg.localNo := by
  unfold route at h
  grind

theorem route_call {c : Call} (h : d.route f = .call c) :
    d.call = some c ∧ f.dstCall = c.leg.localNo := by
  unfold route at h
  grind

variable [F32 F] {dg : Bytes}

theorem onDatagram_full (md5 : Md5) (clock : Stream' Instant)
    (decoded : FullFrame.decode dg = some f) :
    d.onDatagram md5 dg clock = (d.settle f).onFull f md5 clock := by
  rw [onDatagram, if_pos (isFullFrame_of_decode decoded), decoded]

/-- What is no full frame is played at most. -/
theorem onDatagram_other (d : Regdaemon R) (md5 : Md5) (clock : Stream' Instant)
    (decoded : FullFrame.decode dg = none) :
    ∃ audio, d.onDatagram md5 dg clock = { d with audio } := by
  rw [onDatagram, decoded]
  split
  · exact ⟨_, rfl⟩
  · split <;> exact ⟨_, rfl⟩

end

/-! ## What is repeated -/

/-- The frame type and subclass of a full frame. -/
def kind (dg : Bytes) : Option (UInt8 × UInt8) :=
  (Header.read dg).map fun h => (h.frametype, h.subclass)

/-- The datagram is one that is repeated: a REGREQ or an ANSWER. -/
def reliable (dg : Bytes) : Bool :=
  kind dg = some (Frametype.iax, Iax.regreq) || kind dg = some (Frametype.control, Control.answer)

section

variable {src dst : UInt16} {ts : UInt32} {oseq iseq ft sc : UInt8} {ies : List Ie}

theorem kind_encode :
    kind (FullFrame.new src dst ts oseq iseq ft sc ies).encode = some (ft, sc &&& 0x7F) := by
  rw [kind, Header.read_encode]
  rfl

theorem kind_encodeMedia {payload : Bytes} :
    kind ((FullFrame.new src dst ts oseq iseq ft sc ies).encodeMedia payload) =
      some (ft, sc &&& 0x7F) := by
  rw [kind, Header.read_encodeMedia]
  rfl

theorem kind_mini (m : MiniFrame) : kind m.encode = none := by
  rw [kind, Header.read_mini]
  rfl

theorem reliable_encode (known : (ft, sc &&& 0x7F) = (Frametype.iax, Iax.regreq) ∨
    (ft, sc &&& 0x7F) = (Frametype.control, Control.answer)) :
    reliable (FullFrame.new src dst ts oseq iseq ft sc ies).encode = true := by
  rw [reliable, kind_encode]
  rcases known with known | known <;> simp [known]

theorem reliable_eq_false {dg : Bytes} {k : Option (UInt8 × UInt8)} (is : kind dg = k)
    (regreq : k ≠ some (Frametype.iax, Iax.regreq))
    (answer : k ≠ some (Frametype.control, Control.answer)) : reliable dg = false := by
  rw [reliable, is]
  simp [regreq, answer]

end

theorem reliable_ack (l : Leg) (ts : UInt32) : reliable (l.ack ts) = false :=
  reliable_eq_false kind_encode (by decide) (by decide)

/-- A frame of voice is a mini frame or a full VOICE frame. -/
theorem kind_sayFrame (d : Regdaemon R) (c : Call) (pcm : List Int16) (clock : Instant) :
    kind (d.sayFrame c pcm clock).1 ∈ [none, some (Frametype.voice, 4)] := by
  unfold sayFrame
  dsimp only
  split
  · exact List.mem_cons_of_mem _ (List.mem_singleton.mpr (kind_encodeMedia.trans (by decide)))
  · exact List.mem_cons.mpr (.inl (kind_mini _))

theorem kind_sayLoop (d : Regdaemon R) (frames : List (List Int16)) (clock : Stream' Instant)
    (c : Call) : ∀ dg ∈ (d.sayLoop frames clock c).1,
      kind dg ∈ [none, some (Frametype.voice, 4)] := by
  induction frames generalizing clock c with
  | nil => exact fun _ none => nomatch none
  | cons pcm frames ih =>
    intro dg mem
    rcases List.mem_cons.mp mem with rfl | mem
    · exact d.kind_sayFrame c pcm clock.head
    · exact ih clock.tail _ dg mem

theorem reliable_voice {dg : Bytes} (voice : kind dg ∈ [none, some (Frametype.voice, 4)]) :
    reliable dg = false := by
  refine reliable_eq_false rfl ?_ ?_
  · rintro is
    exact absurd (is ▸ voice) (by decide)
  · rintro is
    exact absurd (is ▸ voice) (by decide)

/-! ## The datagram in flight -/

section

def flight (d : Regdaemon R) : Option (Flight Bytes Instant) :=
  d.pending.map fun p => ⟨p.bytes, p.deadline, p.tries⟩

/-- The datagram in flight was sent for the first time, at `t`. -/
def starts (d : Regdaemon R) (t : Instant) : List (Act Bytes Instant) :=
  (d.pending.map fun p => .send p.bytes t).toList

/-- What `retransmit` does. -/
def repeats (d : Regdaemon R) (clock : Stream' Instant) : List (Act Bytes Instant) :=
  match d.pending with
  | some p =>
    if p.deadline ≤ clock.get 4 then
      if retxMax ≤ p.tries then [.giveUp (clock.get 4)] else [.resend p.bytes (clock.get 5)]
    else []
  | none => []

/-- What a round does about the datagram in flight, newest first. -/
def did (t : Move R) : List (Act Bytes Instant) :=
  match t.label.wakeup with
  | .house =>
    (t.pre.register t.label.clock).repeats t.label.clock ++
      if t.pre.pending = none then (t.pre.register t.label.clock).starts (t.label.clock.get 2)
      else []
  | .datagram dg =>
    match FullFrame.decode dg with
    | some f =>
      (match t.pre.route f with
        | .newCall => t.post.starts (t.label.clock.get 2)
        | .token _ | .reg => t.post.starts (t.label.clock.get 1)
        | _ => []) ++
        if t.pre.onRealLeg f then [.settle] else []
    | none => []
  | _ => []

/-- The state, after a sender has done this. -/
structure Follows (d : Regdaemon R) (log : List (Act Bytes Instant)) : Prop where
  sender : Sender retxAfter retxMax log d.flight
  sent : transmitted log = d.sent.filter reliable

variable {d d' : Regdaemon R} {log : List (Act Bytes Instant)}

theorem Follows.same (h : d.Follows log) {dgs : List Bytes} (pending : d'.pending = d.pending)
    (sent : d'.sent = d.sent ++ dgs) (plain : ∀ dg ∈ dgs, reliable dg = false) :
    d'.Follows log where
  sender := by
    rw [flight, pending]
    exact h.sender
  sent := by
    have none : dgs.filter reliable = [] :=
      List.filter_eq_nil_iff.mpr fun dg mem => by simp [plain dg mem]
    rw [sent, List.filter_append, none, List.append_nil]
    exact h.sent

/-- One more datagram, that is not repeated. -/
theorem Follows.plain (h : d.Follows log) {dg : Bytes} (pending : d'.pending = d.pending)
    (sent : d'.sent = d.sent ++ [dg]) (plain : reliable dg = false) : d'.Follows log :=
  h.same pending sent fun _ mem => List.mem_singleton.mp mem ▸ plain

theorem Follows.send (h : d.Follows log) {dg : Bytes} (plain : reliable dg = false) :
    (d.send dg).Follows log := h.plain rfl rfl plain

theorem Follows.transmit (h : d.Follows log) {dg : Bytes} (t : Instant)
    (pending : d'.pending = some ⟨dg, t + retxAfter, 0⟩) (sent : d'.sent = d.sent ++ [dg])
    (known : reliable dg = true) : d'.Follows (d'.starts t ++ log) where
  sender := by
    rw [flight, starts, pending]
    exact .send dg t h.sender
  sent := by
    rw [starts, pending, sent, List.filter_append, ← h.sent]
    simp [known, transmitted]

theorem Follows.settle (h : d.Follows log) (f : FullFrame) :
    (d.settle f).Follows ((if d.onRealLeg f then [.settle] else []) ++ log) := by
  unfold Regdaemon.settle
  split
  · exact ⟨.settle h.sender, h.sent⟩
  · exact h

theorem Follows.register (h : d.Follows log) (clock : Stream' Instant) :
    (d.register clock).Follows
      ((if d.pending = none then (d.register clock).starts (clock.get 2) else []) ++ log) := by
  unfold Regdaemon.register
  split
  next due =>
    rw [if_pos due.1]
    exact h.transmit _ rfl rfl (reliable_encode (by decide))
  next =>
    split
    next idle =>
      rw [starts, idle]
      exact h
    next => exact h

/-- What is in flight was sent. -/
theorem Follows.known (h : d.Follows log) {p : Pending} (pending : d.pending = some p) :
    reliable p.bytes = true := by
  obtain ⟨t₀, t, sent, _⟩ := h.sender.sent ⟨p.bytes, p.deadline, p.tries⟩ (by
    rw [flight, pending]
    rfl)
  obtain ⟨before, out⟩ := sent.transmitted
  have member : p.bytes ∈ d.sent.filter reliable := by
    rw [← h.sent, out]
    exact List.mem_append_right _ (List.mem_replicate.mpr ⟨by simp, rfl⟩)
  exact (List.mem_filter.mp member).2

theorem Follows.retransmit (h : d.Follows log) {clock : Stream' Instant} (mono : Monotone clock) :
    (d.retransmit clock).Follows (d.repeats clock ++ log) := by
  unfold Regdaemon.retransmit repeats
  cases pending : d.pending with
  | none => exact h
  | some p =>
    have sender := h.sender
    rw [flight, pending] at sender
    dsimp only
    split
    next due =>
      split
      next many => exact ⟨.giveUp sender due many, h.sent⟩
      next few =>
        have due' : p.deadline ≤ clock.get 5 := due.trans (mono (show 4 ≤ 5 by omega))
        refine ⟨.resend sender due' (Nat.lt_of_not_le few), ?_⟩
        show transmitted log ++ [p.bytes] = (d.sent ++ [p.bytes]).filter reliable
        rw [h.sent, List.filter_append, List.filter_cons_of_pos (h.known pending), List.filter_nil]
    next => exact h

theorem Follows.onReg (h : d.Follows log) (f : FullFrame) (md5 : Md5) (clock : Stream' Instant)
    (idle : d.pending = none) :
    (d.onReg f md5 clock).Follows ((d.onReg f md5 clock).starts (clock.get 1) ++ log) := by
  have quiet {d' : Regdaemon R} (pending : d'.pending = none) (sent : d'.sent = d.sent) :
      d'.Follows (d'.starts (clock.get 1) ++ log) := by
    rw [starts, pending]
    exact h.same (pending.trans idle.symm) (sent.trans (List.append_nil _).symm) nofun
  have acks {d' : Regdaemon R} {l : Leg} {ts : UInt32} (pending : d'.pending = none)
      (sent : d'.sent = d.sent ++ [l.ack ts]) : d'.Follows (d'.starts (clock.get 1) ++ log) := by
    rw [starts, pending]
    exact h.plain (pending.trans idle.symm) sent (reliable_ack l ts)
  unfold Regdaemon.onReg
  dsimp only
  split
  · split
    · exact quiet idle rfl
    · split
      · exact quiet idle rfl
      · exact h.transmit _ rfl rfl (reliable_encode (by decide))
  · exact acks idle rfl
  · exact acks idle rfl
  · exact quiet idle rfl
  · exact quiet idle rfl

theorem Follows.onNew (h : d.Follows log) (f : FullFrame) (clock : Stream' Instant) :
    (d.onNew f clock).Follows ((d.onNew f clock).starts (clock.get 2) ++ log) :=
  have accepted := reliable_eq_false kind_encode (by decide) (by decide)
  (h.send accepted).transmit _ rfl rfl (reliable_encode (by decide))

theorem settle_pending (d : Regdaemon R) (f : FullFrame) (here : f.dstCall = d.reg.localNo) :
    (d.settle f).pending = none := by
  rw [Regdaemon.settle, if_pos]
  simp [onRealLeg, here]

theorem Follows.onKeepalive (h : d.Follows log) (clock : Stream' Instant) :
    (d.onKeepalive clock).Follows log := by
  unfold Regdaemon.onKeepalive
  split
  · exact h.send (reliable_eq_false kind_encode (by decide) (by decide))
  · exact h

variable [F32 F]

theorem Follows.onCall (h : d.Follows log) (f : FullFrame) (c : Call) (clock : Stream' Instant) :
    (d.onCall f c clock).Follows log := by
  unfold Regdaemon.onCall
  dsimp only
  split
  · exact h.plain rfl rfl (reliable_ack _ _)
  · exact h.same rfl (List.append_nil _).symm nofun
  · exact h.plain rfl rfl (reliable_ack _ _)
  · exact h.plain rfl rfl (reliable_ack _ _)

/-- A full frame on the registration leg ends the wait before it is handled. -/
theorem Follows.onFull (h : d.Follows log) (f : FullFrame) (md5 : Md5) (clock : Stream' Instant)
    (idle : f.dstCall = d.reg.localNo → d.pending = none) :
    (d.onFull f md5 clock).Follows
      ((match d.route f with
        | .newCall => (d.onFull f md5 clock).starts (clock.get 2)
        | .token _ | .reg => (d.onFull f md5 clock).starts (clock.get 1)
        | _ => []) ++ log) := by
  unfold Regdaemon.onFull
  cases route : d.route f with
  | qualify => exact h.plain rfl rfl (reliable_eq_false kind_encode (by decide) (by decide))
  | busy => exact h.plain rfl rfl (reliable_eq_false kind_encode (by decide) (by decide))
  | newCall => exact h.onNew f clock
  | token token => exact h.transmit _ rfl rfl (reliable_encode (by decide))
  | reg => exact h.onReg f md5 clock (idle (route_reg route))
  | call c => exact h.onCall f c clock
  | offLeg => exact h

theorem Follows.onAudioTick (h : d.Follows log) (clock : Stream' Instant) :
    (d.onAudioTick clock).Follows log := by
  unfold Regdaemon.onAudioTick
  split
  · split
    · exact h.same rfl rfl fun dg said => reliable_voice (d.kind_sayLoop _ clock _ dg said)
    · exact h
  · exact h

theorem Follows.onDatagram (h : d.Follows log) (md5 : Md5) (r : Round F) (dg : Bytes)
    (wakeup : r.wakeup = .datagram dg) :
    (d.onDatagram md5 dg r.clock).Follows
      (did ⟨d, r, d.onDatagram md5 dg r.clock⟩ ++ log) := by
  rw [did, wakeup]
  dsimp only
  cases decoded : FullFrame.decode dg with
  | none =>
    obtain ⟨audio, played⟩ := d.onDatagram_other md5 r.clock decoded
    rw [played]
    exact h.same rfl (List.append_nil _).symm nofun
  | some f =>
    rw [onDatagram_full md5 r.clock decoded, List.append_assoc, ← d.settle_route f f]
    exact (h.settle f).onFull f md5 r.clock fun here => d.settle_pending f (by simpa using here)

theorem Follows.apply (h : d.Follows log) (md5 : Md5) (r : Round F) (mono : Monotone r.clock) :
    (d.apply md5 r).Follows (did ⟨d, r, d.apply md5 r⟩ ++ log) := by
  unfold Regdaemon.apply
  split
  next wakeup =>
    rw [did, wakeup]
    exact h.onAudioTick r.clock
  next wakeup =>
    rw [did, wakeup]
    exact h.onKeepalive r.clock
  next wakeup =>
    rw [did, wakeup, List.append_assoc]
    exact (h.register r.clock).retransmit mono
  next dg wakeup => exact h.onDatagram md5 r dg wakeup
  all_goals
    next wakeup =>
      rw [did, wakeup]
      exact h.same rfl (List.append_nil _).symm nofun

end

section

variable [F32 F] {md5 : Md5} {username secret : String} {refresh : UInt16} {audio : AudioIo R}
  {start first : Instant} {d : Regdaemon R} {past : List (Move R)}

theorem follows_run
    (run : (system md5 (new username secret refresh audio start first)).Run past d) :
    d.Follows (past.flatMap did) := by
  induction run with
  | start init =>
    obtain rfl := init
    exact ⟨.start, rfl⟩
  | step _ step ih =>
    obtain ⟨_, mono, rfl⟩ := step
    exact ih.apply md5 _ mono

/-- In every run the daemon stops and waits: what it sends of REGREQ and ANSWER is what a sender
transmits that repeats the datagram in flight, unchanged, when 700 ms have passed since it last went
out, and gives it up after five repeats and six waits. -/
theorem stops_and_waits
    (run : (system md5 (new username secret refresh audio start first)).Run past d) :
    Sender retxAfter retxMax (past.flatMap did) d.flight ∧
      Always (Disciplined retxAfter retxMax) (past.flatMap did) ∧
      transmitted (past.flatMap did) = d.sent.filter reliable :=
  have follows := follows_run run
  ⟨follows.sender, follows.sender.disciplined, follows.sent⟩

/-- Nobody answers, and the request is given up after 4.2 s. -/
theorem gives_up_sample :
    .giveUp (Duration.fromMillis 4200) ∈
        (RegdaemonSample.trace AudioIo.Sample.device RegdaemonSample.silence).flatMap did ∧
      Always (Disciplined retxAfter retxMax)
        ((RegdaemonSample.trace AudioIo.Sample.device RegdaemonSample.silence).flatMap did) :=
  ⟨by decide +kernel, (stops_and_waits (RegdaemonSample.run AudioIo.Sample.device
    RegdaemonSample.silence RegdaemonSample.silence_clocks (by decide +kernel))).2.1⟩

end

/-! ## Registration -/

section

variable [F32 F] {md5 : Md5} {d : Regdaemon R} {r : Round F}

/-- The daemon takes the full frame that arrives for one of the subclass `sc` on the registration leg.
It looks at the destination and the subclass, and at no frame type; and a frame with a call token is
taken for that alone, while the daemon has none. -/
def TakesFor (sc : UInt8) (t : Move R) : Prop :=
  ∃ f, arrival t.label = some f ∧ f.dstCall = t.pre.reg.localNo ∧ f.subclass = sc ∧
    t.pre.freshToken f = none

/-- The daemon takes a frame for a REGACK. -/
def TakesRegack (t : Move R) : Prop := TakesFor Iax.regack t

/-- The daemon takes a frame for a REGREJ, or it gives up what is in flight. -/
def Unregisters (t : Move R) : Prop := TakesFor Iax.regrej t ∨ ∃ now, .giveUp now ∈ did t

omit [F32 F] in
/-- A frame of such a subclass goes to the registration leg if it is for it and has no new token. -/
theorem route_reg_iff {f : FullFrame} (subclass : f.subclass = Iax.regack ∨ f.subclass = Iax.regrej) :
    d.route f = .reg ↔ f.dstCall = d.reg.localNo ∧ d.freshToken f = none := by
  have differs : f.subclass ≠ Iax.poke ∧ f.subclass ≠ Iax.ping ∧ f.subclass ≠ Iax.new := by
    rcases subclass with is | is <;> rw [is] <;> decide
  unfold route
  rw [if_neg fun both => both.2.elim differs.1 differs.2.1, if_neg fun both => differs.2.2 both.2]
  cases d.freshToken f with
  | some token => simp
  | none =>
    by_cases leg : f.dstCall = d.reg.localNo
    · simp [leg]
    · simp only [leg, if_false, false_and, iff_false]
      split
      · split <;> exact Route.noConfusion
      · exact Route.noConfusion

omit [F32 F] in
theorem regKind_eq_regack {f : FullFrame} :
    PbxClient.regKind f = .regack ↔ f.subclass = Iax.regack := by
  have regauth : Iax.regack ≠ Iax.regauth := by decide
  unfold PbxClient.regKind
  grind

omit [F32 F] in
theorem regKind_eq_regrej {f : FullFrame} :
    PbxClient.regKind f = .regrej ↔ f.subclass = Iax.regrej := by
  have regauth : Iax.regrej ≠ Iax.regauth := by decide
  have regack : Iax.regrej ≠ Iax.regack := by decide
  unfold PbxClient.regKind
  grind

omit [F32 F] in
/-- What is taken for a frame of such a subclass takes the route and the arm of it. -/
theorem takesFor_iff {sc : UInt8} (known : sc = Iax.regack ∨ sc = Iax.regrej) {t : Move R} :
    TakesFor sc t ↔ ∃ f, arrival t.label = some f ∧ t.pre.route f = .reg ∧ f.subclass = sc := by
  refine exists_congr fun f => and_congr_right fun _ => ?_
  constructor
  · rintro ⟨leg, rfl, token⟩
    exact ⟨(route_reg_iff known).mpr ⟨leg, token⟩, rfl⟩
  · rintro ⟨route, rfl⟩
    obtain ⟨leg, token⟩ := (route_reg_iff known).mp route
    exact ⟨leg, rfl, token⟩

omit [F32 F] in
theorem giveUp_starts {now t : Instant} : .giveUp now ∉ d.starts t := by
  unfold starts
  cases d.pending <;> simp

omit [F32 F] in
@[simp] theorem register_registered (clock : Stream' Instant) :
    (d.register clock).registered = d.registered := by
  unfold register
  split <;> rfl

omit [F32 F] in
theorem retransmit_registered (clock : Stream' Instant) :
    (d.retransmit clock).registered = true ↔
      (∀ now, .giveUp now ∉ d.repeats clock) ∧ d.registered = true := by
  unfold retransmit repeats
  cases d.pending with
  | none => simp
  | some p =>
    dsimp only
    split
    · split <;> simp [send]
    · simp

omit [F32 F] in
theorem onReg_registered (f : FullFrame) (clock : Stream' Instant) :
    (d.onReg f md5 clock).registered = true ↔
      PbxClient.regKind f ≠ .regrej ∧ (PbxClient.regKind f = .regack ∨ d.registered = true) := by
  unfold onReg
  dsimp only
  split
  next kind =>
    rw [kind]
    split
    · simp
    · split
      · simp
      · simp [transmit, send]
  all_goals
    next kind =>
      rw [kind]
      simp [send]

omit [F32 F] in
@[simp] theorem settle_registered (f : FullFrame) : (d.settle f).registered = d.registered := by
  unfold settle
  split <;> rfl

theorem onFull_registered (f : FullFrame) (clock : Stream' Instant) :
    (d.onFull f md5 clock).registered = true ↔
      ¬(d.route f = .reg ∧ PbxClient.regKind f = .regrej) ∧
        (d.route f = .reg ∧ PbxClient.regKind f = .regack ∨ d.registered = true) := by
  unfold onFull
  cases d.route f with
  | reg =>
    rw [onReg_registered]
    simp
  | call c =>
    dsimp only
    unfold onCall
    dsimp only
    split <;> simp [send]
  | _ => simp [onQualify, onBusy, onNew, onToken, transmit, send]

omit [F32 F] in
/-- The daemon gives up in `retransmit` only. -/
theorem giveUp_did (t : Move R) (now : Instant) :
    .giveUp now ∈ did t ↔ t.label.wakeup = .house ∧
      .giveUp now ∈ (t.pre.register t.label.clock).repeats t.label.clock := by
  unfold did
  split
  next house =>
    simp only [house, List.mem_append, true_and, or_iff_left_iff_imp]
    split
    · exact fun mem => absurd mem giveUp_starts
    · exact nofun
  next dg wakeup =>
    simp only [wakeup, reduceCtorEq, false_and, iff_false]
    split
    · rw [List.mem_append, not_or]
      constructor
      · split
        · exact giveUp_starts
        · exact giveUp_starts
        · exact giveUp_starts
        · exact List.not_mem_nil
      · split <;> simp
    · exact List.not_mem_nil
  next other _ => exact iff_of_false List.not_mem_nil fun both => other both.1

/-- What a round does to the registration. -/
theorem apply_registered (d : Regdaemon R) (r : Round F) :
    (d.apply md5 r).registered = true ↔
      ¬Unregisters ⟨d, r, d.apply md5 r⟩ ∧
        (TakesRegack ⟨d, r, d.apply md5 r⟩ ∨ d.registered = true) := by
  rw [Unregisters, TakesRegack, takesFor_iff (.inl rfl), takesFor_iff (.inr rfl)]
  simp only [← regKind_eq_regack, ← regKind_eq_regrej, giveUp_did]
  cases wakeup : r.wakeup with
  | house =>
    have none : arrival r = none := by rw [arrival, wakeup]
    simp only [none, apply, wakeup, onHouse, retransmit_registered, register_registered]
    simp
  | datagram dg =>
    have arrives : arrival r = FullFrame.decode dg := by rw [arrival, wakeup]
    simp only [arrives, apply, wakeup]
    cases decoded : FullFrame.decode dg with
    | none =>
      obtain ⟨audio, played⟩ := d.onDatagram_other md5 r.clock decoded
      simp [played]
    | some f => simp [onDatagram_full md5 r.clock decoded, onFull_registered]
  | audioTick =>
    have none : arrival r = none := by rw [arrival, wakeup]
    simp only [none, apply, wakeup]
    unfold onAudioTick
    split
    · split <;> simp
    · simp
  | keepalive =>
    have none : arrival r = none := by rw [arrival, wakeup]
    simp only [none, apply, wakeup]
    unfold onKeepalive
    split <;> simp_all [send]
  | _ =>
    have none : arrival r = none := by rw [arrival, wakeup]
    simp [none, apply, wakeup]

/-- From one state to the next the daemon sends, and no POKE. -/
def NoPoke (d d' : Regdaemon R) : Prop :=
  ∃ dgs, d'.sent = d.sent ++ dgs ∧ ∀ dg ∈ dgs, kind dg ≠ some (Frametype.iax, Iax.poke)

omit [F32 F] in
theorem NoPoke.same {d' : Regdaemon R} (sent : d'.sent = d.sent) : d.NoPoke d' :=
  ⟨[], by rw [sent, List.append_nil], nofun⟩

omit [F32 F] in
theorem NoPoke.one {d' : Regdaemon R} {dg : Bytes} {k : Option (UInt8 × UInt8)}
    (sent : d'.sent = d.sent ++ [dg]) (is : kind dg = k)
    (other : k ≠ some (Frametype.iax, Iax.poke)) : d.NoPoke d' :=
  ⟨[dg], sent, fun _ mem => by rw [List.mem_singleton.mp mem, is]; exact other⟩

omit [F32 F] in
theorem NoPoke.trans {d' d'' : Regdaemon R} (h : d.NoPoke d') (h' : d'.NoPoke d'') :
    d.NoPoke d'' := by
  obtain ⟨dgs, sent, other⟩ := h
  obtain ⟨dgs', sent', other'⟩ := h'
  refine ⟨dgs ++ dgs', by rw [sent', sent, List.append_assoc], fun dg mem => ?_⟩
  exact (List.mem_append.mp mem).elim (other dg) (other' dg)

omit [F32 F] in
/-- What is sent once more was sent before. -/
theorem NoPoke.onHouse (known : ∀ p, d.pending = some p → reliable p.bytes = true)
    (clock : Stream' Instant) : d.NoPoke (d.onHouse clock) := by
  have repeated (e : Regdaemon R) (known : ∀ p, e.pending = some p → reliable p.bytes = true) :
      e.NoPoke (e.retransmit clock) := by
    unfold retransmit
    split
    next p pending =>
      split
      · split
        · exact .same rfl
        · refine ⟨[p.bytes], rfl, fun dg mem poke => ?_⟩
          have := known p pending
          rw [List.mem_singleton.mp mem] at poke
          rw [reliable, poke] at this
          exact absurd this (by decide)
      · exact .same rfl
    · exact .same rfl
  unfold Regdaemon.onHouse register
  split
  · refine .trans (.one rfl kind_encode (by decide)) (repeated _ ?_)
    intro p pending
    cases pending
    exact reliable_encode (by decide)
  · exact repeated d known

theorem NoPoke.onFull (f : FullFrame) (clock : Stream' Instant) :
    d.NoPoke (d.onFull f md5 clock) := by
  unfold Regdaemon.onFull
  cases d.route f with
  | qualify => exact .one rfl kind_encode (by decide)
  | busy => exact .one rfl kind_encode (by decide)
  | newCall =>
    exact .trans (.one rfl kind_encode (by decide))
      (.one (d := d.send _) rfl kind_encode (by decide))
  | token token => exact .one rfl kind_encode (by decide)
  | reg =>
    dsimp only
    unfold onReg
    dsimp only
    split
    · split
      · exact .same rfl
      · split
        · exact .same rfl
        · exact .one rfl kind_encode (by decide)
    · exact .one rfl kind_encode (by decide)
    · exact .one rfl kind_encode (by decide)
    · exact .same rfl
    · exact .same rfl
  | call c =>
    dsimp only
    unfold onCall
    dsimp only
    split
    · exact .one rfl kind_encode (by decide)
    · exact .same rfl
    · exact .one rfl kind_encode (by decide)
    · exact .one rfl kind_encode (by decide)
  | offLeg => exact .same rfl

theorem NoPoke.apply (md5 : Md5) (known : ∀ p, d.pending = some p → reliable p.bytes = true)
    (other : r.wakeup = .keepalive → d.registered = false) : d.NoPoke (d.apply md5 r) := by
  unfold Regdaemon.apply
  split
  · unfold onAudioTick
    split
    · split
      · refine ⟨_, rfl, fun dg said poke => ?_⟩
        have voice := d.kind_sayLoop _ r.clock _ dg said
        exact absurd (poke ▸ voice) (by decide)
      · exact .same rfl
    · exact .same rfl
  next wakeup =>
    rw [onKeepalive, other wakeup]
    exact .same rfl
  · exact .onHouse known r.clock
  next dg _ =>
    cases decoded : FullFrame.decode dg with
    | none =>
      obtain ⟨audio, played⟩ := d.onDatagram_other md5 r.clock decoded
      rw [played]
      exact .same rfl
    | some f =>
      rw [onDatagram_full md5 r.clock decoded]
      refine .trans (.same ?_) (.onFull f r.clock)
      unfold settle
      split <;> rfl
  · exact .same rfl
  · exact .same rfl
  · exact .same rfl

/-- What a round sends. -/
def newly (t : Move R) : List Bytes := t.post.sent.drop t.pre.sent.length

variable {username secret : String} {refresh : UInt16} {audio : AudioIo R}
  {start first : Instant} {past : List (Move R)}

/-- In every run the daemon takes itself for registered if and only if it has taken a frame for a
REGACK since it last took one for a REGREJ or gave a datagram up, and it sends a POKE in the ticks of
the keepalive in which it does, and at no other time. -/
theorem registration
    (run : (system md5 (new username secret refresh audio start first)).Run past d) :
    (d.registered = true ↔ Since Unregisters TakesRegack past) ∧
      Always (fun t past => (∃ dg ∈ newly t, kind dg = some (Frametype.iax, Iax.poke)) ↔
        t.label.wakeup = .keepalive ∧ Since Unregisters TakesRegack past) past := by
  induction run with
  | start init =>
    obtain rfl := init
    exact ⟨by simp [new, Since], trivial⟩
  | @step past d d' r run step ih =>
    obtain ⟨_, mono, rfl⟩ := step
    refine ⟨?_, ?_, ih.2⟩
    · rw [apply_registered, ih.1]
      rfl
    · dsimp only
      rw [← ih.1]
      constructor
      · rintro ⟨dg, mem, poke⟩
        by_contra other
        obtain ⟨dgs, sent, none⟩ := NoPoke.apply (r := r) md5
          (fun p => (follows_run run).known) (fun keepalive => by simpa [keepalive] using other)
        rw [newly, sent, List.drop_left] at mem
        exact none dg mem poke
      · rintro ⟨wakeup, registered⟩
        simp only [newly, apply, wakeup, onKeepalive, registered, if_true, send, List.drop_left]
        exact ⟨_, List.mem_singleton_self _, kind_encode⟩

/-- The request is accepted. -/
theorem registration_sample :
    Since Unregisters TakesRegack
      (RegdaemonSample.trace AudioIo.Sample.device RegdaemonSample.registered) :=
  (registration (RegdaemonSample.run AudioIo.Sample.device RegdaemonSample.registered
    RegdaemonSample.registered_clocks (by decide +kernel))).1.mp (by decide +kernel)

end

end Iax2.Regdaemon
