import Iax2.Laws.CallState
import Iax2.Laws.Codec
import Iax2.Laws.Isolation
import Iax2.Laws.Retransmission

/-!
# The elements of what is sent

`PbxClient.builds` lists the full frames that a step builds, each as the source builds it, with its
elements. The full frames that leave in the step are the bytes of these, and after them copies of
frames that were built before (`Move.Emits`).

The encoder writes the length of an element as one byte, and does not look whether it fits. Most
elements are short by construction, a call token because it was received. The two that are not are
the username of the account and the number that is dialled: as long as both fit, every full frame
that leaves is read back with the elements it was built with (`wellBuilt_run`).
-/

namespace Iax2

/-- A full frame as it is built, before it is encoded: a command frame, or a media frame with its
payload. -/
inductive Built
  | command (f : FullFrame)
  | media (f : FullFrame) (payload : Bytes)
  deriving DecidableEq

namespace Built

def frame : Built → FullFrame
  | command f => f
  | media f _ => f

def bytes : Built → Bytes
  | command f => f.encode
  | media f payload => f.encodeMedia payload

/-- The elements that the frame is built with. -/
def ies (b : Built) : List Ie := b.frame.ies

theorem full (b : Built) : isFullFrame b.bytes = true := by
  cases b with
  | command f => exact isFullFrame_of_read (Header.read_encode f)
  | media f payload => exact isFullFrame_of_read (Header.read_encodeMedia f payload)

end Built

/-- The full frames that a live call builds in reaction to an input. `newIes` are the elements of a
NEW for its number. -/
def CallLeg.builds (respond : String → String) (newIes : List Ie) (ts : UInt32) (c : CallLeg) :
    CallInput → List Built
  | .answer =>
    if c.dir = .inbound ∧ c.state = .ringing then
      [.command (c.leg.build ts Frametype.control Control.answer []).1]
    else []
  | .hangup =>
    [.command (c.leg.build ts Frametype.iax Iax.hangup
      [Ie.str IeKind.cause "Normal Clearing"]).1]
  | .dtmf digit => [.command (c.leg.build ts Frametype.dtmf (UInt8.ofNat digit.toNat) []).1]
  | .hold hold =>
    [.command (c.leg.build ts Frametype.control
      (if hold then Control.hold else Control.unhold) []).1]
  | .voice ulaw =>
    if c.state = .up ∧ c.sentFormat = false then
      [.media (c.leg.build ts Frametype.voice c.fmt.toUInt8 []).1 ulaw]
    else []
  | .mini _ => []
  | .token token =>
    [.command (c.leg.reset.build ts Frametype.iax Iax.new (PbxClient.withToken token newIes)).1]
  | .frame f =>
    let leg := (c.noteFrame f).leg
    match f.callKind c.dir with
    | .authreq =>
      if f.authmethods &&& Authmethod.md5 = 0 then []
      else
        match f.challenge with
        | none => []
        | some chal =>
          [.command (leg.build ts Frametype.iax Iax.authrep
            [Ie.str IeKind.md5Result (respond chal)]).1]
    | .lagrq => [.command (leg.build f.timestamp Frametype.iax Iax.lagrp []).1]
    | .ping => [.command (leg.build f.timestamp Frametype.iax Iax.pong []).1]
    | .ackPong | .lagrp => []
    | _ => [.command (leg.ackFrame ts)]

namespace PbxClient

variable {s s' : PbxClient} {md5 : Md5} {past : List Move}

/-- The full frames that a new call builds. -/
def openingBuilds (s : PbxClient) (i : Invocation) : Opening → List Built
  | .dial number =>
    [.command ((Leg.new s.allocCallno.1).build (s.ts i.clock) Frametype.iax Iax.new
      (s.newCallIes number)).1]
  | .incoming f =>
    let leg := (Leg.new s.allocCallno.1).noteRecv f
    let (accept, leg) := leg.build (s.ts i.clock) Frametype.iax Iax.accept
      [Ie.u32 IeKind.format s.cfg.audioFormat]
    let (ringing, _) := leg.build (s.ts i.clock) Frametype.control Control.ringing []
    [.command accept, .command ringing]

/-- The full frames that a timeout builds. -/
def timeoutBuilds (s : PbxClient) (i : Invocation) : List Built :=
  if s.reg.outstanding = [] ∧ s.nextReg ≤ i.now then [.command (s.freshRequest i.clock)]
  else if s.regState = .registered ∧ s.nextKeepalive ≤ i.now then
    [.command (FullFrame.new callnoKeepalive 0 (s.ts i.clock) 0 0 Frametype.iax Iax.poke [])]
  else []

/-- The full frames with which a full frame is answered that reaches no call. -/
def serviceBuilds (md5 : Md5) (s : PbxClient) (f : FullFrame) (i : Invocation) : List Built :=
  match s.route f with
  | .qualify =>
    [.command (FullFrame.new s.qualifyNext f.srcCall f.timestamp 0 (f.oseq + 1) Frametype.iax
      Iax.pong [])]
  | .regToken token =>
    let s := { s with calltoken := some token }
    [.command (s.reg.reset.build (s.ts i.clock) Frametype.iax Iax.regreq s.regIes).1]
  | .reg =>
    let reg := (s.reg.noteRecv f).ackUpto f.iseq f.timestamp f.isAck
    match regKind f with
    | .regauth =>
      if f.authmethods &&& Authmethod.md5 = 0 then []
      else
        match f.challenge with
        | none => []
        | some chal =>
          [.command (reg.build (s.ts i.clock) Frametype.iax Iax.regreq (s.regIes.insertIdx 1
            (Ie.str IeKind.md5Result (md5Response md5 chal s.cfg.secret)))).1]
    | .regack | .regrej => [.command (reg.ackFrame (s.ts i.clock))]
    | .quiet | .other => []
  | .newToken _ _ | .incomingNew | .call _ | .offLeg => []

/-- The full frames that a step builds, in the order in which it queues them. -/
def builds (md5 : Md5) (s : PbxClient) (i : Invocation) : List Built :=
  match s.target i.op with
  | .timeout => s.timeoutBuilds i
  | .opening o => s.openingBuilds i o
  | .call k x =>
    match s.calls.lookup k with
    | some c => c.builds (md5Response md5 · s.cfg.secret) (s.newCallIes c.peer) (s.ts i.clock) x
    | none => []
  | .elsewhere =>
    match i.op with
    | .handleInput dg =>
      match FullFrame.decode dg with
      | some f => s.serviceBuilds md5 f i
      | none => []
    | _ => []

/-! ## What leaves -/

/-- The full frames of the transition. -/
def Move.fulls (t : Move) : List Bytes := t.pushed.filter isFullFrame

/-- What leaves in full frames is what was built, and then these copies. -/
def Move.Emits (md5 : Md5) (t : Move) (copies : List Bytes) : Prop :=
  t.fulls = (t.pre.builds md5 t.label).map Built.bytes ++ copies

/-- What is built is full frames. -/
theorem full_built (l : List Built) :
    (l.map Built.bytes).filter isFullFrame = l.map Built.bytes := by
  refine List.filter_eq_self.mpr fun dg hdg => ?_
  obtain ⟨b, _, rfl⟩ := List.mem_map.mp hdg
  exact b.full

/-- What a live call sends is what it builds, except for a mini frame. -/
theorem reaction_built (md5 : Md5) (s : PbxClient) (i : Invocation) (k : UInt16) (c : CallLeg)
    (x : CallInput) :
    (s.reaction md5 i k c x).sent =
        (c.builds (md5Response md5 · s.cfg.secret) (s.newCallIes c.peer) (s.ts i.clock) x).map
          Built.bytes ∨
      ∃ ulaw, x = .voice ulaw ∧ c.state = .up ∧ c.sentFormat = true := by
  cases x with
  | answer =>
    simp only [reaction, CallLeg.answer, CallLeg.builds]
    split <;> exact .inl rfl
  | voice ulaw =>
    simp only [reaction, CallLeg.sendVoice, CallLeg.builds]
    by_cases hup : c.state = .up
    · cases hsent : c.sentFormat with
      | false =>
        simp only [hup, ne_eq, not_true_eq_false, if_false, Bool.not_false, if_true, and_self]
        exact .inl rfl
      | true => exact .inr ⟨ulaw, rfl, hup, rfl⟩
    · simp only [hup, ne_eq, not_false_eq_true, if_true, false_and, if_false]
      exact .inl rfl
  | mini m =>
    simp only [reaction, CallLeg.onMini, CallLeg.builds]
    split <;> exact .inl rfl
  | frame f =>
    have hdir : (c.noteFrame f).dir = c.dir := rfl
    simp only [reaction, CallLeg.onFrame, CallLeg.builds, hdir]
    cases f.callKind c.dir with
    | authreq =>
      simp only
      split
      · exact .inl rfl
      · cases f.challenge <;> exact .inl rfl
    | accept =>
      simp only
      split <;> exact .inl rfl
    | _ => exact .inl rfl
  | _ => exact .inl rfl

/-- The full frames that a live call sends are those that it builds. -/
theorem reaction_fulls (md5 : Md5) (s : PbxClient) (i : Invocation) (k : UInt16) (c : CallLeg)
    (x : CallInput) :
    (s.reaction md5 i k c x).sent.filter isFullFrame =
      (c.builds (md5Response md5 · s.cfg.secret) (s.newCallIes c.peer) (s.ts i.clock) x).map
        Built.bytes := by
  rcases reaction_built md5 s i k c x with sent | ⟨ulaw, rfl, hup, hsent⟩
  · rw [sent, full_built]
  · -- a mini frame is no full frame
    simp only [reaction, CallLeg.sendVoice, CallLeg.builds, hup, hsent, ne_eq, not_true_eq_false,
      if_false, Bool.not_true, Bool.false_eq_true, reduceCtorEq, and_false]
    rw [List.filter_singleton, isFullFrame_mini]
    rfl

/-- What a new call sends is what it builds. -/
theorem opened_built (s : PbxClient) (i : Invocation) (o : Opening) :
    (s.opened i s.allocCallno.1 o).sent = (s.openingBuilds i o).map Built.bytes := by
  cases o <;> rfl

/-- An input for a call that is not live has no effect. -/
theorem onCall_elsewhere {call : UInt16} {x : CallInput} (h : s.reaching call x = .elsewhere)
    (r : CallLeg → Reaction) : s.onCall call r = s := by
  unfold onCall
  split
  next c live =>
    rw [reaching_live live] at h
    cases h
  next => rfl

/-- A full frame that reaches no call is answered with what is built. -/
theorem service_built (md5 : Md5) (s : PbxClient) (f : FullFrame) (i : Invocation)
    (elsewhere : s.frameTarget f = .elsewhere) :
    s.pushed (s.onFull md5 f i.now i.clock) = (s.serviceBuilds md5 f i).map Built.bytes := by
  have one {s' : PbxClient} {g : FullFrame} (h : s'.out = s.out ++ [g.encode]) :
      s.pushed s' = [g.encode] := pushed_append h
  have nothing {s' : PbxClient} (h : s'.out = s.out) : s.pushed s' = [] := pushed_same h
  unfold frameTarget at elsewhere
  unfold onFull serviceBuilds
  cases hroute : s.route f with
  | qualify => exact one rfl
  | regToken token => exact one rfl
  | newToken call token =>
    rw [hroute] at elsewhere
    exact nothing (congrArg out (onCall_elsewhere elsewhere _))
  | incomingNew =>
    rw [hroute] at elsewhere
    cases elsewhere
  | reg =>
    simp only [onRegFrame]
    cases regKind f with
    | regauth =>
      simp only
      split
      · exact nothing rfl
      · cases f.challenge with
        | none => exact nothing rfl
        | some chal => exact one rfl
    | regack => exact one rfl
    | regrej => exact one rfl
    | quiet => exact nothing rfl
    | other => exact nothing rfl
  | call c =>
    rw [hroute] at elsewhere
    cases (reaching_live (route_call hroute) _).symm.trans elsewhere
  | offLeg =>
    refine nothing ?_
    rcases s.onOffLeg_reports f with h | ⟨_, h⟩
    · rw [h]
    · rw [h]
      rfl

/-- A command that reaches no call queues nothing. -/
theorem command_elsewhere {cmd : Command} (target : s.commandTarget cmd = .elsewhere)
    (now clock : Instant) : (s.handleCommand cmd now clock).out = s.out := by
  cases cmd with
  | dial number => cases target
  | dtmf call digit =>
    simp only [commandTarget] at target
    simp only [handleCommand, sendDtmf]
    cases valid : isDtmfDigit digit.toUpper with
    | true =>
      rw [valid, if_pos rfl] at target
      exact congrArg out (onCall_elsewhere target _)
    | false => rfl
  | _ => exact congrArg out (onCall_elsewhere target _)

/-- A mini frame that reaches no call queues nothing. -/
theorem mini_elsewhere {m : MiniFrame} (target : s.miniTarget m = .elsewhere) :
    (s.onMini m).out = s.out := by
  simp only [miniTarget] at target
  unfold onMini
  split
  next call hcall =>
    rw [hcall] at target
    exact congrArg out (onCall_elsewhere target _)
  next => rfl

/-- An operation that reaches no call, other than a full frame, queues nothing. -/
theorem silent_elsewhere {i : Invocation} (step : Step md5 s i s')
    (target : s.target i.op = .elsewhere)
    (notFull : ∀ dg, i.op = .handleInput dg → FullFrame.decode dg = none) : s.pushed s' = [] := by
  cases step with
  | rehash _ reordered =>
    obtain ⟨_, _, _, _, rfl⟩ := reordered
    exact pushed_same rfl
  | call _ =>
    cases op : i.op with
    | handleTimeout =>
      rw [op] at target
      cases target
    | handleCommand cmd =>
      simp only [apply, op]
      rw [op] at target
      exact pushed_same (command_elsewhere target i.now i.clock)
    | handleInput dg =>
      simp only [apply, op, handleInput, notFull dg op]
      rw [op] at target
      simp only [PbxClient.target, notFull dg op] at target
      split
      next => exact pushed_same rfl
      next mini =>
        rw [if_neg mini] at target
        split
        next m hm =>
          rw [hm] at target
          exact pushed_same (mini_elsewhere target)
        next => exact pushed_same rfl
    | pollTransmit =>
      simp only [apply, op, pollTransmit]
      exact List.drop_eq_nil_of_le (by rw [List.length_tail]; exact Nat.sub_le _ _)
    | pollEvent =>
      simp only [apply, op]
      exact pushed_same rfl
    | rehash =>
      simp only [apply, op]
      exact pushed_same rfl

/-- An operation that reaches no call sends what is built. -/
theorem elsewhere_built {i : Invocation} (step : Step md5 s i s')
    (target : s.target i.op = .elsewhere) : s.pushed s' = (s.builds md5 i).map Built.bytes := by
  simp only [builds, target]
  split
  next dg op =>
    split
    next f decoded =>
      rw [op, target_full decoded] at target
      rw [step.full op decoded]
      exact service_built md5 s f i target
    next decoded =>
      refine silent_elsewhere step target fun dg' op' => ?_
      cases op.symm.trans op'
      exact decoded
  next notInput => exact silent_elsewhere step target fun dg op => absurd op (notInput dg)

/-! ## Timeouts -/

theorem retransmitReg_out (s : PbxClient) (now : Instant) :
    (s.retransmitReg now).out = s.out ++ (expire now s.reg.outstanding).copies :=
  (retransmitReg_reg s now).2

/-- What a timeout sends: the frames that it builds, and then copies. -/
theorem handleTimeout_pushed (s : PbxClient) (i : Invocation) :
    s.pushed (s.handleTimeout i.now i.clock) =
      (s.timeoutBuilds i).map Built.bytes ++
        ((expire i.now s.reg.outstanding).copies ++ s.callCopies i.now) := by
  have calls : (s.beforeCalls i.now i.clock).callCopies i.now = s.callCopies i.now := by
    rw [callCopies, callCopies, (beforeCalls_serviced s i.now i.clock).calls]
  refine pushed_append ?_
  rw [handleTimeout_eq, (retransmitCalls_rest ..).2, calls, ← List.append_assoc,
    ← List.append_assoc]
  congr 1
  simp only [beforeCalls, timeoutBuilds]
  split
  next starts =>
    -- a registration that has just started is not registered, and its request is not due
    obtain ⟨o, window, entered⟩ := startRegistration_window s i.now i.clock
    have waits : (s.startRegistration i.now i.clock).keepalive i.now i.clock =
        s.startRegistration i.now i.clock := if_neg fun h => by cases h.1
    have due : ¬ o.Due i.now := fun h => entered.not_due h.1
    rw [waits, retransmitReg_out, window, starts.1, startRegistration_out]
    simp [expire_eq, due, Built.bytes]
  next =>
    rw [retransmitReg_out, (keepalive_reg s i.now i.clock).1]
    congr 1
    simp only [keepalive]
    split
    · rfl
    · exact (List.append_nil _).symm

/-- What a timeout repeats is entries of the windows. -/
theorem copies_entries (wf : s.WellFormed) (now : Instant) :
    ∀ dg ∈ (expire now s.reg.outstanding).copies ++ s.callCopies now,
      ∃ k, ∃ o ∈ s.window k, dg = setRetransmit o.bytes := by
  intro dg hdg
  rcases List.mem_append.mp hdg with h | h
  · obtain ⟨o, ho, rfl⟩ := expire_copies now _ dg h
    exact ⟨callnoReg, o, by rwa [window_reg], rfl⟩
  · obtain ⟨k, c, live, o, ho, rfl⟩ := callCopies_entries h
    exact ⟨k, o, by rwa [window_call (wf.live_inCycle live).ne_reg live], rfl⟩

/-- Every step sends the full frames that it builds, and a timeout copies of entries after them. -/
theorem emits_step {i : Invocation} (wf : s.WellFormed) (step : Step md5 s i s') :
    ∃ copies, Move.Emits md5 ⟨s, i, s'⟩ copies ∧
      ∀ dg ∈ copies, ∃ k, ∃ o ∈ s.window k, dg = setRetransmit o.bytes := by
  have alone (h : (s.pushed s').filter isFullFrame = (s.builds md5 i).map Built.bytes) :
      ∃ copies, Move.Emits md5 ⟨s, i, s'⟩ copies ∧
        ∀ dg ∈ copies, ∃ k, ∃ o ∈ s.window k, dg = setRetransmit o.bytes :=
    ⟨[], h.trans (List.append_nil _).symm, fun dg hdg => absurd hdg List.not_mem_nil⟩
  cases Step.outcome step with
  | quiet target _ => exact alone (by rw [elsewhere_built step target, full_built])
  | @touched call x c target live effect =>
    refine alone ?_
    rw [effect.sent, reaction_fulls]
    simp only [builds, target, live]
  | @opened o target effect =>
    refine alone ?_
    rw [effect.sent, opened_built, full_built]
    simp only [builds, target]
  | expired target _ =>
    refine ⟨((expire i.now s.reg.outstanding).copies ++ s.callCopies i.now).filter isFullFrame,
      ?_, fun dg hdg => copies_entries wf i.now dg (List.mem_filter.mp hdg).1⟩
    show (s.pushed s').filter isFullFrame = (s.builds md5 i).map Built.bytes ++ _
    rw [step.timeout_eq (op_of_timeout target), handleTimeout_pushed, List.filter_append,
      full_built]
    simp only [builds, target]

/-! ## What reads back -/

/-- The frame is read back with the elements that it was built with. -/
def ReadsBack (b : Built) : Prop := ∃ f, FullFrame.decode b.bytes = some f ∧ f.ies = b.ies

/-- A command frame whose elements fit reads back. A media frame may be encoded like one, if it has
no elements. -/
theorem readsBack_command {f : FullFrame} (media : isMedia f.frametype = true → f.ies = [])
    (fits : ∀ e ∈ f.ies, e.Fits) : ReadsBack (.command f) := by
  have body : f.encode.drop 12 = Ie.encode f.ies := List.drop_left' (header_length f)
  refine ⟨f.wire.frame f.ies [], ?_, rfl⟩
  show FullFrame.decode f.encode = _
  rw [decode_eq, Header.read_encode, Option.bind_some, body, Ie.decode_encode fits]
  split
  next h =>
    rw [media h]
    rfl
  next => rfl

theorem readsBack_media {f : FullFrame} (media : isMedia f.frametype = true) (ies : f.ies = [])
    (payload : Bytes) : ReadsBack (.media f payload) := by
  have body : (f.encodeMedia payload).drop 12 = payload := List.drop_left' (header_length f)
  refine ⟨f.wire.frame [] payload, ?_, ies.symm⟩
  show FullFrame.decode (f.encodeMedia payload) = _
  rw [decode_eq, Header.read_encodeMedia, Option.bind_some, body]
  exact if_pos media

/-- A text of at most 255 bytes fits an element. -/
def TextFits (text : String) : Prop := text.utf8ByteSize ≤ 255

instance (text : String) : Decidable (TextFits text) := inferInstanceAs (Decidable (_ ≤ _))

/-- The answer to a challenge is thirty-two digits. -/
theorem md5Response_fits (md5 : Md5) (challenge secret : String) :
    TextFits (md5Response md5 challenge secret) := by
  refine Nat.le_trans (Bytes.utf8ByteSize_join (n := 8) fun text h => ?_) ?_
  · obtain ⟨b, _, rfl⟩ := List.mem_map.mp h
    exact Bytes.utf8ByteSize_hex2 b
  · rw [List.length_map, Vector.length_toList]
    decide

/-- The elements that are received fit. -/
theorem fits_of_decode {dg : Bytes} {f : FullFrame} (h : FullFrame.decode dg = some f) :
    ∀ e ∈ f.ies, e.Fits := by
  rw [decode_eq, Option.bind_eq_some_iff] at h
  obtain ⟨hd, _, h⟩ := h
  split at h
  next =>
    cases h
    exact fun e he => absurd he List.not_mem_nil
  next =>
    obtain ⟨ies, hies, rfl⟩ := Option.map_eq_some_iff.mp h
    exact (Ie.encode_decode hies).2

/-- The texts that the client writes into elements fit: the username, the call token, and the
number of every outgoing call. -/
structure TextsFit (s : PbxClient) : Prop where
  username : TextFits s.cfg.username
  calltoken : ∀ token, s.calltoken = some token → token.length ≤ 255
  peer : ∀ k c, s.calls.lookup k = some c → c.dir = .outbound → TextFits c.peer

theorem fits_u16 (kind : UInt8) (v : UInt16) : (Ie.u16 kind v).Fits :=
  Nat.le_of_ble_eq_true rfl

theorem fits_u32 (kind : UInt8) (v : UInt32) : (Ie.u32 kind v).Fits :=
  Nat.le_of_ble_eq_true rfl

theorem regIes_fits (username : TextFits s.cfg.username)
    (calltoken : ∀ token, s.calltoken = some token → token.length ≤ 255) :
    ∀ e ∈ s.regIes, e.Fits := by
  cases given : s.calltoken with
  | none =>
    simp only [regIes, given, List.cons_append, List.nil_append, List.forall_mem_cons]
    exact ⟨username, fits_u16 _ _, Nat.zero_le 255, fun e he => absurd he List.not_mem_nil⟩
  | some token =>
    simp only [regIes, given, List.cons_append, List.nil_append, List.forall_mem_cons]
    exact ⟨username, fits_u16 _ _, calltoken token given, fun e he => absurd he List.not_mem_nil⟩

theorem newCallIes_fits {called : String} (username : TextFits s.cfg.username)
    (number : TextFits called) : ∀ e ∈ s.newCallIes called, e.Fits := by
  simp only [newCallIes, List.forall_mem_cons]
  exact ⟨fits_u16 _ _, username, by decide, username, fits_u32 _ _, fits_u32 _ _, number,
    by decide, fun e he => absurd he List.not_mem_nil⟩

theorem withToken_fits {token : Bytes} {ies : List Ie} (given : token.length ≤ 255)
    (fits : ∀ e ∈ ies, e.Fits) : ∀ e ∈ withToken token ies, e.Fits := by
  induction ies with
  | nil => exact fun e he => absurd he List.not_mem_nil
  | cons e ies ih =>
    obtain ⟨head, tail⟩ := List.forall_mem_cons.mp fits
    rw [withToken, List.lookmap_cons]
    split
    next => exact List.forall_mem_cons.mpr ⟨head, ih tail⟩
    next h =>
      split at h
      next =>
        cases h
        exact List.forall_mem_cons.mpr ⟨given, tail⟩
      next => cases h

/-- A frame without elements reads back. -/
theorem readsBack_plain {f : FullFrame} (ies : f.ies = []) : ReadsBack (.command f) :=
  readsBack_command (fun _ => ies) fun e he => by
    rw [ies] at he
    cases he

/-- A frame of the protocol itself reads back, if its elements fit. -/
theorem readsBack_iax {f : FullFrame} (ft : f.frametype = Frametype.iax)
    (fits : ∀ e ∈ f.ies, e.Fits) : ReadsBack (.command f) :=
  readsBack_command (fun media => absurd (ft ▸ media) (by decide)) fits

theorem nothing_reads : ∀ b ∈ ([] : List Built), ReadsBack b :=
  fun _ hb => absurd hb List.not_mem_nil

theorem one_reads {b : Built} (h : ReadsBack b) : ∀ b' ∈ [b], ReadsBack b' := by
  intro b' hb
  obtain rfl := List.mem_singleton.mp hb
  exact h

theorem plain_reads {f : FullFrame} (ies : f.ies = []) : ∀ b ∈ [Built.command f], ReadsBack b :=
  one_reads (readsBack_plain ies)

/-- What a live call builds reads back, if the response fits that it gives, and the request that it
repeats. -/
theorem call_builds_read {respond : String → String} {newIes : List Ie} {ts : UInt32} {c : CallLeg}
    {x : CallInput} (answers : ∀ chal, TextFits (respond chal))
    (repeats : ∀ token, x = .token token → token.length ≤ 255 ∧ ∀ e ∈ newIes, e.Fits) :
    ∀ b ∈ c.builds respond newIes ts x, ReadsBack b := by
  cases x with
  | answer =>
    simp only [CallLeg.builds]
    split
    · exact plain_reads rfl
    · exact nothing_reads
  | hangup =>
    refine one_reads (readsBack_iax rfl fun e he => ?_)
    obtain rfl := List.mem_singleton.mp he
    decide
  | dtmf digit => exact plain_reads rfl
  | hold hold => exact plain_reads rfl
  | voice ulaw =>
    simp only [CallLeg.builds]
    split
    · exact one_reads (readsBack_media rfl rfl ulaw)
    · exact nothing_reads
  | mini m => exact nothing_reads
  | token token =>
    obtain ⟨given, fits⟩ := repeats token rfl
    exact one_reads (readsBack_iax rfl (withToken_fits given fits))
  | frame f =>
    simp only [CallLeg.builds]
    cases f.callKind c.dir with
    | authreq =>
      simp only
      split
      · exact nothing_reads
      · cases f.challenge with
        | none => exact nothing_reads
        | some chal =>
          refine one_reads (readsBack_iax rfl fun e he => ?_)
          obtain rfl := List.mem_singleton.mp he
          exact answers chal
    | ackPong => exact nothing_reads
    | lagrp => exact nothing_reads
    | _ => exact plain_reads rfl

/-- What a frame makes the registration leg build reads back. -/
theorem service_builds_read (h : s.TextsFit) {dg : Bytes} {f : FullFrame}
    (decoded : FullFrame.decode dg = some f) (i : Invocation) :
    ∀ b ∈ s.serviceBuilds md5 f i, ReadsBack b := by
  have request := regIes_fits h.username h.calltoken
  unfold serviceBuilds
  cases hroute : s.route f with
  | qualify => exact plain_reads rfl
  | regToken token =>
    obtain ⟨tok, found, _, ⟨_, _, hr⟩ | ⟨_, _, _, _, _, _, hr⟩⟩ :=
      tokenRoute_some (tokenRoute_of_route hroute (.inl ⟨token, rfl⟩))
    · cases hr
      have given : tok.data.length ≤ 255 :=
        fits_of_decode decoded tok (List.mem_of_find?_eq_some found)
      refine one_reads (readsBack_iax rfl ?_)
      refine regIes_fits h.username fun token htoken => ?_
      cases htoken
      exact given
    · cases hr
  | newToken call token => exact nothing_reads
  | incomingNew => exact nothing_reads
  | reg =>
    simp only
    cases regKind f with
    | regauth =>
      simp only
      split
      · exact nothing_reads
      · cases f.challenge with
        | none => exact nothing_reads
        | some chal =>
          refine one_reads (readsBack_iax rfl fun e he => ?_)
          rcases List.eq_or_mem_of_mem_insertIdx he with rfl | he
          · exact md5Response_fits md5 chal _
          · exact request e he
    | regack => exact plain_reads rfl
    | regrej => exact plain_reads rfl
    | quiet => exact nothing_reads
    | other => exact nothing_reads
  | call c => exact nothing_reads
  | offLeg => exact nothing_reads

/-- A Dial is for a number that fits an element. -/
def DialFits (t : Move) (_past : List Move) : Prop :=
  ∀ number, t.label.op = .handleCommand (.dial number) → TextFits number

/-- Only a Dial opens an outgoing call. -/
theorem op_of_dial {op : Op} {number : String} (h : s.target op = .opening (.dial number)) :
    op = .handleCommand (.dial number) := by
  cases op with
  | handleCommand cmd =>
    cases cmd with
    | dial _ =>
      cases h
      rfl
    | dtmf call digit =>
      simp only [target, commandTarget, reaching] at h
      repeat' split at h
      all_goals cases h
    | _ =>
      simp only [target, commandTarget, reaching] at h
      split at h <;> cases h
  | handleInput dg =>
    simp only [target, frameTarget, miniTarget, reaching] at h
    repeat' split at h
    all_goals cases h
  | _ => cases h

/-- What a step builds reads back. -/
theorem builds_read {i : Invocation} {past : List Move} (h : s.TextsFit)
    (dials : DialFits ⟨s, i, s'⟩ past) : ∀ b ∈ s.builds md5 i, ReadsBack b := by
  cases htarget : s.target i.op with
  | timeout =>
    simp only [builds, htarget, timeoutBuilds]
    split
    · refine one_reads (readsBack_iax rfl ?_)
      refine regIes_fits (s := { s with calltoken := Option.none }) h.username fun token given => ?_
      cases given
    · split
      · exact plain_reads rfl
      · exact nothing_reads
  | opening o =>
    simp only [builds, htarget]
    cases o with
    | dial number =>
      have number_fits := dials number (op_of_dial htarget)
      exact one_reads (readsBack_iax rfl (newCallIes_fits h.username number_fits))
    | incoming f =>
      intro b hb
      simp only [openingBuilds, List.mem_cons, List.not_mem_nil, or_false] at hb
      rcases hb with rfl | rfl
      · refine readsBack_iax rfl fun e he => ?_
        obtain rfl := List.mem_singleton.mp he
        exact fits_u32 _ _
      · exact readsBack_plain rfl
  | call k x =>
    simp only [builds, htarget]
    split
    next c live =>
      refine call_builds_read (md5Response_fits md5 · s.cfg.secret) fun token hx => ?_
      subst hx
      obtain ⟨dg, f, _, decoded, hroute⟩ := (target_eq_call htarget).2
      obtain ⟨tok, found, _, ⟨_, _, hr⟩ | ⟨k', c', live', hdir, _, _, hr⟩⟩ :=
        tokenRoute_some (tokenRoute_of_route hroute (.inr ⟨k, token, rfl⟩))
      · cases hr
      · cases hr
        cases live.symm.trans live'
        exact ⟨fits_of_decode decoded tok (List.mem_of_find?_eq_some found),
          newCallIes_fits h.username (h.peer k c live hdir)⟩
    next => exact nothing_reads
  | elsewhere =>
    simp only [builds, htarget]
    split
    next dg _ =>
      split
      next f decoded => exact service_builds_read h decoded i
      next => exact nothing_reads
    next => exact nothing_reads

/-! ## Every run -/

/-- Only a call token that was received is kept. -/
theorem calltoken_step {i : Invocation} (wf : s.WellFormed) (step : Step md5 s i s')
    (h : ∀ token, s.calltoken = some token → token.length ≤ 255) :
    ∀ token, s'.calltoken = some token → token.length ≤ 255 := by
  have same (eq : s'.calltoken = s.calltoken) : ∀ token, s'.calltoken = some token →
      token.length ≤ 255 := by
    rw [eq]
    exact h
  have gone (eq : s'.calltoken = none) : ∀ token, s'.calltoken = some token →
      token.length ≤ 255 := by
    rw [eq]
    exact fun _ given => by cases given
  cases step.reg wf with
  | untouched _ effect => exact same effect.same.calltoken
  | token _ decoded route effect =>
    obtain ⟨tok, found, _, ⟨_, _, hr⟩ | ⟨_, _, _, _, _, _, hr⟩⟩ :=
      tokenRoute_some (tokenRoute_of_route route (.inl ⟨_, rfl⟩))
    · cases hr
      intro token given
      rw [effect] at given
      cases given
      exact fits_of_decode decoded tok (List.mem_of_find?_eq_some found)
    · cases hr
  | @frame _ f _ _ _ effect =>
    have after := (onRegFrame_state md5 s f i.now i.clock).2
    rw [← effect] at after
    split at after
    · exact gone after
    · exact same after
  | timeout _ effect =>
    have after := (handleTimeout_state s i.now i.clock).2
    rw [← effect] at after
    split at after
    · exact gone after
    · exact same after

theorem textsFit_step {i : Invocation} {past : List Move} (wf : s.WellFormed)
    (step : Step md5 s i s') (dials : DialFits ⟨s, i, s'⟩ past) (h : s.TextsFit) :
    s'.TextsFit where
  username := (Step.outcome step).account.1 ▸ h.username
  calltoken := calltoken_step wf step h.calltoken
  peer k c' live' hdir := by
    cases (Step.outcome step).entryStep live' with
    | kept live _ _ _ => exact h.peer k c' live hdir
    | @aged c live _ _ entry =>
      subst entry
      exact h.peer k c live hdir
    | @reacted c x live _ stays =>
      obtain rfl := Reaction_kept_some stays
      rw [(reaction_state ..).2.1] at hdir
      rw [(reaction_state ..).2.2]
      exact h.peer k c live hdir
    | @opened o target _ entry =>
      subst entry
      cases o with
      | dial number => exact dials number (op_of_dial target)
      | incoming f => cases hdir

theorem textsFit_run {cfg : Config} {past : List Move} (run : (system md5 cfg).Run past s)
    (username : TextFits cfg.username) (dials : Always DialFits past) : s.TextsFit := by
  refine run.invariant_under (I := fun _ s => s.TextsFit) (fun s init => ?_)
    (fun past s i s' run step dials h => textsFit_step (wellFormed_run run) step dials h) dials
  obtain ⟨now, rfl⟩ := init
  exact {
    username := username
    calltoken := fun _ given => by cases given
    peer := fun _ _ live => by cases live }

/-- The datagram repeats a frame that an earlier step built, and is read with its elements. -/
def CopiesBuilt (md5 : Md5) (past : List Move) (dg : Bytes) : Prop :=
  ∃ t ∈ past, ∃ b ∈ t.pre.builds md5 t.label, dg = setRetransmit b.bytes ∧
    ∃ f, FullFrame.decode dg = some f ∧ f.ies = b.ies

/-- The full frames of the transition are those that it builds, which are read with the elements
they were built with, and after them copies of such frames. -/
def WellBuilt (md5 : Md5) (t : Move) (past : List Move) : Prop :=
  (∀ b ∈ t.pre.builds md5 t.label, ReadsBack b) ∧
    ∃ copies, t.Emits md5 copies ∧ ∀ dg ∈ copies, CopiesBuilt md5 past dg

/-- What is tracked was built. -/
theorem built_of_tracks {k : UInt16} {dg : Bytes} {past : List Move} {t : Move} (ht : t ∈ past)
    (tracks : Tracks k dg t) (built : Always (WellBuilt md5) past) :
    ∃ b ∈ t.pre.builds md5 t.label, dg = b.bytes ∧ ReadsBack b := by
  obtain ⟨before, reads, copies, emits, copied⟩ := built.of_mem ht
  obtain ⟨hd, read, _, first, _⟩ := tracks.header
  have sent : dg ∈ t.fulls := List.mem_filter.mpr ⟨tracks.sent, isFullFrame_of_read read⟩
  rw [emits] at sent
  rcases List.mem_append.mp sent with h | h
  · obtain ⟨b, hb, rfl⟩ := List.mem_map.mp h
    exact ⟨b, hb, rfl, reads b hb⟩
  · -- a copy has the R bit
    obtain ⟨_, _, b, _, rfl, _⟩ := copied dg h
    rw [Header.read_setRetransmit, Option.map_eq_some_iff] at read
    obtain ⟨_, _, rfl⟩ := read
    cases first

theorem wellBuilt_step {i : Invocation} {past : List Move} (wf : s.WellFormed)
    (step : Step md5 s i s') (fits : s.TextsFit) (dials : DialFits ⟨s, i, s'⟩ past)
    (lives : ∀ k, ∀ o ∈ s.window k, ∃ sent, Life k past o sent)
    (built : Always (WellBuilt md5) past) : WellBuilt md5 ⟨s, i, s'⟩ past := by
  obtain ⟨copies, emits, entries⟩ := emits_step wf step
  refine ⟨builds_read fits dials, copies, emits, fun dg hdg => ?_⟩
  obtain ⟨k, o, ho, rfl⟩ := entries dg hdg
  obtain ⟨sent, life⟩ := lives k o ho
  obtain ⟨t, ht, tracks, _⟩ := life.first
  obtain ⟨b, hb, bytes, f, decoded, ies⟩ := built_of_tracks ht tracks built
  refine ⟨t, ht, b, hb, by rw [bytes], { f with retransmit := true }, ?_, ies⟩
  rw [bytes, decode_setRetransmit, decoded, Option.map_some]

/-- Along every run of an account whose username fits an element, and in which every number that is
dialled fits one, every full frame that leaves is read back with the elements it was built with. -/
theorem wellBuilt_run {cfg : Config} {past : List Move} (run : (system md5 cfg).Run past s)
    (username : TextFits cfg.username) (dials : Always DialFits past) :
    Always (WellBuilt md5) past := by
  induction run with
  | start _ => trivial
  | @step past s s' i run step ih =>
    have before := ih dials.2
    exact ⟨wellBuilt_step (wellFormed_run run) step (textsFit_run run username dials.2) dials.1
      (lives_run run) before, before⟩

/-- A registration with its copies, and a call. -/
theorem wellBuilt_sample :
    let is : List Invocation := [{ op := .handleTimeout },
      { op := .handleTimeout, now := 700000000 }, Sample.command (.dial "200")]
    Always (WellBuilt Sample.md5) (Sample.trace is) := by
  intro is
  refine wellBuilt_run (Sample.run is (by decide)) (by decide) ⟨?_, ?_, ?_, trivial⟩
  · intro number op
    cases op
    decide
  · exact fun _ op => by cases op
  · exact fun _ op => by cases op

/-- The NEW for a number of 256 digits is not read back: no element that is read is that long. -/
theorem long_number_breaks_new :
    ¬ ∀ {past : List Move} {s : PbxClient}, (system Sample.md5 Sample.cfg).Run past s →
      Always (WellBuilt Sample.md5) past := by
  intro law
  obtain ⟨number, long⟩ : ∃ number, ¬ TextFits number :=
    ⟨String.ofList (List.replicate 256 '0'), by decide +kernel⟩
  have calls : ∀ i ∈ [Sample.command (.dial number)], i.op ≠ .rehash := by simp [Sample.command]
  have built := (law (Sample.run _ calls)).1
  obtain ⟨f, decoded, ies⟩ := built.1 _ List.mem_cons_self
  have called : Ie.str IeKind.calledNumber number ∈ f.ies := by
    rw [ies]
    iterate 6 apply List.mem_cons_of_mem
    exact List.mem_cons_self
  exact long (fits_of_decode decoded _ called)

end PbxClient

end Iax2
