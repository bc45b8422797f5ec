import Iax2.Laws.Codec
import Iax2.Laws.Handshake

/-!
# The secret

Two clients whose accounts differ in the secret alone, driven alike, differ in nothing else as long
as the secrets answer alike every challenge that is answered (`withSecret_apply`). Which challenges
are answered is the point: an AUTHREQ must be of type IAX, a REGAUTH need not. So it is enough that
the secrets answer alike the challenges of REGAUTH and AUTHREQ frames, exactly if they also do for
frames of another type that are taken for a REGAUTH (`secret_run`).

The two clients are one system. Its states are pairs, and its steps are those that both make with
the same label. The tables of both are hashed alike: a rehash brings equal tables to one order.
-/

namespace Iax2.PbxClient

variable {s s' : PbxClient} {md5 : Md5} {secret : String}

/-- The client with another secret. -/
def withSecret (s : PbxClient) (secret : String) : PbxClient :=
  { s with cfg := { s.cfg with secret } }

/-! ## What reads no secret -/

theorem dropCall_withSecret (call : UInt16) (reason : String) :
    (s.withSecret secret).dropCall call reason = (s.dropCall call reason).withSecret secret := by
  have same : (s.withSecret secret).calls.lookup call = s.calls.lookup call := rfl
  unfold dropCall
  rw [same]
  cases s.calls.lookup call <;> rfl

theorem react_withSecret (call : UInt16) (r : Reaction) :
    (s.withSecret secret).react call r = (s.react call r).withSecret secret := by
  obtain ⟨fate, sent, events⟩ := r
  cases fate with
  | keep c => rfl
  | drop c reason =>
    exact dropCall_withSecret (s := s.react call ⟨.keep c, sent, events⟩) call reason

theorem onCall_withSecret (call : UInt16) (r : CallLeg → Reaction) :
    (s.withSecret secret).onCall call r = (s.onCall call r).withSecret secret := by
  have same : (s.withSecret secret).calls.lookup call = s.calls.lookup call := rfl
  unfold onCall
  rw [same]
  cases s.calls.lookup call with
  | none => rfl
  | some c => exact react_withSecret call (r c)

theorem keepalive_withSecret (now clock : Instant) :
    (s.withSecret secret).keepalive now clock = (s.keepalive now clock).withSecret secret := by
  rw [keepalive, keepalive, apply_ite (withSecret · secret)]
  rfl

theorem retransmitReg_withSecret (now : Instant) :
    (s.withSecret secret).retransmitReg now = (s.retransmitReg now).withSecret secret := by
  rw [retransmitReg, retransmitReg, apply_ite (withSecret · secret)]
  rfl

theorem retransmitCalls_withSecret (now : Instant) :
    (s.withSecret secret).retransmitCalls now = (s.retransmitCalls now).withSecret secret := by
  have drops (dead : List UInt16) (s : PbxClient) :
      dead.foldl (fun s call => s.dropCall call "reliability timeout") (s.withSecret secret) =
        (dead.foldl (fun s call => s.dropCall call "reliability timeout") s).withSecret secret := by
    induction dead generalizing s with
    | nil => rfl
    | cons call dead ih => rw [List.foldl_cons, List.foldl_cons, dropCall_withSecret, ih]
  exact drops _ { s with
    calls := s.calls.mapValues (·.expire now), out := s.out ++ s.callCopies now }

theorem handleTimeout_withSecret (now clock : Instant) :
    (s.withSecret secret).handleTimeout now clock =
      (s.handleTimeout now clock).withSecret secret := by
  have start : (if s.reg.outstanding = [] ∧ s.nextReg ≤ now then
      (s.withSecret secret).startRegistration now clock else s.withSecret secret) =
      (if s.reg.outstanding = [] ∧ s.nextReg ≤ now then
        s.startRegistration now clock else s).withSecret secret := by
    rw [apply_ite (withSecret · secret)]
    rfl
  rw [handleTimeout_eq, handleTimeout_eq, ← retransmitCalls_withSecret, beforeCalls, beforeCalls,
    ← retransmitReg_withSecret, ← keepalive_withSecret]
  exact congrArg (fun s => ((s.keepalive now clock).retransmitReg now).retransmitCalls now) start

theorem handleCommand_withSecret (cmd : Command) (now clock : Instant) :
    (s.withSecret secret).handleCommand cmd now clock =
      (s.handleCommand cmd now clock).withSecret secret := by
  cases cmd with
  | dial number => rfl
  | dtmf call digit =>
    simp only [handleCommand, sendDtmf]
    split
    · rfl
    · exact onCall_withSecret _ _
  | _ => exact onCall_withSecret _ _

theorem route_withSecret (f : FullFrame) : (s.withSecret secret).route f = s.route f := rfl

theorem onMini_withSecret (m : MiniFrame) :
    (s.withSecret secret).onMini m = (s.onMini m).withSecret secret := by
  have same : (s.withSecret secret).remoteIndex.lookup m.srcCall =
      s.remoteIndex.lookup m.srcCall := rfl
  unfold onMini
  rw [same]
  cases s.remoteIndex.lookup m.srcCall with
  | none => rfl
  | some call => exact onCall_withSecret call _

theorem onOffLeg_withSecret (f : FullFrame) :
    (s.withSecret secret).onOffLeg f = (s.onOffLeg f).withSecret secret := by
  rw [onOffLeg, onOffLeg, apply_ite (withSecret · secret)]
  rfl

/-! ## What reads it -/

/-- The secrets answer the challenge alike. -/
def AnswersAlike (md5 : Md5) (secret secret' chal : String) : Prop :=
  md5Response md5 chal secret = md5Response md5 chal secret'

/-- The frame offers MD5 for the challenge. -/
def Offers (f : FullFrame) (chal : String) : Prop :=
  f.authmethods &&& Authmethod.md5 ≠ 0 ∧ f.challenge = some chal

/-- A frame on the registration leg is handled alike, if it is no REGAUTH by its subclass, or the
secrets answer its challenge alike. -/
theorem onRegFrame_withSecret {f : FullFrame}
    (alike : ∀ chal, regKind f = .regauth → Offers f chal →
      AnswersAlike md5 s.cfg.secret secret chal)
    (now clock : Instant) :
    (s.withSecret secret).onRegFrame md5 f now clock =
      (s.onRegFrame md5 f now clock).withSecret secret := by
  have answers (chal : String) (kind : regKind f = .regauth) (offers : Offers f chal) :
      md5Response md5 chal (s.withSecret secret).cfg.secret =
        md5Response md5 chal s.cfg.secret := (alike chal kind offers).symm
  simp only [onRegFrame]
  cases kind : regKind f with
  | regauth =>
    simp only
    by_cases md5Offered : f.authmethods &&& Authmethod.md5 = 0
    · rw [if_pos md5Offered, if_pos md5Offered]
      rfl
    · rw [if_neg md5Offered, if_neg md5Offered]
      cases given : f.challenge with
      | none => rfl
      | some chal =>
        simp only
        rw [answers chal kind ⟨md5Offered, given⟩]
        rfl
  | _ => rfl

/-- A frame on the leg of a call is answered alike, if it is no AUTHREQ for an outgoing call, or the
secrets answer its challenge alike. -/
theorem onFrame_respond {respond respond' : String → String} {f : FullFrame} {c : CallLeg}
    (alike : ∀ chal, f.callKind c.dir = .authreq → Offers f chal → respond chal = respond' chal)
    (call : UInt16) (ts : UInt32) (now : Instant) :
    c.onFrame respond call f ts now = c.onFrame respond' call f ts now := by
  have hdir : (c.noteFrame f).dir = c.dir := rfl
  simp only [CallLeg.onFrame, hdir]
  cases kind : f.callKind c.dir with
  | authreq =>
    simp only
    by_cases md5Offered : f.authmethods &&& Authmethod.md5 = 0
    · rw [if_pos md5Offered, if_pos md5Offered]
    · rw [if_neg md5Offered, if_neg md5Offered]
      cases given : f.challenge with
      | none => rfl
      | some chal => simp only [alike chal kind ⟨md5Offered, given⟩]
  | _ => rfl

/-- The frame has its challenge answered: it is an AUTHREQ for an outgoing call, or it is on the
registration leg with the subclass of a REGAUTH. -/
def Answered (s : PbxClient) (f : FullFrame) : Prop :=
  s.route f = .reg ∧ regKind f = .regauth ∨
  ∃ c, s.route f = .call c ∧ f.callKind c.dir = .authreq

theorem onFull_withSecret {f : FullFrame}
    (alike : ∀ chal, s.Answered f → Offers f chal → AnswersAlike md5 s.cfg.secret secret chal)
    (now clock : Instant) :
    (s.withSecret secret).onFull md5 f now clock =
      (s.onFull md5 f now clock).withSecret secret := by
  unfold onFull
  rw [route_withSecret]
  cases route : s.route f with
  | newToken call token => exact onCall_withSecret call _
  | reg =>
    exact onRegFrame_withSecret (fun chal kind => alike chal (.inl ⟨route, kind⟩)) now clock
  | call c =>
    have same : c.onFrame (md5Response md5 · (s.withSecret secret).cfg.secret) f.dstCall f
        (s.ts clock) now =
      c.onFrame (md5Response md5 · s.cfg.secret) f.dstCall f (s.ts clock) now :=
      onFrame_respond
        (fun chal kind offers => (alike chal (.inr ⟨c, route, kind⟩) offers).symm) _ _ _
    have claimed (s₀ : PbxClient) (r : Reaction) :
        (if f.srcCall ≠ 0 then { s₀.withSecret secret with
            remoteIndex := s₀.remoteIndex.insert f.srcCall f.dstCall }
          else s₀.withSecret secret).react f.dstCall r =
        ((if f.srcCall ≠ 0 then { s₀ with
            remoteIndex := s₀.remoteIndex.insert f.srcCall f.dstCall }
          else s₀).react f.dstCall r).withSecret secret := by
      rw [← react_withSecret, apply_ite (withSecret · secret)]
      rfl
    simp only [onCallFrame]
    rw [← claimed]
    exact congrArg _ same
  | offLeg => exact onOffLeg_withSecret f
  | _ => rfl

/-- The operation hands over a challenge that is answered. -/
def Asks (s : PbxClient) (op : Op) (chal : String) : Prop :=
  ∃ dg f, op = .handleInput dg ∧ FullFrame.decode dg = some f ∧ s.Answered f ∧ Offers f chal

/-- A call of the driver has the same effect with another secret, if both answer alike what it
asks. -/
theorem withSecret_apply {i : Invocation}
    (alike : ∀ chal, s.Asks i.op chal → AnswersAlike md5 s.cfg.secret secret chal) :
    (s.withSecret secret).apply md5 i = (s.apply md5 i).withSecret secret := by
  cases op : i.op with
  | handleTimeout =>
    simp only [apply, op]
    exact handleTimeout_withSecret i.now i.clock
  | handleCommand cmd =>
    simp only [apply, op]
    exact handleCommand_withSecret cmd i.now i.clock
  | handleInput dg =>
    simp only [apply, op, handleInput]
    split
    next =>
      cases decoded : FullFrame.decode dg with
      | none => rfl
      | some f =>
        exact onFull_withSecret
          (fun chal answered offers => alike chal ⟨dg, f, op, decoded, answered, offers⟩) _ _
    next =>
      cases MiniFrame.decode dg with
      | none => rfl
      | some m => exact onMini_withSecret m
  | pollTransmit => simp only [apply, op, pollTransmit, withSecret]
  | pollEvent => simp only [apply, op, pollEvent, withSecret]
  | rehash => simp only [apply, op]

/-! ## Two clients -/

/-- The tables of both iterate over their keys in the same order. -/
def SameOrder (s s' : PbxClient) : Prop :=
  s'.calls.keys = s.calls.keys ∧ s'.remoteIndex.keys = s.remoteIndex.keys

/-- Both clients make a step with the same label. A rehash does not tell them apart. -/
structure TwinStep (md5 : Md5) (p : PbxClient × PbxClient) (i : Invocation)
    (p' : PbxClient × PbxClient) : Prop where
  first : Step md5 p.1 i p'.1
  second : Step md5 p.2 i p'.2
  hashing : i.op = .rehash → p.1.SameOrder p.2 → p'.1.SameOrder p'.2

/-- Two clients that are made at the same time, for one account and two secrets. -/
def twins (md5 : Md5) (cfg : Config) (secret : String) :
    System (PbxClient × PbxClient) Invocation where
  init p := ∃ now, p = (new cfg now, new { cfg with secret } now)
  step := TwinStep md5

/-- The two clients are in the same state apart from the secret, and have sent and reported the
same. -/
structure Alike (secret : String) (t : Transition (PbxClient × PbxClient) Invocation) : Prop where
  states : t.post.2 = t.post.1.withSecret secret
  sent : t.pre.2.pushed t.post.2 = t.pre.1.pushed t.post.1
  events : t.pre.2.emitted t.post.2 = t.pre.1.emitted t.post.1

/-- The operation hands over a REGAUTH or an AUTHREQ that offers MD5 for the challenge. -/
def Challenges (op : Op) (chal : String) : Prop :=
  ∃ dg f, op = .handleInput dg ∧ FullFrame.decode dg = some f ∧ f.frametype = Frametype.iax ∧
    (f.subclass = Iax.regauth ∨ f.subclass = Iax.authreq) ∧ Offers f chal

/-- The operation hands over a frame that is not of type IAX and is taken for a REGAUTH that offers
MD5 for the challenge. -/
def Mistaken (s : PbxClient) (op : Op) (chal : String) : Prop :=
  ∃ dg f, op = .handleInput dg ∧ FullFrame.decode dg = some f ∧ f.frametype ≠ Frametype.iax ∧
    s.route f = .reg ∧ f.subclass = Iax.regauth ∧ Offers f chal

/-- What is asked is a challenge, or is taken for one. -/
theorem asks_cases {op : Op} {chal : String} (h : s.Asks op chal) :
    Challenges op chal ∨ s.Mistaken op chal := by
  obtain ⟨dg, f, hop, decoded, ⟨route, kind⟩ | ⟨c, _, kind⟩, offers⟩ := h
  · have sc : f.subclass = Iax.regauth := by
      by_contra other
      simp only [regKind, other, if_false] at kind
      repeat' split at kind
      all_goals cases kind
    by_cases ft : f.frametype = Frametype.iax
    · exact .inl ⟨dg, f, hop, decoded, ft, .inl sc, offers⟩
    · exact .inr ⟨dg, f, hop, decoded, ft, route, sc, offers⟩
  · have takes := f.callKind_takes c.dir
    rw [kind] at takes
    exact .inl ⟨dg, f, hop, decoded, takes.1, .inr takes.2.1, offers⟩

/-- Two clients in the same state stay so, if the secrets answer alike what is asked. -/
theorem TwinStep.alike {p p' : PbxClient × PbxClient} {i : Invocation} (step : TwinStep md5 p i p')
    (same : p.2 = p.1.withSecret secret)
    (answers : ∀ chal, p.1.Asks i.op chal → AnswersAlike md5 p.1.cfg.secret secret chal) :
    Alike secret ⟨p, i, p'⟩ := by
  obtain ⟨s, s₂⟩ := p
  obtain ⟨s', s₂'⟩ := p'
  obtain rfl : s₂ = s.withSecret secret := same
  have states : s₂' = s'.withSecret secret := by
    obtain ⟨first, second, hashing⟩ := step
    simp only at first second hashing
    cases first with
    | call notRehash =>
      cases second with
      | call _ => exact withSecret_apply answers
      | rehash rehash _ => exact absurd rehash notRehash
    | rehash rehash reordered =>
      cases second with
      | call notRehash => exact absurd rehash notRehash
      | rehash _ reordered₂ =>
        obtain ⟨calls, index, hcalls, hindex, rfl⟩ := reordered
        obtain ⟨calls₂, index₂, hcalls₂, hindex₂, rfl⟩ := reordered₂
        obtain ⟨keys, indexKeys⟩ := hashing rehash ⟨rfl, rfl⟩
        obtain rfl := hcalls₂.unique hcalls keys
        obtain rfl := hindex₂.unique hindex indexKeys
        rfl
  subst states
  exact ⟨rfl, rfl, rfl⟩

/-- A list of elements tells the text of each of them. -/
theorem text_of_encode (before : List Ie) {kind : UInt8} {a b : String} {after : List Ie}
    (h : Ie.encode (before ++ Ie.str kind a :: after) =
      Ie.encode (before ++ Ie.str kind b :: after)) : a = b := by
  simp only [Ie.encode, List.flatMap_append] at h
  have tail := List.append_cancel_left h
  rw [← Ie.encode, ← Ie.encode, Ie.encode_cons, Ie.encode_cons] at tail
  have data := List.append_cancel_right (List.cons.inj (List.cons.inj tail).2).2
  exact Bytes.ofText_injective data

/-- The answer to a challenge on the registration leg. -/
theorem onRegFrame_answer {f : FullFrame} {chal : String} (kind : regKind f = .regauth)
    (offers : Offers f chal) (md5 : Md5) (s : PbxClient) (now clock : Instant) :
    s.pushed (s.onRegFrame md5 f now clock) =
      [(((s.reg.noteRecv f).ackUpto f.iseq f.timestamp f.isAck).build (s.ts clock) Frametype.iax
        Iax.regreq (s.regIes.insertIdx 1
          (Ie.str IeKind.md5Result (md5Response md5 chal s.cfg.secret)))).1.encode] := by
  refine pushed_append ?_
  simp only [onRegFrame, kind, offers.1, if_false, offers.2]
  rfl

/-- Where a frame is taken for a challenge, what is sent tells the answers apart. -/
theorem answersAlike_of_sent {f : FullFrame} {chal : String} (kind : regKind f = .regauth)
    (offers : Offers f chal) {now clock : Instant}
    (sent : (s.withSecret secret).pushed ((s.withSecret secret).onRegFrame md5 f now clock) =
      s.pushed (s.onRegFrame md5 f now clock)) :
    AnswersAlike md5 s.cfg.secret secret chal := by
  rw [onRegFrame_answer kind offers, onRegFrame_answer kind offers] at sent
  have bytes := (List.cons.inj sent).1
  have body := List.append_cancel_left bytes
  exact (text_of_encode [Ie.str IeKind.username s.cfg.username] body).symm

/-- The account of the first client is that of the run. -/
theorem twins_account {cfg : Config} {past : List (Transition (PbxClient × PbxClient) Invocation)}
    {p : PbxClient × PbxClient} (run : (twins md5 cfg secret).Run past p) : p.1.cfg = cfg :=
  run.invariant (I := fun p => p.1.cfg = cfg)
    (fun _ init => by
      obtain ⟨now, rfl⟩ := init
      rfl)
    fun _ _ _ (step : TwinStep md5 _ _ _) h => (Step.outcome step.first).account.1.trans h

/-- Two clients whose accounts differ in the secret alone, driven alike. If the secrets answer alike
the challenge of every REGAUTH and AUTHREQ that is received and offers MD5, the clients send and
report the same, and are in the same state apart from the secret, exactly as long as the secrets
answer alike the challenges of the frames of another type that are taken for a REGAUTH. -/
theorem secret_run {cfg : Config} {past : List (Transition (PbxClient × PbxClient) Invocation)}
    {p : PbxClient × PbxClient} (run : (twins md5 cfg secret).Run past p)
    (agree : Always (fun t _ => ∀ chal, Challenges t.label.op chal →
      AnswersAlike md5 cfg.secret secret chal) past) :
    Always (fun t _ => Alike secret t) past ↔
      Always (fun t _ => ∀ chal, t.pre.1.Mistaken t.label.op chal →
        AnswersAlike md5 cfg.secret secret chal) past := by
  refine run.always_iff_under (fun past p i p' run step ⟨challenges, _⟩ before => ?_) agree
  have account := twins_account run
  have same : p.2 = p.1.withSecret secret := by
    refine run.reached (I := fun _ (p : PbxClient × PbxClient) => p.2 = p.1.withSecret secret)
      (fun p init => ?_) (before.imp fun _ _ alike => alike.states)
    obtain ⟨now, rfl⟩ := init
    rfl
  constructor
  · rintro alike chal ⟨dg, f, op, decoded, _, route, sc, offers⟩
    have kind : regKind f = .regauth := if_pos sc
    have first : p'.1 = p.1.onRegFrame md5 f i.now i.clock := by
      rw [step.first.full op decoded, onFull, route]
    have second : p'.2 = (p.1.withSecret secret).onRegFrame md5 f i.now i.clock := by
      rw [step.second.full op decoded, same, onFull, route_withSecret, route]
    have sent := alike.sent
    simp only [first, second, same] at sent
    exact account ▸ answersAlike_of_sent kind offers sent
  · intro mistaken
    refine step.alike same fun chal asks => ?_
    rw [account]
    rcases asks_cases asks with h | h
    · exact challenges chal h
    · exact mistaken chal h

/-- A challenge that both secrets answer alike, the digest being the same for all. -/
theorem secret_sample :
    let i := Sample.receive (Sample.regFrame 1 Iax.regauth
      [Ie.u16 IeKind.authmethods Authmethod.md5, Ie.str IeKind.challenge "1234"])
    let p := (new Sample.cfg 0, new { Sample.cfg with secret := "altro" } 0)
    let t : Transition (PbxClient × PbxClient) Invocation :=
      ⟨p, i, (p.1.apply Sample.md5 i, p.2.apply Sample.md5 i)⟩
    Always (fun t _ => Alike "altro" t) [t] ↔
      Always (fun t _ => ∀ chal, t.pre.1.Mistaken t.label.op chal →
        AnswersAlike Sample.md5 Sample.cfg.secret "altro" chal) [t] := by
  intro i p t
  have notRehash : i.op ≠ .rehash := by decide
  have run : (twins Sample.md5 Sample.cfg "altro").Run [t] t.post :=
    .step (.start ⟨0, rfl⟩) ⟨.call _ notRehash, .call _ notRehash, fun h => absurd h notRehash⟩
  exact secret_run run ⟨fun _ _ => rfl, trivial⟩

/-- A frame of type CONTROL with the subclass of REGAUTH makes a client tell its secret, without
any REGAUTH or AUTHREQ. -/
theorem control_frame_tells_secret :
    ¬ ∀ {md5 : Md5} {cfg : Config} {secret : String}
      {past : List (Transition (PbxClient × PbxClient) Invocation)} {p : PbxClient × PbxClient},
      (twins md5 cfg secret).Run past p →
      Always (fun t _ => ∀ chal, Challenges t.label.op chal →
        AnswersAlike md5 cfg.secret secret chal) past →
      Always (fun t _ => Alike secret t) past := by
  intro law
  -- a digest that tells how long its input is
  let md5 : Md5 := fun bytes => Vector.replicate 16 (UInt8.ofNat bytes.length)
  let f := FullFrame.new 42 callnoReg 0 0 1 Frametype.control Iax.regauth
    [Ie.u16 IeKind.authmethods Authmethod.md5, Ie.str IeKind.challenge "1234"]
  let i := Sample.receive f
  let p := (new Sample.cfg 0, new { Sample.cfg with secret := "altro" } 0)
  have notRehash : i.op ≠ .rehash := by decide
  have run : (twins md5 Sample.cfg "altro").Run
      [⟨p, i, (p.1.apply md5 i, p.2.apply md5 i)⟩] (p.1.apply md5 i, p.2.apply md5 i) :=
    .step (.start ⟨0, rfl⟩) ⟨.call _ notRehash, .call _ notRehash, fun h => absurd h notRehash⟩
  have none : ∀ chal, Challenges i.op chal → AnswersAlike md5 Sample.cfg.secret "altro" chal := by
    rintro chal ⟨dg, g, op, decoded, ft, _⟩
    cases op
    have control : FullFrame.decode f.encode = some f := by decide
    cases control.symm.trans decoded
    exact absurd ft (by decide)
  have sent := (law run ⟨none, trivial⟩).1.sent
  exact absurd sent (by decide)

end Iax2.PbxClient
