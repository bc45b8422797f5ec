import Iax2.Laws.Allocation
import Iax2.Laws.Elements
import Iax2.Laws.Handshake

/-!
# The request of an outgoing call

`dial` sends a NEW. A PBX that wants to see the caller's address first answers it with a call token,
and the caller sends the NEW again, with the token in the place of its empty element. The client
does not keep the NEW: it builds it again, from the account and the number that the call keeps.

The NEW that it builds is the first one of the call, from a leg as a new one, and the leg then has
this NEW in its window and nothing else (`request_repeated`). Which other calls there are, and in
which order the table holds them, does not matter.
-/

namespace Iax2.PbxClient

variable {s s' : PbxClient} {md5 : Md5}

/-! ## The first request -/

/-- The first datagram of the call `k`, since it was last opened. -/
def firstSent (k : UInt16) : List Move → Option Bytes
  | [] => none
  | t :: past => if t.allocated = some k then t.pushed.head? else firstSent k past

/-- The NEW of an outgoing call `k` with the elements `ies`, on a new leg. -/
def request (k : UInt16) (ts : UInt32) (ies : List Ie) : FullFrame :=
  ((Leg.new k).build ts Frametype.iax Iax.new ies).1

/-- The first datagram of every outgoing call is the NEW for its number. -/
def Requested (past : List Move) (s : PbxClient) : Prop :=
  ∀ k c, s.calls.lookup k = some c → c.dir = .outbound →
    ∃ ts, firstSent k past = some (request k ts (s.newCallIes c.peer)).encode

theorem not_allocated {t : Move} {k : UInt16} {T : Target} (target : t.pre.target t.label.op = T)
    (other : ∀ o, T ≠ .opening o) : t.allocated ≠ some k := by
  intro allocated
  obtain ⟨o, opening, _⟩ := Move.allocated_eq_some allocated
  exact other o (target.symm.trans opening)

/-- A step keeps the first datagram of the calls that it does not open, and their numbers. -/
theorem requested_step {i : Invocation} {past : List Move} (step : Step md5 s i s')
    (h : Requested past s) : Requested (⟨s, i, s'⟩ :: past) s' := by
  intro k c' live' hdir
  have outcome := Step.outcome step
  have cfg : ∀ number, s'.newCallIes number = s.newCallIes number := fun number => by
    simp only [newCallIes, outcome.account.1]
  have same {c : CallLeg} (live : s.calls.lookup k = some c) (dir : c.dir = .outbound)
      (peer : c'.peer = c.peer) (other : Move.allocated ⟨s, i, s'⟩ ≠ some k) :
      ∃ ts, firstSent k (⟨s, i, s'⟩ :: past) =
        some (request k ts (s'.newCallIes c'.peer)).encode := by
    rw [firstSent, if_neg other, cfg, peer]
    exact h k c live dir
  cases outcome.entryStep live' with
  | kept live _ _ notOpened =>
    refine same live hdir rfl fun allocated => ?_
    obtain ⟨o, opening, number⟩ := Move.allocated_eq_some allocated
    exact notOpened o opening number
  | aged live target _ entry =>
    subst entry
    exact same live hdir rfl (not_allocated target (by simp))
  | reacted live target stays =>
    obtain rfl := Reaction_kept_some stays
    obtain ⟨_, dir, peer⟩ := reaction_state md5 s i k _ _
    exact same live (dir.symm.trans hdir) peer (not_allocated target (by simp))
  | @opened o target number entry =>
    subst number entry
    cases o with
    | incoming f => cases hdir
    | dial number =>
      have opened : Move.allocated ⟨s, i, s'⟩ = some s.allocCallno.1 := by
        simp only [Move.allocated, target]
      refine ⟨s.ts i.clock, ?_⟩
      rw [firstSent, if_pos opened, cfg]
      show (s.pushed s').head? = _
      rw [(outcome.to_opened target).sent]
      rfl

theorem requested_run {cfg : Config} {past : List Move} (run : (system md5 cfg).Run past s) :
    Requested past s := by
  induction run with
  | start init =>
    obtain ⟨now, rfl⟩ := init
    intro k c live
    cases live
  | step _ step ih => exact requested_step step ih

/-! ## The request with the token -/

/-- The element, with the token if it is a CALLTOKEN. -/
def retoken (token : Bytes) (e : Ie) : Ie :=
  if e.kind = IeKind.calltoken then ⟨IeKind.calltoken, token⟩ else e

/-- The token takes the place of the only CALLTOKEN of a NEW. -/
theorem withToken_newCallIes (token : Bytes) (s : PbxClient) (number : String) :
    withToken token (s.newCallIes number) = (s.newCallIes number).map (retoken token) :=
  rfl

/-- A request whose elements fit reads back. -/
theorem decode_request {k : UInt16} {ts : UInt32} {ies : List Ie} (hin : InCycle k)
    (fits : ∀ e ∈ ies, e.Fits) :
    FullFrame.decode (request k ts ies).encode = some (request k ts ies) := by
  have range := (inCycle_iff k).mp hin
  refine FullFrame.Fits.decode_encode ⟨?_, show (0 : UInt16) < 0x8000 from by decide,
    show Iax.new < 0x80 from by decide⟩ rfl rfl fits
  exact UInt16.lt_iff_toNat_lt.mpr (Nat.lt_of_le_of_lt range.2 (by decide))

/-- The call `k` repeats its request with the token. It sends the NEW that it sent first, with the
token as its CALLTOKEN, and has this frame alone in its window. Nothing else changes, of the call,
of the other calls, and of the registration. -/
structure RequestRepeated (past : List Move) (k : UInt16) (c : CallLeg) (token : Bytes)
    (s s' : PbxClient) : Prop where
  sent : ∃ out g first f₀, s.pushed s' = [out] ∧ FullFrame.decode out = some g ∧
    g.frametype = Frametype.iax ∧ g.subclass = Iax.new ∧ g.srcCall = k ∧ g.dstCall = 0 ∧
    g.oseq = 0 ∧ g.iseq = 0 ∧ firstSent k past = some first ∧ FullFrame.decode first = some f₀ ∧
    f₀.frametype = Frametype.iax ∧ f₀.subclass = Iax.new ∧ g.ies = f₀.ies.map (retoken token)
  window : ∃ c' o, s'.calls.lookup k = some c' ∧ c' = { c with leg := c'.leg } ∧
    c'.leg.outstanding = [o] ∧ s.pushed s' = [o.bytes]
  others : ∀ j, j ≠ k → s'.calls.lookup j = s.calls.lookup j
  rest : s' = { s with calls := s'.calls, out := s'.out }

/-- In every reachable state, a token for an outgoing call that waits for one makes it repeat its
request. -/
theorem request_repeated {cfg : Config} {past : List Move} (run : (system md5 cfg).Run past s)
    {k : UInt16} {c : CallLeg} (live : s.calls.lookup k = some c) (dir : c.dir = .outbound)
    (state : c.state = .trying) (username : TextFits cfg.username) (number : TextFits c.peer)
    {dg : Bytes} {f : FullFrame} (decoded : FullFrame.decode dg = some f) (dst : f.dstCall = k)
    {tok : Ie} (found : Ie.find f.ies IeKind.calltoken = some tok) (given : tok.data ≠ [])
    (now clock : Instant) :
    RequestRepeated past k c tok.data s (s.handleInput md5 dg now clock) := by
  subst dst
  have wf := wellFormed_run run
  have hin := wf.live_inCycle live
  have short : tok.data.length ≤ 255 := fits_of_decode decoded tok (Ie.find_eq_some found).1
  have fits : ∀ e ∈ s.newCallIes c.peer, e.Fits :=
    newCallIes_fits (by rw [cfg_run run]; exact username) number
  obtain ⟨ts, first⟩ := requested_run run f.dstCall c live dir
  let r := c.resendNew (withToken tok.data (s.newCallIes c.peer)) (s.ts clock) now
  let g := request f.dstCall (s.ts clock) (withToken tok.data (s.newCallIes c.peer))
  have handled : s.handleInput md5 dg now clock = s.react f.dstCall r := by
    rw [(handleInput_full decoded md5 s now clock).1, onFull,
      route_newToken wf live dir state found given]
    simp only [resendNewWithToken, onCall, live]
    rfl
  have built : (c.leg.reset.build (s.ts clock) Frametype.iax Iax.new
      (withToken tok.data (s.newCallIes c.peer))).1 = g := by
    show FullFrame.new c.leg.localNo 0 _ _ _ _ _ _ = _
    rw [wf.localNo live]
    rfl
  have effect := react_touched live none r
  have sent : s.pushed (s.react f.dstCall r) = [g.encode] := by
    rw [← built]
    exact effect.sent
  rw [handled]
  exact {
    sent := ⟨_, g, _, request f.dstCall ts (s.newCallIes c.peer), sent,
      decode_request hin (withToken_fits short fits), rfl, rfl, rfl, rfl, rfl, rfl, first,
      decode_request hin fits, rfl, rfl, withToken_newCallIes tok.data s c.peer⟩
    window := ⟨_, _, (effect.calls _).trans (if_pos rfl), rfl, rfl, effect.sent⟩
    others := fun j hj => (effect.calls j).trans (if_neg hj)
    rest := by
      show { s with calls := _, out := _, events := s.events ++ [] } = _
      rw [List.append_nil]
      rfl }

/-- A token for the first call. -/
theorem request_repeated_sample :
    let is := [Sample.command (.dial "200")]
    let f := Sample.tokenFrame 42 16
    ∃ c, (Sample.after is).calls.lookup 16 = some c ∧
      RequestRepeated (Sample.trace is) 16 c [0x61] (Sample.after is)
        ((Sample.after is).handleInput Sample.md5 f.encode 0 0) := by
  intro is f
  have run := Sample.run is (by decide)
  have decoded : FullFrame.decode f.encode = some f := by decide
  have waits : ((Sample.after is).calls.lookup 16).any
      (fun c => c.dir = .outbound ∧ c.state = .trying ∧ c.peer = "200") = true := by decide
  obtain ⟨c, live, waits⟩ := (Option.any_eq_true _ _).mp waits
  obtain ⟨dir, state, peer⟩ := of_decide_eq_true waits
  have found : Ie.find f.ies IeKind.calltoken = some ⟨IeKind.calltoken, [0x61]⟩ := by decide
  exact ⟨c, live, request_repeated run live dir state (by decide) (peer ▸ by decide) decoded rfl
    found (by decide) 0 0⟩

end Iax2.PbxClient
