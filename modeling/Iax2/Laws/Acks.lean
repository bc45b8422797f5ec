import Mathlib.Logic.Function.Basic
import Iax2.Laws.Numbering

/-!
# The two ends of a leg

Two parties whose legs number, acknowledge and repeat their frames with the functions of `Leg`, and
a channel that loses, duplicates and reorders packets. The channel keeps every packet: delivering
it late is reordering, twice is duplication, never is loss. A retransmission is the packet once
more, since no leg reads the R bit.

Beside its leg an end carries what only an observer sees: how many numbers it has taken, which
numbers of the other end have arrived, and the places of the entries of its window. `AckSound` is
what acknowledgement is for: no frame is acknowledged, and none leaves the window, that has not
arrived. It does not hold of all runs. `noteRecv` takes the number of any frame for the next one
expected, that of an ACK, which it has borrowed from the frame to come, and that of a frame behind a
gap (`ack_acknowledges_unsent`, a run in which nothing is lost or out of order).

`ackSound_run` says in which runs it holds. The frames of each direction arrive in the order of their
numbers, and what comes late or twice is not too late for the windows (`Orderly.inOrder`,
`Orderly.recent`). And nothing that was sent after an ACK crosses the frame with the number that the
ACK has borrowed (`Orderly.turn`, `Orderly.apart`).
-/

namespace Iax2

/-! ## What a leg does -/

/-- What a leg does of its own accord: it builds a frame, and enters it into the window at an
instant or not, it acknowledges, or its timer fires. -/
inductive LegOp
  | build (ts : UInt32) (ft sc : UInt8) (ies : List Ie) (tracked : Option Instant)
  | ack (ts : UInt32)
  | expire (now : Instant)

namespace Leg

/-- The leg afterwards. -/
def act (l : Leg) : LegOp → Leg
  | .build ts ft sc ies none => (l.build ts ft sc ies).2
  | .build ts ft sc ies (some now) =>
    (l.build ts ft sc ies).2.trackReliable (l.build ts ft sc ies).1 now
  | .ack _ => l
  | .expire now => { l with outstanding := (Iax2.expire now l.outstanding).window }

/-- The frame that leaves. The copies of a timeout are frames that have left before. -/
def frame? (l : Leg) : LegOp → Option FullFrame
  | .build ts ft sc ies _ => some (l.build ts ft sc ies).1
  | .ack ts => some (l.ackFrame ts)
  | .expire _ => none

/-- The leg after a received frame. -/
def receive (l : Leg) (f : FullFrame) : Leg := (l.noteRecv f).ackUpto f.iseq f.timestamp f.isAck

/-- What leaves carries the next number expected. -/
theorem frame?_iseq {l : Leg} {op : LegOp} {f : FullFrame} (h : l.frame? op = some f) :
    f.iseq = l.iseq ∧ f.oseq = l.oseq := by
  cases op with
  | build ts ft sc ies tracked =>
    cases h
    exact ⟨rfl, rfl⟩
  | ack ts =>
    cases h
    exact ⟨rfl, rfl⟩
  | expire now => cases h

theorem act_iseq (l : Leg) (op : LegOp) : (l.act op).iseq = l.iseq := by
  cases op with
  | build ts ft sc ies tracked => cases tracked <;> rfl
  | _ => rfl

end Leg

/-! ## The ends and the channel -/

/-- The operation takes a number. -/
def LegOp.numbered : LegOp → Bool
  | .build _ _ _ _ _ => true
  | _ => false

inductive Side
  | here
  | there
  deriving DecidableEq, Repr

/-- The other side. -/
def Side.peer : Side → Side
  | .here => .there
  | .there => .here

@[simp] theorem Side.peer_peer (x : Side) : x.peer.peer = x := by cases x <;> rfl

theorem Side.peer_ne (x : Side) : x.peer ≠ x := by cases x <;> decide

theorem Side.eq_of_ne_peer {x y : Side} (h : y ≠ x.peer) : y = x := by
  cases x <;> cases y <;> first | rfl | exact absurd rfl h

/-- A frame on its way, with its numbers before they are cut to eight bits. -/
structure Packet where
  src : Side
  frame : FullFrame
  /-- it takes its number -/
  numbered : Bool
  number : Nat
  /-- the number it acknowledges up to, exclusive -/
  acks : Nat
  /-- the number that an ACK has borrowed, if its sender had received one last -/
  borrowed : Option Nat
  deriving DecidableEq

/-- An end of a leg. Only the leg is the program's. -/
structure Endpoint where
  leg : Leg
  /-- the numbers taken -/
  count : Nat
  /-- the number after that of the last packet received -/
  heard : Nat
  /-- the greatest that `heard` has been -/
  latest : Nat
  /-- the number of the last packet received, if it was an ACK, which takes none -/
  borrowed : Option Nat
  /-- the number up to which packets received have acknowledged, exclusive -/
  confirmed : Nat
  /-- the numbers of the other end that have arrived -/
  received : List Nat
  /-- the window with the places of its entries -/
  entries : List (Nat × Outstanding)

namespace Endpoint

def new (localNo : UInt16) : Endpoint :=
  { leg := Leg.new localNo, count := 0, heard := 0, latest := 0, borrowed := none, confirmed := 0
    received := [], entries := [] }

/-- The end after an operation of its leg. -/
def act (e : Endpoint) (op : LegOp) : Endpoint :=
  { e with
    leg := e.leg.act op
    count := if op.numbered then e.count + 1 else e.count
    entries :=
      match op with
      | .build ts ft sc ies (some now) =>
        let f := (e.leg.build ts ft sc ies).1
        e.entries ++ [(e.count, { oseq := f.oseq, ts := f.timestamp, bytes := f.encode,
                                  deadline := now + retxAfter, tries := 0 })]
      | .expire now => e.entries.map fun x => (x.1, x.2.aged now)
      | _ => e.entries }

/-- The packet of an operation of the end `x`. -/
def packet? (e : Endpoint) (x : Side) (op : LegOp) : Option Packet :=
  (e.leg.frame? op).map fun f =>
    { src := x, frame := f, numbered := op.numbered, number := e.count, acks := e.heard
      borrowed := e.borrowed }

/-- The end after a packet of the other end. -/
def receive (e : Endpoint) (p : Packet) : Endpoint :=
  { e with
    leg := e.leg.receive p.frame
    heard := p.number + 1
    latest := max e.latest (p.number + 1)
    borrowed := if p.numbered then none else some p.number
    confirmed := max e.confirmed p.acks
    received := if p.numbered then p.number :: e.received else e.received
    entries := e.entries.filter fun x =>
      !x.2.acked p.frame.iseq p.frame.timestamp p.frame.isAck }

end Endpoint

/-- Two ends, and every packet that has been sent. -/
structure Link where
  ends : Side → Endpoint
  sent : List Packet

inductive LinkOp
  | act (x : Side) (op : LegOp)
  | deliver (p : Packet)

namespace Link

def new (here there : UInt16) : Link where
  ends
    | .here => Endpoint.new here
    | .there => Endpoint.new there
  sent := []

def apply (l : Link) : LinkOp → Link
  | .act x op =>
    { ends := Function.update l.ends x ((l.ends x).act op)
      sent := ((l.ends x).packet? x op).toList ++ l.sent }
  | .deliver p =>
    { l with ends := Function.update l.ends p.src.peer ((l.ends p.src.peer).receive p) }

/-- Two ends that have sent nothing, and then do whatever they like; the channel delivers what it
likes of what was sent. -/
def system : System Link LinkOp where
  init l := ∃ here there, l = new here there
  step l op l' := (∀ p, op = .deliver p → p ∈ l.sent) ∧ l' = l.apply op

/-- The frames on their way, or lost: their numbers have not arrived. -/
def onWay (l : Link) : List Packet :=
  l.sent.filter fun q => q.numbered && decide (q.number ∉ (l.ends q.src.peer).received)

/-- Of either end fewer than `128 - d` frames are unacknowledged. -/
def Bounded (d : Nat) (l : Link) : Prop := ∀ x, (l.ends x).count + d < (l.ends x).confirmed + 128

/-! ## Sound acknowledgement -/

/-- The transition acknowledges nothing that has not arrived, and discards nothing from a window
that has not arrived. -/
structure AckSound (t : Transition Link LinkOp) : Prop where
  acknowledges : ∀ x op f, t.label = .act x op → (t.pre.ends x).leg.frame? op = some f →
    ∀ n < (t.pre.ends x.peer).count, n ∉ (t.pre.ends x).received →
      seqBefore (UInt8.ofNat n) f.iseq = false
  discards : ∀ x, ∀ e ∈ (t.pre.ends x).entries, e.1 ∉ (t.post.ends x).entries.map (·.1) →
    e.1 ∈ (t.post.ends x.peer).received

/-- What the channel keeps to, if a packet may come `d` numbers late, and what does not cross. -/
structure Orderly (d : Nat) (t : Transition Link LinkOp) : Prop where
  /-- no packet is delivered ahead of a frame that its sender numbered before it -/
  inOrder : ∀ p, t.label = .deliver p → ∀ q ∈ t.pre.onWay, q.src = p.src → p.number ≤ q.number
  /-- none is delivered more than `d` numbers behind the packets that were delivered before, by its
  own number or by the one that it acknowledges up to -/
  recent : ∀ p, t.label = .deliver p → (t.pre.ends p.src.peer).latest ≤ p.number + 1 + d ∧
    (t.pre.ends p.src.peer).confirmed ≤ p.acks + d
  /-- an end that has received an ACK last does not send while the frame with the number of the ACK
  is on its way to it -/
  turn : ∀ x op f, t.label = .act x op → (t.pre.ends x).leg.frame? op = some f →
    ∀ q ∈ t.pre.onWay, q.src = x.peer → (t.pre.ends x).borrowed ≠ some q.number
  /-- and what it sends is not delivered while that frame is -/
  apart : ∀ p, t.label = .deliver p → ∀ q ∈ t.pre.onWay, q.src = p.src.peer →
    p.borrowed ≠ some q.number
  /-- no ACK is delivered that has the timestamp of a frame of its receiver on its way -/
  stamps : ∀ p, t.label = .deliver p → p.frame.isAck = true → ∀ q ∈ t.pre.onWay,
    q.src = p.src.peer → q.frame.timestamp ≠ p.frame.timestamp

/-! ## The invariant -/

/-- What is known of an end. What it has heard of, but not received, is what an ACK has borrowed. -/
structure EndInv (d : Nat) (e : Endpoint) : Prop where
  window : e.entries.map (·.2) = e.leg.outstanding
  oseq : e.leg.oseq = UInt8.ofNat e.count
  iseq : e.leg.iseq = UInt8.ofNat e.heard
  number : ∀ x ∈ e.entries, x.2.oseq = UInt8.ofNat x.1
  heard : ∀ n < e.heard, n ∉ e.received → e.borrowed = some n
  latest : e.heard ≤ e.latest
  recent : e.latest ≤ e.heard + d

/-- What is known of a packet whose sender is now `e`. -/
structure PacketInv (e : Endpoint) (p : Packet) : Prop where
  oseq : p.frame.oseq = UInt8.ofNat p.number
  iseq : p.frame.iseq = UInt8.ofNat p.acks
  number : p.number + (if p.numbered then 1 else 0) ≤ e.count
  acks : p.acks ≤ e.latest
  arrived : ∀ n < p.acks, n ∉ e.received → p.borrowed = some n

/-- The invariant of orderly runs. Every number taken has its frame among the packets, as has every
entry of a window, and no end is told more than the other one has heard. -/
structure Inv (d : Nat) (l : Link) : Prop where
  ends : ∀ x, EndInv d (l.ends x)
  sent : ∀ p ∈ l.sent, PacketInv (l.ends p.src) p
  taken : ∀ x, ∀ n < (l.ends x).count, ∃ q ∈ l.sent, q.src = x ∧ q.numbered = true ∧ q.number = n
  entries : ∀ x, ∀ e ∈ (l.ends x).entries,
    ∃ q ∈ l.sent, q.src = x ∧ q.numbered = true ∧ q.number = e.1 ∧ q.frame.timestamp = e.2.ts
  confirmed : ∀ x, (l.ends x).confirmed ≤ (l.ends x.peer).latest

theorem mem_onWay {l : Link} {q : Packet} : q ∈ l.onWay ↔
    q ∈ l.sent ∧ q.numbered = true ∧ q.number ∉ (l.ends q.src.peer).received := by
  rw [onWay, List.mem_filter, Bool.and_eq_true, decide_eq_true_iff]

section

variable {d : Nat} {l : Link} {e : Endpoint}

/-- A number that is taken and has not arrived has its frame on the way. -/
theorem Inv.onWay_of_taken (inv : l.Inv d) {x : Side} {n : Nat} (hn : n < (l.ends x).count)
    (missing : n ∉ (l.ends x.peer).received) : ∃ q ∈ l.onWay, q.src = x ∧ q.number = n := by
  obtain ⟨q, hq, rfl, numbered, rfl⟩ := inv.taken x n hn
  exact ⟨q, mem_onWay.mpr ⟨hq, numbered, missing⟩, rfl, rfl⟩

/-- So has an entry of a window. -/
theorem Inv.onWay_of_entry (inv : l.Inv d) {x : Side} {o : Nat × Outstanding}
    (ho : o ∈ (l.ends x).entries) (missing : o.1 ∉ (l.ends x.peer).received) :
    ∃ q ∈ l.onWay, q.src = x ∧ q.number = o.1 ∧ q.frame.timestamp = o.2.ts := by
  obtain ⟨q, hq, rfl, numbered, number, stamp⟩ := inv.entries x o ho
  exact ⟨q, mem_onWay.mpr ⟨hq, numbered, number ▸ missing⟩, rfl, number, stamp⟩

/-- The number of an entry is taken. -/
theorem Inv.entry_lt (inv : l.Inv d) {x : Side} {o : Nat × Outstanding}
    (ho : o ∈ (l.ends x).entries) : o.1 < (l.ends x).count := by
  obtain ⟨q, hq, rfl, numbered, number, _⟩ := inv.entries x o ho
  have lt := (inv.sent q hq).number
  rw [numbered, if_pos rfl] at lt
  exact number ▸ lt

/-! ## What an operation of an end does -/

theorem act_count (e : Endpoint) (op : LegOp) :
    (e.act op).count = e.count + if op.numbered then 1 else 0 := by
  show (if op.numbered then e.count + 1 else e.count) = _
  split <;> rfl

theorem EndInv.new (localNo : UInt16) : EndInv d (Endpoint.new localNo) where
  window := rfl
  oseq := rfl
  iseq := rfl
  number _ hx := absurd hx List.not_mem_nil
  heard _ hn := absurd hn (Nat.not_lt_zero _)
  latest := Nat.le_refl 0
  recent := Nat.zero_le _

theorem EndInv.act (h : EndInv d e) (op : LegOp) : EndInv d (e.act op) where
  window := by
    cases op with
    | build ts ft sc ies tracked =>
      cases tracked with
      | none => exact h.window
      | some now =>
        show (e.entries ++ [_]).map Prod.snd = e.leg.outstanding ++ [_]
        rw [List.map_append, h.window]
        rfl
    | ack ts => exact h.window
    | expire now =>
      show (e.entries.map _).map Prod.snd = (Iax2.expire now e.leg.outstanding).window
      rw [expire_eq, ← h.window, List.map_map, List.map_map]
      rfl
  oseq := by
    cases op with
    | build ts ft sc ies tracked =>
      have next : e.leg.oseq + 1 = UInt8.ofNat (e.count + 1) := by
        rw [h.oseq, UInt8.ofNat_add]
        rfl
      cases tracked <;> exact next
    | ack ts => exact h.oseq
    | expire now => exact h.oseq
  iseq := (Leg.act_iseq e.leg op).trans h.iseq
  number := by
    intro x hx
    cases op with
    | build ts ft sc ies tracked =>
      cases tracked with
      | none => exact h.number x hx
      | some now =>
        rcases List.mem_append.mp hx with hx | hx
        · exact h.number x hx
        · obtain rfl := List.mem_singleton.mp hx
          exact h.oseq
    | ack ts => exact h.number x hx
    | expire now =>
      obtain ⟨y, hy, rfl⟩ := List.mem_map.mp hx
      exact (y.2.aged_same now).2.1.trans (h.number y hy)
  heard := h.heard
  latest := h.latest
  recent := h.recent

/-- The numbers in the window after an operation include those before. -/
theorem act_keeps (e : Endpoint) (op : LegOp) {x : Nat × Outstanding} (hx : x ∈ e.entries) :
    x.1 ∈ (e.act op).entries.map (·.1) := by
  cases op with
  | build ts ft sc ies tracked =>
    cases tracked with
    | none => exact List.mem_map_of_mem hx
    | some now => exact List.mem_map_of_mem (List.mem_append_left _ hx)
  | ack ts => exact List.mem_map_of_mem hx
  | expire now =>
    show x.1 ∈ (e.entries.map fun x => (x.1, x.2.aged now)).map (·.1)
    rw [List.map_map]
    exact List.mem_map_of_mem (f := fun x => x.1) hx

/-- The entry of a window after an operation was there before, or is that of the packet that
leaves. -/
theorem act_entries {op : LegOp} {o : Nat × Outstanding} (ho : o ∈ (e.act op).entries) (x : Side) :
    (∃ o' ∈ e.entries, o'.1 = o.1 ∧ o'.2.ts = o.2.ts) ∨
      ∃ q ∈ e.packet? x op, q.src = x ∧ q.numbered = true ∧ q.number = o.1 ∧
        q.frame.timestamp = o.2.ts := by
  cases op with
  | build ts ft sc ies tracked =>
    cases tracked with
    | none => exact .inl ⟨o, ho, rfl, rfl⟩
    | some now =>
      rcases List.mem_append.mp ho with old | new
      · exact .inl ⟨o, old, rfl, rfl⟩
      · obtain rfl := List.mem_singleton.mp new
        exact .inr ⟨_, rfl, rfl, rfl, rfl, rfl⟩
  | ack ts => exact .inl ⟨o, ho, rfl, rfl⟩
  | expire now =>
    obtain ⟨y, hy, rfl⟩ := List.mem_map.mp ho
    exact .inl ⟨y, hy, rfl, (y.2.aged_same now).2.2.symm⟩

/-- A number that an operation takes is that of the packet that leaves. -/
theorem act_taken {op : LegOp} {n : Nat} (hn : n < (e.act op).count) (x : Side) :
    n < e.count ∨ ∃ q ∈ e.packet? x op, q.src = x ∧ q.numbered = true ∧ q.number = n := by
  cases op with
  | build ts ft sc ies tracked =>
    rcases Nat.lt_succ_iff_lt_or_eq.mp hn with old | rfl
    · exact .inl old
    · exact .inr ⟨_, rfl, rfl, rfl, rfl⟩
  | ack ts => exact .inl hn
  | expire now => exact .inl hn

/-- A packet leaves with the numbers of its end. -/
theorem packetInv_of_act (h : EndInv d e) {x : Side} {op : LegOp} {p : Packet}
    (hp : p ∈ e.packet? x op) : p.src = x ∧ PacketInv (e.act op) p := by
  obtain ⟨f, hf, rfl⟩ := Option.map_eq_some_iff.mp hp
  obtain ⟨iseq, oseq⟩ := Leg.frame?_iseq hf
  exact ⟨rfl, oseq.trans h.oseq, iseq.trans h.iseq, Nat.le_of_eq (act_count e op).symm,
    h.latest, h.heard⟩

theorem PacketInv.act {p : Packet} (h : PacketInv e p) (op : LegOp) : PacketInv (e.act op) p :=
  { h with number := Nat.le_trans h.number (act_count e op ▸ Nat.le_add_right _ _) }

/-! ## What a delivery does -/

/-- What has arrived stays arrived. -/
theorem received_mono (e : Endpoint) (p : Packet) {n : Nat} (h : n ∈ e.received) :
    n ∈ (e.receive p).received := by
  show n ∈ if p.numbered then p.number :: e.received else e.received
  split
  · exact List.mem_cons_of_mem _ h
  · exact h

/-- After a packet without a gap before it, an end has received what it has heard of, but for the
number that the packet may have borrowed. -/
theorem EndInv.receive (h : EndInv d e) {p : Packet} {sender : Endpoint}
    (packet : PacketInv sender p) (gapless : ∀ n < p.number, n ∈ e.received)
    (recent : e.latest ≤ p.number + 1 + d) : EndInv d (e.receive p) where
  window := by
    show (e.entries.filter _).map Prod.snd = e.leg.outstanding.filter _
    rw [← h.window, List.filter_map]
    rfl
  oseq := h.oseq
  iseq := by
    show p.frame.oseq + 1 = UInt8.ofNat (p.number + 1)
    rw [packet.oseq, UInt8.ofNat_add]
    rfl
  number x hx := h.number x (List.mem_of_mem_filter hx)
  heard := by
    intro n hn missing
    rcases Nat.lt_succ_iff_lt_or_eq.mp hn with hlt | rfl
    · exact absurd (received_mono e p (gapless n hlt)) missing
    · show (if p.numbered then none else some p.number) = some p.number
      refine if_neg fun numbered => missing ?_
      show p.number ∈ if p.numbered then p.number :: e.received else e.received
      rw [if_pos numbered]
      exact List.mem_cons_self
  latest := Nat.le_max_right _ _
  recent := Nat.max_le.mpr ⟨recent, Nat.le_add_right _ _⟩

theorem PacketInv.receive {p : Packet} (h : PacketInv e p) (q : Packet) :
    PacketInv (e.receive q) p :=
  { h with
    acks := Nat.le_trans h.acks (Nat.le_max_left _ _)
    arrived := fun n hn missing => h.arrived n hn fun had => missing (received_mono e q had) }

/-- A packet discards no entry that it neither acknowledges by its number nor, as an ACK, by its
timestamp. -/
theorem receive_keeps (h : EndInv d e) {p : Packet} {sender : Endpoint} (packet : PacketInv sender p)
    {x : Nat × Outstanding} (hx : x ∈ e.entries) (ahead : p.acks ≤ x.1) (near : x.1 < p.acks + 128)
    (stamp : p.frame.isAck = true → x.2.ts ≠ p.frame.timestamp) :
    x.1 ∈ (e.receive p).entries.map (·.1) := by
  refine List.mem_map_of_mem (List.mem_filter.mpr ⟨hx, ?_⟩)
  have notBefore : seqBefore x.2.oseq p.frame.iseq = false := by
    rw [h.number x hx, packet.iseq, Bool.eq_false_iff, ne_eq, seqBefore_of_le ahead]
    omega
  have notStamp : (p.frame.isAck && decide (x.2.ts = p.frame.timestamp)) = false := by
    rw [Bool.and_eq_false_iff, decide_eq_false_iff_not]
    by_cases hack : p.frame.isAck = true
    · exact .inr (stamp hack)
    · exact .inl (Bool.eq_false_of_not_eq_true hack)
  rw [Outstanding.acked, notBefore, notStamp]
  rfl

/-! ## One step -/

section

variable (l) (x : Side) (op : LegOp)

theorem act_self : (l.apply (.act x op)).ends x = (l.ends x).act op := Function.update_self ..

theorem act_other {y : Side} (hy : y ≠ x) : (l.apply (.act x op)).ends y = l.ends y :=
  Function.update_of_ne hy ..

/-- An operation leaves what was heard and confirmed. -/
theorem act_same (y : Side) : ((l.apply (.act x op)).ends y).latest = (l.ends y).latest ∧
    ((l.apply (.act x op)).ends y).confirmed = (l.ends y).confirmed := by
  by_cases hy : y = x
  · rw [hy, act_self]
    exact ⟨rfl, rfl⟩
  · rw [act_other l x op hy]
    exact ⟨rfl, rfl⟩

end

/-- An operation of an end keeps the invariant. -/
theorem Inv.act (inv : l.Inv d) (x : Side) (op : LegOp) : (l.apply (.act x op)).Inv d where
  ends y := by
    by_cases hy : y = x
    · rw [hy, act_self]
      exact (inv.ends x).act op
    · rw [act_other l x op hy]
      exact inv.ends y
  sent p hp := by
    rcases List.mem_append.mp hp with new | old
    · obtain ⟨rfl, packet⟩ := packetInv_of_act (inv.ends x) (Option.mem_toList.mp new)
      rw [act_self]
      exact packet
    · by_cases hy : p.src = x
      · rw [hy, act_self]
        exact (hy ▸ inv.sent p old).act op
      · rw [act_other l x op hy]
        exact inv.sent p old
  taken y n hn := by
    by_cases hy : y = x
    · subst hy
      rw [act_self] at hn
      rcases act_taken hn y with old | ⟨q, hq, new⟩
      · obtain ⟨q, hq, known⟩ := inv.taken y n old
        exact ⟨q, List.mem_append_right _ hq, known⟩
      · exact ⟨q, List.mem_append_left _ (Option.mem_toList.mpr hq), new⟩
    · rw [act_other l x op hy] at hn
      obtain ⟨q, hq, known⟩ := inv.taken y n hn
      exact ⟨q, List.mem_append_right _ hq, known⟩
  entries y o ho := by
    by_cases hy : y = x
    · subst hy
      rw [act_self] at ho
      rcases act_entries ho y with ⟨o', old, number, stamp⟩ | ⟨q, hq, new⟩
      · obtain ⟨q, hq, known⟩ := inv.entries y o' old
        exact ⟨q, List.mem_append_right _ hq, number ▸ stamp ▸ known⟩
      · exact ⟨q, List.mem_append_left _ (Option.mem_toList.mpr hq), new⟩
    · rw [act_other l x op hy] at ho
      obtain ⟨q, hq, known⟩ := inv.entries y o ho
      exact ⟨q, List.mem_append_right _ hq, known⟩
  confirmed y := by
    rw [(act_same l x op y).2, (act_same l x op y.peer).1]
    exact inv.confirmed y

/-- What an end sends in its turn is sound. -/
theorem sound_act (inv : l.Inv d) {x : Side} {op : LegOp}
    (bounded : (l.apply (.act x op)).Bounded d)
    (orderly : Orderly d ⟨l, .act x op, l.apply (.act x op)⟩) :
    AckSound ⟨l, .act x op, l.apply (.act x op)⟩ where
  acknowledges := by
    rintro x op f ⟨⟩ hf n hn missing
    rw [(Leg.frame?_iseq hf).1, (inv.ends x).iseq, Bool.eq_false_iff, ne_eq]
    rcases Nat.lt_or_ge n (l.ends x).heard with early | ahead
    · -- an ACK has borrowed the number, and its frame is on the way
      have missing' : n ∉ (l.ends x.peer.peer).received := by rwa [Side.peer_peer]
      obtain ⟨q, hq, src, rfl⟩ := inv.onWay_of_taken hn missing'
      exact absurd ((inv.ends x).heard _ early missing) (orderly.turn x op f rfl hf q hq src)
    · have confirmed := inv.confirmed x.peer
      have recent := (inv.ends x).recent
      have bound := bounded x.peer
      rw [Side.peer_peer] at confirmed
      rw [act_other l x op (Side.peer_ne x)] at bound
      have hn : n < (l.ends x.peer).count := hn
      rw [seqBefore_of_le ahead]
      omega
  discards := by
    intro y o ho gone
    refine absurd ?_ gone
    show o.1 ∈ ((l.apply (.act x op)).ends y).entries.map (·.1)
    by_cases hy : y = x
    · subst hy
      rw [act_self]
      exact act_keeps _ op ho
    · rw [act_other l x op hy]
      exact List.mem_map_of_mem ho

section

variable (l) (p : Packet)

theorem deliver_peer : (l.apply (.deliver p)).ends p.src.peer = (l.ends p.src.peer).receive p :=
  Function.update_self ..

theorem deliver_other {y : Side} (hy : y ≠ p.src.peer) :
    (l.apply (.deliver p)).ends y = l.ends y := Function.update_of_ne hy ..

theorem deliver_src : (l.apply (.deliver p)).ends p.src = l.ends p.src :=
  deliver_other l p (Side.peer_ne p.src).symm

end

/-- An orderly delivery keeps the invariant. -/
theorem Inv.deliver (inv : l.Inv d) {p : Packet} (hp : p ∈ l.sent)
    (orderly : Orderly d ⟨l, .deliver p, l.apply (.deliver p)⟩) :
    (l.apply (.deliver p)).Inv d := by
  have packet := inv.sent p hp
  have gapless (n : Nat) (hn : n < p.number) : n ∈ (l.ends p.src.peer).received := by
    by_contra missing
    have taken : n < (l.ends p.src).count :=
      Nat.lt_of_lt_of_le hn (Nat.le_trans (Nat.le_add_right _ _) packet.number)
    obtain ⟨q, hq, src, rfl⟩ := inv.onWay_of_taken taken missing
    exact absurd (orderly.inOrder p rfl q hq src) (Nat.not_le.mpr hn)
  refine ⟨fun y => ?_, fun q hq => ?_, fun y n hn => ?_, fun y o ho => ?_, fun y => ?_⟩
  · by_cases hy : y = p.src.peer
    · rw [hy, deliver_peer]
      exact (inv.ends _).receive packet gapless (orderly.recent p rfl).1
    · rw [deliver_other l p hy]
      exact inv.ends y
  · by_cases hy : q.src = p.src.peer
    · rw [hy, deliver_peer]
      exact (hy ▸ inv.sent q hq).receive p
    · rw [deliver_other l p hy]
      exact inv.sent q hq
  · refine inv.taken y n ?_
    by_cases hy : y = p.src.peer
    · rw [hy, deliver_peer] at hn
      rw [hy]
      exact hn
    · rwa [deliver_other l p hy] at hn
  · refine inv.entries y o ?_
    by_cases hy : y = p.src.peer
    · rw [hy, deliver_peer] at ho
      rw [hy]
      exact List.mem_of_mem_filter ho
    · rwa [deliver_other l p hy] at ho
  · by_cases hy : y = p.src.peer
    · rw [hy, deliver_peer, Side.peer_peer, deliver_src]
      have confirmed := inv.confirmed p.src.peer
      rw [Side.peer_peer] at confirmed
      exact Nat.max_le.mpr ⟨confirmed, packet.acks⟩
    · rw [Side.eq_of_ne_peer hy, deliver_src, deliver_peer]
      exact Nat.le_trans (inv.confirmed p.src) (Nat.le_max_left _ _)

/-- An orderly delivery within the bound discards nothing that has not arrived. -/
theorem sound_deliver (inv : l.Inv d) {p : Packet} (hp : p ∈ l.sent)
    (bounded : (l.apply (.deliver p)).Bounded d)
    (orderly : Orderly d ⟨l, .deliver p, l.apply (.deliver p)⟩) :
    AckSound ⟨l, .deliver p, l.apply (.deliver p)⟩ where
  acknowledges _ _ _ label := nomatch label
  discards := by
    have packet := inv.sent p hp
    intro y o ho gone
    by_cases hy : y = p.src.peer
    · subst hy
      show o.1 ∈ ((l.apply (.deliver p)).ends p.src.peer.peer).received
      rw [Side.peer_peer, deliver_src]
      by_contra missing
      have missing' : o.1 ∉ (l.ends p.src.peer.peer).received := by rwa [Side.peer_peer]
      obtain ⟨q, hq, src, number, stamp⟩ := inv.onWay_of_entry ho missing'
      have ahead : p.acks ≤ o.1 := by
        by_contra early
        have borrowed := packet.arrived o.1 (Nat.not_le.mp early) missing
        exact orderly.apart p rfl q hq src (number ▸ borrowed)
      have near : o.1 < p.acks + 128 := by
        have bound := bounded p.src.peer
        rw [deliver_peer] at bound
        have bound : (l.ends p.src.peer).count + d <
          max (l.ends p.src.peer).confirmed p.acks + 128 := bound
        have recent : (l.ends p.src.peer).confirmed ≤ p.acks + d := (orderly.recent p rfl).2
        have taken := inv.entry_lt ho
        omega
      have kept := receive_keeps (inv.ends _) packet ho ahead near fun isAck =>
        stamp ▸ orderly.stamps p rfl isAck q hq src
      have gone : o.1 ∉ ((l.apply (.deliver p)).ends p.src.peer).entries.map (·.1) := gone
      rw [deliver_peer] at gone
      exact gone kept
    · refine absurd ?_ gone
      show o.1 ∈ ((l.apply (.deliver p)).ends y).entries.map (·.1)
      rw [deliver_other l p hy]
      exact List.mem_map_of_mem ho

/-! ## Every run -/

theorem inv_new (here there : UInt16) : (new here there).Inv d where
  ends x := by cases x <;> exact EndInv.new _
  sent _ hp := absurd hp List.not_mem_nil
  taken x _ hn := by cases x <;> exact absurd hn (Nat.not_lt_zero _)
  entries x _ ho := by cases x <;> exact absurd ho List.not_mem_nil
  confirmed x := by cases x <;> exact Nat.zero_le _

theorem inv_run {past : List (Transition Link LinkOp)} (run : system.Run past l)
    (orderly : Always (fun t _ => Orderly d t) past) : l.Inv d := by
  refine run.invariant_under (I := fun _ l => l.Inv d) ?_ ?_ orderly
  · rintro _ ⟨here, there, rfl⟩
    exact inv_new here there
  · rintro _ l op _ - ⟨possible, rfl⟩ orderly inv
    cases op with
    | act x op => exact inv.act x op
    | deliver p => exact inv.deliver (possible p rfl) orderly

/-- In every orderly run with fewer than `128 - d` frames unacknowledged at either end, where packets
may come `d` numbers late, no end acknowledges, and no window loses, a frame that has not arrived;
and the entries are the windows of the legs. -/
theorem ackSound_run {past : List (Transition Link LinkOp)} (run : system.Run past l)
    (bounded : Always (fun t _ => t.post.Bounded d) past)
    (orderly : Always (fun t _ => Orderly d t) past) :
    Always (fun t _ => AckSound t) past ∧
      ∀ x, (l.ends x).entries.map (·.2) = (l.ends x).leg.outstanding := by
  refine ⟨?_, fun x => ((inv_run run orderly).ends x).window⟩
  refine run.always_under (Q := fun t _ => t.post.Bounded d ∧ Orderly d t) ?_ (bounded.and orderly)
  rintro past l op _ run ⟨possible, rfl⟩ before ⟨bounded, orderly⟩
  have inv := inv_run run (before.imp fun _ _ h => h.2)
  cases op with
  | act x op => exact sound_act inv bounded orderly
  | deliver p => exact sound_deliver inv (possible p rfl) bounded orderly

end

/-! ## Sample runs -/

instance (d : Nat) (l : Link) : Decidable (l.Bounded d) :=
  decidable_of_iff ((l.ends .here).count + d < (l.ends .here).confirmed + 128 ∧
      (l.ends .there).count + d < (l.ends .there).confirmed + 128)
    ⟨fun h x => by cases x with | here => exact h.1 | there => exact h.2,
      fun h => ⟨h .here, h .there⟩⟩

instance (d : Nat) (t : Transition Link LinkOp) : Decidable (Orderly d t) :=
  match t with
  | ⟨pre, .act x op, _⟩ =>
    decidable_of_iff ((pre.ends x).leg.frame? op ≠ none →
        ∀ q ∈ pre.onWay, q.src = x.peer → (pre.ends x).borrowed ≠ some q.number)
      ⟨fun h =>
        { inOrder := fun _ label => nomatch label
          recent := fun _ label => nomatch label
          turn := fun _ _ _ label sends => by
            cases label
            exact h (Option.ne_none_iff_exists'.mpr ⟨_, sends⟩)
          apart := fun _ label => nomatch label
          stamps := fun _ label => nomatch label },
        fun h sends => by
          obtain ⟨f, sends⟩ := Option.ne_none_iff_exists'.mp sends
          exact h.turn x op f rfl sends⟩
  | ⟨pre, .deliver p, _⟩ =>
    decidable_of_iff ((∀ q ∈ pre.onWay, q.src = p.src → p.number ≤ q.number) ∧
        ((pre.ends p.src.peer).latest ≤ p.number + 1 + d ∧
          (pre.ends p.src.peer).confirmed ≤ p.acks + d) ∧
        (∀ q ∈ pre.onWay, q.src = p.src.peer → p.borrowed ≠ some q.number) ∧
        (p.frame.isAck = true → ∀ q ∈ pre.onWay, q.src = p.src.peer →
          q.frame.timestamp ≠ p.frame.timestamp))
      ⟨fun h =>
        { inOrder := fun _ label => by cases label; exact h.1
          recent := fun _ label => by cases label; exact h.2.1
          turn := fun _ _ _ label => nomatch label
          apart := fun _ label => by cases label; exact h.2.2.1
          stamps := fun _ label => by cases label; exact h.2.2.2 },
        fun h => ⟨h.inOrder p rfl, h.recent p rfl, h.apart p rfl, h.stamps p rfl⟩⟩

/-- The NEW of the end here, number 0. -/
def request : Packet :=
  { src := .here, frame := FullFrame.new 16 0 0 0 0 Frametype.iax Iax.new []
    numbered := true, number := 0, acks := 0, borrowed := none }

/-- The ACK of the end there, which takes no number and carries the next one, 0. -/
def requestAck : Packet :=
  { src := .there, frame := FullFrame.new 42 16 5 0 1 Frametype.iax Iax.ack []
    numbered := false, number := 0, acks := 1, borrowed := none }

/-- The RINGING of the end there, number 0. -/
def ringing : Packet :=
  { src := .there, frame := FullFrame.new 42 16 7 0 1 Frametype.control Control.ringing []
    numbered := true, number := 0, acks := 1, borrowed := none }

/-- The digit of the end here, number 1. -/
def digit : Packet :=
  { src := .here, frame := FullFrame.new 16 42 9 1 1 Frametype.dtmf 53 []
    numbered := true, number := 1, acks := 1, borrowed := none }

def newCall : LegOp := .build 0 Frametype.iax Iax.new [] (some 0)
def ring : LegOp := .build 7 Frametype.control Control.ringing [] (some 7)
def press : LegOp := .build 9 Frametype.dtmf 53 [] (some 9)

/-- The end here sends its NEW. -/
def asked : Link := (new 16 42).apply (.act .here newCall)

/-- The NEW arrives. -/
def heard : Link := asked.apply (.deliver request)

/-- The end there acknowledges it. -/
def acknowledged : Link := heard.apply (.act .there (.ack 5))

/-- The ACK arrives. -/
def settled : Link := acknowledged.apply (.deliver requestAck)

/-- The end there sends its first frame. -/
def rung : Link := settled.apply (.act .there ring)

/-- The first frame is lost, and its sender repeats it. -/
def repeated : Link := rung.apply (.act .there (.expire (7 + retxAfter)))

/-- The copy arrives. -/
def learnt : Link := repeated.apply (.deliver ringing)

/-- The end here sends a digit. -/
def pressed : Link := learnt.apply (.act .here press)

/-- The digit arrives, and acknowledges the RINGING. -/
def answered : Link := pressed.apply (.deliver digit)

/-- The NEW arrives once more, late. -/
def again : Link := answered.apply (.deliver request)

/-- The ACK of a request arrives before the frame that takes its number, and that frame is lost
once: no end speaks before it has arrived. In the end a copy of the request comes one number late. -/
theorem ackSound_sample :
    let past : List (Transition Link LinkOp) := [⟨answered, .deliver request, again⟩,
      ⟨pressed, .deliver digit, answered⟩, ⟨learnt, .act .here press, pressed⟩,
      ⟨repeated, .deliver ringing, learnt⟩,
      ⟨rung, .act .there (.expire (7 + retxAfter)), repeated⟩,
      ⟨settled, .act .there ring, rung⟩, ⟨acknowledged, .deliver requestAck, settled⟩,
      ⟨heard, .act .there (.ack 5), acknowledged⟩, ⟨asked, .deliver request, heard⟩,
      ⟨new 16 42, .act .here newCall, asked⟩]
    Always (fun t _ => AckSound t) past ∧
      ∀ x, (again.ends x).entries.map (·.2) = (again.ends x).leg.outstanding := by
  refine ackSound_run (d := 1) (.step (.step (.step (.step (.step (.step (.step (.step (.step (.step
    (.start ⟨16, 42, rfl⟩) ⟨?_, rfl⟩) ⟨?_, rfl⟩) ⟨?_, rfl⟩) ⟨?_, rfl⟩) ⟨?_, rfl⟩) ⟨?_, rfl⟩)
    ⟨?_, rfl⟩) ⟨?_, rfl⟩) ⟨?_, rfl⟩) ⟨?_, rfl⟩) (by decide) (by decide)
  all_goals
    rintro p ⟨⟩
    try decide

/-- The ACK that is received sets the next number expected past a frame that has not been sent. When
it is sent, and before it arrives, the next frame the other way acknowledges it. -/
theorem ack_acknowledges_unsent :
    ¬ ∀ {past : List (Transition Link LinkOp)} {l : Link}, system.Run past l →
      Always (fun t _ => t.post.Bounded 0) past → Always (fun t _ => AckSound t) past := by
  intro law
  have run : system.Run
      [⟨rung, .act .here press, rung.apply (.act .here press)⟩,
        ⟨settled, .act .there ring, rung⟩, ⟨acknowledged, .deliver requestAck, settled⟩,
        ⟨heard, .act .there (.ack 5), acknowledged⟩, ⟨asked, .deliver request, heard⟩,
        ⟨new 16 42, .act .here newCall, asked⟩] (rung.apply (.act .here press)) := by
    refine .step (.step (.step (.step (.step (.step (.start ⟨16, 42, rfl⟩)
      ⟨?_, rfl⟩) ⟨?_, rfl⟩) ⟨?_, rfl⟩) ⟨?_, rfl⟩) ⟨?_, rfl⟩) ⟨?_, rfl⟩
    all_goals
      rintro p ⟨⟩
      try decide
  have sound := law run (by decide)
  exact absurd (sound.1.acknowledges .here press _ rfl rfl 0 (by decide) (by decide)) (by decide)

end Link

end Iax2
