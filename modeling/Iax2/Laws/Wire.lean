import Mathlib.Data.Nat.Bitwise
import Iax2.Frame
import Iax2.Client.Leg

/-!
# What is on the wire

The header of a datagram, read without its body, and the headers of the frames that the client
encodes. A property of the wire ("the frame is not a retransmission", "it leaves on this leg") is a
property of the header, and holds of a frame whose body another endpoint could not read.

`Header.read_encode` and `Header.read_encodeMedia` say that what the client encodes has the header
it was built with, cut to the widths of the fields. `decode_setRetransmit` says that the R bit is
the only difference between a retransmission and the frame it repeats.
-/

namespace Iax2

/-- The header fields of a full frame on the wire. -/
structure Header where
  srcCall : UInt16
  dstCall : UInt16
  retransmit : Bool
  timestamp : UInt32
  oseq : UInt8
  iseq : UInt8
  frametype : UInt8
  subclass : UInt8
  deriving DecidableEq, Repr

namespace Header

/-- Read the header of a full frame. -/
def read : Bytes → Option Header
  | b0 :: b1 :: b2 :: b3 :: b4 :: b5 :: b6 :: b7 :: b8 :: b9 :: b10 :: b11 :: _ =>
    let w0 := Bytes.ofBe16 b0 b1
    let w1 := Bytes.ofBe16 b2 b3
    if w0 &&& fullFrameBit = 0 then none
    else some
      { srcCall := w0 &&& callMask
        dstCall := w1 &&& callMask
        retransmit := w1 &&& retransmitBit ≠ 0
        timestamp := Bytes.ofBe32 b4 b5 b6 b7
        oseq := b8
        iseq := b9
        frametype := b10
        subclass := b11 &&& ~~~subclassCBit }
  | _ => none

/-- The frame is an ACK. -/
def isAck (h : Header) : Bool := h.frametype = Frametype.iax && h.subclass = Iax.ack

end Header

/-- The header of a frame, with the widths of the wire. -/
def FullFrame.wire (f : FullFrame) : Header :=
  { srcCall := f.srcCall &&& callMask
    dstCall := f.dstCall &&& callMask
    retransmit := f.retransmit
    timestamp := f.timestamp
    oseq := f.oseq
    iseq := f.iseq
    frametype := f.frametype
    subclass := f.subclass &&& 0x7F }

/-! ## Words and masks -/

private theorem and_or_distrib (a b c : UInt16) : (a ||| b) &&& c = a &&& c ||| b &&& c := by
  apply UInt16.toBitVec_inj.mp
  simp only [UInt16.toBitVec_and, UInt16.toBitVec_or]
  ext i
  simp only [BitVec.getElem_and, BitVec.getElem_or, Bool.and_or_distrib_right]

private theorem src_and_mask (k : UInt16) :
    (fullFrameBit ||| (k &&& callMask)) &&& callMask = k &&& callMask := by
  rw [and_or_distrib, UInt16.and_assoc, UInt16.and_self,
    show fullFrameBit &&& callMask = 0 from by decide, UInt16.zero_or]

private theorem or_and_right (a b : UInt16) : (a ||| b) &&& b = b := by
  apply UInt16.toBitVec_inj.mp
  simp only [UInt16.toBitVec_and, UInt16.toBitVec_or]
  ext i
  simp only [BitVec.getElem_and, BitVec.getElem_or]
  cases b.toBitVec[i] <;> simp

private theorem mask_mask (k : UInt16) : (k &&& callMask) &&& callMask = k &&& callMask := by
  rw [UInt16.and_assoc, UInt16.and_self]

private theorem src_and_bit (k : UInt16) :
    (fullFrameBit ||| (k &&& callMask)) &&& fullFrameBit = fullFrameBit := by
  rw [UInt16.or_comm, or_and_right]

private theorem dst_and_mask (w : UInt16) :
    (w ||| retransmitBit) &&& callMask = w &&& callMask := by
  rw [and_or_distrib, show retransmitBit &&& callMask = 0 from by decide, UInt16.or_zero]

private theorem dst_and_bit (w : UInt16) : (w ||| retransmitBit) &&& retransmitBit ≠ 0 := by
  rw [or_and_right]
  decide

private theorem clear_and_bit (k : UInt16) : (k &&& callMask) &&& retransmitBit = 0 := by
  rw [UInt16.and_assoc, show callMask &&& retransmitBit = 0 from by decide, UInt16.and_zero]

private theorem ofBe16_or_bit (a b : UInt8) :
    Bytes.ofBe16 (a ||| 0x80) b = Bytes.ofBe16 a b ||| retransmitBit := by
  have ha := a.toNat_lt
  have hb := b.toNat_lt
  apply UInt16.toNat_inj.mp
  simp only [Bytes.ofBe16, UInt16.toNat_or, UInt16.toNat_ofNat', UInt8.toNat_or]
  have hor : a.toNat ||| (0x80 : UInt8).toNat < 2 ^ 8 := Nat.or_lt_two_pow ha (by decide)
  rw [Nat.mod_eq_of_lt (by omega), Nat.mod_eq_of_lt (by omega)]
  have join (n : Nat) : n * 256 + b.toNat = n <<< 8 ||| b.toNat := by
    rw [← Nat.shiftLeft_add_eq_or_of_lt hb, Nat.shiftLeft_eq]
  rw [join, join, Nat.shiftLeft_or_distrib, Nat.or_assoc, Nat.or_comm _ b.toNat, ← Nat.or_assoc]
  rfl

/-- The F bit of the first word is the high bit of the first byte. -/
theorem ofBe16_and_bit (a b : UInt8) :
    Bytes.ofBe16 a b &&& fullFrameBit = 0 ↔ a &&& 0x80 = 0 := by
  have ha := a.toNat_lt
  have hb := b.toNat_lt
  rw [← UInt16.toNat_inj, ← UInt8.toNat_inj, UInt16.toNat_and, UInt8.toNat_and, Bytes.ofBe16,
    UInt16.toNat_ofNat', Nat.mod_eq_of_lt (by omega), Nat.mul_comm]
  show (2 ^ 8 * a.toNat + b.toNat) &&& 2 ^ 15 = 0 ↔ a.toNat &&& 2 ^ 7 = 0
  rw [Nat.and_two_pow, Nat.and_two_pow, Nat.testBit_two_pow_mul_add _ hb]
  simp

/-! ## Encoded frames -/

private theorem read_header (f : FullFrame) (body : Bytes) :
    Header.read (f.header ++ body) = some f.wire := by
  have hsub : f.subclass &&& 0x7F = f.subclass &&& 0x7F &&& ~~~subclassCBit := by
    rw [UInt8.and_assoc]
    rfl
  cases hr : f.retransmit with
  | false =>
    simp only [FullFrame.header, hr, Bytes.be16, Bytes.be32, List.cons_append, List.nil_append,
      Header.read, Bytes.ofBe16_be16, Bytes.ofBe32_be32, src_and_bit, Bool.false_eq_true, if_false]
    rw [if_neg (by decide)]
    simp only [FullFrame.wire, hr, src_and_mask, mask_mask, clear_and_bit, ← hsub, ne_eq,
      not_true_eq_false, decide_false]
  | true =>
    simp only [FullFrame.header, hr, Bytes.be16, Bytes.be32, List.cons_append, List.nil_append,
      Header.read, Bytes.ofBe16_be16, Bytes.ofBe32_be32, src_and_bit, if_true]
    rw [if_neg (by decide)]
    simp only [FullFrame.wire, hr, src_and_mask, mask_mask, dst_and_mask, dst_and_bit, ← hsub,
      ne_eq, not_false_eq_true, decide_true]

/-- A command frame has the header it was built with. -/
theorem Header.read_encode (f : FullFrame) : Header.read f.encode = some f.wire :=
  read_header f _

/-- A media frame has the header it was built with. -/
theorem Header.read_encodeMedia (f : FullFrame) (payload : Bytes) :
    Header.read (f.encodeMedia payload) = some f.wire :=
  read_header f payload

/-- A mini frame has no header of a full frame. -/
theorem Header.read_mini (m : MiniFrame) : Header.read m.encode = none := by
  have hbit : (m.srcCall &&& callMask) &&& fullFrameBit = 0 := by
    rw [UInt16.and_assoc, show callMask &&& fullFrameBit = 0 from by decide, UInt16.and_zero]
  unfold Header.read
  split
  next heq =>
    simp only [MiniFrame.encode, Bytes.be16, List.cons_append, List.nil_append, List.cons.injEq]
      at heq
    obtain ⟨h0, h1, _⟩ := heq
    subst h0 h1
    exact if_pos (by rw [Bytes.ofBe16_be16]; exact hbit)
  next => rfl

/-- A decoded frame has the header of its datagram. -/
theorem Header.read_of_decode {dg : Bytes} {f : FullFrame} (h : FullFrame.decode dg = some f) :
    Header.read dg = some
      { srcCall := f.srcCall, dstCall := f.dstCall, retransmit := f.retransmit
        timestamp := f.timestamp, oseq := f.oseq, iseq := f.iseq, frametype := f.frametype
        subclass := f.subclass } := by
  unfold FullFrame.decode at h
  split at h
  next =>
    unfold Header.read
    simp only at h ⊢
    split at h
    next => cases h
    next hbit =>
      rw [if_neg hbit]
      split at h
      next =>
        cases h
        rfl
      next =>
        obtain ⟨ies, _, rfl⟩ := Option.map_eq_some_iff.mp h
        rfl
  next => cases h

/-- A datagram with the header of a full frame is classified as one. -/
theorem isFullFrame_of_read {dg : Bytes} {hd : Header} (h : Header.read dg = some hd) :
    isFullFrame dg = true := by
  unfold Header.read at h
  split at h
  next b0 b1 _ _ _ _ _ _ _ _ _ _ _ =>
    simp only at h
    split at h
    next => cases h
    next hbit =>
      rw [ofBe16_and_bit] at hbit
      exact decide_eq_true hbit
  next => cases h

/-- A datagram that decodes as a full frame is classified as one. -/
theorem isFullFrame_of_decode {dg : Bytes} {f : FullFrame} (h : FullFrame.decode dg = some f) :
    isFullFrame dg = true :=
  isFullFrame_of_read (Header.read_of_decode h)

/-- A mini frame is not classified as a full frame. -/
theorem isFullFrame_mini (m : MiniFrame) : isFullFrame m.encode = false := by
  have hbit : (m.srcCall &&& callMask) &&& fullFrameBit = 0 := by
    rw [UInt16.and_assoc, show callMask &&& fullFrameBit = 0 from by decide, UInt16.and_zero]
  rw [← Bytes.ofBe16_be16 (m.srcCall &&& callMask), ofBe16_and_bit] at hbit
  exact decide_eq_false fun h => h hbit

/-! ## Retransmissions -/

/-- A retransmission has the header of the frame it repeats, with the R bit. -/
theorem Header.read_setRetransmit (dg : Bytes) :
    Header.read (setRetransmit dg) = (Header.read dg).map ({ · with retransmit := true }) := by
  rcases dg with _ | ⟨b0, _ | ⟨b1, _ | ⟨b2, _ | ⟨b3, _ | ⟨b4, _ | ⟨b5, _ | ⟨b6, _ | ⟨b7, _ | ⟨b8,
    _ | ⟨b9, _ | ⟨b10, _ | ⟨b11, rest⟩⟩⟩⟩⟩⟩⟩⟩⟩⟩⟩⟩
  case cons.cons.cons.cons.cons.cons.cons.cons.cons.cons.cons.cons =>
    simp only [setRetransmit, Header.read, ofBe16_or_bit, dst_and_mask]
    split
    next => rfl
    next => simp only [Option.map_some, dst_and_bit, ne_eq, not_false_eq_true, decide_true]
  all_goals rfl

/-- A retransmission decodes to the frame it repeats, with the R bit. -/
theorem decode_setRetransmit (dg : Bytes) :
    FullFrame.decode (setRetransmit dg) =
      (FullFrame.decode dg).map ({ · with retransmit := true }) := by
  rcases dg with _ | ⟨b0, _ | ⟨b1, _ | ⟨b2, _ | ⟨b3, _ | ⟨b4, _ | ⟨b5, _ | ⟨b6, _ | ⟨b7, _ | ⟨b8,
    _ | ⟨b9, _ | ⟨b10, _ | ⟨b11, rest⟩⟩⟩⟩⟩⟩⟩⟩⟩⟩⟩⟩
  case cons.cons.cons.cons.cons.cons.cons.cons.cons.cons.cons.cons =>
    simp only [setRetransmit, FullFrame.decode, ofBe16_or_bit, dst_and_mask, dst_and_bit, ne_eq,
      not_false_eq_true, decide_true]
    split
    next => rfl
    next =>
      split
      next => rfl
      next => simp only [Option.map_map, Function.comp_def]
  all_goals rfl

/-- Setting the R bit does not make a full frame a mini frame, or the other way. -/
theorem isFullFrame_setRetransmit (dg : Bytes) :
    isFullFrame (setRetransmit dg) = isFullFrame dg := by
  rcases dg with _ | ⟨b0, _ | ⟨b1, _ | ⟨b2, rest⟩⟩⟩ <;> rfl

end Iax2
