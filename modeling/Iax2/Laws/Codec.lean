import Iax2.Laws.Wire

/-!
# The codec

The encoder and the decoder of full frames are inverse to each other, as far as each can be. A frame
whose fields fit the wire reads back (`decode_encode`, `decode_encodeMedia`), and a datagram that is
accepted is written back, with the C bit of the subclass cleared (`encode_decode`). The codec of
mini frames is a bijection, and no datagram is both (`mini_codec`).

`decode_eq` takes the decoder apart: the header, which `Header.read` reads, and a body that forks on
the frame type. The elements of a body are a codec of their own, which accepts exactly the sequences
of complete elements (`Ie.accepts_exactly`).
-/

namespace Iax2

/-! ## Elements -/

/-- The length of the element fits its byte. -/
def Ie.Fits (e : Ie) : Prop := e.data.length ≤ 255

instance (e : Ie) : Decidable e.Fits := inferInstanceAs (Decidable (_ ≤ _))

namespace Ie

theorem encode_cons (e : Ie) (ies : List Ie) :
    encode (e :: ies) = e.kind :: UInt8.ofNat e.data.length :: (e.data ++ encode ies) :=
  rfl

/-- A list of elements that fit reads back. -/
theorem decodeLoop_encode {ies : List Ie} (fits : ∀ e ∈ ies, e.Fits) :
    ∀ fuel, (encode ies).length ≤ fuel → decodeLoop fuel (encode ies) = some ies := by
  induction ies with
  | nil =>
    intro fuel _
    show decodeLoop fuel [] = some []
    cases fuel <;> rfl
  | cons e ies ih =>
    intro fuel enough
    have len : (UInt8.ofNat e.data.length).toNat = e.data.length := by
      rw [UInt8.toNat_ofNat', Nat.mod_eq_of_lt (Nat.lt_succ_of_le (fits e List.mem_cons_self))]
    rw [encode_cons] at enough ⊢
    simp only [List.length_cons, List.length_append] at enough
    obtain ⟨fuel, rfl⟩ : ∃ m, fuel = m + 1 := ⟨fuel - 1, by omega⟩
    have tail : decodeLoop fuel (encode ies) = some ies :=
      ih (fun e' he' => fits e' (List.mem_cons_of_mem e he')) fuel (by omega)
    have whole : ¬ (e.data ++ encode ies).length < e.data.length := by
      rw [List.length_append]
      omega
    rw [decodeLoop, len, if_neg whole, List.drop_left, List.take_left, tail, Option.map_some]

theorem decode_encode {ies : List Ie} (fits : ∀ e ∈ ies, e.Fits) :
    decode (encode ies) = some ies :=
  decodeLoop_encode fits _ (Nat.le_refl _)

/-- A body that is accepted is written back, and its elements fit. -/
theorem encode_decodeLoop {fuel : Nat} {buf : Bytes} {ies : List Ie}
    (h : decodeLoop fuel buf = some ies) : encode ies = buf ∧ ∀ e ∈ ies, e.Fits := by
  induction fuel, buf using decodeLoop.induct generalizing ies with
  | case1 fuel =>
    have none : ies = [] := by
      cases fuel <;> exact (Option.some.inj h).symm
    subst none
    exact ⟨rfl, fun e he => by cases he⟩
  | case2 => cases h
  | case3 => cases h
  | case4 fuel kind len rest short =>
    rw [decodeLoop, if_pos short] at h
    cases h
  | case5 fuel kind len rest whole ih =>
    rw [decodeLoop, if_neg whole, Option.map_eq_some_iff] at h
    obtain ⟨tail, htail, rfl⟩ := h
    obtain ⟨written, fits⟩ := ih htail
    have hlen : (rest.take len.toNat).length = len.toNat :=
      List.length_take_of_le (Nat.not_lt.mp whole)
    refine ⟨?_, fun e he => ?_⟩
    · rw [encode_cons, written]
      simp only [hlen, UInt8.ofNat_toNat, List.take_append_drop]
    · rcases List.mem_cons.mp he with rfl | he
      · show (rest.take len.toNat).length ≤ 255
        rw [hlen]
        exact Nat.le_of_lt_succ len.toNat_lt
      · exact fits e he

theorem encode_decode {buf : Bytes} {ies : List Ie} (h : decode buf = some ies) :
    encode ies = buf ∧ ∀ e ∈ ies, e.Fits :=
  encode_decodeLoop h

/-- The decoder is the inverse of the encoder on the elements that fit. -/
theorem decode_eq_some_iff {buf : Bytes} {ies : List Ie} :
    decode buf = some ies ↔ (∀ e ∈ ies, e.Fits) ∧ encode ies = buf := by
  constructor
  · intro h
    exact (encode_decode h).symm
  · rintro ⟨fits, rfl⟩
    exact decode_encode fits

theorem find_eq_some {ies : List Ie} {kind : UInt8} {e : Ie} (h : find ies kind = some e) :
    e ∈ ies ∧ e.kind = kind := by
  have passes := List.find?_some h
  exact ⟨List.mem_of_find?_eq_some h, of_decide_eq_true passes⟩

/-- A complete element on the wire: a kind, a length, and as many bytes as the length says. -/
def IsElement (p : Bytes) : Prop :=
  ∃ kind len data, p = kind :: len :: data ∧ data.length = len.toNat

/-- The bytes of an element that fits are a complete element. -/
theorem Fits.isElement {e : Ie} (fits : e.Fits) : IsElement e.bytes :=
  ⟨e.kind, UInt8.ofNat e.data.length, e.data, rfl,
    (UInt8.toNat_ofNat_of_lt' (Nat.lt_succ_of_le fits)).symm⟩

/-- A complete element is the bytes of an element that fits. -/
theorem IsElement.bytes {p : Bytes} (h : IsElement p) : ∃ e : Ie, e.Fits ∧ e.bytes = p := by
  obtain ⟨kind, len, data, rfl, same⟩ := h
  refine ⟨⟨kind, data⟩, ?_, ?_⟩
  · show data.length ≤ 255
    rw [same]
    exact Nat.le_of_lt_succ len.toNat_lt
  · show kind :: UInt8.ofNat data.length :: data = _
    rw [same, UInt8.ofNat_toNat]

/-- What the encoder writes for elements that fit is what consists of complete elements. -/
theorem exists_encode_iff {buf : Bytes} :
    (∃ ies, (∀ e ∈ ies, e.Fits) ∧ encode ies = buf) ↔
      ∃ parts : List Bytes, (∀ p ∈ parts, IsElement p) ∧ parts.flatten = buf := by
  constructor
  · rintro ⟨ies, fits, rfl⟩
    refine ⟨ies.map bytes, fun p hp => ?_, List.flatMap_def.symm⟩
    obtain ⟨e, he, rfl⟩ := List.mem_map.mp hp
    exact (fits e he).isElement
  · rintro ⟨parts, complete, rfl⟩
    induction parts with
    | nil => exact ⟨[], fun e he => (by cases he), rfl⟩
    | cons p parts ih =>
      obtain ⟨ies, fits, written⟩ := ih fun q hq => complete q (List.mem_cons_of_mem p hq)
      obtain ⟨e, he, same⟩ := (complete p List.mem_cons_self).bytes
      refine ⟨e :: ies, List.forall_mem_cons.mpr ⟨he, fits⟩, ?_⟩
      rw [List.flatten_cons, ← same, ← written]
      rfl

/-- The codec of elements. The decoder returns exactly the list that is written back to the buffer,
if its elements fit. It refuses exactly the buffers that do not consist of complete elements, and no
two lists whose elements fit are written the same. -/
theorem accepts_exactly :
    (∀ (buf : Bytes) (ies : List Ie),
      decode buf = some ies ↔ (∀ e ∈ ies, e.data.length ≤ 255) ∧ encode ies = buf) ∧
    (∀ buf : Bytes, decode buf = none ↔
      ¬ ∃ parts : List Bytes, (∀ p ∈ parts, IsElement p) ∧ parts.flatten = buf) ∧
    ∀ ies ies' : List Ie, (∀ e ∈ ies, e.data.length ≤ 255) → (∀ e ∈ ies', e.data.length ≤ 255) →
      encode ies = encode ies' → ies = ies' := by
  refine ⟨fun buf ies => decode_eq_some_iff, fun buf => ?_, fun ies ies' fits fits' same => ?_⟩
  · rw [← exists_encode_iff, Option.eq_none_iff_forall_ne_some, not_exists]
    exact forall_congr' fun ies => not_congr decode_eq_some_iff
  · have read : decode (encode ies) = some ies := decode_encode fits
    have read' : decode (encode ies') = some ies' := decode_encode fits'
    rw [same, read'] at read
    exact (Option.some.inj read).symm

/-- Two elements, one of them without data, and a buffer that ends after a kind. -/
theorem accepts_sample :
    decode [6, 1, 65, 54, 0] = some [⟨6, [65]⟩, ⟨54, []⟩] ∧
      ¬ ∃ parts : List Bytes, (∀ p ∈ parts, IsElement p) ∧ parts.flatten = [54, 0, 6] :=
  ⟨(accepts_exactly.1 _ _).mpr ⟨by decide, rfl⟩, (accepts_exactly.2.1 _).mp rfl⟩

end Ie

/-! ## Headers -/

/-- The frame with the header and a body. -/
def Header.frame (h : Header) (ies : List Ie) (mediaPayload : Bytes) : FullFrame :=
  { srcCall := h.srcCall, dstCall := h.dstCall, retransmit := h.retransmit
    timestamp := h.timestamp, oseq := h.oseq, iseq := h.iseq, frametype := h.frametype
    subclass := h.subclass, ies, mediaPayload }

/-- The decoder reads the header, and then the body that the frame type asks for. -/
theorem decode_eq (dg : Bytes) :
    FullFrame.decode dg = (Header.read dg).bind fun h =>
      if isMedia h.frametype then some (h.frame [] (dg.drop 12))
      else (Ie.decode (dg.drop 12)).map (h.frame · []) := by
  rcases dg with _ | ⟨b0, _ | ⟨b1, _ | ⟨b2, _ | ⟨b3, _ | ⟨b4, _ | ⟨b5, _ | ⟨b6, _ | ⟨b7, _ | ⟨b8,
    _ | ⟨b9, _ | ⟨b10, _ | ⟨b11, body⟩⟩⟩⟩⟩⟩⟩⟩⟩⟩⟩⟩
  case cons.cons.cons.cons.cons.cons.cons.cons.cons.cons.cons.cons =>
    simp only [FullFrame.decode, Header.read]
    split
    next => rfl
    next => rfl
  all_goals rfl

/-- The fields of the frame fit the wire. -/
structure FullFrame.Fits (f : FullFrame) : Prop where
  srcCall : f.srcCall < 0x8000
  dstCall : f.dstCall < 0x8000
  subclass : f.subclass < 0x80

private theorem masked_of_lt {n : UInt16} (h : n < 0x8000) : n &&& callMask = n := by
  apply UInt16.toNat_inj.mp
  rw [UInt16.toNat_and]
  show n.toNat &&& (2 ^ 15 - 1) = n.toNat
  rw [Nat.and_two_pow_sub_one_eq_mod]
  exact Nat.mod_eq_of_lt (UInt16.lt_iff_toNat_lt.mp h)

private theorem low_of_lt {n : UInt8} (h : n < 0x80) : n &&& 0x7F = n := by
  apply UInt8.toNat_inj.mp
  rw [UInt8.toNat_and]
  show n.toNat &&& (2 ^ 7 - 1) = n.toNat
  rw [Nat.and_two_pow_sub_one_eq_mod]
  exact Nat.mod_eq_of_lt (UInt8.lt_iff_toNat_lt.mp h)

/-- The number of the peer's call is its own field. -/
theorem FullFrame.Fits.masked {f : FullFrame} (fits : f.Fits) :
    f.srcCall &&& callMask = f.srcCall :=
  masked_of_lt fits.srcCall

theorem FullFrame.Fits.wire {f : FullFrame} (fits : f.Fits) (ies : List Ie) (payload : Bytes) :
    f.wire.frame ies payload = { f with ies, mediaPayload := payload } := by
  simp only [Header.frame, FullFrame.wire, masked_of_lt fits.srcCall, masked_of_lt fits.dstCall,
    low_of_lt fits.subclass]

private theorem masked_lt (w : UInt16) : w &&& callMask < 0x8000 := by
  rw [UInt16.lt_iff_toNat_lt, UInt16.toNat_and]
  exact Nat.lt_of_le_of_lt Nat.and_le_right (by decide)

private theorem cleared_lt (b : UInt8) : b &&& ~~~subclassCBit < 0x80 := by
  rw [UInt8.lt_iff_toNat_lt, UInt8.toNat_and]
  exact Nat.lt_succ_of_le Nat.and_le_right

/-- The fields of a header that is read fit the wire. -/
theorem FullFrame.Fits.of_decode {dg : Bytes} {f : FullFrame} (h : FullFrame.decode dg = some f) :
    f.Fits := by
  have read := Header.read_of_decode h
  unfold Header.read at read
  split at read
  next =>
    simp only at read
    split at read
    next => cases read
    next =>
      obtain ⟨src, dst, _, _, _, _, _, sub⟩ := Header.mk.inj (Option.some.inj read)
      exact ⟨src ▸ masked_lt _, dst ▸ masked_lt _, sub ▸ cleared_lt _⟩
  next => cases read

theorem header_length (f : FullFrame) : f.header.length = 12 := rfl

/-- A command frame that fits reads back. -/
theorem FullFrame.Fits.decode_encode {f : FullFrame} (fits : f.Fits)
    (command : isMedia f.frametype = false) (payload : f.mediaPayload = [])
    (elements : ∀ e ∈ f.ies, e.Fits) : FullFrame.decode f.encode = some f := by
  have body : f.encode.drop 12 = Ie.encode f.ies := List.drop_left' (header_length f)
  have kind : isMedia f.wire.frametype = false := command
  rw [decode_eq, Header.read_encode, Option.bind_some, kind, if_neg Bool.false_ne_true, body,
    Ie.decode_encode elements, Option.map_some, fits.wire, ← payload]

/-- A media frame that fits reads back, with the payload it was sent with. -/
theorem FullFrame.Fits.decode_encodeMedia {f : FullFrame} (fits : f.Fits)
    (media : isMedia f.frametype = true) (ies : f.ies = []) (payload : Bytes) :
    FullFrame.decode (f.encodeMedia payload) = some { f with mediaPayload := payload } := by
  have body : (f.encodeMedia payload).drop 12 = payload := List.drop_left' (header_length f)
  have kind : isMedia f.wire.frametype = true := media
  rw [decode_eq, Header.read_encodeMedia, Option.bind_some, if_pos kind, body, fits.wire, ← ies]

private theorem split_word (w : UInt16) : w &&& callMask ||| w &&& fullFrameBit = w := by
  apply UInt16.toBitVec_inj.mp
  simp only [UInt16.toBitVec_and, UInt16.toBitVec_or]
  rw [← BitVec.and_or_distrib_left]
  exact BitVec.and_allOnes

private theorem bit_of_ne {w : UInt16} (h : w &&& fullFrameBit ≠ 0) :
    w &&& fullFrameBit = fullFrameBit := by
  rw [Ne, ← UInt16.toNat_inj, UInt16.toNat_and] at h
  rw [← UInt16.toNat_inj, UInt16.toNat_and]
  have h : ¬ w.toNat &&& 2 ^ 15 = 0 := h
  show w.toNat &&& 2 ^ 15 = 2 ^ 15
  rw [Nat.and_two_pow] at h ⊢
  cases hbit : w.toNat.testBit 15 with
  | false => exact absurd (by rw [hbit]; rfl) h
  | true => rfl

private theorem mask_again (w : UInt16) : w &&& callMask &&& callMask = w &&& callMask := by
  rw [UInt16.and_assoc, UInt16.and_self]

/-- The header that was read is written back before its body, with the C bit cleared. -/
theorem Header.write_read {dg : Bytes} {h : Header} (read : Header.read dg = some h)
    (ies : List Ie) (payload : Bytes) :
    (h.frame ies payload).header ++ dg.drop 12 = dg.modify 11 (· &&& ~~~subclassCBit) := by
  unfold Header.read at read
  split at read
  case h_2 => cases read
  next b0 b1 b2 b3 b4 b5 b6 b7 b8 b9 b10 b11 body =>
    simp only at read
    split at read
    next => cases read
    next full =>
      cases read
      have src : fullFrameBit ||| (Bytes.ofBe16 b0 b1 &&& callMask &&& callMask) =
          Bytes.ofBe16 b0 b1 := by
        rw [mask_again, UInt16.or_comm]
        conv_rhs => rw [← split_word (Bytes.ofBe16 b0 b1), bit_of_ne full]
      have dst := mask_again (Bytes.ofBe16 b2 b3)
      have sub : b11 &&& ~~~subclassCBit &&& 0x7F = b11 &&& ~~~subclassCBit := by
        rw [UInt8.and_assoc]
        rfl
      simp only [Header.frame, FullFrame.header, src, dst, sub, Bytes.be16_ofBe16,
        Bytes.be32_ofBe32]
      by_cases again : Bytes.ofBe16 b2 b3 &&& retransmitBit = 0
      · have first : Bytes.ofBe16 b2 b3 &&& callMask = Bytes.ofBe16 b2 b3 := by
          conv_rhs => rw [← split_word (Bytes.ofBe16 b2 b3)]
          rw [show Bytes.ofBe16 b2 b3 &&& fullFrameBit = 0 from again, UInt16.or_zero]
        simp only [again, ne_eq, not_true_eq_false, decide_false, Bool.false_eq_true, if_false,
          first, Bytes.be16_ofBe16]
        rfl
      · have copy : Bytes.ofBe16 b2 b3 &&& callMask ||| retransmitBit = Bytes.ofBe16 b2 b3 := by
          conv_rhs => rw [← split_word (Bytes.ofBe16 b2 b3), bit_of_ne again]
          rfl
        simp only [again, ne_eq, not_false_eq_true, decide_true, if_true, copy, Bytes.be16_ofBe16]
        rfl

/-- What the decoder accepts, the encoder writes back, with the C bit cleared: the body of a media
frame from the payload, any other from the elements. -/
theorem encode_decode {dg : Bytes} {f : FullFrame} (h : FullFrame.decode dg = some f) :
    (if isMedia f.frametype then f.encodeMedia f.mediaPayload else f.encode) =
      dg.modify 11 (· &&& ~~~subclassCBit) := by
  rw [decode_eq, Option.bind_eq_some_iff] at h
  obtain ⟨hd, read, h⟩ := h
  split at h
  next media =>
    cases h
    rw [if_pos (show isMedia (hd.frame [] _).frametype = true from media)]
    exact Header.write_read read _ _
  next command =>
    obtain ⟨ies, hies, rfl⟩ := Option.map_eq_some_iff.mp h
    rw [if_neg (show ¬ isMedia (hd.frame ies []).frametype = true from command)]
    show (hd.frame ies []).header ++ Ie.encode ies = _
    rw [(Ie.encode_decode hies).1]
    exact Header.write_read read _ _

/-! ## Both directions -/

/-- The codec of full frames. A frame that fits the wire reads back: a command frame without
payload, with the elements it has, and a media frame without elements, with the payload it is sent
with. A datagram that is accepted is written back, with the C bit cleared. -/
theorem codec_round_trip :
    (∀ f : FullFrame, f.srcCall < 0x8000 → f.dstCall < 0x8000 → f.subclass < 0x80 →
      isMedia f.frametype = false → f.mediaPayload = [] → (∀ e ∈ f.ies, e.data.length ≤ 255) →
      FullFrame.decode f.encode = some f) ∧
    (∀ (f : FullFrame) (p : Bytes), f.srcCall < 0x8000 → f.dstCall < 0x8000 → f.subclass < 0x80 →
      isMedia f.frametype = true → f.ies = [] →
      FullFrame.decode (f.encodeMedia p) = some { f with mediaPayload := p }) ∧
    ∀ (b : Bytes) (f : FullFrame), FullFrame.decode b = some f →
      (if isMedia f.frametype then f.encodeMedia f.mediaPayload else f.encode) =
        b.modify 11 (· &&& ~~~0x80) := by
  refine ⟨fun f src dst sub command payload elements => ?_, fun f p src dst sub media ies => ?_,
    fun b f h => encode_decode h⟩
  · exact FullFrame.Fits.decode_encode ⟨src, dst, sub⟩ command payload elements
  · exact FullFrame.Fits.decode_encodeMedia ⟨src, dst, sub⟩ media ies p

/-- A REGREQ, a VOICE frame with its payload, and a VOICE frame that arrives with the C bit set. -/
theorem codec_sample :
    let request := FullFrame.new 5 0 1234 0 0 Frametype.iax Iax.regreq
      [Ie.str IeKind.username "8001", Ie.u16 IeKind.refresh 60]
    let voice := FullFrame.new 3 7 20 1 1 Frametype.voice 4 []
    let marked := (voice.encodeMedia [0x7F]).modify 11 (· ||| 0x80)
    FullFrame.decode request.encode = some request ∧
      FullFrame.decode (voice.encodeMedia [0x7F]) = some { voice with mediaPayload := [0x7F] } ∧
      voice.encodeMedia [0x7F] = marked.modify 11 (· &&& ~~~0x80) := by
  intro request voice marked
  have decoded : FullFrame.decode marked = some { voice with mediaPayload := [0x7F] } := by decide
  exact ⟨codec_round_trip.1 request (by decide) (by decide) (by decide) rfl rfl (by decide),
    codec_round_trip.2.1 voice [0x7F] (by decide) (by decide) (by decide) rfl rfl,
    codec_round_trip.2.2 marked _ decoded⟩

/-! ## Mini frames -/

/-- The datagrams of mini frames: a whole header, and the first bit clear. -/
def IsMini (b : Bytes) : Prop := 4 ≤ b.length ∧ ∀ b0 ∈ b.head?, b0 &&& 0x80 = 0

private theorem mask_and_bit (k : UInt16) : k &&& callMask &&& fullFrameBit = 0 := by
  rw [UInt16.and_assoc, show callMask &&& fullFrameBit = 0 from by decide, UInt16.and_zero]

/-- A mini frame reads back, with the number of its call cut to the wire. -/
theorem decode_mini (m : MiniFrame) :
    MiniFrame.decode m.encode = some { m with srcCall := m.srcCall &&& callMask } := by
  simp only [MiniFrame.encode, Bytes.be16, List.cons_append, List.nil_append, MiniFrame.decode,
    Bytes.ofBe16_be16, mask_and_bit, mask_again, ne_eq, not_true_eq_false, if_false]

theorem isMini_encode (m : MiniFrame) : IsMini m.encode := by
  refine ⟨Nat.le_add_left 4 m.payload.length, fun b0 first => ?_⟩
  cases first
  rw [← ofBe16_and_bit _ (UInt8.ofNat (m.srcCall &&& callMask).toNat), Bytes.ofBe16_be16]
  exact mask_and_bit m.srcCall

/-- What is read as a mini frame has the first bit clear, and the mini frame is written back. -/
theorem encode_of_mini {b : Bytes} {m : MiniFrame} (h : MiniFrame.decode b = some m) :
    IsMini b ∧ m.srcCall < 0x8000 ∧ m.encode = b := by
  unfold MiniFrame.decode at h
  split at h
  next b0 b1 b2 b3 payload =>
    simp only at h
    split at h
    next => cases h
    next clear =>
      cases h
      have clear := not_not.mp clear
      have word : Bytes.ofBe16 b0 b1 &&& callMask = Bytes.ofBe16 b0 b1 := by
        conv_rhs => rw [← split_word (Bytes.ofBe16 b0 b1), clear, UInt16.or_zero]
      refine ⟨⟨Nat.le_add_left 4 payload.length, fun _ first => ?_⟩, masked_lt _, ?_⟩
      · cases first
        exact (ofBe16_and_bit b0 b1).mp clear
      · rw [MiniFrame.encode, mask_again, word, Bytes.be16_ofBe16, Bytes.be16_ofBe16]
        rfl
  next => cases h

/-- A datagram with the first bit clear is read. -/
theorem IsMini.decode {b : Bytes} (mini : IsMini b) : ∃ m, MiniFrame.decode b = some m := by
  obtain ⟨length, first⟩ := mini
  rcases b with _ | ⟨b0, _ | ⟨b1, _ | ⟨b2, _ | ⟨b3, payload⟩⟩⟩⟩
  case cons.cons.cons.cons =>
    have clear := (ofBe16_and_bit b0 b1).mpr (first b0 rfl)
    exact ⟨_, if_neg (not_not_intro clear)⟩
  all_goals simp at length

/-- What is read as a mini frame is no full frame. -/
theorem decode_of_mini {dg : Bytes} {m : MiniFrame} (h : MiniFrame.decode dg = some m) :
    isFullFrame dg = false ∧ FullFrame.decode dg = none := by
  have notFull : isFullFrame dg = false := by
    obtain ⟨⟨_, first⟩, _⟩ := encode_of_mini h
    rcases dg with _ | ⟨b0, _ | ⟨b1, rest⟩⟩
    · rfl
    · rfl
    · exact decide_eq_false (not_not_intro (first b0 rfl))
  refine ⟨notFull, ?_⟩
  cases decoded : FullFrame.decode dg with
  | none => rfl
  | some f =>
    rw [isFullFrame_of_decode decoded] at notFull
    cases notFull

/-! ## Which decoder -/

/-- The codec of mini frames, and the classification of datagrams. The encoder and the decoder are
inverse bijections between the mini frames with a number that fits the wire and the datagrams of
mini frames. A datagram that one of the decoders accepts is classified as a frame of its kind, and
the other one refuses it. What an encoder writes is classified as a frame of its kind. -/
theorem mini_codec :
    (∀ m : MiniFrame, m.srcCall < 0x8000 → IsMini m.encode ∧ MiniFrame.decode m.encode = some m) ∧
    (∀ b, IsMini b ↔ ∃ m, MiniFrame.decode b = some m) ∧
    (∀ b m, MiniFrame.decode b = some m → m.srcCall < 0x8000 ∧ m.encode = b) ∧
    (∀ b f, FullFrame.decode b = some f → isFullFrame b = true ∧ MiniFrame.decode b = none) ∧
    (∀ b m, MiniFrame.decode b = some m → isFullFrame b = false ∧ FullFrame.decode b = none) ∧
    (∀ f : FullFrame, isFullFrame f.encode = true) ∧
    (∀ (f : FullFrame) (payload : Bytes), isFullFrame (f.encodeMedia payload) = true) ∧
    ∀ m : MiniFrame, isFullFrame m.encode = false := by
  refine ⟨fun m src => ⟨isMini_encode m, ?_⟩, fun b => ⟨IsMini.decode, ?_⟩,
    fun b m h => (encode_of_mini h).2, fun b f h => ?_, fun b m h => decode_of_mini h,
    fun f => isFullFrame_of_read (Header.read_encode f),
    fun f payload => isFullFrame_of_read (Header.read_encodeMedia f payload), isFullFrame_mini⟩
  · rw [decode_mini, masked_of_lt src]
  · rintro ⟨m, h⟩
    exact (encode_of_mini h).1
  · have full := isFullFrame_of_decode h
    refine ⟨full, ?_⟩
    cases decoded : MiniFrame.decode b with
    | none => rfl
    | some m =>
      rw [(decode_of_mini decoded).1] at full
      cases full

/-- A mini frame of three bytes. -/
theorem mini_codec_sample :
    MiniFrame.decode (MiniFrame.encode ⟨5, 1000, [255, 127, 0]⟩) = some ⟨5, 1000, [255, 127, 0]⟩ ∧
      FullFrame.decode [0, 5, 3, 232, 255, 127, 0] = none :=
  ⟨(mini_codec.1 ⟨5, 1000, [255, 127, 0]⟩ (by decide)).2,
    (mini_codec.2.2.2.2.1 [0, 5, 3, 232, 255, 127, 0] ⟨5, 1000, [255, 127, 0]⟩ (by decide)).2⟩

end Iax2
