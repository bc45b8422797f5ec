import Mathlib.Init

/-!
# Bytes and text

Fixed-width big-endian fields and UTF-8 text, as a byte-oriented protocol needs them: the writers,
the readers, and the law that a field reads back. `ofUtf8Lossy` is the total reading of text from
bytes: a maximal ill-formed part of the input reads as one replacement character.
-/

/-- A byte string. -/
abbrev Bytes := List UInt8

namespace Bytes

/-! ## Big-endian fields -/

/-- The two bytes of a 16-bit field, most significant first. -/
def be16 (n : UInt16) : Bytes := [UInt8.ofNat (n.toNat / 256), UInt8.ofNat n.toNat]

/-- The field of two bytes. -/
def ofBe16 (a b : UInt8) : UInt16 := UInt16.ofNat (a.toNat * 256 + b.toNat)

/-- The four bytes of a 32-bit field, most significant first. -/
def be32 (n : UInt32) : Bytes :=
  [UInt8.ofNat (n.toNat / 16777216), UInt8.ofNat (n.toNat / 65536), UInt8.ofNat (n.toNat / 256),
    UInt8.ofNat n.toNat]

/-- The field of four bytes. -/
def ofBe32 (a b c d : UInt8) : UInt32 :=
  UInt32.ofNat (a.toNat * 16777216 + b.toNat * 65536 + c.toNat * 256 + d.toNat)

/-- A 16-bit field reads back. -/
theorem ofBe16_be16 (n : UInt16) :
    ofBe16 (UInt8.ofNat (n.toNat / 256)) (UInt8.ofNat n.toNat) = n := by
  have hn := n.toNat_lt
  apply UInt16.toNat_inj.mp
  simp only [ofBe16, UInt16.toNat_ofNat', UInt8.toNat_ofNat']
  omega

/-- A 32-bit field reads back. -/
theorem ofBe32_be32 (n : UInt32) :
    ofBe32 (UInt8.ofNat (n.toNat / 16777216)) (UInt8.ofNat (n.toNat / 65536))
      (UInt8.ofNat (n.toNat / 256)) (UInt8.ofNat n.toNat) = n := by
  have hn := n.toNat_lt
  apply UInt32.toNat_inj.mp
  simp only [ofBe32, UInt32.toNat_ofNat', UInt8.toNat_ofNat']
  omega

/-- Two bytes are the field that they read as. -/
theorem be16_ofBe16 (a b : UInt8) : be16 (ofBe16 a b) = [a, b] := by
  have ha := a.toNat_lt
  have hb := b.toNat_lt
  have value : (ofBe16 a b).toNat = a.toNat * 256 + b.toNat := by
    rw [ofBe16, UInt16.toNat_ofNat', Nat.mod_eq_of_lt (by omega)]
  have high : UInt8.ofNat ((a.toNat * 256 + b.toNat) / 256) = a := by
    apply UInt8.toNat_inj.mp
    rw [UInt8.toNat_ofNat']
    omega
  have low : UInt8.ofNat (a.toNat * 256 + b.toNat) = b := by
    apply UInt8.toNat_inj.mp
    rw [UInt8.toNat_ofNat']
    omega
  rw [be16, value, high, low]

/-- Four bytes are the field that they read as. -/
theorem be32_ofBe32 (a b c d : UInt8) : be32 (ofBe32 a b c d) = [a, b, c, d] := by
  have ha := a.toNat_lt
  have hb := b.toNat_lt
  have hc := c.toNat_lt
  have hd := d.toNat_lt
  have value : (ofBe32 a b c d).toNat =
      a.toNat * 16777216 + b.toNat * 65536 + c.toNat * 256 + d.toNat := by
    rw [ofBe32, UInt32.toNat_ofNat', Nat.mod_eq_of_lt (by omega)]
  have byte (n : Nat) (x : UInt8) (h : n % 256 = x.toNat) : UInt8.ofNat n = x := by
    apply UInt8.toNat_inj.mp
    rw [UInt8.toNat_ofNat']
    exact h
  rw [be32, value, byte _ a (by omega), byte _ b (by omega), byte _ c (by omega),
    byte _ d (by omega)]

/-! ## Text -/

/-- The UTF-8 bytes of a text. -/
def ofText (s : String) : Bytes := s.toByteArray.data.toList

/-- A UTF-8 continuation byte. -/
def isContinuation (b : UInt8) : Bool := 0x80 ≤ b && b ≤ 0xBF

/-- The second bytes that a leading byte of a three-byte sequence admits: no overlong form and no
surrogate. -/
def secondOfThree (lead b : UInt8) : Bool :=
  if lead = 0xE0 then 0xA0 ≤ b && b ≤ 0xBF
  else if lead = 0xED then 0x80 ≤ b && b ≤ 0x9F
  else isContinuation b

/-- The second bytes that a leading byte of a four-byte sequence admits: no overlong form and no
code point past the last. -/
def secondOfFour (lead b : UInt8) : Bool :=
  if lead = 0xF0 then 0x90 ≤ b && b ≤ 0xBF
  else if lead = 0xF4 then 0x80 ≤ b && b ≤ 0x8F
  else isContinuation b

/-- The replacement character. -/
def replacement : Char := Char.ofNat 0xFFFD

/-- The six payload bits of a continuation byte. -/
def payload (b : UInt8) : Nat := b.toNat % 64

/-- The first character of a non-empty input and what is left of the input. An ill-formed
sequence reads as one replacement character and consumes the bytes that could still have begun a
well-formed one. -/
def firstChar (b : UInt8) (rest : Bytes) : Char × Bytes :=
  if b < 0x80 then (Char.ofNat b.toNat, rest)
  else if 0xC2 ≤ b && b ≤ 0xDF then
    match rest with
    | c :: rest' =>
      if isContinuation c then (Char.ofNat (b.toNat % 32 * 64 + payload c), rest')
      else (replacement, rest)
    | [] => (replacement, [])
  else if 0xE0 ≤ b && b ≤ 0xEF then
    match rest with
    | c :: rest' =>
      if secondOfThree b c then
        match rest' with
        | d :: rest'' =>
          if isContinuation d then
            (Char.ofNat (b.toNat % 16 * 4096 + payload c * 64 + payload d), rest'')
          else (replacement, rest')
        | [] => (replacement, [])
      else (replacement, rest)
    | [] => (replacement, [])
  else if 0xF0 ≤ b && b ≤ 0xF4 then
    match rest with
    | c :: rest' =>
      if secondOfFour b c then
        match rest' with
        | d :: rest'' =>
          if isContinuation d then
            match rest'' with
            | e :: rest''' =>
              if isContinuation e then
                (Char.ofNat (b.toNat % 8 * 262144 + payload c * 4096 + payload d * 64 + payload e),
                  rest''')
              else (replacement, rest'')
            | [] => (replacement, [])
          else (replacement, rest')
        | [] => (replacement, [])
      else (replacement, rest)
    | [] => (replacement, [])
  else (replacement, rest)

/-- The characters of at most `fuel` sequences. -/
def lossyChars : Nat → Bytes → List Char
  | 0, _ => []
  | _, [] => []
  | fuel + 1, b :: rest => (firstChar b rest).1 :: lossyChars fuel (firstChar b rest).2

/-- The text of a byte string, ill-formed parts replaced. Every sequence consumes a byte, so the
length of the input is enough fuel. -/
def ofUtf8Lossy (bytes : Bytes) : String := String.ofList (lossyChars bytes.length bytes)

/-- Lower-case hexadecimal of one byte, two digits. -/
def hex2 (b : UInt8) : String :=
  String.ofList [Nat.digitChar (b.toNat / 16), Nat.digitChar (b.toNat % 16)]

/-- No two texts have the same bytes. -/
theorem ofText_injective {s t : String} (h : ofText s = ofText t) : s = t :=
  String.toByteArray_inj.mp (ByteArray.ext (Array.toList_inj.mp h))

theorem utf8ByteSize_hex2 (b : UInt8) : (hex2 b).utf8ByteSize ≤ 8 := by
  have two (x y : Char) : String.ofList [x, y] = String.singleton x ++ String.singleton y := by
    rw [← List.singleton_append, String.ofList_append]
    rfl
  rw [hex2, two, String.utf8ByteSize_append, String.utf8ByteSize_singleton,
    String.utf8ByteSize_singleton]
  exact Nat.add_le_add (Char.utf8Size_le_four _) (Char.utf8Size_le_four _)

/-- The length of texts joined is bounded by the bound on each. -/
theorem utf8ByteSize_join {n : Nat} {l : List String} (h : ∀ s ∈ l, s.utf8ByteSize ≤ n) :
    (String.join l).utf8ByteSize ≤ l.length * n := by
  have loop (acc : String) :
      (l.foldl (· ++ ·) acc).utf8ByteSize ≤ acc.utf8ByteSize + l.length * n := by
    induction l generalizing acc with
    | nil => exact Nat.le_add_right _ _
    | cons s l ih =>
      have head := h s List.mem_cons_self
      have tail := ih (fun t ht => h t (List.mem_cons_of_mem s ht)) (acc ++ s)
      rw [String.utf8ByteSize_append] at tail
      rw [List.foldl_cons, List.length_cons, Nat.add_mul]
      omega
  exact Nat.le_trans (loop "") (Nat.le_of_eq (Nat.zero_add _))

example : ofUtf8Lossy [104, 0xC3, 0xA8, 0xFF, 0xE2, 0x82, 33] = "h\u00e8\ufffd\ufffd!" := by decide

end Bytes
