import Iax2.G711
import Iax2.Lib.Companding
import Mathlib.Data.List.Forall2
import Mathlib.Data.Nat.Bitwise
import Mathlib.Logic.Function.Iterate
import Mathlib.Order.Monotone.Basic

/-!
# What G.711 keeps of a sample

The coder is a quantisation at the leading bit, with four bits below it and steps from 8 on, of the
magnitude moved up by the bias. So a sample comes back in its place among the others, with an error
of one part in 32 of that (`companding`), and what was coded once is coded again without a
further loss (`tandem`).
-/

namespace Iax2.G711

open Companding

/-! ## Bytes -/

/-- The byte with these fields. -/
def byte (negative : Bool) (e m : Nat) : UInt8 :=
  ~~~ UInt8.ofNat ((if negative then 0x80 else 0) ||| (e <<< 4) ||| m)

theorem decode_byte : ∀ (negative : Bool) (e : Fin 8) (m : Fin 16),
    (decode (byte negative e m)).toInt =
      if negative then 132 - (middle 4 2 e m : Int) else (middle 4 2 e m : Int) - 132 := by
  decide +kernel

private theorem byte_fields : ∀ n : Fin 256,
    UInt8.ofNat n = byte (n.val < 128) ((255 - n.val) / 16 % 8) ((255 - n.val) % 16) := by
  decide +kernel

/-- Every byte has its fields. -/
theorem exists_byte (u : UInt8) :
    ∃ (negative : Bool) (e m : Nat), e < 8 ∧ m < 16 ∧ u = byte negative e m := by
  have fields := byte_fields ⟨u.toNat, u.toNat_lt⟩
  rw [UInt8.ofNat_toNat] at fields
  exact ⟨_, _, _, Nat.mod_lt _ (by omega), Nat.mod_lt _ (by omega), fields⟩

/-! ## The coder -/

/-- The magnitude that is quantised. -/
def magnitude (sample : Int16) : Nat := min sample.toInt.natAbs clip + bias

theorem magnitude_large (sample : Int16) : 2 ^ (4 + 2 + 1) ≤ magnitude sample := by
  rw [magnitude, bias]
  omega

theorem magnitude_lt (sample : Int16) : magnitude sample < 2 ^ 15 := by
  rw [magnitude, bias, clip]
  omega

private theorem and_mask {s e : Nat} (below : s < 2 ^ (e + 8)) :
    s &&& 2 ^ (e + 7) = 0 ↔ s < 2 ^ (e + 7) := by
  rw [Nat.and_two_pow]
  rcases Nat.lt_or_ge s (2 ^ (e + 7)) with less | lower
  · rw [Nat.testBit_lt_two_pow less, Bool.toNat_false, Nat.zero_mul]
    exact ⟨fun _ => less, fun _ => rfl⟩
  · rw [Nat.testBit_of_two_pow_le_and_two_pow_add_one_gt lower below, Bool.toNat_true, Nat.one_mul]
    have := Nat.two_pow_pos (e + 7)
    omega

/-- The loop finds the leading bit. -/
theorem exponentLoop_eq {s e : Nat} (large : 2 ^ 7 ≤ s) (below : s < 2 ^ (e + 8)) :
    exponentLoop s e (2 ^ (e + 7)) = Nat.log2 s - 7 := by
  induction e with
  | zero =>
    have leading : Nat.log2 s = 7 := (Nat.log2_eq_iff (by omega)).mpr ⟨large, below⟩
    rw [leading]
    rfl
  | succ e ih =>
    rw [exponentLoop]
    split
    next clear =>
      have shifted : 2 ^ (e + 1 + 7) >>> 1 = 2 ^ (e + 7) := by
        rw [Nat.shiftRight_eq_div_pow, Nat.add_right_comm, Nat.pow_succ, Nat.pow_one,
          Nat.mul_div_cancel _ (by omega)]
      rw [shifted]
      exact ih ((and_mask below).mp clear)
    next set =>
      have lower := Nat.not_lt.mp fun less => set ((and_mask below).mpr less)
      have leading : Nat.log2 s = e + 1 + 7 := (Nat.log2_eq_iff (by omega)).mpr ⟨lower, below⟩
      rw [leading]
      rfl

/-- The byte of a sample: its sign, and the code of its magnitude. -/
theorem encode_eq (sample : Int16) :
    encode sample =
      byte (sample.toInt < 0) (code 4 2 (magnitude sample)).1 (code 4 2 (magnitude sample)).2 := by
  have clipped : (if clip < sample.toInt.natAbs then clip else sample.toInt.natAbs) + bias =
      magnitude sample := by
    rw [magnitude]
    split <;> omega
  have loop : exponentLoop (magnitude sample) 7 0x4000 = Nat.log2 (magnitude sample) - 7 :=
    exponentLoop_eq (magnitude_large sample) (magnitude_lt sample)
  simp only [encode, clipped, loop, byte, code, decide_eq_true_eq]
  rw [Nat.shiftRight_eq_div_pow, show (0x0F : Nat) = 2 ^ 4 - 1 from rfl,
    Nat.and_two_pow_sub_one_eq_mod]

theorem code_fst_lt (sample : Int16) : (code 4 2 (magnitude sample)).1 < 8 := by
  have leading : Nat.log2 (magnitude sample) < 15 :=
    (Nat.log2_lt (by have := magnitude_large sample; omega)).mpr (magnitude_lt sample)
  show Nat.log2 (magnitude sample) - 7 < 8
  omega

/-- The middle of the cell of a sample. -/
def level (sample : Int16) : Nat :=
  middle 4 2 (code 4 2 (magnitude sample)).1 (code 4 2 (magnitude sample)).2

/-- What a sample comes back as: its level, with the bias taken off and the sign put back. -/
theorem decode_encode_toInt (sample : Int16) :
    (decode (encode sample)).toInt =
      if sample.toInt < 0 then 132 - (level sample : Int) else (level sample : Int) - 132 := by
  have fields := decode_byte (sample.toInt < 0) ⟨_, code_fst_lt sample⟩
    ⟨_, code_snd_lt 4 2 (magnitude sample)⟩
  rw [encode_eq, fields]
  simp only [decide_eq_true_eq, level]

theorem level_mono {s t : Int16} (le : magnitude s ≤ magnitude t) : level s ≤ level t :=
  middle_mono (magnitude_large s) le

/-- No level is below the one of the silence. -/
theorem le_level (sample : Int16) : 132 ≤ level sample := by
  have least : 132 ≤ magnitude sample := by
    rw [magnitude, bias]
    omega
  have silence : middle 4 2 (code 4 2 132).1 (code 4 2 132).2 = 132 := by decide +kernel
  calc 132 = middle 4 2 (code 4 2 132).1 (code 4 2 132).2 := silence.symm
    _ ≤ level sample := middle_mono (by decide) least

/-- The level of a sample that is not clipped is near to it, and the last level to one that is. -/
theorem level_near (sample : Int16) :
    32 * ((level sample : Int) - (sample.toInt.natAbs + 132)).natAbs ≤
      sample.toInt.natAbs + 132 := by
  rcases Nat.lt_or_ge clip sample.toInt.natAbs with cut | kept
  · have whole : magnitude sample = 32767 := by
      rw [magnitude, Nat.min_eq_right cut.le]
      rfl
    have last : middle 4 2 (code 4 2 32767).1 (code 4 2 32767).2 = 32256 := by decide +kernel
    have range : sample.toInt.natAbs ≤ 32768 := by
      have := sample.le_toInt
      have := sample.toInt_lt
      omega
    rw [level, whole, last]
    rw [clip] at cut
    omega
  · have near := middle_near (magnitude_large sample)
    have whole : magnitude sample = sample.toInt.natAbs + 132 := by
      rw [magnitude, Nat.min_eq_left kept]
      rfl
    rw [← level, whole] at near
    exact_mod_cast near

/-! ## Results -/

/-- A sample that differs by no more than one part in 32 of the biased magnitude. -/
def Near (s s' : Int16) : Prop := 32 * (s'.toInt - s.toInt).natAbs ≤ s.toInt.natAbs + 132

theorem decode_encode_near (s : Int16) : Near s (decode (encode s)) := by
  have near := level_near s
  unfold Near
  rw [decode_encode_toInt]
  split <;> omega

theorem decode_encode_mono {s t : Int16} (le : s.toInt ≤ t.toInt) :
    (decode (encode s)).toInt ≤ (decode (encode t)).toInt := by
  rw [decode_encode_toInt, decode_encode_toInt]
  have low := le_level s
  have low' := le_level t
  by_cases negative : s.toInt < 0
  · rw [if_pos negative]
    split
    next negative' =>
      have below : level t ≤ level s := by
        apply level_mono
        rw [magnitude, magnitude]
        omega
      omega
    next => omega
  · have above : level s ≤ level t := by
      apply level_mono
      rw [magnitude, magnitude]
      omega
    rw [if_neg negative, if_neg (by omega)]
    omega

/-- A sample that is coded and decoded differs from what it was by no more than one part in 32 of
its biased magnitude, and the order of the samples is kept. -/
theorem companding (s t : Int16) :
    Near s (decode (encode s)) ∧
      (s.toInt ≤ t.toInt → (decode (encode s)).toInt ≤ (decode (encode t)).toInt) :=
  ⟨decode_encode_near s, decode_encode_mono⟩

/-- The same of all samples of a block. -/
theorem block_near (pcm : List Int16) :
    List.Forall₂ Near pcm (decodeBlock (encodeBlock pcm []) []) := by
  simp only [encodeBlock, decodeBlock, List.nil_append, List.map_map]
  exact List.forall₂_map_right_iff.mpr (List.forall₂_same.mpr fun s _ => decode_encode_near s)

private theorem middle_range : ∀ (e : Fin 8) (m : Fin 16),
    middle 4 2 e m ≤ 32256 ∧ (132 < middle 4 2 e m ∨ e = 0 ∧ m = 0) := by
  decide

/-- A byte that was decoded is coded again as it was, but for the second zero. -/
theorem encode_decode {u : UInt8} (one : u ≠ 0x7F) : encode (decode u) = u := by
  obtain ⟨negative, e, m, he, hm, rfl⟩ := exists_byte u
  have value := decode_byte negative ⟨e, he⟩ ⟨m, hm⟩
  obtain ⟨high, low⟩ := middle_range ⟨e, he⟩ ⟨m, hm⟩
  simp only at value high low
  have signed : decide ((decode (byte negative e m)).toInt < 0) = negative := by
    cases negative
    · simp only [value, Bool.false_eq_true, if_false, decide_eq_false_iff_not]
      rcases low with low | ⟨he0, hm0⟩
      · omega
      · cases he0
        cases hm0
        decide
    · rcases low with low | ⟨he0, hm0⟩
      · simp only [value, if_true, decide_eq_true_eq]
        omega
      · cases he0
        cases hm0
        exact absurd (by decide) one
  have whole : magnitude (decode (byte negative e m)) = middle 4 2 e m := by
    rw [magnitude, value, bias, clip]
    rcases low with low | ⟨he0, hm0⟩
    · split <;> omega
    · cases he0
      cases hm0
      cases negative <;> decide
  rw [encode_eq, signed, whole, code_middle hm]

/-- The loudest sample that a byte stands for. -/
theorem decode_natAbs_le (u : UInt8) : (decode u).toInt.natAbs ≤ 32124 := by
  obtain ⟨negative, e, m, he, hm, rfl⟩ := exists_byte u
  have value := decode_byte negative ⟨e, he⟩ ⟨m, hm⟩
  obtain ⟨high, low⟩ := middle_range ⟨e, he⟩ ⟨m, hm⟩
  simp only at value high low
  rw [value]
  rcases low with low | ⟨he0, hm0⟩
  · split <;> omega
  · cases he0
    cases hm0
    cases negative <;> decide

/-- A block, decoded and coded again. -/
def recode (ulaw : Bytes) : Bytes := encodeBlock (decodeBlock ulaw []) []

/-- A byte with the one zero for the other. -/
def oneZero (u : UInt8) : UInt8 := if u = 0x7F then 0xFF else u

theorem encode_decode_eq (u : UInt8) : encode (decode u) = oneZero u := by
  by_cases second : u = 0x7F
  · rw [second]
    decide
  · rw [encode_decode second, oneZero, if_neg second]

theorem decode_oneZero (u : UInt8) : decode (oneZero u) = decode u := by
  by_cases second : u = 0x7F
  · rw [second]
    decide
  · rw [oneZero, if_neg second]

theorem oneZero_oneZero (u : UInt8) : oneZero (oneZero u) = oneZero u := by
  by_cases second : u = 0x7F
  · rw [second]
    decide
  · have one : oneZero u = u := if_neg second
    rw [one, one]

theorem recode_eq (ulaw : Bytes) : recode ulaw = ulaw.map oneZero := by
  simp only [recode, encodeBlock, decodeBlock, List.nil_append, List.map_map]
  exact List.map_congr_left fun u _ => encode_decode_eq u

theorem recode_iterate (ulaw : Bytes) (stages : Nat) :
    recode^[stages + 1] ulaw = ulaw.map oneZero := by
  induction stages with
  | zero => exact recode_eq ulaw
  | succ stages ih =>
    rw [Function.iterate_succ_apply', ih, recode_eq, List.map_map]
    exact List.map_congr_left fun u _ => oneZero_oneZero u

/-- Blocks that pass through further pairs of a decoder and a coder, any number of them, keep their
samples, and all bytes but the second zero. -/
theorem tandem (ulaw : Bytes) (stages : Nat) :
    decodeBlock (recode^[stages] ulaw) [] = decodeBlock ulaw [] ∧
      ((∀ u ∈ ulaw, u ≠ 0x7F) → recode^[stages] ulaw = ulaw) := by
  cases stages with
  | zero => exact ⟨rfl, fun _ => rfl⟩
  | succ stages =>
    rw [recode_iterate]
    constructor
    · simp only [decodeBlock, List.nil_append, List.map_map]
      exact List.map_congr_left fun u _ => decode_oneZero u
    · intro one
      calc ulaw.map oneZero = ulaw.map id :=
            List.map_congr_left fun u mem => if_neg (one u mem)
        _ = ulaw := List.map_id ulaw

end Iax2.G711
