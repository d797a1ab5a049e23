/-
**Bits packed into bytes, lowest bit first.**

A list of Booleans is stored eight to a byte, the first of them in bit `0` of the first byte and
the last byte filled up with zeros.  This module develops the packing on its own: one bit of a
byte and its update, one byte as a list of eight bits, and a whole list of bits as a list of bytes.

Main definitions:

* `BitPack.bitAt`, `BitPack.setBitAt` — reading and writing one bit of a byte;
* `BitPack.packByte`, `BitPack.unpackByte` — one byte and its bits;
* `BitPack.divCeil`, `BitPack.chunks` — division rounding up, and cutting a list into chunks;
* `BitPack.packBits`, `BitPack.unpackBits` — a list of bits as a list of bytes and back;
* `BitPack.padBits` — a list of bits filled up with `false` to a multiple of eight.

Main results:

* `BitPack.bitAt_setBitAt` — writing a bit changes that bit and no other;
* `BitPack.unpackByte_packByte`, `BitPack.packByte_unpackByte` — a byte is its eight bits;
* `BitPack.unpackBits_packBits` — **unpacking what was packed gives the padded list**;
* `BitPack.packBits_unpackBits` — packing what was unpacked gives the bytes back.
-/

import Mathlib

set_option relaxedAutoImplicit false
set_option autoImplicit false

namespace BitPack

/-! ### One bit of a byte -/

/-- Bit `i` of a byte. -/
def bitAt (b : UInt8) (i : ℕ) : Bool := b &&& (1 <<< UInt8.ofNat i) != 0

/-- The byte with bit `i` set to `v`. -/
def setBitAt (b : UInt8) (i : ℕ) (v : Bool) : UInt8 :=
  if v then b ||| (1 <<< UInt8.ofNat i) else b &&& ~~~(1 <<< UInt8.ofNat i)

private theorem toBitVec_ofNat_mod {i : ℕ} (hi : i < 8) :
    (UInt8.ofNat i).toBitVec % 8 = BitVec.ofNat 8 i := by
  apply BitVec.eq_of_toNat_eq
  simp
  omega

private theorem toBitVec_one_shiftLeft {i : ℕ} (hi : i < 8) :
    ((1 : UInt8) <<< UInt8.ofNat i).toBitVec = BitVec.twoPow 8 i := by
  rw [UInt8.toBitVec_shiftLeft, toBitVec_ofNat_mod hi, BitVec.twoPow]
  simp [Nat.mod_eq_of_lt (show i < 256 by omega)]

theorem bitAt_eq_getLsbD (b : UInt8) {i : ℕ} (hi : i < 8) : bitAt b i = b.toBitVec.getLsbD i := by
  have hz : (b &&& (1 <<< UInt8.ofNat i) = 0) ↔ b.toBitVec &&& BitVec.twoPow 8 i = 0#8 := by
    rw [← UInt8.toBitVec_inj, UInt8.toBitVec_and, toBitVec_one_shiftLeft hi]
    rfl
  cases hb : b.toBitVec.getLsbD i with
  | false =>
      have h0 : b.toBitVec &&& BitVec.twoPow 8 i = 0#8 := by
        rw [BitVec.and_twoPow, hb]
        rfl
      simp [bitAt, hz.2 h0]
  | true =>
      have h1 : b.toBitVec &&& BitVec.twoPow 8 i ≠ 0#8 := by
        rw [BitVec.and_twoPow, hb]
        intro h
        have := congrArg (BitVec.getLsbD · i) h
        simp [hi] at this
      simp [bitAt, mt hz.1 h1]

/-- The other way to read a bit: shift it down and mask it. -/
theorem shiftRight_and_one (b : UInt8) {i : ℕ} (hi : i < 8) :
    ((b >>> UInt8.ofNat i) &&& 1 != 0) = bitAt b i := by
  have hz : ((b >>> UInt8.ofNat i) &&& 1 = 0) ↔
      (b.toBitVec >>> i) &&& BitVec.twoPow 8 0 = 0#8 := by
    rw [← UInt8.toBitVec_inj, UInt8.toBitVec_and, UInt8.toBitVec_shiftRight, toBitVec_ofNat_mod hi,
      BitVec.ushiftRight_eq', BitVec.toNat_ofNat, Nat.mod_eq_of_lt (show i < 2 ^ 8 by omega)]
    rfl
  rw [bitAt_eq_getLsbD b hi]
  rw [BitVec.and_twoPow, BitVec.getLsbD_ushiftRight, Nat.add_zero] at hz
  cases hb : b.toBitVec.getLsbD i with
  | false => simp [hz.2 (by simp [hb])]
  | true => simp [mt hz.1 (by simp only [hb, if_true]; decide)]

/-- Two bytes with the same eight bits are equal. -/
theorem ext_bitAt {a b : UInt8} (h : ∀ i < 8, bitAt a i = bitAt b i) : a = b := by
  apply UInt8.toBitVec_inj.1
  apply BitVec.eq_of_getLsbD_eq
  intro i hi
  rw [← bitAt_eq_getLsbD a hi, ← bitAt_eq_getLsbD b hi, h i hi]

/-- **Writing a bit changes that bit and no other.** -/
theorem bitAt_setBitAt (b : UInt8) (v : Bool) {i j : ℕ} (hi : i < 8) (hj : j < 8) :
    bitAt (setBitAt b i v) j = if j = i then v else bitAt b j := by
  rw [bitAt_eq_getLsbD _ hj, bitAt_eq_getLsbD _ hj]
  cases v with
  | true =>
      simp only [setBitAt, if_true, UInt8.toBitVec_or, toBitVec_one_shiftLeft hi,
        BitVec.getLsbD_or, BitVec.getLsbD_twoPow, hi]
      by_cases hij : j = i
      · simp [hij]
      · simp [hij, Ne.symm hij]
  | false =>
      simp only [setBitAt, Bool.false_eq_true, if_false, UInt8.toBitVec_and, UInt8.toBitVec_not,
        toBitVec_one_shiftLeft hi, BitVec.getLsbD_and, BitVec.getLsbD_not, BitVec.getLsbD_twoPow,
        hi, hj]
      by_cases hij : j = i
      · simp [hij]
      · simp [hij, Ne.symm hij]

@[simp] theorem bitAt_zero (i : ℕ) : bitAt 0 i = false := by
  simp [bitAt]

/-! ### One byte -/

/-- The loop that fills a byte: the bits of `chunk` are or-ed in from bit `i` on. -/
def packFrom : ℕ → List Bool → UInt8 → UInt8
  | _, [], byte => byte
  | i, v :: chunk, byte =>
      packFrom (i + 1) chunk (if v then byte ||| (1 <<< UInt8.ofNat i) else byte)

/-- The byte that holds the bits of `chunk`, lowest first. -/
def packByte (chunk : List Bool) : UInt8 := packFrom 0 chunk 0

/-- The eight bits of a byte, lowest first. -/
def unpackByte (b : UInt8) : List Bool := (List.range 8).map (bitAt b)

@[simp] theorem unpackByte_length (b : UInt8) : (unpackByte b).length = 8 := by simp [unpackByte]

theorem bitAt_packFrom (chunk : List Bool) : ∀ (i : ℕ) (byte : UInt8) (j : ℕ),
    i + chunk.length ≤ 8 → j < 8 →
    bitAt (packFrom i chunk byte) j = (bitAt byte j || (decide (i ≤ j) && chunk.getD (j - i) false))
    := by
  induction chunk with
  | nil => intro i byte j _ _; simp [packFrom]
  | cons v chunk ih =>
      intro i byte j hlen hj
      simp only [List.length_cons] at hlen
      have hstep : bitAt (if v then byte ||| (1 <<< UInt8.ofNat i) else byte) j
          = (bitAt byte j || (decide (j = i) && v)) := by
        cases v with
        | false => simp
        | true =>
            have h := bitAt_setBitAt byte true (show i < 8 by omega) hj
            simp only [setBitAt, if_true] at h
            rw [if_pos rfl, h]
            by_cases hij : j = i <;> simp [hij]
      rw [packFrom, ih (i + 1) _ j (by omega) hj, hstep]
      rcases Nat.lt_trichotomy j i with h | h | h
      · simp [show ¬ i ≤ j by omega, show ¬ i + 1 ≤ j by omega, show ¬ j = i by omega]
      · subst h
        simp
      · obtain ⟨k, rfl⟩ : ∃ k, j = i + 1 + k := ⟨j - (i + 1), by omega⟩
        simp [show i + 1 + k - i = k + 1 by omega, show i + 1 + k ≠ i by omega,
          show i ≤ i + 1 + k by omega]

theorem bitAt_packByte {chunk : List Bool} (h : chunk.length ≤ 8) {j : ℕ} (hj : j < 8) :
    bitAt (packByte chunk) j = chunk.getD j false := by
  rw [packByte, bitAt_packFrom chunk 0 0 j (by omega) hj]
  simp

/-- The bits of a packed byte: the chunk, filled up with `false`. -/
theorem unpackByte_packByte {chunk : List Bool} (h : chunk.length ≤ 8) :
    unpackByte (packByte chunk) = chunk ++ List.replicate (8 - chunk.length) false := by
  refine List.ext_getElem (by simp; omega) ?_
  intro j hj₁ hj₂
  have hj : j < 8 := by simpa using hj₁
  simp only [unpackByte, List.getElem_map, List.getElem_range, bitAt_packByte h hj]
  rw [List.getElem_append]
  split
  · next hlt => simp [hlt]
  · next hge => rw [List.getD_eq_default _ _ (not_lt.1 hge), List.getElem_replicate]

/-- **A byte is the byte of its eight bits.** -/
@[simp] theorem packByte_unpackByte (b : UInt8) : packByte (unpackByte b) = b := by
  refine ext_bitAt fun j hj => ?_
  rw [bitAt_packByte (by simp) hj, List.getD_eq_getElem _ _ (by simpa using hj)]
  simp [unpackByte]

/-! ### Chunks -/

/-- Division rounding up. -/
def divCeil (n d : ℕ) : ℕ := (n + (d - 1)) / d

/-- The list cut into chunks of `d`, the last of which may be shorter. -/
def chunks {α : Type*} (d : ℕ) (l : List α) : List (List α) :=
  (List.range (divCeil l.length d)).map fun k => (l.drop (d * k)).take d

@[simp] theorem chunks_length {α : Type*} (d : ℕ) (l : List α) :
    (chunks d l).length = divCeil l.length d := by simp [chunks]

@[simp] theorem chunks_nil {α : Type*} {d : ℕ} (hd : 0 < d) : chunks d ([] : List α) = [] := by
  simp [chunks, divCeil, Nat.div_eq_of_lt (show d - 1 < d by omega)]

/-- A nonempty list starts with its first chunk. -/
theorem chunks_of_ne_nil {α : Type*} {d : ℕ} (hd : 0 < d) {l : List α} (hl : l ≠ []) :
    chunks d l = l.take d :: chunks d (l.drop d) := by
  have hlen : 0 < l.length := List.length_pos_iff.2 hl
  have hcount : divCeil l.length d = divCeil (l.drop d).length d + 1 := by
    rw [divCeil, divCeil, List.length_drop]
    rcases Nat.lt_or_ge l.length d with h | h
    · rw [Nat.div_eq_of_lt (show l.length - d + (d - 1) < d by omega),
        show l.length + (d - 1) = (l.length - 1) + d by omega, Nat.add_div_right _ hd,
        Nat.div_eq_of_lt (show l.length - 1 < d by omega)]
    · rw [show l.length + (d - 1) = (l.length - d + (d - 1)) + d by omega,
        Nat.add_div_right _ hd]
  rw [chunks, chunks, hcount, List.range_succ_eq_map]
  simp only [List.map_cons, List.map_map, Nat.mul_zero, List.drop_zero, List.drop_drop]
  congr 1
  refine List.map_congr_left fun k _ => ?_
  simp only [Function.comp_apply]
  rw [Nat.mul_succ, Nat.add_comm]

/-! ### Lists of bits -/

/-- The bytes that hold a list of bits. -/
def packBits (l : List Bool) : List UInt8 := (chunks 8 l).map packByte

/-- All the bits of a list of bytes. -/
def unpackBits (bs : List UInt8) : List Bool := bs.flatMap unpackByte

/-- The list filled up with `false` to a multiple of eight. -/
def padBits (l : List Bool) : List Bool :=
  l ++ List.replicate (8 * divCeil l.length 8 - l.length) false

@[simp] theorem packBits_length (l : List Bool) : (packBits l).length = divCeil l.length 8 := by
  simp [packBits]

@[simp] theorem unpackBits_nil : unpackBits [] = [] := rfl

@[simp] theorem unpackBits_cons (b : UInt8) (bs : List UInt8) :
    unpackBits (b :: bs) = unpackByte b ++ unpackBits bs := rfl

@[simp] theorem unpackBits_length (bs : List UInt8) : (unpackBits bs).length = 8 * bs.length := by
  induction bs with
  | nil => rfl
  | cons b bs ih => simp [ih]; omega

theorem packBits_of_ne_nil {l : List Bool} (hl : l ≠ []) :
    packBits l = packByte (l.take 8) :: packBits (l.drop 8) := by
  simp [packBits, chunks_of_ne_nil (show 0 < 8 by omega) hl]

theorem packBits_nil : packBits [] = [] := by simp [packBits]

/-- **Unpacking what was packed gives the padded list.** -/
theorem unpackBits_packBits (l : List Bool) : unpackBits (packBits l) = padBits l := by
  induction h : l.length using Nat.strong_induction_on generalizing l with
  | _ n ih =>
      subst h
      by_cases hl : l = []
      · subst hl
        simp [packBits_nil, padBits, divCeil]
      · have hpos : 0 < l.length := List.length_pos_iff.2 hl
        have hrest := ih (l.drop 8).length (by simp; omega) (l.drop 8) rfl
        rw [packBits_of_ne_nil hl, unpackBits_cons, hrest,
          unpackByte_packByte (by simp)]
        rcases Nat.lt_or_ge l.length 8 with hlt | hge
        · simp [padBits, divCeil, List.take_of_length_le hlt.le, List.drop_of_length_le hlt.le]
          omega
        · have h8 : (l.take 8).length = 8 := by simp; omega
          rw [h8, Nat.sub_self, List.replicate_zero, List.append_nil, padBits, padBits,
            ← List.append_assoc, List.take_append_drop]
          congr 2
          simp only [divCeil, List.length_drop]
          omega

theorem take_padBits (l : List Bool) : (padBits l).take l.length = l := by
  simp [padBits]

theorem padBits_length (l : List Bool) : (padBits l).length = 8 * divCeil l.length 8 := by
  simp only [padBits, List.length_append, List.length_replicate, divCeil]
  omega

/-- **Packing what was unpacked gives the bytes back.** -/
theorem packBits_unpackBits (bs : List UInt8) : packBits (unpackBits bs) = bs := by
  induction bs with
  | nil => simp [packBits_nil]
  | cons b bs ih =>
      have hne : unpackBits (b :: bs) ≠ [] := by
        intro h
        have := congrArg List.length h
        simp at this
      rw [packBits_of_ne_nil hne, unpackBits_cons, List.take_left' (by simp),
        List.drop_left' (by simp), packByte_unpackByte, ih]

/-- The bits of a byte string, one by one. -/
theorem getElem?_unpackBits (bs : List UInt8) (k : ℕ) {j : ℕ} (hj : j < 8) :
    (unpackBits bs)[8 * k + j]? = bs[k]?.map (bitAt · j) := by
  induction bs generalizing k with
  | nil => rfl
  | cons b bs ih =>
      rw [unpackBits_cons]
      cases k with
      | zero =>
          rw [List.getElem?_append_left (by simpa using hj), unpackByte, List.getElem?_map,
            List.getElem?_range (by omega), Nat.mul_zero, Nat.zero_add]
          rfl
      | succ k =>
          rw [List.getElem?_append_right (by simp; omega), unpackByte_length,
            show 8 * (k + 1) + j - 8 = 8 * k + j by omega, ih, List.getElem?_cons_succ]

/-- Byte strings whose first bits are the same have the same bits there. -/
theorem bitAt_of_take_unpackBits {bs cs : List UInt8} {n k j : ℕ}
    (h : (unpackBits bs).take n = (unpackBits cs).take n) (hj : j < 8) (hn : 8 * k + j < n) :
    bs[k]?.map (bitAt · j) = cs[k]?.map (bitAt · j) := by
  rw [← getElem?_unpackBits bs k hj, ← getElem?_unpackBits cs k hj,
    ← List.getElem?_take_of_lt hn, h, List.getElem?_take_of_lt hn]

end BitPack
