/-
**The CRC of an RTU frame: what it is and which errors it sees.**

The checksum of an RTU frame is a reflected CRC of sixteen bits, computed a byte at a time with a
table of 256 words.  Here it is put into the terms of `OmsModbus.ReflectedCrc`: the table does the
work of eight shifts, the bits of a byte come lowest first, and the checksum goes out low byte
first, so that a frame with its checksum leaves the register at zero.  The errors that are seen
then come from two properties of the polynomial `0xA001`: its top bit is set, and it has three ones.

Main definitions:

* `OmsModbus.bitwiseCrc` — the checksum computed bit by bit;
* `OmsModbus.errorBits` — the bits in which two frames differ;
* `OmsModbus.DiffersWithin` — two frames that differ within two adjacent bytes.

Main results:

* `OmsModbus.calculateCrc_spec` — **the table computes the bitwise CRC**, and a string with its CRC
  behind it has the CRC zero;
* `OmsModbus.tryParseServerRtu_corrupted` — **bursts of two bytes and odd numbers of flipped bits
  are seen**.
-/

import OmsModbus.ReflectedCrc
import OmsModbus.Rtu

set_option relaxedAutoImplicit false
set_option autoImplicit false

namespace OmsModbus

open Words BitPack

/-! ### One byte -/

/-- The polynomial of the CRC, reflected. -/
def crcPoly : BitVec 16 := 0xA001#16

theorem and_one_ne_zero_iff (c : UInt16) : c &&& 0x0001 ≠ 0 ↔ c.toBitVec.getLsbD 0 = true := by
  have h : (c &&& 0x0001).toBitVec = (BitVec.ofBool (c.toBitVec.getLsbD 0)).setWidth 16 := by
    rw [UInt16.toBitVec_and]
    exact BitVec.and_one_eq_setWidth_ofBool_getLsbD
  rw [ne_eq, ← UInt16.toBitVec_inj, h]
  cases c.toBitVec.getLsbD 0 <;> simp

/-- One step of the bitwise CRC is a shift of the register. -/
theorem crcShift_toBitVec (c : UInt16) :
    (crcShift c).toBitVec = ReflectedCrc.shift crcPoly c.toBitVec := by
  unfold crcShift ReflectedCrc.shift
  by_cases h : c &&& 0x0001 ≠ 0
  · rw [if_pos h, if_pos ((and_one_ne_zero_iff c).1 h)]
    rfl
  · rw [if_neg h, if_neg (mt (and_one_ne_zero_iff c).2 h)]
    rfl

/-- Eight steps, as the table and the bitwise CRC do them. -/
def crcShift8 (c : UInt16) : UInt16 := (List.range 8).foldl (fun crc _ => crcShift crc) c

theorem crcShift8_toBitVec (c : UInt16) :
    (crcShift8 c).toBitVec = (ReflectedCrc.shift crcPoly)^[8] c.toBitVec := by
  rw [crcShift8, List.foldl_const, List.length_range]
  exact Function.Semiconj.iterate_right (f := UInt16.toBitVec) crcShift_toBitVec 8 c

/-- An entry of the table. -/
theorem CRC_TABLE_getD (i : UInt8) : CRC_TABLE.getD i.toNat 0 = crcShift8 i.toUInt16 := by
  have hi := i.toNat_lt
  rw [List.getD_eq_getElem _ _ (by simpa [CRC_TABLE] using hi)]
  simp only [CRC_TABLE, List.getElem_map, List.getElem_range, crcShift8]
  rw [UInt16.ofNat_uInt8ToNat]

/-- The bits of a byte, as a value of the register. -/
theorem ofBits_unpackByte (b : UInt8) :
    ReflectedCrc.ofBits (unpackByte b) = b.toUInt16.toBitVec := by
  apply ReflectedCrc.ofBits_eq
  intro i _
  rw [UInt8.toBitVec_toUInt16, BitVec.getLsbD_setWidth]
  rcases Nat.lt_or_ge i 8 with hi | hi
  · rw [List.getD_eq_getElem _ _ (by simpa using hi)]
    simp [unpackByte, bitAt_eq_getLsbD b hi]
    omega
  · rw [List.getD_eq_default _ _ (by simpa using hi), BitVec.getLsbD_of_ge _ _ hi, Bool.and_false]

/-- The table does the work of eight shifts: the low byte of the register goes through the table,
the other moves down. -/
theorem crcShift8_eq (c : UInt16) :
    crcShift8 c = (c >>> 8) ^^^ CRC_TABLE.getD c.toUInt8.toNat 0 := by
  apply UInt16.toBitVec_inj.1
  rw [CRC_TABLE_getD, UInt16.toBitVec_xor, crcShift8_toBitVec, crcShift8_toBitVec,
    ReflectedCrc.iterate_shift_eq]
  rfl

/-- **A byte at a time**: the step of the checksum is eight shifts after the byte was added. -/
theorem crcStep_eq (c : UInt16) (b : UInt8) :
    (c >>> 8) ^^^ CRC_TABLE.getD (c.toUInt8 ^^^ b).toNat 0 = crcShift8 (c ^^^ b.toUInt16) := by
  have hhigh : b.toUInt16 >>> 8 = 0 := by
    apply UInt16.toNat_inj.1
    have hb := b.toNat_lt
    rw [UInt16.toNat_shiftRight, UInt8.toNat_toUInt16, Nat.shiftRight_eq_div_pow]
    exact Nat.div_eq_of_lt hb
  have hlow : (c ^^^ b.toUInt16).toUInt8 = c.toUInt8 ^^^ b := by
    rw [UInt16.toUInt8_xor, UInt8.toUInt8_toUInt16]
  rw [crcShift8_eq, hlow, UInt16.shiftRight_xor, hhigh, UInt16.xor_zero]

/-- A byte is its eight bits, lowest first. -/
theorem crcShift8_xor_toBitVec (c : UInt16) (b : UInt8) :
    (crcShift8 (c ^^^ b.toUInt16)).toBitVec
      = ReflectedCrc.run crcPoly c.toBitVec (unpackByte b) := by
  rw [ReflectedCrc.run_eq_iterate crcPoly (unpackByte b) (by simp), unpackByte_length,
    ofBits_unpackByte, crcShift8_toBitVec, UInt16.toBitVec_xor]

/-! ### The checksum -/

/-- The checksum computed bit by bit: each byte is added to the low byte of the register, and the
register shifted eight times. -/
def bitwiseCrc (data : Bytes) : UInt16 :=
  data.foldl
    (fun crc byte => (List.range 8).foldl (fun crc _ => crcShift crc) (crc ^^^ byte.toUInt16))
    0xFFFF

theorem calculateCrc_eq_bitwiseCrc (data : Bytes) : calculateCrc data = bitwiseCrc data := by
  rw [calculateCrc, bitwiseCrc]
  congr 1
  funext c b
  exact crcStep_eq c b

/-- The checksum is the register after the bits of the string. -/
theorem calculateCrc_toBitVec (data : Bytes) :
    (calculateCrc data).toBitVec = ReflectedCrc.run crcPoly 0xFFFF#16 (unpackBits data) := by
  rw [calculateCrc_eq_bitwiseCrc, bitwiseCrc]
  rw [show 0xFFFF#16 = (0xFFFF : UInt16).toBitVec from rfl]
  generalize (0xFFFF : UInt16) = c
  induction data generalizing c with
  | nil => rfl
  | cons b data ih =>
      rw [List.foldl_cons, ih, unpackBits_cons, ReflectedCrc.run_append,
        ← crcShift8_xor_toBitVec]
      rfl

/-- The bits of the checksum, as it goes out on the wire. -/
theorem unpackBits_toLeBytes (c : UInt16) {i : ℕ} (hi : i < 16) :
    (unpackBits (toLeBytes c)).getD i false = c.toBitVec.getLsbD i := by
  rw [toLeBytes, unpackBits_cons, unpackBits_cons, unpackBits_nil, List.append_nil]
  rcases Nat.lt_or_ge i 8 with h8 | h8
  · rw [List.getD_append _ _ _ _ (by simpa using h8), List.getD_eq_getElem _ _ (by simpa using h8)]
    simp [unpackByte, bitAt_eq_getLsbD _ h8, h8]
  · rw [List.getD_append_right _ _ _ _ (by simpa using h8), unpackByte_length,
      List.getD_eq_getElem _ _ (by simp; omega)]
    simp [unpackByte, bitAt_eq_getLsbD _ (show i - 8 < 8 by omega), Nat.add_sub_of_le h8]
    omega

/-- A string with its checksum behind it has the checksum zero. -/
theorem calculateCrc_residue (d : Bytes) : calculateCrc (d ++ toLeBytes (calculateCrc d)) = 0 := by
  apply UInt16.toBitVec_inj.1
  rw [calculateCrc_toBitVec, unpackBits, List.flatMap_append, ReflectedCrc.run_append]
  rw [← unpackBits, ← unpackBits, ← calculateCrc_toBitVec]
  exact ReflectedCrc.run_own_bits crcPoly (by simp) fun i hi => unpackBits_toLeBytes _ hi

/-- **The table computes the bitwise CRC**, and a string with the low and the high byte of its CRC
behind it has the CRC zero. -/
theorem calculateCrc_spec :
    (∀ data, calculateCrc data = bitwiseCrc data) ∧
      ∀ d, calculateCrc (d ++ [(calculateCrc d).toUInt8, (calculateCrc d >>> 8).toUInt8]) = 0 :=
  ⟨calculateCrc_eq_bitwiseCrc, calculateCrc_residue⟩

/-! ### Errors -/

/-- The bits in which two frames differ, as a list of ones among zeros. -/
def errorBits (f f' : Bytes) : List Bool := unpackBits (List.zipWith (· ^^^ ·) f f')

/-- Two frames differ within two adjacent bytes. -/
def DiffersWithin (f f' : Bytes) : Prop := ∃ i, ∀ j, j ≠ i → j ≠ i + 1 → f'[j]? = f[j]?

theorem unpackByte_xor (a b : UInt8) :
    unpackByte (a ^^^ b) = List.zipWith (· ^^ ·) (unpackByte a) (unpackByte b) := by
  refine List.ext_getElem (by simp) ?_
  intro i hi _
  have hi : i < 8 := by simpa using hi
  simp [unpackByte, bitAt_eq_getLsbD _ hi]

theorem errorBits_eq {f f' : Bytes} (hlen : f.length = f'.length) :
    errorBits f f' = List.zipWith (· ^^ ·) (unpackBits f) (unpackBits f') := by
  induction f generalizing f' with
  | nil => rfl
  | cons a f ih =>
      cases f' with
      | nil => cases hlen
      | cons b f' =>
          have htail : errorBits f f' = _ := ih (Nat.succ.inj hlen)
          rw [unpackBits_cons, unpackBits_cons,
            List.zipWith_append (by simp), ← htail, ← unpackByte_xor]
          rfl

/-- Two frames with the same CRC differ in bits that leave the register at zero. -/
theorem run_errorBits {f f' : Bytes} (hlen : f.length = f'.length)
    (hcrc : calculateCrc f = calculateCrc f') :
    ReflectedCrc.run crcPoly 0#16 (errorBits f f') = 0#16 := by
  have hxor := ReflectedCrc.run_xor crcPoly (unpackBits f) (unpackBits f') (by simp [hlen])
    0xFFFF#16 0xFFFF#16
  rw [← calculateCrc_toBitVec, ← calculateCrc_toBitVec, hcrc, BitVec.xor_self, BitVec.xor_self,
    ← errorBits_eq hlen] at hxor
  exact hxor

/-- Frames that differ in no bit are equal. -/
theorem eq_of_errorBits {f f' : Bytes} (hlen : f.length = f'.length)
    (h : ∀ b ∈ errorBits f f', b = false) : f = f' := by
  have hbits : unpackBits f = unpackBits f' := by
    refine List.ext_getElem (by simp [hlen]) ?_
    intro k h₁ h₂
    have hk : k < (List.zipWith (· ^^ ·) (unpackBits f) (unpackBits f')).length := by
      rw [List.length_zipWith]
      omega
    have hmem : (List.zipWith (· ^^ ·) (unpackBits f) (unpackBits f'))[k] ∈ errorBits f f' := by
      rw [errorBits_eq hlen]
      exact List.getElem_mem hk
    simpa using h _ hmem
  rw [← packBits_unpackBits f, hbits, packBits_unpackBits]

theorem unpackBits_of_zero {bs : Bytes} (h : ∀ b ∈ bs, b = 0) :
    unpackBits bs = List.replicate (8 * bs.length) false := by
  have hall : ∀ v ∈ unpackBits bs, v = false := by
    intro v hv
    obtain ⟨b, hb, hvb⟩ := List.mem_flatMap.1 hv
    rw [h b hb] at hvb
    exact (show ∀ v ∈ unpackByte 0, v = false by decide) v hvb
  exact List.eq_replicate_iff.2 ⟨unpackBits_length bs, hall⟩

/-- Frames that differ within two adjacent bytes differ in one short burst. -/
theorem DiffersWithin.errorBits_eq {f f' : Bytes} (h : DiffersWithin f f') :
    ∃ i j burst, burst.length ≤ 16 ∧
      errorBits f f' = List.replicate i false ++ burst ++ List.replicate j false := by
  obtain ⟨i, hi⟩ := h
  have hzero : ∀ k, k ≠ i → k ≠ i + 1 →
      ∀ b, (List.zipWith (· ^^^ ·) f f')[k]? = some b → b = 0 := by
    intro k h₁ h₂ b hb
    rw [List.getElem?_zipWith, hi k h₁ h₂] at hb
    cases hk : f[k]? with
    | none => simp [hk] at hb
    | some a => simpa [hk, eq_comm] using hb
  unfold errorBits
  generalize List.zipWith (· ^^^ ·) f f' = e at hzero
  have hsplit : e = e.take i ++ (e.drop i).take 2 ++ e.drop (i + 2) := by
    rw [← List.drop_drop, List.append_assoc, List.take_append_drop, List.take_append_drop]
  have hfront : unpackBits (e.take i) = List.replicate (8 * (e.take i).length) false := by
    refine unpackBits_of_zero fun b hb => ?_
    obtain ⟨k, hk⟩ := List.mem_iff_getElem?.1 hb
    rw [List.getElem?_take] at hk
    split at hk
    · exact hzero k (by omega) (by omega) b hk
    · cases hk
  have hback : unpackBits (e.drop (i + 2)) = List.replicate (8 * (e.drop (i + 2)).length) false := by
    refine unpackBits_of_zero fun b hb => ?_
    obtain ⟨k, hk⟩ := List.mem_iff_getElem?.1 hb
    rw [List.getElem?_drop] at hk
    exact hzero (i + 2 + k) (by omega) (by omega) b hk
  refine ⟨8 * (e.take i).length, 8 * (e.drop (i + 2)).length, unpackBits ((e.drop i).take 2), ?_, ?_⟩
  · have := List.length_take_le 2 (e.drop i)
    rw [unpackBits_length]
    omega
  · rw [← hfront, ← hback]
    conv_lhs => rw [hsplit]
    simp only [unpackBits, List.flatMap_append]

/-- A frame that the parser accepts has the CRC zero. -/
theorem calculateCrc_of_parse {f : Bytes} {x : RawRequest Unit × ℕ}
    (h : tryParseServerRtu f = some x) : calculateCrc f = 0 := by
  unfold tryParseServerRtu at h
  by_cases hshort : f.length < MIN_RTU_FRAME
  · rw [if_pos hshort] at h
    cases h
  rw [if_neg hshort] at h
  rw [MIN_RTU_FRAME] at hshort
  by_cases hcrc : crcReceived f = calculateCrc (f.take (f.length - 2))
  · have hend : f.drop (f.length - 2) = toLeBytes (crcReceived f) := by
      rw [crcReceived, toLeBytes_fromLeBytes, List.drop_eq_getElem_cons (by omega),
        List.drop_eq_getElem_cons (by omega), List.drop_eq_nil_of_le (by omega),
        List.getD_eq_getElem _ _ (by omega), List.getD_eq_getElem _ _ (by omega)]
      congr 3
      omega
    rw [← List.take_append_drop (f.length - 2) f, hend, hcrc]
    exact calculateCrc_residue _
  · rw [if_pos hcrc] at h
    cases h

/-- **Bursts of two bytes and odd numbers of flipped bits are seen**: a frame that differs from a
good one within two adjacent bytes, or in an odd number of bits, is not accepted. -/
theorem tryParseServerRtu_corrupted (data f : Bytes)
    (hlen : f.length = (encodeRtuFrame data []).length) (hne : f ≠ encodeRtuFrame data [])
    (herr : DiffersWithin (encodeRtuFrame data []) f ∨
      Odd ((errorBits (encodeRtuFrame data []) f).count true)) : tryParseServerRtu f = none := by
  cases hparse : tryParseServerRtu f with
  | none => rfl
  | some x =>
      have hgood : calculateCrc (encodeRtuFrame data []) = 0 := calculateCrc_residue data
      have hrun := run_errorBits hlen.symm (hgood.trans (calculateCrc_of_parse hparse).symm)
      rcases herr with hburst | hodd
      · obtain ⟨i, j, burst, hfit, heq⟩ := hburst.errorBits_eq
        rw [heq] at hrun
        have hfalse := ReflectedCrc.run_burst_eq_zero crcPoly (by decide) hfit hrun
        refine absurd (eq_of_errorBits hlen.symm ?_).symm hne
        rw [heq, hfalse]
        simp [List.mem_replicate]
      · exact absurd hrun (ReflectedCrc.run_odd_ne_zero crcPoly (by decide) hodd)

/-- Seven for zero in the third byte of a request. -/
theorem tryParseServerRtu_corrupted_third :
    tryParseServerRtu ((encodeRtuFrame [1, 3, 0, 0, 0, 1] []).set 2 7) = none := by
  have h := tryParseServerRtu_corrupted [1, 3, 0, 0, 0, 1]
    ((encodeRtuFrame [1, 3, 0, 0, 0, 1] []).set 2 7) (List.length_set ..) (by decide)
    (Or.inl ⟨2, fun j hj _ => List.getElem?_set_ne (Ne.symm hj)⟩)
  exact h

end OmsModbus
