/-
**Checksums and the frames of the serial protocols.**

An RTU frame is `[slaveId, pdu..]` with a CRC behind it, low byte first.  An ASCII frame is a colon,
the hexadecimal digits of `[slaveId, pdu..]` and of a checksum of them, and the two bytes CR LF.

Main definitions:

* `OmsModbus.calculateCrc`, `OmsModbus.calculateLrc` — the two checksums;
* `OmsModbus.encodeRtuFrame`, `OmsModbus.encodeAsciiFrameInto` — the two frames;
* `OmsModbus.hexDecode` — reading hexadecimal digits.

Main results:

* `OmsModbus.hexDecode_hexEncode` — **digits that were written are read back**;
* `OmsModbus.not_mem_hexEncode` — no digit ends a line.
-/

import OmsModbus.Frame

set_option relaxedAutoImplicit false
set_option autoImplicit false

namespace OmsModbus

open Words

/-! ### RTU -/

def MIN_RTU_FRAME : ℕ := 5
def CRC_SIZE : ℕ := 2

/-- One step of the bitwise CRC. -/
def crcShift (crc : UInt16) : UInt16 :=
  if crc &&& 0x0001 ≠ 0 then (crc >>> 1) ^^^ 0xA001 else crc >>> 1

/-- The lookup table of the polynomial `0xA001`, reflected. -/
def CRC_TABLE : List UInt16 :=
  (List.range 256).map fun i => (List.range 8).foldl (fun crc _ => crcShift crc) (UInt16.ofNat i)

/-- The CRC of a byte string. -/
def calculateCrc (data : Bytes) : UInt16 :=
  data.foldl
    (fun crc byte => (crc >>> 8) ^^^ CRC_TABLE.getD (crc.toUInt8 ^^^ byte).toNat 0) 0xFFFF

/-- Appending the RTU frame of `[slaveId, pdu..]`. -/
def encodeRtuFrame (data buf : Bytes) : Bytes := buf ++ data ++ toLeBytes (calculateCrc data)

theorem encodeRtuFrame_nil_length (data : Bytes) :
    (encodeRtuFrame data []).length = data.length + 2 := by
  simp [encodeRtuFrame]

/-! ### ASCII -/

/-- A colon. -/
def ASCII_START : UInt8 := 0x3A

/-- Carriage return. -/
def CR : UInt8 := 0x0D

/-- Line feed. -/
def LF : UInt8 := 0x0A

/-- The LRC of a byte string: the sum of all bytes and the LRC is 0. -/
def calculateLrc (data : Bytes) : UInt8 := -data.foldl (fun acc b => acc + b) 0

/-- The digits `0` to `9` and `A` to `F`. -/
def HEX : Bytes :=
  [0x30, 0x31, 0x32, 0x33, 0x34, 0x35, 0x36, 0x37, 0x38, 0x39, 0x41, 0x42, 0x43, 0x44, 0x45, 0x46]

/-- The two digits of a byte. -/
def hexEncodeByte (byte : UInt8) : Bytes :=
  [HEX.getD (byte >>> 4).toNat 0, HEX.getD (byte &&& 0x0F).toNat 0]

/-- The digits of a byte string. -/
def hexEncode (data : Bytes) : Bytes := data.flatMap hexEncodeByte

/-- Appending the ASCII frame of `[slaveId, pdu..]`. -/
def encodeAsciiFrameInto (data buf : Bytes) : Bytes :=
  let lrc := calculateLrc data
  let buf := putU8 buf ASCII_START
  let buf := buf ++ hexEncode data
  let buf := buf ++ hexEncodeByte lrc
  putU8 (putU8 buf CR) LF

/-- The value of a digit; small letters are digits too. -/
def nibble (c : UInt8) : Option UInt8 :=
  if 0x30 ≤ c ∧ c ≤ 0x39 then some (c - 0x30)
  else if 0x41 ≤ c ∧ c ≤ 0x46 then some (c - 0x41 + 10)
  else if 0x61 ≤ c ∧ c ≤ 0x66 then some (c - 0x61 + 10)
  else none

/-- The byte with the given two digits. -/
def hexDecodeByte (hi lo : UInt8) : Option UInt8 :=
  match nibble hi, nibble lo with
  | some h, some l => some ((h <<< 4) ||| l)
  | _, _ => none

/-- The bytes with the given digits; there must be an even number of them. -/
def hexDecode : Bytes → Option Bytes
  | [] => some []
  | [_] => none
  | hi :: lo :: digits =>
    match hexDecodeByte hi lo with
    | none => none
    | some b => (hexDecode digits).map (b :: ·)

/-! ### Digits -/

private theorem nibble_hex : ∀ d < 16,
    nibble (HEX.getD d 0) = some (UInt8.ofNat d) ∧ HEX.getD d 0 ≠ CR := by
  decide

private theorem nibbles_eq (b : UInt8) : ((b >>> 4) <<< 4) ||| (b &&& 0x0F) = b := by
  apply UInt8.toBitVec_inj.1
  apply BitVec.eq_of_getLsbD_eq
  intro i hi
  have h15 : (15#8).getLsbD i = decide (i < 4) := by
    interval_cases i <;> rfl
  simp [BitVec.getLsbD_ushiftRight, h15]
  rcases Nat.lt_or_ge i 4 with hlt | hge
  · simp [hlt]
  · simp [hi, Nat.not_lt.2 hge, Nat.add_sub_cancel' hge]

/-- A byte has two digits, and they are read back. -/
theorem hexEncodeByte_eq (b : UInt8) :
    ∃ hi lo, hexEncodeByte b = [hi, lo] ∧ hexDecodeByte hi lo = some b ∧ hi ≠ CR ∧ lo ≠ CR := by
  have hhi : (b >>> 4).toNat < 16 := by
    rw [UInt8.toNat_shiftRight]
    have := b.toNat_lt
    simp [Nat.shiftRight_eq_div_pow]
    omega
  have hlo : (b &&& 0x0F).toNat < 16 := by
    rw [UInt8.toNat_and]
    exact lt_of_le_of_lt Nat.and_le_right (by decide)
  obtain ⟨h₁, h₁'⟩ := nibble_hex _ hhi
  obtain ⟨h₂, h₂'⟩ := nibble_hex _ hlo
  refine ⟨_, _, rfl, ?_, h₁', h₂'⟩
  rw [hexDecodeByte, h₁, h₂, UInt8.ofNat_toNat, UInt8.ofNat_toNat]
  exact congrArg some (nibbles_eq b)

/-- **Digits that were written are read back.** -/
theorem hexDecode_hexEncode (data : Bytes) : hexDecode (hexEncode data) = some data := by
  induction data with
  | nil => rfl
  | cons b data ih =>
      obtain ⟨hi, lo, henc, hdec, -, -⟩ := hexEncodeByte_eq b
      rw [hexEncode, List.flatMap_cons, henc, List.cons_append, List.cons_append, List.nil_append,
        hexDecode, hdec]
      simp only
      rw [show data.flatMap hexEncodeByte = hexEncode data from rfl, ih]
      rfl

/-- No digit ends a line. -/
theorem not_mem_hexEncode (data : Bytes) : CR ∉ hexEncode data := by
  intro h
  obtain ⟨b, -, hb⟩ := List.mem_flatMap.1 h
  obtain ⟨hi, lo, henc, -, hhi, hlo⟩ := hexEncodeByte_eq b
  rw [henc] at hb
  rcases List.mem_cons.1 hb with h | h
  · exact hhi h.symm
  · exact hlo (List.mem_singleton.1 h).symm

/-- An ASCII frame is a colon, digits, and the end of a line. -/
theorem encodeAsciiFrameInto_eq (data : Bytes) :
    encodeAsciiFrameInto data []
      = ASCII_START :: hexEncode (data ++ [calculateLrc data]) ++ [CR, LF] := by
  simp [encodeAsciiFrameInto, putU8, hexEncode]

end OmsModbus
