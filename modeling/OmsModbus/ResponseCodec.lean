/-
**The response codec: decoding undoes encoding.**

As for requests, the encoder of responses is described by one wire layout, `Response.pdu`, and the
decoder by what it makes of a layout.  Two things are lost on the wire: the number of coils in the
last byte, so a list of coils comes back filled up with `false`, and the name of an exception, so
an exception comes back under the name its code has in the standard.

Main definitions:

* `OmsModbus.Response.pdu` — the wire layout of a response;
* `OmsModbus.normResponse` — what is left of a response after a trip over the wire;
* `OmsModbus.Response.Decodable` — a response that the decoder can return;
* `OmsModbus.Response.Carries` — a byte string that the decoder takes for a response.

Main results:

* `OmsModbus.encodeResponseInto_eq_ok` — **the encoder appends the layout** when it fits;
* `OmsModbus.Response.tryFrom_eq_ok_iff` — **what the decoder accepts**;
* `OmsModbus.Response.tryFrom_pdu` — decoding a layout gives the normal form of the response;
* `OmsModbus.Response.pdu_length_le` — a decoded response is no longer than the bytes it was
  decoded from.
-/

import OmsModbus.RequestCodec

set_option relaxedAutoImplicit false
set_option autoImplicit false

namespace OmsModbus

open Words BitPack

/-! ### The wire layout -/

/-- The layout of a list of bits behind its byte count. -/
def coilField (bits : List Bool) : Bytes := UInt8.ofNat (divCeil bits.length 8) :: packBits bits

/-- The layout of a list of words behind its byte count. -/
def registerField (regs : List UInt16) : Bytes := UInt8.ofNat (regs.length * 2) :: beBytes regs

/-- The wire layout of a response. -/
def Response.pdu : Response → Bytes
  | .readCoils bits => 1 :: coilField bits
  | .readDiscreteInputs bits => 2 :: coilField bits
  | .readHoldingRegisters regs => 3 :: registerField regs
  | .readInputRegisters regs => 4 :: registerField regs
  | .writeSingleCoil addr val =>
      5 :: (toBeBytes addr ++ toBeBytes (if val then 0xFF00 else 0x0000))
  | .writeSingleRegister addr val => 6 :: (toBeBytes addr ++ toBeBytes val)
  | .writeMultipleCoils addr qty => 15 :: (toBeBytes addr ++ toBeBytes qty)
  | .writeMultipleRegisters addr qty => 16 :: (toBeBytes addr ++ toBeBytes qty)
  | .readWriteMultipleRegisters regs => 23 :: registerField regs
  | .maskWriteRegister addr andMask orMask =>
      22 :: (toBeBytes addr ++ (toBeBytes andMask ++ toBeBytes orMask))
  | .diagnostic sf data => 8 :: (toBeBytes sf ++ toBeBytes data)
  | .exception fc ex => [fc ||| 0x80, ex.toU8]

@[simp] theorem coilField_length (bits : List Bool) :
    (coilField bits).length = divCeil bits.length 8 + 1 := by simp [coilField]

@[simp] theorem registerField_length (regs : List UInt16) :
    (registerField regs).length = regs.length * 2 + 1 := by
  simp [registerField]
  omega

/-- What a response looks like after a trip over the wire: coils filled up to whole bytes, an
exception under the name of its code. -/
def normResponse : Response → Response
  | .readCoils bits => .readCoils (padBits bits)
  | .readDiscreteInputs bits => .readDiscreteInputs (padBits bits)
  | .exception fc ex => .exception (fc &&& 0x7F) (.ofU8 ex.toU8)
  | r => r

theorem Exception.toU8_ofU8 (code : UInt8) : (Exception.ofU8 code).toU8 = code := by
  unfold Exception.ofU8
  split <;> rfl

/-- A response has a function code and at least one more byte. -/
theorem Response.one_lt_pdu_length (r : Response) : 1 < r.pdu.length := by
  cases r <;> simp [Response.pdu]

theorem or_exceptionBit_and (fc : UInt8) : (fc ||| 0x80) &&& 0x80 ≠ 0 := by
  intro h
  have hbit : bitAt ((fc ||| 0x80) &&& 0x80) 7 = bitAt 0 7 := by rw [h]
  rw [bitAt_eq_getLsbD _ (by omega), bitAt_zero] at hbit
  simp at hbit

theorem or_exceptionBit_strip (fc : UInt8) : (fc ||| 0x80) &&& 0x7F = fc &&& 0x7F := by
  apply UInt8.toBitVec_inj.1
  rw [UInt8.toBitVec_and, UInt8.toBitVec_or, BitVec.and_or_distrib_right, UInt8.toBitVec_and]
  exact BitVec.or_zero

theorem andNot_or_exceptionBit {fc : UInt8} (h : fc &&& 0x80 ≠ 0) :
    (fc &&& 0x7F) ||| 0x80 = fc := by
  have hbit : bitAt fc 7 = true := by
    by_contra hfalse
    refine h (ext_bitAt fun i hi => ?_)
    rw [bitAt_eq_getLsbD _ hi, bitAt_zero, UInt8.toBitVec_and]
    rw [bitAt_eq_getLsbD _ (by omega)] at hfalse
    interval_cases i <;> simp_all
  refine ext_bitAt fun i hi => ?_
  rw [bitAt_eq_getLsbD _ (by omega)] at hbit
  rw [bitAt_eq_getLsbD _ hi, bitAt_eq_getLsbD _ hi, UInt8.toBitVec_or, UInt8.toBitVec_and]
  interval_cases i <;> simp_all

theorem and_not_exceptionBit_of {fc : UInt8} (h : fc &&& 0x80 = 0) : fc &&& 0x7F = fc := by
  have hbit : bitAt (fc &&& 0x80) 7 = false := by rw [h, bitAt_zero]
  rw [bitAt_eq_getLsbD _ (by omega), UInt8.toBitVec_and] at hbit
  refine ext_bitAt fun i hi => ?_
  rw [bitAt_eq_getLsbD _ hi, bitAt_eq_getLsbD _ hi, UInt8.toBitVec_and]
  interval_cases i <;> simp_all

theorem and_not_exceptionBit (fc : UInt8) : (fc &&& 0x7F) &&& 0x80 = 0 := by
  refine ext_bitAt fun i hi => ?_
  rw [bitAt_eq_getLsbD _ hi, bitAt_zero, UInt8.toBitVec_and, UInt8.toBitVec_and]
  interval_cases i <;> simp

/-- **The normal form has the same layout.** -/
theorem normResponse_pdu (r : Response) : (normResponse r).pdu = r.pdu := by
  have hcoils : ∀ bits : List Bool, coilField (padBits bits) = coilField bits := by
    intro bits
    have hcount : divCeil (8 * divCeil bits.length 8) 8 = divCeil bits.length 8 := by
      rw [divCeil]
      omega
    rw [coilField, coilField, padBits_length, hcount, ← unpackBits_packBits, packBits_unpackBits]
  cases r with
  | readCoils bits => exact congrArg (List.cons 1) (hcoils bits)
  | readDiscreteInputs bits => exact congrArg (List.cons 2) (hcoils bits)
  | exception fc ex =>
      have hbit := andNot_or_exceptionBit (or_exceptionBit_and fc)
      rw [or_exceptionBit_strip] at hbit
      rw [normResponse, Response.pdu, Response.pdu, hbit, Exception.toU8_ofU8]
  | _ => rfl

/-! ### The encoder -/

/-- The byte count of the list a response carries. -/
def Response.byteCount : Response → ℕ
  | .readCoils bits | .readDiscreteInputs bits => divCeil bits.length 8
  | .readHoldingRegisters regs | .readInputRegisters regs | .readWriteMultipleRegisters regs =>
      regs.length * 2
  | _ => 0

theorem validateResponseSize_eq_ok {r : Response} :
    validateResponseSize r = .ok () ↔ r.byteCount ≤ 255 := by
  cases r with
  | readCoils bits | readDiscreteInputs bits =>
      by_cases h : divCeil bits.length 8 ≤ 255 <;>
        simp [validateResponseSize, Response.byteCount, safeU8, h]
  | readHoldingRegisters regs | readInputRegisters regs | readWriteMultipleRegisters regs =>
      simp only [validateResponseSize, Response.byteCount, checkedMul]
      rcases Nat.lt_or_ge (regs.length * 2) (2 ^ usizeBits) with h | h
      · rw [if_pos h]
        by_cases hfit : regs.length * 2 ≤ 255 <;> simp [safeU8, hfit]
      · have hbits : 2 ^ usizeBits = 18446744073709551616 := rfl
        rw [if_neg (by omega)]
        simp
        omega
  | _ => simp [validateResponseSize, Response.byteCount]

private theorem safeU8_of_le {val : ℕ} {context : String} (h : val ≤ 255) :
    safeU8 val context = .ok (UInt8.ofNat val) := safeU8_eq_ok.2 ⟨h, rfl⟩

/-- A response whose list fits its byte count is written as its layout. -/
theorem encodeResponse_of_byteCount_le {r : Response} (h : r.byteCount ≤ 255) (buf : Bytes) :
    encodeResponse r buf = (.ok (), buf ++ r.pdu) := by
  cases r with
  | readCoils bits | readDiscreteInputs bits =>
      have hcount : divCeil bits.length 8 ≤ 255 := h
      simp [encodeResponse, Response.pdu, coilField, Response.functionCode, safeU8_of_le hcount,
        putBits_eq, putU8]
  | readHoldingRegisters regs | readInputRegisters regs | readWriteMultipleRegisters regs =>
      have hcount : regs.length * 2 ≤ 255 := h
      simp only [encodeResponse, Response.pdu, registerField, Response.functionCode,
        safeU8_of_le hcount, putWords_eq, putU8, List.append_assoc, List.cons_append,
        List.nil_append]
  | _ => simp [encodeResponse, Response.pdu, Response.functionCode, putU8, pushU16]

theorem Response.byteCount_le (r : Response) : r.byteCount ≤ r.pdu.length := by
  cases r <;> simp [Response.byteCount, Response.pdu] <;> omega

/-- **The encoder appends the layout**, and succeeds exactly when it fits in a PDU. -/
theorem encodeResponseInto_eq_ok {r : Response} {buf buf' : Bytes} :
    encodeResponseInto r buf = (.ok (), buf') ↔ r.pdu.length ≤ 253 ∧ buf' = buf ++ r.pdu := by
  unfold encodeResponseInto
  cases h : validateResponseSize r with
  | error e =>
      have hbig : ¬ r.byteCount ≤ 255 := fun hle => by
        rw [validateResponseSize_eq_ok.2 hle] at h
        cases h
      have := r.byteCount_le
      simp
      omega
  | ok u =>
      rw [encodeResponse_of_byteCount_le (validateResponseSize_eq_ok.1 h)]
      exact pduLimit_eq_ok

/-! ### The decoder -/

/-- A response that the decoder can return: coils come in whole bytes, an exception goes without the
exception bit and under the name of its code. -/
def Response.Decodable : Response → Prop
  | .readCoils bits | .readDiscreteInputs bits => bits.length % 8 = 0 ∧ bits.length ≤ 8 * 255
  | .readHoldingRegisters regs | .readInputRegisters regs | .readWriteMultipleRegisters regs =>
      regs.length ≤ 127
  | .exception fc ex => fc &&& 0x80 = 0 ∧ .ofU8 ex.toU8 = ex
  | _ => True

/-- A byte string that the decoder takes for a response: its layout, but for the value of a coil
write. -/
def Response.Carries (r : Response) (p : Bytes) : Prop :=
  match r with
  | .writeSingleCoil addr val =>
      ∃ raw : UInt16, (raw == 0xFF00) = val ∧ p = 5 :: (toBeBytes addr ++ toBeBytes raw)
  | r => p = r.pdu

theorem Response.Carries.length_eq {r : Response} {p : Bytes} (h : r.Carries p) :
    p.length = r.pdu.length := by
  cases r with
  | writeSingleCoil addr val =>
      obtain ⟨raw, -, rfl⟩ := h
      rfl
  | _ => exact congrArg List.length h

theorem Exception.ofU8_toU8_ofU8 (code : UInt8) :
    Exception.ofU8 (Exception.ofU8 code).toU8 = Exception.ofU8 code := by
  rw [Exception.toU8_ofU8]

/-- The arms that read coils. -/
theorem bitsArm_eq_ok {w truncated : String} {data : Bytes} {r : Response}
    (f : List Bool → Response) :
    (do
      let (byteCount, data) ← readU8 w data
      checkRemaining data byteCount.toNat truncated
      return f (unpackBits (data.take byteCount.toNat))) = Except.ok r ↔
    ∃ bits s, bits.length % 8 = 0 ∧ bits.length ≤ 8 * 255 ∧ data = coilField bits ++ s ∧
      r = f bits := by
  simp only [bind_eq_ok, Prod.exists, readU8_eq_ok, checkRemaining_eq_ok, pure_eq_ok]
  constructor
  · intro h
    obtain ⟨count, rest, rfl, -, hlen, rfl⟩ := h
    have hcount := count.toNat_lt
    have htake : (rest.take count.toNat).length = count.toNat := by simp [hlen]
    refine ⟨_, rest.drop count.toNat, ?_, ?_, ?_, rfl⟩
    · rw [unpackBits_length]
      omega
    · rw [unpackBits_length, htake]
      omega
    · rw [coilField, unpackBits_length, packBits_unpackBits, htake, divCeil,
        show (8 * count.toNat + (8 - 1)) / 8 = count.toNat by omega, UInt8.ofNat_toNat]
      simp
  · intro h
    obtain ⟨bits, s, h8, hle, rfl, rfl⟩ := h
    have hcount : (UInt8.ofNat (divCeil bits.length 8)).toNat = divCeil bits.length 8 := by
      rw [UInt8.toNat_ofNat', divCeil]
      omega
    have hpad : padBits bits = bits := by
      rw [padBits, divCeil, show 8 * ((bits.length + (8 - 1)) / 8) - bits.length = 0 by omega]
      simp
    refine ⟨_, packBits bits ++ s, rfl, (), ?_, ?_⟩
    · rw [hcount, List.length_append, packBits_length]
      omega
    · rw [hcount, ← packBits_length, List.take_left, unpackBits_packBits, hpad]

/-- The arms that read a list of words behind an even byte count. -/
theorem wordsArm_eq_ok {w truncated : String} {data : Bytes} {r : Response} (e : ℕ → IoError)
    (f : List UInt16 → Response) :
    (do
      let (byteCount, data) ← readU8 w data
      if byteCount.toNat % 2 ≠ 0 then throw (e byteCount.toNat)
      checkRemaining data byteCount.toNat truncated
      return f (takeWords (byteCount.toNat / 2) data).1) = Except.ok r ↔
    ∃ regs s, regs.length ≤ 127 ∧ data = registerField regs ++ s ∧ r = f regs := by
  simp only [bind_eq_ok (x := readU8 _ _), Prod.exists, readU8_eq_ok]
  constructor
  · intro h
    obtain ⟨count, rest, rfl, h⟩ := h
    have hcount := count.toNat_lt
    split at h
    · cases h
    · next heven =>
      simp only [bind_eq_ok, checkRemaining_eq_ok, pure_eq_ok] at h
      obtain ⟨-, hlen, rfl⟩ := h
      obtain ⟨hregs, heq⟩ : _ ∧ rest = _ :=
        beBytes_takeWords (show 2 * (count.toNat / 2) ≤ rest.length by omega)
      refine ⟨_, (takeWords (count.toNat / 2) rest).2, ?_, ?_, rfl⟩
      · rw [hregs]
        omega
      · rw [registerField, hregs, show count.toNat / 2 * 2 = count.toNat by omega,
          UInt8.ofNat_toNat, List.cons_append, ← heq]
  · intro h
    obtain ⟨regs, s, hle, rfl, rfl⟩ := h
    have hcount : (UInt8.ofNat (regs.length * 2)).toNat = regs.length * 2 := by
      rw [UInt8.toNat_ofNat']
      omega
    refine ⟨_, beBytes regs ++ s, rfl, ?_⟩
    rw [hcount, if_neg (by omega)]
    simp only [bind_eq_ok, checkRemaining_eq_ok, pure_eq_ok]
    refine ⟨(), ?_, ?_⟩
    · rw [List.length_append, beBytes_length]
      omega
    · rw [Nat.mul_div_cancel _ (by omega), takeWords_beBytes]

/-- The error of an odd byte count. -/
def oddByteCount (arm : String) (byteCount : ℕ) : IoError :=
  ⟨.invalidData, s!"{arm}: byte_count {byteCount} is not even"⟩

/-- What the arms of the decoder take a function code and the data behind it for. -/
theorem decodeResponse_carries {fc : UInt8} {data : Bytes} {r : Response}
    (h : decodeResponse fc data = .ok r) :
    r.Decodable ∧ ∃ p s, fc :: data = p ++ s ∧ r.Carries p := by
  unfold decodeResponse at h
  split at h
  · obtain ⟨bits, s, h8, hle, rfl, rfl⟩ := (bitsArm_eq_ok Response.readCoils).1 h
    exact ⟨⟨h8, hle⟩, _, s, rfl, rfl⟩
  · obtain ⟨bits, s, h8, hle, rfl, rfl⟩ := (bitsArm_eq_ok Response.readDiscreteInputs).1 h
    exact ⟨⟨h8, hle⟩, _, s, rfl, rfl⟩
  · obtain ⟨regs, s, hle, rfl, rfl⟩ :=
      (wordsArm_eq_ok (oddByteCount "register response") Response.readHoldingRegisters).1 h
    exact ⟨hle, _, s, rfl, rfl⟩
  · obtain ⟨regs, s, hle, rfl, rfl⟩ :=
      (wordsArm_eq_ok (oddByteCount "register response") Response.readInputRegisters).1 h
    exact ⟨hle, _, s, rfl, rfl⟩
  · obtain ⟨addr, raw, s, rfl, rfl⟩ :=
      (pairArm_eq_ok fun addr raw => Response.writeSingleCoil addr (raw == 0xFF00)).1 h
    exact ⟨trivial, _, s, rfl, raw, rfl, rfl⟩
  · obtain ⟨addr, val, s, rfl, rfl⟩ := (pairArm_eq_ok Response.writeSingleRegister).1 h
    exact ⟨trivial, _, s, rfl, rfl⟩
  · obtain ⟨addr, qty, s, rfl, rfl⟩ := (pairArm_eq_ok Response.writeMultipleCoils).1 h
    exact ⟨trivial, _, s, rfl, rfl⟩
  · obtain ⟨addr, qty, s, rfl, rfl⟩ := (pairArm_eq_ok Response.writeMultipleRegisters).1 h
    exact ⟨trivial, _, s, rfl, rfl⟩
  · simp only [bind_eq_ok, Prod.exists, readU16_eq_ok, pure_eq_ok] at h
    obtain ⟨addr, _, rfl, andMask, _, rfl, orMask, s, rfl, rfl⟩ := h
    refine ⟨trivial, _, s, ?_, rfl⟩
    simp only [Response.pdu, List.cons_append, List.append_assoc]
  · obtain ⟨regs, s, hle, rfl, rfl⟩ :=
      (wordsArm_eq_ok (oddByteCount "ReadWriteMultipleRegisters response")
        Response.readWriteMultipleRegisters).1 h
    exact ⟨hle, _, s, rfl, rfl⟩
  · obtain ⟨sf, d, s, rfl, rfl⟩ := (pairArm_eq_ok Response.diagnostic).1 h
    exact ⟨trivial, _, s, rfl, rfl⟩
  · cases h

/-- What a function code with the exception bit and the code behind it are taken for. -/
theorem exception_carries {fc : UInt8} (hbit : fc &&& 0x80 ≠ 0) (code : UInt8) (rest : Bytes) :
    (Response.exception (fc &&& 0x7F) (.ofU8 code)).Decodable ∧ ∃ p s,
      fc :: code :: rest = p ++ s ∧ (Response.exception (fc &&& 0x7F) (.ofU8 code)).Carries p := by
  refine ⟨⟨and_not_exceptionBit fc, Exception.ofU8_toU8_ofU8 code⟩, [fc, code], rest, rfl, ?_⟩
  change _ = [_, _]
  rw [andNot_or_exceptionBit hbit, Exception.toU8_ofU8]

/-- **What the decoder accepts**: the byte strings that start with one it takes for a response. -/
theorem Response.tryFrom_eq_ok_iff {b : Bytes} {r : Response} :
    Response.tryFrom b = .ok r ↔ r.Decodable ∧ ∃ p s, b = p ++ s ∧ r.Carries p := by
  constructor
  · intro h
    cases b with
    | nil => cases h
    | cons fc data =>
        simp only [Response.tryFrom] at h
        split at h
        · next hbit =>
          cases data with
          | nil => cases h
          | cons code rest =>
              cases h
              exact exception_carries hbit code rest
        · exact decodeResponse_carries h
  · intro h
    obtain ⟨hdec, p, s, rfl, hp⟩ := h
    cases r with
    | readCoils bits =>
        rcases hp with rfl
        exact (bitsArm_eq_ok Response.readCoils).2 ⟨bits, s, hdec.1, hdec.2, rfl, rfl⟩
    | readDiscreteInputs bits =>
        rcases hp with rfl
        exact (bitsArm_eq_ok Response.readDiscreteInputs).2 ⟨bits, s, hdec.1, hdec.2, rfl, rfl⟩
    | readHoldingRegisters regs =>
        rcases hp with rfl
        exact (wordsArm_eq_ok (oddByteCount "register response")
          Response.readHoldingRegisters).2 ⟨regs, s, hdec, rfl, rfl⟩
    | readInputRegisters regs =>
        rcases hp with rfl
        exact (wordsArm_eq_ok (oddByteCount "register response")
          Response.readInputRegisters).2 ⟨regs, s, hdec, rfl, rfl⟩
    | readWriteMultipleRegisters regs =>
        rcases hp with rfl
        exact (wordsArm_eq_ok (oddByteCount "ReadWriteMultipleRegisters response")
          Response.readWriteMultipleRegisters).2 ⟨regs, s, hdec, rfl, rfl⟩
    | writeSingleCoil addr val =>
        obtain ⟨raw, hraw, rfl⟩ := hp
        refine (pairArm_eq_ok fun addr raw => Response.writeSingleCoil addr (raw == 0xFF00)).2
          ⟨addr, raw, s, rfl, ?_⟩
        rw [hraw]
    | writeSingleRegister addr val =>
        rcases hp with rfl
        exact (pairArm_eq_ok Response.writeSingleRegister).2 ⟨addr, val, s, rfl, rfl⟩
    | writeMultipleCoils addr qty =>
        rcases hp with rfl
        exact (pairArm_eq_ok Response.writeMultipleCoils).2 ⟨addr, qty, s, rfl, rfl⟩
    | writeMultipleRegisters addr qty =>
        rcases hp with rfl
        exact (pairArm_eq_ok Response.writeMultipleRegisters).2 ⟨addr, qty, s, rfl, rfl⟩
    | diagnostic sf data =>
        rcases hp with rfl
        exact (pairArm_eq_ok Response.diagnostic).2 ⟨sf, data, s, rfl, rfl⟩
    | maskWriteRegister addr andMask orMask =>
        have hdec : decodeResponse 22
            (toBeBytes addr ++ (toBeBytes andMask ++ toBeBytes orMask) ++ s)
            = .ok (.maskWriteRegister addr andMask orMask) := by
          simp only [decodeResponse, bind_eq_ok, Prod.exists, readU16_eq_ok, pure_eq_ok,
            List.append_assoc]
          exact ⟨addr, _, rfl, andMask, _, rfl, orMask, s, rfl, rfl⟩
        rcases hp with rfl
        exact hdec
    | exception fc ex =>
        rcases hp with rfl
        change Response.tryFrom ((fc ||| 0x80) :: ex.toU8 :: s) = _
        rw [Response.tryFrom, if_pos (or_exceptionBit_and fc), or_exceptionBit_strip,
          and_not_exceptionBit_of hdec.1]
        exact congrArg (Except.ok ∘ Response.exception fc) hdec.2

theorem Response.carries_pdu (r : Response) : r.Carries r.pdu := by
  cases r with
  | writeSingleCoil addr val => cases val <;> exact ⟨_, by decide, rfl⟩
  | _ => rfl

theorem normResponse_decodable {r : Response} (h : r.byteCount ≤ 255) :
    (normResponse r).Decodable := by
  cases r with
  | readCoils bits | readDiscreteInputs bits =>
      have hcount : divCeil bits.length 8 ≤ 255 := h
      refine ⟨?_, ?_⟩
      · rw [padBits_length]
        omega
      · rw [padBits_length]
        omega
  | readHoldingRegisters regs | readInputRegisters regs | readWriteMultipleRegisters regs =>
      have hcount : regs.length * 2 ≤ 255 := h
      change regs.length ≤ 127
      omega
  | exception fc ex => exact ⟨and_not_exceptionBit fc, Exception.ofU8_toU8_ofU8 ex.toU8⟩
  | _ => trivial

/-- **Decoding a layout gives the normal form of the response.** -/
theorem Response.tryFrom_pdu {r : Response} (hfit : r.pdu.length ≤ 253) :
    Response.tryFrom r.pdu = .ok (normResponse r) := by
  have hcount := r.byteCount_le
  have hcarries := (normResponse r).carries_pdu
  rw [normResponse_pdu] at hcarries
  exact Response.tryFrom_eq_ok_iff.2
    ⟨normResponse_decodable (by omega), r.pdu, [], (List.append_nil _).symm, hcarries⟩

/-- A decoded response is no longer than the bytes it was decoded from. -/
theorem Response.pdu_length_le {b : Bytes} {r : Response} (h : Response.tryFrom b = .ok r) :
    r.pdu.length ≤ b.length := by
  obtain ⟨-, p, s, rfl, hp⟩ := Response.tryFrom_eq_ok_iff.1 h
  rw [List.length_append, hp.length_eq]
  exact Nat.le_add_right _ _

/-- **The response codec round trip.** -/
theorem encodeResponseInto_roundTrip (r : Response) (buf buf' : Bytes)
    (h : encodeResponseInto r buf = (.ok (), buf')) :
    ∃ b, buf' = buf ++ b ∧ b.length ≤ 253 ∧ Response.tryFrom b = .ok (normResponse r) := by
  obtain ⟨hfit, rfl⟩ := encodeResponseInto_eq_ok.1 h
  exact ⟨r.pdu, rfl, hfit, Response.tryFrom_pdu hfit⟩

/-- A custom exception whose code has a name comes back under the name. -/
theorem encodeResponseInto_roundTrip_exception :
    ∃ b, [7, 0x83, 2] = [7] ++ b ∧ b.length ≤ 253 ∧
      Response.tryFrom b = .ok (normResponse (.exception 0x83 (.custom 2))) :=
  encodeResponseInto_roundTrip (.exception 0x83 (.custom 2)) [7] _ (by decide)

end OmsModbus
