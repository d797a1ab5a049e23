/-
**The decoders of PDUs do not panic.**

The decoders are written down once more, with every check that Rust makes: the cursor that reads
bytes and words, the sums and products, the shifts.  None of these checks ever fails, and what the
decoders come to is what `OmsModbus.Request.tryFrom` and `OmsModbus.Response.tryFrom` say.

Main definitions:

* `OmsModbus.Guarded.getU8`, `OmsModbus.Guarded.getU16` — reading with a cursor;
* `OmsModbus.Guarded.decodeRequest`, `OmsModbus.Guarded.requestTryFrom` — requests;
* `OmsModbus.Guarded.decodeResponse`, `OmsModbus.Guarded.responseTryFrom` — responses.

Main results:

* `OmsModbus.Guarded.requestTryFrom_eq` — **requests are decoded without a panic**;
* `OmsModbus.Guarded.responseTryFrom_eq` — **and so are responses**.
-/

import OmsModbus.RequestCodec
import OmsModbus.PanicChecks

set_option relaxedAutoImplicit false
set_option autoImplicit false

namespace OmsModbus.Guarded

open BitPack PanicChecks Words

/-! ### Reading fields -/

/-- `data.get_u8()`. -/
def getU8 (data : Bytes) : Checked (UInt8 × Bytes) := do
  let b ← index data 0
  let data ← advance data 1
  return (b, data)

/-- `data.get_u16()`. -/
def getU16 (data : Bytes) : Checked (UInt16 × Bytes) := do
  let hi ← index data 0
  let lo ← index data 1
  let data ← advance data 2
  return (fromBeBytes hi lo, data)

/-- Reading a byte, or failing with the message of a truncated PDU. -/
def readU8 (truncated : String) (data : Bytes) : Fallible IoError (UInt8 × Bytes) :=
  if data.length < 1 then throw ⟨.unexpectedEof, truncated⟩ else check (getU8 data)

/-- Reading a word, or failing with the message of a truncated PDU. -/
def readU16 (truncated : String) (data : Bytes) : Fallible IoError (UInt16 × Bytes) :=
  if data.length < 2 then throw ⟨.unexpectedEof, truncated⟩ else check (getU16 data)

/-- A range of addresses does not leave the address space: `addr as u32 + qty as u32` is computed
first. -/
def checkSpan (arm addrName qtyName : String) (addr qty : UInt16) : Fallible IoError Unit := do
  let _ ← check (add 32 addr.toNat qty.toNat)
  fromExcept (OmsModbus.checkSpan arm addrName qtyName addr qty)

/-- The loop that reads `n` words. -/
def getU16s : ℕ → Bytes → Checked (List UInt16 × Bytes)
  | 0, data => .ok ([], data)
  | n + 1, data => do
      let (v, data) ← getU16 data
      let (values, data) ← getU16s n data
      return (v :: values, data)

/-- `byte & (1 << i) != 0`. -/
def testBit (byte : UInt8) (i : ℕ) : Checked Bool := do
  let mask ← shlU8 1 i
  return byte &&& mask != 0

/-- The inner loop of the coil reader, with the indices that are left. -/
def pushBits (qty : ℕ) (byte : UInt8) : List ℕ → List Bool → Checked (List Bool)
  | [], values => .ok values
  | i :: is, values => do
      let bit ← testBit byte i
      if (values ++ [bit]).length ≥ qty then return values ++ [bit]
      else pushBits qty byte is (values ++ [bit])

/-- The outer loop of the coil reader, with the number of bytes that are left. -/
def getCoils (qty : ℕ) : ℕ → Bytes → List Bool → Checked (List Bool)
  | 0, _, values => .ok values
  | n + 1, data, values => do
      let (byte, data) ← getU8 data
      let values ← pushBits qty byte (List.range 8) values
      getCoils qty n data values

/-- The eight bits of a byte. -/
def getBits (byte : UInt8) : Checked (List Bool) := (List.range 8).mapM (testBit byte)

/-- The loop that reads the bits of `n` bytes. -/
def getBytesOfBits : ℕ → Bytes → Checked (List Bool)
  | 0, _ => .ok []
  | n + 1, data => do
      let (byte, data) ← getU8 data
      let bits ← getBits byte
      let rest ← getBytesOfBits n data
      return bits ++ rest

/-! ### Decoders -/

/-- The arms of the four requests that read a range. -/
def decodeRange (arm : String) (max : UInt16) (request : UInt16 → UInt16 → Request)
    (data : Bytes) : Fallible IoError Request := do
  let (addr, data) ← readU16 "truncated PDU" data
  let (qty, _) ← readU16 "truncated PDU" data
  fromExcept (checkQuantity arm "qty" qty max)
  checkSpan arm "addr" "qty" addr qty
  return request addr qty

/-- The arms that read two words and check nothing. -/
def decodePair {α : Type} (truncated : String) (result : UInt16 → UInt16 → α) (data : Bytes) :
    Fallible IoError α := do
  let (fst, data) ← readU16 truncated data
  let (snd, _) ← readU16 truncated data
  return result fst snd

/-- The arms that read three words and check nothing. -/
def decodeTriple {α : Type} (truncated : String) (result : UInt16 → UInt16 → UInt16 → α)
    (data : Bytes) : Fallible IoError α := do
  let (fst, data) ← readU16 truncated data
  let (snd, data) ← readU16 truncated data
  let (trd, _) ← readU16 truncated data
  return result fst snd trd

/-- The arm of the request that writes coils. -/
def decodeWriteCoils (data : Bytes) : Fallible IoError Request := do
  let (addr, data) ← readU16 "truncated PDU" data
  let (qty, data) ← readU16 "truncated PDU" data
  fromExcept (checkQuantity "WriteMultipleCoils" "qty" qty MAX_COILS)
  checkSpan "WriteMultipleCoils" "addr" "qty" addr qty
  let (byteCount, data) ← readU8 "truncated PDU" data
  fromExcept (checkByteCount "WriteMultipleCoils" "ceil(qty/8)" byteCount.toNat
    (divCeil qty.toNat 8))
  fromExcept (checkRemaining data byteCount.toNat "truncated coil data")
  let _ ← check (mul usizeBits byteCount.toNat 8)
  let values ← check (getCoils qty.toNat byteCount.toNat data [])
  return .writeMultipleCoils addr (values.take qty.toNat)

/-- What the arms that carry registers read after the quantity. -/
def decodeWords (arm formula truncated : String) (qty : UInt16)
    (request : List UInt16 → Request) (data : Bytes) : Fallible IoError Request := do
  let (byteCount, data) ← readU8 "truncated PDU" data
  let size ← check (mul usizeBits qty.toNat 2)
  fromExcept (checkByteCount arm formula byteCount.toNat size)
  fromExcept (checkRemaining data size truncated)
  let (values, _) ← check (getU16s qty.toNat data)
  return request values

/-- The arm of the request that writes registers. -/
def decodeWriteRegisters (data : Bytes) : Fallible IoError Request := do
  let (addr, data) ← readU16 "truncated PDU" data
  let (qty, data) ← readU16 "truncated PDU" data
  fromExcept (checkQuantity "WriteMultipleRegisters" "qty" qty MAX_REGISTERS)
  checkSpan "WriteMultipleRegisters" "addr" "qty" addr qty
  decodeWords "WriteMultipleRegisters" "qty*2" "truncated register data" qty
    (.writeMultipleRegisters addr) data

/-- The arm of the request that reads and writes registers. -/
def decodeReadWrite (data : Bytes) : Fallible IoError Request := do
  let arm := "ReadWriteMultipleRegisters"
  let (readAddr, data) ← readU16 "truncated PDU" data
  let (readQty, data) ← readU16 "truncated PDU" data
  fromExcept (checkQuantity arm "read_qty" readQty MAX_REGISTERS)
  checkSpan arm "read_addr" "read_qty" readAddr readQty
  let (writeAddr, data) ← readU16 "truncated PDU" data
  let (writeQty, data) ← readU16 "truncated PDU" data
  fromExcept (checkQuantity arm "write_qty" writeQty MAX_REGISTERS)
  checkSpan arm "write_addr" "write_qty" writeAddr writeQty
  decodeWords arm "write_qty*2" "truncated R/W register data" writeQty
    (.readWriteMultipleRegisters readAddr readQty writeAddr) data

/-- The arm of the request that writes a coil. -/
def decodeWriteCoil (data : Bytes) : Fallible IoError Request := do
  let (addr, data) ← readU16 "truncated PDU" data
  let (raw, _) ← readU16 "truncated PDU" data
  if raw = 0xFF00 then return .writeSingleCoil addr true
  else if raw = 0x0000 then return .writeSingleCoil addr false
  else throw ⟨.invalidData, s!"WriteSingleCoil: invalid coil value 0x{hexDigits 4 raw.toNat}, "
    ++ "expected 0xFF00 or 0x0000"⟩

/-- Decoding the fields of a request with the given function code. -/
def decodeRequest (fc : UInt8) (data : Bytes) : Fallible IoError Request :=
  match fc with
  | 1 => decodeRange "ReadCoils" MAX_COILS .readCoils data
  | 2 => decodeRange "ReadDiscreteInputs" MAX_COILS .readDiscreteInputs data
  | 3 => decodeRange "ReadHoldingRegisters" MAX_REGISTERS .readHoldingRegisters data
  | 4 => decodeRange "ReadInputRegisters" MAX_REGISTERS .readInputRegisters data
  | 5 => decodeWriteCoil data
  | 6 => decodePair "truncated PDU" .writeSingleRegister data
  | 15 => decodeWriteCoils data
  | 16 => decodeWriteRegisters data
  | 22 => decodeTriple "truncated PDU" .maskWriteRegister data
  | 23 => decodeReadWrite data
  | 8 => decodePair "truncated PDU" .diagnostic data
  | _ => throw ⟨.invalidData, s!"unknown function code: 0x{hexDigits 2 fc.toNat}"⟩

/-- `TryFrom<Bytes> for Request`. -/
def requestTryFrom (bytes : Bytes) : Fallible IoError Request := do
  if bytes.length = 0 then throw ⟨.invalidData, "empty PDU"⟩
  else
    let fc ← check (index bytes 0)
    let bytes ← check (advance bytes 1)
    decodeRequest fc bytes

/-- The arms of the responses that carry coils. -/
def decodeCoils (response : List Bool → Response) (data : Bytes) : Fallible IoError Response := do
  let (byteCount, data) ← readU8 "truncated response PDU" data
  fromExcept (checkRemaining data byteCount.toNat "truncated coil response")
  let _ ← check (mul usizeBits byteCount.toNat 8)
  let bits ← check (getBytesOfBits byteCount.toNat data)
  return response bits

/-- The arms of the responses that carry registers. -/
def decodeRegisters (odd : ℕ → IoError) (truncated : String) (response : List UInt16 → Response)
    (data : Bytes) : Fallible IoError Response := do
  let (byteCount, data) ← readU8 "truncated response PDU" data
  if byteCount.toNat % 2 ≠ 0 then throw (odd byteCount.toNat)
  fromExcept (checkRemaining data byteCount.toNat truncated)
  let (regs, _) ← check (getU16s (byteCount.toNat / 2) data)
  return response regs

/-- Decoding the fields of a response with the given function code. -/
def decodeResponse (fc : UInt8) (data : Bytes) : Fallible IoError Response :=
  match fc with
  | 1 | 2 =>
      decodeCoils (fun bits => if fc = 1 then .readCoils bits else .readDiscreteInputs bits) data
  | 3 | 4 =>
      decodeRegisters
        (fun n => ⟨.invalidData, s!"register response: byte_count {n} is not even"⟩)
        "truncated register response"
        (fun regs => if fc = 3 then .readHoldingRegisters regs else .readInputRegisters regs) data
  | 5 => decodePair "truncated response PDU" (fun addr raw => .writeSingleCoil addr (raw == 0xFF00))
      data
  | 6 => decodePair "truncated response PDU" .writeSingleRegister data
  | 15 => decodePair "truncated response PDU" .writeMultipleCoils data
  | 16 => decodePair "truncated response PDU" .writeMultipleRegisters data
  | 22 => decodeTriple "truncated response PDU" .maskWriteRegister data
  | 23 =>
      decodeRegisters
        (fun n => ⟨.invalidData,
          s!"ReadWriteMultipleRegisters response: byte_count {n} is not even"⟩)
        "truncated R/W response" .readWriteMultipleRegisters data
  | 8 => decodePair "truncated response PDU" .diagnostic data
  | _ => throw ⟨.invalidData, s!"unknown response function code: {fc}"⟩

/-- `TryFrom<Bytes> for Response`. -/
def responseTryFrom (bytes : Bytes) : Fallible IoError Response := do
  if bytes.length = 0 then throw ⟨.invalidData, "empty PDU"⟩
  else
    let fc ← check (index bytes 0)
    if fc &&& 0x80 ≠ 0 then
      if bytes.length < 2 then throw ⟨.invalidData, "truncated exception PDU"⟩
      else
        let code ← check (index bytes 1)
        return .exception (fc &&& 0x7F) (.ofU8 code)
    else
      let bytes ← check (advance bytes 1)
      decodeResponse fc bytes

/-! ### The checks of the fields -/

theorem getU8_cons (b : UInt8) (data : Bytes) : getU8 (b :: data) = .ok (b, data) := rfl

theorem getU16_cons (hi lo : UInt8) (data : Bytes) :
    getU16 (hi :: lo :: data) = .ok (fromBeBytes hi lo, data) := rfl

theorem yields_readU8 (truncated : String) (data : Bytes) :
    Yields (readU8 truncated data) (OmsModbus.readU8 truncated data) := by
  cases data with
  | nil => exact Yields.throw _
  | cons b data => exact Yields.check (getU8_cons b data)

theorem yields_readU16 (truncated : String) (data : Bytes) :
    Yields (readU16 truncated data) (OmsModbus.readU16 truncated data) := by
  match data with
  | [] => exact Yields.throw _
  | [_] => exact Yields.throw _
  | hi :: lo :: data => exact Yields.check (getU16_cons hi lo data)

theorem yields_checkSpan (arm addrName qtyName : String) (addr qty : UInt16) :
    Yields (checkSpan arm addrName qtyName addr qty)
      (OmsModbus.checkSpan arm addrName qtyName addr qty) := by
  have haddr := addr.toNat_lt
  have hqty := qty.toNat_lt
  exact (Yields.check (add_eq (by omega))).bind_ok (Yields.fromExcept _)

theorem getU16s_eq {n : ℕ} {data : Bytes} (h : 2 * n ≤ data.length) :
    getU16s n data = .ok (takeWords n data) := by
  induction n generalizing data with
  | zero => rfl
  | succ n ih =>
      match data with
      | [] => simp at h
      | [_] => simp at h; omega
      | hi :: lo :: data =>
          have hrest : 2 * n ≤ data.length := by
            simp only [List.length_cons] at h
            omega
          rw [getU16s, getU16_cons, takeWords_succ]
          change (do
            let (values, data) ← getU16s n data
            return (fromBeBytes hi lo :: values, data)) = Except.ok _
          rw [ih hrest]
          rfl

theorem testBit_eq (byte : UInt8) {i : ℕ} (h : i < 8) : testBit byte i = .ok (bitAt byte i) := by
  rw [testBit, shlU8_eq 1 h]
  rfl

theorem pushBits_eq (qty : ℕ) (byte : UInt8) {is : List ℕ} (h : ∀ i ∈ is, i < 8)
    (values : List Bool) :
    pushBits qty byte is values = .ok (OmsModbus.pushBits qty byte is values) := by
  induction is generalizing values with
  | nil => rfl
  | cons i is ih =>
      rw [pushBits, testBit_eq byte (h i List.mem_cons_self), OmsModbus.pushBits]
      change (if (values ++ [bitAt byte i]).length ≥ qty then Except.ok (values ++ [bitAt byte i])
        else pushBits qty byte is (values ++ [bitAt byte i])) = _
      rw [ih fun j hj => h j (List.mem_cons_of_mem _ hj)]
      split <;> rfl

/-- The coil reader does not read behind the bytes that were asked for. -/
theorem getCoils_eq (qty : ℕ) {n : ℕ} {data : Bytes} (h : n ≤ data.length) (values : List Bool) :
    getCoils qty n data values
      = .ok ((data.take n).foldl
          (fun values byte => OmsModbus.pushBits qty byte (List.range 8) values) values) := by
  induction n generalizing data values with
  | zero => rfl
  | succ n ih =>
      cases data with
      | nil => simp at h
      | cons byte data =>
          rw [getCoils, getU8_cons, List.take_succ_cons, List.foldl_cons]
          change (do
            let values ← pushBits qty byte (List.range 8) values
            getCoils qty n data values) = _
          rw [pushBits_eq qty byte (fun i hi => List.mem_range.1 hi)]
          exact ih (Nat.le_of_succ_le_succ h) _

theorem getBits_eq (byte : UInt8) : getBits byte = .ok (unpackByte byte) :=
  mapM_eq fun _ hi => testBit_eq byte (List.mem_range.1 hi)

theorem getBytesOfBits_eq {n : ℕ} {data : Bytes} (h : n ≤ data.length) :
    getBytesOfBits n data = .ok (unpackBits (data.take n)) := by
  induction n generalizing data with
  | zero => rfl
  | succ n ih =>
      cases data with
      | nil => simp at h
      | cons byte data =>
          rw [getBytesOfBits, getU8_cons, List.take_succ_cons, unpackBits_cons]
          change (do
            let bits ← getBits byte
            let rest ← getBytesOfBits n data
            return bits ++ rest) = Except.ok _
          rw [getBits_eq, ih (Nat.le_of_succ_le_succ h)]
          rfl

/-! ### The arms of the decoders -/

theorem yields_decodeRange (arm : String) (max : UInt16) (request : UInt16 → UInt16 → Request)
    (data : Bytes) :
    Yields (decodeRange arm max request data) (do
      let (addr, data) ← OmsModbus.readU16 "truncated PDU" data
      let (qty, _) ← OmsModbus.readU16 "truncated PDU" data
      checkQuantity arm "qty" qty max
      OmsModbus.checkSpan arm "addr" "qty" addr qty
      return request addr qty) := by
  refine (yields_readU16 _ _).bind fun fst _ => (yields_readU16 _ _).bind fun snd _ => ?_
  refine (Yields.fromExcept _).bind fun _ _ => (yields_checkSpan _ _ _ _ _).bind fun _ _ => ?_
  exact Yields.pure _

theorem yields_decodePair {α : Type} (truncated : String) (result : UInt16 → UInt16 → α)
    (data : Bytes) :
    Yields (decodePair truncated result data) (do
      let (fst, data) ← OmsModbus.readU16 truncated data
      let (snd, _) ← OmsModbus.readU16 truncated data
      return result fst snd) := by
  refine (yields_readU16 _ _).bind fun fst _ => (yields_readU16 _ _).bind fun snd _ => ?_
  exact Yields.pure _

theorem yields_decodeTriple {α : Type} (truncated : String)
    (result : UInt16 → UInt16 → UInt16 → α) (data : Bytes) :
    Yields (decodeTriple truncated result data) (do
      let (fst, data) ← OmsModbus.readU16 truncated data
      let (snd, data) ← OmsModbus.readU16 truncated data
      let (trd, _) ← OmsModbus.readU16 truncated data
      return result fst snd trd) := by
  refine (yields_readU16 _ _).bind fun fst _ => (yields_readU16 _ _).bind fun snd _ => ?_
  exact (yields_readU16 _ _).bind fun trd _ => Yields.pure _

theorem yields_decodeWriteCoil (data : Bytes) :
    Yields (decodeWriteCoil data) (OmsModbus.decodeRequest 5 data) := by
  refine (yields_readU16 _ _).bind fun fst _ => (yields_readU16 _ _).bind fun snd _ => ?_
  refine Yields.ite (fun _ => Yields.pure _) fun _ => ?_
  exact Yields.ite (fun _ => Yields.pure _) fun _ => Yields.throw _

/-- The count of a list is no more than a byte, so its product with a small number is a word. -/
theorem mul_toNat_eq (count : UInt8) : mul usizeBits count.toNat 8 = .ok (count.toNat * 8) := by
  have hbits : 2 ^ usizeBits = 18446744073709551616 := rfl
  have hcount := count.toNat_lt
  exact mul_eq (by omega)

theorem yields_decodeWriteCoils (data : Bytes) :
    Yields (decodeWriteCoils data) (OmsModbus.decodeRequest 15 data) := by
  refine (yields_readU16 _ _).bind fun fst _ => (yields_readU16 _ _).bind fun snd _ => ?_
  refine (Yields.fromExcept _).bind fun _ _ => (yields_checkSpan _ _ _ _ _).bind fun _ _ => ?_
  refine (yields_readU8 _ _).bind fun count _ => (Yields.fromExcept _).bind fun _ _ => ?_
  refine (Yields.fromExcept _).bind fun _ hremaining => ?_
  -- the bytes that are read were found to be there
  have hlen := checkRemaining_eq_ok.1 hremaining
  refine (Yields.check (mul_toNat_eq _)).bind_ok ?_
  exact (Yields.check (getCoils_eq _ hlen _)).bind_ok (Yields.pure _)

theorem yields_decodeWords (arm formula truncated : String) (qty : UInt16)
    (request : List UInt16 → Request) (data : Bytes) :
    Yields (decodeWords arm formula truncated qty request data) (do
      let (byteCount, data) ← OmsModbus.readU8 "truncated PDU" data
      checkByteCount arm formula byteCount.toNat (qty.toNat * 2)
      checkRemaining data (qty.toNat * 2) truncated
      return request (takeWords qty.toNat data).1) := by
  have hbits : 2 ^ usizeBits = 18446744073709551616 := rfl
  have hqty := qty.toNat_lt
  refine (yields_readU8 _ _).bind fun count _ => ?_
  refine (Yields.check (mul_eq (by omega))).bind_ok ?_
  refine (Yields.fromExcept _).bind fun _ _ => (Yields.fromExcept _).bind fun _ hremaining => ?_
  have hlen := checkRemaining_eq_ok.1 hremaining
  exact (Yields.check (getU16s_eq (by omega))).bind_ok (Yields.pure _)

theorem yields_decodeWriteRegisters (data : Bytes) :
    Yields (decodeWriteRegisters data) (OmsModbus.decodeRequest 16 data) := by
  refine (yields_readU16 _ _).bind fun fst _ => (yields_readU16 _ _).bind fun snd _ => ?_
  refine (Yields.fromExcept _).bind fun _ _ => (yields_checkSpan _ _ _ _ _).bind fun _ _ => ?_
  exact yields_decodeWords _ _ _ _ _ _

theorem yields_decodeReadWrite (data : Bytes) :
    Yields (decodeReadWrite data) (OmsModbus.decodeRequest 23 data) := by
  refine (yields_readU16 _ _).bind fun fst _ => (yields_readU16 _ _).bind fun snd _ => ?_
  refine (Yields.fromExcept _).bind fun _ _ => (yields_checkSpan _ _ _ _ _).bind fun _ _ => ?_
  refine (yields_readU16 _ _).bind fun trd _ => (yields_readU16 _ _).bind fun fth _ => ?_
  refine (Yields.fromExcept _).bind fun _ _ => (yields_checkSpan _ _ _ _ _).bind fun _ _ => ?_
  exact yields_decodeWords _ _ _ _ _ _

theorem yields_decodeCoils (response : List Bool → Response) (data : Bytes) :
    Yields (decodeCoils response data) (do
      let (byteCount, data) ← OmsModbus.readU8 "truncated response PDU" data
      checkRemaining data byteCount.toNat "truncated coil response"
      return response (unpackBits (data.take byteCount.toNat))) := by
  refine (yields_readU8 _ _).bind fun count _ => (Yields.fromExcept _).bind fun _ hremaining => ?_
  have hlen := checkRemaining_eq_ok.1 hremaining
  refine (Yields.check (mul_toNat_eq _)).bind_ok ?_
  exact (Yields.check (getBytesOfBits_eq hlen)).bind_ok (Yields.pure _)

theorem yields_decodeRegisters (odd : ℕ → IoError) (truncated : String)
    (response : List UInt16 → Response) (data : Bytes) :
    Yields (decodeRegisters odd truncated response data) (do
      let (byteCount, data) ← OmsModbus.readU8 "truncated response PDU" data
      if byteCount.toNat % 2 ≠ 0 then throw (odd byteCount.toNat)
      checkRemaining data byteCount.toNat truncated
      return response (takeWords (byteCount.toNat / 2) data).1) := by
  refine (yields_readU8 _ _).bind fun count _ => ?_
  refine Yields.ite (fun _ => Yields.throw _) fun _ => ?_
  refine (Yields.fromExcept _).bind fun _ hremaining => ?_
  have hlen := checkRemaining_eq_ok.1 hremaining
  exact (Yields.check (getU16s_eq (by omega))).bind_ok (Yields.pure _)

/-! ### The decoders -/

theorem yields_decodeRequest (fc : UInt8) (data : Bytes) :
    Yields (decodeRequest fc data) (OmsModbus.decodeRequest fc data) := by
  unfold decodeRequest
  split
  · exact yields_decodeRange _ _ _ _
  · exact yields_decodeRange _ _ _ _
  · exact yields_decodeRange _ _ _ _
  · exact yields_decodeRange _ _ _ _
  · exact yields_decodeWriteCoil _
  · exact yields_decodePair _ _ _
  · exact yields_decodeWriteCoils _
  · exact yields_decodeWriteRegisters _
  · exact yields_decodeTriple _ _ _
  · exact yields_decodeReadWrite _
  · exact yields_decodePair _ _ _
  · unfold OmsModbus.decodeRequest
    split
    all_goals first
      | exact Yields.throw _
      | contradiction

/-- **Requests are decoded without a panic.** -/
theorem requestTryFrom_eq (bytes : Bytes) :
    Yields (requestTryFrom bytes) (Request.tryFrom bytes) := by
  cases bytes with
  | nil => exact Yields.throw _
  | cons fc data =>
      refine (Yields.check (index_cons_zero fc data)).bind_ok ?_
      exact (Yields.check (advance_eq (by simp))).bind_ok (yields_decodeRequest fc data)

theorem yields_decodeResponse (fc : UInt8) (data : Bytes) :
    Yields (decodeResponse fc data) (OmsModbus.decodeResponse fc data) := by
  unfold decodeResponse
  split
  · exact yields_decodeCoils _ _
  · exact yields_decodeCoils _ _
  · exact yields_decodeRegisters _ _ _ _
  · exact yields_decodeRegisters _ _ _ _
  · exact yields_decodePair _ _ _
  · exact yields_decodePair _ _ _
  · exact yields_decodePair _ _ _
  · exact yields_decodePair _ _ _
  · exact yields_decodeTriple _ _ _
  · exact yields_decodeRegisters _ _ _ _
  · exact yields_decodePair _ _ _
  · unfold OmsModbus.decodeResponse
    split
    all_goals first
      | exact Yields.throw _
      | contradiction

/-- **Responses are decoded without a panic.** -/
theorem responseTryFrom_eq (bytes : Bytes) :
    Yields (responseTryFrom bytes) (Response.tryFrom bytes) := by
  match bytes with
  | [] => exact Yields.throw _
  | fc :: data =>
      refine (Yields.check (index_cons_zero fc data)).bind_ok ?_
      refine Yields.ite (fun _ => ?_) fun _ => ?_
      · cases data with
        | nil => exact Yields.throw _
        | cons code data => exact (Yields.check rfl).bind_ok (Yields.pure _)
      · exact (Yields.check (advance_eq (by simp))).bind_ok (yields_decodeResponse fc data)

end OmsModbus.Guarded
