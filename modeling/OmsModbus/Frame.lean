/-
**Modbus PDUs: requests, responses, and their wire format.**

This module is the data model of the library and its codec, function by function: the requests
and responses, the two encoders, which append to a buffer and may fail halfway, and the two
decoders, which read a buffer from the front and check every field they read.

A buffer is a list of bytes.  An encoder takes the buffer and returns its result together with
the buffer it leaves, also when it fails; a decoder takes the bytes still to be read and passes on
the bytes it leaves.

Main definitions:

* `OmsModbus.Request`, `OmsModbus.Response`, `OmsModbus.Exception` — the PDUs;
* `OmsModbus.encodeRequestInto`, `OmsModbus.encodeResponseInto` — the encoders, with the size
  limit of a PDU;
* `OmsModbus.Request.tryFrom`, `OmsModbus.Response.tryFrom` — the decoders.
-/

import OmsModbus.Words
import OmsModbus.BitPack
import OmsModbus.Error

set_option relaxedAutoImplicit false
set_option autoImplicit false

namespace OmsModbus

open Words BitPack

/-- A byte string: a buffer, a frame, a PDU. -/
abbrev Bytes := List UInt8

/-! ### Limits -/

/-- A PDU is a function code and at most 252 bytes of data. -/
def MAX_PDU_SIZE : ℕ := 253

/-- The largest number of coils in one request. -/
def MAX_COILS : UInt16 := 2000

/-- The largest number of registers in one request. -/
def MAX_REGISTERS : UInt16 := 125

/-- The number of bits of a machine size. -/
def usizeBits : ℕ := 64

/-- Multiplication of sizes that fails on overflow. -/
def checkedMul (a b : ℕ) : Option ℕ := if a * b < 2 ^ usizeBits then some (a * b) else none

/-- A size as a byte, or an error. -/
def safeU8 (val : ℕ) (context : String) : Except IoError UInt8 :=
  if val ≤ 255 then .ok (UInt8.ofNat val)
  else .error ⟨.invalidData, s!"{context}: value {val} exceeds u8 range"⟩

/-! ### Function codes -/

/-- A function code: 1–127, or an exception code with bit 7 set. -/
structure FunctionCode where
  value : UInt8
  deriving DecidableEq, Repr

/-- The known function codes and their exception variants. -/
def isKnownFunctionCode (b : UInt8) : Bool :=
  let base := b &&& 0x7F
  decide (1 ≤ base ∧ base ≤ 6) || base == 8 || base == 15 || base == 16 || base == 22 || base == 23

/-! ### Requests and responses -/

/-- Address of a register or coil. -/
abbrev Address := UInt16

/-- Number of registers or coils. -/
abbrev Quantity := UInt16

/-- A request PDU. -/
inductive Request
  | readCoils (addr : Address) (qty : Quantity)
  | readDiscreteInputs (addr : Address) (qty : Quantity)
  | readHoldingRegisters (addr : Address) (qty : Quantity)
  | readInputRegisters (addr : Address) (qty : Quantity)
  | writeSingleCoil (addr : Address) (value : Bool)
  | writeSingleRegister (addr : Address) (value : UInt16)
  | writeMultipleCoils (addr : Address) (values : List Bool)
  | writeMultipleRegisters (addr : Address) (values : List UInt16)
  | readWriteMultipleRegisters (readAddr : Address) (readQty : Quantity) (writeAddr : Address)
      (data : List UInt16)
  | maskWriteRegister (addr : Address) (andMask orMask : UInt16)
  | diagnostic (sf data : UInt16)
  | disconnect
  deriving DecidableEq, Repr

/-- The exception codes of the standard, and any other. -/
inductive Exception
  | illegalFunction
  | illegalDataAddress
  | illegalDataValue
  | serverDeviceFailure
  | acknowledge
  | serverDeviceBusy
  | negativeAcknowledge
  | memoryParityError
  | gatewayPathUnavailable
  | gatewayTargetDeviceFailedToRespond
  | custom (code : UInt8)
  deriving DecidableEq, Repr

/-- A response PDU. -/
inductive Response
  | readCoils (bits : List Bool)
  | readDiscreteInputs (bits : List Bool)
  | readHoldingRegisters (regs : List UInt16)
  | readInputRegisters (regs : List UInt16)
  | writeSingleCoil (addr : Address) (val : Bool)
  | writeSingleRegister (addr : Address) (val : UInt16)
  | writeMultipleCoils (addr : Address) (qty : UInt16)
  | writeMultipleRegisters (addr : Address) (qty : UInt16)
  | readWriteMultipleRegisters (regs : List UInt16)
  | maskWriteRegister (addr : Address) (andMask orMask : UInt16)
  | diagnostic (sf data : UInt16)
  | exception (fc : UInt8) (ex : Exception)
  deriving DecidableEq, Repr

/-- The function code of a request. -/
def Request.functionCode : Request → FunctionCode
  | readCoils .. => ⟨1⟩
  | readDiscreteInputs .. => ⟨2⟩
  | readHoldingRegisters .. => ⟨3⟩
  | readInputRegisters .. => ⟨4⟩
  | writeSingleCoil .. => ⟨5⟩
  | writeSingleRegister .. => ⟨6⟩
  | readWriteMultipleRegisters .. => ⟨23⟩
  | writeMultipleCoils .. => ⟨15⟩
  | writeMultipleRegisters .. => ⟨16⟩
  | maskWriteRegister .. => ⟨22⟩
  | diagnostic .. => ⟨8⟩
  | disconnect => ⟨0⟩

/-- The function code of a response; an exception has bit 7 set. -/
def Response.functionCode : Response → FunctionCode
  | readCoils .. => ⟨1⟩
  | readDiscreteInputs .. => ⟨2⟩
  | readHoldingRegisters .. => ⟨3⟩
  | readInputRegisters .. => ⟨4⟩
  | writeSingleCoil .. => ⟨5⟩
  | writeSingleRegister .. => ⟨6⟩
  | writeMultipleCoils .. => ⟨15⟩
  | writeMultipleRegisters .. => ⟨16⟩
  | readWriteMultipleRegisters .. => ⟨23⟩
  | maskWriteRegister .. => ⟨22⟩
  | diagnostic .. => ⟨8⟩
  | exception fc _ => ⟨fc ||| 0x80⟩

/-- `From<u8> for Exception`. -/
def Exception.ofU8 (code : UInt8) : Exception :=
  match code with
  | 1 => illegalFunction
  | 2 => illegalDataAddress
  | 3 => illegalDataValue
  | 4 => serverDeviceFailure
  | 5 => acknowledge
  | 6 => serverDeviceBusy
  | 7 => negativeAcknowledge
  | 8 => memoryParityError
  | 10 => gatewayPathUnavailable
  | 11 => gatewayTargetDeviceFailedToRespond
  | n => custom n

/-- `From<Exception> for u8`. -/
def Exception.toU8 : Exception → UInt8
  | illegalFunction => 1
  | illegalDataAddress => 2
  | illegalDataValue => 3
  | serverDeviceFailure => 4
  | acknowledge => 5
  | serverDeviceBusy => 6
  | negativeAcknowledge => 7
  | memoryParityError => 8
  | gatewayPathUnavailable => 10
  | gatewayTargetDeviceFailedToRespond => 11
  | custom n => n

/-! ### Encoders -/

/-- Appending a byte. -/
def putU8 (buf : Bytes) (v : UInt8) : Bytes := buf ++ [v]

/-- Appending a word, high byte first. -/
def pushU16 (buf : Bytes) (v : UInt16) : Bytes := buf ++ toBeBytes v

/-- Appending the bytes of a list of bits. -/
def putBits (buf : Bytes) (values : List Bool) : Bytes :=
  (chunks 8 values).foldl (fun buf chunk => putU8 buf (packByte chunk)) buf

/-- Appending a list of words. -/
def putWords (buf : Bytes) (values : List UInt16) : Bytes := values.foldl pushU16 buf

/-- Appending the fields of a request.  When a byte count does not fit in a byte the function
returns early, and the bytes written so far stay in the buffer. -/
def encodeRequest (req : Request) (buf : Bytes) : Except IoError Unit × Bytes :=
  if req = .disconnect then (.ok (), buf)
  else
    let buf := putU8 buf req.functionCode.value
    match req with
    | .readCoils addr qty
    | .readDiscreteInputs addr qty
    | .readHoldingRegisters addr qty
    | .readInputRegisters addr qty => (.ok (), pushU16 (pushU16 buf addr) qty)
    | .writeSingleCoil addr value =>
        (.ok (), pushU16 (pushU16 buf addr) (if value then 0xFF00 else 0x0000))
    | .writeSingleRegister addr value => (.ok (), pushU16 (pushU16 buf addr) value)
    | .writeMultipleCoils addr values =>
        let buf := pushU16 (pushU16 buf addr) (UInt16.ofNat values.length)
        match safeU8 (divCeil values.length 8) "coil byte count" with
        | .error e => (.error e, buf)
        | .ok byteCount => (.ok (), putBits (putU8 buf byteCount) values)
    | .writeMultipleRegisters addr values =>
        let buf := pushU16 (pushU16 buf addr) (UInt16.ofNat values.length)
        match safeU8 (values.length * 2) "write multiple reg byte count" with
        | .error e => (.error e, buf)
        | .ok byteCount => (.ok (), putWords (putU8 buf byteCount) values)
    | .readWriteMultipleRegisters readAddr readQty writeAddr data =>
        let buf := pushU16 (pushU16 (pushU16 (pushU16 buf readAddr) readQty) writeAddr)
          (UInt16.ofNat data.length)
        match safeU8 (data.length * 2) "read-write reg byte count" with
        | .error e => (.error e, buf)
        | .ok byteCount => (.ok (), putWords (putU8 buf byteCount) data)
    | .maskWriteRegister addr andMask orMask =>
        (.ok (), pushU16 (pushU16 (pushU16 buf addr) andMask) orMask)
    | .diagnostic sf data => (.ok (), pushU16 (pushU16 buf sf) data)
    | .disconnect => (.ok (), buf)

/-- Appending a request PDU of at most `MAX_PDU_SIZE` bytes. -/
def encodeRequestInto (req : Request) (buf : Bytes) : Except IoError Unit × Bytes :=
  let start := buf.length
  match encodeRequest req buf with
  | (.error e, buf) => (.error e, buf)
  | (.ok (), buf) =>
    let pduLen := buf.length - start
    if pduLen > MAX_PDU_SIZE then
      (.error ⟨.invalidData, s!"PDU size {pduLen} exceeds Modbus limit of {MAX_PDU_SIZE}"⟩,
        buf.take start)
    else (.ok (), buf)

/-- The byte count of a response fits in a byte. -/
def validateResponseSize (rsp : Response) : Except IoError Unit :=
  let tooLarge : IoError := ⟨.invalidData, "response too large"⟩
  let byteCount : Option (Except IoError ℕ) :=
    match rsp with
    | .readCoils bits | .readDiscreteInputs bits => some (.ok (divCeil bits.length 8))
    | .readHoldingRegisters regs | .readInputRegisters regs | .readWriteMultipleRegisters regs =>
        some (match checkedMul regs.length 2 with
          | some n => .ok n
          | none => .error tooLarge)
    | _ => none
  match byteCount with
  | none => .ok ()
  | some (.error e) => .error e
  | some (.ok n) =>
    match safeU8 n "response byte count" with
    | .error e => .error e
    | .ok _ => .ok ()

/-- Appending the fields of a response. -/
def encodeResponse (rsp : Response) (buf : Bytes) : Except IoError Unit × Bytes :=
  match rsp with
  | .readCoils bits | .readDiscreteInputs bits =>
      match safeU8 (divCeil bits.length 8) "coil byte count" with
      | .error e => (.error e, buf)
      | .ok byteCount =>
        (.ok (), putBits (putU8 (putU8 buf rsp.functionCode.value) byteCount) bits)
  | .readHoldingRegisters regs | .readInputRegisters regs | .readWriteMultipleRegisters regs =>
      let buf := putU8 buf rsp.functionCode.value
      match safeU8 (regs.length * 2) "register byte count" with
      | .error e => (.error e, buf)
      | .ok byteCount => (.ok (), putWords (putU8 buf byteCount) regs)
  | .writeSingleCoil addr val =>
      (.ok (), pushU16 (pushU16 (putU8 buf rsp.functionCode.value) addr)
        (if val then 0xFF00 else 0x0000))
  | .writeSingleRegister addr val =>
      (.ok (), pushU16 (pushU16 (putU8 buf rsp.functionCode.value) addr) val)
  | .writeMultipleCoils addr qty | .writeMultipleRegisters addr qty =>
      (.ok (), pushU16 (pushU16 (putU8 buf rsp.functionCode.value) addr) qty)
  | .maskWriteRegister addr andMask orMask =>
      (.ok (), pushU16 (pushU16 (pushU16 (putU8 buf rsp.functionCode.value) addr) andMask) orMask)
  | .diagnostic sf data =>
      (.ok (), pushU16 (pushU16 (putU8 buf rsp.functionCode.value) sf) data)
  | .exception fc ex => (.ok (), putU8 (putU8 buf (fc ||| 0x80)) ex.toU8)

/-- Appending a response PDU of at most `MAX_PDU_SIZE` bytes. -/
def encodeResponseInto (rsp : Response) (buf : Bytes) : Except IoError Unit × Bytes :=
  match validateResponseSize rsp with
  | .error e => (.error e, buf)
  | .ok () =>
    let start := buf.length
    match encodeResponse rsp buf with
    | (.error e, buf) => (.error e, buf)
    | (.ok (), buf) =>
      let pduLen := buf.length - start
      if pduLen > MAX_PDU_SIZE then
        (.error ⟨.invalidData, s!"PDU size {pduLen} exceeds Modbus limit of {MAX_PDU_SIZE}"⟩,
          buf.take start)
      else (.ok (), buf)

/-! ### Reading fields -/

/-- Reading a word, or failing with the message of a truncated PDU. -/
def readU16 (truncated : String) : Bytes → Except IoError (UInt16 × Bytes)
  | hi :: lo :: data => .ok (fromBeBytes hi lo, data)
  | _ => .error ⟨.unexpectedEof, truncated⟩

/-- Reading a byte, or failing with the message of a truncated PDU. -/
def readU8 (truncated : String) : Bytes → Except IoError (UInt8 × Bytes)
  | b :: data => .ok (b, data)
  | [] => .error ⟨.unexpectedEof, truncated⟩

/-- The bytes a list occupies must be there before it is read. -/
def checkRemaining (data : Bytes) (count : ℕ) (truncated : String) : Except IoError Unit :=
  if data.length < count then .error ⟨.unexpectedEof, truncated⟩ else .ok ()

/-- A quantity lies in `1..=max`. -/
def checkQuantity (arm name : String) (qty max : UInt16) : Except IoError Unit :=
  if qty = 0 ∨ qty > max then .error ⟨.invalidData, s!"{arm}: {name} {qty} not in 1..={max}"⟩
  else .ok ()

/-- A range of addresses does not leave the address space. -/
def checkSpan (arm addrName qtyName : String) (addr qty : UInt16) : Except IoError Unit :=
  if addr.toNat + qty.toNat > 0x10000 then
    .error ⟨.invalidData, s!"{arm}: {addrName} {addr} + {qtyName} {qty} exceeds 0xFFFF"⟩
  else .ok ()

/-- A byte count is the one the quantity calls for. -/
def checkByteCount (arm formula : String) (byteCount expected : ℕ) : Except IoError Unit :=
  if byteCount ≠ expected then
    .error ⟨.invalidData, s!"{arm}: byte_count {byteCount} != {formula} ({expected})"⟩
  else .ok ()

/-- The inner loop of the coil reader: the bits of one byte are pushed until `qty` values are
there. -/
def pushBits (qty : ℕ) (byte : UInt8) : List ℕ → List Bool → List Bool
  | [], values => values
  | i :: is, values =>
      let values := values ++ [bitAt byte i]
      if values.length ≥ qty then values else pushBits qty byte is values

/-- The coil reader: `byteCount` bytes are unpacked and the list is cut to `qty` values. -/
def readCoilValues (qty : ℕ) (bytes : Bytes) : List Bool :=
  (bytes.foldl (fun values byte => pushBits qty byte (List.range 8) values) []).take qty

/-- Two hexadecimal digits, in capitals. -/
def hexDigits (width n : ℕ) : String :=
  let digits := (Nat.toDigits 16 n).map Char.toUpper
  String.ofList (List.replicate (width - digits.length) '0' ++ digits)

/-! ### Decoders -/

/-- Decoding the fields of a request with the given function code. -/
def decodeRequest (fc : UInt8) (data : Bytes) : Except IoError Request :=
  let readU16 := readU16 "truncated PDU"
  let readU8 := readU8 "truncated PDU"
  match fc with
  | 1 => do
      let (addr, data) ← readU16 data
      let (qty, _) ← readU16 data
      checkQuantity "ReadCoils" "qty" qty MAX_COILS
      checkSpan "ReadCoils" "addr" "qty" addr qty
      return .readCoils addr qty
  | 2 => do
      let (addr, data) ← readU16 data
      let (qty, _) ← readU16 data
      checkQuantity "ReadDiscreteInputs" "qty" qty MAX_COILS
      checkSpan "ReadDiscreteInputs" "addr" "qty" addr qty
      return .readDiscreteInputs addr qty
  | 3 => do
      let (addr, data) ← readU16 data
      let (qty, _) ← readU16 data
      checkQuantity "ReadHoldingRegisters" "qty" qty MAX_REGISTERS
      checkSpan "ReadHoldingRegisters" "addr" "qty" addr qty
      return .readHoldingRegisters addr qty
  | 4 => do
      let (addr, data) ← readU16 data
      let (qty, _) ← readU16 data
      checkQuantity "ReadInputRegisters" "qty" qty MAX_REGISTERS
      checkSpan "ReadInputRegisters" "addr" "qty" addr qty
      return .readInputRegisters addr qty
  | 5 => do
      let (addr, data) ← readU16 data
      let (raw, _) ← readU16 data
      if raw = 0xFF00 then return .writeSingleCoil addr true
      else if raw = 0x0000 then return .writeSingleCoil addr false
      else throw ⟨.invalidData, s!"WriteSingleCoil: invalid coil value 0x{hexDigits 4 raw.toNat}, "
        ++ "expected 0xFF00 or 0x0000"⟩
  | 6 => do
      let (addr, data) ← readU16 data
      let (val, _) ← readU16 data
      return .writeSingleRegister addr val
  | 15 => do
      let (addr, data) ← readU16 data
      let (qty, data) ← readU16 data
      checkQuantity "WriteMultipleCoils" "qty" qty MAX_COILS
      checkSpan "WriteMultipleCoils" "addr" "qty" addr qty
      let qty := qty.toNat
      let (byteCount, data) ← readU8 data
      let byteCount := byteCount.toNat
      checkByteCount "WriteMultipleCoils" "ceil(qty/8)" byteCount (divCeil qty 8)
      checkRemaining data byteCount "truncated coil data"
      return .writeMultipleCoils addr (readCoilValues qty (data.take byteCount))
  | 16 => do
      let (addr, data) ← readU16 data
      let (qty, data) ← readU16 data
      checkQuantity "WriteMultipleRegisters" "qty" qty MAX_REGISTERS
      checkSpan "WriteMultipleRegisters" "addr" "qty" addr qty
      let qty := qty.toNat
      let (byteCount, data) ← readU8 data
      let byteCount := byteCount.toNat
      checkByteCount "WriteMultipleRegisters" "qty*2" byteCount (qty * 2)
      checkRemaining data (qty * 2) "truncated register data"
      return .writeMultipleRegisters addr (takeWords qty data).1
  | 22 => do
      let (addr, data) ← readU16 data
      let (andMask, data) ← readU16 data
      let (orMask, _) ← readU16 data
      return .maskWriteRegister addr andMask orMask
  | 23 => do
      let arm := "ReadWriteMultipleRegisters"
      let (readAddr, data) ← readU16 data
      let (readQty, data) ← readU16 data
      checkQuantity arm "read_qty" readQty MAX_REGISTERS
      checkSpan arm "read_addr" "read_qty" readAddr readQty
      let (writeAddr, data) ← readU16 data
      let (writeQty, data) ← readU16 data
      checkQuantity arm "write_qty" writeQty MAX_REGISTERS
      checkSpan arm "write_addr" "write_qty" writeAddr writeQty
      let writeQty := writeQty.toNat
      let (byteCount, data) ← readU8 data
      let byteCount := byteCount.toNat
      checkByteCount arm "write_qty*2" byteCount (writeQty * 2)
      checkRemaining data (writeQty * 2) "truncated R/W register data"
      return .readWriteMultipleRegisters readAddr readQty writeAddr (takeWords writeQty data).1
  | 8 => do
      let (sf, data) ← readU16 data
      let (d, _) ← readU16 data
      return .diagnostic sf d
  | _ => throw ⟨.invalidData, s!"unknown function code: 0x{hexDigits 2 fc.toNat}"⟩

/-- `TryFrom<Bytes> for Request`. -/
def Request.tryFrom : Bytes → Except IoError Request
  | [] => .error ⟨.invalidData, "empty PDU"⟩
  | fc :: data => decodeRequest fc data

/-- Decoding the fields of a response with the given function code. -/
def decodeResponse (fc : UInt8) (data : Bytes) : Except IoError Response :=
  let readU16 := readU16 "truncated response PDU"
  let readU8 := readU8 "truncated response PDU"
  match fc with
  | 1 | 2 => do
      let (byteCount, data) ← readU8 data
      let byteCount := byteCount.toNat
      checkRemaining data byteCount "truncated coil response"
      let bits := unpackBits (data.take byteCount)
      return if fc = 1 then .readCoils bits else .readDiscreteInputs bits
  | 3 | 4 => do
      let (byteCount, data) ← readU8 data
      let byteCount := byteCount.toNat
      if byteCount % 2 ≠ 0 then
        throw ⟨.invalidData, s!"register response: byte_count {byteCount} is not even"⟩
      checkRemaining data byteCount "truncated register response"
      let regs := (takeWords (byteCount / 2) data).1
      return if fc = 3 then .readHoldingRegisters regs else .readInputRegisters regs
  | 5 => do
      let (addr, data) ← readU16 data
      let (raw, _) ← readU16 data
      return .writeSingleCoil addr (raw == 0xFF00)
  | 6 => do
      let (addr, data) ← readU16 data
      let (val, _) ← readU16 data
      return .writeSingleRegister addr val
  | 15 => do
      let (addr, data) ← readU16 data
      let (qty, _) ← readU16 data
      return .writeMultipleCoils addr qty
  | 16 => do
      let (addr, data) ← readU16 data
      let (qty, _) ← readU16 data
      return .writeMultipleRegisters addr qty
  | 22 => do
      let (addr, data) ← readU16 data
      let (andMask, data) ← readU16 data
      let (orMask, _) ← readU16 data
      return .maskWriteRegister addr andMask orMask
  | 23 => do
      let (byteCount, data) ← readU8 data
      let byteCount := byteCount.toNat
      if byteCount % 2 ≠ 0 then
        throw ⟨.invalidData,
          s!"ReadWriteMultipleRegisters response: byte_count {byteCount} is not even"⟩
      checkRemaining data byteCount "truncated R/W response"
      return .readWriteMultipleRegisters (takeWords (byteCount / 2) data).1
  | 8 => do
      let (sf, data) ← readU16 data
      let (d, _) ← readU16 data
      return .diagnostic sf d
  | _ => throw ⟨.invalidData, s!"unknown response function code: {fc}"⟩

/-- `TryFrom<Bytes> for Response`: bit 7 of the function code marks an exception. -/
def Response.tryFrom : Bytes → Except IoError Response
  | [] => .error ⟨.invalidData, "empty PDU"⟩
  | fc :: data =>
      if fc &&& 0x80 ≠ 0 then
        match data with
        | [] => .error ⟨.invalidData, "truncated exception PDU"⟩
        | code :: _ => .ok (.exception (fc &&& 0x7F) (.ofU8 code))
      else decodeResponse fc data

end OmsModbus
