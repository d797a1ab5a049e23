/-
**The in-memory store of a server.**

Registers are kept in vectors of words and coils in vectors of bytes, all of which grow when
something is written behind their end.  The arms of the service that write several values at once
repeat the body of a single write in a loop of their own, under one lock; such a body is one
definition here, which the single writes and the loops both use.

Main definitions:

* `OmsModbus.SlaveStore` — the four tables;
* `OmsModbus.readBits`, `OmsModbus.readRegisters` — reading a range of a table;
* `OmsModbus.writeBitAt`, `OmsModbus.writeRegisterAt` — writing one value;
* `OmsModbus.SlaveStore.call` — the service of the store.

Main results:

* `OmsModbus.readBits_eq`, `OmsModbus.readRegisters_eq` — a range is read value by value;
* `OmsModbus.bitLookup_writeBits`, `OmsModbus.lookup_writeRegisters` — the write loops put their
  values over the table.
-/

import OmsModbus.GrowVec
import OmsModbus.Server

set_option relaxedAutoImplicit false
set_option autoImplicit false

namespace OmsModbus

open BitPack GrowVec

/-! ### The tables -/

/-- Size of a new register vector. -/
def DEFAULT_REG_COUNT : ℕ := 1024

/-- In-memory register store. -/
structure SlaveStore where
  coils : List UInt8
  discreteInputs : List UInt8
  holdingRegisters : List UInt16
  inputRegisters : List UInt16
  deriving DecidableEq

/-- An empty store. -/
def SlaveStore.new : SlaveStore where
  coils := List.replicate (DEFAULT_REG_COUNT / 8) 0
  discreteInputs := List.replicate (DEFAULT_REG_COUNT / 8) 0
  holdingRegisters := List.replicate DEFAULT_REG_COUNT 0
  inputRegisters := List.replicate DEFAULT_REG_COUNT 0

/-- A store with holding registers from pairs of an address and a value. -/
def SlaveStore.withHoldingRegisters (regs : List (Address × UInt16)) : SlaveStore :=
  let store := SlaveStore.new
  let maxAddr := (regs.map fun p => p.1.toNat).max?.getD 0
  let hr := store.holdingRegisters
  let hr := if hr.length ≤ maxAddr then resize hr (maxAddr + 1) 0 else hr
  { store with holdingRegisters := regs.foldl (fun hr p => hr.set p.1.toNat p.2) hr }

/-! ### One table -/

/-- One bit of a vector of bytes. -/
def readBitAt (bytes : List UInt8) (a : ℕ) : Bool :=
  match bytes[a / 8]? with
  | some b => (b >>> UInt8.ofNat (a % 8)) &&& 1 != 0
  | none => false

/-- The body of a bit write. -/
def writeBitAt (bytes : List UInt8) (a : ℕ) (value : Bool) : List UInt8 :=
  let byteIdx := a / 8
  let bitIdx := a % 8
  let bytes := grow 0 bytes byteIdx
  bytes.modify byteIdx fun b => setBitAt b bitIdx value

/-- Consecutive bits. -/
def readBits (bytes : List UInt8) (addr : Address) (count : Quantity) : List Bool :=
  (List.range count.toNat).map fun i => readBitAt bytes (addr.toNat + i)

/-- One register, 0 behind the end. -/
def readRegister (regs : List UInt16) (addr : Address) : UInt16 := regs[addr.toNat]?.getD 0

/-- Consecutive registers: the part that is in the vector, in front of zeros. -/
def readRegisters (regs : List UInt16) (addr : Address) (count : Quantity) : List UInt16 :=
  let start := addr.toNat
  let count := count.toNat
  if start ≥ regs.length then List.replicate count 0
  else
    let stop := min (start + count) regs.length
    (regs.take stop).drop start ++ (List.replicate count 0).drop (stop - start)

/-- The body of a register write. -/
def writeRegisterAt (regs : List UInt16) (a : ℕ) (value : UInt16) : List UInt16 :=
  (grow 0 regs a).set a value

/-- The loop over several coils. -/
def writeBits (bytes : List UInt8) (addr : Address) (values : List Bool) : List UInt8 :=
  values.zipIdx.foldl (fun bytes p => writeBitAt bytes (addr.toNat + p.2) p.1) bytes

/-- The loop over several registers. -/
def writeRegisters (regs : List UInt16) (addr : Address) (values : List UInt16) : List UInt16 :=
  values.zipIdx.foldl (fun regs p => writeRegisterAt regs (addr.toNat + p.2) p.1) regs

/-! ### The store -/

namespace SlaveStore

variable (s : SlaveStore)

def readCoil (addr : Address) : Bool := readBitAt s.coils addr.toNat

def writeCoil (addr : Address) (value : Bool) : SlaveStore :=
  { s with coils := writeBitAt s.coils addr.toNat value }

def readCoilsRange (addr : Address) (count : Quantity) : List Bool := readBits s.coils addr count

def readDiscreteInput (addr : Address) : Bool := readBitAt s.discreteInputs addr.toNat

def writeDiscreteInput (addr : Address) (value : Bool) : SlaveStore :=
  { s with discreteInputs := writeBitAt s.discreteInputs addr.toNat value }

def readDiscreteInputsRange (addr : Address) (count : Quantity) : List Bool :=
  readBits s.discreteInputs addr count

def readHoldingRegister (addr : Address) : UInt16 := readRegister s.holdingRegisters addr

def readHoldingRange (addr : Address) (count : Quantity) : List UInt16 :=
  readRegisters s.holdingRegisters addr count

def writeHoldingRegister (addr : Address) (value : UInt16) : SlaveStore :=
  { s with holdingRegisters := writeRegisterAt s.holdingRegisters addr.toNat value }

def readInputRegister (addr : Address) : UInt16 := readRegister s.inputRegisters addr

def readInputRange (addr : Address) (count : Quantity) : List UInt16 :=
  readRegisters s.inputRegisters addr count

def writeInputRegister (addr : Address) (value : UInt16) : SlaveStore :=
  { s with inputRegisters := writeRegisterAt s.inputRegisters addr.toNat value }

/-- The service of the store. -/
def call (request : Request) : Except Exception Response × SlaveStore :=
  match request with
  | .readCoils addr cnt => (.ok (.readCoils (s.readCoilsRange addr cnt)), s)
  | .readDiscreteInputs addr cnt =>
      (.ok (.readDiscreteInputs (s.readDiscreteInputsRange addr cnt)), s)
  | .readHoldingRegisters addr cnt => (.ok (.readHoldingRegisters (s.readHoldingRange addr cnt)), s)
  | .readInputRegisters addr cnt => (.ok (.readInputRegisters (s.readInputRange addr cnt)), s)
  | .writeSingleCoil addr value => (.ok (.writeSingleCoil addr value), s.writeCoil addr value)
  | .writeSingleRegister addr value =>
      (.ok (.writeSingleRegister addr value), s.writeHoldingRegister addr value)
  | .writeMultipleCoils addr values =>
      (.ok (.writeMultipleCoils addr (UInt16.ofNat values.length)),
        { s with coils := writeBits s.coils addr values })
  | .writeMultipleRegisters addr values =>
      (.ok (.writeMultipleRegisters addr (UInt16.ofNat values.length)),
        { s with holdingRegisters := writeRegisters s.holdingRegisters addr values })
  | .maskWriteRegister addr andMask orMask =>
      let a := addr.toNat
      let hr := grow 0 s.holdingRegisters a
      let current := hr[a]?.getD 0
      (.ok (.maskWriteRegister addr andMask orMask),
        { s with holdingRegisters := hr.set a ((current &&& andMask) ||| (orMask &&& ~~~andMask)) })
  | .readWriteMultipleRegisters readAddr readQty writeAddr values =>
      let regs := s.readHoldingRange readAddr readQty
      (.ok (.readWriteMultipleRegisters regs),
        { s with holdingRegisters := writeRegisters s.holdingRegisters writeAddr values })
  | .diagnostic sf data =>
      if sf = 0x0000 then (.ok (.diagnostic sf data), s)
      else if sf = 0x000A then (.ok (.diagnostic sf 0x0000), s)
      else if 0x000B ≤ sf ∧ sf ≤ 0x000E then (.ok (.diagnostic sf 0x0000), s)
      else (.error .illegalDataValue, s)
  | .disconnect => (.error .illegalFunction, s)

end SlaveStore

/-- A server that hands every request to the store, whatever the slave id. -/
def storeService : Service SlaveStore where
  call _ request s := s.call request

/-! ### Tables as maps -/

theorem readBitAt_eq (bytes : List UInt8) (a : ℕ) : readBitAt bytes a = bitLookup bytes a := by
  have hbit := Nat.mod_lt a (show 8 > 0 by omega)
  unfold readBitAt bitLookup lookup
  cases bytes[a / 8]? with
  | none => exact (bitAt_zero _).symm
  | some b => exact shiftRight_and_one b hbit

theorem bitLookup_writeBitAt (bytes : List UInt8) (a : ℕ) (value : Bool) :
    bitLookup (writeBitAt bytes a value) = Function.update (bitLookup bytes) a value :=
  bitLookup_write bytes a value

/-- **A range of bits is read bit by bit.** -/
theorem readBits_eq (bytes : List UInt8) (addr : Address) (count : Quantity) :
    readBits bytes addr count
      = (List.range count.toNat).map fun i => bitLookup bytes (addr.toNat + i) := by
  simp only [readBits, readBitAt_eq]

/-- **A range of registers is read register by register.** -/
theorem readRegisters_eq (regs : List UInt16) (addr : Address) (count : Quantity) :
    readRegisters regs addr count
      = (List.range count.toNat).map fun i => lookup 0 regs (addr.toNat + i) :=
  window_eq 0 regs addr.toNat count.toNat

theorem lookup_writeRegisterAt (regs : List UInt16) (a : ℕ) (value : UInt16) :
    lookup 0 (writeRegisterAt regs a value) = Function.update (lookup 0 regs) a value :=
  lookup_write 0 regs a value

/-- The coil loop puts its values over the table. -/
theorem bitLookup_writeBits (bytes : List UInt8) (addr : Address) (values : List Bool) :
    bitLookup (writeBits bytes addr values) = overlay (bitLookup bytes) addr.toNat values :=
  look_writeLoop bitLookup_writeBitAt values bytes addr.toNat

/-- The register loop puts its values over the table. -/
theorem lookup_writeRegisters (regs : List UInt16) (addr : Address) (values : List UInt16) :
    lookup 0 (writeRegisters regs addr values) = overlay (lookup 0 regs) addr.toNat values :=
  look_writeLoop lookup_writeRegisterAt values regs addr.toNat

/-- A new register vector holds zeros. -/
theorem lookup_replicate (n : ℕ) : lookup (0 : UInt16) (List.replicate n 0) = fun _ => 0 := by
  funext a
  rw [lookup, List.getElem?_replicate]
  split <;> rfl

theorem bitLookup_replicate (n : ℕ) : bitLookup (List.replicate n 0) = fun _ => false := by
  funext a
  rw [bitLookup, lookup, List.getElem?_replicate]
  split <;> exact bitAt_zero _

/-- Values that are set in turn, at addresses in the vector. -/
theorem lookup_foldl_set (regs : List (Address × UInt16)) (hr : List UInt16)
    (h : ∀ p ∈ regs, p.1.toNat < hr.length) :
    lookup 0 (regs.foldl (fun hr p => hr.set p.1.toNat p.2) hr)
      = regs.foldl (fun m p => Function.update m p.1.toNat p.2) (lookup 0 hr) := by
  induction regs generalizing hr with
  | nil => rfl
  | cons p regs ih =>
      have hp : p.1.toNat < hr.length := h p (by simp)
      rw [List.foldl_cons, List.foldl_cons, ih, lookup_set hp]
      intro q hq
      rw [List.length_set]
      exact h q (by simp [hq])

/-- The vector a store is made with has room for every address. -/
theorem lookup_withHoldingRegisters (regs : List (Address × UInt16)) :
    lookup 0 (SlaveStore.withHoldingRegisters regs).holdingRegisters
      = regs.foldl (fun m p => Function.update m p.1.toNat p.2) fun _ => 0 := by
  rw [SlaveStore.withHoldingRegisters]
  simp only
  generalize hmax : (regs.map fun p => p.1.toNat).max?.getD 0 = maxAddr
  have hle : ∀ p ∈ regs, p.1.toNat ≤ maxAddr := by
    intro p hp
    rw [← hmax]
    exact List.le_max?_getD_of_mem (List.mem_map_of_mem (f := fun p => p.1.toNat) hp)
  rw [lookup_foldl_set]
  · split
    · next h => rw [lookup_resize (by omega), SlaveStore.new, lookup_replicate]
    · rw [SlaveStore.new, lookup_replicate]
  · intro p hp
    have := hle p hp
    split
    · rw [resize, List.length_append, List.length_take, List.length_replicate]
      omega
    · omega

end OmsModbus
