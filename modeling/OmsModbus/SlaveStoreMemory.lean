/-
**The store is a memory.**

What a store is for: four tables, each a total map from the addresses `0..=65535` — coils and
discrete inputs to bits, holding and input registers to words — that start out as false and 0.
Reads look values up, writes change the cells they name, and a service call is made of these.  The
store does what the memory does, over any sequence of operations, as long as no range goes over the
last address; how long its vectors are is never seen.

Main definitions:

* `OmsModbus.Table`, `OmsModbus.Memory` — the abstract tables;
* `OmsModbus.Table.readRange`, `OmsModbus.Table.writeRange` — ranges of a table;
* `OmsModbus.StoreOp` — the methods of the store, and its service;
* `OmsModbus.SlaveStore.memory` — the memory a store stands for.

Main results:

* `OmsModbus.Table.writeRange_of_lt`, `OmsModbus.Table.writeRange_of_not_mem` — a range write
  changes exactly the cells it names;
* `OmsModbus.exec_memory` — one operation on the store is one operation on the memory;
* `OmsModbus.run_memory` — **every sequence of operations on a store has the results it has on the
  memory**.
-/

import OmsModbus.SlaveStore

set_option relaxedAutoImplicit false
set_option autoImplicit false

namespace OmsModbus

open GrowVec

/-! ### Tables -/

/-- A total map from the addresses. -/
abbrev Table (α : Type) := Address → α

namespace Table

variable {α : Type}

/-- The values at `count` addresses from `addr` on. -/
def readRange (m : Table α) (addr : Address) (count : ℕ) : List α :=
  (List.range count).map fun i => m (addr + UInt16.ofNat i)

/-- The table with other values at the addresses from `addr` on. -/
def writeRange (m : Table α) (addr : Address) (values : List α) : Table α :=
  fun b => if addr ≤ b then values[(b - addr).toNat]?.getD (m b) else m b

theorem toNat_add {addr : Address} {i n : ℕ} (hi : i < n) (h : addr.toNat + n ≤ 65536) :
    (addr + UInt16.ofNat i).toNat = addr.toNat + i := by
  rw [UInt16.toNat_add, UInt16.toNat_ofNat']
  omega

/-- The cells a range write names get its values. -/
theorem writeRange_of_lt (m : Table α) {addr : Address} {values : List α} {i : ℕ}
    (hi : i < values.length) (h : addr.toNat + values.length ≤ 65536) :
    m.writeRange addr values (addr + UInt16.ofNat i) = values[i] := by
  have hadd := toNat_add hi h
  have hle : addr ≤ addr + UInt16.ofNat i := by
    rw [UInt16.le_iff_toNat_le, hadd]
    omega
  rw [writeRange, if_pos hle, UInt16.toNat_sub_of_le _ _ hle, hadd, Nat.add_sub_cancel_left,
    List.getElem?_eq_getElem hi, Option.getD_some]

/-- The other cells keep theirs. -/
theorem writeRange_of_not_mem (m : Table α) {addr b : Address} {values : List α}
    (h : ¬ (addr.toNat ≤ b.toNat ∧ b.toNat < addr.toNat + values.length)) :
    m.writeRange addr values b = m b := by
  unfold writeRange
  split
  · next hle =>
    have hsub := UInt16.toNat_sub_of_le _ _ hle
    rw [UInt16.le_iff_toNat_le] at hle
    rw [List.getElem?_eq_none (by omega), Option.getD_none]
  · rfl

/-- The table of a map that goes on behind the last address. -/
def ofMap (f : ℕ → α) : Table α := fun a => f a.toNat

theorem ofMap_update (f : ℕ → α) (a : Address) (x : α) :
    ofMap (Function.update f a.toNat x) = Function.update (ofMap f) a x := by
  funext b
  rw [ofMap, Function.update_apply, Function.update_apply]
  by_cases hb : b = a
  · rw [if_pos hb, if_pos (congrArg UInt16.toNat hb)]
  · rw [if_neg hb, if_neg (mt UInt16.toNat_inj.1 hb), ofMap]

theorem ofMap_overlay (f : ℕ → α) (addr : Address) (values : List α) :
    ofMap (overlay f addr.toNat values) = writeRange (ofMap f) addr values := by
  funext b
  unfold ofMap overlay writeRange
  by_cases hle : addr ≤ b
  · rw [if_pos hle, if_pos (UInt16.le_iff_toNat_le.1 hle), UInt16.toNat_sub_of_le _ _ hle]
  · rw [if_neg hle, if_neg (mt UInt16.le_iff_toNat_le.2 hle)]

theorem readRange_ofMap (f : ℕ → α) {addr : Address} {n : ℕ} (h : addr.toNat + n ≤ 65536) :
    (ofMap f).readRange addr n = (List.range n).map fun i => f (addr.toNat + i) := by
  apply List.map_congr_left
  intro i hi
  rw [ofMap, toNat_add (List.mem_range.1 hi) h]

theorem ofMap_foldl_update (f : ℕ → α) (pairs : List (Address × α)) :
    ofMap (pairs.foldl (fun m p => Function.update m p.1.toNat p.2) f)
      = pairs.foldl (fun m p => Function.update m p.1 p.2) (ofMap f) := by
  induction pairs generalizing f with
  | nil => rfl
  | cons p pairs ih => rw [List.foldl_cons, List.foldl_cons, ih, ofMap_update]

end Table

/-! ### The memory -/

/-- Four tables. -/
structure Memory where
  coils : Table Bool
  discreteInputs : Table Bool
  holdingRegisters : Table UInt16
  inputRegisters : Table UInt16

/-- The empty memory. -/
def Memory.new : Memory := ⟨fun _ => false, fun _ => false, fun _ => 0, fun _ => 0⟩

/-- The memory with the given holding registers; later pairs win. -/
def Memory.withHoldingRegisters (regs : List (Address × UInt16)) : Memory :=
  { Memory.new with
    holdingRegisters := regs.foldl (fun m p => Function.update m p.1 p.2) fun _ => 0 }

/-- What a request does to a memory. -/
def Memory.call (m : Memory) : Request → Except Exception Response × Memory
  | .readCoils addr cnt => (.ok (.readCoils (m.coils.readRange addr cnt.toNat)), m)
  | .readDiscreteInputs addr cnt =>
      (.ok (.readDiscreteInputs (m.discreteInputs.readRange addr cnt.toNat)), m)
  | .readHoldingRegisters addr cnt =>
      (.ok (.readHoldingRegisters (m.holdingRegisters.readRange addr cnt.toNat)), m)
  | .readInputRegisters addr cnt =>
      (.ok (.readInputRegisters (m.inputRegisters.readRange addr cnt.toNat)), m)
  | .writeSingleCoil addr value =>
      (.ok (.writeSingleCoil addr value), { m with coils := Function.update m.coils addr value })
  | .writeSingleRegister addr value =>
      (.ok (.writeSingleRegister addr value),
        { m with holdingRegisters := Function.update m.holdingRegisters addr value })
  | .writeMultipleCoils addr values =>
      (.ok (.writeMultipleCoils addr (UInt16.ofNat values.length)),
        { m with coils := m.coils.writeRange addr values })
  | .writeMultipleRegisters addr values =>
      (.ok (.writeMultipleRegisters addr (UInt16.ofNat values.length)),
        { m with holdingRegisters := m.holdingRegisters.writeRange addr values })
  | .maskWriteRegister addr andMask orMask =>
      let cur := m.holdingRegisters addr
      (.ok (.maskWriteRegister addr andMask orMask),
        { m with
          holdingRegisters := Function.update m.holdingRegisters addr
            ((cur &&& andMask) ||| (orMask &&& ~~~andMask)) })
  | .readWriteMultipleRegisters readAddr readQty writeAddr values =>
      (.ok (.readWriteMultipleRegisters (m.holdingRegisters.readRange readAddr readQty.toNat)),
        { m with holdingRegisters := m.holdingRegisters.writeRange writeAddr values })
  | .diagnostic sf data =>
      if sf = 0 then (.ok (.diagnostic sf data), m)
      else if 0x000A ≤ sf ∧ sf ≤ 0x000E then (.ok (.diagnostic sf 0), m)
      else (.error .illegalDataValue, m)
  | .disconnect => (.error .illegalFunction, m)

/-! ### Operations -/

/-- The public methods of the store, and its service. -/
inductive StoreOp
  | readCoil (addr : Address)
  | writeCoil (addr : Address) (value : Bool)
  | readCoilsRange (addr : Address) (count : Quantity)
  | readDiscreteInput (addr : Address)
  | writeDiscreteInput (addr : Address) (value : Bool)
  | readDiscreteInputsRange (addr : Address) (count : Quantity)
  | readHoldingRegister (addr : Address)
  | readHoldingRange (addr : Address) (count : Quantity)
  | writeHoldingRegister (addr : Address) (value : UInt16)
  | readInputRegister (addr : Address)
  | readInputRange (addr : Address) (count : Quantity)
  | writeInputRegister (addr : Address) (value : UInt16)
  | call (request : Request)
  deriving DecidableEq, Repr

/-- What an operation gives back. -/
inductive StoreResult
  | done
  | bit (value : Bool)
  | bits (values : List Bool)
  | register (value : UInt16)
  | registers (values : List UInt16)
  | response (rsp : Except Exception Response)

/-- The ranges of a request stay in the address space. -/
def Request.Bounded : Request → Prop
  | .readCoils addr qty | .readDiscreteInputs addr qty | .readHoldingRegisters addr qty
  | .readInputRegisters addr qty => addr.toNat + qty.toNat ≤ 65536
  | .writeMultipleCoils addr values => addr.toNat + values.length ≤ 65536
  | .writeMultipleRegisters addr values => addr.toNat + values.length ≤ 65536
  | .readWriteMultipleRegisters readAddr readQty writeAddr values =>
      readAddr.toNat + readQty.toNat ≤ 65536 ∧ writeAddr.toNat + values.length ≤ 65536
  | _ => True

/-- The ranges of an operation stay in the address space. -/
def StoreOp.Bounded : StoreOp → Prop
  | .readCoilsRange addr count | .readDiscreteInputsRange addr count | .readHoldingRange addr count
  | .readInputRange addr count => addr.toNat + count.toNat ≤ 65536
  | .call request => request.Bounded
  | _ => True

instance : DecidablePred Request.Bounded
  | .readCoils _ _ | .readDiscreteInputs _ _ | .readHoldingRegisters _ _
  | .readInputRegisters _ _ | .writeMultipleCoils _ _ | .writeMultipleRegisters _ _ =>
      inferInstanceAs (Decidable (_ ≤ 65536))
  | .readWriteMultipleRegisters _ _ _ _ => inferInstanceAs (Decidable (_ ∧ _))
  | .writeSingleCoil _ _ | .writeSingleRegister _ _ | .maskWriteRegister _ _ _ | .diagnostic _ _
  | .disconnect => inferInstanceAs (Decidable True)

instance : DecidablePred StoreOp.Bounded
  | .readCoilsRange _ _ | .readDiscreteInputsRange _ _ | .readHoldingRange _ _
  | .readInputRange _ _ => inferInstanceAs (Decidable (_ ≤ 65536))
  | .call request => inferInstanceAs (Decidable request.Bounded)
  | .readCoil _ | .writeCoil _ _ | .readDiscreteInput _ | .writeDiscreteInput _ _
  | .readHoldingRegister _ | .writeHoldingRegister _ _ | .readInputRegister _
  | .writeInputRegister _ _ => inferInstanceAs (Decidable True)

/-- An operation on the store. -/
def SlaveStore.exec (s : SlaveStore) : StoreOp → StoreResult × SlaveStore
  | .readCoil addr => (.bit (s.readCoil addr), s)
  | .writeCoil addr value => (.done, s.writeCoil addr value)
  | .readCoilsRange addr count => (.bits (s.readCoilsRange addr count), s)
  | .readDiscreteInput addr => (.bit (s.readDiscreteInput addr), s)
  | .writeDiscreteInput addr value => (.done, s.writeDiscreteInput addr value)
  | .readDiscreteInputsRange addr count => (.bits (s.readDiscreteInputsRange addr count), s)
  | .readHoldingRegister addr => (.register (s.readHoldingRegister addr), s)
  | .readHoldingRange addr count => (.registers (s.readHoldingRange addr count), s)
  | .writeHoldingRegister addr value => (.done, s.writeHoldingRegister addr value)
  | .readInputRegister addr => (.register (s.readInputRegister addr), s)
  | .readInputRange addr count => (.registers (s.readInputRange addr count), s)
  | .writeInputRegister addr value => (.done, s.writeInputRegister addr value)
  | .call request => ((s.call request).map .response id)

/-- The same operation on the memory. -/
def Memory.exec (m : Memory) : StoreOp → StoreResult × Memory
  | .readCoil addr => (.bit (m.coils addr), m)
  | .writeCoil addr value => (.done, { m with coils := Function.update m.coils addr value })
  | .readCoilsRange addr count => (.bits (m.coils.readRange addr count.toNat), m)
  | .readDiscreteInput addr => (.bit (m.discreteInputs addr), m)
  | .writeDiscreteInput addr value =>
      (.done, { m with discreteInputs := Function.update m.discreteInputs addr value })
  | .readDiscreteInputsRange addr count => (.bits (m.discreteInputs.readRange addr count.toNat), m)
  | .readHoldingRegister addr => (.register (m.holdingRegisters addr), m)
  | .readHoldingRange addr count => (.registers (m.holdingRegisters.readRange addr count.toNat), m)
  | .writeHoldingRegister addr value =>
      (.done, { m with holdingRegisters := Function.update m.holdingRegisters addr value })
  | .readInputRegister addr => (.register (m.inputRegisters addr), m)
  | .readInputRange addr count => (.registers (m.inputRegisters.readRange addr count.toNat), m)
  | .writeInputRegister addr value =>
      (.done, { m with inputRegisters := Function.update m.inputRegisters addr value })
  | .call request => ((m.call request).map .response id)

/-- A sequence of operations on the store. -/
def SlaveStore.run : SlaveStore → List StoreOp → List StoreResult × SlaveStore
  | s, [] => ([], s)
  | s, op :: ops =>
      let (r, s) := s.exec op
      let (rs, s) := SlaveStore.run s ops
      (r :: rs, s)

/-- The same sequence on the memory. -/
def Memory.run : Memory → List StoreOp → List StoreResult × Memory
  | m, [] => ([], m)
  | m, op :: ops =>
      let (r, m) := m.exec op
      let (rs, m) := Memory.run m ops
      (r :: rs, m)

/-! ### The memory of a store -/

/-- The memory a store stands for. -/
def SlaveStore.memory (s : SlaveStore) : Memory where
  coils := .ofMap (bitLookup s.coils)
  discreteInputs := .ofMap (bitLookup s.discreteInputs)
  holdingRegisters := .ofMap (lookup 0 s.holdingRegisters)
  inputRegisters := .ofMap (lookup 0 s.inputRegisters)

theorem SlaveStore.new_memory : SlaveStore.new.memory = Memory.new := by
  unfold SlaveStore.memory Memory.new
  congr 1
  · exact congrArg Table.ofMap (bitLookup_replicate _)
  · exact congrArg Table.ofMap (bitLookup_replicate _)
  · exact congrArg Table.ofMap (lookup_replicate _)
  · exact congrArg Table.ofMap (lookup_replicate _)

theorem SlaveStore.withHoldingRegisters_memory (regs : List (Address × UInt16)) :
    (SlaveStore.withHoldingRegisters regs).memory = Memory.withHoldingRegisters regs := by
  have hnew := SlaveStore.new_memory
  rw [Memory.withHoldingRegisters, ← hnew, SlaveStore.memory, lookup_withHoldingRegisters,
    Table.ofMap_foldl_update]
  rfl

theorem readBits_memory (bytes : List UInt8) {addr : Address} {count : Quantity}
    (h : addr.toNat + count.toNat ≤ 65536) :
    readBits bytes addr count = Table.readRange (.ofMap (bitLookup bytes)) addr count.toNat := by
  rw [readBits_eq, Table.readRange_ofMap _ h]

theorem readRegisters_memory (regs : List UInt16) {addr : Address} {count : Quantity}
    (h : addr.toNat + count.toNat ≤ 65536) :
    readRegisters regs addr count = Table.readRange (.ofMap (lookup 0 regs)) addr count.toNat := by
  rw [readRegisters_eq, Table.readRange_ofMap _ h]

theorem writeBitAt_memory (bytes : List UInt8) (addr : Address) (value : Bool) :
    Table.ofMap (bitLookup (writeBitAt bytes addr.toNat value))
      = Function.update (Table.ofMap (bitLookup bytes)) addr value := by
  rw [bitLookup_writeBitAt, Table.ofMap_update]

theorem writeRegisterAt_memory (regs : List UInt16) (addr : Address) (value : UInt16) :
    Table.ofMap (lookup 0 (writeRegisterAt regs addr.toNat value))
      = Function.update (Table.ofMap (lookup 0 regs)) addr value := by
  rw [lookup_writeRegisterAt, Table.ofMap_update]

theorem writeBits_memory (bytes : List UInt8) (addr : Address) (values : List Bool) :
    Table.ofMap (bitLookup (writeBits bytes addr values))
      = Table.writeRange (.ofMap (bitLookup bytes)) addr values := by
  rw [bitLookup_writeBits, Table.ofMap_overlay]

theorem writeRegisters_memory (regs : List UInt16) (addr : Address) (values : List UInt16) :
    Table.ofMap (lookup 0 (writeRegisters regs addr values))
      = Table.writeRange (.ofMap (lookup 0 regs)) addr values := by
  rw [lookup_writeRegisters, Table.ofMap_overlay]

/-- One service call on the store is one on the memory. -/
theorem call_memory (s : SlaveStore) {request : Request} (h : request.Bounded) :
    (s.call request).1 = (s.memory.call request).1 ∧
      (s.call request).2.memory = (s.memory.call request).2 := by
  cases request with
  | readCoils addr qty =>
      refine ⟨?_, rfl⟩
      exact congrArg (Except.ok ∘ Response.readCoils) (readBits_memory s.coils h)
  | readDiscreteInputs addr qty =>
      refine ⟨?_, rfl⟩
      exact congrArg (Except.ok ∘ Response.readDiscreteInputs) (readBits_memory s.discreteInputs h)
  | readHoldingRegisters addr qty =>
      refine ⟨?_, rfl⟩
      exact congrArg (Except.ok ∘ Response.readHoldingRegisters)
        (readRegisters_memory s.holdingRegisters h)
  | readInputRegisters addr qty =>
      refine ⟨?_, rfl⟩
      exact congrArg (Except.ok ∘ Response.readInputRegisters)
        (readRegisters_memory s.inputRegisters h)
  | writeSingleCoil addr value =>
      refine ⟨rfl, ?_⟩
      exact congrArg (fun t => { s.memory with coils := t }) (writeBitAt_memory s.coils addr value)
  | writeSingleRegister addr value =>
      refine ⟨rfl, ?_⟩
      exact congrArg (fun t => { s.memory with holdingRegisters := t })
        (writeRegisterAt_memory s.holdingRegisters addr value)
  | writeMultipleCoils addr values =>
      refine ⟨rfl, ?_⟩
      exact congrArg (fun t => { s.memory with coils := t }) (writeBits_memory s.coils addr values)
  | writeMultipleRegisters addr values =>
      refine ⟨rfl, ?_⟩
      exact congrArg (fun t => { s.memory with holdingRegisters := t })
        (writeRegisters_memory s.holdingRegisters addr values)
  | readWriteMultipleRegisters readAddr readQty writeAddr values =>
      refine ⟨?_, ?_⟩
      · exact congrArg (Except.ok ∘ Response.readWriteMultipleRegisters)
          (readRegisters_memory s.holdingRegisters h.1)
      · exact congrArg (fun t => { s.memory with holdingRegisters := t })
          (writeRegisters_memory s.holdingRegisters writeAddr values)
  | maskWriteRegister addr andMask orMask =>
      refine ⟨rfl, ?_⟩
      -- the current value is read from the vector after it was grown
      have hcur : lookup 0 (grow 0 s.holdingRegisters addr.toNat) addr.toNat
          = s.memory.holdingRegisters addr := congrFun (lookup_grow _ _ _) _
      have hwrite := writeRegisterAt_memory s.holdingRegisters addr
        ((lookup 0 (grow 0 s.holdingRegisters addr.toNat) addr.toNat &&& andMask) |||
          (orMask &&& ~~~andMask))
      refine (congrArg (fun t => { s.memory with holdingRegisters := t }) hwrite).trans ?_
      rw [hcur]
      rfl
  | diagnostic sf data =>
      rw [SlaveStore.call, Memory.call]
      by_cases h₀ : sf = 0
      · rw [if_pos h₀, if_pos h₀]
        exact ⟨rfl, rfl⟩
      · rw [if_neg h₀, if_neg h₀]
        by_cases hcount : 0x000A ≤ sf ∧ sf ≤ 0x000E
        · rw [if_pos hcount]
          by_cases hclear : sf = 0x000A
          · rw [if_pos hclear]
            exact ⟨rfl, rfl⟩
          · rw [if_neg hclear, if_pos]
            · exact ⟨rfl, rfl⟩
            · simp only [UInt16.le_iff_toNat_le, ← UInt16.toNat_inj] at hcount hclear ⊢
              simp at hcount hclear ⊢
              omega
        · rw [if_neg hcount, if_neg, if_neg]
          · exact ⟨rfl, rfl⟩
          · simp only [UInt16.le_iff_toNat_le] at hcount ⊢
            simp at hcount ⊢
            omega
          · intro hclear
            subst hclear
            exact hcount (by decide)
  | disconnect => exact ⟨rfl, rfl⟩

/-- **One operation on the store is one operation on the memory.** -/
theorem exec_memory (s : SlaveStore) {op : StoreOp} (h : op.Bounded) :
    (s.exec op).1 = (s.memory.exec op).1 ∧ (s.exec op).2.memory = (s.memory.exec op).2 := by
  cases op with
  | readCoil addr => exact ⟨congrArg StoreResult.bit (readBitAt_eq s.coils addr.toNat), rfl⟩
  | writeCoil addr value =>
      refine ⟨rfl, ?_⟩
      exact congrArg (fun t => { s.memory with coils := t }) (writeBitAt_memory s.coils addr value)
  | readCoilsRange addr count =>
      exact ⟨congrArg StoreResult.bits (readBits_memory s.coils h), rfl⟩
  | readDiscreteInput addr =>
      exact ⟨congrArg StoreResult.bit (readBitAt_eq s.discreteInputs addr.toNat), rfl⟩
  | writeDiscreteInput addr value =>
      refine ⟨rfl, ?_⟩
      exact congrArg (fun t => { s.memory with discreteInputs := t })
        (writeBitAt_memory s.discreteInputs addr value)
  | readDiscreteInputsRange addr count =>
      exact ⟨congrArg StoreResult.bits (readBits_memory s.discreteInputs h), rfl⟩
  | readHoldingRegister addr => exact ⟨rfl, rfl⟩
  | readHoldingRange addr count =>
      exact ⟨congrArg StoreResult.registers (readRegisters_memory s.holdingRegisters h), rfl⟩
  | writeHoldingRegister addr value =>
      refine ⟨rfl, ?_⟩
      exact congrArg (fun t => { s.memory with holdingRegisters := t })
        (writeRegisterAt_memory s.holdingRegisters addr value)
  | readInputRegister addr => exact ⟨rfl, rfl⟩
  | readInputRange addr count =>
      exact ⟨congrArg StoreResult.registers (readRegisters_memory s.inputRegisters h), rfl⟩
  | writeInputRegister addr value =>
      refine ⟨rfl, ?_⟩
      exact congrArg (fun t => { s.memory with inputRegisters := t })
        (writeRegisterAt_memory s.inputRegisters addr value)
  | call request =>
      obtain ⟨hrsp, hstore⟩ := call_memory s h
      exact ⟨congrArg StoreResult.response hrsp, hstore⟩

/-- **Every sequence of operations on a store has the results it has on the memory.** -/
theorem run_memory (s : SlaveStore) {ops : List StoreOp} (h : ∀ op ∈ ops, op.Bounded) :
    (s.run ops).1 = (s.memory.run ops).1 ∧ (s.run ops).2.memory = (s.memory.run ops).2 := by
  induction ops generalizing s with
  | nil => exact ⟨rfl, rfl⟩
  | cons op ops ih =>
      obtain ⟨hres, hmem⟩ := exec_memory s (h op (by simp))
      obtain ⟨ihres, ihmem⟩ := ih (s.exec op).2 fun op' hop' => h op' (by simp [hop'])
      rw [hmem] at ihres ihmem
      refine ⟨?_, ihmem⟩
      rw [SlaveStore.run, Memory.run]
      exact congrArg₂ List.cons hres ihres

/-! ### Reachable stores -/

/-- How a store can be made. -/
inductive StoreOrigin
  | new
  | withHoldingRegisters (regs : List (Address × UInt16))

/-- The store that is made. -/
def StoreOrigin.store : StoreOrigin → SlaveStore
  | new => .new
  | withHoldingRegisters regs => .withHoldingRegisters regs

/-- The memory it starts as. -/
def StoreOrigin.memory : StoreOrigin → Memory
  | new => .new
  | withHoldingRegisters regs => .withHoldingRegisters regs

/-- **A store that is reached by any operations goes on like the memory that is reached by
them.** -/
theorem slaveStore_refines_memory (origin : StoreOrigin) (before ops : List StoreOp)
    (hbefore : ∀ op ∈ before, op.Bounded) (hops : ∀ op ∈ ops, op.Bounded) :
    ((origin.store.run before).2.run ops).1 = ((origin.memory.run before).2.run ops).1 ∧
      ((origin.store.run before).2.run ops).2.memory
        = ((origin.memory.run before).2.run ops).2 := by
  have horigin : origin.store.memory = origin.memory := by
    cases origin with
    | new => exact SlaveStore.new_memory
    | withHoldingRegisters regs => exact SlaveStore.withHoldingRegisters_memory regs
  have hreach := (run_memory origin.store hbefore).2
  rw [horigin] at hreach
  rw [← hreach]
  exact run_memory _ hops

/-- A store with one address written twice: a range at the end of the address space, and a write
that is read back in the same request. -/
theorem slaveStore_refines_memory_overlap :
    let origin := StoreOrigin.withHoldingRegisters [(65535, 1), (0, 2), (65535, 3)]
    let before := [StoreOp.writeCoil 9 true]
    let ops := [StoreOp.readHoldingRange 65534 2, .call (.writeMultipleCoils 7 [true, false, true]),
      .call (.readWriteMultipleRegisters 0 2 1 [7, 8])]
    ((origin.store.run before).2.run ops).1 = ((origin.memory.run before).2.run ops).1 ∧
      ((origin.store.run before).2.run ops).2.memory
        = ((origin.memory.run before).2.run ops).2 :=
  slaveStore_refines_memory (.withHoldingRegisters [(65535, 1), (0, 2), (65535, 3)])
    [.writeCoil 9 true]
    [.readHoldingRange 65534 2, .call (.writeMultipleCoils 7 [true, false, true]),
      .call (.readWriteMultipleRegisters 0 2 1 [7, 8])]
    (by decide) (by decide)

end OmsModbus
