/-
**Broadcasts.**

A request for slave 0 is for every slave: all of them act on it, and none of them answers.  The
servers here do not act on it.  They give no answer, and they leave the store alone before they
have looked at the request, so a broadcast has the effect it should have exactly when it has none:
when every cell it writes is in the tables already and holds what is written.

Main definitions:

* `OmsModbus.Request.HeldBy` — the store holds everything a request writes;
* `OmsModbus.ActsOn` — what a broadcast should do, in a server of any protocol.

Main results:

* `OmsModbus.SlaveStore.call_eq_self_iff` — a request leaves the store alone exactly when the store
  holds what it writes;
* `OmsModbus.serve_broadcast_store` — no protocol lets a broadcast through to the store;
* `OmsModbus.broadcast_actsOn_iff` — **when a broadcast does what it should do**.
-/

import OmsModbus.SlaveStore

set_option relaxedAutoImplicit false
set_option autoImplicit false

namespace OmsModbus

open BitPack GrowVec

/-! ### What a store holds -/

/-- Coil `a` is in its table and has a value. -/
def SlaveStore.HoldsCoil (s : SlaveStore) (a : ℕ) (value : Bool) : Prop :=
  a / 8 < s.coils.length ∧ readBitAt s.coils a = value

/-- Holding register `a` is in its table and has a value. -/
def SlaveStore.HoldsRegister (s : SlaveStore) (a : ℕ) (value : UInt16) : Prop :=
  s.holdingRegisters[a]? = some value

/-- Everything a request writes is in the store already. -/
def Request.HeldBy (s : SlaveStore) : Request → Prop
  | .writeSingleCoil addr value => s.HoldsCoil addr.toNat value
  | .writeSingleRegister addr value => s.HoldsRegister addr.toNat value
  | .writeMultipleCoils addr values =>
      ∀ i value, values[i]? = some value → s.HoldsCoil (addr.toNat + i) value
  | .writeMultipleRegisters addr values =>
      ∀ i value, values[i]? = some value → s.HoldsRegister (addr.toNat + i) value
  | .readWriteMultipleRegisters _ _ writeAddr values =>
      ∀ i value, values[i]? = some value → s.HoldsRegister (writeAddr.toNat + i) value
  | .maskWriteRegister addr andMask orMask =>
      ∃ value, s.HoldsRegister addr.toNat value ∧
        (value &&& andMask) ||| (orMask &&& ~~~andMask) = value
  | .readCoils _ _ | .readDiscreteInputs _ _ | .readHoldingRegisters _ _
  | .readInputRegisters _ _ | .diagnostic _ _ | .disconnect => True

/-! ### Writes that change nothing -/

/-- A single coil that is written to its own value. -/
theorem writeBitAt_eq_self_iff {bytes : List UInt8} {a : ℕ} {value : Bool} :
    writeBitAt bytes a value = bytes ↔ a / 8 < bytes.length ∧ readBitAt bytes a = value := by
  rw [readBitAt_eq]
  constructor
  · intro h
    have hlen := length_bitWrite bytes a value
    have hlook := congrFun (bitLookup_writeBitAt bytes a value) a
    rw [Function.update_self, h] at hlook
    change (writeBitAt bytes a value).length = _ at hlen
    rw [h] at hlen
    exact ⟨by omega, hlook⟩
  · intro h
    exact bitWrite_self h.1 h.2

/-- A single register that is written to its own value. -/
theorem writeRegisterAt_eq_self_iff {regs : List UInt16} {a : ℕ} {value : UInt16} :
    writeRegisterAt regs a value = regs ↔ regs[a]? = some value := by
  rw [getElem?_eq_some_iff_lookup (d := 0)]
  constructor
  · intro h
    have hlen := length_write 0 regs a value
    have hlook := congrFun (lookup_writeRegisterAt regs a value) a
    change (writeRegisterAt regs a value).length = _ at hlen
    rw [h] at hlen
    rw [Function.update_self, h] at hlook
    exact ⟨by omega, hlook⟩
  · intro h
    exact write_self h.1 h.2

/-- The coil loop changes nothing when every coil has its value. -/
theorem writeBits_eq_self_iff {s : SlaveStore} {addr : Address} {values : List Bool} :
    writeBits s.coils addr values = s.coils ↔
      ∀ i value, values[i]? = some value → s.HoldsCoil (addr.toNat + i) value := by
  have hiff := writeLoop_eq_self_iff List.length (fun a => a / 8)
    bitLookup_writeBitAt length_bitWrite (fun _ _ _ h hx => bitWrite_self h hx) values s.coils
    addr.toNat
  simp only [← readBitAt_eq] at hiff
  exact hiff

/-- The register loop changes nothing when every register has its value. -/
theorem writeRegisters_eq_self_iff {s : SlaveStore} {addr : Address} {values : List UInt16} :
    writeRegisters s.holdingRegisters addr values = s.holdingRegisters ↔
      ∀ i value, values[i]? = some value → s.HoldsRegister (addr.toNat + i) value := by
  have hiff := writeLoop_eq_self_iff List.length (fun a => a)
    lookup_writeRegisterAt (length_write 0) (fun _ _ _ h hx => write_self h hx) values
    s.holdingRegisters addr.toNat
  simp only [← getElem?_eq_some_iff_lookup] at hiff
  exact hiff

namespace SlaveStore

theorem with_coils_eq_self_iff {s : SlaveStore} {coils : List UInt8} :
    { s with coils := coils } = s ↔ coils = s.coils := by
  cases s
  simp

theorem with_holdingRegisters_eq_self_iff {s : SlaveStore} {regs : List UInt16} :
    { s with holdingRegisters := regs } = s ↔ regs = s.holdingRegisters := by
  cases s
  simp

/-- **A request leaves the store alone exactly when the store holds what it writes.** -/
theorem call_eq_self_iff (s : SlaveStore) (request : Request) :
    (s.call request).2 = s ↔ request.HeldBy s := by
  cases request with
  | writeSingleCoil addr value => exact with_coils_eq_self_iff.trans writeBitAt_eq_self_iff
  | writeSingleRegister addr value =>
      exact with_holdingRegisters_eq_self_iff.trans writeRegisterAt_eq_self_iff
  | writeMultipleCoils addr values => exact with_coils_eq_self_iff.trans writeBits_eq_self_iff
  | writeMultipleRegisters addr values =>
      exact with_holdingRegisters_eq_self_iff.trans writeRegisters_eq_self_iff
  | readWriteMultipleRegisters readAddr readQty writeAddr values =>
      exact with_holdingRegisters_eq_self_iff.trans writeRegisters_eq_self_iff
  | maskWriteRegister addr andMask orMask =>
      refine with_holdingRegisters_eq_self_iff.trans (writeRegisterAt_eq_self_iff.trans ?_)
      -- the masked value is made from what the grown vector holds, which is what the vector holds
      have hcur := congrFun (lookup_grow 0 s.holdingRegisters addr.toNat) addr.toNat
      change s.holdingRegisters[addr.toNat]? = some
        ((lookup 0 (grow 0 s.holdingRegisters addr.toNat) addr.toNat &&& andMask) |||
          (orMask &&& ~~~andMask)) ↔ _
      rw [hcur]
      constructor
      · intro h
        refine ⟨_, h, ?_⟩
        have hget := (getElem?_eq_some_iff_lookup (d := 0)).1 h
        rw [← hget.2]
        exact hget.2.symm
      · intro h
        obtain ⟨value, hheld, hmask⟩ := h
        rw [HoldsRegister] at hheld
        rw [lookup, hheld, Option.getD_some, hmask]
  | readCoils | readDiscreteInputs | readHoldingRegisters | readInputRegisters =>
      exact iff_of_true rfl trivial
  | diagnostic sf data =>
      refine iff_of_true ?_ trivial
      rw [call]
      split_ifs <;> rfl
  | disconnect => exact iff_of_true rfl trivial

end SlaveStore

/-! ### What the servers do -/

variable {σ τ : Type}

/-- A new store reads 0 everywhere. -/
theorem SlaveStore.new_readHoldingRegister (addr : Address) :
    SlaveStore.new.readHoldingRegister addr = 0 := by
  rw [readHoldingRegister, readRegister, new, List.getElem?_replicate]
  split <;> rfl

/-- A register reads what was written to it. -/
theorem SlaveStore.readHoldingRegister_writeHoldingRegister (s : SlaveStore) (addr : Address)
    (value : UInt16) : (s.writeHoldingRegister addr value).readHoldingRegister addr = value :=
  (congrFun (lookup_writeRegisterAt _ _ value) _).trans (Function.update_self ..)

theorem processServerRequest_broadcast (raw : Bytes) (service : Service σ) (s : σ) :
    processServerRequest raw 0 service s = (none, s) := rfl

/-- Whatever the protocol, a broadcast leaves the store alone. -/
theorem serve_broadcast_store (P : Protocol τ) (service : Service σ)
    (writeOk : ℕ → Bool) (loop : ServerLoop τ σ) (tag : τ) (raw : Bytes) :
    (ServerLoop.serve P service writeOk loop ⟨tag, 0, raw⟩).store = loop.store := by
  obtain ⟨written, running, hserve, -⟩ :=
    ServerLoop.serve_cases P service writeOk loop ⟨tag, 0, raw⟩
  rw [hserve, processServerRequest_broadcast]

/-- What a broadcast should do: it is not answered, and the store is what the service makes of the
request, in a server of any protocol. -/
def ActsOn (raw : Bytes) (s : SlaveStore) : Prop :=
  ∀ request, Request.tryFrom raw = .ok request →
    processServerRequest raw 0 storeService s = (none, (s.call request).2) ∧
    ∀ (τ : Type) (P : Protocol τ) (writeOk : ℕ → Bool) (loop : ServerLoop τ SlaveStore) (tag : τ),
      loop.store = s →
      (ServerLoop.serve P storeService writeOk loop ⟨tag, 0, raw⟩).store = (s.call request).2

/-- **A broadcast does what it should do exactly when the store holds everything it writes.** -/
theorem broadcast_actsOn_iff (s : SlaveStore) {raw : Bytes} {request : Request}
    (hdec : Request.tryFrom raw = .ok request) : ActsOn raw s ↔ request.HeldBy s := by
  rw [← SlaveStore.call_eq_self_iff]
  constructor
  · intro h
    exact (congrArg Prod.snd (h request hdec).1).symm
  · intro h request' hdec'
    have hsame : request' = request := Except.ok.inj (hdec'.symm.trans hdec)
    rw [hsame, h]
    refine ⟨rfl, ?_⟩
    intro τ P writeOk loop tag hstore
    rw [serve_broadcast_store, hstore]

/-- Register 0 of a new store is 0, and a broadcast writes 0 there. -/
theorem broadcast_actsOn_iff_new :
    ActsOn [6, 0, 0, 0, 0] .new ↔ (Request.writeSingleRegister 0 0).HeldBy .new :=
  broadcast_actsOn_iff .new (by decide)

/-- A broadcast that writes 7 to register 0 is not acted on: the register still reads 0. -/
theorem broadcast_not_actsOn :
    Request.tryFrom [6, 0, 0, 0, 7] = .ok (.writeSingleRegister 0 7) ∧
      ¬ ActsOn [6, 0, 0, 0, 7] .new ∧
      (processServerRequest [6, 0, 0, 0, 7] 0 storeService .new).2.readHoldingRegister 0 = 0 ∧
      (SlaveStore.new.call (.writeSingleRegister 0 7)).2.readHoldingRegister 0 = 7 := by
  have hdec : Request.tryFrom [6, 0, 0, 0, 7] = .ok (.writeSingleRegister 0 7) := by decide
  have hread : (processServerRequest [6, 0, 0, 0, 7] 0 storeService .new).2.readHoldingRegister 0
      = 0 := by
    rw [processServerRequest_broadcast, SlaveStore.new_readHoldingRegister]
  have hcall : (SlaveStore.new.call (.writeSingleRegister 0 7)).2.readHoldingRegister 0 = 7 :=
    SlaveStore.readHoldingRegister_writeHoldingRegister .new 0 7
  refine ⟨hdec, ?_, hread, hcall⟩
  intro h
  rw [(h _ hdec).1, hcall] at hread
  exact absurd hread (by decide)

end OmsModbus
