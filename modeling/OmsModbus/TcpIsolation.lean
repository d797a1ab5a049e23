/-
**Connections that keep to their own cells.**

A server is often one memory for several clients, each with cells of its own: some coils, some
holding registers, or some bits of a register, which a mask write (FC 22) changes without touching
the others.  The clients agree on who owns what; the server knows nothing of it.  What can a client
rely on, whatever the schedule and whatever the others do with their own cells?

On everything.  A client that reads only its own cells, and whose cells the others do not write, is
answered as if it were alone with the server, byte for byte: a read/write of registers (FC 23) is
not torn, and a mask write of another to other bits of the same register loses nothing.

Main definitions:

* `OmsModbus.Ownership` — the cells of a client, bit by bit for registers;
* `OmsModbus.Ownership.view` — what is in them;
* `OmsModbus.Request.Reads`, `OmsModbus.Request.Keeps` — a request reads only these cells, or writes
  none of them.

Main results:

* `OmsModbus.Memory.call_view` — a request that keeps the cells keeps the view;
* `OmsModbus.Memory.call_congr` — the answer to a request that reads only these cells, and what it
  leaves in them, depend on the view only;
* `OmsModbus.tcpServer_isolated` — **a connection whose cells the others keep is alone with the
  server**.
-/

import OmsModbus.TcpLinearizable

set_option relaxedAutoImplicit false
set_option autoImplicit false

namespace OmsModbus

open GrowVec SharedObject

/-! ### Masked tables -/

namespace Table

variable {α β : Type} (mask : Address → α → β)

/-- A table seen through a mask. -/
def through (m : Table α) : Table β := fun a => mask a (m a)

variable {mask}

/-- Cells that are written through the mask alike look alike. -/
theorem through_update {m m' : Table α} (h : m.through mask = m'.through mask) {addr : Address}
    {x x' : α} (hx : mask addr x = mask addr x') :
    through mask (Function.update m addr x) = through mask (Function.update m' addr x') := by
  funext a
  unfold through
  by_cases ha : a = addr
  · subst ha
    rw [Function.update_self, Function.update_self, hx]
  · rw [Function.update_of_ne ha, Function.update_of_ne ha]
    exact congrFun h a

/-- A value that the mask does not tell from the old one can be written. -/
theorem through_update_of_hidden (m : Table α) {addr : Address} {x : α}
    (hx : mask addr x = mask addr (m addr)) :
    through mask (Function.update m addr x) = m.through mask := by
  have h : through mask (Function.update m addr x)
      = through mask (Function.update m addr (m addr)) := through_update rfl hx
  rwa [Function.update_eq_self] at h

theorem through_writeRange {m m' : Table α} (h : m.through mask = m'.through mask) (addr : Address)
    (values : List α) :
    through mask (m.writeRange addr values) = through mask (m'.writeRange addr values) := by
  funext a
  have ha := congrFun h a
  unfold through at ha ⊢
  unfold writeRange
  split
  · cases values[(a - addr).toNat]? with
    | none => exact ha
    | some x => rfl
  · exact ha

/-- A range the mask hides can be written. -/
theorem through_writeRange_of_hidden (m : Table α) {addr : Address} {values : List α}
    (h : ∀ a, addr.toNat ≤ a.toNat → a.toNat < addr.toNat + values.length →
      ∀ x y, mask a x = mask a y) :
    through mask (m.writeRange addr values) = m.through mask := by
  funext a
  unfold through
  by_cases ha : addr.toNat ≤ a.toNat ∧ a.toNat < addr.toNat + values.length
  · exact h a ha.1 ha.2 _ _
  · rw [writeRange_of_not_mem m ha]

/-- A range that the mask shows as it is reads alike. -/
theorem readRange_congr {m m' : Table α} (h : m.through mask = m'.through mask) {addr : Address}
    {n : ℕ} (hinj : ∀ i < n, Function.Injective (mask (addr + UInt16.ofNat i))) :
    m.readRange addr n = m'.readRange addr n := by
  apply List.map_congr_left
  intro i hi
  exact hinj i (List.mem_range.1 hi) (congrFun h _)

end Table

/-! ### Bits of a word -/

/-- Words agree on the bits of a mask. -/
theorem and_eq_and_iff {x y own : UInt16} : x &&& own = y &&& own ↔
    ∀ i (hi : i < 16), own.toBitVec[i] = true → x.toBitVec[i] = y.toBitVec[i] := by
  rw [← UInt16.toBitVec_inj, UInt16.toBitVec_and, UInt16.toBitVec_and]
  constructor
  · intro h i hi hown
    have hbit := congrArg (fun v => v.getLsbD i) h
    simpa [BitVec.getLsbD_and, BitVec.getLsbD_eq_getElem hi, hown] using hbit
  · intro h
    ext i hi
    rw [BitVec.getElem_and, BitVec.getElem_and]
    cases hown : own.toBitVec[i] with
    | false => rw [Bool.and_false, Bool.and_false]
    | true => rw [h i hi hown]

/-- A mask write takes each bit from the old word or from the mask. -/
theorem maskWrite_getElem (cur andMask orMask : UInt16) {i : ℕ} (hi : i < 16) :
    ((cur &&& andMask) ||| (orMask &&& ~~~andMask)).toBitVec[i]
      = if andMask.toBitVec[i] then cur.toBitVec[i] else orMask.toBitVec[i] := by
  simp only [UInt16.toBitVec_and, UInt16.toBitVec_or, UInt16.toBitVec_not, BitVec.getElem_and,
    BitVec.getElem_or, BitVec.getElem_not]
  cases andMask.toBitVec[i] <;> simp

/-- The bits that the mask keeps stay. -/
theorem maskWrite_and_of_keeps {cur andMask orMask own : UInt16} (h : own &&& ~~~andMask = 0) :
    ((cur &&& andMask) ||| (orMask &&& ~~~andMask)) &&& own = cur &&& own := by
  rw [and_eq_and_iff]
  intro i hi hown
  have hbit : (own &&& ~~~andMask).toBitVec[i] = false := by
    rw [h]
    simp
  rw [UInt16.toBitVec_and, BitVec.getElem_and, hown, UInt16.toBitVec_not, BitVec.getElem_not]
    at hbit
  rw [maskWrite_getElem _ _ _ hi, if_pos (by simpa using hbit)]

/-- A mask write of words that agree on some bits gives words that agree on them. -/
theorem maskWrite_and_congr {cur cur' own : UInt16} (andMask orMask : UInt16)
    (h : cur &&& own = cur' &&& own) :
    ((cur &&& andMask) ||| (orMask &&& ~~~andMask)) &&& own
      = ((cur' &&& andMask) ||| (orMask &&& ~~~andMask)) &&& own := by
  rw [and_eq_and_iff] at h ⊢
  intro i hi hown
  rw [maskWrite_getElem _ _ _ hi, maskWrite_getElem _ _ _ hi, h i hi hown]

/-! ### Ownership -/

/-- The cells of a client: coils, and bits of holding registers.  Discrete inputs and input
registers cannot be written over the wire and belong to everyone. -/
structure Ownership where
  coils : Address → Bool
  holding : Address → UInt16

/-- What a client sees of a memory. -/
@[ext] structure View where
  coils : Table Bool
  holdingRegisters : Table UInt16
  discreteInputs : Table Bool
  inputRegisters : Table UInt16

/-- What is in the cells of a client. -/
def Ownership.view (o : Ownership) (m : Memory) : View where
  coils := m.coils.through fun a x => o.coils a && x
  holdingRegisters := m.holdingRegisters.through fun a x => x &&& o.holding a
  discreteInputs := m.discreteInputs
  inputRegisters := m.inputRegisters

/-- All coils of a range are owned. -/
def Ownership.OwnsCoils (o : Ownership) (addr : Address) (n : ℕ) : Prop :=
  ∀ i < n, o.coils (addr + UInt16.ofNat i) = true

/-- All registers of a range are owned, with all their bits. -/
def Ownership.OwnsRegisters (o : Ownership) (addr : Address) (n : ℕ) : Prop :=
  ∀ i < n, o.holding (addr + UInt16.ofNat i) = 0xFFFF

/-- The request reads only cells of the client. -/
def Request.Reads (o : Ownership) : Request → Prop
  | .readCoils addr qty => o.OwnsCoils addr qty.toNat
  | .readHoldingRegisters addr qty => o.OwnsRegisters addr qty.toNat
  | .readWriteMultipleRegisters addr qty _ _ => o.OwnsRegisters addr qty.toNat
  | _ => True

/-- The request writes no cell of the client.  A mask write may write other bits of a register. -/
def Request.Keeps (o : Ownership) : Request → Prop
  | .writeSingleCoil addr _ => o.coils addr = false
  | .writeMultipleCoils addr values =>
      ∀ a, addr.toNat ≤ a.toNat → a.toNat < addr.toNat + values.length → o.coils a = false
  | .writeSingleRegister addr _ => o.holding addr = 0
  | .writeMultipleRegisters addr values =>
      ∀ a, addr.toNat ≤ a.toNat → a.toNat < addr.toNat + values.length → o.holding a = 0
  | .maskWriteRegister addr andMask _ => o.holding addr &&& ~~~andMask = 0
  | .readWriteMultipleRegisters _ _ addr values =>
      ∀ a, addr.toNat ≤ a.toNat → a.toNat < addr.toNat + values.length → o.holding a = 0
  | _ => True

/-! ### Requests and views -/

section View

variable {o : Ownership} {q : Request}

/-- **A request that keeps the cells keeps the view.** -/
theorem Memory.call_view (m : Memory) (h : q.Keeps o) : o.view (m.call q).2 = o.view m := by
  cases q with
  | writeSingleCoil addr value =>
      refine congrArg (fun t => { o.view m with coils := t })
        (Table.through_update_of_hidden m.coils ?_)
      have hfalse : o.coils addr = false := h
      rw [hfalse, Bool.false_and, Bool.false_and]
  | writeMultipleCoils addr values =>
      refine congrArg (fun t => { o.view m with coils := t })
        (Table.through_writeRange_of_hidden m.coils ?_)
      intro a hge hlt x y
      rw [h a hge hlt, Bool.false_and, Bool.false_and]
  | writeSingleRegister addr value =>
      refine congrArg (fun t => { o.view m with holdingRegisters := t })
        (Table.through_update_of_hidden m.holdingRegisters ?_)
      have hzero : o.holding addr = 0 := h
      rw [hzero, UInt16.and_zero, UInt16.and_zero]
  | writeMultipleRegisters addr values | readWriteMultipleRegisters _ _ addr values =>
      refine congrArg (fun t => { o.view m with holdingRegisters := t })
        (Table.through_writeRange_of_hidden m.holdingRegisters ?_)
      intro a hge hlt x y
      have hzero : o.holding a = 0 := h a hge hlt
      rw [hzero, UInt16.and_zero, UInt16.and_zero]
  | maskWriteRegister addr andMask orMask =>
      refine congrArg (fun t => { o.view m with holdingRegisters := t })
        (Table.through_update_of_hidden m.holdingRegisters ?_)
      exact maskWrite_and_of_keeps h
  | diagnostic sf data =>
      rw [Memory.call]
      split
      · rfl
      · split <;> rfl
  | _ => rfl

/-- A register that is owned with all its bits shows. -/
theorem Ownership.OwnsRegisters.injective {addr : Address} {n : ℕ} (h : o.OwnsRegisters addr n) :
    ∀ i < n, Function.Injective fun x => x &&& o.holding (addr + UInt16.ofNat i) := by
  intro i hi x y hxy
  have hones : (0xFFFF : UInt16) = -1 := by decide
  simpa only [h i hi, hones, UInt16.and_neg_one] using hxy

theorem Ownership.OwnsCoils.injective {addr : Address} {n : ℕ} (h : o.OwnsCoils addr n) :
    ∀ i < n, Function.Injective fun x => o.coils (addr + UInt16.ofNat i) && x := by
  intro i hi x y hxy
  simpa only [h i hi, Bool.true_and] using hxy

/-- **The answer to a request that reads only owned cells, and what it leaves in them, depend on the
view only.** -/
theorem Memory.call_congr {m m' : Memory} (hread : q.Reads o) (h : o.view m = o.view m') :
    (m.call q).1 = (m'.call q).1 ∧ o.view (m.call q).2 = o.view (m'.call q).2 := by
  obtain ⟨hcoils, hholding, hdiscrete, hinput⟩ := View.mk.inj h
  cases q with
  | readCoils addr qty =>
      refine ⟨?_, h⟩
      exact congrArg (Except.ok ∘ Response.readCoils)
        (Table.readRange_congr hcoils (Ownership.OwnsCoils.injective hread))
  | readDiscreteInputs addr qty =>
      refine ⟨?_, h⟩
      exact congrArg (fun t => Except.ok (Response.readDiscreteInputs
        (Table.readRange t addr qty.toNat))) hdiscrete
  | readHoldingRegisters addr qty =>
      refine ⟨?_, h⟩
      exact congrArg (Except.ok ∘ Response.readHoldingRegisters)
        (Table.readRange_congr hholding (Ownership.OwnsRegisters.injective hread))
  | readInputRegisters addr qty =>
      refine ⟨?_, h⟩
      exact congrArg (fun t => Except.ok (Response.readInputRegisters
        (Table.readRange t addr qty.toNat))) hinput
  | writeSingleCoil addr value =>
      refine ⟨rfl, View.ext ?_ hholding hdiscrete hinput⟩
      exact Table.through_update hcoils rfl
  | writeMultipleCoils addr values =>
      refine ⟨rfl, View.ext ?_ hholding hdiscrete hinput⟩
      exact Table.through_writeRange hcoils addr values
  | writeSingleRegister addr value =>
      refine ⟨rfl, View.ext hcoils ?_ hdiscrete hinput⟩
      exact Table.through_update hholding rfl
  | writeMultipleRegisters addr values =>
      refine ⟨rfl, View.ext hcoils ?_ hdiscrete hinput⟩
      exact Table.through_writeRange hholding addr values
  | readWriteMultipleRegisters readAddr readQty addr values =>
      refine ⟨?_, View.ext hcoils ?_ hdiscrete hinput⟩
      · exact congrArg (Except.ok ∘ Response.readWriteMultipleRegisters)
          (Table.readRange_congr hholding (Ownership.OwnsRegisters.injective hread))
      · exact Table.through_writeRange hholding addr values
  | maskWriteRegister addr andMask orMask =>
      refine ⟨rfl, View.ext hcoils ?_ hdiscrete hinput⟩
      exact Table.through_update hholding
        (maskWrite_and_congr andMask orMask (congrFun hholding addr))
  | diagnostic sf data =>
      rw [Memory.call, Memory.call]
      split
      · exact ⟨rfl, h⟩
      · split
        · exact ⟨rfl, h⟩
        · exact ⟨rfl, h⟩
  | disconnect => exact ⟨rfl, h⟩

end View

/-! ### Sections and views -/

section Store

variable {o : Ownership}

/-- The second section of FC 23 leaves what the whole of it would. -/
theorem SlaveStore.leave_memory (s : SlaveStore) (held : HeldRead) :
    (s.leave held).2.memory
      = { s.memory with
          holdingRegisters := s.memory.holdingRegisters.writeRange held.writeAddr held.values } :=
  congrArg (fun t => { s.memory with holdingRegisters := t })
    (writeRegisters_memory s.holdingRegisters held.writeAddr held.values)

/-- A call of a client that reads only its own cells goes the way its view decides. -/
theorem respects_of_reads {p : UInt8 × Request} (hbounded : p.2.Bounded) (hread : p.2.Reads o) :
    Respects storeSections (fun s => o.view s.memory) p := by
  obtain ⟨slave, q⟩ := p
  refine ⟨?_, ?_, ?_⟩
  · intro s t res s' hview henter
    obtain ⟨hcall, hheld⟩ := SlaveStore.enter_eq_inl henter
    obtain ⟨hres, hmem⟩ := call_memory s hbounded
    obtain ⟨hres', hmem'⟩ := call_memory t hbounded
    obtain ⟨hans, hafter⟩ := Memory.call_congr hread hview
    rw [hcall] at hres hmem
    refine ⟨(t.call q).2, ?_, ?_⟩
    · have ht : t.call q = (res, (t.call q).2) :=
        Prod.ext (hres'.trans (hans.symm.trans hres.symm)) rfl
      cases q with
      | readWriteMultipleRegisters readAddr readQty writeAddr values => cases henter
      | _ => exact congrArg Sum.inl ht
    · show o.view s'.memory = o.view (t.call q).2.memory
      rw [hmem', ← hafter, ← hmem]
  · intro s t held hview henter
    obtain ⟨readAddr, readQty, rfl, hregs⟩ := SlaveStore.enter_eq_inr.1 henter
    refine SlaveStore.enter_eq_inr.2 ⟨readAddr, readQty, rfl, ?_⟩
    rw [hregs, SlaveStore.readHoldingRange, SlaveStore.readHoldingRange,
      readRegisters_memory _ hbounded.1, readRegisters_memory _ hbounded.1]
    exact Table.readRange_congr (View.mk.inj hview).2.1 (Ownership.OwnsRegisters.injective hread)
  · intro s₀ s t held _ hview
    refine ⟨rfl, ?_⟩
    obtain ⟨hcoils, hholding, hdiscrete, hinput⟩ := View.mk.inj hview
    show o.view (s.leave held).2.memory = o.view (t.leave held).2.memory
    rw [SlaveStore.leave_memory, SlaveStore.leave_memory]
    exact View.ext hcoils (Table.through_writeRange hholding _ _) hdiscrete hinput

/-- A section of a request that keeps the cells keeps the view. -/
theorem takes_view {e : StoreEvent} {s s' : SlaveStore} (htake : storeSections.Takes e s s')
    (hcall : ∀ p res, e = .call p res → p.2.Bounded ∧ p.2.Keeps o)
    (hleave : ∀ p held res, e = .leave p held res → ∃ readAddr readQty, Request.Keeps o
      (.readWriteMultipleRegisters readAddr readQty held.writeAddr held.values)) :
    o.view s'.memory = o.view s.memory := by
  cases e with
  | call p res =>
      obtain ⟨hbounded, hkeep⟩ := hcall p res rfl
      obtain ⟨hs', -⟩ := SlaveStore.enter_eq_inl htake
      have hmem := (call_memory s hbounded).2
      rw [hs'] at hmem
      rw [hmem]
      exact Memory.call_view _ hkeep
  | enter p held =>
      obtain ⟨-, rfl⟩ := htake
      rfl
  | leave p held res =>
      obtain ⟨readAddr, readQty, hkeep⟩ := hleave p held res rfl
      have hs' : s' = (s.leave held).2 := congrArg Prod.snd htake.symm
      rw [hs', SlaveStore.leave_memory]
      exact Memory.call_view s.memory hkeep

end Store

/-! ### Runs of the server -/

/-- **A connection whose cells the others keep is alone with the server**: whatever the schedule,
the bytes it has been sent are those that the plain handler sends when nobody else is connected,
and its cells hold the same. -/
theorem tcpServer_isolated (cfg : TcpConfig) (writeOk : ℕ → ℕ → Bool) (s₀ : SlaveStore)
    (ls : List TcpServerStep) (sys : TcpServerState) (o : Ownership) (i : ℕ) (t : Task)
    (h : (TcpServerState.start s₀).run cfg writeOk ls = some sys)
    (ht : sys.tasks[i]? = some t) (hrest : t.state = .reading)
    (hreads : ∀ p, sys.Sends i p → p.2.Reads o)
    (hkeeps : ∀ j p, j ≠ i → sys.Sends j p → p.2.Keeps o) :
    ∃ s, handleTcpConnection storeService cfg (writeOk i) (.idle s₀) t.reads = t.loop.withStore s ∧
      o.view s.memory = o.view sys.store.memory := by
  have hinv : sys.Inv cfg writeOk s₀ := TcpServerState.run_inv TcpServerState.start_inv h
  have hsent : ∀ j p, sys.Sends j p → p.2.Bounded := by
    rintro j p ⟨u, x, -, -, hdisp⟩
    exact (Request.tryFrom_inRange (RawRequest.dispatch_eq_some.1 hdisp).2.2).2.bounded
  obtain ⟨s, halone, hview⟩ := hinv.replays.alone (fun s => o.view s.memory) i
    (by
      intro j e hm hne s₁ s₂ htake
      refine takes_view htake ?_ ?_
      · rintro p res rfl
        have hsends := hinv.sends hm rfl
        exact ⟨hsent j p hsends, hkeeps j p hne hsends⟩
      · rintro p held res rfl
        obtain ⟨hsends, readAddr, readQty, hp⟩ := hinv.sends_leave hm
        have := hkeeps j p hne hsends
        rw [hp] at this
        exact ⟨readAddr, readQty, this⟩)
    (by
      intro p res hm
      have hsends := hinv.sends hm rfl
      exact respects_of_reads (hsent i p hsends) (hreads p hsends))
    (by
      intro p held hm
      have hsends := hinv.sends hm rfl
      exact respects_of_reads (hsent i p hsends) (hreads p hsends))
  -- the sections of one connection are whole calls
  have hrun := (halone.linearize
    (fun e q k s s' hspares htake h => enter_of_spares hspares htake h)
    (undisturbed_own Spares i sys.history)).1
  rw [Sections.run_congr storeSections_call] at hrun
  refine ⟨s, ?_, hview.symm⟩
  rw [hinv.handled i t ht storeService s₀ s hrun, Task.catchUp, hrest]

/-- The first connection owns registers 0 and 1 and reads and writes them in one call; in between
the second writes register 2. -/
theorem tcpServer_isolated_crossing :
    let run := (TcpServerState.start ⟨[], [], [3, 4], []⟩).run .standard (fun _ _ => true)
      (crossing (.readWriteMultipleRegisters 0 2 0 [9]) (.writeSingleRegister 2 5))
    let o : Ownership := ⟨fun _ => false, fun a => if a < 2 then 0xFFFF else 0⟩
    ∃ sys t, run = some sys ∧ sys.tasks[0]? = some t ∧
      t.loop.written = [encodeTcpFrame [1, 23, 4, 0, 3, 0, 4] [] .standard 7] ∧
      ∃ s, handleTcpConnection storeService .standard (fun _ => true) (.idle ⟨[], [], [3, 4], []⟩)
          t.reads = t.loop.withStore s ∧
        o.view s.memory = o.view sys.store.memory := by
  intro run o
  obtain ⟨sys, t, hrun, ht, hrest, hwritten, hreqs⟩ : ∃ sys t, run = some sys ∧
      sys.tasks[0]? = some t ∧ t.state = .reading ∧
      t.loop.written = [encodeTcpFrame [1, 23, 4, 0, 3, 0, 4] [] .standard 7] ∧
      (sys.tasks.map fun t => (t.loop.requests ++ t.current).filterMap RawRequest.dispatch)
        = [[(1, .readWriteMultipleRegisters 0 2 0 [9])], [(2, .writeSingleRegister 2 5)]] :=
    ⟨_, _, rfl, rfl, rfl, rfl, rfl⟩
  refine ⟨sys, t, hrun, ht, hwritten, tcpServer_isolated .standard (fun _ _ => true)
    ⟨[], [], [3, 4], []⟩ (crossing (.readWriteMultipleRegisters 0 2 0 [9])
      (.writeSingleRegister 2 5)) sys o 0 t hrun ht hrest ?_ ?_⟩
  · intro p hp
    obtain ⟨ps, hps, hmem⟩ := hp.mem hreqs
    cases hps
    obtain rfl := List.mem_singleton.1 hmem
    intro i hi
    have hi' : i < 2 := hi
    obtain rfl | rfl : i = 0 ∨ i = 1 := by omega
    · rfl
    · rfl
  · intro j p hj hp
    obtain ⟨ps, hps, hmem⟩ := hp.mem hreqs
    rcases j with _ | _ | j
    · exact absurd rfl hj
    · cases hps
      obtain rfl := List.mem_singleton.1 hmem
      rfl
    · cases hps

end OmsModbus
