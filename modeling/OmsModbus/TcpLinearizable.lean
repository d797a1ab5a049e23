/-
**When the server is as good as sequential.**

All calls of the store are atomic but for the read/write of registers (FC 23), which others may get
in between.  It matters only when they write what it has read.  If they do not, the server with all
its connections answers as a memory would that is asked one thing after the other: in the order in
which the calls finish, which is for each connection the order of its requests.

Whether others write what a read/write has read can be told from the requests alone, whatever the
schedule: it cannot happen when no connection writes registers that a read/write of another reads.
Two cases of this: nobody uses FC 23, and one connection writes all the registers.

Main definitions:

* `OmsModbus.Request.registersWritten`, `OmsModbus.Request.registersHeld` — the registers a request
  writes, and those it looks at before it lets its first lock go;
* `OmsModbus.Spares` — a section does not write what a request looks at first;
* `OmsModbus.TcpServerState.Sends` — a connection has sent a request.

Main results:

* `OmsModbus.enter_of_spares` — what is looked at stays the same when it is not written;
* `OmsModbus.tcpServer_linearizable` — **an undisturbed run is a sequence of calls on a memory**;
* `OmsModbus.tcpServer_linearizable_of_apart` — **so is every run of connections that do not write
  what a read/write of another reads**.
-/

import OmsModbus.SlaveStoreMemory
import OmsModbus.TcpRecovery
import OmsModbus.TcpServer

set_option relaxedAutoImplicit false
set_option autoImplicit false

namespace OmsModbus

open GrowVec SharedObject

/-! ### The registers of a request -/

/-- The holding registers a request writes: the first, and how many. -/
def Request.registersWritten : Request → ℕ × ℕ
  | .writeSingleRegister addr _ => (addr.toNat, 1)
  | .writeMultipleRegisters addr values => (addr.toNat, values.length)
  | .maskWriteRegister addr _ _ => (addr.toNat, 1)
  | .readWriteMultipleRegisters _ _ addr values => (addr.toNat, values.length)
  | _ => (0, 0)

/-- The holding registers a request looks at before it lets its first lock go. -/
def Request.registersHeld : Request → ℕ × ℕ
  | .readWriteMultipleRegisters addr qty _ _ => (addr.toNat, qty.toNat)
  | _ => (0, 0)

/-- The holding registers a section writes. -/
def writtenBy : StoreEvent → ℕ × ℕ
  | .call q _ => q.2.registersWritten
  | .enter _ _ => (0, 0)
  | .leave _ held _ => (held.writeAddr.toNat, held.values.length)

/-- Two ranges have no register in common. -/
def Apart (r w : ℕ × ℕ) : Prop := ∀ a, r.1 ≤ a → a < r.1 + r.2 → ¬ (w.1 ≤ a ∧ a < w.1 + w.2)

/-- A section does not write what a request looks at first. -/
def Spares (e : StoreEvent) (q : UInt8 × Request) : Prop := Apart q.2.registersHeld (writtenBy e)

theorem overlay_of_not_mem {α : Type} (m : ℕ → α) {a b : ℕ} {xs : List α}
    (h : ¬ (a ≤ b ∧ b < a + xs.length)) : overlay m a xs b = m b := by
  unfold overlay
  split
  · next hle => rw [List.getElem?_eq_none (by omega), Option.getD_none]
  · rfl

/-- A call keeps the registers it does not write. -/
theorem SlaveStore.call_register (s : SlaveStore) (q : Request) {a : ℕ}
    (h : ¬ (q.registersWritten.1 ≤ a ∧ a < q.registersWritten.1 + q.registersWritten.2)) :
    lookup 0 (s.call q).2.holdingRegisters a = lookup 0 s.holdingRegisters a := by
  have hone : ∀ {addr : Address} (x : UInt16), ¬ (addr.toNat ≤ a ∧ a < addr.toNat + 1) →
      lookup 0 (writeRegisterAt s.holdingRegisters addr.toNat x) a
        = lookup 0 s.holdingRegisters a := by
    intro addr x hne
    rw [lookup_writeRegisterAt, Function.update_of_ne (by omega)]
  cases q with
  | writeSingleRegister addr value => exact hone value h
  | maskWriteRegister addr andMask orMask => exact hone _ h
  | writeMultipleRegisters addr values =>
      rw [SlaveStore.call]
      simp only [lookup_writeRegisters]
      exact overlay_of_not_mem _ h
  | readWriteMultipleRegisters readAddr readQty addr values =>
      rw [SlaveStore.call]
      simp only [lookup_writeRegisters]
      exact overlay_of_not_mem _ h
  | diagnostic sf data =>
      rw [SlaveStore.call]
      split
      · rfl
      · split
        · rfl
        · split <;> rfl
  | _ => rfl

/-- A first section is a call or the reading half of FC 23. -/
theorem SlaveStore.enter_eq_inl {s s' : SlaveStore} {q : Request} {res : Answer}
    (h : s.enter q = .inl (res, s')) : s.call q = (res, s') ∧ q.registersHeld = (0, 0) := by
  cases q with
  | readWriteMultipleRegisters readAddr readQty writeAddr values => cases h
  | _ => exact ⟨Sum.inl.inj h, rfl⟩

theorem SlaveStore.enter_eq_inr {s : SlaveStore} {q : Request} {held : HeldRead} :
    s.enter q = .inr held ↔ ∃ readAddr readQty,
      q = .readWriteMultipleRegisters readAddr readQty held.writeAddr held.values ∧
        held.regs = s.readHoldingRange readAddr readQty := by
  constructor
  · intro h
    cases q with
    | readWriteMultipleRegisters readAddr readQty writeAddr values =>
        cases h
        exact ⟨readAddr, readQty, rfl, rfl⟩
    | _ => cases h
  · rintro ⟨readAddr, readQty, rfl, hregs⟩
    obtain ⟨regs, writeAddr, values⟩ := held
    obtain rfl : regs = _ := hregs
    rfl

/-- A section keeps the registers it does not write. -/
theorem takes_register {e : StoreEvent} {s s' : SlaveStore} (h : storeSections.Takes e s s') {a : ℕ}
    (ha : ¬ ((writtenBy e).1 ≤ a ∧ a < (writtenBy e).1 + (writtenBy e).2)) :
    lookup 0 s'.holdingRegisters a = lookup 0 s.holdingRegisters a := by
  cases e with
  | call q res =>
      obtain ⟨hcall, -⟩ := SlaveStore.enter_eq_inl h
      rw [← s.call_register q.2 ha, hcall]
  | enter q held =>
      obtain ⟨-, rfl⟩ := h
      rfl
  | leave q held res =>
      cases h
      simp only [lookup_writeRegisters]
      exact overlay_of_not_mem _ ha

/-- **What is looked at stays the same when it is not written.** -/
theorem enter_of_spares {e : StoreEvent} {q : UInt8 × Request} {held : HeldRead}
    {s s' : SlaveStore} (hspares : Spares e q) (htake : storeSections.Takes e s s')
    (h : storeSections.enter q s = .inr held) : storeSections.enter q s' = .inr held := by
  obtain ⟨slave, q⟩ := q
  obtain ⟨readAddr, readQty, rfl, hregs⟩ := SlaveStore.enter_eq_inr.1 h
  refine SlaveStore.enter_eq_inr.2 ⟨readAddr, readQty, rfl, ?_⟩
  rw [hregs, SlaveStore.readHoldingRange, SlaveStore.readHoldingRange, readRegisters_eq,
    readRegisters_eq]
  apply List.map_congr_left
  intro i hi
  have hlt := List.mem_range.1 hi
  refine (takes_register htake ?_).symm
  exact hspares (readAddr.toNat + i) (Nat.le_add_right _ _)
    (Nat.add_lt_add_left hlt readAddr.toNat)

/-! ### A store that is called by one client -/

/-- Calls of the service are operations on the store. -/
theorem storeService_run (s : SlaveStore) (cs : List ((UInt8 × Request) × Answer))
    {s' : SlaveStore}
    (h : storeService.sections.run s (cs.map Prod.fst) = (cs.map Prod.snd, s')) :
    s.run (cs.map fun c => .call c.1.2) = (cs.map fun c => .response c.2, s') := by
  induction cs generalizing s with
  | nil =>
      cases h
      rfl
  | cons c cs ih =>
      obtain ⟨⟨slave, q⟩, res⟩ := c
      simp only [List.map_cons, Sections.run, Service.sections_call, Prod.mk.injEq,
        List.cons.injEq] at h
      obtain ⟨⟨hres, hrest⟩, hstore⟩ := h
      have hcall : s.call q = (res, (s.call q).2) := Prod.ext hres rfl
      have hrun := ih (s.call q).2 (Prod.ext hrest hstore)
      simp only [List.map_cons, SlaveStore.run, SlaveStore.exec]
      rw [hcall, Prod.map_apply]
      simp only [id_eq]
      rw [hrun]

/-- A request that decodes stays in the address space. -/
theorem Request.InRange.bounded {q : Request} (h : q.InRange) : q.Bounded := by
  cases q with
  | readCoils addr qty | readDiscreteInputs addr qty | readHoldingRegisters addr qty
  | readInputRegisters addr qty => exact h.2.2
  | writeMultipleCoils addr values => exact h.2.2
  | writeMultipleRegisters addr values => exact h.2.2
  | readWriteMultipleRegisters readAddr readQty writeAddr values => exact ⟨h.1.2.2, h.2.2.2⟩
  | _ => trivial

section Server

variable {cfg : TcpConfig} {writeOk : ℕ → ℕ → Bool} {s₀ : SlaveStore} {sys : TcpServerState}

/-- A connection has sent a request. -/
def TcpServerState.Sends (sys : TcpServerState) (i : ℕ) (p : UInt8 × Request) : Prop :=
  ∃ t x, sys.tasks[i]? = some t ∧ x ∈ t.loop.requests ++ t.current ∧ x.dispatch = some p

/-- What has been sent, from the lists of all requests. -/
theorem TcpServerState.Sends.mem {i : ℕ} {p : UInt8 × Request} (h : sys.Sends i p)
    {sent : List (List (UInt8 × Request))}
    (hsent : (sys.tasks.map fun t => (t.loop.requests ++ t.current).filterMap RawRequest.dispatch)
      = sent) : ∃ ps, sent[i]? = some ps ∧ p ∈ ps := by
  obtain ⟨t, x, ht, hx, hdisp⟩ := h
  rw [← hsent, List.getElem?_map, ht]
  exact ⟨_, rfl, List.mem_filterMap.2 ⟨x, hx, hdisp⟩⟩

/-- A client in a history is a connection. -/
theorem TcpServerState.Inv.task_of_mem (hinv : sys.Inv cfg writeOk s₀) {i : ℕ} {e : StoreEvent}
    (hm : (i, e) ∈ sys.history) : ∃ t, sys.tasks[i]? = some t := by
  rcases Nat.lt_or_ge i sys.tasks.length with hlt | hge
  · exact ⟨_, List.getElem?_eq_getElem hlt⟩
  · have hown := hinv.fresh i hge
    have hmem : (i, e) ∈ own i sys.history := List.mem_filter.2 ⟨hm, by simp⟩
    rw [hown] at hmem
    cases hmem

/-- The calls of a history are requests that have been sent. -/
theorem TcpServerState.Inv.sends (hinv : sys.Inv cfg writeOk s₀) {i : ℕ} {e : StoreEvent}
    {p : UInt8 × Request} (hm : (i, e) ∈ sys.history) (he : e.begins = some p) :
    sys.Sends i p := by
  obtain ⟨t, ht⟩ := hinv.task_of_mem hm
  have hbegun := (hinv.replays.mem_begun hm).1 p he
  rw [← hinv.requests i t ht] at hbegun
  obtain ⟨x, hx, hdisp⟩ := List.mem_filterMap.1 hbegun
  exact ⟨t, x, ht, hx, hdisp⟩

/-- A second section belongs to a read/write that has been sent. -/
theorem TcpServerState.Inv.sends_leave (hinv : sys.Inv cfg writeOk s₀) {i : ℕ}
    {p : UInt8 × Request} {held : HeldRead} {res : Answer}
    (hm : (i, Event.leave p held res) ∈ sys.history) :
    sys.Sends i p ∧ ∃ readAddr readQty,
      p.2 = .readWriteMultipleRegisters readAddr readQty held.writeAddr held.values := by
  have henter := (hinv.replays.mem_begun hm).2 p held res rfl
  obtain ⟨s, hs⟩ := hinv.replays.enter_eq henter
  obtain ⟨readAddr, readQty, hp, -⟩ := SlaveStore.enter_eq_inr.1 hs
  exact ⟨hinv.sends henter rfl, readAddr, readQty, hp⟩

/-- The calls that have ended are requests that have been sent, and stay in the address space. -/
theorem TcpServerState.Inv.bounded (hinv : sys.Inv cfg writeOk s₀) {c : (UInt8 × Request) × Answer}
    (hc : c ∈ calls sys.history) : c.1.2.Bounded := by
  obtain ⟨⟨i, e⟩, hm, he⟩ := List.mem_filterMap.1 hc
  have hsends : ∃ i, sys.Sends i c.1 := by
    cases e with
    | call p res =>
        cases he
        exact ⟨i, hinv.sends hm rfl⟩
    | enter p held => cases he
    | leave p held res =>
        cases he
        exact ⟨i, (hinv.sends_leave hm).1⟩
  obtain ⟨i, t, x, -, -, hdisp⟩ := hsends
  obtain ⟨-, -, hdec⟩ := RawRequest.dispatch_eq_some.1 hdisp
  exact (Request.tryFrom_inRange hdec).2.bounded

/-- Nobody disturbs a call when no connection writes what a read/write of another reads. -/
theorem TcpServerState.Inv.undisturbed (hinv : sys.Inv cfg writeOk s₀)
    (hapart : ∀ i j p p', i ≠ j → sys.Sends i p → sys.Sends j p' →
      Apart p.2.registersHeld p'.2.registersWritten) :
    Undisturbed Spares sys.history := by
  intro a b j e heq i p held hne hp
  have hm : (j, e) ∈ sys.history := by
    rw [heq]
    exact List.mem_append_right _ List.mem_cons_self
  have hin : (i, Event.enter p held) ∈ sys.history := by
    rw [heq]
    exact List.mem_append_left _ (mem_of_underway a i hp)
  have hsends := hinv.sends hin rfl
  cases e with
  | call p' res => exact hapart i j p p' hne hsends (hinv.sends hm rfl)
  | enter p' held' =>
      intro c _ _ hc
      exact absurd hc.2 (Nat.not_lt_zero c)
  | leave p' held' res =>
      obtain ⟨hsends', readAddr, readQty, hp'⟩ := hinv.sends_leave hm
      have := hapart i j p p' hne hsends hsends'
      rw [hp'] at this
      exact this

/-- An undisturbed run, on the store and on its memory. -/
theorem TcpServerState.Inv.linearize (hinv : sys.Inv cfg writeOk s₀)
    (hu : Undisturbed Spares sys.history) :
    let ops := (calls sys.history).map fun c => StoreOp.call c.1.2
    let results := (calls sys.history).map fun c => StoreResult.response c.2
    s₀.run ops = (results, sys.store) ∧ s₀.memory.run ops = (results, sys.store.memory) := by
  intro ops results
  have hrun := (hinv.replays.linearize
    (fun e q k s s' hspares htake h => enter_of_spares hspares htake h) hu).1
  rw [Sections.run_congr storeSections_call] at hrun
  have hstore : s₀.run ops = (results, sys.store) := storeService_run s₀ _ hrun
  have hbounded : ∀ op ∈ ops, op.Bounded := by
    intro op hop
    obtain ⟨c, hc, rfl⟩ := List.mem_map.1 hop
    exact hinv.bounded hc
  obtain ⟨hres, hmem⟩ := run_memory s₀ hbounded
  rw [hstore] at hres hmem
  exact ⟨hstore, Prod.ext hres.symm hmem.symm⟩

end Server

/-! ### Runs of the server -/

/-- **An undisturbed run is a sequence of calls on a memory**, in the order in which the calls
finish: every answer is the one the memory gives, and the store is where the memory is. -/
theorem tcpServer_linearizable (cfg : TcpConfig) (writeOk : ℕ → ℕ → Bool) (s₀ : SlaveStore)
    (ls : List TcpServerStep) (sys : TcpServerState)
    (h : (TcpServerState.start s₀).run cfg writeOk ls = some sys)
    (hu : Undisturbed Spares sys.history) :
    let ops := (calls sys.history).map fun c => StoreOp.call c.1.2
    let results := (calls sys.history).map fun c => StoreResult.response c.2
    s₀.run ops = (results, sys.store) ∧ s₀.memory.run ops = (results, sys.store.memory) :=
  (TcpServerState.run_inv TcpServerState.start_inv h).linearize hu

/-- Registers 0 and 1 are read, a coil is written by another connection, register 0 is written. -/
theorem tcpServer_linearizable_crossing :
    let run := (TcpServerState.start ⟨[], [], [3, 4], []⟩).run .standard (fun _ _ => true)
      (crossing (.readWriteMultipleRegisters 0 2 0 [9]) (.writeSingleCoil 3 true))
    ∃ sys, run = some sys ∧
      let ops := (calls sys.history).map fun c => StoreOp.call c.1.2
      let results := (calls sys.history).map fun c => StoreResult.response c.2
      SlaveStore.run ⟨[], [], [3, 4], []⟩ ops = (results, sys.store) ∧
        (SlaveStore.memory ⟨[], [], [3, 4], []⟩).run ops = (results, sys.store.memory) := by
  intro run
  obtain ⟨sys, hrun, hhist⟩ : ∃ sys, run = some sys ∧ sys.history
      = [(0, .enter (1, .readWriteMultipleRegisters 0 2 0 [9]) ⟨[3, 4], 0, [9]⟩),
        (1, .call (2, .writeSingleCoil 3 true) (.ok (.writeSingleCoil 3 true))),
        (0, .leave (1, .readWriteMultipleRegisters 0 2 0 [9]) ⟨[3, 4], 0, [9]⟩
          (.ok (.readWriteMultipleRegisters [3, 4])))] := ⟨_, rfl, rfl⟩
  refine ⟨sys, hrun, tcpServer_linearizable .standard (fun _ _ => true) ⟨[], [], [3, 4], []⟩
    (crossing (.readWriteMultipleRegisters 0 2 0 [9]) (.writeSingleCoil 3 true)) sys hrun ?_⟩
  rw [hhist]
  -- only the first connection has a call of two sections, and only it writes registers
  refine undisturbed_of_single 0 ?_ ?_
  · intro i p held hm
    simp only [List.mem_cons, Prod.mk.injEq, reduceCtorEq, and_false, List.not_mem_nil, or_false]
      at hm
    exact hm.1
  · intro i e p hm hcon
    simp only [List.mem_cons, Prod.mk.injEq, List.not_mem_nil, or_false] at hm
    obtain ⟨rfl, rfl⟩ | ⟨rfl, rfl⟩ | ⟨rfl, rfl⟩ := hm
    · rfl
    · refine absurd ?_ hcon
      intro a _ _ ha
      exact absurd ha.2 (Nat.not_lt_zero a)
    · rfl

/-- **So is every run of connections that do not write what a read/write of another reads**,
whatever the schedule. -/
theorem tcpServer_linearizable_of_apart (cfg : TcpConfig) (writeOk : ℕ → ℕ → Bool)
    (s₀ : SlaveStore) (ls : List TcpServerStep) (sys : TcpServerState)
    (h : (TcpServerState.start s₀).run cfg writeOk ls = some sys)
    (hapart : ∀ i j p p', i ≠ j → sys.Sends i p → sys.Sends j p' →
      Apart p.2.registersHeld p'.2.registersWritten) :
    let ops := (calls sys.history).map fun c => StoreOp.call c.1.2
    let results := (calls sys.history).map fun c => StoreResult.response c.2
    s₀.run ops = (results, sys.store) ∧ s₀.memory.run ops = (results, sys.store.memory) := by
  have hinv := TcpServerState.run_inv TcpServerState.start_inv h
  exact hinv.linearize (hinv.undisturbed hapart)

/-- Registers 0 and 1 are read, register 2 is written by another connection, register 0 is
written. -/
theorem tcpServer_linearizable_of_apart_crossing :
    let run := (TcpServerState.start ⟨[], [], [3, 4], []⟩).run .standard (fun _ _ => true)
      (crossing (.readWriteMultipleRegisters 0 2 0 [9]) (.writeSingleRegister 2 5))
    ∃ sys, run = some sys ∧
      let ops := (calls sys.history).map fun c => StoreOp.call c.1.2
      let results := (calls sys.history).map fun c => StoreResult.response c.2
      SlaveStore.run ⟨[], [], [3, 4], []⟩ ops = (results, sys.store) ∧
        (SlaveStore.memory ⟨[], [], [3, 4], []⟩).run ops = (results, sys.store.memory) := by
  intro run
  obtain ⟨sys, hrun, hreqs⟩ : ∃ sys, run = some sys ∧
      (sys.tasks.map fun t => (t.loop.requests ++ t.current).filterMap RawRequest.dispatch)
        = [[(1, .readWriteMultipleRegisters 0 2 0 [9])], [(2, .writeSingleRegister 2 5)]] :=
    ⟨_, rfl, rfl⟩
  have hsends : ∀ i p, sys.Sends i p → i = 0 ∧ p = (1, .readWriteMultipleRegisters 0 2 0 [9]) ∨
      i = 1 ∧ p = (2, .writeSingleRegister 2 5) := by
    intro i p hp
    obtain ⟨ps, hps, hmem⟩ := hp.mem hreqs
    rcases i with _ | _ | i
    · cases hps
      exact .inl ⟨rfl, List.mem_singleton.1 hmem⟩
    · cases hps
      exact .inr ⟨rfl, List.mem_singleton.1 hmem⟩
    · cases hps
  refine ⟨sys, hrun, tcpServer_linearizable_of_apart .standard (fun _ _ => true)
    ⟨[], [], [3, 4], []⟩ (crossing (.readWriteMultipleRegisters 0 2 0 [9])
      (.writeSingleRegister 2 5)) sys hrun ?_⟩
  intro i j p p' hij hp hp'
  obtain ⟨rfl, rfl⟩ | ⟨rfl, rfl⟩ := hsends i p hp
  · obtain ⟨rfl, rfl⟩ | ⟨rfl, rfl⟩ := hsends j p' hp'
    · exact absurd rfl hij
    · rintro a - ha ⟨hge, -⟩
      exact absurd ha (Nat.not_lt.2 hge)
  · rintro a - ha
    exact absurd ha (Nat.not_lt_zero a)

end OmsModbus
