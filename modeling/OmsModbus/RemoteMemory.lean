/-
**A device as a memory that is called from afar.**

What the client, the line and the server come to together: the client uses the memory of the device
as if it were its own.  The line may lose requests and answers, and the client may try again, so a
request may be served more than once; but a request that is made again finds nothing left to do.  A
call that returns a response has thus taken effect once, and a call that fails has taken effect once
or not at all.  The response is the one of the only time, with one exception: a read/write of
registers (FC 23) that is made again reads what it has written itself.

Main definitions:

* `OmsModbus.Request.remote` — what a request does to a memory, as the client sees it;
* `OmsModbus.Link.call` — a call, with the loop around its attempts;
* `OmsModbus.Link.run` — a session: calls of the client, and what the device does in between;
* `OmsModbus.MemoryRun` — what a memory may do in a session;
* `OmsModbus.RemoteCall.GetsThrough` — a call whose line breaks, and in the end does not.

Main results:

* `OmsModbus.Request.remote_settles`, `OmsModbus.Request.remote_repeats` — a request that is made
  again;
* `OmsModbus.Link.call_ends` — where a call leaves the memory;
* `OmsModbus.lossy_session` — **a session over a line that loses frames is a session on a memory**;
* `OmsModbus.persistent_session` — **a session whose calls get through has the results it has on the
  memory**.
-/

import OmsModbus.AtLeastOnce
import OmsModbus.LossyLine
import OmsModbus.TcpLinearizable

set_option relaxedAutoImplicit false
set_option autoImplicit false

namespace OmsModbus

open AtLeastOnce

/-! ### A request that is made again -/

/-- What a request does to a memory, as the client sees it. -/
def Request.remote (q : Request) (m : Memory) : Response × Memory :=
  (visibleAnswer q (m.call q).1, (m.call q).2)

/-- Writing a range again changes nothing. -/
theorem Table.writeRange_writeRange {α : Type} (m : Table α) (addr : Address) (values : List α) :
    (m.writeRange addr values).writeRange addr values = m.writeRange addr values := by
  funext b
  unfold Table.writeRange
  split
  · cases values[(b - addr).toNat]? <;> rfl
  · rfl

/-- Masking a word again changes nothing. -/
theorem mask_mask (w a o : UInt16) :
    (((w &&& a) ||| (o &&& ~~~a)) &&& a) ||| (o &&& ~~~a) = (w &&& a) ||| (o &&& ~~~a) := by
  apply UInt16.eq_of_toBitVec_eq
  ext i hi
  simp only [UInt16.toBitVec_or, UInt16.toBitVec_and, UInt16.toBitVec_not, BitVec.getElem_or,
    BitVec.getElem_and, BitVec.getElem_not]
  cases w.toBitVec[i] <;> cases a.toBitVec[i] <;> cases o.toBitVec[i] <;> rfl

/-- **A request that is made again finds nothing left to do.** -/
theorem Request.remote_settles (q : Request) : Settles q.remote := by
  intro m
  cases q with
  | writeSingleCoil addr value | writeSingleRegister addr value =>
      simp only [remote, Memory.call, Function.update_idem]
  | writeMultipleCoils addr values | writeMultipleRegisters addr values =>
      simp only [remote, Memory.call, Table.writeRange_writeRange]
  | readWriteMultipleRegisters readAddr readQty addr values =>
      simp only [remote, Memory.call, Table.writeRange_writeRange]
  | maskWriteRegister addr andMask orMask =>
      simp only [remote, Memory.call, Function.update_self, mask_mask, Function.update_idem]
  | diagnostic sf data =>
      simp only [remote, Memory.call]
      split
      · rfl
      · split <;> rfl
  | _ => rfl

/-- **It is answered as before**, unless it reads registers that it writes. -/
theorem Request.remote_repeats {q : Request} (hq : q.Bounded)
    (hapart : Apart q.registersHeld q.registersWritten) : Repeats q.remote := by
  intro m
  cases q with
  | readWriteMultipleRegisters readAddr readQty addr values =>
      have hread : (m.holdingRegisters.writeRange addr values).readRange readAddr readQty.toNat
          = m.holdingRegisters.readRange readAddr readQty.toNat := by
        apply List.map_congr_left
        intro i hi
        have hlt := List.mem_range.1 hi
        refine Table.writeRange_of_not_mem _ ?_
        rw [Table.toNat_add hlt hq.1]
        exact hapart _ (Nat.le_add_right _ _) (Nat.add_lt_add_left hlt _)
      simp only [remote, Memory.call, hread]
  | diagnostic sf data =>
      simp only [remote, Memory.call]
      split
      · rfl
      · split <;> rfl
  | _ => rfl

/-! ### The loop around the attempts -/

section Loop

variable {ς : Type} {cfg : ReconnectConfig} {send : ς → Except ModbusError Response × ς}
  {rebuild : ς → Bool × ς} {exceededErr : String → ModbusError} {I : ς → Prop}
  {D : Response → ς → Prop}

/-- How a call ends: with a response, or where its attempts have left the transport. -/
def Ends (I : ς → Prop) (D : Response → ς → Prop) (res : Except ModbusError Response) (s : ς) :
    Prop :=
  match res with
  | .ok rsp => D rsp s
  | .error _ => I s

/-- **A loop whose attempts fail `n` times, and then do not, is through** if it may try as often. -/
theorem reconnectLoop_through {J : ℕ → ς → Prop} {n : ℕ}
    (hfail : ∀ j < n, ∀ s, J j s → ∃ e, (send s).1 = .error e ∧ isRetryable e = true ∧
      (rebuild (send s).2).1 = true ∧ J (j + 1) (rebuild (send s).2).2)
    (hlast : ∀ s, J n s → ∃ rsp, (send s).1 = .ok rsp ∧ D rsp (send s).2)
    (hmax : cfg.maxRetries = 0 ∨ n ≤ cfg.maxRetries) {j fuel rebuildFailures : ℕ} {s : ς}
    (hj : j ≤ n) (hfuel : n < j + fuel) (hs : J j s) :
    ∃ rsp s', reconnectLoop cfg send rebuild exceededErr fuel j rebuildFailures s
      = some (.ok rsp, s') ∧ D rsp s' := by
  induction fuel generalizing j rebuildFailures s with
  | zero => omega
  | succ fuel ih =>
      rw [reconnectLoop]
      rcases Nat.lt_or_eq_of_le hj with hlt | rfl
      · obtain ⟨e, he, hretry, hup, hnext⟩ := hfail j hlt s hs
        generalize send s = first at he hup hnext ⊢
        obtain ⟨outcome, s₁⟩ := first
        cases he
        simp only [hretry, not_true_eq_false, if_false]
        rw [if_neg (by omega)]
        generalize rebuild s₁ = rebuilt at hup hnext ⊢
        obtain ⟨up, s₂⟩ := rebuilt
        cases hup
        exact ih (by omega) (by omega) hnext
      · obtain ⟨rsp, hok, hdone⟩ := hlast s hs
        generalize send s = last at hok hdone ⊢
        obtain ⟨outcome, s₁⟩ := last
        cases hok
        exact ⟨rsp, s₁, rfl, hdone⟩

variable (hsend : ∀ s, I s → Ends I D (send s).1 (send s).2)
  (hrebuild : ∀ s, I s → I (rebuild s).2)
include hsend hrebuild

theorem reconnectLoop_ends_in {fuel failures rebuildFailures : ℕ} {s s' : ς}
    {res : Except ModbusError Response} (hs : I s)
    (h : reconnectLoop cfg send rebuild exceededErr fuel failures rebuildFailures s
      = some (res, s')) : Ends I D res s' := by
  induction fuel generalizing failures rebuildFailures s with
  | zero => cases h
  | succ fuel ih =>
      have hfirst := hsend s hs
      rw [reconnectLoop] at h
      generalize send s = first at h hfirst
      obtain ⟨outcome, s₁⟩ := first
      cases outcome with
      | ok rsp =>
          cases h
          exact hfirst
      | error e =>
          -- the attempt has failed, so what it has left is kept, whatever comes next
          have hkept : I (rebuild s₁).2 := hrebuild s₁ hfirst
          simp only at h
          split at h
          · cases h
            exact hfirst
          · split at h
            · cases h
              exact hfirst
            · generalize rebuild s₁ = rebuilt at h hkept
              obtain ⟨up, s₂⟩ := rebuilt
              cases up with
              | true => exact ih hkept h
              | false =>
                  simp only at h
                  split at h
                  · cases h
                    exact hkept
                  · exact ih hkept h

/-- **What failing attempts and rebuilds keep, a call keeps**, up to the attempt that ends it. -/
theorem runWithReconnect_ends_in {reconnect : Option ReconnectConfig} {fuel : ℕ} {s s' : ς}
    {res : Except ModbusError Response} (hs : I s)
    (h : runWithReconnect send rebuild exceededErr reconnect fuel s = some (res, s')) :
    Ends I D res s' := by
  cases reconnect with
  | none =>
      have hfirst := hsend s hs
      rw [runWithReconnect, Option.some.injEq] at h
      rw [h] at hfirst
      exact hfirst
  | some cfg => exact reconnectLoop_ends_in hsend hrebuild hs h

end Loop

/-! ### A call -/

/-- A call of a client: the request, how often it is tried, and what the attempts meet. -/
structure RemoteCall where
  slaveId : UInt8
  request : Request
  reconnect : Option ReconnectConfig
  passages : ℕ → Passage
  fuel : ℕ

/-- A request for a slave that understands it, over a line that loses frames but garbles none. -/
structure RemoteCall.Honest (c : RemoteCall) (t : Transport) : Prop where
  speaks : t.Speaks c.slaveId c.request
  passages : ∀ n, (c.passages n).Honest t c.slaveId c.request

section Link

variable {t : Transport}

/-- The next attempt of a call. -/
def RemoteCall.send (c : RemoteCall) (s : ℕ × Link t) :
    Except ModbusError Response × ℕ × Link t :=
  let (r, k) := s.2.attempt c.slaveId c.request (c.passages s.1)
  (r, s.1 + 1, k)

/-- The transport is rebuilt after an attempt, if that succeeds. -/
def RemoteCall.rebuild (c : RemoteCall) (s : ℕ × Link t) : Bool × ℕ × Link t :=
  let up := (c.passages (s.1 - 1)).rebuilt
  (up, s.1, if up then { s.2 with server := t.reopen s.2.server } else s.2)

/-- A call. -/
def Link.call (k : Link t) (c : RemoteCall) : Option (Except ModbusError Response × Link t) :=
  (runWithReconnect c.send c.rebuild t.exceededErr c.reconnect c.fuel (0, k)).map
    fun r => (r.1, r.2.2)

theorem Transport.reopen_waits {s : ServerLoop t.Tag SlaveStore} (hs : s.Waits) :
    (t.reopen s).Waits ∧ (t.reopen s).store = s.store := by
  cases t with
  | rtu => exact ⟨hs, rfl⟩
  | ascii => exact ⟨hs, rfl⟩
  | tcp client server => exact ⟨⟨rfl, rfl⟩, rfl⟩

/-- The server waits for requests, and its store stands for a memory in `M`. -/
def Link.At (M : Memory → Prop) (k : Link t) : Prop :=
  k.server.Waits ∧ M k.server.store.memory

/-- What a client sees of a call is what the request does to the memory. -/
theorem Request.remote_memory (s : SlaveStore) {q : Request} (hq : q.Bounded) :
    q.remote s.memory = (visibleAnswer q (s.call q).1, (s.call q).2.memory) := by
  obtain ⟨hrsp, hmem⟩ := call_memory s hq
  rw [remote, hrsp, hmem]

/-- One attempt of a call whose earlier attempts have failed. -/
theorem Link.attempt_tried {k : Link t} {m : Memory} {slaveId : UInt8} {q : Request} {p : Passage}
    (hspeaks : t.Speaks slaveId q) (hp : p.Honest t slaveId q)
    (hk : k.At (Tried q.remote m)) :
    Ends (Link.At (Tried q.remote m)) (fun rsp => Link.At (Answered q.remote m rsp))
      (k.attempt slaveId q p).1 (k.attempt slaveId q p).2 := by
  obtain ⟨hwaits, htried⟩ := hk
  have hremote := Request.remote_memory k.server.store
    (Request.tryFrom_inRange hspeaks.valid).2.bounded
  obtain ⟨hwaits', ⟨⟨e, he⟩, hstore | hstore⟩ | ⟨hok, hstore⟩⟩ := attempt_cases hwaits hspeaks hp
  · rw [he]
    refine ⟨hwaits', ?_⟩
    rw [hstore]
    exact htried
  · rw [he]
    refine ⟨hwaits', ?_⟩
    -- the store was asked, but the client does not know
    have hagain : (k.server.store.call q).2.memory = (q.remote m).2 := by
      rw [← htried.again q.remote_settles, hremote]
    rw [hstore, hagain]
    exact .run
  · rw [hok]
    refine ⟨hwaits', ?_⟩
    have hanswered := htried.answered q.remote_settles
    rw [hremote] at hanswered
    rw [hstore]
    exact hanswered

/-- The transport is rebuilt or not; the store stays where it is. -/
theorem RemoteCall.rebuild_at {c : RemoteCall} {M : Memory → Prop} {s : ℕ × Link t}
    (hs : s.2.At M) : (c.rebuild s).2.2.At M := by
  rw [RemoteCall.rebuild]
  simp only
  split
  · obtain ⟨hwaits, hstore⟩ := Transport.reopen_waits hs.1
    refine ⟨hwaits, ?_⟩
    rw [hstore]
    exact hs.2
  · exact hs

/-- **A call that is answered has been served once, as far as anyone can see**, and one that is not
has been served once or not at all. -/
theorem Link.call_ends {k k' : Link t} {c : RemoteCall} (hc : c.Honest t) (hk : k.server.Waits)
    {res : Except ModbusError Response} (h : k.call c = some (res, k')) :
    Ends (Link.At (Tried c.request.remote k.server.store.memory))
      (fun rsp => Link.At (Answered c.request.remote k.server.store.memory rsp)) res k' := by
  obtain ⟨⟨res', n, k''⟩, hrun, heq⟩ := Option.map_eq_some_iff.1 h
  cases heq
  have hsend : ∀ s : ℕ × Link t, s.2.At (Tried c.request.remote k.server.store.memory) →
      Ends (fun s => s.2.At (Tried c.request.remote k.server.store.memory))
        (fun rsp s => s.2.At (Answered c.request.remote k.server.store.memory rsp))
        (c.send s).1 (c.send s).2 := by
    intro s hs
    have hattempt := attempt_tried hc.speaks (hc.passages s.1) hs
    rw [RemoteCall.send]
    generalize s.2.attempt c.slaveId c.request (c.passages s.1) = r at hattempt ⊢
    obtain ⟨rsp | e, k₁⟩ := r <;> exact hattempt
  have hends := runWithReconnect_ends_in hsend (fun s hs => RemoteCall.rebuild_at hs) (s := (0, k))
    ⟨hk, .lost⟩ hrun
  cases res' with
  | ok rsp => exact hends
  | error e => exact hends

/-- **A call gets through**: the line breaks `n` times and then loses nothing, and the client tries
as often.  A request that reads registers it writes gets through at once. -/
structure RemoteCall.GetsThrough (c : RemoteCall) (t : Transport) (n : ℕ) : Prop where
  speaks : t.Speaks c.slaveId c.request
  breaks : ∀ j < n, (c.passages j).Breaks
  honest : ∀ j < n, (c.passages j).Honest t c.slaveId c.request
  last : (c.passages n).Lossless t c.slaveId c.request
  tries : n = 0 ∨ Apart c.request.registersHeld c.request.registersWritten ∧
    ∃ cfg, c.reconnect = some cfg ∧ (cfg.maxRetries = 0 ∨ n ≤ cfg.maxRetries)
  fuel : n < c.fuel

/-- The last attempt of a call that gets through. -/
theorem RemoteCall.GetsThrough.send_last {c : RemoteCall} {n : ℕ} (h : c.GetsThrough t n)
    {m : Memory} {k : Link t} (hk : k.At (Tried c.request.remote m)) :
    ∃ rsp, (c.send (n, k)).1 = .ok rsp ∧
      (c.send (n, k)).2.2.At (Answered c.request.remote m rsp) := by
  obtain ⟨hok, -⟩ := Link.attempt_lossless hk.1 h.speaks h.last
  have hattempt := Link.attempt_tried h.speaks h.last.honest hk
  rw [hok] at hattempt
  exact ⟨_, hok, hattempt⟩

/-- An attempt before that, and the rebuild behind it. -/
theorem RemoteCall.GetsThrough.send_broken {c : RemoteCall} {n j : ℕ} (h : c.GetsThrough t n)
    (hj : j < n) {m : Memory} {k : Link t} (hk : k.At (Tried c.request.remote m)) :
    ∃ e, (c.send (j, k)).1 = .error e ∧ isRetryable e = true ∧
      (c.rebuild (c.send (j, k)).2).1 = true ∧ (c.rebuild (c.send (j, k)).2).2.1 = j + 1 ∧
      (c.rebuild (c.send (j, k)).2).2.2.At (Tried c.request.remote m) := by
  have hfit := (encodeRequestInto_eq_ok.1 (Prod.ext h.last.asks.2.1 rfl)).1
  obtain ⟨e, he, hretry⟩ := Link.attempt_broken (k := k) h.speaks hfit (h.breaks j hj)
  have hattempt := Link.attempt_tried h.speaks (h.honest j hj) hk
  rw [he] at hattempt
  exact ⟨e, he, hretry, (h.breaks j hj).rebuilt, rfl, RemoteCall.rebuild_at hattempt⟩

/-- A call whose first attempt loses nothing. -/
theorem Link.call_first {k : Link t} {c : RemoteCall} (hk : k.server.Waits)
    (hspeaks : t.Speaks c.slaveId c.request)
    (hfirst : (c.passages 0).Lossless t c.slaveId c.request) (hfuel : 0 < c.fuel) :
    ∃ k', k.call c = some (.ok (c.request.remote k.server.store.memory).1, k') ∧
      k'.At (· = (c.request.remote k.server.store.memory).2) := by
  obtain ⟨hok, hwaits, hstore⟩ := attempt_lossless hk hspeaks hfirst
  rw [Request.remote_memory k.server.store (Request.tryFrom_inRange hspeaks.valid).2.bounded]
  refine ⟨(k.attempt c.slaveId c.request (c.passages 0)).2, ?_, hwaits, by rw [hstore]⟩
  have hsend : c.send (0, k) = (.ok (visibleAnswer c.request (k.server.store.call c.request).1),
      1, (k.attempt c.slaveId c.request (c.passages 0)).2) := by
    rw [RemoteCall.send, ← hok]
  obtain ⟨fuel, hn⟩ : ∃ fuel, c.fuel = fuel + 1 := ⟨c.fuel - 1, by omega⟩
  rw [call, hn, runWithReconnect_of_ok c.send c.rebuild t.exceededErr hsend]
  rfl

/-- **A call that gets through returns what the store answers.** -/
theorem Link.call_through {k : Link t} {c : RemoteCall} {n : ℕ} (hk : k.server.Waits)
    (h : c.GetsThrough t n) :
    ∃ k', k.call c = some (.ok (c.request.remote k.server.store.memory).1, k') ∧
      k'.At (· = (c.request.remote k.server.store.memory).2) := by
  rcases h.tries with rfl | ⟨hapart, cfg, hcfg, hmax⟩
  · exact call_first hk h.speaks h.last h.fuel
  · have hloop : ∃ rsp s', reconnectLoop cfg c.send c.rebuild t.exceededErr c.fuel 0 0 (0, k)
        = some (.ok rsp, s') ∧ s'.2.At (Answered c.request.remote k.server.store.memory rsp) := by
      refine reconnectLoop_through
        (J := fun j (s : ℕ × Link t) =>
          s.1 = j ∧ s.2.At (Tried c.request.remote k.server.store.memory))
        (D := fun rsp (s : ℕ × Link t) =>
          s.2.At (Answered c.request.remote k.server.store.memory rsp))
        ?_ ?_ hmax (Nat.zero_le n) (by rw [Nat.zero_add]; exact h.fuel) ⟨rfl, hk, .lost⟩
      · rintro j hj ⟨i, k₁⟩ ⟨rfl, hs⟩
        obtain ⟨e, he, hretry, hup, hnext, hat⟩ := h.send_broken hj hs
        exact ⟨e, he, hretry, hup, hnext, hat⟩
      · rintro ⟨i, k₁⟩ ⟨rfl, hs⟩
        exact h.send_last hs
    obtain ⟨rsp, ⟨i, k'⟩, hloop, hwaits, hanswered⟩ := hloop
    have hq := (Request.tryFrom_inRange h.speaks.valid).2.bounded
    have honly := hanswered.eq_of_repeats (Request.remote_repeats hq hapart)
    refine ⟨k', ?_, hwaits, congrArg Prod.snd honly⟩
    rw [call, hcfg, runWithReconnect, hloop, ← congrArg Prod.fst honly]
    rfl

end Link

/-! ### Sessions -/

/-- Something happens: the client makes a call, or the device uses its own store. -/
inductive SessionEvent
  | remote (c : RemoteCall)
  | device (op : StoreOp)

/-- What comes of it. -/
inductive SessionResult
  | remote (res : Except ModbusError Response)
  | device (r : StoreResult)

/-- A call over a line that loses frames but garbles none, or an operation in the address space. -/
def SessionEvent.Honest (t : Transport) : SessionEvent → Prop
  | .remote c => c.Honest t
  | .device op => op.Bounded

/-- A call that gets through, or an operation in the address space. -/
def SessionEvent.GetsThrough (t : Transport) : SessionEvent → Prop
  | .remote c => ∃ n, c.GetsThrough t n
  | .device op => op.Bounded

/-- What a memory may do: a request that is answered is made once, and a request that is not is made
once or not at all.  A request that reads registers it writes may be shown what it has written. -/
inductive MemoryStep (m : Memory) : SessionEvent → SessionResult → Memory → Prop
  | answered (c : RemoteCall) :
      MemoryStep m (.remote c) (.remote (.ok (c.request.remote m).1)) (c.request.remote m).2
  | readBack (c : RemoteCall) (h : ¬ Apart c.request.registersHeld c.request.registersWritten) :
      MemoryStep m (.remote c) (.remote (.ok (c.request.remote (c.request.remote m).2).1))
        (c.request.remote m).2
  | lost (c : RemoteCall) (e : ModbusError) : MemoryStep m (.remote c) (.remote (.error e)) m
  | unanswered (c : RemoteCall) (e : ModbusError) :
      MemoryStep m (.remote c) (.remote (.error e)) (c.request.remote m).2
  | device (op : StoreOp) : MemoryStep m (.device op) (.device (m.exec op).1) (m.exec op).2

/-- A run of such steps. -/
inductive MemoryRun : Memory → List SessionEvent → List SessionResult → Memory → Prop
  | nil (m : Memory) : MemoryRun m [] [] m
  | cons {m m' m'' : Memory} {e : SessionEvent} {r : SessionResult} {es : List SessionEvent}
      {rs : List SessionResult} (h : MemoryStep m e r m') (hrest : MemoryRun m' es rs m'') :
      MemoryRun m (e :: es) (r :: rs) m''

/-- A memory that answers every request. -/
def Memory.session (m : Memory) : List SessionEvent → List SessionResult × Memory
  | [] => ([], m)
  | .remote c :: es =>
      let (rsp, m) := c.request.remote m
      let (rs, m) := Memory.session m es
      (.remote (.ok rsp) :: rs, m)
  | .device op :: es =>
      let (r, m) := m.exec op
      let (rs, m) := Memory.session m es
      (.device r :: rs, m)

section Session

variable {t : Transport}

/-- A client that has just connected to a server with a store. -/
def Link.start (store : SlaveStore) : Link t := ⟨1, .idle store⟩

/-- The line with another store. -/
def Link.setStore (k : Link t) (store : SlaveStore) : Link t :=
  { k with server := { k.server with store := store } }

@[simp] theorem Link.setStore_store (k : Link t) (store : SlaveStore) :
    (k.setStore store).server.store = store := rfl

theorem Link.setStore_waits {k : Link t} (hk : k.server.Waits) (store : SlaveStore) :
    (k.setStore store).server.Waits := ⟨hk.buf, hk.running⟩

/-- One event of a session. -/
def Link.step (k : Link t) : SessionEvent → Option (SessionResult × Link t)
  | .remote c => (k.call c).map fun r => (.remote r.1, r.2)
  | .device op =>
      let (r, store) := k.server.store.exec op
      some (.device r, k.setStore store)

/-- A session: the calls of one client, one after the other, and between them what the device does
itself.  It is over when every call has returned. -/
def Link.run : Link t → List SessionEvent → Option (List SessionResult × Link t)
  | k, [] => some ([], k)
  | k, e :: es =>
      match k.step e with
      | none => none
      | some (r, k) => (Link.run k es).map fun rs => (r :: rs.1, rs.2)

/-- **One event on the line is one on the memory.** -/
theorem Link.step_memory {k k' : Link t} {e : SessionEvent} {r : SessionResult}
    (hk : k.server.Waits) (he : e.Honest t) (h : k.step e = some (r, k')) :
    k'.server.Waits ∧ MemoryStep k.server.store.memory e r k'.server.store.memory := by
  cases e with
  | remote c =>
      obtain ⟨⟨res, k₁⟩, hcall, heq⟩ := Option.map_eq_some_iff.1 h
      cases heq
      have hends := call_ends he hk hcall
      cases res with
      | ok rsp =>
          obtain ⟨hwaits, hanswered⟩ := hends
          refine ⟨hwaits, ?_⟩
          rw [hanswered.state]
          by_cases hapart : Apart c.request.registersHeld c.request.registersWritten
          · have hq := (Request.tryFrom_inRange he.speaks.valid).2.bounded
            have honly := hanswered.eq_of_repeats (Request.remote_repeats hq hapart)
            rw [show rsp = _ from congrArg Prod.fst honly]
            exact .answered c
          · obtain ⟨-, rfl | ⟨-, rfl⟩⟩ := hanswered
            · exact .answered c
            · exact .readBack c hapart
      | error e =>
          obtain ⟨hwaits, htried⟩ := hends
          refine ⟨hwaits, ?_⟩
          generalize k₁.server.store.memory = m at htried
          cases htried with
          | lost => exact .lost c e
          | run => exact .unanswered c e
  | device op =>
      obtain ⟨hres, hmem⟩ := exec_memory k.server.store he
      simp only [step, Option.some.injEq, Prod.mk.injEq] at h
      obtain ⟨rfl, rfl⟩ := h
      rw [hres, setStore_store, hmem]
      exact ⟨setStore_waits hk _, .device op⟩

/-- **A session over a line that loses frames is a session on a memory.**  Whatever is lost on the
way there or back, and however often the client tries again, a call that returns a response has
taken effect once, and its response is what the memory answers; a call that fails has taken effect
once or not at all. -/
theorem lossy_session (store : SlaveStore) (events : List SessionEvent)
    (results : List SessionResult) (k : Link t) (hevents : ∀ e ∈ events, e.Honest t)
    (h : (Link.start store : Link t).run events = some (results, k)) :
    MemoryRun store.memory events results k.server.store.memory := by
  suffices hgen : ∀ k₀ : Link t, k₀.server.Waits → k₀.run events = some (results, k) →
      MemoryRun k₀.server.store.memory events results k.server.store.memory from
    hgen (.start store) ⟨rfl, rfl⟩ h
  clear h
  induction events generalizing results with
  | nil =>
      intro k₀ _ h
      cases h
      exact .nil _
  | cons e es ih =>
      intro k₀ hk h
      rw [Link.run] at h
      cases hstep : k₀.step e with
      | none =>
          rw [hstep] at h
          cases h
      | some next =>
          obtain ⟨r, k₁⟩ := next
          rw [hstep] at h
          obtain ⟨⟨rs, k₂⟩, hrest, heq⟩ := Option.map_eq_some_iff.1 h
          cases heq
          obtain ⟨hwaits, hm⟩ := Link.step_memory hk (hevents e (List.mem_cons_self ..)) hstep
          exact .cons hm (ih rs (fun e he => hevents e (List.mem_cons_of_mem _ he)) k₁ hwaits hrest)

/-- A call to unit 1 that is made over a line that breaks once. -/
def RemoteCall.retried (q : Request) : RemoteCall :=
  ⟨1, q, some ⟨3⟩, fun n => if n = 0 then .reset else .direct, 2⟩

/-- The answer to a read/write is lost with the connection, and the client tries again: it reads the
register it has written itself. -/
theorem lossy_session_readBack :
    let c := RemoteCall.retried (.readWriteMultipleRegisters 0 2 0 [9])
    ∃ k, (Link.start ⟨[], [], [3, 4], []⟩ : Link (.tcp .gateway .gateway)).run
        [.remote c, .device (.readHoldingRegister 0)]
        = some ([.remote (.ok (.readWriteMultipleRegisters [9, 4])), .device (.register 9)], k) ∧
      MemoryRun (SlaveStore.memory ⟨[], [], [3, 4], []⟩)
        [.remote c, .device (.readHoldingRegister 0)]
        [.remote (.ok (.readWriteMultipleRegisters [9, 4])), .device (.register 9)]
        k.server.store.memory := by
  obtain ⟨k, hrun⟩ : ∃ k, (Link.start ⟨[], [], [3, 4], []⟩ : Link (.tcp .gateway .gateway)).run
      [.remote (.retried (.readWriteMultipleRegisters 0 2 0 [9])), .device (.readHoldingRegister 0)]
      = some ([.remote (.ok (.readWriteMultipleRegisters [9, 4])), .device (.register 9)], k) :=
    ⟨_, rfl⟩
  refine ⟨k, hrun, lossy_session _ _ _ k ?_ hrun⟩
  intro e he
  rcases List.mem_pair.1 he with rfl | rfl
  · refine ⟨⟨by decide, rfl, ?_⟩, ?_⟩
    · rintro client server ⟨⟩
      exact ⟨rfl, .inl rfl⟩
    · rintro (_ | n)
      · exact Passage.reset_honest _ _ _
      · exact (Passage.direct_lossless (by decide) (by decide)).honest
  · trivial

/-- **A session whose calls get through has the results it has on the memory**, whatever was lost
before they did. -/
theorem persistent_session (store : SlaveStore) (events : List SessionEvent)
    (hevents : ∀ e ∈ events, e.GetsThrough t) :
    ∃ k, (Link.start store : Link t).run events = some ((store.memory.session events).1, k) ∧
      k.server.store.memory = (store.memory.session events).2 := by
  suffices hgen : ∀ k₀ : Link t, k₀.server.Waits →
      ∃ k, k₀.run events = some ((k₀.server.store.memory.session events).1, k) ∧
        k.server.store.memory = (k₀.server.store.memory.session events).2 from
    hgen (.start store) ⟨rfl, rfl⟩
  induction events with
  | nil => exact fun k₀ _ => ⟨k₀, rfl, rfl⟩
  | cons e es ih =>
      intro k₀ hk
      have he := hevents e (List.mem_cons_self ..)
      have ih := ih fun e he => hevents e (List.mem_cons_of_mem _ he)
      cases e with
      | remote c =>
          obtain ⟨n, hn⟩ := he
          obtain ⟨k₁, hcall, hwaits, hmem⟩ := Link.call_through hk hn
          obtain ⟨k, hrun, hlast⟩ := ih k₁ hwaits
          rw [hmem] at hrun hlast
          refine ⟨k, ?_, hlast⟩
          rw [Link.run, Link.step, hcall]
          simp only [Option.map_some, hrun]
          rfl
      | device op =>
          obtain ⟨hres, hmem⟩ := exec_memory k₀.server.store he
          obtain ⟨k, hrun, hlast⟩ := ih (k₀.setStore (k₀.server.store.exec op).2)
            (Link.setStore_waits hk _)
          rw [Link.setStore_store, hmem] at hrun hlast
          refine ⟨k, ?_, hlast⟩
          rw [Link.run, Link.step]
          simp only [hrun, hres]
          rfl

/-- A register is written over a line that breaks at first, and read by the device. -/
theorem persistent_session_reset :
    let events := [.remote (.retried (.writeSingleRegister 0 9)), .device (.readHoldingRegister 0)]
    let m := SlaveStore.memory ⟨[], [], [3, 4], []⟩
    ∃ k, (Link.start ⟨[], [], [3, 4], []⟩ : Link .rtu).run events = some ((m.session events).1, k) ∧
      k.server.store.memory = (m.session events).2 := by
  intro events m
  refine persistent_session ⟨[], [], [3, 4], []⟩ events ?_
  intro e he
  rcases List.mem_pair.1 he with rfl | rfl
  · refine ⟨1, ⟨by decide, rfl, nofun⟩, ?_, ?_, ?_, ?_, by decide⟩
    · intro j hj
      obtain rfl : j = 0 := by omega
      exact Passage.reset_breaks
    · intro j hj
      obtain rfl : j = 0 := by omega
      exact Passage.reset_honest _ _ _
    · exact Passage.direct_lossless (by decide) (by decide)
    · refine .inr ⟨?_, ⟨3⟩, rfl, .inr (by decide)⟩
      rintro a - ha
      exact absurd ha (Nat.not_lt_zero a)
  · trivial

end Session

end OmsModbus
