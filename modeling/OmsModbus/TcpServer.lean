/-
**The TCP server with its tasks.**

The server accepts connections and gives each a task of its own; the tasks share one store.  They
meet in its locks only: a call of the store holds one lock for as long as it looks at the store or
changes it, except that a read/write of registers (FC 23) reads under one lock, lets it go, and
writes under another.  So a run of the server is some order of the sections under the locks, with
the reads, writes and decoding of the tasks anywhere in between.

A history keeps the sections in their order.  It says all there is to say about a run: the store
went through the sections one by one, and each connection went as it would have gone with any
service that gives the answers it got.

Main definitions:

* `OmsModbus.SlaveStore.enter`, `OmsModbus.SlaveStore.leave` — the sections of a call of the store;
* `OmsModbus.Task` — a connection and where its task stands;
* `OmsModbus.TcpServerState`, `OmsModbus.TcpServerState.step` — the server and its steps;
* `OmsModbus.Task.catchUp` — what a task makes of its current read when it is left to it.

Main results:

* `OmsModbus.storeSections_call` — the sections of a call make up the call;
* `OmsModbus.Task.work_catchUp` — a step of a task is a step of the plain handler;
* `OmsModbus.tcpServer_run` — **every run is an order of sections, and each connection is handled as
  by `handle_tcp_connection` alone** with the answers it got.
-/

import OmsModbus.SharedObject
import OmsModbus.SlaveStore
import OmsModbus.Tcp

set_option relaxedAutoImplicit false
set_option autoImplicit false

namespace OmsModbus

open SharedObject StreamFraming

/-! ### The sections of the store -/

/-- What the service gives back. -/
abbrev Answer := Except Exception Response

/-- What a read/write of registers holds on to between its two locks. -/
structure HeldRead where
  regs : List UInt16
  writeAddr : Address
  values : List UInt16
  deriving DecidableEq

/-- The first section of a call: the whole call, but for FC 23, which lets its read lock go. -/
def SlaveStore.enter (s : SlaveStore) : Request → (Answer × SlaveStore) ⊕ HeldRead
  | .readWriteMultipleRegisters readAddr readQty writeAddr values =>
      .inr ⟨s.readHoldingRange readAddr readQty, writeAddr, values⟩
  | q => .inl (s.call q)

/-- The second section of FC 23. -/
def SlaveStore.leave (s : SlaveStore) (held : HeldRead) : Answer × SlaveStore :=
  (.ok (.readWriteMultipleRegisters held.regs),
    { s with holdingRegisters := writeRegisters s.holdingRegisters held.writeAddr held.values })

/-- The store with the sections of its calls. -/
def storeSections : Sections SlaveStore (UInt8 × Request) Answer HeldRead where
  enter q s := s.enter q.2
  leave held s := s.leave held

variable {σ τ : Type}

/-- A service that is called by one client only: every call is one section. -/
def Service.sections (service : Service σ) : Sections σ (UInt8 × Request) Answer Empty where
  enter q s := .inl (service.call q.1 q.2 s)
  leave k _ := k.elim

theorem Service.sections_call (service : Service σ) (q : UInt8 × Request) (s : σ) :
    service.sections.call q s = service.call q.1 q.2 s := rfl

/-- **The sections of a call make up the call.** -/
theorem storeSections_call (q : UInt8 × Request) (s : SlaveStore) :
    storeSections.call q s = storeService.sections.call q s := by
  obtain ⟨slave, q⟩ := q
  cases q <;> rfl

/-! ### Handling a request in pieces -/

/-- The response is written and the request is done with. -/
def ServerLoop.reply (P : Protocol τ) (writeOk : ℕ → Bool) (s : ServerLoop τ σ) (x : RawRequest τ)
    (rsp : Option Bytes) : ServerLoop τ σ :=
  let s := { s with requests := s.requests ++ [x] }
  match rsp with
  | none => s
  | some data =>
    if writeOk s.written.length then { s with written := s.written ++ [P.encode x.tag data] }
    else { s with running := false }

/-- The loop with a store. -/
def ServerLoop.withStore (s : ServerLoop τ Unit) (a : σ) : ServerLoop τ σ :=
  ⟨s.buf, a, s.requests, s.written, s.running⟩

section Reply

variable (P : Protocol τ) (writeOk : ℕ → Bool) (s : ServerLoop τ Unit) (x : RawRequest τ)

@[simp] theorem ServerLoop.withStore_buf (a : σ) : (s.withStore a).buf = s.buf := rfl

@[simp] theorem ServerLoop.withStore_running (a : σ) : (s.withStore a).running = s.running := rfl

@[simp] theorem ServerLoop.withStore_setBuf (a : σ) (b : Bytes) :
    (s.withStore a).setBuf b = (s.setBuf b).withStore a := rfl

/-- Serving a request is calling the service and replying. -/
theorem ServerLoop.serve_withStore (service : Service σ) (a : σ) :
    ServerLoop.serve P service writeOk (s.withStore a) x
      = ServerLoop.reply P writeOk
          (s.withStore (processServerRequest x.pdu x.slaveId service a).2) x
          (processServerRequest x.pdu x.slaveId service a).1 := by
  unfold ServerLoop.serve ServerLoop.reply
  rfl

theorem ServerLoop.reply_withStore (a : σ) (rsp : Option Bytes) :
    ServerLoop.reply P writeOk (s.withStore a) x rsp
      = (ServerLoop.reply P writeOk s x rsp).withStore a := by
  unfold ServerLoop.reply
  cases rsp with
  | none => rfl
  | some data =>
      by_cases hk : writeOk s.written.length = true <;> simp [ServerLoop.withStore, hk]

@[simp] theorem ServerLoop.reply_buf (rsp : Option Bytes) :
    (ServerLoop.reply P writeOk s x rsp).buf = s.buf := by
  unfold ServerLoop.reply
  cases rsp with
  | none => rfl
  | some data =>
      simp only
      split <;> rfl

@[simp] theorem ServerLoop.reply_requests (rsp : Option Bytes) :
    (ServerLoop.reply P writeOk s x rsp).requests = s.requests ++ [x] := by
  unfold ServerLoop.reply
  cases rsp with
  | none => rfl
  | some data =>
      simp only
      split <;> rfl

end Reply

/-! ### Tasks -/

/-- Where a task stands: it waits for a read, it looks for a request in its buffer, it is between
the two locks of FC 23, or it has an answer to send. -/
inductive TaskState
  | reading
  | parsing
  | between (x : RawRequest UInt16) (slave : UInt8) (q : Request) (held : HeldRead)
  | answering (x : RawRequest UInt16) (rsp : Option Bytes)
  deriving DecidableEq

/-- The task of a connection: the variables of `handle_tcp_connection`, and the reads it has had. -/
structure Task where
  loop : ServerLoop UInt16 Unit
  state : TaskState
  reads : List (Except IoError Bytes)

/-- The task of a connection that has just been accepted. -/
def Task.new : Task := ⟨.idle (), .reading, []⟩

/-- A section as the history keeps it. -/
abbrev StoreEvent := Event (UInt8 × Request) Answer HeldRead

/-- A read comes back.  The task returns on the end of the stream and on an error. -/
def Task.read (t : Task) (r : Except IoError Bytes) : Option Task :=
  if t.state = .reading ∧ t.loop.running = true then
    match r with
    | .error _ => some ⟨{ t.loop with running := false }, .reading, t.reads ++ [r]⟩
    | .ok bs =>
      if bs = [] then some ⟨{ t.loop with running := false }, .reading, t.reads ++ [r]⟩
      else some ⟨t.loop.setBuf (t.loop.buf ++ bs), .parsing, t.reads ++ [r]⟩
  else none

/-- The next thing a task does by itself, with the section it goes through, if any. -/
def Task.work (cfg : TcpConfig) (writeOk : ℕ → Bool) (t : Task) (s : SlaveStore) :
    Option (Task × Option StoreEvent × SlaveStore) :=
  match t.state with
  | .reading => none
  | .parsing =>
    match tryParseTcpFrame t.loop.buf with
    | none =>
      let loop := if tcpDiscard t.loop.buf then t.loop.setBuf [] else t.loop
      some (⟨loop, .reading, t.reads⟩, none, s)
    | some (x, consumed) =>
      let loop := t.loop.setBuf (t.loop.buf.drop consumed)
      match x.dispatch with
      | none => some (⟨loop, .answering x none, t.reads⟩, none, s)
      | some (slave, q) =>
        match s.enter q with
        | .inl (res, s) =>
            some (⟨loop, .answering x (encodedAnswer slave q res), t.reads⟩,
              some (.call (slave, q) res), s)
        | .inr held =>
            some (⟨loop, .between x slave q held, t.reads⟩, some (.enter (slave, q) held), s)
  | .between x slave q held =>
    let (res, s) := s.leave held
    some (⟨t.loop, .answering x (encodedAnswer slave q res), t.reads⟩,
      some (.leave (slave, q) held res), s)
  | .answering x rsp =>
    let loop := ServerLoop.reply (tcpProtocol cfg) writeOk t.loop x rsp
    some (⟨loop, if loop.running then .parsing else .reading, t.reads⟩, none, s)

/-! ### The server -/

/-- The store, the tasks of the connections accepted so far, and the sections in their order. -/
structure TcpServerState where
  store : SlaveStore
  tasks : List Task
  history : List (ℕ × StoreEvent)

/-- A server nobody has connected to. -/
def TcpServerState.start (s : SlaveStore) : TcpServerState := ⟨s, [], []⟩

/-- What can happen next: a connection is accepted, the read of a connection comes back, a task goes
on. -/
inductive TcpServerStep
  | accept
  | read (i : ℕ) (r : Except IoError Bytes)
  | work (i : ℕ)
  deriving DecidableEq

namespace TcpServerState

/-- One step, if it is possible.  `writeOk i` are the outcomes of the writes of connection `i`. -/
def step (cfg : TcpConfig) (writeOk : ℕ → ℕ → Bool) (sys : TcpServerState) :
    TcpServerStep → Option TcpServerState
  | .accept => some { sys with tasks := sys.tasks ++ [.new] }
  | .read i r =>
    match sys.tasks[i]? with
    | none => none
    | some t =>
      match t.read r with
      | none => none
      | some t => some { sys with tasks := sys.tasks.set i t }
  | .work i =>
    match sys.tasks[i]? with
    | none => none
    | some t =>
      match t.work cfg (writeOk i) sys.store with
      | none => none
      | some (t, e, s) =>
          some ⟨s, sys.tasks.set i t, sys.history ++ e.toList.map fun e => (i, e)⟩

/-- A run of the server. -/
def run (cfg : TcpConfig) (writeOk : ℕ → ℕ → Bool) :
    TcpServerState → List TcpServerStep → Option TcpServerState
  | sys, [] => some sys
  | sys, l :: ls =>
    match sys.step cfg writeOk l with
    | none => none
    | some sys => run cfg writeOk sys ls

end TcpServerState

/-! ### One task -/

/-- The end of a read: what cannot be the start of a frame is given up. -/
def ServerLoop.afterRead (s : ServerLoop UInt16 σ) : ServerLoop UInt16 σ :=
  if s.running && tcpDiscard s.buf then s.setBuf [] else s

section Task

variable (S : Service σ) (cfg : TcpConfig) (writeOk : ℕ → Bool)

/-- The rest of a read after a request. -/
def ServerLoop.goOn (s : ServerLoop UInt16 σ) : ServerLoop UInt16 σ :=
  (if s.running then serveBuffer (tcpProtocol cfg) S writeOk s else s).afterRead

/-- What a task makes of its current read when it is left to it, with the service `S`. -/
def Task.catchUp (t : Task) (a : σ) : ServerLoop UInt16 σ :=
  match t.state with
  | .reading => t.loop.withStore a
  | .parsing => (serveBuffer (tcpProtocol cfg) S writeOk (t.loop.withStore a)).afterRead
  | .between x _ _ _ =>
      ServerLoop.goOn S cfg writeOk
        (ServerLoop.serve (tcpProtocol cfg) S writeOk (t.loop.withStore a) x)
  | .answering x rsp =>
      ServerLoop.goOn S cfg writeOk
        (ServerLoop.reply (tcpProtocol cfg) writeOk (t.loop.withStore a) x rsp)

/-- The request a task has taken off its buffer and not answered yet. -/
def Task.current (t : Task) : List (RawRequest UInt16) :=
  match t.state with
  | .between x _ _ _ | .answering x _ => [x]
  | _ => []

/-- The call a task is in. -/
def Task.inCall (t : Task) : Option ((UInt8 × Request) × HeldRead) :=
  match t.state with
  | .between _ slave q held => some ((slave, q), held)
  | _ => none

/-- A task that is in the middle of something is running, and serves what it took off its buffer. -/
def Task.Ok (t : Task) : Prop :=
  match t.state with
  | .reading => True
  | .parsing => t.loop.running = true
  | .between x slave q _ => t.loop.running = true ∧ x.dispatch = some (slave, q)
  | .answering _ _ => t.loop.running = true

theorem Task.new_ok : Task.new.Ok := trivial

variable {S cfg writeOk}

/-- A task that has had a read is where the plain handler is. -/
theorem Task.read_catchUp {t t' : Task} {r : Except IoError Bytes} (h : t.read r = some t')
    (a : σ) :
    t'.catchUp S cfg writeOk a = onTcpRead S cfg writeOk (t.catchUp S cfg writeOk a) r := by
  unfold Task.read at h
  split at h
  · next hstate =>
    obtain ⟨hreading, hrun⟩ := hstate
    have ht : t.catchUp S cfg writeOk a = t.loop.withStore a := by
      rw [Task.catchUp, hreading]
    rw [ht]
    unfold onTcpRead
    rw [if_pos (by simpa using hrun)]
    cases r with
    | error e =>
        cases h
        rfl
    | ok bs =>
        simp only at h ⊢
        by_cases hbs : bs = []
        · rw [if_pos hbs] at h ⊢
          cases h
          rfl
        · rw [if_neg hbs] at h ⊢
          cases h
          rfl
  · cases h

/-- What having a read leaves as it is. -/
theorem Task.read_fields {t t' : Task} {r : Except IoError Bytes} (h : t.read r = some t') :
    t'.reads = t.reads ++ [r] ∧ t'.Ok ∧ t'.inCall = none ∧ t.inCall = none ∧
      t'.loop.requests = t.loop.requests ∧ t'.current = t.current := by
  unfold Task.read at h
  split at h
  · next hstate =>
    obtain ⟨hreading, hrun⟩ := hstate
    have hcall : t.inCall = none := by
      rw [Task.inCall, hreading]
    have hcur : t.current = [] := by
      rw [Task.current, hreading]
    rw [hcall, hcur]
    cases r with
    | error e =>
        cases h
        exact ⟨rfl, trivial, rfl, rfl, rfl, rfl⟩
    | ok bs =>
        simp only at h
        split at h
        · cases h
          exact ⟨rfl, trivial, rfl, rfl, rfl, rfl⟩
        · cases h
          exact ⟨rfl, hrun, rfl, rfl, rfl, rfl⟩
  · cases h

end Task

/-- What `S` makes of the end of a section: the call that ends with it gets its answer. -/
def Service.Gives (S : Service σ) (e : Option StoreEvent) (a a' : σ) : Prop :=
  match e.bind Event.completes with
  | none => a' = a
  | some (q, res) => S.call q.1 q.2 a = (res, a')

section Work

variable {S : Service σ} {cfg : TcpConfig} {writeOk : ℕ → Bool}

/-- A parser that finds nothing ends the read. -/
private theorem afterRead_serveBuffer_none {s : ServerLoop UInt16 σ}
    (h : tryParseTcpFrame s.buf = none) :
    (serveBuffer (tcpProtocol cfg) S writeOk s).afterRead = s.afterRead := by
  have hparse : (tcpProtocol cfg).parse s.buf = none := h
  rw [serveBuffer_none hparse]

/-- A parser that finds a request has it served. -/
private theorem afterRead_serveBuffer_some {s : ServerLoop UInt16 σ} {x : RawRequest UInt16} {n : ℕ}
    (h : tryParseTcpFrame s.buf = some (x, n)) :
    (serveBuffer (tcpProtocol cfg) S writeOk s).afterRead
      = ServerLoop.goOn S cfg writeOk
          (ServerLoop.serve (tcpProtocol cfg) S writeOk (s.setBuf (s.buf.drop n)) x) := by
  have hparse : (tcpProtocol cfg).parse s.buf = some (x, n) := h
  rw [serveBuffer_some hparse, ServerLoop.goOn]

/-- A request that leads to a call is served with the answer of the call. -/
private theorem serve_of_call {s : ServerLoop UInt16 Unit} {x : RawRequest UInt16} {slave : UInt8}
    {q : Request} {res : Answer} {a a' : σ} (hx : x.dispatch = some (slave, q))
    (hcall : S.call slave q a = (res, a')) :
    ServerLoop.serve (tcpProtocol cfg) S writeOk (s.withStore a) x
      = ServerLoop.reply (tcpProtocol cfg) writeOk (s.withStore a') x
          (encodedAnswer slave q res) := by
  rw [ServerLoop.serve_withStore, processServerRequest_eq_dispatch, hx]
  simp only [hcall]

/-- **A step of a task is a step of the plain handler**, whatever the service, when the call that
ends with the step gets the same answer. -/
theorem Task.work_catchUp {t t' : Task} {s s' : SlaveStore} {e : Option StoreEvent} (hok : t.Ok)
    (h : t.work cfg writeOk s = some (t', e, s')) {a a' : σ} (hgives : S.Gives e a a') :
    t.catchUp S cfg writeOk a = t'.catchUp S cfg writeOk a' := by
  obtain ⟨loop, state, reads⟩ := t
  cases state with
  | reading => cases h
  | parsing =>
      have hrun : loop.running = true := hok
      simp only [Task.work] at h
      simp only [Task.catchUp]
      cases hparse : tryParseTcpFrame loop.buf with
      | none =>
          rw [hparse] at h
          cases h
          obtain rfl : a' = a := hgives
          rw [afterRead_serveBuffer_none (s := loop.withStore a') hparse]
          unfold ServerLoop.afterRead
          simp only [ServerLoop.withStore_running, ServerLoop.withStore_buf, hrun, Bool.true_and]
          split <;> rfl
      | some r =>
          obtain ⟨x, n⟩ := r
          rw [hparse] at h
          rw [afterRead_serveBuffer_some (s := loop.withStore a) hparse]
          simp only [ServerLoop.withStore_buf, ServerLoop.withStore_setBuf] at h ⊢
          cases hx : x.dispatch with
          | none =>
              rw [hx] at h
              cases h
              obtain rfl : a' = a := hgives
              rw [ServerLoop.serve_withStore, processServerRequest_eq_dispatch, hx]
          | some p =>
              obtain ⟨slave, q⟩ := p
              rw [hx] at h
              simp only at h
              cases henter : s.enter q with
              | inl r =>
                  rw [henter] at h
                  cases h
                  rw [serve_of_call hx hgives]
              | inr held =>
                  rw [henter] at h
                  cases h
                  obtain rfl : a' = a := hgives
                  rfl
  | between x slave q held =>
      obtain ⟨hrun, hx⟩ : loop.running = true ∧ x.dispatch = some (slave, q) := hok
      cases h
      simp only [Task.catchUp]
      rw [serve_of_call hx hgives]
  | answering x rsp =>
      cases h
      obtain rfl : a' = a := hgives
      simp only [Task.catchUp, ServerLoop.goOn, ServerLoop.reply_withStore,
        ServerLoop.withStore_running]
      by_cases hrun : (ServerLoop.reply (tcpProtocol cfg) writeOk loop x rsp).running = true
      · rw [if_pos hrun, if_pos hrun]
      · rw [if_neg hrun, if_neg hrun, ServerLoop.afterRead, ServerLoop.withStore_running]
        simp only [Bool.not_eq_true] at hrun
        rw [hrun, Bool.false_and]
        rfl

/-- What a section of a task is, and what the task keeps. -/
theorem Task.work_fields {t t' : Task} {s s' : SlaveStore} {e : Option StoreEvent} (hok : t.Ok)
    (h : t.work cfg writeOk s = some (t', e, s')) :
    t'.Ok ∧ t'.reads = t.reads ∧
      (t'.loop.requests ++ t'.current).filterMap RawRequest.dispatch
        = (t.loop.requests ++ t.current).filterMap RawRequest.dispatch
          ++ (e.bind Event.begins).toList ∧
      (e = none → s' = s ∧ t'.inCall = none ∧ t.inCall = none) ∧
      ∀ ev, e = some ev → ev.Follows t.inCall ∧ storeSections.Takes ev s s' ∧
        t'.inCall = ev.leaves := by
  obtain ⟨loop, state, reads⟩ := t
  cases state with
  | reading => cases h
  | parsing =>
      have hrun : loop.running = true := hok
      simp only [Task.work] at h
      cases hparse : tryParseTcpFrame loop.buf with
      | none =>
          rw [hparse] at h
          cases h
          refine ⟨trivial, rfl, ?_, fun _ => ⟨rfl, rfl, rfl⟩, fun ev hev => by cases hev⟩
          simp only [Task.current, List.append_nil]
          split <;> simp
      | some r =>
          obtain ⟨x, n⟩ := r
          rw [hparse] at h
          simp only at h
          cases hx : x.dispatch with
          | none =>
              rw [hx] at h
              cases h
              exact ⟨hrun, rfl, by simp [Task.current, hx], fun _ => ⟨rfl, rfl, rfl⟩,
                fun ev hev => by cases hev⟩
          | some p =>
              obtain ⟨slave, q⟩ := p
              rw [hx] at h
              simp only at h
              cases henter : s.enter q with
              | inl r =>
                  rw [henter] at h
                  cases h
                  refine ⟨hrun, rfl, by simp [Task.current, hx, Event.begins],
                    (fun he => by cases he), ?_⟩
                  rintro _ ⟨⟩
                  exact ⟨rfl, henter, rfl⟩
              | inr held =>
                  rw [henter] at h
                  cases h
                  refine ⟨⟨hrun, hx⟩, rfl, by simp [Task.current, hx, Event.begins],
                    (fun he => by cases he), ?_⟩
                  rintro _ ⟨⟩
                  exact ⟨rfl, ⟨henter, rfl⟩, rfl⟩
  | between x slave q held =>
      obtain ⟨hrun, hx⟩ : loop.running = true ∧ x.dispatch = some (slave, q) := hok
      cases h
      refine ⟨hrun, rfl, by simp [Task.current, Event.begins], (fun he => by cases he), ?_⟩
      rintro _ ⟨⟩
      exact ⟨rfl, rfl, rfl⟩
  | answering x rsp =>
      simp only [Task.work] at h
      cases hrun : (ServerLoop.reply (tcpProtocol cfg) writeOk loop x rsp).running with
      | true =>
          rw [hrun] at h
          cases h
          exact ⟨hrun, rfl, by simp [Task.current], fun _ => ⟨rfl, rfl, rfl⟩,
            fun ev hev => by cases hev⟩
      | false =>
          rw [hrun] at h
          cases h
          exact ⟨trivial, rfl, by simp [Task.current], fun _ => ⟨rfl, rfl, rfl⟩,
            fun ev hev => by cases hev⟩

end Work

/-! ### Runs -/

/-- What holds after any run of a server with the store `s₀`. -/
structure TcpServerState.Inv (cfg : TcpConfig) (writeOk : ℕ → ℕ → Bool) (s₀ : SlaveStore)
    (sys : TcpServerState) : Prop where
  replays : Replays storeSections s₀ sys.history sys.store
  fresh : ∀ i, sys.tasks.length ≤ i → own i sys.history = []
  ok : ∀ (i : ℕ) (t : Task), sys.tasks[i]? = some t → t.Ok
  inCall : ∀ (i : ℕ) (t : Task), sys.tasks[i]? = some t →
    underway sys.history i = t.inCall
  requests : ∀ (i : ℕ) (t : Task), sys.tasks[i]? = some t →
    (t.loop.requests ++ t.current).filterMap RawRequest.dispatch = begun i sys.history
  handled : ∀ (i : ℕ) (t : Task), sys.tasks[i]? = some t →
    ∀ {τ : Type} (S : Service τ) (a a' : τ),
    S.sections.run a ((callsOf i sys.history).map Prod.fst)
        = ((callsOf i sys.history).map Prod.snd, a') →
      handleTcpConnection S cfg (writeOk i) (.idle a) t.reads = t.catchUp S cfg (writeOk i) a'

section Run

variable {cfg : TcpConfig} {writeOk : ℕ → ℕ → Bool} {s₀ : SlaveStore} {sys sys' : TcpServerState}

theorem TcpServerState.start_inv : (TcpServerState.start s₀).Inv cfg writeOk s₀ where
  replays := .nil
  fresh _ _ := rfl
  ok _ _ h := by cases h
  inCall _ _ h := by cases h
  requests _ _ h := by cases h
  handled _ _ h := by cases h

/-- A client without sections has made no calls. -/
private theorem callsOf_of_own {i : ℕ} {h : List (ℕ × StoreEvent)} (hown : own i h = []) :
    callsOf i h = [] ∧ underway h i = none ∧ begun i h = [] := by
  have hcalls : callsOf i h = [] := by
    rw [callsOf, hown]
    rfl
  have hpend : underway h i = none := by
    rw [← underway_own, hown]
    rfl
  exact ⟨hcalls, hpend, by rw [begun, hcalls, hpend]; rfl⟩

/-- A new connection has done nothing yet. -/
theorem TcpServerState.Inv.accept (hinv : sys.Inv cfg writeOk s₀) :
    TcpServerState.Inv cfg writeOk s₀ { sys with tasks := sys.tasks ++ [.new] } := by
  have hcases : ∀ (i : ℕ) (t : Task), (sys.tasks ++ [Task.new])[i]? = some t →
      sys.tasks[i]? = some t ∨ own i sys.history = [] ∧ t = .new := by
    intro i t hi
    rcases Nat.lt_or_ge i sys.tasks.length with hlt | hge
    · rw [List.getElem?_append_left hlt] at hi
      exact .inl hi
    · rw [List.getElem?_append_right hge] at hi
      have hmem : t ∈ [Task.new] := List.mem_of_getElem? hi
      exact .inr ⟨hinv.fresh i hge, List.mem_singleton.1 hmem⟩
  refine ⟨hinv.replays, ?_, ?_, ?_, ?_, ?_⟩
  · intro i hi
    rw [List.length_append] at hi
    exact hinv.fresh i (by omega)
  · intro i t hi
    obtain hold | ⟨-, rfl⟩ := hcases i t hi
    · exact hinv.ok i t hold
    · exact Task.new_ok
  · intro i t hi
    obtain hold | ⟨hown, rfl⟩ := hcases i t hi
    · exact hinv.inCall i t hold
    · exact (callsOf_of_own hown).2.1
  · intro i t hi
    obtain hold | ⟨hown, rfl⟩ := hcases i t hi
    · exact hinv.requests i t hold
    · exact (callsOf_of_own hown).2.2.symm
  · intro i t hi τ S a a' hrun
    obtain hold | ⟨hown, rfl⟩ := hcases i t hi
    · exact hinv.handled i t hold S a a' hrun
    · rw [(callsOf_of_own hown).1] at hrun
      cases hrun
      rfl

/-- The tasks after a step of one of them. -/
private theorem getElem?_set_cases {ts : List Task} {i j : ℕ} {t u v : Task}
    (hi : ts[i]? = some t) (h : (ts.set i u)[j]? = some v) :
    j = i ∧ v = u ∨ j ≠ i ∧ ts[j]? = some v := by
  obtain ⟨hlt, -⟩ := List.getElem?_eq_some_iff.1 hi
  by_cases hj : j = i
  · subst hj
    rw [List.getElem?_set_self hlt] at h
    exact .inl ⟨rfl, (Option.some.inj h).symm⟩
  · rw [List.getElem?_set_ne (Ne.symm hj)] at h
    exact .inr ⟨hj, h⟩

theorem TcpServerState.Inv.read (hinv : sys.Inv cfg writeOk s₀) {i : ℕ} {t t' : Task}
    {r : Except IoError Bytes} (hi : sys.tasks[i]? = some t) (hread : t.read r = some t') :
    TcpServerState.Inv cfg writeOk s₀ { sys with tasks := sys.tasks.set i t' } := by
  obtain ⟨hreads, hok, hcall', hcall, hreqs, hcur⟩ := Task.read_fields hread
  refine ⟨hinv.replays, ?_, ?_, ?_, ?_, ?_⟩
  · intro j hj
    rw [List.length_set] at hj
    exact hinv.fresh j hj
  · intro j u hj
    obtain ⟨rfl, rfl⟩ | ⟨-, hold⟩ := getElem?_set_cases hi hj
    · exact hok
    · exact hinv.ok j u hold
  · intro j u hj
    obtain ⟨rfl, rfl⟩ | ⟨-, hold⟩ := getElem?_set_cases hi hj
    · rw [hcall', ← hcall]
      exact hinv.inCall j t hi
    · exact hinv.inCall j u hold
  · intro j u hj
    obtain ⟨rfl, rfl⟩ | ⟨-, hold⟩ := getElem?_set_cases hi hj
    · rw [hreqs, hcur]
      exact hinv.requests j t hi
    · exact hinv.requests j u hold
  · intro j u hj τ S a a' hrun
    obtain ⟨rfl, rfl⟩ | ⟨-, hold⟩ := getElem?_set_cases hi hj
    · have hhandled := hinv.handled j t hi S a a' hrun
      rw [Task.read_catchUp hread, ← hhandled, hreads]
      exact List.foldl_concat ..
    · exact hinv.handled j u hold S a a' hrun

/-- A step of a task without a section. -/
theorem TcpServerState.Inv.local (hinv : sys.Inv cfg writeOk s₀) {i : ℕ} {t t' : Task}
    {s : SlaveStore} (hi : sys.tasks[i]? = some t)
    (hwork : t.work cfg (writeOk i) sys.store = some (t', none, s)) :
    TcpServerState.Inv cfg writeOk s₀ ⟨s, sys.tasks.set i t', sys.history⟩ := by
  obtain ⟨hok, hreads, hreqs, hnone, -⟩ := Task.work_fields (hinv.ok i t hi) hwork
  obtain ⟨rfl, hcall', hcall⟩ := hnone rfl
  refine ⟨hinv.replays, ?_, ?_, ?_, ?_, ?_⟩
  · intro j hj
    rw [List.length_set] at hj
    exact hinv.fresh j hj
  · intro j u hj
    obtain ⟨rfl, rfl⟩ | ⟨-, hold⟩ := getElem?_set_cases hi hj
    · exact hok
    · exact hinv.ok j u hold
  · intro j u hj
    obtain ⟨rfl, rfl⟩ | ⟨-, hold⟩ := getElem?_set_cases hi hj
    · rw [hcall', ← hcall]
      exact hinv.inCall j t hi
    · exact hinv.inCall j u hold
  · intro j u hj
    obtain ⟨rfl, rfl⟩ | ⟨-, hold⟩ := getElem?_set_cases hi hj
    · rw [hreqs, hinv.requests j t hi]
      exact List.append_nil _
    · exact hinv.requests j u hold
  · intro j u hj τ S a a' hrun
    obtain ⟨rfl, rfl⟩ | ⟨-, hold⟩ := getElem?_set_cases hi hj
    · have hhandled := hinv.handled j t hi S a a' hrun
      rw [hreads, hhandled]
      exact Task.work_catchUp (hinv.ok j t hi) hwork rfl
    · exact hinv.handled j u hold S a a' hrun

/-- A step of a task with a section: the section joins the history. -/
theorem TcpServerState.Inv.section (hinv : sys.Inv cfg writeOk s₀) {i : ℕ} {t t' : Task}
    {e : StoreEvent} {s : SlaveStore} (hi : sys.tasks[i]? = some t)
    (hwork : t.work cfg (writeOk i) sys.store = some (t', some e, s)) :
    TcpServerState.Inv cfg writeOk s₀ ⟨s, sys.tasks.set i t', sys.history ++ [(i, e)]⟩ := by
  obtain ⟨hok, hreads, hreqs, -, hsome⟩ := Task.work_fields (hinv.ok i t hi) hwork
  obtain ⟨hfol, htake, hcall⟩ := hsome e rfl
  rw [← hinv.inCall i t hi] at hfol
  refine ⟨hinv.replays.snoc hfol htake, ?_, ?_, ?_, ?_, ?_⟩
  · intro j hj
    obtain ⟨hlt, -⟩ := List.getElem?_eq_some_iff.1 hi
    rw [List.length_set] at hj
    rw [own_snoc_of_ne _ (by omega)]
    exact hinv.fresh j hj
  · intro j u hj
    obtain ⟨rfl, rfl⟩ | ⟨-, hold⟩ := getElem?_set_cases hi hj
    · exact hok
    · exact hinv.ok j u hold
  · intro j u hj
    obtain ⟨rfl, rfl⟩ | ⟨hne, hold⟩ := getElem?_set_cases hi hj
    · rw [hcall]
      exact underway_snoc_self _ _ hfol
    · rw [underway_snoc_of_ne _ hne]
      exact hinv.inCall j u hold
  · intro j u hj
    obtain ⟨rfl, rfl⟩ | ⟨hne, hold⟩ := getElem?_set_cases hi hj
    · rw [hreqs, hinv.requests j t hi, begun_snoc_self _ _ hfol, Option.bind_some]
    · rw [begun_snoc_of_ne _ hne]
      exact hinv.requests j u hold
  · intro j u hj τ S a a'' hrun
    obtain ⟨rfl, rfl⟩ | ⟨hne, hold⟩ := getElem?_set_cases hi hj
    · obtain ⟨a', hrun', hgives⟩ : ∃ a', S.sections.run a ((callsOf j sys.history).map Prod.fst)
          = ((callsOf j sys.history).map Prod.snd, a') ∧ S.Gives (some e) a' a'' := by
        rw [callsOf_snoc_self] at hrun
        unfold Service.Gives
        rw [Option.bind_some]
        cases hcomp : e.completes with
        | none =>
            rw [hcomp, Option.toList_none, List.append_nil] at hrun
            exact ⟨a'', hrun, rfl⟩
        | some p =>
            rw [hcomp, Option.toList_some] at hrun
            exact S.sections.run_snoc.1 hrun
      rw [hreads, hinv.handled j t hi S a a' hrun']
      exact Task.work_catchUp (hinv.ok j t hi) hwork hgives
    · rw [callsOf_snoc_of_ne _ hne] at hrun
      exact hinv.handled j u hold S a a'' hrun

/-- **Every step keeps the invariant.** -/
theorem TcpServerState.step_inv (hinv : sys.Inv cfg writeOk s₀) {l : TcpServerStep}
    (h : sys.step cfg writeOk l = some sys') : sys'.Inv cfg writeOk s₀ := by
  unfold TcpServerState.step at h
  cases l with
  | accept =>
      cases h
      exact hinv.accept
  | read i r =>
      simp only at h
      cases hi : sys.tasks[i]? with
      | none => rw [hi] at h; cases h
      | some t =>
          rw [hi] at h
          simp only at h
          cases hread : t.read r with
          | none => rw [hread] at h; cases h
          | some t' =>
              rw [hread] at h
              cases h
              exact hinv.read hi hread
  | work i =>
      simp only at h
      cases hi : sys.tasks[i]? with
      | none => rw [hi] at h; cases h
      | some t =>
          rw [hi] at h
          simp only at h
          cases hwork : t.work cfg (writeOk i) sys.store with
          | none => rw [hwork] at h; cases h
          | some p =>
              obtain ⟨t', e, s⟩ := p
              rw [hwork] at h
              cases h
              cases e with
              | none =>
                  rw [Option.toList_none, List.map_nil, List.append_nil]
                  exact hinv.local hi hwork
              | some e => exact hinv.section hi hwork

theorem TcpServerState.run_inv (hinv : sys.Inv cfg writeOk s₀) {ls : List TcpServerStep}
    (h : sys.run cfg writeOk ls = some sys') : sys'.Inv cfg writeOk s₀ := by
  induction ls generalizing sys with
  | nil =>
      cases h
      exact hinv
  | cons l ls ih =>
      rw [TcpServerState.run] at h
      cases hstep : sys.step cfg writeOk l with
      | none => rw [hstep] at h; cases h
      | some sys₁ =>
          rw [hstep] at h
          exact ih (TcpServerState.step_inv hinv hstep) h

end Run

/-- **Every run is an order of sections, and each connection is handled as by
`handle_tcp_connection` alone.**  The store goes through the sections of the history.  A connection
that waits for its next read has made the calls that its requests ask for, and with any service that
gives the answers it got, the plain handler makes the same of its reads. -/
theorem tcpServer_run (cfg : TcpConfig) (writeOk : ℕ → ℕ → Bool) (s₀ : SlaveStore)
    (ls : List TcpServerStep) (sys : TcpServerState)
    (h : (TcpServerState.start s₀).run cfg writeOk ls = some sys) :
    Replays storeSections s₀ sys.history sys.store ∧
      ∀ (i : ℕ) (t : Task), sys.tasks[i]? = some t → t.state = .reading →
        t.loop.requests.filterMap RawRequest.dispatch
            = (callsOf i sys.history).map Prod.fst ∧
          ∀ {τ : Type} (S : Service τ) (a a' : τ),
            S.sections.run a ((callsOf i sys.history).map Prod.fst)
                = ((callsOf i sys.history).map Prod.snd, a') →
              handleTcpConnection S cfg (writeOk i) (.idle a) t.reads = t.loop.withStore a' := by
  have hinv := TcpServerState.run_inv TcpServerState.start_inv h
  refine ⟨hinv.replays, ?_⟩
  intro i t hi hrest
  have hcur : t.current = [] := by rw [Task.current, hrest]
  have hcall : underway sys.history i = none := by
    rw [hinv.inCall i t hi, Task.inCall, hrest]
  have hreqs := hinv.requests i t hi
  rw [hcur, List.append_nil, begun, hcall, Option.map_none, Option.toList_none,
    List.append_nil] at hreqs
  refine ⟨hreqs, ?_⟩
  intro τ S a a' hrun
  rw [hinv.handled i t hi S a a' hrun, Task.catchUp, hrest]

/-- Two connections make a call each; that of the second comes in after the first section of the
first. -/
def crossing (q₀ q₁ : Request) : List TcpServerStep :=
  [.accept, .accept, .read 0 (.ok (encodeTcpFrame (1 :: q₀.pdu) [] .standard 7)), .work 0,
    .read 1 (.ok (encodeTcpFrame (2 :: q₁.pdu) [] .standard 8)), .work 1, .work 1, .work 1, .work 0,
    .work 0, .work 0]

/-- Registers 0 and 1 are read, register 1 is written by the other connection, register 0 is
written: the first answer still has the old value. -/
theorem tcpServer_run_crossing :
    let run := (TcpServerState.start ⟨[], [], [3, 4], []⟩).run .standard (fun _ _ => true)
      (crossing (.readWriteMultipleRegisters 0 2 0 [9]) (.writeSingleRegister 1 5))
    ∃ sys, run = some sys ∧ sys.store.holdingRegisters = [9, 5] ∧
      Replays storeSections ⟨[], [], [3, 4], []⟩ sys.history sys.store ∧
      ∀ (i : ℕ) (t : Task), sys.tasks[i]? = some t → t.state = .reading →
        t.loop.requests.filterMap RawRequest.dispatch
            = (callsOf i sys.history).map Prod.fst ∧
          ∀ {τ : Type} (S : Service τ) (a a' : τ),
            S.sections.run a ((callsOf i sys.history).map Prod.fst)
                = ((callsOf i sys.history).map Prod.snd, a') →
              handleTcpConnection S .standard (fun _ => true) (.idle a) t.reads
                = t.loop.withStore a' :=
  ⟨_, rfl, rfl, tcpServer_run .standard (fun _ _ => true) ⟨[], [], [3, 4], []⟩
    (crossing (.readWriteMultipleRegisters 0 2 0 [9]) (.writeSingleRegister 1 5)) _ rfl⟩

end OmsModbus
