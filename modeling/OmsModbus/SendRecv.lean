/-
**What the clients share: draining, sending, reading, reconnecting.**

A client waits for bytes under a timeout, so every wait ends in one of a few ways.  The functions
here take the list of these endings, in the order in which they happen, and give back the part of
the list they did not use.  When the list is used up nothing happens any more, and a wait times
out.

Main definitions:

* `OmsModbus.ReadEvent` — how one wait for bytes ends;
* `OmsModbus.pending` — the bytes a list of events brings;
* `OmsModbus.drainStaleData`, `OmsModbus.sendFrame`, `OmsModbus.readAtLeast` — the steps of a call;
* `OmsModbus.runWithReconnect` — the loop around a call.

Main results:

* `OmsModbus.readAtLeast_conserves`, `OmsModbus.drainStaleData_conserves` — **no byte is lost or
  made up**: what was read and what is still to come is what was to come;
* `OmsModbus.readAtLeast_chunks` — bytes that come in any chunks are read as soon as there are
  enough of them.
-/

import OmsModbus.RequestCodec

set_option relaxedAutoImplicit false
set_option autoImplicit false

namespace OmsModbus

/-! ### Events -/

/-- How one wait for bytes under a timeout ends: bytes come (none of them: the stream has ended),
the read fails, the timeout elapses; or the deadline has already passed when the loop looks at the
clock, and it does not wait at all. -/
inductive ReadEvent
  | data (bs : Bytes)
  | error (e : IoError)
  | elapsed
  | expired
  deriving DecidableEq, Repr

/-- The bytes a list of events brings. -/
def pending : List ReadEvent → Bytes
  | [] => []
  | .data bs :: events => bs ++ pending events
  | _ :: events => pending events

theorem pending_append (events events' : List ReadEvent) :
    pending (events ++ events') = pending events ++ pending events' := by
  induction events with
  | nil => rfl
  | cons event events ih =>
      cases event with
      | data bs => simp only [List.cons_append, pending, ih, List.append_assoc]
      | error e => exact ih
      | elapsed => exact ih
      | expired => exact ih

/-- How a write under a timeout ends. -/
inductive WriteEvent
  | done
  | error (e : IoError)
  | elapsed
  deriving DecidableEq, Repr

/-! ### The steps of a call -/

/-- The loop of the drain: bytes are thrown away until none come for a while. -/
def drainLoop : List ReadEvent → Except ModbusError Unit × List ReadEvent
  | [] => (.ok (), [])
  | .data bs :: events =>
      if bs = [] then (.error (.connection CONN_CLOSED), events) else drainLoop events
  | .error e :: events => (.error (.ofIoError e), events)
  | .elapsed :: events => (.ok (), events)
  | .expired :: events =>
      (.error (.connection "bus busy: data received during quiet period"), events)

/-- Bytes that came in before the request is sent are thrown away.  The first look has no deadline
that could have passed. -/
def drainStaleData : List ReadEvent → Except ModbusError Unit × List ReadEvent
  | [] => (.ok (), [])
  | .data bs :: events =>
      if bs = [] then (.error (.connection CONN_CLOSED), events) else drainLoop events
  | .error e :: events => (.error (.ofIoError e), events)
  | .elapsed :: events => (.ok (), events)
  | .expired :: events => drainStaleData events

/-- Encoding and sending a request: the frame that was written, or the error. -/
def sendFrame (slaveId : UInt8) (request : Request) (encodeFn : Bytes → Bytes)
    (write : WriteEvent) : Except ModbusError Bytes :=
  match encodeRequestInto request (putU8 [] slaveId) with
  | (.error e, _) => .error (.protocol s!"{PDU_ENCODE_ERROR} {e.msg}")
  | (.ok (), sendBuf) =>
    match write with
    | .done => .ok (encodeFn sendBuf)
    | .error e => .error (.ofIoError e)
    | .elapsed => .error (.timeout SEND_TIMEOUT)

/-- Reading until there are `min` bytes.  A timeout or the end of the stream returns what there is,
when there is anything. -/
def readAtLeast (min : ℕ) (readBuf : Bytes) :
    List ReadEvent → Except ModbusError Unit × Bytes × List ReadEvent
  | [] =>
      if readBuf.length < min ∧ readBuf = [] then (.error (.timeout RECV_TIMEOUT), readBuf, [])
      else (.ok (), readBuf, [])
  | event :: events =>
      if readBuf.length < min then
        match event with
        | .expired => (.ok (), readBuf, events)
        | .data bs =>
          if bs = [] then
            if readBuf = [] then (.error (.connection CONN_CLOSED), readBuf, events)
            else (.ok (), readBuf, events)
          else readAtLeast min (readBuf ++ bs) events
        | .error e => (.error (.ofIoError e), readBuf, events)
        | .elapsed =>
          if readBuf ≠ [] then (.ok (), readBuf, events)
          else (.error (.timeout RECV_TIMEOUT), readBuf, events)
      else (.ok (), readBuf, event :: events)

/-- A request that fits in a frame is sent. -/
theorem sendFrame_done {slaveId : UInt8} {request : Request} (encodeFn : Bytes → Bytes)
    (hreq : (encodeRequestInto request []).1 = .ok ()) :
    sendFrame slaveId request encodeFn .done = .ok (encodeFn (slaveId :: request.pdu)) := by
  have hfit := (encodeRequestInto_eq_ok.1 (Prod.ext hreq rfl)).1
  have henc : encodeRequestInto request (putU8 [] slaveId) = (.ok (), slaveId :: request.pdu) :=
    encodeRequestInto_eq_ok.2 ⟨hfit, rfl⟩
  rw [sendFrame, henc]

/-! ### The reconnect loop -/

/-- Reconnect parameters; no retries means infinitely many.  The pause between two attempts is not
modelled. -/
structure ReconnectConfig where
  maxRetries : ℕ

section Reconnect

variable {ς : Type} (cfg : ReconnectConfig) (send : ς → Except ModbusError Response × ς)
  (rebuild : ς → Bool × ς) (exceededErr : String → ModbusError)

/-- The reconnect loop over the state of the transport, with at most `fuel` attempts. -/
def reconnectLoop : ℕ → ℕ → ℕ → ς → Option (Except ModbusError Response × ς)
  | 0, _, _, _ => none
  | fuel + 1, failures, rebuildFailures, s =>
    match send s with
    | (.ok rsp, s) => some (.ok rsp, s)
    | (.error e, s) =>
      if ¬ isRetryable e then some (.error e, s)
      else
        let failures := failures + 1
        if cfg.maxRetries > 0 ∧ failures > cfg.maxRetries then
          some (.error (exceededErr
            s!"reconnect max_retries({cfg.maxRetries}) exceeded: {e.detail}"), s)
        else
          match rebuild s with
          | (false, s) =>
            let rebuildFailures := rebuildFailures + 1
            if rebuildFailures ≥ 3 then
              some (.error (exceededErr
                "reconnect: transport rebuild failed 3 consecutive times"), s)
            else reconnectLoop fuel failures rebuildFailures s
          | (true, s) => reconnectLoop fuel failures 0 s

/-- A call with the reconnect loop, or a single attempt without one. -/
def runWithReconnect (reconnect : Option ReconnectConfig) (fuel : ℕ) (s : ς) :
    Option (Except ModbusError Response × ς) :=
  match reconnect with
  | none => some (send s)
  | some cfg => reconnectLoop cfg send rebuild exceededErr fuel 0 0 s

/-- A first attempt that succeeds is the answer, with and without a reconnect loop. -/
theorem runWithReconnect_of_ok {reconnect : Option ReconnectConfig} {fuel : ℕ} {s s' : ς}
    {rsp : Response} (h : send s = (.ok rsp, s')) :
    runWithReconnect send rebuild exceededErr reconnect (fuel + 1) s = some (.ok rsp, s') := by
  cases reconnect with
  | none => rw [runWithReconnect, h]
  | some cfg => simp only [runWithReconnect, reconnectLoop, h]

end Reconnect

/-! ### Bytes are conserved -/

theorem drainLoop_conserves {events left : List ReadEvent} {u : Except ModbusError Unit}
    (h : drainLoop events = (u, left)) : ∃ bs, pending events = bs ++ pending left := by
  induction events with
  | nil =>
      cases h
      exact ⟨[], rfl⟩
  | cons event events ih =>
      cases event with
      | data bs =>
          rw [drainLoop] at h
          split at h
          · cases h
            exact ⟨bs, rfl⟩
          · obtain ⟨bs', hbs'⟩ := ih h
            exact ⟨bs ++ bs', by rw [pending, hbs', List.append_assoc]⟩
      | error e =>
          cases h
          exact ⟨[], rfl⟩
      | elapsed =>
          cases h
          exact ⟨[], rfl⟩
      | expired =>
          cases h
          exact ⟨[], rfl⟩

/-- The drain only throws bytes away. -/
theorem drainStaleData_conserves {events left : List ReadEvent} {u : Except ModbusError Unit}
    (h : drainStaleData events = (u, left)) : ∃ bs, pending events = bs ++ pending left := by
  induction events with
  | nil =>
      cases h
      exact ⟨[], rfl⟩
  | cons event events ih =>
      cases event with
      | data bs =>
          rw [drainStaleData] at h
          split at h
          · cases h
            exact ⟨bs, rfl⟩
          · obtain ⟨bs', hbs'⟩ := drainLoop_conserves h
            exact ⟨bs ++ bs', by rw [pending, hbs', List.append_assoc]⟩
      | error e =>
          cases h
          exact ⟨[], rfl⟩
      | elapsed =>
          cases h
          exact ⟨[], rfl⟩
      | expired => exact ih h

theorem readAtLeast_cons (min : ℕ) (readBuf : Bytes) (event : ReadEvent)
    (events : List ReadEvent) :
    readAtLeast min readBuf (event :: events) =
      if readBuf.length < min then
        match event with
        | .expired => (.ok (), readBuf, events)
        | .data bs =>
          if bs = [] then
            if readBuf = [] then (.error (.connection CONN_CLOSED), readBuf, events)
            else (.ok (), readBuf, events)
          else readAtLeast min (readBuf ++ bs) events
        | .error e => (.error (.ofIoError e), readBuf, events)
        | .elapsed =>
          if readBuf ≠ [] then (.ok (), readBuf, events)
          else (.error (.timeout RECV_TIMEOUT), readBuf, events)
      else (.ok (), readBuf, event :: events) := by
  rw [readAtLeast.eq_def]

/-- **No byte is lost or made up**: what was read and what is to come is what was to come. -/
theorem readAtLeast_conserves {min : ℕ} {buf buf' : Bytes} {events left : List ReadEvent}
    {u : Except ModbusError Unit} (h : readAtLeast min buf events = (u, buf', left)) :
    buf ++ pending events = buf' ++ pending left := by
  induction events generalizing buf with
  | nil =>
      rw [readAtLeast] at h
      split at h <;> cases h <;> rfl
  | cons event events ih =>
      rw [readAtLeast_cons] at h
      split at h
      · cases event with
        | data bs =>
            simp only at h
            split at h
            · next hnil =>
              subst hnil
              split at h <;> cases h <;> rfl
            · rw [← ih h, pending, List.append_assoc]
        | error e =>
            cases h
            rfl
        | elapsed =>
            simp only at h
            split at h <;> cases h <;> rfl
        | expired =>
            cases h
            rfl
      · cases h
        rfl

/-- The bytes that are there stay in front. -/
theorem readAtLeast_prefix {min : ℕ} {buf buf' : Bytes} {events left : List ReadEvent}
    {u : Except ModbusError Unit} (h : readAtLeast min buf events = (u, buf', left)) :
    ∃ more, buf' = buf ++ more := by
  induction events generalizing buf with
  | nil =>
      rw [readAtLeast] at h
      split at h <;> cases h <;> exact ⟨[], (List.append_nil _).symm⟩
  | cons event events ih =>
      rw [readAtLeast_cons] at h
      split at h
      · cases event with
        | data bs =>
            simp only at h
            split at h
            · split at h <;> cases h <;> exact ⟨[], (List.append_nil _).symm⟩
            · obtain ⟨more, rfl⟩ := ih h
              exact ⟨bs ++ more, List.append_assoc ..⟩
        | error e =>
            cases h
            exact ⟨[], (List.append_nil _).symm⟩
        | elapsed =>
            simp only at h
            split at h <;> cases h <;> exact ⟨[], (List.append_nil _).symm⟩
        | expired =>
            cases h
            exact ⟨[], (List.append_nil _).symm⟩
      · cases h
        exact ⟨[], (List.append_nil _).symm⟩

/-! ### Bytes that come in any chunks -/

/-- A drain goes on while something comes. -/
theorem drainLoop_chunks {chunks : List Bytes} (hne : ∀ c ∈ chunks, c ≠ [])
    (events : List ReadEvent) : drainLoop (chunks.map .data ++ events) = drainLoop events := by
  induction chunks with
  | nil => rfl
  | cons c chunks ih =>
      rw [List.map_cons, List.cons_append, drainLoop, if_neg (hne c (List.mem_cons_self ..))]
      exact ih fun c' hc => hne c' (List.mem_cons_of_mem _ hc)

/-- With enough bytes nothing is read. -/
theorem readAtLeast_of_le {min : ℕ} {buf : Bytes} (h : min ≤ buf.length)
    (events : List ReadEvent) : readAtLeast min buf events = (.ok (), buf, events) := by
  cases events with
  | nil => rw [readAtLeast, if_neg (by omega)]
  | cons event events => rw [readAtLeast_cons, if_neg (by omega)]

/-- Bytes that are not enough are all read. -/
theorem readAtLeast_short {min : ℕ} {chunks : List Bytes} (hne : ∀ c ∈ chunks, c ≠ [])
    (buf : Bytes) (hlen : (buf ++ chunks.flatten).length < min) (events : List ReadEvent) :
    readAtLeast min buf (chunks.map .data ++ events)
      = readAtLeast min (buf ++ chunks.flatten) events := by
  induction chunks generalizing buf with
  | nil => rw [List.flatten_nil, List.append_nil, List.map_nil, List.nil_append]
  | cons c chunks ih =>
      have hbuf : buf.length < min := by
        rw [List.length_append] at hlen
        omega
      rw [List.map_cons, List.cons_append, readAtLeast_cons, if_pos hbuf]
      simp only [if_neg (hne c (List.mem_cons_self ..))]
      rw [List.flatten_cons, ← List.append_assoc] at hlen ⊢
      exact ih (fun c' hc => hne c' (List.mem_cons_of_mem _ hc)) _ hlen

theorem readAtLeast_error {min : ℕ} {buf : Bytes} (hlen : buf.length < min) (e : IoError)
    (events : List ReadEvent) :
    readAtLeast min buf (.error e :: events) = (.error (.ofIoError e), buf, events) := by
  rw [readAtLeast_cons, if_pos hlen]

theorem readAtLeast_eof {min : ℕ} {buf : Bytes} (hlen : buf.length < min)
    (events : List ReadEvent) :
    readAtLeast min buf (.data [] :: events)
      = (if buf = [] then .error (.connection CONN_CLOSED) else .ok (), buf, events) := by
  rw [readAtLeast_cons, if_pos hlen]
  simp only [if_true]
  split <;> rfl

/-- **Bytes that come in any chunks are read as soon as there are enough of them.** -/
theorem readAtLeast_chunks (min : ℕ) (buf : Bytes) {chunks : List Bytes}
    (hne : ∀ c ∈ chunks, c ≠ []) (hlen : min ≤ buf.length + chunks.flatten.length)
    (rest : List ReadEvent) :
    ∃ used left, chunks = used ++ left ∧ min ≤ (buf ++ used.flatten).length ∧
      readAtLeast min buf (chunks.map .data ++ rest)
        = (.ok (), buf ++ used.flatten, left.map .data ++ rest) := by
  induction chunks generalizing buf with
  | nil =>
      have hlen : min ≤ buf.length := by simpa using hlen
      refine ⟨[], [], rfl, by simpa using hlen, ?_⟩
      rw [readAtLeast_of_le hlen]
      simp
  | cons c chunks ih =>
      rcases Nat.lt_or_ge buf.length min with hlt | hge
      · have hc : c ≠ [] := hne c (by simp)
        rw [List.flatten_cons, List.length_append] at hlen
        obtain ⟨used, left, rfl, hused, hread⟩ :=
          ih (buf ++ c) (fun c' hc' => hne c' (by simp [hc']))
            (by rw [List.length_append]; omega)
        refine ⟨c :: used, left, rfl, by simpa using hused, ?_⟩
        rw [List.map_cons, List.cons_append, readAtLeast_cons, if_pos hlt]
        simp only [if_neg hc]
        rw [hread, List.flatten_cons, List.append_assoc]
      · refine ⟨[], c :: chunks, rfl, by simpa using hge, ?_⟩
        rw [readAtLeast_of_le hge]
        simp

end OmsModbus
