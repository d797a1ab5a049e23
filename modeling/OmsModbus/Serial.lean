/-
**What the serial transports share.**

The RTU and the ASCII server read with a timeout while there are bytes in the buffer, and differ in
what becomes of the buffer when the timeout elapses.  The two clients make a call of one or more
attempts, each of which meets its own waits.  The waits for the bus to become free change nothing in
what is sent or read, and are left out here.

Main definitions:

* `OmsModbus.onSerialEvent`, `OmsModbus.serveSerial` — the server loop over the waits of a run;
* `OmsModbus.SerialRequest` — a request that a server must hand on;
* `OmsModbus.Attempt`, `OmsModbus.callAttempts` — a call and its attempts;
* `OmsModbus.Arrives` — a byte string comes in whole, in any pieces, with silence behind it.

Main results:

* `OmsModbus.serveSerial_data` — **bytes are served as they come in**, however they are cut;
* `OmsModbus.serveSerial_data_while` — the same up to the first write that fails;
* `OmsModbus.callAttempts_of_ok` — a first attempt that succeeds is the result of the call;
* `OmsModbus.readAtLeast_of_arrives` — what arrives is read, though more was hoped for.
-/

import OmsModbus.SendRecv
import OmsModbus.Server

set_option relaxedAutoImplicit false
set_option autoImplicit false

namespace OmsModbus

open StreamFraming

variable {σ τ : Type}

/-! ### The server -/

section Server

variable (P : Protocol τ) (service : Service σ) (writeOk : ℕ → Bool) (onSilence : Bytes → Bytes)

/-- One wait of a serial server.  While the buffer is empty there is no timeout that could elapse,
and none changes it. -/
def onSerialEvent (s : ServerLoop τ σ) (event : ReadEvent) : ServerLoop τ σ :=
  if s.running then
    match event with
    | .data bs =>
      if bs = [] then { s with running := false }
      else serveBuffer P service writeOk (s.setBuf (s.buf ++ bs))
    | .error _ => { s with running := false }
    | .elapsed | .expired => if s.buf = [] then s else s.setBuf (onSilence s.buf)
  else s

/-- A serial server over its waits. -/
def serveSerial (s : ServerLoop τ σ) (events : List ReadEvent) : ServerLoop τ σ :=
  events.foldl (onSerialEvent P service writeOk onSilence) s

end Server

/-- **Bytes are served as they come in.** -/
theorem serveSerial_data {P : Protocol τ} {service : Service σ} {writeOk : ℕ → Bool}
    {onSilence : Bytes → Bytes} (hw : ∀ k, writeOk k = true) {reads : List Bytes}
    (hreads : ∀ bs ∈ reads, bs ≠ []) {s : ServerLoop τ σ} (hs : s.running = true) :
    serveSerial P service writeOk onSilence s (reads.map .data)
      = (ServerLoop.serveAll P service writeOk s
          (P.run (fun _ => false) s.buf reads).1).setBuf (P.run (fun _ => false) s.buf reads).2 := by
  unfold serveSerial
  induction reads generalizing s with
  | nil => rfl
  | cons bs reads ih =>
      have hbs := hreads bs (by simp)
      have hserve := serveBuffer_eq P service hw (s := s.setBuf (s.buf ++ bs)) hs
      have hrun : ((ServerLoop.serveAll P service writeOk s
          (P.drain (s.buf ++ bs)).1).setBuf (P.drain (s.buf ++ bs)).2).running = true :=
        ServerLoop.serveAll_running P service hw hs _
      rw [ServerLoop.serveAll_setBuf, ServerLoop.setBuf_setBuf, ServerLoop.setBuf_buf] at hserve
      rw [List.map_cons, List.foldl_cons, onSerialEvent, if_pos hs]
      simp only [if_neg hbs, hserve]
      rw [ih (fun bs' h => hreads bs' (by simp [h])) hrun, ServerLoop.serveAll_setBuf,
        ServerLoop.setBuf_setBuf, ServerLoop.setBuf_buf, Framer.run_cons]
      simp only [ServerLoop.serveAll, List.foldl_append, Framer.feed, Bool.false_eq_true, if_false]

/-- A server that has stopped reads nothing more. -/
theorem serveSerial_stopped {P : Protocol τ} {service : Service σ} {writeOk : ℕ → Bool}
    {onSilence : Bytes → Bytes} {s : ServerLoop τ σ} (hs : s.running = false)
    (events : List ReadEvent) : serveSerial P service writeOk onSilence s events = s := by
  unfold serveSerial
  induction events with
  | nil => rfl
  | cons event events ih =>
      have hstep : onSerialEvent P service writeOk onSilence s event = s := by
        unfold onSerialEvent
        rw [if_neg (by simp [hs])]
      rw [List.foldl_cons, hstep, ih]

/-- Bytes are served as they come in, up to the first write that fails. -/
theorem serveSerial_data_while (P : Protocol τ) (service : Service σ) (writeOk : ℕ → Bool)
    (onSilence : Bytes → Bytes) {reads : List Bytes} (hreads : ∀ bs ∈ reads, bs ≠ [])
    (s : ServerLoop τ σ) (hs : s.running = true) :
    ∃ b, serveSerial P service writeOk onSilence s (reads.map .data)
        = (ServerLoop.serveWhile P service writeOk s
            (P.run (fun _ => false) s.buf reads).1).setBuf b ∧
      ((serveSerial P service writeOk onSilence s (reads.map .data)).running = true →
        b = (P.run (fun _ => false) s.buf reads).2) := by
  induction reads generalizing s with
  | nil => exact ⟨s.buf, rfl, fun _ => rfl⟩
  | cons bs reads ih =>
      obtain ⟨b, hb, hbuf⟩ := serveBuffer_eq_while P service writeOk
        (s := s.setBuf (s.buf ++ bs)) hs
      rw [ServerLoop.setBuf_buf] at hbuf
      rw [ServerLoop.serveWhile_setBuf, ServerLoop.setBuf_setBuf, ServerLoop.setBuf_buf] at hb
      have hstep : onSerialEvent P service writeOk onSilence s (.data bs)
          = serveBuffer P service writeOk (s.setBuf (s.buf ++ bs)) := by
        rw [onSerialEvent, if_pos hs]
        simp only [if_neg (hreads bs (by simp))]
      have hcons : serveSerial P service writeOk onSilence s ((bs :: reads).map .data)
          = serveSerial P service writeOk onSilence
              (serveBuffer P service writeOk (s.setBuf (s.buf ++ bs))) (reads.map .data) := by
        rw [← hstep]
        rfl
      have hfeed : P.feed (fun _ => false) s.buf bs = P.drain (s.buf ++ bs) := rfl
      rw [Framer.run_cons, hfeed, ServerLoop.serveWhile_append, hcons]
      by_cases hrun : (serveBuffer P service writeOk (s.setBuf (s.buf ++ bs))).running = true
      · obtain ⟨b', hb', hbuf'⟩ := ih (fun bs' h => hreads bs' (by simp [h])) _ hrun
        have hleft : (serveBuffer P service writeOk (s.setBuf (s.buf ++ bs))).buf
            = (P.drain (s.buf ++ bs)).2 := by
          rw [hb, ServerLoop.setBuf_buf, hbuf hrun]
        rw [hleft] at hb' hbuf'
        refine ⟨b', ?_, hbuf'⟩
        rw [hb', hb, ServerLoop.serveWhile_setBuf, ServerLoop.setBuf_setBuf]
      · have hstop : (serveBuffer P service writeOk (s.setBuf (s.buf ++ bs))).running = false := by
          simpa using hrun
        rw [serveSerial_stopped hstop]
        refine ⟨b, ?_, fun h => absurd h hrun⟩
        rw [hb, ServerLoop.setBuf_running] at hstop
        rw [ServerLoop.serveWhile_stopped hstop, hb]

/-- A request that comes in alone, in any pieces, is answered. -/
theorem serveSerial_one {P : Protocol τ} {service : Service σ} {onSilence : Bytes → Bytes}
    {reads : List Bytes} (hreads : ∀ bs ∈ reads, bs ≠ []) {s s' : σ} {x : RawRequest τ}
    {q : Request} {res : Except Exception Response}
    (hrun : P.run (fun _ => false) [] reads = ([x], [])) (hslave : x.slaveId ≠ 0)
    (hdec : Request.tryFrom x.pdu = .ok q) (hcall : service.call x.slaveId q s = (res, s'))
    (hfit : (responseOf q.functionCode.value res).pdu.length ≤ 253) :
    serveSerial P service (fun _ => true) onSilence (.idle s) (reads.map .data)
      = ⟨[], s', [x],
          [P.encode x.tag (x.slaveId :: (responseOf q.functionCode.value res).pdu)], true⟩ := by
  rw [serveSerial_data (fun _ => rfl) hreads rfl]
  rw [show (ServerLoop.idle s : ServerLoop τ σ).buf = [] from rfl, hrun]
  simp only [ServerLoop.serveAll, List.foldl_cons, List.foldl_nil, ServerLoop.serve]
  rw [show (ServerLoop.idle s : ServerLoop τ σ).store = s from rfl,
    processServerRequest_eq hslave hdec hcall hfit]
  rfl

/-! ### Requests -/

/-- A request on a serial bus: it is addressed to one slave, and the decoder accepts it. -/
structure SerialRequest where
  slaveId : UInt8
  pdu : Bytes
  unicast : slaveId ≠ 0
  accepted : ∃ request, Request.tryFrom pdu = .ok request

namespace SerialRequest

/-- What a frame parser is to find. -/
def raw (r : SerialRequest) : RawRequest Unit := ⟨(), r.slaveId, r.pdu⟩

/-- The PDU has a known function code and at least four more bytes. -/
theorem exists_cons (r : SerialRequest) :
    ∃ fc data, r.pdu = fc :: data ∧ isKnownFunctionCode fc = true ∧ 4 ≤ data.length := by
  obtain ⟨request, hdec⟩ := r.accepted
  have hlen := (Request.five_le_pdu_length (Request.tryFrom_inRange hdec).1).trans
    (Request.pdu_length_le hdec)
  cases hp : r.pdu with
  | nil =>
      rw [hp] at hlen
      exact absurd hlen (by simp)
  | cons fc data =>
      rw [hp] at hdec hlen
      exact ⟨fc, data, rfl, Request.isKnown_of_tryFrom hdec, by simpa using hlen⟩

end SerialRequest

/-! ### Calls -/

/-- What one attempt of a call meets: the waits of the drain, the write, the waits for the answer to
a request frame, and whether the transport can be rebuilt afterwards. -/
structure Attempt where
  drain : List ReadEvent
  write : WriteEvent
  recv : Bytes → List ReadEvent
  rebuilt : Bool

/-- A call of a serial client over its attempts, with `fuel` of them at most. -/
def callAttempts (sendRecv : Attempt → Except ModbusError Response)
    (reconnect : Option ReconnectConfig) (fuel : ℕ) (attempts : ℕ → Attempt) :
    Option (Except ModbusError Response) :=
  (runWithReconnect (fun n => (sendRecv (attempts n), n + 1))
    (fun n => ((attempts (n - 1)).rebuilt, n)) .serial reconnect fuel 0).map Prod.fst

/-- A first attempt that succeeds is the result of the call. -/
theorem callAttempts_of_ok {sendRecv : Attempt → Except ModbusError Response}
    {reconnect : Option ReconnectConfig} {fuel : ℕ} {attempts : ℕ → Attempt} {rsp : Response}
    (h : sendRecv (attempts 0) = .ok rsp) :
    callAttempts sendRecv reconnect (fuel + 1) attempts = some (.ok rsp) := by
  have hsend : (sendRecv (attempts 0), 0 + 1) = (.ok rsp, 1) := by rw [h]
  rw [callAttempts, runWithReconnect_of_ok (fun n => (sendRecv (attempts n), n + 1)) _ _ hsend]
  rfl

/-! ### What arrives -/

/-- Nothing comes in. -/
def Silent (events : List ReadEvent) : Prop := ∀ event ∈ events, event = .elapsed ∨ event = .expired

/-- A byte string comes in whole, in any pieces, with silence behind it. -/
def Arrives (bs : Bytes) (events : List ReadEvent) : Prop :=
  ∃ (chunks : List Bytes) (silence : List ReadEvent), events = chunks.map .data ++ silence ∧
    (∀ c ∈ chunks, c ≠ []) ∧ chunks.flatten = bs ∧ Silent silence

/-- In silence what is there is taken. -/
theorem readAtLeast_silent {min : ℕ} {buf : Bytes} {silence : List ReadEvent}
    (hbuf : buf ≠ []) (hs : Silent silence) :
    ∃ left, readAtLeast min buf silence = (.ok (), buf, left) := by
  cases silence with
  | nil => exact ⟨[], by rw [readAtLeast, if_neg fun h => hbuf h.2]⟩
  | cons event silence =>
      rw [readAtLeast_cons]
      split
      · rcases hs event (by simp) with rfl | rfl <;> exact ⟨silence, rfl⟩
      · exact ⟨_, rfl⟩

/-- **What arrives is read**, though more was hoped for. -/
theorem readAtLeast_of_arrives {min : ℕ} {bs : Bytes} {events : List ReadEvent}
    (h : Arrives bs events) (hne : bs ≠ []) (hle : bs.length ≤ min) :
    ∃ left, readAtLeast min [] events = (.ok (), bs, left) := by
  obtain ⟨chunks, silence, rfl, hcne, rfl, hs⟩ := h
  suffices hgen : ∀ buf : Bytes, buf ++ chunks.flatten ≠ [] →
      (buf ++ chunks.flatten).length ≤ min →
      ∃ left, readAtLeast min buf (chunks.map .data ++ silence)
        = (.ok (), buf ++ chunks.flatten, left) by
    exact hgen [] hne hle
  clear hne hle
  induction chunks with
  | nil =>
      intro buf hne _
      rw [List.flatten_nil, List.append_nil] at hne ⊢
      exact readAtLeast_silent hne hs
  | cons c chunks ih =>
      intro buf hne hle
      have hc : c ≠ [] := hcne c (by simp)
      have hpos := List.length_pos_iff.2 hc
      rw [List.flatten_cons, ← List.append_assoc] at hne hle ⊢
      rw [List.map_cons, List.cons_append, readAtLeast_cons, if_pos]
      · simp only [if_neg hc]
        exact ih (fun c' h => hcne c' (by simp [h])) _ hne hle
      · rw [List.length_append, List.length_append] at hle
        omega

end OmsModbus
