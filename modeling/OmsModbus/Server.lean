/-
**The server side of a connection.**

The three server loops of the library — TCP, RTU, ASCII — do the same with the bytes they have
read: they take request frames off the buffer, hand each to the service, and write the framed
response.  They differ in the parser and in the framing, which are the two fields of `Protocol`
here.  The loop keeps a record of the raw requests it handed on and of the frames it wrote.

Main definitions:

* `OmsModbus.Service` — what a server asks for an answer;
* `OmsModbus.processServerRequest` — decoding a raw request, calling the service, encoding the
  response;
* `OmsModbus.ServerLoop` — the variables of a server loop, with its record;
* `OmsModbus.serveBuffer` — the inner loop: requests are served until the parser finds none;
* `OmsModbus.RawRequest.dispatch` — the call of the service a raw request leads to, if any.

Main results:

* `OmsModbus.processServerRequest_of_dispatch` — a raw request changes the state of the service
  only by its call;
* `OmsModbus.serveBuffer_eq` — **the inner loop serves what the parser takes off the buffer**, one
  after the other, and leaves what the parser leaves;
* `OmsModbus.serveBuffer_eq_while` — the same up to the first write that fails.
-/

import OmsModbus.ResponseCodec
import OmsModbus.StreamFraming

set_option relaxedAutoImplicit false
set_option autoImplicit false

namespace OmsModbus

open StreamFraming

/-! ### The service -/

/-- A server service over a state.  It sees the slave id the request was addressed to. -/
structure Service (σ : Type) where
  call : UInt8 → Request → σ → Except Exception Response × σ

variable {σ τ : Type}

/-- A result of the service as a response: an error becomes an exception response with the
function code of the request. -/
def responseOf (reqFc : UInt8) : Except Exception Response → Response
  | .ok rsp => rsp
  | .error ex => .exception reqFc ex

/-- Processing one request: the bytes `[slaveId, pdu..]` of the response, or nothing.  A broadcast
is not answered, and not served either. -/
def processServerRequest (raw : Bytes) (slaveId : UInt8) (service : Service σ) (s : σ) :
    Option Bytes × σ :=
  if slaveId = 0 then (none, s)
  else if raw = [] then (none, s)
  else
    match Request.tryFrom raw with
    | .error _ => (none, s)
    | .ok request =>
      let reqFc := request.functionCode.value
      let (response, s) := service.call slaveId request s
      match encodeResponseInto (responseOf reqFc response) (putU8 [] slaveId) with
      | (.error _, _) => (none, s)
      | (.ok (), rspBuf) => (some rspBuf, s)

/-! ### The loop -/

/-- What a parser hands on: where the answer goes, the slave, and the bytes of the PDU. -/
structure RawRequest (τ : Type) where
  tag : τ
  slaveId : UInt8
  pdu : Bytes
  deriving DecidableEq, Repr

/-- A framing protocol: the parser of requests, and the frame of a response `[slaveId, pdu..]`. -/
structure Protocol (τ : Type) extends Framer UInt8 (RawRequest τ) where
  encode : τ → Bytes → Bytes

/-- The variables of a server loop, with the requests it handed on and the frames it wrote. -/
structure ServerLoop (τ σ : Type) where
  buf : Bytes
  store : σ
  requests : List (RawRequest τ)
  written : List Bytes
  running : Bool

/-- A loop that has just started. -/
def ServerLoop.idle (s : σ) : ServerLoop τ σ := ⟨[], s, [], [], true⟩

/-- The loop with another buffer. -/
def ServerLoop.setBuf (s : ServerLoop τ σ) (b : Bytes) : ServerLoop τ σ := { s with buf := b }

@[simp] theorem ServerLoop.setBuf_buf (s : ServerLoop τ σ) (b : Bytes) : (s.setBuf b).buf = b := rfl

@[simp] theorem ServerLoop.setBuf_store (s : ServerLoop τ σ) (b : Bytes) :
    (s.setBuf b).store = s.store := rfl

@[simp] theorem ServerLoop.setBuf_requests (s : ServerLoop τ σ) (b : Bytes) :
    (s.setBuf b).requests = s.requests := rfl

@[simp] theorem ServerLoop.setBuf_written (s : ServerLoop τ σ) (b : Bytes) :
    (s.setBuf b).written = s.written := rfl

@[simp] theorem ServerLoop.setBuf_running (s : ServerLoop τ σ) (b : Bytes) :
    (s.setBuf b).running = s.running := rfl

@[simp] theorem ServerLoop.setBuf_self (s : ServerLoop τ σ) : s.setBuf s.buf = s := rfl

@[simp] theorem ServerLoop.setBuf_setBuf (s : ServerLoop τ σ) (b c : Bytes) :
    (s.setBuf b).setBuf c = s.setBuf c := rfl

section Loop

variable (P : Protocol τ) (service : Service σ) (writeOk : ℕ → Bool)

/-- One request is processed and its response written; the loop ends when the write fails.
`writeOk k` is the outcome of the write after `k` successful ones. -/
def ServerLoop.serve (s : ServerLoop τ σ) (x : RawRequest τ) : ServerLoop τ σ :=
  let (rsp, store) := processServerRequest x.pdu x.slaveId service s.store
  let s := { s with store := store, requests := s.requests ++ [x] }
  match rsp with
  | none => s
  | some data =>
    if writeOk s.written.length then { s with written := s.written ++ [P.encode x.tag data] }
    else { s with running := false }

/-- The inner loop with at most `fuel` requests. -/
def serveFrames : ℕ → ServerLoop τ σ → ServerLoop τ σ
  | 0, s => s
  | fuel + 1, s =>
    match P.parse s.buf with
    | none => s
    | some (x, consumed) =>
      let s := ServerLoop.serve P service writeOk (s.setBuf (s.buf.drop consumed)) x
      if s.running then serveFrames fuel s else s

/-- The inner loop: `while let Some(..) = parse(&buf)`.  Every request takes up a byte. -/
def serveBuffer (s : ServerLoop τ σ) : ServerLoop τ σ :=
  serveFrames P service writeOk s.buf.length s

end Loop

/-! ### What is served -/

/-- The call of the service a raw request leads to. -/
def RawRequest.dispatch (x : RawRequest τ) : Option (UInt8 × Request) :=
  if x.slaveId = 0 then none
  else
    match Request.tryFrom x.pdu with
    | .error _ => none
    | .ok request => some (x.slaveId, request)

/-- **A raw request changes the state of the service only by its call.** -/
theorem processServerRequest_of_dispatch (service : Service σ) (s : σ) (x : RawRequest τ) :
    (processServerRequest x.pdu x.slaveId service s).2
      = match x.dispatch with
        | none => s
        | some (slave, request) => (service.call slave request s).2 := by
  unfold processServerRequest RawRequest.dispatch
  by_cases hslave : x.slaveId = 0
  · simp [hslave]
  · by_cases hraw : x.pdu = []
    · simp [hslave, hraw, Request.tryFrom]
    · simp only [hslave, hraw, if_false]
      cases Request.tryFrom x.pdu with
      | error e => rfl
      | ok request =>
          simp only
          split <;> rfl

/-- What is left of a request when the service has answered: the bytes to send, if they fit. -/
def encodedAnswer (slaveId : UInt8) (q : Request) (response : Except Exception Response) :
    Option Bytes :=
  match encodeResponseInto (responseOf q.functionCode.value response) (putU8 [] slaveId) with
  | (.error _, _) => none
  | (.ok (), rspBuf) => some rspBuf

theorem processServerRequest_eq_dispatch (service : Service σ) (s : σ) (x : RawRequest τ) :
    processServerRequest x.pdu x.slaveId service s
      = match x.dispatch with
        | none => (none, s)
        | some (slave, q) =>
            (encodedAnswer slave q (service.call slave q s).1, (service.call slave q s).2) := by
  unfold processServerRequest RawRequest.dispatch encodedAnswer
  by_cases hslave : x.slaveId = 0
  · rw [if_pos hslave, if_pos hslave]
  · rw [if_neg hslave, if_neg hslave]
    by_cases hraw : x.pdu = []
    · rw [if_pos hraw, hraw]
      rfl
    · rw [if_neg hraw]
      cases Request.tryFrom x.pdu with
      | error e => rfl
      | ok q =>
          simp only
          generalize encodeResponseInto (responseOf q.functionCode.value
            (service.call x.slaveId q s).1) (putU8 [] x.slaveId) = enc
          obtain ⟨_ | _, _⟩ := enc <;> rfl

/-- A request that decodes, for a slave that answers, is answered with the service's response. -/
theorem processServerRequest_eq {service : Service σ} {s s' : σ} {slave : UInt8} {pdu : Bytes}
    {q : Request} {res : Except Exception Response} (hslave : slave ≠ 0)
    (hdec : Request.tryFrom pdu = .ok q) (hcall : service.call slave q s = (res, s'))
    (hfit : (responseOf q.functionCode.value res).pdu.length ≤ 253) :
    processServerRequest pdu slave service s
      = (some (slave :: (responseOf q.functionCode.value res).pdu), s') := by
  have hraw : pdu ≠ [] := by
    rintro rfl
    cases hdec
  rw [processServerRequest, if_neg hslave, if_neg hraw, hdec]
  simp only [hcall]
  rw [encodeResponseInto_eq_ok.2 ⟨hfit, rfl⟩]
  rfl

/-! ### The inner loop -/

section Loop

variable {P : Protocol τ} {service : Service σ} {writeOk : ℕ → Bool}

/-- **What serving one request changes**: the store by what the service makes of the request, the
record by the request.  While the writes succeed the loop goes on. -/
theorem ServerLoop.serve_cases (P : Protocol τ) (service : Service σ) (writeOk : ℕ → Bool)
    (s : ServerLoop τ σ) (x : RawRequest τ) :
    ∃ written running,
      ServerLoop.serve P service writeOk s x
        = ⟨s.buf, (processServerRequest x.pdu x.slaveId service s.store).2, s.requests ++ [x],
            written, running⟩ ∧
      ((∀ k, writeOk k = true) → running = s.running) := by
  unfold ServerLoop.serve
  generalize processServerRequest x.pdu x.slaveId service s.store = res
  obtain ⟨rsp, store⟩ := res
  cases rsp with
  | none => exact ⟨s.written, s.running, rfl, fun _ => rfl⟩
  | some data =>
      by_cases hk : writeOk s.written.length = true
      · exact ⟨s.written ++ [P.encode x.tag data], s.running, by simp only [hk, if_true],
          fun _ => rfl⟩
      · exact ⟨s.written, false, by simp only [if_neg hk], fun hw => absurd (hw _) hk⟩

@[simp] theorem ServerLoop.serve_requests (s : ServerLoop τ σ) (x : RawRequest τ) :
    (ServerLoop.serve P service writeOk s x).requests = s.requests ++ [x] := by
  obtain ⟨written, running, hserve, -⟩ := serve_cases P service writeOk s x
  rw [hserve]

@[simp] theorem ServerLoop.serve_buf (s : ServerLoop τ σ) (x : RawRequest τ) :
    (ServerLoop.serve P service writeOk s x).buf = s.buf := by
  obtain ⟨written, running, hserve, -⟩ := serve_cases P service writeOk s x
  rw [hserve]

theorem ServerLoop.serve_running (P : Protocol τ) (service : Service σ)
    (hw : ∀ k, writeOk k = true) {s : ServerLoop τ σ} (hs : s.running = true) (x : RawRequest τ) :
    (ServerLoop.serve P service writeOk s x).running = true := by
  obtain ⟨written, running, hserve, hrun⟩ := serve_cases P service writeOk s x
  rw [hserve]
  exact (hrun hw).trans hs

/-- The buffer plays no part in serving a request. -/
theorem ServerLoop.serve_setBuf (P : Protocol τ) (service : Service σ) (writeOk : ℕ → Bool)
    (s : ServerLoop τ σ) (x : RawRequest τ) (b : Bytes) :
    ServerLoop.serve P service writeOk (s.setBuf b) x
      = (ServerLoop.serve P service writeOk s x).setBuf b := by
  unfold ServerLoop.serve
  rw [ServerLoop.setBuf_store]
  cases hp : processServerRequest x.pdu x.slaveId service s.store with
  | mk rsp store =>
      cases rsp with
      | none => rfl
      | some data =>
          by_cases hk : writeOk s.written.length = true <;> simp [hk, ServerLoop.setBuf]

/-- Serving a list of requests. -/
def ServerLoop.serveAll (P : Protocol τ) (service : Service σ) (writeOk : ℕ → Bool)
    (s : ServerLoop τ σ) (xs : List (RawRequest τ)) : ServerLoop τ σ :=
  xs.foldl (ServerLoop.serve P service writeOk) s

theorem ServerLoop.serveAll_setBuf (s : ServerLoop τ σ) (xs : List (RawRequest τ)) (b : Bytes) :
    ServerLoop.serveAll P service writeOk (s.setBuf b) xs
      = (ServerLoop.serveAll P service writeOk s xs).setBuf b := by
  unfold ServerLoop.serveAll
  induction xs generalizing s with
  | nil => rfl
  | cons x xs ih => rw [List.foldl_cons, ServerLoop.serve_setBuf, ih]; rfl

theorem ServerLoop.serveAll_requests (s : ServerLoop τ σ) (xs : List (RawRequest τ)) :
    (ServerLoop.serveAll P service writeOk s xs).requests = s.requests ++ xs := by
  unfold ServerLoop.serveAll
  induction xs generalizing s with
  | nil => simp
  | cons x xs ih => simp [ih]

theorem ServerLoop.serveAll_running (P : Protocol τ) (service : Service σ)
    (hw : ∀ k, writeOk k = true) {s : ServerLoop τ σ} (hs : s.running = true)
    (xs : List (RawRequest τ)) :
    (ServerLoop.serveAll P service writeOk s xs).running = true := by
  unfold ServerLoop.serveAll
  induction xs generalizing s with
  | nil => exact hs
  | cons x xs ih => exact ih (ServerLoop.serve_running P service hw hs x)

/-- Serving a list of requests for as long as the writes succeed. -/
def ServerLoop.serveWhile (P : Protocol τ) (service : Service σ) (writeOk : ℕ → Bool) :
    ServerLoop τ σ → List (RawRequest τ) → ServerLoop τ σ
  | s, [] => s
  | s, x :: xs =>
      if s.running then serveWhile P service writeOk (ServerLoop.serve P service writeOk s x) xs
      else s

theorem ServerLoop.serveWhile_stopped {s : ServerLoop τ σ} (hs : s.running = false)
    (xs : List (RawRequest τ)) : ServerLoop.serveWhile P service writeOk s xs = s := by
  cases xs with
  | nil => rfl
  | cons x xs => rw [serveWhile, if_neg (by simp [hs])]

theorem ServerLoop.serveWhile_append (s : ServerLoop τ σ) (xs ys : List (RawRequest τ)) :
    ServerLoop.serveWhile P service writeOk s (xs ++ ys)
      = ServerLoop.serveWhile P service writeOk (ServerLoop.serveWhile P service writeOk s xs)
          ys := by
  induction xs generalizing s with
  | nil => rfl
  | cons x xs ih =>
      rw [List.cons_append, serveWhile, serveWhile]
      by_cases hs : s.running = true
      · rw [if_pos hs, if_pos hs, ih]
      · rw [if_neg hs, if_neg hs, serveWhile_stopped (by simpa using hs)]

theorem ServerLoop.serveWhile_setBuf (s : ServerLoop τ σ) (xs : List (RawRequest τ)) (b : Bytes) :
    ServerLoop.serveWhile P service writeOk (s.setBuf b) xs
      = (ServerLoop.serveWhile P service writeOk s xs).setBuf b := by
  induction xs generalizing s with
  | nil => rfl
  | cons x xs ih =>
      rw [serveWhile, serveWhile, setBuf_running, serve_setBuf, ih]
      split <;> rfl

/-- A list that is served up to a failing write is served from its beginning on. -/
theorem ServerLoop.serveWhile_requests (P : Protocol τ) (service : Service σ)
    (writeOk : ℕ → Bool) (s : ServerLoop τ σ) (hs : s.running = true) (x : RawRequest τ)
    (xs : List (RawRequest τ)) :
    ∃ n, (ServerLoop.serveWhile P service writeOk s (x :: xs)).requests
      = s.requests ++ x :: xs.take n := by
  rw [serveWhile, if_pos hs]
  induction xs generalizing s x with
  | nil => exact ⟨0, by rw [serveWhile, serve_requests]; rfl⟩
  | cons y xs ih =>
      by_cases hrun : (ServerLoop.serve P service writeOk s x).running = true
      · obtain ⟨n, hn⟩ := ih _ hrun y
        refine ⟨n + 1, ?_⟩
        rw [serveWhile, if_pos hrun, hn, serve_requests, List.append_assoc]
        rfl
      · refine ⟨0, ?_⟩
        rw [serveWhile_stopped (by simpa using hrun), serve_requests]
        rfl

/-- While the writes succeed everything is served. -/
theorem ServerLoop.serveWhile_eq_serveAll (hw : ∀ k, writeOk k = true) {s : ServerLoop τ σ}
    (hs : s.running = true) (xs : List (RawRequest τ)) :
    ServerLoop.serveWhile P service writeOk s xs = ServerLoop.serveAll P service writeOk s xs := by
  induction xs generalizing s with
  | nil => rfl
  | cons x xs ih =>
      rw [serveWhile, if_pos hs, ih (serve_running P service hw hs x)]
      rfl

/-- More fuel than bytes changes nothing: every request takes up a byte. -/
theorem serveFrames_of_le {fuel : ℕ} {s : ServerLoop τ σ} (h : s.buf.length ≤ fuel) :
    serveFrames P service writeOk fuel s = serveBuffer P service writeOk s := by
  induction fuel using Nat.strong_induction_on generalizing s with
  | _ fuel ih =>
      cases hp : P.parse s.buf with
      | none =>
          unfold serveBuffer
          cases fuel <;> cases s.buf.length <;> simp [serveFrames, hp]
      | some r =>
          obtain ⟨x, n⟩ := r
          have hpos := P.pos hp
          have hle := P.le hp
          obtain ⟨k, rfl⟩ : ∃ m, fuel = m + 1 := ⟨fuel - 1, by omega⟩
          obtain ⟨l, hl⟩ : ∃ m, s.buf.length = m + 1 := ⟨s.buf.length - 1, by omega⟩
          have hserve : (ServerLoop.serve P service writeOk (s.setBuf (s.buf.drop n)) x).buf.length
              ≤ l := by
            rw [ServerLoop.serve_buf, ServerLoop.setBuf_buf, List.length_drop]
            omega
          rw [serveBuffer, hl, serveFrames, serveFrames, hp]
          simp only
          rw [ih k (by omega) (by omega), ih l (by omega) hserve]

theorem serveBuffer_none {s : ServerLoop τ σ} (h : P.parse s.buf = none) :
    serveBuffer P service writeOk s = s := by
  unfold serveBuffer
  cases s.buf.length <;> simp [serveFrames, h]

/-- The loop after a request: it goes on unless a write failed. -/
theorem serveBuffer_some {s : ServerLoop τ σ} {x : RawRequest τ} {n : ℕ}
    (h : P.parse s.buf = some (x, n)) :
    serveBuffer P service writeOk s
      = if (ServerLoop.serve P service writeOk (s.setBuf (s.buf.drop n)) x).running then
          serveBuffer P service writeOk
            (ServerLoop.serve P service writeOk (s.setBuf (s.buf.drop n)) x)
        else ServerLoop.serve P service writeOk (s.setBuf (s.buf.drop n)) x := by
  have hpos := P.pos h
  have hle := P.le h
  obtain ⟨l, hl⟩ : ∃ m, s.buf.length = m + 1 := ⟨s.buf.length - 1, by omega⟩
  rw [serveBuffer, hl, serveFrames, h]
  simp only
  rw [serveFrames_of_le]
  rw [ServerLoop.serve_buf, ServerLoop.setBuf_buf, List.length_drop]
  omega

theorem serveFrames_eq (hw : ∀ k, writeOk k = true) (fuel : ℕ) {s : ServerLoop τ σ}
    (hs : s.running = true) :
    serveFrames P service writeOk fuel s
      = (ServerLoop.serveAll P service writeOk s (P.drainN fuel s.buf).1).setBuf
          (P.drainN fuel s.buf).2 := by
  induction fuel generalizing s with
  | zero => rfl
  | succ fuel ih =>
      cases hp : P.parse s.buf with
      | none => simp [serveFrames, Framer.drainN, hp, ServerLoop.serveAll]
      | some r =>
          obtain ⟨x, n⟩ := r
          have hrun : (ServerLoop.serve P service writeOk (s.setBuf (s.buf.drop n)) x).running
              = true := ServerLoop.serve_running P service (s := s.setBuf (s.buf.drop n)) hw hs x
          simp only [serveFrames, Framer.drainN, hp, hrun, if_true]
          rw [ih hrun, ServerLoop.serve_buf]
          rw [ServerLoop.serve_setBuf, ServerLoop.serveAll_setBuf]
          rfl

/-- **The inner loop serves what the parser takes off the buffer**, one request after the other,
and leaves what the parser leaves. -/
theorem serveBuffer_eq (P : Protocol τ) (service : Service σ) (hw : ∀ k, writeOk k = true)
    {s : ServerLoop τ σ} (hs : s.running = true) :
    serveBuffer P service writeOk s
      = (ServerLoop.serveAll P service writeOk s (P.drain s.buf).1).setBuf (P.drain s.buf).2 :=
  serveFrames_eq hw _ hs

private theorem serveFrames_eq_while (fuel : ℕ) {s : ServerLoop τ σ} (hs : s.running = true) :
    ∃ b, serveFrames P service writeOk fuel s
        = (ServerLoop.serveWhile P service writeOk s (P.drainN fuel s.buf).1).setBuf b ∧
      ((serveFrames P service writeOk fuel s).running = true → b = (P.drainN fuel s.buf).2) := by
  induction fuel generalizing s with
  | zero => exact ⟨s.buf, rfl, fun _ => rfl⟩
  | succ fuel ih =>
      cases hp : P.parse s.buf with
      | none =>
          refine ⟨s.buf, ?_, ?_⟩
          · simp [serveFrames, Framer.drainN, hp, ServerLoop.serveWhile]
          · intro _
            simp [Framer.drainN, hp]
      | some r =>
          obtain ⟨x, n⟩ := r
          simp only [serveFrames, Framer.drainN, hp, ServerLoop.serveWhile, hs, if_true]
          have hserve := ServerLoop.serve_setBuf P service writeOk s x (s.buf.drop n)
          by_cases hrun : (ServerLoop.serve P service writeOk (s.setBuf (s.buf.drop n)) x).running
              = true
          · obtain ⟨b, hb, hbuf⟩ := ih hrun
            rw [ServerLoop.serve_buf, ServerLoop.setBuf_buf] at hb hbuf
            refine ⟨b, ?_, ?_⟩
            · rw [if_pos hrun, hb, hserve, ServerLoop.serveWhile_setBuf, ServerLoop.setBuf_setBuf]
            · rw [if_pos hrun]
              exact hbuf
          · refine ⟨s.buf.drop n, ?_, ?_⟩
            · rw [if_neg hrun, hserve, ServerLoop.serveWhile_stopped]
              rw [hserve] at hrun
              simpa using hrun
            · rw [if_neg hrun]
              intro h
              exact absurd h hrun

/-- Whether or not its writes succeed, the inner loop serves what the parser takes off the buffer
until one fails; if none does it leaves what the parser leaves. -/
theorem serveBuffer_eq_while (P : Protocol τ) (service : Service σ) (writeOk : ℕ → Bool)
    {s : ServerLoop τ σ} (hs : s.running = true) :
    ∃ b, serveBuffer P service writeOk s
        = (ServerLoop.serveWhile P service writeOk s (P.drain s.buf).1).setBuf b ∧
      ((serveBuffer P service writeOk s).running = true → b = (P.drain s.buf).2) :=
  serveFrames_eq_while _ hs

end Loop

end OmsModbus
