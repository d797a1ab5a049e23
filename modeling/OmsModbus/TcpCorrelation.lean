/-
**Which answer a TCP client accepts.**

A connection carries bytes from the server to the client in order, and each of them arrives when it
arrives: some before the client drains the stream for the next call, some after that.  The server
answers every request once, in order, with the transaction id of the request.  The client throws
away what has arrived when a call begins, and then takes the first frame that comes in for the
answer.  Its transaction id is not looked at, so an answer that is still on its way when the next
request is sent is accepted in place of the answer to that request.

Main definitions:

* `OmsModbus.arrive` — the waits of a client on a stream of bytes in flight;
* `OmsModbus.TcpLink.call`, `OmsModbus.TcpLink.run` — one call on a connection, and a run of calls;
* `OmsModbus.CallRecord.Correlated` — a call accepts its own answer;
* `OmsModbus.CallRecord.Fresh` — no earlier answer is in flight when the request is sent, or not
  enough of it arrives.

Main results:

* `OmsModbus.TcpLink.run_conserves` — every byte the server sends is thrown away, read, or in
  flight;
* `OmsModbus.TcpLink.call_header` — a call that succeeds has accepted the first header in flight;
* `OmsModbus.run_correlated` — **every fresh call of a run accepts its own answer**.
-/

import OmsModbus.TcpClient

set_option relaxedAutoImplicit false
set_option autoImplicit false

namespace OmsModbus

open Words

/-! ### Bytes in flight -/

/-- What the client sees next on the connection: some bytes arrive, the end of the stream, an error,
or a timeout. -/
inductive Arrival
  | bytes (n : ℕ)
  | closed
  | error (e : IoError)
  | elapsed
  | expired
  deriving DecidableEq, Repr

/-- The waits of a client.  Bytes arrive in order, at least one at a time; when none are in flight,
none arrive. -/
def arrive : Bytes → List Arrival → List ReadEvent
  | _, [] => []
  | flight, .bytes n :: arrivals =>
      if flight = [] then arrive flight arrivals
      else .data (flight.take (n + 1)) :: arrive (flight.drop (n + 1)) arrivals
  | flight, .closed :: arrivals => .data [] :: arrive flight arrivals
  | flight, .error e :: arrivals => .error e :: arrive flight arrivals
  | flight, .elapsed :: arrivals => .elapsed :: arrive flight arrivals
  | flight, .expired :: arrivals => .expired :: arrive flight arrivals

/-- What arrives was in flight. -/
theorem pending_arrive (flight : Bytes) (arrivals : List Arrival) :
    ∃ later, flight = pending (arrive flight arrivals) ++ later := by
  induction arrivals generalizing flight with
  | nil => exact ⟨flight, by simp [arrive, pending]⟩
  | cons arrival arrivals ih =>
      cases arrival with
      | bytes n =>
          rw [arrive]
          split
          · exact ih flight
          · obtain ⟨later, hlater⟩ := ih (flight.drop (n + 1))
            refine ⟨later, ?_⟩
            rw [pending, List.append_assoc, ← hlater, List.take_append_drop]
      | closed => exact ih flight
      | error e => exact ih flight
      | elapsed => exact ih flight
      | expired => exact ih flight

/-! ### A connection -/

/-- A connection between two calls: the client, and the bytes on their way to it. -/
structure TcpLink where
  client : TcpClient
  flight : Bytes
  deriving DecidableEq, Repr

/-- A call, with all that happens to it: the waits of the drain, the write, the PDU the server
answers with, and the waits for the answer. -/
structure CallInput where
  slaveId : UInt8
  request : Request
  drain : List Arrival
  write : WriteEvent
  answer : Bytes
  recv : List Arrival

/-- What is seen of a call: the bytes the drain threw away, those that were in flight when the
request was sent, the answer of the server, the bytes that arrived in time, and what the client
made of them. -/
structure CallRecord where
  dropped : Bytes
  stale : Bytes
  reply : Bytes
  arrived : Bytes
  call : TcpCall

/-- The frame with which the server answers a request frame: it repeats the transaction id. -/
def echoReply (server : TcpConfig) (answer frame : Bytes) : Bytes :=
  match readMbapHeader frame with
  | none => []
  | some h => encodeTcpFrame (h.unitId :: answer) [] server h.tid

/-- One call on a connection.  A request that was not written whole is not answered. -/
def TcpLink.call (server : TcpConfig) (link : TcpLink) (i : CallInput) : CallRecord × TcpLink :=
  let drain := arrive link.flight i.drain
  let droppedLen := (pending drain).length - (pending (drainStaleData drain).2).length
  let dropped := link.flight.take droppedLen
  let stale := link.flight.drop droppedLen
  let recv (frame : Bytes) := arrive (stale ++ echoReply server i.answer frame) i.recv
  let (call, client) := link.client.sendRecv i.slaveId i.request drain i.write recv
  match call.sent with
  | none => (⟨dropped, stale, [], [], call⟩, ⟨client, stale⟩)
  | some (_, frame) =>
    let reply := echoReply server i.answer frame
    (⟨dropped, stale, reply, pending (recv frame), call⟩,
      ⟨client, (stale ++ reply).drop call.readBuf.length⟩)

/-- A run of calls on a connection. -/
def TcpLink.run (server : TcpConfig) : TcpLink → List CallInput → List CallRecord × TcpLink
  | link, [] => ([], link)
  | link, i :: inputs =>
      let (rec, link) := link.call server i
      let (recs, link) := TcpLink.run server link inputs
      (rec :: recs, link)

/-- A connection over which nothing was sent yet. -/
def TcpLink.connect (config : TcpConfig) : TcpLink := ⟨.connect config, []⟩

/-- A call that succeeds accepts a frame with the transaction id it sent, and what it reads is the
beginning of the answer to its own request. -/
def CallRecord.Correlated (rec : CallRecord) : Prop :=
  ∀ rsp, rec.call.result = .ok rsp →
    ∃ tid frame hdr, rec.call.sent = some (tid, frame) ∧
      readMbapHeader rec.call.readBuf = some hdr ∧ hdr.tid = tid ∧
      ∃ later, rec.reply = rec.call.readBuf ++ later

/-- When the request is sent no byte of an earlier answer is in flight, or no whole header arrives
before the call gives up. -/
def CallRecord.Fresh (rec : CallRecord) : Prop :=
  rec.stale = [] ∨ rec.arrived.length < MBAP_HEADER_SIZE

instance (rec : CallRecord) : Decidable rec.Fresh := inferInstanceAs (Decidable (_ ∨ _))

/-! ### One call -/

/-- What one call does: it sends nothing and fails, or it reads, from what is in flight behind the
drain, the frame in front. -/
theorem TcpClient.sendRecv_cases {c c' : TcpClient} {slaveId : UInt8} {request : Request}
    {drain : List ReadEvent} {write : WriteEvent} {recv : Bytes → List ReadEvent} {call : TcpCall}
    (h : c.sendRecv slaveId request drain write recv = (call, c')) :
    (call.sent = none ∧ call.readBuf = [] ∧ ∃ e, call.result = .error e) ∨
      ∃ tid pdu, pdu.length ≤ MAX_PDU_SIZE ∧
        call.sent = some (tid, encodeTcpFrame (slaveId :: pdu) [] c.tcpConfig tid) ∧
        tcpReceive c.tcpConfig slaveId (recv (encodeTcpFrame (slaveId :: pdu) [] c.tcpConfig tid))
          = (call.result, call.readBuf, call.left) := by
  rw [TcpClient.sendRecv] at h
  split at h
  · cases h
    exact .inl ⟨rfl, rfl, _, rfl⟩
  · simp only at h
    split at h
    · cases h
      exact .inl ⟨rfl, rfl, _, rfl⟩
    · next frame hsend =>
      cases h
      -- the frame is that of the request
      have hframe : ∃ pdu, pdu.length ≤ MAX_PDU_SIZE ∧
          frame = encodeTcpFrame (slaveId :: pdu) [] c.tcpConfig
            (nextTid c.tcpConfig.tid c.tcpCounter).1 := by
        rw [sendFrame] at hsend
        split at hsend
        · cases hsend
        · next sendBuf henc =>
          obtain ⟨hfit, rfl⟩ := encodeRequestInto_eq_ok.1 henc
          split at hsend <;> cases hsend
          exact ⟨request.pdu, hfit, rfl⟩
      obtain ⟨pdu, hfit, rfl⟩ := hframe
      exact .inr ⟨_, pdu, hfit, rfl, rfl⟩

/-- Whatever the length field, the transaction id of a frame can be read back. -/
theorem readMbapHeader_tid (tid : UInt16) (len : ℕ) (unitId : UInt8) (data : Bytes) :
    ∃ hdr, readMbapHeader (mbap tid len unitId ++ data) = some hdr ∧ hdr.tid = tid := by
  refine ⟨_, rfl, ?_⟩
  exact fromBeBytes_toBeBytes tid

/-- The server repeats the transaction id. -/
theorem echoReply_encode {server cfg : TcpConfig} {tid : UInt16} {slaveId : UInt8}
    {pdu answer : Bytes} : ∃ len body,
      echoReply server answer (encodeTcpFrame (slaveId :: pdu) [] cfg tid)
        = mbap tid len slaveId ++ body := by
  have hread : readMbapHeader (encodeTcpFrame (slaveId :: pdu) [] cfg tid)
      = some ⟨tid, 0, (UInt16.ofNat (cfg.lengthField (cfg.body slaveId pdu).length)).toNat,
        slaveId⟩ := by
    rw [encodeTcpFrame_eq]
    simp only [mbap, toBeBytes, List.cons_append, List.nil_append, readMbapHeader,
      fromBeBytes_toBeBytes]
  rw [echoReply, hread]
  exact ⟨_, _, encodeTcpFrame_eq _ _ _ _⟩

/-- What a call on a connection does: the drain throws the first bytes in flight away, and then
nothing is sent, or the request is answered and a frame is read from what is in flight. -/
theorem TcpLink.call_cases {server : TcpConfig} {link link' : TcpLink} {i : CallInput}
    {rec : CallRecord} (h : link.call server i = (rec, link')) :
    link.flight = rec.dropped ++ rec.stale ∧
      ((rec.call.sent = none ∧ rec.reply = [] ∧ rec.call.readBuf = [] ∧
          link'.flight = rec.stale ∧ ∃ e, rec.call.result = .error e) ∨
        ∃ tid frame len body events left, rec.call.sent = some (tid, frame) ∧
          rec.reply = mbap tid len i.slaveId ++ body ∧ rec.arrived = pending events ∧
          (∃ later, rec.stale ++ rec.reply = pending events ++ later) ∧
          link'.flight = (rec.stale ++ rec.reply).drop rec.call.readBuf.length ∧
          tcpReceive link.client.tcpConfig i.slaveId events
            = (rec.call.result, rec.call.readBuf, left)) := by
  rw [TcpLink.call] at h
  generalize hrecv : (fun frame => arrive _ i.recv) = recv at h
  generalize hcall : link.client.sendRecv i.slaveId i.request _ i.write recv = res at h
  obtain ⟨call, client⟩ := res
  simp only at h
  obtain ⟨hsent, hbuf, herr⟩ | ⟨tid, pdu, -, hsent, hread⟩ := TcpClient.sendRecv_cases hcall
  · rw [hsent] at h
    cases h
    exact ⟨(List.take_append_drop ..).symm, .inl ⟨hsent, rfl, hbuf, rfl, herr⟩⟩
  · rw [hsent] at h
    cases h
    obtain ⟨len, body, hreply⟩ := @echoReply_encode server link.client.tcpConfig tid i.slaveId pdu
      i.answer
    refine ⟨(List.take_append_drop ..).symm,
      .inr ⟨tid, _, len, body, _, _, hsent, hreply, rfl, ?_, rfl, hread⟩⟩
    rw [← hrecv]
    exact pending_arrive _ i.recv

/-- The bytes of a call: the drain throws the first bytes in flight away, and the client reads the
next ones. -/
theorem TcpLink.call_bytes {server : TcpConfig} {link link' : TcpLink} {i : CallInput}
    {rec : CallRecord} (h : link.call server i = (rec, link')) :
    link.flight ++ rec.reply = rec.dropped ++ (rec.call.readBuf ++ link'.flight) := by
  obtain ⟨hdrop, ⟨-, hreply, hbuf, hflight, -⟩ |
    ⟨tid, frame, len, body, events, left, -, -, -, ⟨later, hlater⟩, hflight, hread⟩⟩ := call_cases h
  · rw [hdrop, hreply, hbuf, hflight, List.append_nil, List.nil_append]
  · have hread := tcpReceive_conserves hread
    rw [hread, List.append_assoc] at hlater
    rw [hdrop, hflight, hlater, List.drop_left, List.append_assoc, hlater]

/-- **A call that succeeds has accepted the first header in flight.** -/
theorem TcpLink.call_header {server : TcpConfig} {link link' : TcpLink} {i : CallInput}
    {rec : CallRecord} {rsp : Response} (h : link.call server i = (rec, link'))
    (hok : rec.call.result = .ok rsp) :
    ∃ hdr, readMbapHeader rec.call.readBuf = some hdr ∧
      readMbapHeader (rec.stale ++ rec.reply) = some hdr ∧
      MBAP_HEADER_SIZE ≤ rec.arrived.length := by
  obtain ⟨-, ⟨-, -, -, -, e, he⟩ |
    ⟨tid, frame, len, body, events, left, -, -, harr, ⟨later, hlater⟩, -, hread⟩⟩ := call_cases h
  · rw [hok] at he
    cases he
  · rw [hok] at hread
    obtain ⟨hdr, hhdr⟩ := tcpReceive_header hread
    have hread := tcpReceive_conserves hread
    refine ⟨hdr, hhdr, ?_, ?_⟩
    · rw [hlater, hread, List.append_assoc]
      exact readMbapHeader_append _ hhdr
    · rw [harr, hread, List.length_append]
      exact (readMbapHeader_length hhdr).trans (Nat.le_add_right _ _)

/-- A fresh call accepts its own answer. -/
theorem TcpLink.call_correlated {server : TcpConfig} {link link' : TcpLink} {i : CallInput}
    {rec : CallRecord} (h : link.call server i = (rec, link')) (hfresh : rec.Fresh) :
    rec.Correlated := by
  intro rsp hok
  obtain ⟨hdr, hhdr, hfirst, hlen⟩ := call_header h hok
  have hstale : rec.stale = [] := hfresh.resolve_right (by omega)
  rw [hstale, List.nil_append] at hfirst
  obtain ⟨-, ⟨-, -, -, -, e, he⟩ |
    ⟨tid, frame, len, body, events, left, hsent, hreply, -, ⟨later, hlater⟩, -, hread⟩⟩ :=
      call_cases h
  · rw [hok] at he
    cases he
  · obtain ⟨hdr', hhdr', htid⟩ := readMbapHeader_tid tid len i.slaveId body
    rw [hreply, hhdr', Option.some.injEq] at hfirst
    subst hfirst
    rw [hstale, List.nil_append, tcpReceive_conserves hread, List.append_assoc] at hlater
    exact ⟨tid, frame, hdr', hsent, hhdr, htid, _, hlater⟩

/-! ### Runs -/

/-- **Every byte the server sends is thrown away, read, or in flight.** -/
theorem TcpLink.run_conserves {server : TcpConfig} {link link' : TcpLink}
    {inputs : List CallInput} {recs : List CallRecord}
    (h : link.run server inputs = (recs, link')) :
    link.flight ++ recs.flatMap CallRecord.reply
      = recs.flatMap (fun rec => rec.dropped ++ rec.call.readBuf) ++ link'.flight := by
  induction inputs generalizing link recs with
  | nil =>
      cases h
      simp
  | cons i inputs ih =>
      rw [TcpLink.run] at h
      generalize hcall : link.call server i = res at h
      obtain ⟨rec, mid⟩ := res
      cases h
      have hbytes := call_bytes hcall
      rw [List.flatMap_cons, List.flatMap_cons, ← List.append_assoc, hbytes, List.append_assoc,
        List.append_assoc, ih (Prod.eta _).symm]
      simp only [List.append_assoc]

/-- Whatever holds of every call of a run, from any connection. -/
theorem TcpLink.run_forall {server : TcpConfig} {P : CallRecord → Prop}
    (hstep : ∀ {link link' : TcpLink} {i : CallInput} {rec : CallRecord},
      link.call server i = (rec, link') → P rec)
    (link : TcpLink) (inputs : List CallInput) : ∀ rec ∈ (link.run server inputs).1, P rec := by
  induction inputs generalizing link with
  | nil =>
      intro rec hrec
      cases hrec
  | cons i inputs ih =>
      intro rec hrec
      rcases List.mem_cons.1 hrec with rfl | hrec
      · exact hstep rfl
      · exact ih _ rec hrec

/-- **Every fresh call of a run accepts its own answer.** -/
theorem run_correlated (config server : TcpConfig) (inputs : List CallInput) :
    ∀ rec ∈ ((TcpLink.connect config).run server inputs).1, rec.Fresh → rec.Correlated :=
  TcpLink.run_forall TcpLink.call_correlated _ inputs

/-- Two reads of one register each; the first gives up before its answer has come. -/
def readTwice (drain recv : List Arrival) : List CallInput :=
  [⟨1, .readHoldingRegisters 0 1, [.elapsed], .done, [3, 2, 0, 1], [.elapsed]⟩,
    ⟨1, .readHoldingRegisters 1 1, drain, .done, [3, 2, 0, 2], recv⟩]

/-- The answer to the first call comes before the second call drains: the second call returns its
own answer. -/
theorem run_correlated_drained :
    ∃ rec ∈ ((TcpLink.connect ⟨.auto, false, .standard⟩).run .standard
      (readTwice [.bytes 11, .elapsed] [.bytes 11])).1,
      rec.call.result = .ok (.readHoldingRegisters [2]) ∧ rec.Correlated := by
  have hall := run_correlated ⟨.auto, false, .standard⟩ .standard
    (readTwice [.bytes 11, .elapsed] [.bytes 11])
  exact ⟨_, .tail _ (.head _), rfl, hall _ (.tail _ (.head _)) (.inl rfl)⟩

/-- The answer to the first call comes after the second request was sent: the second call returns
it, although it carries another transaction id. -/
theorem run_late_answer :
    ∃ rec ∈ ((TcpLink.connect ⟨.auto, false, .standard⟩).run .standard
      (readTwice [.elapsed] [.bytes 11, .elapsed])).1,
      rec.call.result = .ok (.readHoldingRegisters [1]) ∧
        rec.call.sent.map Prod.fst = some 2 ∧
        (readMbapHeader rec.call.readBuf).map MbapHeader.tid = some 1 ∧ ¬ rec.Correlated := by
  refine ⟨_, .tail _ (.head _), rfl, rfl, rfl, ?_⟩
  intro h
  obtain ⟨tid, frame, hdr, hsent, hhdr, htid, -⟩ := h _ rfl
  cases hsent
  cases hhdr
  exact absurd htid (by decide)

end OmsModbus
