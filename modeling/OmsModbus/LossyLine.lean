/-
**A client and a server on a line that loses frames.**

One attempt of a call, from the client to the server and back, over any of the transports: the
request frame is cut out of the reads of the server, the store is asked, and the client reads what
comes back.  The line may lose the request or the answer, but it does not garble them, and what it
delivers comes in while the attempt waits.  An attempt then fails, and the store may have been asked
or not; or it returns what the store answers, and the store has been asked.

Main definitions:

* `OmsModbus.Transport` — the transports, with a client and a server of each;
* `OmsModbus.Transport.Cut`, `OmsModbus.Transport.Speaks` — the reads and the requests that a server
  takes for what they are;
* `OmsModbus.Passage`, `OmsModbus.Link` — what an attempt meets on the line, and the two ends;
* `OmsModbus.Link.attempt` — one attempt.

Main results:

* `OmsModbus.Transport.serve_frame` — **a server answers a request that it gets**;
* `OmsModbus.Transport.sendRecv_answered`, `OmsModbus.Transport.sendRecv_unanswered` — **a client
  returns the response that arrives**, and fails when none does;
* `OmsModbus.Link.attempt_cases`, `OmsModbus.Link.attempt_broken`,
  `OmsModbus.Link.attempt_lossless` — one attempt.
-/

import OmsModbus.EndToEnd
import OmsModbus.ModbusClient
import OmsModbus.RtuFraming
import OmsModbus.TcpStream

set_option relaxedAutoImplicit false
set_option autoImplicit false

namespace OmsModbus

open StreamFraming

/-! ### The transports -/

/-- One of the transports; over TCP with the headers of the client and of the server. -/
inductive Transport
  | rtu
  | ascii
  | tcp (client server : TcpConfig)
  deriving DecidableEq, Repr

namespace Transport

/-- What the server of a transport remembers of where an answer goes. -/
def Tag : Transport → Type
  | .rtu | .ascii => Unit
  | .tcp _ _ => UInt16

/-- The server, over reads that bring something. -/
def serve : (t : Transport) → ServerLoop t.Tag SlaveStore → List Bytes →
    ServerLoop t.Tag SlaveStore
  | .rtu, s, reads => serveRtu storeService (fun _ => true) s (reads.map .data)
  | .ascii, s, reads => serveAscii storeService (fun _ => true) s (reads.map .data)
  | .tcp _ server, s, reads =>
      handleTcpConnection storeService server (fun _ => true) s (reads.map .ok)

/-- What is there for a client whose transport was rebuilt: over TCP another connection, on the bus
the same server. -/
def reopen : (t : Transport) → ServerLoop t.Tag SlaveStore → ServerLoop t.Tag SlaveStore
  | .rtu, s | .ascii, s => s
  | .tcp _ _, s => .idle s.store

variable (t : Transport) (slaveId : UInt8) (q : Request) (counter : UInt16)

/-- One attempt of a client, and its counter of transaction ids. -/
def sendRecv (a : Attempt) : Except ModbusError Response × UInt16 :=
  match t with
  | .rtu => (rtuSendRecv slaveId q a, counter)
  | .ascii => (asciiSendRecv slaveId q a, counter)
  | .tcp client _ =>
      let (call, c) := TcpClient.sendRecv ⟨client, counter⟩ slaveId q a.drain a.write a.recv
      (call.result, c.tcpCounter)

/-- The frame of the next request. -/
def requestFrame : Bytes :=
  match t with
  | .rtu => encodeRtuFrame (slaveId :: q.pdu) []
  | .ascii => encodeAsciiFrameInto (slaveId :: q.pdu) []
  | .tcp client _ => encodeTcpFrame (slaveId :: q.pdu) [] client (nextTid client.tid counter).1

/-- The frame of a response to it. -/
def responseFrame (rsp : Response) : Bytes :=
  match t with
  | .rtu => encodeRtuFrame (slaveId :: rsp.pdu) []
  | .ascii => encodeAsciiFrameInto (slaveId :: rsp.pdu) []
  | .tcp client server =>
      encodeTcpFrame (slaveId :: rsp.pdu) [] server (nextTid client.tid counter).1

/-- The error of a call that is given up. -/
def exceededErr : String → ModbusError :=
  match t with
  | .rtu | .ascii => .serial
  | .tcp _ _ => .connection

/-- The reads in which a server can take a frame: they bring it whole, and none of them ends where
it would be taken for a shorter one. -/
def Cut (frame : Bytes) (reads : List Bytes) : Prop :=
  (∀ bs ∈ reads, bs ≠ []) ∧ reads.flatten = frame ∧
    match t with
    | .rtu => NoEarlyCrc reads
    | .ascii => True
    | .tcp client _ =>
        client.lengthMode = .pduOnly → ∀ k, (reads.take k).flatten.length + 1 ≠ frame.length

/-- A request for one slave that the decoder takes for what it is.  Over TCP both sides repeat the
unit id, or neither does and the request is not read as if it did. -/
structure Speaks : Prop where
  unicast : slaveId ≠ 0
  valid : Request.tryFrom q.pdu = .ok q
  alike : ∀ client server, t = .tcp client server →
    client.unitIdInBody = server.unitIdInBody ∧
      (client.unitIdInBody = true ∨ ¬ Shadowed slaveId q.pdu)

end Transport

/-! ### The server -/

/-- A part of a TCP frame is kept, and not taken for a frame. -/
theorem tcpFrame_part {cfg : TcpConfig} {tid : UInt16} {slaveId : UInt8} {pdu b rest : Bytes}
    (hpos : 0 < (cfg.body slaveId pdu).length) (hlen : (cfg.body slaveId pdu).length ≤ 254)
    (h : encodeTcpFrame (slaveId :: pdu) [] cfg tid = b ++ rest) (hrest : rest ≠ [])
    (hone : cfg.lengthMode = .pduOnly →
      b.length + 1 ≠ (encodeTcpFrame (slaveId :: pdu) [] cfg tid).length) :
    tryParseTcpFrame b = none ∧ tcpDiscard b = false := by
  have hrest' := List.length_pos_iff.2 hrest
  rw [encodeTcpFrame_eq] at h hone
  have hsize := congrArg List.length h
  rw [List.length_append, List.length_append, mbap_length] at hsize
  rw [List.length_append, mbap_length] at hone
  have hsmall : ¬ b.length > MAX_TCP_BUF_BYTES := by
    rw [MAX_TCP_BUF_BYTES]
    omega
  have hfield : cfg.lengthField (cfg.body slaveId pdu).length
      = (cfg.body slaveId pdu).length + (if cfg.lengthMode = .pduOnly then 0 else 1) := by
    unfold TcpConfig.lengthField
    cases cfg.lengthMode <;> rfl
  rcases TcpRequest.prefix_cases h with hshort | ⟨d, rfl, hd⟩
  · exact ⟨tryParseTcpFrame_of_length_lt hshort,
      by simp [tcpDiscard, isTcpHeaderCorrupt_of_length_lt hshort, hsmall]⟩
  · have hsplit := congrArg List.length hd
    rw [List.length_append] at hsplit
    rw [List.length_append, mbap_length] at hone
    rw [hfield] at hsmall ⊢
    have hmode : (if cfg.lengthMode = .pduOnly then 0 else 1) = 0 ∧ d.length + 1 ≠
        (cfg.body slaveId pdu).length ∨ (if cfg.lengthMode = .pduOnly then 0 else 1) = 1 := by
      by_cases hm : cfg.lengthMode = .pduOnly
      · have := hone hm
        exact .inl ⟨if_pos hm, by omega⟩
      · exact .inr (if_neg hm)
    generalize (if cfg.lengthMode = .pduOnly then 0 else 1) = extra at *
    refine ⟨?_, ?_⟩
    · rw [tryParseTcpFrame_mbap (by omega), if_neg (by omega), if_neg (by omega)]
    · rw [tcpDiscard, isTcpHeaderCorrupt_mbap (by omega)]
      simp only [hsmall, decide_false, Bool.or_false, Bool.not_eq_false', decide_eq_true_eq]
      omega

/-- A whole TCP frame is found. -/
theorem tcpFrame_whole {cfg : TcpConfig} {tid : UInt16} {slaveId : UInt8} {q : Request}
    (hfit : q.pdu.length ≤ 253) (hdec : Request.tryFrom q.pdu = .ok q)
    (hplain : cfg.unitIdInBody = true ∨ ¬ Shadowed slaveId q.pdu) :
    tryParseTcpFrame (encodeTcpFrame (slaveId :: q.pdu) [] cfg tid)
      = some (⟨tid, slaveId, q.pdu⟩, (encodeTcpFrame (slaveId :: q.pdu) [] cfg tid).length) := by
  have hlen : (encodeTcpFrame (slaveId :: q.pdu) [] cfg tid).length
      = 7 + (cfg.body slaveId q.pdu).length := by
    rw [encodeTcpFrame_eq, List.length_append, mbap_length]
  have hne : q.pdu ≠ [] := by
    intro h
    rw [h] at hdec
    cases hdec
  rw [hlen]
  cases hecho : cfg.unitIdInBody with
  | true =>
      have hbody : cfg.body slaveId q.pdu = slaveId :: q.pdu := by simp [TcpConfig.body, hecho]
      rw [tryParseTcpFrame_frame (by simp [hbody]) (by simp [hbody]; omega), hbody]
      exact tryExtractTcpPdu_echo ⟨q, hdec⟩
  | false =>
      have hbody : cfg.body slaveId q.pdu = q.pdu := by simp [TcpConfig.body, hecho]
      rw [hecho] at hplain
      rw [tryParseTcpFrame_frame (by simpa [hbody] using hne) (by simp [hbody]; omega), hbody]
      exact tryExtractTcpPdu_plain ⟨q, hdec⟩ (hplain.resolve_left (by simp))

/-- A server that has served a request from an empty buffer. -/
theorem serveAll_answer {τ : Type} {P : Protocol τ} {s : ServerLoop τ SlaveStore}
    (hrun : s.running = true) {tag : τ} {slaveId : UInt8} {q : Request} (hslave : slaveId ≠ 0)
    (hdec : Request.tryFrom q.pdu = .ok q) :
    (ServerLoop.serveAll P storeService (fun _ => true) s [⟨tag, slaveId, q.pdu⟩]).setBuf []
      = ⟨[], (s.store.call q).2, s.requests ++ [⟨tag, slaveId, q.pdu⟩],
          s.written ++ [P.encode tag
            (slaveId :: (responseOf q.functionCode.value (s.store.call q).1).pdu)], true⟩ := by
  obtain ⟨hq, hrange⟩ := Request.tryFrom_inRange hdec
  obtain ⟨n, -, -, hfit, -⟩ := s.store.call_response hq hrange
  have hprocess := @processServerRequest_eq _ storeService s.store _ slaveId q.pdu q _ hslave hdec
    (Prod.eta _).symm hfit
  simp only [ServerLoop.serveAll, List.foldl_cons, List.foldl_nil, ServerLoop.serve, hprocess,
    if_true, ServerLoop.setBuf, hrun]
  rfl

/-- A server that waits for a request. -/
structure ServerLoop.Waits {τ : Type} (s : ServerLoop τ SlaveStore) : Prop where
  buf : s.buf = []
  running : s.running = true

/-- A serial server that finds a request in its reads. -/
theorem serveSerial_answer {τ : Type} {P : Protocol τ} {onSilence : Bytes → Bytes}
    {s : ServerLoop τ SlaveStore} (hs : s.Waits) {reads : List Bytes}
    (hne : ∀ bs ∈ reads, bs ≠ []) {tag : τ} {slaveId : UInt8} {q : Request}
    (hfound : P.run (fun _ => false) [] reads = ([⟨tag, slaveId, q.pdu⟩], []))
    (hslave : slaveId ≠ 0) (hdec : Request.tryFrom q.pdu = .ok q) :
    serveSerial P storeService (fun _ => true) onSilence s (reads.map .data)
      = ⟨[], (s.store.call q).2, s.requests ++ [⟨tag, slaveId, q.pdu⟩],
          s.written ++ [P.encode tag
            (slaveId :: (responseOf q.functionCode.value (s.store.call q).1).pdu)], true⟩ := by
  rw [serveSerial_data (fun _ => rfl) hne hs.running, hs.buf, hfound]
  exact serveAll_answer hs.running hslave hdec

section Server

variable {t : Transport} {slaveId : UInt8} {q : Request} {counter : UInt16}

/-- A TCP server finds a request that it gets. -/
theorem tcpFramer_run_cut {client server : TcpConfig} (hdec : Request.tryFrom q.pdu = .ok q)
    (hplain : client.unitIdInBody = true ∨ ¬ Shadowed slaveId q.pdu) (hfit : q.pdu.length ≤ 253)
    {reads : List Bytes} (hcut : (Transport.tcp client server).Cut
      ((Transport.tcp client server).requestFrame slaveId q counter) reads) :
    tcpFramer.run tcpDiscard [] reads
      = ([⟨(nextTid client.tid counter).1, slaveId, q.pdu⟩], []) := by
  obtain ⟨hne, hflat, hends⟩ := hcut
  have hpos : 0 < (client.body slaveId q.pdu).length := by
    rw [List.length_pos_iff, TcpConfig.body]
    split
    · simp
    · intro hnil
      rw [hnil] at hdec
      cases hdec
  have hlen : (client.body slaveId q.pdu).length ≤ 254 := by
    rw [TcpConfig.body]
    split
    · rw [List.length_cons]
      omega
    · omega
  have hcs : reads ≠ [] := by
    rintro rfl
    have hsize := congrArg List.length hflat
    rw [Transport.requestFrame, encodeTcpFrame_eq, List.length_append, mbap_length] at hsize
    simp at hsize
    omega
  refine tcpFramer.run_whole tcpDiscard (tcpFrame_whole hfit hdec hplain) rfl hcs hflat ?_
  intro k _ hk
  have hsplit : (Transport.tcp client server).requestFrame slaveId q counter
      = [] ++ (reads.take k).flatten ++ (reads.drop k).flatten := by
    rw [List.nil_append, ← List.flatten_append, List.take_append_drop, hflat]
  have hrest : (reads.drop k).flatten ≠ [] := by
    rw [List.drop_eq_getElem_cons hk, List.flatten_cons]
    intro hnil
    exact hne _ (List.getElem_mem hk) (List.append_eq_nil_iff.1 hnil).1
  exact tcpFrame_part hpos hlen hsplit hrest fun hmode => hends hmode k

/-- **A server answers a request that it gets**, however it is cut, and waits for the next one. -/
theorem Transport.serve_frame {s : ServerLoop t.Tag SlaveStore} (hs : s.Waits)
    (h : t.Speaks slaveId q) (hfit : q.pdu.length ≤ 253) {reads : List Bytes}
    (hcut : t.Cut (t.requestFrame slaveId q counter) reads) :
    (t.serve s reads).Waits ∧ (t.serve s reads).store = (s.store.call q).2 ∧
      (t.serve s reads).written = s.written ++ [t.responseFrame slaveId counter
        (responseOf q.functionCode.value (s.store.call q).1)] := by
  obtain ⟨hslave, hdec, halike⟩ := h
  suffices hserve : ∃ x, t.serve s reads
      = ⟨[], (s.store.call q).2, s.requests ++ [x], s.written ++ [t.responseFrame slaveId counter
          (responseOf q.functionCode.value (s.store.call q).1)], true⟩ by
    obtain ⟨x, hx⟩ := hserve
    rw [hx]
    exact ⟨⟨rfl, rfl⟩, rfl, rfl⟩
  cases t with
  | rtu =>
      obtain ⟨hne, hflat, hcrc⟩ := hcut
      have hfound := @rtuFramer_run_of_noEarlyCrc ⟨slaveId, q.pdu, hslave, q, hdec⟩ reads hne hflat
        hcrc
      exact ⟨_, serveSerial_answer (P := rtuProtocol) hs hne hfound hslave hdec⟩
  | ascii =>
      obtain ⟨hne, hflat, -⟩ := hcut
      obtain ⟨fc, data, hpdu⟩ : ∃ fc data, q.pdu = fc :: data :=
        List.exists_cons_of_ne_nil fun h => by rw [h] at hdec; cases hdec
      have hfound := @asciiFramer_run slaveId fc data reads (by rw [hflat, ← hpdu]; rfl)
      rw [← hpdu] at hfound
      exact ⟨_, serveSerial_answer (P := asciiProtocol) hs hne hfound hslave hdec⟩
  | tcp client server =>
      have hfound := tcpFramer_run_cut hdec (halike client server rfl).2 hfit hcut
      refine ⟨⟨(nextTid client.tid counter).1, slaveId, q.pdu⟩, ?_⟩
      rw [serve, handleTcpConnection_eq (fun _ => rfl) hcut.1 hs.running, hs.buf, hfound]
      exact serveAll_answer hs.running hslave hdec

/-- A server that gets nothing does nothing. -/
theorem Transport.serve_nil (s : ServerLoop t.Tag SlaveStore) : t.serve s [] = s := by
  cases t <;> rfl

end Server

/-! ### The client -/

/-- A read that brings nothing leaves nothing to decode. -/
theorem readAtLeast_of_pending_nil {min : ℕ} {events left : List ReadEvent} {buf : Bytes}
    {u : Except ModbusError Unit} (hnone : pending events = [])
    (h : readAtLeast min [] events = (u, buf, left)) : buf = [] := by
  have hcons := readAtLeast_conserves h
  rw [hnone, List.nil_append] at hcons
  exact (List.append_eq_nil_iff.1 hcons.symm).1

theorem rtuReceive_of_pending_nil (slaveId : UInt8) (q : Request) {events : List ReadEvent}
    (hnone : pending events = []) : ∃ e, rtuReceive slaveId q events = .error e := by
  unfold rtuReceive
  simp only
  split
  · exact ⟨_, rfl⟩
  · next buf left h =>
    rw [readAtLeast_of_pending_nil hnone h]
    exact ⟨_, rfl⟩

theorem asciiReceive_of_pending_nil (slaveId : UInt8) {events : List ReadEvent}
    (hnone : pending events = []) : ∃ e, asciiReceive slaveId [] events = .error e := by
  match events with
  | [] => exact ⟨_, rfl⟩
  | .expired :: _ => exact ⟨_, rfl⟩
  | .elapsed :: _ => exact ⟨_, rfl⟩
  | .error e :: _ => exact ⟨_, rfl⟩
  | .data bs :: events =>
    obtain rfl : bs = [] := (List.append_eq_nil_iff.1 hnone).1
    exact ⟨_, rfl⟩

theorem tcpReceive_of_pending_nil (cfg : TcpConfig) (slaveId : UInt8) {events : List ReadEvent}
    (hnone : pending events = []) : ∃ e, (tcpReceive cfg slaveId events).1 = .error e := by
  cases h : tcpReceive cfg slaveId events with
  | mk result rest =>
      obtain ⟨buf, left⟩ := rest
      obtain ⟨hcons, he | ⟨hdr, hread, -⟩⟩ := tcpReceive_cases h
      · exact he
      · rw [hnone] at hcons
        rw [(List.append_eq_nil_iff.1 hcons.symm).1] at hread
        cases hread

/-- What arrives has no byte when there is none to arrive. -/
theorem Arrives.pending_eq {bs : Bytes} {events : List ReadEvent} (h : Arrives bs events) :
    pending events = bs := by
  obtain ⟨chunks, silence, rfl, -, rfl, hs⟩ := h
  have hsilence : pending silence = [] := by
    induction silence with
    | nil => rfl
    | cons event silence ih =>
        have hrest := ih fun e he => hs e (List.mem_cons_of_mem _ he)
        rcases hs event (List.mem_cons_self ..) with rfl | rfl <;> exact hrest
  rw [pending_append, hsilence, List.append_nil]
  induction chunks with
  | nil => rfl
  | cons c chunks ih => rw [List.map_cons, pending, ih, List.flatten_cons]

/-- The request is sent: nothing disturbs the drain, and the request fits in a frame. -/
def Transport.Asks (t : Transport) (q : Request) (drain : List ReadEvent) : Prop :=
  (drainStaleData drain).1 = .ok () ∧ (encodeRequestInto q []).1 = .ok () ∧
    (t = .ascii → q ≠ .disconnect)

instance (t : Transport) (q : Request) (drain : List ReadEvent) : Decidable (t.Asks q drain) :=
  inferInstanceAs (Decidable (_ ∧ _ ∧ _))

theorem written_of_sendFrame {slaveId : UInt8} {request : Request} {encodeFn : Bytes → Bytes}
    {write : WriteEvent} {frame : Bytes}
    (h : sendFrame slaveId request encodeFn write = .ok frame) : write = .done := by
  unfold sendFrame at h
  split at h
  · cases h
  · split at h
    · rfl
    · cases h
    · cases h

/-- The connection is lost, and the client notices: while it drains, writes, or waits. -/
inductive Attempt.Breaks (a : Attempt) : Prop
  | drain (e : ModbusError) (rest : List ReadEvent)
      (h : drainStaleData a.drain = (.error e, rest)) (he : isRetryable e = true)
  | write (e : IoError) (hquiet : (drainStaleData a.drain).1 = .ok ()) (h : a.write = .error e)
      (he : isRetryable (.ofIoError e) = true)
  | receive (e : IoError) (hquiet : (drainStaleData a.drain).1 = .ok ()) (hwrite : a.write = .done)
      (h : ∀ frame, ∃ rest, a.recv frame = .error e :: rest)
      (he : isRetryable (.ofIoError e) = true)

section Client

variable {t : Transport} {slaveId : UInt8} {q : Request} {counter : UInt16} {a : Attempt}

/-- What a client makes of the waits for an answer. -/
def Transport.receive (t : Transport) (slaveId : UInt8) (q : Request) (events : List ReadEvent) :
    Except ModbusError Response :=
  match t with
  | .rtu => rtuReceive slaveId q events
  | .ascii => asciiReceive slaveId [] events
  | .tcp client _ => (tcpReceive client slaveId events).1

/-- A request that is sent and written is followed by the waits for its answer. -/
theorem Transport.sendRecv_sent (hasks : t.Asks q a.drain) (hwrite : a.write = .done) :
    (t.sendRecv slaveId q counter a).1
      = t.receive slaveId q (a.recv (t.requestFrame slaveId q counter)) := by
  obtain ⟨hdrain, hreq, hascii⟩ := hasks
  have hdrain' : drainStaleData a.drain = (.ok (), (drainStaleData a.drain).2) :=
    Prod.ext hdrain rfl
  cases t with
  | rtu => exact rtuSendRecv_eq slaveId ⟨hdrain, hreq, hwrite⟩
  | ascii =>
      rw [sendRecv, asciiSendRecv, if_neg (hascii rfl), hdrain']
      simp only [hwrite, sendFrame_done _ hreq]
      rfl
  | tcp client server =>
      simp only [sendRecv, hwrite]
      exact TcpClient.sendRecv_result (c := ⟨client, counter⟩) a.recv hdrain hreq

/-- A request that is not sent or not written is an error. -/
theorem Transport.sendRecv_unsent (h : ¬ (t.Asks q a.drain ∧ a.write = .done)) :
    ∃ e, (t.sendRecv slaveId q counter a).1 = .error e := by
  cases t with
  | rtu =>
      simp only [sendRecv, rtuSendRecv]
      split
      · exact ⟨_, rfl⟩
      · next hdrain =>
        split
        · exact ⟨_, rfl⟩
        · next hsend =>
          exact absurd ⟨⟨by rw [hdrain], encodes_of_sendFrame hsend, fun ht => by cases ht⟩,
            written_of_sendFrame hsend⟩ h
  | ascii =>
      simp only [sendRecv, asciiSendRecv]
      split
      · exact ⟨_, rfl⟩
      · next hreq =>
        split
        · exact ⟨_, rfl⟩
        · next hdrain =>
          split
          · exact ⟨_, rfl⟩
          · next hsend =>
            exact absurd ⟨⟨by rw [hdrain], encodes_of_sendFrame hsend, fun _ => hreq⟩,
              written_of_sendFrame hsend⟩ h
  | tcp client server =>
      simp only [sendRecv, TcpClient.sendRecv]
      split
      · exact ⟨_, rfl⟩
      · next hdrain =>
        split
        · exact ⟨_, rfl⟩
        · next hsend =>
          exact absurd ⟨⟨by rw [hdrain], encodes_of_sendFrame hsend, fun ht => by cases ht⟩,
            written_of_sendFrame hsend⟩ h

/-- So is a request to which nothing comes back. -/
theorem Transport.sendRecv_unanswered (h : ∀ frame, pending (a.recv frame) = []) :
    ∃ e, (t.sendRecv slaveId q counter a).1 = .error e := by
  by_cases hsent : t.Asks q a.drain ∧ a.write = .done
  · rw [sendRecv_sent hsent.1 hsent.2]
    cases t with
    | rtu => exact rtuReceive_of_pending_nil slaveId q (h _)
    | ascii => exact asciiReceive_of_pending_nil slaveId (h _)
    | tcp client server => exact tcpReceive_of_pending_nil client slaveId (h _)
  · exact sendRecv_unsent hsent

/-- A lost connection is an error that calls for another attempt, wherever it is noticed. -/
theorem Transport.sendRecv_broken (hq : q ≠ .disconnect) (hfit : q.pdu.length ≤ 253)
    (h : a.Breaks) :
    ∃ e, (t.sendRecv slaveId q counter a).1 = .error e ∧ isRetryable e = true := by
  have hreq : (encodeRequestInto q []).1 = .ok () := by
    rw [encodeRequestInto_eq_ok.2 ⟨hfit, rfl⟩]
  have hsend : ∀ encodeFn e, a.write = .error e →
      sendFrame slaveId q encodeFn a.write = .error (.ofIoError e) := by
    intro encodeFn e hwrite
    rw [hwrite, sendFrame, encodeRequestInto_eq_ok.2 ⟨hfit, rfl⟩]
  cases h with
  | drain e rest hdrain he =>
      refine ⟨e, ?_, he⟩
      cases t with
      | rtu => rw [sendRecv, rtuSendRecv, hdrain]
      | ascii => rw [sendRecv, asciiSendRecv, if_neg hq, hdrain]
      | tcp client server => simp only [sendRecv, TcpClient.sendRecv, hdrain]
  | write e hquiet hwrite he =>
      refine ⟨.ofIoError e, ?_, he⟩
      obtain ⟨left, hdrain⟩ : ∃ left, drainStaleData a.drain = (.ok (), left) :=
        ⟨_, Prod.ext hquiet rfl⟩
      cases t with
      | rtu => simp only [sendRecv, rtuSendRecv, hdrain, hsend _ e hwrite]
      | ascii => simp only [sendRecv, asciiSendRecv, if_neg hq, hdrain, hsend _ e hwrite]
      | tcp client server =>
          simp only [sendRecv, TcpClient.sendRecv, hdrain, hsend _ e hwrite]
  | receive e hquiet hwrite hrecv he =>
      refine ⟨.ofIoError e, ?_, he⟩
      rw [sendRecv_sent ⟨hquiet, hreq, fun _ => hq⟩ hwrite]
      obtain ⟨rest, hrest⟩ := hrecv (t.requestFrame slaveId q counter)
      rw [hrest]
      cases t with
      | rtu =>
          obtain ⟨n, hexp⟩ := exists_expectedRtuPduLen hq
          rw [receive, rtuReceive]
          simp only [hexp, Option.map_some, Option.getD_some,
            readAtLeast_error (show ([] : Bytes).length < n + 1 + CRC_SIZE by simp [CRC_SIZE])]
      | ascii => rfl
      | tcp client server =>
          rw [receive, tcpReceive, readAtLeast_error (by decide)]

/-- **A client returns the response that arrives.** -/
theorem Transport.sendRecv_answered (hspeaks : t.Speaks slaveId q) (hasks : t.Asks q a.drain)
    (hwrite : a.write = .done) {rsp : Response} {n : ℕ} (hexp : expectedRtuPduLen q = some n)
    (hlen : rsp.pdu.length ≤ n) (hfit : rsp.pdu.length ≤ 253)
    (harr : ∀ frame, Arrives (t.responseFrame slaveId counter rsp) (a.recv frame)) :
    (t.sendRecv slaveId q counter a).1 = .ok (normResponse rsp) := by
  obtain ⟨hdrain, hreq, hascii⟩ := hasks
  cases t with
  | rtu => exact rtuSendRecv_ok hdrain hwrite hreq hexp hlen hfit (harr _)
  | ascii => exact asciiSendRecv_ok hdrain hwrite hreq (hascii rfl) hfit (harr _)
  | tcp client server =>
      rw [sendRecv_sent ⟨hdrain, hreq, hascii⟩ hwrite]
      have hp := rsp.one_lt_pdu_length
      have halike := (hspeaks.alike client server rfl).1
      obtain ⟨chunks, silence, hrecv, hne, hflat, hs⟩ :=
        harr ((Transport.tcp client server).requestFrame slaveId q counter)
      have hquiet : pending silence = [] :=
        Arrives.pending_eq ⟨[], silence, rfl, by simp, rfl, hs⟩
      have hbody : 1 < (server.body slaveId rsp.pdu).length ∧
          (server.body slaveId rsp.pdu).length ≤ 254 := by
        unfold TcpConfig.body
        split
        · rw [List.length_cons]
          omega
        · omega
      have hfield : (server.body slaveId rsp.pdu).length
            ≤ server.lengthField (server.body slaveId rsp.pdu).length ∧
          server.lengthField (server.body slaveId rsp.pdu).length
            ≤ (server.body slaveId rsp.pdu).length + 1 := by
        unfold TcpConfig.lengthField
        split <;> omega
      rw [responseFrame, encodeTcpFrame_eq] at hflat
      have hstrip : client.strip slaveId (server.body slaveId rsp.pdu) = rsp.pdu := by
        rw [TcpConfig.strip_body (by rw [halike]; exact id) hp, if_neg]
        rintro ⟨hc, hserver, -⟩
        rw [halike, hserver] at hc
        cases hc
      rw [receive, hrecv, tcpReceive_frame (List.length_pos_iff.1 (by omega)) (by omega) hfield.1
        hfield.2 hne hflat hquiet, hstrip, Response.tryFrom_pdu hfit]

end Client

/-! ### One attempt -/

/-- What one attempt meets on the line: what comes in before the request, how its write ends, the
reads in which the server gets the request frame, what the client gets of the bytes that the server
sends, and whether the transport can be rebuilt afterwards. -/
structure Passage where
  drain : List ReadEvent
  write : WriteEvent
  carry : Bytes → List Bytes
  deliver : Bytes → List ReadEvent
  rebuilt : Bool

/-- What the client meets, when the server sends `sent`. -/
def Passage.attempt (p : Passage) (sent : Bytes) : Attempt :=
  ⟨p.drain, p.write, fun _ => p.deliver sent, p.rebuilt⟩

/-- A line that loses frames, but garbles none: the server gets the request frame whole or not at
all, and so does the client the answer. -/
structure Passage.Honest (p : Passage) (t : Transport) (slaveId : UInt8) (q : Request) : Prop where
  carried : ∀ counter, p.carry (t.requestFrame slaveId q counter) = [] ∨
    t.Cut (t.requestFrame slaveId q counter) (p.carry (t.requestFrame slaveId q counter))
  delivered : ∀ sent, pending (p.deliver sent) = [] ∨ Arrives sent (p.deliver sent)

/-- A line that loses nothing: the request is sent, carried, and answered. -/
structure Passage.Lossless (p : Passage) (t : Transport) (slaveId : UInt8) (q : Request) :
    Prop where
  asks : t.Asks q p.drain
  written : p.write = .done
  carried : ∀ counter,
    t.Cut (t.requestFrame slaveId q counter) (p.carry (t.requestFrame slaveId q counter))
  delivered : ∀ sent, Arrives sent (p.deliver sent)

theorem Passage.Lossless.honest {p : Passage} {t : Transport} {slaveId : UInt8} {q : Request}
    (h : p.Lossless t slaveId q) : p.Honest t slaveId q :=
  ⟨fun counter => .inr (h.carried counter), fun sent => .inr (h.delivered sent)⟩

/-- A line that breaks, whatever it carries before; the transport can be rebuilt. -/
structure Passage.Breaks (p : Passage) : Prop where
  lost : ∀ sent, (p.attempt sent).Breaks
  rebuilt : p.rebuilt = true

/-- A line that hands everything on in one piece. -/
def Passage.direct : Passage :=
  ⟨[.elapsed], .done, fun frame => [frame],
    fun sent => if sent = [] then [] else [.data sent, .elapsed], true⟩

/-- A line that breaks behind the request. -/
def Passage.reset : Passage :=
  ⟨[.elapsed], .done, fun frame => [frame], fun _ => [.error ⟨.connectionReset, "reset"⟩], true⟩

/-- A frame that comes in one read. -/
theorem Transport.cut_whole (t : Transport) (slaveId : UInt8) (q : Request) (counter : UInt16) :
    t.Cut (t.requestFrame slaveId q counter) [t.requestFrame slaveId q counter] := by
  have hsize : 1 < (t.requestFrame slaveId q counter).length := by
    cases t with
    | rtu =>
        rw [requestFrame, encodeRtuFrame_nil_length, List.length_cons]
        omega
    | ascii =>
        rw [requestFrame, encodeAsciiFrameInto_line, List.length_append]
        simp
    | tcp client server =>
        rw [requestFrame, encodeTcpFrame_eq, List.length_append, mbap_length]
        omega
  refine ⟨?_, List.append_nil _, ?_⟩
  · intro bs hbs
    rw [List.mem_singleton.1 hbs, ← List.length_pos_iff]
    omega
  · cases t with
    | rtu =>
        intro k hk hlen
        obtain rfl : k = 0 := by simpa using hk
        simp [MIN_RTU_FRAME] at hlen
    | ascii => trivial
    | tcp client server =>
        intro _ k
        cases k with
        | zero =>
            rw [List.take_zero, List.flatten_nil, List.length_nil]
            omega
        | succ k => simp

theorem Passage.direct_lossless {t : Transport} {slaveId : UInt8} {q : Request}
    (hreq : (encodeRequestInto q []).1 = .ok ()) (hq : q ≠ .disconnect) :
    Passage.direct.Lossless t slaveId q where
  asks := ⟨rfl, hreq, fun _ => hq⟩
  written := rfl
  carried := t.cut_whole slaveId q
  delivered := by
    intro sent
    by_cases hsent : sent = []
    · exact ⟨[], [], by simp [direct, hsent], by simp, hsent.symm, by simp [Silent]⟩
    · exact ⟨[sent], [.elapsed], by simp [direct, hsent], by simpa using hsent, List.append_nil _,
        by simp [Silent]⟩

theorem Passage.reset_honest (t : Transport) (slaveId : UInt8) (q : Request) :
    Passage.reset.Honest t slaveId q :=
  ⟨fun counter => .inr (t.cut_whole slaveId q counter), fun _ => .inl rfl⟩

theorem Passage.reset_breaks : Passage.reset.Breaks :=
  ⟨fun _ => .receive _ rfl rfl (fun _ => ⟨_, rfl⟩) rfl, rfl⟩

/-- The two ends of a line: the counter of the client, and the server. -/
structure Link (t : Transport) where
  counter : UInt16
  server : ServerLoop t.Tag SlaveStore

section Link

variable {t : Transport}

/-- One attempt of a call.  The server gets what the line carries of the request that is sent,
however the write of the client ends, and the client gets what the line delivers of the bytes that
the server sends. -/
def Link.attempt (k : Link t) (slaveId : UInt8) (q : Request) (p : Passage) :
    Except ModbusError Response × Link t :=
  let server :=
    if t.Asks q p.drain then t.serve k.server (p.carry (t.requestFrame slaveId q k.counter))
    else k.server
  let sent := (server.written.drop k.server.written.length).flatten
  let (result, counter) := t.sendRecv slaveId q k.counter (p.attempt sent)
  (result, ⟨counter, server⟩)

variable {k : Link t} {slaveId : UInt8} {q : Request} {p : Passage}

theorem Link.attempt_unasked (h : ¬ t.Asks q p.drain) :
    (∃ e, (k.attempt slaveId q p).1 = .error e) ∧ (k.attempt slaveId q p).2.server = k.server := by
  simp only [attempt, if_neg h]
  exact ⟨Transport.sendRecv_unsent fun hsent => h hsent.1, trivial⟩

/-- A request that is lost. -/
theorem Link.attempt_lost (hlost : p.carry (t.requestFrame slaveId q k.counter) = [])
    (hnone : pending (p.deliver []) = []) :
    (∃ e, (k.attempt slaveId q p).1 = .error e) ∧ (k.attempt slaveId q p).2.server = k.server := by
  by_cases hasks : t.Asks q p.drain
  · simp only [attempt, if_pos hasks, hlost, Transport.serve_nil, List.drop_length,
      List.flatten_nil]
    exact ⟨Transport.sendRecv_unanswered fun _ => hnone, trivial⟩
  · exact attempt_unasked hasks

/-- A request that the server gets: the client waits for the frame of the answer. -/
theorem Link.attempt_carried (hk : k.server.Waits) (hspeaks : t.Speaks slaveId q)
    (hasks : t.Asks q p.drain)
    (hcut : t.Cut (t.requestFrame slaveId q k.counter)
      (p.carry (t.requestFrame slaveId q k.counter))) :
    let rsp := responseOf q.functionCode.value (k.server.store.call q).1
    (k.attempt slaveId q p).1 = (t.sendRecv slaveId q k.counter
        (p.attempt (t.responseFrame slaveId k.counter rsp))).1 ∧
      (k.attempt slaveId q p).2.server.Waits ∧
      (k.attempt slaveId q p).2.server.store = (k.server.store.call q).2 := by
  intro rsp
  have hfit := (encodeRequestInto_eq_ok.1 (Prod.ext hasks.2.1 rfl)).1
  obtain ⟨hwaits, hstore, hwritten⟩ := Transport.serve_frame hk hspeaks hfit hcut
  simp only [attempt, if_pos hasks, hwritten, List.drop_left, List.flatten_singleton]
  exact ⟨rfl, hwaits, hstore⟩

/-- **What one attempt does**: it fails, and the store may have been asked or not; or it returns
what the store answers, and the store has been asked. -/
theorem Link.attempt_cases (hk : k.server.Waits) (hspeaks : t.Speaks slaveId q)
    (hp : p.Honest t slaveId q) :
    (k.attempt slaveId q p).2.server.Waits ∧
      (((∃ e, (k.attempt slaveId q p).1 = .error e) ∧
          ((k.attempt slaveId q p).2.server.store = k.server.store ∨
            (k.attempt slaveId q p).2.server.store = (k.server.store.call q).2)) ∨
        (k.attempt slaveId q p).1 = .ok (visibleAnswer q (k.server.store.call q).1) ∧
          (k.attempt slaveId q p).2.server.store = (k.server.store.call q).2) := by
  by_cases hasks : t.Asks q p.drain
  · rcases hp.carried k.counter with hlost | hcut
    · have hnone : pending (p.deliver []) = [] := (hp.delivered []).elim id Arrives.pending_eq
      obtain ⟨herr, hserver⟩ := attempt_lost hlost hnone
      rw [hserver]
      exact ⟨hk, .inl ⟨herr, .inl rfl⟩⟩
    · obtain ⟨hresult, hwaits, hstore⟩ := attempt_carried hk hspeaks hasks hcut
      refine ⟨hwaits, ?_⟩
      rw [hresult, hstore]
      rcases hp.delivered (t.responseFrame slaveId k.counter
        (responseOf q.functionCode.value (k.server.store.call q).1)) with hnone | harr
      · exact .inl ⟨Transport.sendRecv_unanswered fun _ => hnone, .inr rfl⟩
      · by_cases hwrite : p.write = .done
        · obtain ⟨hq, hrange⟩ := Request.tryFrom_inRange hspeaks.valid
          obtain ⟨n, hexp, hlen, hfit, hnorm⟩ := k.server.store.call_response hq hrange
          refine .inr ⟨?_, rfl⟩
          rw [← hnorm]
          exact Transport.sendRecv_answered hspeaks hasks hwrite hexp hlen hfit fun _ => harr
        · exact .inl ⟨Transport.sendRecv_unsent fun hsent => hwrite hsent.2, .inr rfl⟩
  · obtain ⟨herr, hserver⟩ := @attempt_unasked _ k slaveId q p hasks
    rw [hserver]
    exact ⟨hk, .inl ⟨herr, .inl rfl⟩⟩

/-- An attempt on a line that breaks is followed by another one. -/
theorem Link.attempt_broken (hspeaks : t.Speaks slaveId q) (hfit : q.pdu.length ≤ 253)
    (hp : p.Breaks) :
    ∃ e, (k.attempt slaveId q p).1 = .error e ∧ isRetryable e = true :=
  Transport.sendRecv_broken (Request.tryFrom_inRange hspeaks.valid).1 hfit (hp.lost _)

/-- An attempt on a line that loses nothing returns what the store answers. -/
theorem Link.attempt_lossless (hk : k.server.Waits) (hspeaks : t.Speaks slaveId q)
    (hp : p.Lossless t slaveId q) :
    (k.attempt slaveId q p).1 = .ok (visibleAnswer q (k.server.store.call q).1) ∧
      (k.attempt slaveId q p).2.server.Waits ∧
      (k.attempt slaveId q p).2.server.store = (k.server.store.call q).2 := by
  obtain ⟨hresult, hwaits, hstore⟩ := attempt_carried hk hspeaks hp.asks (hp.carried k.counter)
  refine ⟨?_, hwaits, hstore⟩
  obtain ⟨hq, hrange⟩ := Request.tryFrom_inRange hspeaks.valid
  obtain ⟨n, hexp, hlen, hfit, hnorm⟩ := k.server.store.call_response hq hrange
  rw [hresult, ← hnorm]
  exact Transport.sendRecv_answered hspeaks hp.asks hp.written hexp hlen hfit
    fun _ => hp.delivered _

end Link

end OmsModbus
