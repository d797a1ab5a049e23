/-
**The TCP client.**

A call drains what is left of earlier answers, sends its request and reads one frame: the header
first, then as many bytes as the header announces, and one more byte if it comes, since the length
may or may not count the unit id.  The client checks neither the transaction id nor the unit id of
the frame it accepts.  A unit id in front of the PDU is cut off when the client is configured to
send one itself.

Main definitions:

* `OmsModbus.nextTid` — the transaction id of the next request;
* `OmsModbus.tcpReceive` — reading the answer;
* `OmsModbus.TcpClient.sendRecv` — one call.

Main results:

* `OmsModbus.tcpReceive_conserves` — what is read is a prefix of what comes in;
* `OmsModbus.tcpReceive_frame` — **a frame that comes in any chunks is read whole**;
* `OmsModbus.sendRecv_decodes_iff` — **the client decodes the answer of a device exactly when it
  does not take the function code for a unit id**.
-/

import OmsModbus.SendRecv
import OmsModbus.TcpFraming

set_option relaxedAutoImplicit false
set_option autoImplicit false

namespace OmsModbus

open Words

/-! ### The client -/

/-- The transaction id of the next request, and the counter after it. -/
def nextTid (mode : TidMode) (counter : UInt16) : UInt16 × UInt16 :=
  match mode with
  | .fixed v => (v, counter)
  | .auto => (counter, counter + 1)

/-- What a client remembers between calls. -/
structure TcpClient where
  tcpConfig : TcpConfig
  tcpCounter : UInt16
  deriving DecidableEq, Repr

/-- A client that has just connected. -/
def TcpClient.connect (config : TcpConfig) : TcpClient := ⟨config, 1⟩

/-- One more byte, if it comes in time. -/
def probe (readBuf : Bytes) : List ReadEvent → Bytes × List ReadEvent
  | .data bs :: events => (readBuf ++ bs, events)
  | _ :: events => (readBuf, events)
  | [] => (readBuf, [])

/-- The PDU of the frame in the buffer, with a repeated unit id cut off, as a response. -/
def decodeTcpResponse (cfg : TcpConfig) (slaveId : UInt8) (payloadLen : ℕ) (readBuf : Bytes) :
    Except ModbusError Response :=
  let available := readBuf.length
  let minTotal := MBAP_PREFIX_SIZE + payloadLen
  let maxTotal := MBAP_HEADER_SIZE + payloadLen
  if available < minTotal then .error (.timeout TCP_RECV_TIMEOUT)
  else
    let pdu :=
      if available ≥ maxTotal then (readBuf.take maxTotal).drop MBAP_HEADER_SIZE
      else (readBuf.take minTotal).drop MBAP_HEADER_SIZE
    if pdu = [] then .error (.protocol TCP_EMPTY_RESP)
    else
      let pdu :=
        if cfg.unitIdInBody ∧ pdu.length > 1 ∧ pdu.head? = some slaveId then pdu.tail else pdu
      match Response.tryFrom pdu with
      | .error e => .error (.protocol s!"{PDU_DECODE_ERROR} {e.msg}")
      | .ok rsp => .ok rsp

/-- Reading the answer: the header, the bytes it announces, and one more if it comes. -/
def tcpReceive (cfg : TcpConfig) (slaveId : UInt8) (events : List ReadEvent) :
    Except ModbusError Response × Bytes × List ReadEvent :=
  match readAtLeast MBAP_HEADER_SIZE [] events with
  | (.error e, buf, events) => (.error e, buf, events)
  | (.ok (), buf, events) =>
    match readMbapHeader buf with
    | none => (.error (.timeout TCP_RECV_TIMEOUT), buf, events)
    | some h =>
      if h.protoId ≠ 0 then (.error (.protocol "TCP: invalid Protocol ID"), buf, events)
      else if h.payloadLen > MAX_TCP_ADU_SIZE then
        (.error (.protocol "TCP: MBAP Length exceeds max ADU"), buf, events)
      else
        match readAtLeast (MBAP_PREFIX_SIZE + h.payloadLen) buf events with
        | (.error e, buf, events) => (.error e, buf, events)
        | (.ok (), buf, events) =>
          let (buf, events) :=
            if buf.length < MBAP_HEADER_SIZE + h.payloadLen then probe buf events
            else (buf, events)
          (decodeTcpResponse cfg slaveId h.payloadLen buf, buf, events)

/-- What a call did: its result, the request it sent, the bytes it read, and the events behind
them. -/
structure TcpCall where
  result : Except ModbusError Response
  sent : Option (UInt16 × Bytes)
  readBuf : Bytes
  left : List ReadEvent

/-- One call.  `recv frame` is what the reads bring once `frame` was written. -/
def TcpClient.sendRecv (c : TcpClient) (slaveId : UInt8) (request : Request)
    (drain : List ReadEvent) (write : WriteEvent) (recv : Bytes → List ReadEvent) :
    TcpCall × TcpClient :=
  match drainStaleData drain with
  | (.error e, _) => (⟨.error e, none, [], []⟩, c)
  | (.ok (), _) =>
    let cfg := c.tcpConfig
    let (tid, counter) := nextTid cfg.tid c.tcpCounter
    let c := { c with tcpCounter := counter }
    match sendFrame slaveId request (fun data => encodeTcpFrame data [] cfg tid) write with
    | .error e => (⟨.error e, none, [], []⟩, c)
    | .ok frame =>
      let (result, readBuf, left) := tcpReceive cfg slaveId (recv frame)
      (⟨result, some (tid, frame), readBuf, left⟩, c)

/-! ### What a call reads -/

theorem probe_conserves (buf : Bytes) (events : List ReadEvent) :
    buf ++ pending events = (probe buf events).1 ++ pending (probe buf events).2 := by
  match events with
  | [] => rfl
  | .data bs :: events => simp [probe, pending]
  | .error _ :: events => rfl
  | .elapsed :: events => rfl
  | .expired :: events => rfl

theorem probe_prefix (buf : Bytes) (events : List ReadEvent) :
    ∃ more, (probe buf events).1 = buf ++ more := by
  match events with
  | [] => exact ⟨[], (List.append_nil _).symm⟩
  | .data bs :: events => exact ⟨bs, rfl⟩
  | .error _ :: events => exact ⟨[], (List.append_nil _).symm⟩
  | .elapsed :: events => exact ⟨[], (List.append_nil _).symm⟩
  | .expired :: events => exact ⟨[], (List.append_nil _).symm⟩

/-- When no byte is to come, the probe finds none. -/
theorem probe_of_pending_nil (buf : Bytes) {events : List ReadEvent} (h : pending events = []) :
    (probe buf events).1 = buf := by
  match events with
  | [] => rfl
  | .data bs :: events =>
    have hbs : bs = [] := (List.append_eq_nil_iff.1 h).1
    rw [probe, hbs, List.append_nil]
  | .error _ :: events => rfl
  | .elapsed :: events => rfl
  | .expired :: events => rfl

/-- A header stays where it is when bytes are appended. -/
theorem readMbapHeader_append {buf : Bytes} {h : MbapHeader} (more : Bytes)
    (hread : readMbapHeader buf = some h) : readMbapHeader (buf ++ more) = some h := by
  unfold readMbapHeader at hread
  split at hread
  · exact hread
  · cases hread

/-- The branches of a receive: it gives up with an error, or it reads a header, and decodes the
frame behind it from what the second phase and the probe have read. -/
theorem tcpReceive_cases {cfg : TcpConfig} {slaveId : UInt8} {events left : List ReadEvent}
    {result : Except ModbusError Response} {buf : Bytes}
    (h : tcpReceive cfg slaveId events = (result, buf, left)) :
    pending events = buf ++ pending left ∧
      ((∃ e, result = .error e) ∨
        ∃ hdr, readMbapHeader buf = some hdr ∧
          result = decodeTcpResponse cfg slaveId hdr.payloadLen buf) := by
  rw [tcpReceive] at h
  split at h
  · next h₁ =>
    cases h
    exact ⟨readAtLeast_conserves h₁, .inl ⟨_, rfl⟩⟩
  · next buf₁ events₁ h₁ =>
    have hcons := readAtLeast_conserves h₁
    rw [List.nil_append] at hcons
    rw [hcons]
    split at h
    · cases h
      exact ⟨rfl, .inl ⟨_, rfl⟩⟩
    · next hdr hread =>
      split at h
      · cases h
        exact ⟨rfl, .inl ⟨_, rfl⟩⟩
      · split at h
        · cases h
          exact ⟨rfl, .inl ⟨_, rfl⟩⟩
        · split at h
          · next h₂ =>
            cases h
            exact ⟨readAtLeast_conserves h₂, .inl ⟨_, rfl⟩⟩
          · next buf₂ events₂ h₂ =>
            rw [readAtLeast_conserves h₂]
            obtain ⟨more, rfl⟩ := readAtLeast_prefix h₂
            have hread₂ := readMbapHeader_append more hread
            by_cases hlt : (buf₁ ++ more).length < MBAP_HEADER_SIZE + hdr.payloadLen
            · simp only [if_pos hlt] at h
              cases h
              obtain ⟨byte, hbyte⟩ := probe_prefix (buf₁ ++ more) events₂
              refine ⟨probe_conserves _ _, .inr ⟨hdr, ?_, rfl⟩⟩
              rw [hbyte]
              exact readMbapHeader_append byte hread₂
            · simp only [if_neg hlt] at h
              cases h
              exact ⟨rfl, .inr ⟨hdr, hread₂, rfl⟩⟩

/-- What is read is a prefix of what comes in. -/
theorem tcpReceive_conserves {cfg : TcpConfig} {slaveId : UInt8} {events left : List ReadEvent}
    {result : Except ModbusError Response} {buf : Bytes}
    (h : tcpReceive cfg slaveId events = (result, buf, left)) :
    pending events = buf ++ pending left := (tcpReceive_cases h).1

/-- A call that succeeds has read a whole header. -/
theorem tcpReceive_header {cfg : TcpConfig} {slaveId : UInt8} {events left : List ReadEvent}
    {rsp : Response} {buf : Bytes} (h : tcpReceive cfg slaveId events = (.ok rsp, buf, left)) :
    ∃ hdr, readMbapHeader buf = some hdr := by
  obtain ⟨e, he⟩ | ⟨hdr, hread, -⟩ := (tcpReceive_cases h).2
  · cases he
  · exact ⟨hdr, hread⟩

/-! ### A frame in chunks -/

/-- The PDU the client takes from the body of a frame. -/
def TcpConfig.strip (cfg : TcpConfig) (slaveId : UInt8) (body : Bytes) : Bytes :=
  if cfg.unitIdInBody ∧ body.length > 1 ∧ body.head? = some slaveId then body.tail else body

/-- The response in the body of a whole frame. -/
theorem decodeTcpResponse_frame {cfg : TcpConfig} {slaveId unitId : UInt8} {tid : UInt16} {len : ℕ}
    {body : Bytes} (hne : body ≠ []) (h₁ : body.length ≤ len) (h₂ : len ≤ body.length + 1) :
    decodeTcpResponse cfg slaveId len (mbap tid len unitId ++ body)
      = match Response.tryFrom (cfg.strip slaveId body) with
        | .error e => .error (.protocol s!"{PDU_DECODE_ERROR} {e.msg}")
        | .ok rsp => .ok rsp := by
  have hsize : (mbap tid len unitId ++ body).length = 7 + body.length := by simp
  have hdrop : (mbap tid len unitId ++ body).drop 7 = body := rfl
  have hcut : ∀ n, 7 + body.length ≤ n → ((mbap tid len unitId ++ body).take n).drop 7 = body := by
    intro n hn
    rw [List.take_of_length_le (by omega), hdrop]
  rw [decodeTcpResponse]
  simp only [hsize, MBAP_PREFIX_SIZE, MBAP_HEADER_SIZE]
  rw [if_neg (show ¬ 7 + body.length < 6 + len by omega)]
  rw [show (if 7 + body.length ≥ 7 + len then ((mbap tid len unitId ++ body).take (7 + len)).drop 7
      else ((mbap tid len unitId ++ body).take (6 + len)).drop 7) = body by
    split
    · exact hcut _ (by omega)
    · exact hcut _ (by omega)]
  rw [if_neg hne]
  rfl

/-- The header is read with what comes along with it. -/
theorem readAtLeast_mbap {tid : UInt16} {len : ℕ} {unitId : UInt8} {body : Bytes}
    {chunks : List Bytes} (hcne : ∀ c ∈ chunks, c ≠ [])
    (hflat : chunks.flatten = mbap tid len unitId ++ body) (rest : List ReadEvent) :
    ∃ used left data, chunks = used ++ left ∧ used.flatten = mbap tid len unitId ++ data ∧
      readAtLeast 7 [] (chunks.map .data ++ rest)
        = (.ok (), used.flatten, left.map .data ++ rest) := by
  have hsize : chunks.flatten.length = 7 + body.length := by
    rw [hflat]
    simp
  obtain ⟨used, left, rfl, hused, hread⟩ :=
    readAtLeast_chunks 7 [] hcne (by rw [hsize]; simp) rest
  rw [List.nil_append] at hused hread
  rw [List.flatten_append] at hflat
  have htake : used.flatten.take 7 = mbap tid len unitId := by
    have hcut := congrArg (List.take 7) hflat
    rw [List.take_append_of_le_length hused] at hcut
    exact hcut
  refine ⟨used, left, used.flatten.drop 7, rfl, ?_, hread⟩
  rw [← htake, List.take_append_drop]

/-- What is left is at most the one byte the probe waits for. -/
theorem probe_left {buf whole : Bytes} {left : List Bytes} {rest : List ReadEvent} {n : ℕ}
    (hne : ∀ c ∈ left, c ≠ []) (hwhole : buf ++ left.flatten = whole) (hle : whole.length ≤ n)
    (hone : whole.length ≤ buf.length + 1) (hrest : pending rest = []) :
    (if buf.length < n then probe buf (left.map .data ++ rest)
      else (buf, left.map .data ++ rest)).1 = whole := by
  have htotal := congrArg List.length hwhole
  rw [List.length_append] at htotal
  cases left with
  | nil =>
      rw [List.flatten_nil, List.append_nil] at hwhole
      rw [List.map_nil, List.nil_append, ← hwhole]
      split
      · exact probe_of_pending_nil _ hrest
      · rfl
  | cons c cs =>
      have hc : 0 < c.length := List.length_pos_iff.2 (hne c (List.mem_cons_self ..))
      rw [List.flatten_cons, List.length_append] at htotal
      have hcs : cs.flatten = [] := List.length_eq_zero_iff.1 (by omega)
      rw [if_pos (by omega), List.map_cons, List.cons_append, probe, ← hwhole, List.flatten_cons,
        hcs, List.append_nil]

/-- **A frame that comes in any chunks is read whole**, whether or not its length counts the unit
id. -/
theorem tcpReceive_frame {cfg : TcpConfig} {slaveId unitId : UInt8} {tid : UInt16} {len : ℕ}
    {body : Bytes} {chunks : List Bytes} {rest : List ReadEvent} (hne : body ≠ [])
    (hlen : len ≤ 260) (h₁ : body.length ≤ len) (h₂ : len ≤ body.length + 1)
    (hcne : ∀ c ∈ chunks, c ≠ []) (hflat : chunks.flatten = mbap tid len unitId ++ body)
    (hrest : pending rest = []) :
    (tcpReceive cfg slaveId (chunks.map .data ++ rest)).1
      = match Response.tryFrom (cfg.strip slaveId body) with
        | .error e => .error (.protocol s!"{PDU_DECODE_ERROR} {e.msg}")
        | .ok rsp => .ok rsp := by
  have hsize : (mbap tid len unitId ++ body).length = 7 + body.length := by simp
  obtain ⟨used₁, left₁, data, rfl, hdata, hread₁⟩ := readAtLeast_mbap hcne hflat rest
  rw [List.flatten_append] at hflat
  have hhdr : readMbapHeader used₁.flatten = some ⟨tid, 0, len, unitId⟩ := by
    rw [hdata]
    exact readMbapHeader_mbap (by omega) unitId data
  -- the bytes it announces
  have hcne₁ : ∀ c ∈ left₁, c ≠ [] := fun c hc => hcne c (List.mem_append_right _ hc)
  have henough : 6 + len ≤ used₁.flatten.length + left₁.flatten.length := by
    rw [← List.length_append, hflat, hsize]
    omega
  obtain ⟨used₂, left₂, rfl, hused₂, hread₂⟩ :=
    readAtLeast_chunks (6 + len) used₁.flatten hcne₁ henough rest
  rw [List.flatten_append, ← List.append_assoc] at hflat
  have hwhole := probe_left (fun c hc => hcne₁ c (List.mem_append_right _ hc)) hflat
    (show _ ≤ 7 + len by omega) (by omega) hrest
  rw [tcpReceive, MBAP_HEADER_SIZE, hread₁]
  simp only [hhdr, ne_eq, not_true_eq_false, if_false, MAX_TCP_ADU_SIZE,
    if_neg (show ¬ len > 260 by omega), MBAP_PREFIX_SIZE, hread₂, hwhole]
  exact decodeTcpResponse_frame hne h₁ h₂

/-! ### The answer of a device -/

/-- What a call gives back, once its request is sent. -/
theorem TcpClient.sendRecv_result {c : TcpClient} {slaveId : UInt8} {request : Request}
    {drain : List ReadEvent} (recv : Bytes → List ReadEvent)
    (hdrain : (drainStaleData drain).1 = .ok ())
    (hreq : (encodeRequestInto request []).1 = .ok ()) :
    (c.sendRecv slaveId request drain .done recv).1.result
      = (tcpReceive c.tcpConfig slaveId (recv (encodeTcpFrame (slaveId :: request.pdu) []
          c.tcpConfig (nextTid c.tcpConfig.tid c.tcpCounter).1))).1 := by
  have hdrain' : drainStaleData drain = (.ok (), (drainStaleData drain).2) := Prod.ext hdrain rfl
  rw [TcpClient.sendRecv, hdrain']
  simp only [sendFrame_done _ hreq]

/-- The client cuts the first byte of the PDU off when it takes the function code for a unit
id. -/
theorem TcpConfig.strip_body {cc sc : TcpConfig} {slaveId : UInt8} {p : Bytes}
    (hecho : sc.unitIdInBody = true → cc.unitIdInBody = true) (hp : 1 < p.length) :
    cc.strip slaveId (sc.body slaveId p)
      = if cc.unitIdInBody = true ∧ sc.unitIdInBody = false ∧ p.head? = some slaveId then p.tail
        else p := by
  unfold TcpConfig.strip TcpConfig.body
  cases hs : sc.unitIdInBody with
  | true =>
      rw [if_pos rfl, if_pos ⟨hecho hs, by simp; omega, rfl⟩]
      simp
  | false =>
      simp only [Bool.false_eq_true, if_false, true_and]
      by_cases hc : cc.unitIdInBody = true ∧ p.head? = some slaveId
      · rw [if_pos ⟨hc.1, hp, hc.2⟩, if_pos hc]
      · rw [if_neg hc, if_neg fun h => hc ⟨h.1, h.2.2⟩]

/-- **The client decodes the answer of a device exactly when it does not take the function code for
a unit id.** -/
theorem sendRecv_decodes_iff (c : TcpClient) (sc : TcpConfig) (slaveId : UInt8) (tid : UInt16)
    (request : Request) (rsp : Response) (p : Bytes) (chunks : List Bytes)
    (drain rest : List ReadEvent)
    (hecho : sc.unitIdInBody = true → c.tcpConfig.unitIdInBody = true)
    (henc : encodeResponseInto rsp [] = (.ok (), p))
    (hdrain : (drainStaleData drain).1 = .ok ())
    (hreq : (encodeRequestInto request []).1 = .ok ())
    (hne : ∀ chunk ∈ chunks, chunk ≠ [])
    (hchunks : chunks.flatten = encodeTcpFrame (slaveId :: p) [] sc tid)
    (hrest : pending rest = []) :
    (∃ r, Response.tryFrom p = .ok r ∧
        (c.sendRecv slaveId request drain .done
          (fun _ => chunks.map .data ++ rest)).1.result = .ok r) ↔
      ¬ (c.tcpConfig.unitIdInBody = true ∧ sc.unitIdInBody = false ∧ p.head? = some slaveId) := by
  obtain ⟨hfit, rfl⟩ := encodeResponseInto_eq_ok.1 henc
  rw [List.nil_append] at *
  have hp := rsp.one_lt_pdu_length
  rw [TcpClient.sendRecv_result _ hdrain hreq]
  -- the frame is read whole
  rw [encodeTcpFrame_eq] at hchunks
  have hbody : rsp.pdu.length ≤ (sc.body slaveId rsp.pdu).length ∧
      (sc.body slaveId rsp.pdu).length ≤ 254 := by
    unfold TcpConfig.body
    split
    · rw [List.length_cons]
      omega
    · omega
  have hfield : (sc.body slaveId rsp.pdu).length ≤ sc.lengthField (sc.body slaveId rsp.pdu).length ∧
      sc.lengthField (sc.body slaveId rsp.pdu).length ≤ (sc.body slaveId rsp.pdu).length + 1 := by
    unfold TcpConfig.lengthField
    split <;> omega
  rw [tcpReceive_frame (List.length_pos_iff.1 (by omega)) (by omega) hfield.1 hfield.2 hne hchunks
    hrest, Response.tryFrom_pdu hfit, TcpConfig.strip_body hecho hp]
  constructor
  · intro ⟨r, hr, hres⟩ hcut
    cases hr
    rw [if_pos hcut] at hres
    -- a PDU without its first byte is too short for the response
    cases hdec : Response.tryFrom rsp.pdu.tail with
    | error e =>
        rw [hdec] at hres
        cases hres
    | ok r =>
        rw [hdec] at hres
        cases hres
        have hle := Response.pdu_length_le hdec
        rw [normResponse_pdu, List.length_tail] at hle
        omega
  · intro hcut
    rw [if_neg hcut, Response.tryFrom_pdu hfit]
    exact ⟨_, rfl, rfl⟩

/-- A gateway client and a plain device, an answer in two pieces. -/
theorem sendRecv_decodes_iff_gateway :
    (∃ r, Response.tryFrom [3, 2, 0, 5] = .ok r ∧
        ((TcpClient.connect .gateway).sendRecv 1 (.readHoldingRegisters 0 1) [.elapsed] .done
          (fun _ => [[0, 1, 0, 0, 0], [5, 1, 3, 2, 0, 5]].map .data ++ [.elapsed])).1.result
            = .ok r) ↔
      ¬ (TcpConfig.gateway.unitIdInBody = true ∧ TcpConfig.standard.unitIdInBody = false ∧
        ([3, 2, 0, 5] : Bytes).head? = some 1) :=
  sendRecv_decodes_iff (.connect .gateway) .standard 1 1 (.readHoldingRegisters 0 1)
    (.readHoldingRegisters [5]) [3, 2, 0, 5] [[0, 1, 0, 0, 0], [5, 1, 3, 2, 0, 5]] [.elapsed]
    [.elapsed] (by decide) (by decide) (by decide) (by decide) (by decide) (by decide) (by decide)

/-- Unit 3 answers with a holding register; the gateway client cuts off the function code, and
reads an empty list of discrete inputs. -/
theorem sendRecv_strips_function_code :
    encodeResponseInto (.readHoldingRegisters [5]) [] = (.ok (), [3, 2, 0, 5]) ∧
      Response.tryFrom [3, 2, 0, 5] = .ok (.readHoldingRegisters [5]) ∧
      ((TcpClient.connect .gateway).sendRecv 3 (.readHoldingRegisters 0 1) [.elapsed] .done
        (fun _ => [encodeTcpFrame (3 :: [3, 2, 0, 5]) [] .standard 1].map .data
          ++ [.elapsed])).1.result = .ok (.readDiscreteInputs []) := by
  refine ⟨?_, ?_, ?_⟩ <;> rfl

end OmsModbus
