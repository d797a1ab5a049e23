/-
**Modbus TCP: frames and the server.**

A TCP frame is a header of seven bytes — transaction id, protocol id, length, unit id — and a
body.  Two things about it are not fixed by the standard the devices follow: whether the length
counts the unit id, and whether the unit id is repeated in front of the PDU.  The server does not
know the configuration of its client and guesses both: it tries the longer of the two frame lengths
first, and reads the body with a repeated unit id first.

Main definitions:

* `OmsModbus.TcpConfig` — how the header is built;
* `OmsModbus.encodeTcpFrame` — the frame of `[slaveId, pdu..]`;
* `OmsModbus.tryParseTcpFrame` — the parser of the server, with its two guesses;
* `OmsModbus.isTcpHeaderCorrupt` — when the server gives the buffer up;
* `OmsModbus.handleTcpConnection` — the server over the reads of a connection.

Main results:

* `OmsModbus.tryParseTcpFrame_mbap` — what the parser does with a buffer that starts with a
  header;
* `OmsModbus.tryParseTcpFrame_weight` — a request it finds takes up its own length and a header;
* `OmsModbus.handleTcpConnection_eq` — **the server hands on what the parser takes off the
  buffer, read by read**.
-/

import OmsModbus.Server

set_option relaxedAutoImplicit false
set_option autoImplicit false

namespace OmsModbus

open Words StreamFraming

/-! ### Configuration -/

/-- How transaction ids are made. -/
inductive TidMode
  | fixed (v : UInt16)
  | auto
  deriving DecidableEq, Repr

/-- Whether the length counts the unit id. -/
inductive LengthMode
  | standard
  | pduOnly
  deriving DecidableEq, Repr

/-- How the header is built. -/
structure TcpConfig where
  tid : TidMode
  unitIdInBody : Bool
  lengthMode : LengthMode
  deriving DecidableEq, Repr

/-- The standard: transaction id 0, the unit id in the header only. -/
def TcpConfig.standard : TcpConfig := ⟨.fixed 0, false, .standard⟩

/-- For gateways: transaction ids from a counter, the unit id in the body too. -/
def TcpConfig.gateway : TcpConfig := ⟨.auto, true, .standard⟩

def MBAP_HEADER_SIZE : ℕ := 7
def MBAP_PREFIX_SIZE : ℕ := 6
def MAX_ADU_SIZE : ℕ := 256
def MAX_TCP_ADU_SIZE : ℕ := 260
def MAX_TCP_BUF_BYTES : ℕ := 1040

/-! ### Frames -/

/-- Appending the frame of `[slaveId, pdu..]`. -/
def encodeTcpFrame (data buf : Bytes) (config : TcpConfig) (tid : UInt16) : Bytes :=
  let (unitId, pdu) : UInt8 × Bytes :=
    match data with
    | [] => (1, [])
    | unitId :: pdu => (unitId, pdu)
  let extra : UInt16 := if config.unitIdInBody then 1 else 0
  let len : UInt16 :=
    match config.lengthMode with
    | .standard => UInt16.ofNat pdu.length + 1 + extra
    | .pduOnly => UInt16.ofNat pdu.length + extra
  let buf := pushU16 (pushU16 (pushU16 buf tid) 0) len
  let buf := putU8 buf unitId
  let buf := if config.unitIdInBody then putU8 buf unitId else buf
  buf ++ pdu

/-- The fields of the header. -/
structure MbapHeader where
  tid : UInt16
  protoId : UInt16
  payloadLen : ℕ
  unitId : UInt8
  deriving DecidableEq, Repr

/-- The first seven bytes of a buffer as a header. -/
def readMbapHeader : Bytes → Option MbapHeader
  | t₁ :: t₀ :: p₁ :: p₀ :: l₁ :: l₀ :: u :: _ =>
      some ⟨fromBeBytes t₁ t₀, fromBeBytes p₁ p₀, (fromBeBytes l₁ l₀).toNat, u⟩
  | _ => none

/-- A whole header that cannot be the header of a frame. -/
def isTcpHeaderCorrupt (buf : Bytes) : Bool :=
  match readMbapHeader buf with
  | none => false
  | some h => h.protoId != 0 || !decide (1 ≤ h.payloadLen ∧ h.payloadLen ≤ MAX_TCP_ADU_SIZE)

/-- The PDU in the body of a frame.  The reading in which the body repeats the unit id comes
first. -/
def tryExtractTcpPdu (tid : UInt16) (unitId : UInt8) (body : Bytes) (consumed : ℕ) :
    Option (RawRequest UInt16 × ℕ) :=
  match body with
  | [] => none
  | b₀ :: pdu =>
    if pdu ≠ [] ∧ b₀ = unitId ∧ isKnownFunctionCode (pdu.headD 0) ∧ (Request.tryFrom pdu).isOk then
      some (⟨tid, b₀, pdu⟩, consumed)
    else if isKnownFunctionCode b₀ then
      if b₀ = unitId ∧ ¬ (Request.tryFrom (b₀ :: pdu)).isOk then none
      else some (⟨tid, unitId, b₀ :: pdu⟩, consumed)
    else none

/-- The loop over the possible lengths of a frame. -/
def tryFrameLengths (h : MbapHeader) (buf : Bytes) : List ℕ → Option (RawRequest UInt16 × ℕ)
  | [] => none
  | fl :: fls =>
      if fl > MBAP_HEADER_SIZE ∧ buf.length ≥ fl then
        let body := (buf.take fl).drop MBAP_HEADER_SIZE
        if body.isEmpty then tryFrameLengths h buf fls
        else tryExtractTcpPdu h.tid h.unitId body fl
      else tryFrameLengths h buf fls

/-- Parsing one frame off the front of a buffer. -/
def tryParseTcpFrame (buf : Bytes) : Option (RawRequest UInt16 × ℕ) :=
  match readMbapHeader buf with
  | none => none
  | some h =>
    if h.protoId ≠ 0 ∨ h.payloadLen > MAX_TCP_ADU_SIZE then none
    else tryFrameLengths h buf [MBAP_HEADER_SIZE + h.payloadLen, MBAP_PREFIX_SIZE + h.payloadLen]

/-! ### What the parser finds -/

theorem tryExtractTcpPdu_eq_some {tid : UInt16} {unitId : UInt8} {body : Bytes} {consumed n : ℕ}
    {x : RawRequest UInt16} (h : tryExtractTcpPdu tid unitId body consumed = some (x, n)) :
    n = consumed ∧ x.pdu.length ≤ body.length := by
  unfold tryExtractTcpPdu at h
  split at h
  · cases h
  · split at h
    · cases h
      simp
    · split at h
      · split at h
        · cases h
        · cases h
          simp
      · cases h

theorem tryFrameLengths_eq_some {h : MbapHeader} {buf : Bytes} {fls : List ℕ} {n : ℕ}
    {x : RawRequest UInt16} (hp : tryFrameLengths h buf fls = some (x, n)) :
    MBAP_HEADER_SIZE + x.pdu.length ≤ n ∧ 0 < n ∧ n ≤ buf.length := by
  induction fls with
  | nil => cases hp
  | cons fl fls ih =>
      unfold tryFrameLengths at hp
      split at hp
      · next hfl =>
        simp only at hp
        split at hp
        · exact ih hp
        · obtain ⟨rfl, hlen⟩ := tryExtractTcpPdu_eq_some hp
          simp only [List.length_drop, List.length_take] at hlen
          omega
      · exact ih hp

theorem tryParseTcpFrame_eq_some {buf : Bytes} {n : ℕ} {x : RawRequest UInt16}
    (hp : tryParseTcpFrame buf = some (x, n)) :
    MBAP_HEADER_SIZE + x.pdu.length ≤ n ∧ 0 < n ∧ n ≤ buf.length := by
  unfold tryParseTcpFrame at hp
  split at hp
  · cases hp
  · split at hp
    · cases hp
    · exact tryFrameLengths_eq_some hp

/-- A request takes up its own length and a header. -/
theorem tryParseTcpFrame_weight {buf : Bytes} {n : ℕ} {x : RawRequest UInt16}
    (hp : tryParseTcpFrame buf = some (x, n)) : MBAP_HEADER_SIZE + x.pdu.length ≤ n :=
  (tryParseTcpFrame_eq_some hp).1

/-! ### The server -/

/-- The parser as a framer. -/
def tcpFramer : Framer UInt8 (RawRequest UInt16) where
  parse := tryParseTcpFrame
  pos := fun hp => (tryParseTcpFrame_eq_some hp).2.1
  le := fun hp => (tryParseTcpFrame_eq_some hp).2.2

/-- The protocol of the TCP server with the given configuration. -/
def tcpProtocol (cfg : TcpConfig) : Protocol UInt16 :=
  { tcpFramer with encode := fun tid data => encodeTcpFrame data [] cfg tid }

/-- The server gives the buffer up. -/
def tcpDiscard (buf : Bytes) : Bool :=
  isTcpHeaderCorrupt buf || decide (buf.length > MAX_TCP_BUF_BYTES)

variable {σ : Type}

/-- One read of the server: it returns on the end of the stream and on an error. -/
def onTcpRead (service : Service σ) (cfg : TcpConfig) (writeOk : ℕ → Bool)
    (s : ServerLoop UInt16 σ) (read : Except IoError Bytes) : ServerLoop UInt16 σ :=
  if s.running then
    match read with
    | .error _ => { s with running := false }
    | .ok bs =>
      if bs = [] then { s with running := false }
      else
        let s := serveBuffer (tcpProtocol cfg) service writeOk (s.setBuf (s.buf ++ bs))
        if s.running && tcpDiscard s.buf then s.setBuf [] else s
  else s

/-- The server over the reads of a connection. -/
def handleTcpConnection (service : Service σ) (cfg : TcpConfig) (writeOk : ℕ → Bool)
    (s : ServerLoop UInt16 σ) (reads : List (Except IoError Bytes)) : ServerLoop UInt16 σ :=
  reads.foldl (onTcpRead service cfg writeOk) s

/-! ### The server as a receiver -/

/-- One nonempty read, while the writes succeed. -/
theorem onTcpRead_eq {service : Service σ} {cfg : TcpConfig} {writeOk : ℕ → Bool}
    (hw : ∀ k, writeOk k = true) {s : ServerLoop UInt16 σ} (hs : s.running = true) {bs : Bytes}
    (hbs : bs ≠ []) :
    onTcpRead service cfg writeOk s (.ok bs)
      = (ServerLoop.serveAll (tcpProtocol cfg) service writeOk s
          (tcpFramer.feed tcpDiscard s.buf bs).1).setBuf (tcpFramer.feed tcpDiscard s.buf bs).2 := by
  have hserve := serveBuffer_eq (tcpProtocol cfg) service hw
    (s := s.setBuf (s.buf ++ bs)) hs
  have hrun := ServerLoop.serveAll_running (tcpProtocol cfg) service hw hs
    (tcpFramer.drain (s.buf ++ bs)).1
  rw [ServerLoop.serveAll_setBuf, ServerLoop.setBuf_setBuf] at hserve
  rw [onTcpRead, if_pos hs]
  simp only [if_neg hbs, hserve]
  rw [show (tcpProtocol cfg).toFramer = tcpFramer from rfl]
  simp only [ServerLoop.setBuf_buf, ServerLoop.setBuf_running, ServerLoop.setBuf_setBuf, hrun,
    Bool.true_and, Framer.feed]
  by_cases hd : tcpDiscard (tcpFramer.drain (s.buf ++ bs)).2 = true <;> simp [hd]

/-- What one nonempty read does to the record, the buffer and the loop. -/
theorem onTcpRead_fields (service : Service σ) (cfg : TcpConfig) {writeOk : ℕ → Bool}
    (hw : ∀ k, writeOk k = true) {s : ServerLoop UInt16 σ} (hs : s.running = true) {bs : Bytes}
    (hbs : bs ≠ []) :
    (onTcpRead service cfg writeOk s (.ok bs)).requests
        = s.requests ++ (tcpFramer.feed tcpDiscard s.buf bs).1 ∧
      (onTcpRead service cfg writeOk s (.ok bs)).buf = (tcpFramer.feed tcpDiscard s.buf bs).2 ∧
      (onTcpRead service cfg writeOk s (.ok bs)).running = true := by
  rw [onTcpRead_eq hw hs hbs]
  refine ⟨?_, rfl, ServerLoop.serveAll_running (tcpProtocol cfg) service hw hs _⟩
  rw [ServerLoop.setBuf_requests, ServerLoop.serveAll_requests]

/-- **The server hands on what the parser takes off the buffer, read by read.** -/
theorem handleTcpConnection_eq {service : Service σ} {cfg : TcpConfig} {writeOk : ℕ → Bool}
    (hw : ∀ k, writeOk k = true) {reads : List Bytes} (hreads : ∀ bs ∈ reads, bs ≠ [])
    {s : ServerLoop UInt16 σ} (hs : s.running = true) :
    handleTcpConnection service cfg writeOk s (reads.map .ok)
      = (ServerLoop.serveAll (tcpProtocol cfg) service writeOk s
          (tcpFramer.run tcpDiscard s.buf reads).1).setBuf
            (tcpFramer.run tcpDiscard s.buf reads).2 := by
  unfold handleTcpConnection
  induction reads generalizing s with
  | nil => rfl
  | cons bs reads ih =>
      have hbs := hreads bs (by simp)
      have hrun : ((ServerLoop.serveAll (tcpProtocol cfg) service writeOk s
          (tcpFramer.feed tcpDiscard s.buf bs).1).setBuf
            (tcpFramer.feed tcpDiscard s.buf bs).2).running = true :=
        ServerLoop.serveAll_running (tcpProtocol cfg) service hw hs _
      rw [List.map_cons, List.foldl_cons, onTcpRead_eq hw hs hbs,
        ih (fun bs' h => hreads bs' (by simp [h])) hrun, ServerLoop.serveAll_setBuf,
        ServerLoop.setBuf_setBuf, ServerLoop.setBuf_buf, Framer.run_cons]
      simp only [ServerLoop.serveAll, List.foldl_append]

end OmsModbus
