/-
**How a lost connection is classified, with a tap and without one.**

A call meets the end of its transport while it drains what came in before, or while it waits for
the answer.  An I/O error becomes an error of the call in both cases, and the kind of the I/O error
decides whether the connection is built again.  The end of the stream is looked at where it is read
and counts as a lost connection.  A capturing layer hands on errors as they are, but it turns the
end of the stream into an I/O error, of a kind that no lost connection has; so the same loss that
would be repaired without a tap ends the call with one.

Main definitions:

* `OmsModbus.Capture.SameEnd` — two calls end in the same way;
* `OmsModbus.Capture.ClientKind.sendRecv`, `OmsModbus.Capture.ClientKind.call` — an attempt and a
  call of a client of any kind;
* `OmsModbus.Capture.ClientKind.MeetsEnd` — when an attempt meets the end;
* `OmsModbus.Capture.SameClassification` — two attempts end in the same way, and have the same
  consequences.

Main results:

* `OmsModbus.Capture.ClientKind.receive_error`, `OmsModbus.Capture.ClientKind.receive_eof` — what
  becomes of an end in the middle of an answer;
* `OmsModbus.Capture.lostConnection_iff` — **a tap does not change how a lost connection is
  classified** exactly when the stream ends with an I/O error, or its end is not looked at.
-/

import OmsModbus.AsciiStream
import OmsModbus.CaptureSetup
import OmsModbus.Rtu
import OmsModbus.StreamEnd
import OmsModbus.TcpClient

set_option relaxedAutoImplicit false
set_option autoImplicit false

namespace OmsModbus.Capture

/-! ### How calls end -/

/-- The same variant of error. -/
def sameVariant : ModbusError → ModbusError → Bool
  | .noError, .noError => true
  | .timeout _, .timeout _ => true
  | .connection _, .connection _ => true
  | .protocol _, .protocol _ => true
  | .exception _ _, .exception _ _ => true
  | .serial _, .serial _ => true
  | .other _, .other _ => true
  | _, _ => false

/-- Two attempts end with the same response, or with the same variant of error. -/
def SameEnd : Except ModbusError Response → Except ModbusError Response → Prop
  | .ok rsp, .ok rsp' => rsp = rsp'
  | .error e, .error e' => sameVariant e e'
  | _, _ => False

/-- Two calls end in the same way, or not within the attempts they were given. -/
def SameCall : Option (Except ModbusError Response) → Option (Except ModbusError Response) → Prop
  | none, none => True
  | some r, some r' => SameEnd r r'
  | _, _ => False

/-- An attempt that ends in an error of no particular kind. -/
def EndsOther (r : Except ModbusError Response) : Prop := ∃ msg, r = .error (.other msg)

/-- Whether an attempt is followed by another one. -/
def retries (r : Except ModbusError Response) : Bool :=
  match r with
  | .ok _ => false
  | .error e => isRetryable e

theorem SameEnd.refl (r : Except ModbusError Response) : SameEnd r r := by
  cases r with
  | ok rsp => rfl
  | error e => cases e <;> rfl

theorem SameCall.refl (r : Option (Except ModbusError Response)) : SameCall r r := by
  cases r with
  | none => trivial
  | some r => exact SameEnd.refl r

theorem SameEnd.other {r : Except ModbusError Response} {msg : String}
    (h : SameEnd r (.error (.other msg))) : EndsOther r := by
  match r with
  | .error (.other msg') => exact ⟨msg', rfl⟩
  | .ok rsp => cases h
  | .error .noError => cases h
  | .error (.timeout _) => cases h
  | .error (.connection _) => cases h
  | .error (.protocol _) => cases h
  | .error (.exception _ _) => cases h
  | .error (.serial _) => cases h

/-! ### What a call meets -/

/-- A drain gets to the end, whatever comes before it. -/
theorem Delivers.drainStaleData {bytes : Bytes} {last : ReadEvent} {events : List ReadEvent}
    (h : Delivers bytes last events) (hlast : IsEnd last) :
    ∃ rest, drainStaleData events = drainLoop (last :: rest) := by
  obtain ⟨chunks, rest, rfl, hne, -⟩ := h
  refine ⟨rest, ?_⟩
  cases chunks with
  | nil =>
      -- the first read is the end, which the loop takes in the same way
      cases last with
      | data bs => rw [show bs = [] from hlast]; rfl
      | error e => rfl
      | elapsed => cases hlast
      | expired => cases hlast
  | cons c chunks =>
      rw [List.map_cons, List.cons_append, OmsModbus.drainStaleData,
        if_neg (hne c (List.mem_cons_self ..))]
      exact drainLoop_chunks (fun c' hc => hne c' (List.mem_cons_of_mem _ hc)) _

/-- A drain that meets an error ends with it. -/
theorem drainStaleData_error {bytes : Bytes} {e : IoError} {events : List ReadEvent}
    (h : Delivers bytes (.error e) events) :
    (drainStaleData events).1 = .error (.ofIoError e) := by
  obtain ⟨rest, hdrain⟩ := h.drainStaleData trivial
  rw [hdrain]
  rfl

/-- A drain that meets the end of the stream takes it for a lost connection. -/
theorem drainStaleData_eof {bytes : Bytes} {events : List ReadEvent}
    (h : Delivers bytes (.data []) events) :
    (drainStaleData events).1 = .error (.connection CONN_CLOSED) := by
  obtain ⟨rest, hdrain⟩ := h.drainStaleData rfl
  rw [hdrain]
  rfl

/-- A read that asks for more than comes gets all of it, and meets the end. -/
theorem Delivers.readAtLeast {bytes : Bytes} {last : ReadEvent} {events : List ReadEvent}
    (h : Delivers bytes last events) {min : ℕ} (hshort : bytes.length < min) :
    ∃ rest, readAtLeast min [] events = readAtLeast min bytes (last :: rest) := by
  obtain ⟨chunks, rest, rfl, hne, rfl⟩ := h
  exact ⟨rest, readAtLeast_short hne [] hshort _⟩

/-! ### RTU -/

/-- What an RTU client waits for. -/
def rtuTarget (request : Request) : ℕ :=
  ((expectedRtuPduLen request).map fun p => p + 1 + CRC_SIZE).getD MIN_RTU_FRAME

theorem decodeRtuResponse_not_other (slaveId : UInt8) (buf : Bytes) :
    ¬ EndsOther (decodeRtuResponse slaveId buf) := by
  rintro ⟨msg, h⟩
  rw [decodeRtuResponse] at h
  split at h
  · simp only at h
    split at h <;> cases h
  · split at h
    · cases h
    · split at h
      · split at h
        · cases h
        · split at h <;> cases h
      · cases h

theorem rtuReceive_of_error {slaveId : UInt8} {request : Request} {events left : List ReadEvent}
    {e : ModbusError} {buf : Bytes}
    (h : readAtLeast (rtuTarget request) [] events = (.error e, buf, left)) :
    rtuReceive slaveId request events = .error e := by
  rw [rtuTarget] at h
  simp only [rtuReceive, h]

theorem rtuReceive_of_ok {slaveId : UInt8} {request : Request} {events left : List ReadEvent}
    {buf : Bytes} (h : readAtLeast (rtuTarget request) [] events = (.ok (), buf, left)) :
    rtuReceive slaveId request events = decodeRtuResponse slaveId buf := by
  rw [rtuTarget] at h
  simp only [rtuReceive, h]

theorem rtuReceive_error {slaveId : UInt8} {request : Request} {bytes : Bytes} {e : IoError}
    {events : List ReadEvent} (h : Delivers bytes (.error e) events)
    (hshort : bytes.length < rtuTarget request) :
    rtuReceive slaveId request events = .error (.ofIoError e) := by
  obtain ⟨rest, hread⟩ := h.readAtLeast hshort
  exact rtuReceive_of_error (hread.trans (readAtLeast_error hshort e rest))

theorem rtuReceive_eof {slaveId : UInt8} {request : Request} {bytes : Bytes}
    {events : List ReadEvent} (h : Delivers bytes (.data []) events)
    (hshort : bytes.length < rtuTarget request) :
    ¬ EndsOther (rtuReceive slaveId request events) := by
  obtain ⟨rest, hread⟩ := h.readAtLeast hshort
  rw [readAtLeast_eof hshort rest] at hread
  by_cases hnil : bytes = []
  · rw [if_pos hnil] at hread
    rw [rtuReceive_of_error hread]
    rintro ⟨msg, hmsg⟩
    cases hmsg
  · rw [if_neg hnil] at hread
    rw [rtuReceive_of_ok hread]
    exact decodeRtuResponse_not_other slaveId _

/-! ### ASCII -/

/-- A buffer in front of bytes without a frame has none. -/
theorem tryParseAscii_none {buf more : Bytes} (h : asciiFrames (buf ++ more) = []) :
    tryParseAscii buf = none := by
  cases hparse : tryParseAscii buf with
  | none => rfl
  | some found =>
      obtain ⟨x, n⟩ := found
      rw [asciiFrames_of_parse_some (asciiFramer_stable _ _ _ hparse more)] at h
      cases h

/-- Bytes without a frame are all read. -/
theorem asciiReceive_chunks {slaveId : UInt8} {chunks : List Bytes} (hne : ∀ c ∈ chunks, c ≠ [])
    {buf : Bytes} (hnone : asciiFrames (buf ++ chunks.flatten) = []) (events : List ReadEvent) :
    asciiReceive slaveId buf (chunks.map .data ++ events)
      = asciiReceive slaveId (buf ++ chunks.flatten) events := by
  induction chunks generalizing buf with
  | nil => rw [List.flatten_nil, List.append_nil, List.map_nil, List.nil_append]
  | cons c chunks ih =>
      rw [List.flatten_cons, ← List.append_assoc] at hnone ⊢
      rw [List.map_cons, List.cons_append, asciiReceive, if_neg (hne c (List.mem_cons_self ..))]
      simp only [tryParseAsciiResponse_eq, tryParseAscii_none hnone, Option.map_none]
      exact ih (fun c' hc => hne c' (List.mem_cons_of_mem _ hc)) hnone

theorem asciiReceive_error {slaveId : UInt8} {bytes : Bytes} {e : IoError}
    {events : List ReadEvent} (h : Delivers bytes (.error e) events)
    (hnone : asciiFrames bytes = []) :
    asciiReceive slaveId [] events = .error (.ofIoError e) := by
  obtain ⟨chunks, rest, rfl, hne, rfl⟩ := h
  rw [asciiReceive_chunks hne hnone]
  rfl

theorem asciiReceive_eof {slaveId : UInt8} {bytes : Bytes} {events : List ReadEvent}
    (h : Delivers bytes (.data []) events) (hnone : asciiFrames bytes = []) :
    asciiReceive slaveId [] events = .error (.connection CONN_CLOSED) := by
  obtain ⟨chunks, rest, rfl, hne, rfl⟩ := h
  rw [asciiReceive_chunks hne hnone]
  rfl

/-! ### TCP -/

theorem decodeTcpResponse_not_other (cfg : TcpConfig) (slaveId : UInt8) (payloadLen : ℕ)
    (buf : Bytes) : ¬ EndsOther (decodeTcpResponse cfg slaveId payloadLen buf) := by
  rintro ⟨msg, h⟩
  rw [decodeTcpResponse] at h
  simp only at h
  split at h
  · cases h
  · generalize (if buf.length ≥ MBAP_HEADER_SIZE + payloadLen then
      (buf.take (MBAP_HEADER_SIZE + payloadLen)).drop MBAP_HEADER_SIZE
      else (buf.take (MBAP_PREFIX_SIZE + payloadLen)).drop MBAP_HEADER_SIZE) = pdu at h
    split at h
    · cases h
    · split at h <;> cases h

/-- What a header announces can be received. -/
def Announces (bytes : Bytes) (h : MbapHeader) : Prop :=
  readMbapHeader bytes = some h ∧ h.protoId = 0 ∧ h.payloadLen ≤ MAX_TCP_ADU_SIZE

/-- A header is a header of its first seven bytes. -/
theorem readMbapHeader_of_append {buf more : Bytes} {h : MbapHeader}
    (hread : readMbapHeader (buf ++ more) = some h) (hlen : 7 ≤ buf.length) :
    readMbapHeader buf = some h := by
  match buf with
  | _ :: _ :: _ :: _ :: _ :: _ :: _ :: _ => exact hread
  | [] | [_] | [_, _] | [_, _, _] | [_, _, _, _] | [_, _, _, _, _] | [_, _, _, _, _, _] =>
    simp at hlen

theorem tcpReceive_of_error {cfg : TcpConfig} {slaveId : UInt8} {events left : List ReadEvent}
    {e : ModbusError} {buf : Bytes} (h : readAtLeast 7 [] events = (.error e, buf, left)) :
    (tcpReceive cfg slaveId events).1 = .error e := by
  simp only [tcpReceive, MBAP_HEADER_SIZE, h]

/-- Fewer bytes than a header. -/
theorem tcpReceive_of_short {cfg : TcpConfig} {slaveId : UInt8} {events left : List ReadEvent}
    {buf : Bytes} (h : readAtLeast 7 [] events = (.ok (), buf, left)) (hlen : buf.length < 7) :
    (tcpReceive cfg slaveId events).1 = .error (.timeout TCP_RECV_TIMEOUT) := by
  simp only [tcpReceive, MBAP_HEADER_SIZE, h, readMbapHeader_of_length_lt hlen]

/-- The two phases behind a header that announces something. -/
theorem tcpReceive_of_header {cfg : TcpConfig} {slaveId : UInt8} {events left : List ReadEvent}
    {buf : Bytes} {hdr : MbapHeader} (h : readAtLeast 7 [] events = (.ok (), buf, left))
    (hhdr : Announces buf hdr) :
    (∀ e buf' left', readAtLeast (6 + hdr.payloadLen) buf left = (.error e, buf', left') →
      (tcpReceive cfg slaveId events).1 = .error e) ∧
    ∀ buf' left', readAtLeast (6 + hdr.payloadLen) buf left = (.ok (), buf', left') →
      (tcpReceive cfg slaveId events).1 = decodeTcpResponse cfg slaveId hdr.payloadLen
        (if buf'.length < 7 + hdr.payloadLen then (probe buf' left').1 else buf') := by
  obtain ⟨hread, hproto, hpayload⟩ := hhdr
  have hguard : ¬ hdr.payloadLen > MAX_TCP_ADU_SIZE := by omega
  constructor
  · intro e buf' left' hbody
    simp only [tcpReceive, MBAP_HEADER_SIZE, MBAP_PREFIX_SIZE, h, hread, hproto, ne_eq,
      not_true_eq_false, if_false, hguard, hbody]
  · intro buf' left' hbody
    simp only [tcpReceive, MBAP_HEADER_SIZE, MBAP_PREFIX_SIZE, h, hread, hproto, ne_eq,
      not_true_eq_false, if_false, hguard, hbody]
    by_cases hlen : buf'.length < 7 + hdr.payloadLen
    · simp only [hlen, if_true]
    · simp only [hlen, if_false]

/-- The first phase, when it reads a header. -/
theorem readAtLeast_header {bytes : Bytes} {last : ReadEvent} {events : List ReadEvent}
    {hdr : MbapHeader} (h : Delivers bytes last events) (hhdr : Announces bytes hdr) :
    ∃ (buf : Bytes) (left : List Bytes) (rest : List ReadEvent),
      readAtLeast 7 [] events = (.ok (), buf, left.map .data ++ last :: rest) ∧
        Announces buf hdr ∧ (∀ c ∈ left, c ≠ []) ∧ buf ++ left.flatten = bytes := by
  obtain ⟨chunks, rest, rfl, hne, rfl⟩ := h
  obtain ⟨hread, hproto, hpayload⟩ := hhdr
  have hlen := readMbapHeader_length hread
  obtain ⟨used, left, rfl, hused, hphase⟩ :=
    readAtLeast_chunks 7 [] hne (by simpa using hlen) (last :: rest)
  rw [List.flatten_append] at hread ⊢
  refine ⟨used.flatten, left, rest, hphase, ⟨readMbapHeader_of_append hread hused, hproto,
    hpayload⟩, fun c hc => hne c (List.mem_append_right _ hc), rfl⟩

/-- Fewer bytes than the header, or than it announces. -/
def TcpShort (bytes : Bytes) : Prop :=
  bytes.length < 7 ∨ ∃ hdr, Announces bytes hdr ∧ bytes.length < 6 + hdr.payloadLen

/-- As many bytes as the header announces, if it counts the unit id; the probe for one more meets
the end. -/
def TcpProbed (bytes : Bytes) : Prop :=
  ∃ hdr, Announces bytes hdr ∧ bytes.length = 6 + hdr.payloadLen

theorem tcpReceive_error {cfg : TcpConfig} {slaveId : UInt8} {bytes : Bytes} {e : IoError}
    {events : List ReadEvent} (h : Delivers bytes (.error e) events) (hshort : TcpShort bytes) :
    (tcpReceive cfg slaveId events).1 = .error (.ofIoError e) := by
  rcases hshort with hlen | ⟨hdr, hhdr, hlen⟩
  · obtain ⟨rest, hread⟩ := h.readAtLeast hlen
    exact tcpReceive_of_error (hread.trans (readAtLeast_error hlen e rest))
  · obtain ⟨buf, left, rest, hphase, hbuf, hne, rfl⟩ := readAtLeast_header h hhdr
    exact (tcpReceive_of_header hphase hbuf).1 _ _ _
      ((readAtLeast_short hne _ hlen _).trans (readAtLeast_error hlen e rest))

theorem tcpReceive_eof {cfg : TcpConfig} {slaveId : UInt8} {bytes : Bytes}
    {events : List ReadEvent} (h : Delivers bytes (.data []) events) (hshort : TcpShort bytes) :
    ¬ EndsOther (tcpReceive cfg slaveId events).1 := by
  rcases hshort with hlen | ⟨hdr, hhdr, hlen⟩
  · obtain ⟨rest, hread⟩ := h.readAtLeast hlen
    rw [readAtLeast_eof hlen rest] at hread
    by_cases hnil : bytes = []
    · rw [if_pos hnil] at hread
      rw [tcpReceive_of_error hread]
      rintro ⟨msg, hmsg⟩
      cases hmsg
    · rw [if_neg hnil] at hread
      rw [tcpReceive_of_short hread hlen]
      rintro ⟨msg, hmsg⟩
      cases hmsg
  · obtain ⟨buf, left, rest, hphase, hbuf, hne, rfl⟩ := readAtLeast_header h hhdr
    have hread := (readAtLeast_short hne _ hlen (.data [] :: rest)).trans
      (readAtLeast_eof hlen rest)
    have hpos := readMbapHeader_length hhdr.1
    rw [if_neg (List.length_pos_iff.1 (by omega))] at hread
    rw [(tcpReceive_of_header hphase hbuf).2 _ _ hread]
    exact decodeTcpResponse_not_other cfg slaveId _ _

/-- The probe does not look at the end it meets. -/
theorem tcpReceive_probed {cfg : TcpConfig} {slaveId : UInt8} {bytes : Bytes} {last : ReadEvent}
    {events : List ReadEvent} {hdr : MbapHeader} (h : Delivers bytes last events)
    (hlast : IsEnd last) (hhdr : Announces bytes hdr) (hlen : bytes.length = 6 + hdr.payloadLen) :
    (tcpReceive cfg slaveId events).1 = decodeTcpResponse cfg slaveId hdr.payloadLen bytes := by
  obtain ⟨buf, left, rest, hphase, hbuf, hne, rfl⟩ := readAtLeast_header h hhdr
  obtain ⟨used, left, rfl, hused, hread⟩ := readAtLeast_chunks (6 + hdr.payloadLen) buf hne
    (by rw [List.length_append] at hlen; omega) (last :: rest)
  -- nothing is left behind the bytes of the second phase
  have hleft : left = [] := by
    cases left with
    | nil => rfl
    | cons c left =>
        have hc := List.length_pos_iff.2 (hne c (by simp))
        simp only [List.flatten_append, List.flatten_cons, List.length_append] at hlen hused
        omega
  subst hleft
  rw [List.append_nil] at hlen ⊢
  rw [(tcpReceive_of_header hphase hbuf).2 _ _ hread, if_pos (by omega)]
  cases last with
  | data bs =>
      rw [show bs = [] from hlast]
      simp [probe]
  | error e => rfl
  | elapsed => cases hlast
  | expired => cases hlast

/-! ### Attempts and calls -/

/-- Where an attempt reads from its transport. -/
inductive Phase
  | drain
  | receive

/-- An attempt that reads `events` in one of its phases.  When it is the receive phase, `quiet` are
the waits of the drain before it. -/
def Phase.attempt (quiet : List ReadEvent) (write : WriteEvent) (rebuilt : Bool)
    (events : List ReadEvent) : Phase → Attempt
  | drain => ⟨events, write, fun _ => [], rebuilt⟩
  | receive => ⟨quiet, write, fun _ => events, rebuilt⟩

namespace ClientKind

/-- One attempt of a client of any kind; only a TCP client remembers something, its counter. -/
def sendRecv (slaveId : UInt8) (request : Request) (a : Attempt) (c : OmsModbus.TcpClient) :
    ClientKind → Except ModbusError Response × OmsModbus.TcpClient
  | rtu => (rtuSendRecv slaveId request a, c)
  | ascii => (asciiSendRecv slaveId request a, c)
  | tcp =>
      let (call, c) := c.sendRecv slaveId request a.drain a.write a.recv
      (call.result, c)

/-- A call of a client of any kind over its attempts, with `fuel` of them at most. -/
def call (reconnect : Option ReconnectConfig) (fuel : ℕ) (slaveId : UInt8) (request : Request)
    (attempts : ℕ → Attempt) (c : OmsModbus.TcpClient) :
    ClientKind → Option (Except ModbusError Response)
  | rtu => rtuCall reconnect fuel slaveId request attempts
  | ascii => asciiCall reconnect fuel slaveId request attempts
  | tcp =>
      (runWithReconnect
        (fun s : OmsModbus.TcpClient × ℕ =>
          let (result, c) := tcp.sendRecv slaveId request (attempts s.2) s.1
          (result, (c, s.2 + 1)))
        (fun s => ((attempts (s.2 - 1)).rebuilt, s)) .connection reconnect fuel (c, 0)).map Prod.fst

/-- Reading the answer. -/
def receive (cfg : TcpConfig) (slaveId : UInt8) (request : Request) (events : List ReadEvent) :
    ClientKind → Except ModbusError Response
  | rtu => rtuReceive slaveId request events
  | ascii => asciiReceive slaveId [] events
  | tcp => (tcpReceive cfg slaveId events).1

/-- Bytes with which a client waits for more. -/
def Short (request : Request) (bytes : Bytes) : ClientKind → Prop
  | rtu => bytes.length < rtuTarget request
  | ascii => asciiFrames bytes = []
  | tcp => TcpShort bytes

/-- Bytes with which a client looks whether there is more, and does not mind if there is none. -/
def Probed (bytes : Bytes) : ClientKind → Prop
  | tcp => TcpProbed bytes
  | _ => False

/-- An attempt meets the end of its transport behind `bytes`, in its drain or in its receive
phase. -/
def MeetsEnd (request : Request) (quiet : List ReadEvent) (write : WriteEvent) (bytes : Bytes)
    (kind : ClientKind) : Phase → Prop
  | .drain => kind = ascii → request ≠ .disconnect
  | .receive => (kind = ascii → request ≠ .disconnect) ∧ (drainStaleData quiet).1 = .ok () ∧
      (encodeRequestInto request []).1 = .ok () ∧ write = .done ∧
      (kind.Short request bytes ∨ kind.Probed bytes)

/-- What becomes of an error in the middle of an answer. -/
theorem receive_error {kind : ClientKind} {cfg : TcpConfig} {slaveId : UInt8} {request : Request}
    {bytes : Bytes} {e : IoError} {events : List ReadEvent} (h : Delivers bytes (.error e) events)
    (hshort : kind.Short request bytes) :
    kind.receive cfg slaveId request events = .error (.ofIoError e) := by
  cases kind with
  | rtu => exact rtuReceive_error h hshort
  | ascii => exact asciiReceive_error h hshort
  | tcp => exact tcpReceive_error h hshort

/-- What becomes of the end of the stream in the middle of an answer. -/
theorem receive_eof {kind : ClientKind} {cfg : TcpConfig} {slaveId : UInt8} {request : Request}
    {bytes : Bytes} {events : List ReadEvent} (h : Delivers bytes (.data []) events)
    (hshort : kind.Short request bytes) :
    ¬ EndsOther (kind.receive cfg slaveId request events) := by
  cases kind with
  | rtu => exact rtuReceive_eof h hshort
  | ascii =>
      rw [receive, asciiReceive_eof h hshort]
      rintro ⟨msg, hmsg⟩
      cases hmsg
  | tcp => exact tcpReceive_eof h hshort

/-- An attempt whose drain fails. -/
theorem sendRecv_drain {kind : ClientKind} {slaveId : UInt8} {request : Request} {a : Attempt}
    {c : OmsModbus.TcpClient} {e : ModbusError} (hreq : kind = ascii → request ≠ .disconnect)
    (hdrain : (drainStaleData a.drain).1 = .error e) :
    kind.sendRecv slaveId request a c = (.error e, c) := by
  obtain ⟨left, hdrain⟩ : ∃ left, drainStaleData a.drain = (.error e, left) :=
    ⟨_, Prod.ext hdrain rfl⟩
  cases kind with
  | rtu => simp only [sendRecv, rtuSendRecv, hdrain]
  | ascii => simp only [sendRecv, asciiSendRecv, if_neg (hreq rfl), hdrain]
  | tcp => simp only [sendRecv, OmsModbus.TcpClient.sendRecv, hdrain]

/-- An attempt that gets to its receive phase. -/
theorem sendRecv_receive {kind : ClientKind} (slaveId : UInt8) {request : Request}
    {quiet : List ReadEvent} (hreq : kind = ascii → request ≠ .disconnect)
    (hdrain : (drainStaleData quiet).1 = .ok ()) (henc : (encodeRequestInto request []).1 = .ok ())
    (rebuilt : Bool) (c : OmsModbus.TcpClient) :
    ∃ c', ∀ events, kind.sendRecv slaveId request (Phase.receive.attempt quiet .done rebuilt events)
      c = (kind.receive c.tcpConfig slaveId request events, c') := by
  obtain ⟨left, hdrain⟩ : ∃ left, drainStaleData quiet = (.ok (), left) :=
    ⟨_, Prod.ext hdrain rfl⟩
  cases kind with
  | rtu =>
      refine ⟨c, fun events => ?_⟩
      simp only [sendRecv, Phase.attempt, rtuSendRecv, hdrain, sendFrame_done _ henc, receive]
  | ascii =>
      refine ⟨c, fun events => ?_⟩
      simp only [sendRecv, Phase.attempt, asciiSendRecv, if_neg (hreq rfl), hdrain,
        sendFrame_done _ henc, receive]
  | tcp =>
      refine ⟨{ c with tcpCounter := (nextTid c.tcpConfig.tid c.tcpCounter).2 }, fun events => ?_⟩
      simp only [sendRecv, Phase.attempt, OmsModbus.TcpClient.sendRecv, hdrain,
        sendFrame_done _ henc, receive]

/-- The end that a probe meets is the same as another. -/
theorem receive_probed {kind : ClientKind} {cfg : TcpConfig} {slaveId : UInt8} {request : Request}
    {bytes : Bytes} {last last' : ReadEvent} {events events' : List ReadEvent}
    (h : Delivers bytes last events) (h' : Delivers bytes last' events') (hlast : IsEnd last)
    (hlast' : IsEnd last') (hprobed : kind.Probed bytes) :
    kind.receive cfg slaveId request events = kind.receive cfg slaveId request events' := by
  cases kind with
  | rtu => cases hprobed
  | ascii => cases hprobed
  | tcp =>
      obtain ⟨hdr, hhdr, hlen⟩ := hprobed
      rw [receive, receive, tcpReceive_probed h hlast hhdr hlen,
        tcpReceive_probed h' hlast' hhdr hlen]

end ClientKind

/-! ### The classification -/

/-- A first attempt, and those after it. -/
def attemptsFrom (a : Attempt) (later : ℕ → Attempt) : ℕ → Attempt
  | 0 => a
  | n + 1 => later n

theorem attemptsFrom_congr {β : Type} (f : Attempt → β) {a a' : Attempt} (h : f a = f a')
    (later : ℕ → Attempt) (n : ℕ) :
    f (attemptsFrom a later n) = f (attemptsFrom a' later n) := by
  cases n with
  | zero => exact h
  | succ n => rfl

/-- Calls whose first attempts have the same result go on in the same way. -/
theorem ClientKind.call_congr {kind : ClientKind} {slaveId : UInt8} {request : Request}
    {a a' : Attempt}
    (h : ∀ c, kind.sendRecv slaveId request a c = kind.sendRecv slaveId request a' c)
    (hrebuilt : a.rebuilt = a'.rebuilt) (reconnect : Option ReconnectConfig) (fuel : ℕ)
    (later : ℕ → Attempt) (c : OmsModbus.TcpClient) :
    kind.call reconnect fuel slaveId request (attemptsFrom a later) c
      = kind.call reconnect fuel slaveId request (attemptsFrom a' later) c := by
  have hre := fun n => attemptsFrom_congr Attempt.rebuilt hrebuilt later n
  cases kind with
  | rtu =>
      have hsend := fun n => attemptsFrom_congr (rtuSendRecv slaveId request)
        (congrArg Prod.fst (h c)) later n
      simp only [call, rtuCall, callAttempts, hsend, hre]
  | ascii =>
      have hsend := fun n => attemptsFrom_congr (asciiSendRecv slaveId request)
        (congrArg Prod.fst (h c)) later n
      simp only [call, asciiCall, callAttempts, hsend, hre]
  | tcp =>
      have hsend := fun c n => attemptsFrom_congr
        (fun a => ClientKind.sendRecv slaveId request a c .tcp) (h c) later n
      simp only [call, hsend, hre]

/-- Two attempts end in the same way, are followed by another one or not, and calls that begin with
them end in the same way whatever the later attempts meet. -/
structure SameClassification (kind : ClientKind) (slaveId : UInt8) (request : Request)
    (a a' : Attempt) : Prop where
  outcome : ∀ c, SameEnd (kind.sendRecv slaveId request a c).1
    (kind.sendRecv slaveId request a' c).1
  retried : ∀ c, retries (kind.sendRecv slaveId request a c).1
    = retries (kind.sendRecv slaveId request a' c).1
  reconnect : ∀ reconnect fuel later c,
    SameCall (kind.call reconnect fuel slaveId request (attemptsFrom a later) c)
      (kind.call reconnect fuel slaveId request (attemptsFrom a' later) c)

theorem SameClassification.of_eq {kind : ClientKind} {slaveId : UInt8} {request : Request}
    {a a' : Attempt}
    (h : ∀ c, kind.sendRecv slaveId request a c = kind.sendRecv slaveId request a' c)
    (hrebuilt : a.rebuilt = a'.rebuilt) : SameClassification kind slaveId request a a' := by
  refine ⟨?_, ?_, ?_⟩
  · intro c
    rw [h c]
    exact SameEnd.refl _
  · intro c
    rw [h c]
  · intro reconnect fuel later c
    rw [ClientKind.call_congr h hrebuilt]
    exact SameCall.refl _

section Phases

variable {kind : ClientKind} {slaveId : UInt8} {request : Request} {quiet : List ReadEvent}
  {write : WriteEvent} {bytes : Bytes} {events events' : List ReadEvent}

/-- An error is classified alike wherever it was read. -/
theorem sameClassification_error {phase : Phase} {e : IoError}
    (h : Delivers bytes (.error e) events) (h' : Delivers bytes (.error e) events')
    (hmeets : kind.MeetsEnd request quiet write bytes phase) (rebuilt : Bool) :
    SameClassification kind slaveId request (phase.attempt quiet write rebuilt events)
      (phase.attempt quiet write rebuilt events') := by
  cases phase with
  | drain =>
      refine .of_eq ?_ rfl
      intro c
      rw [ClientKind.sendRecv_drain hmeets (drainStaleData_error h),
        ClientKind.sendRecv_drain hmeets (drainStaleData_error h')]
  | receive =>
      obtain ⟨hreq, hdrain, henc, rfl, hbytes⟩ := hmeets
      refine .of_eq ?_ rfl
      intro c
      obtain ⟨c', hresult⟩ := ClientKind.sendRecv_receive slaveId hreq hdrain henc
        rebuilt c
      rw [hresult, hresult]
      rcases hbytes with hshort | hprobed
      · rw [ClientKind.receive_error h hshort, ClientKind.receive_error h' hshort]
      · rw [ClientKind.receive_probed h h' trivial trivial hprobed]

/-- The end of the stream that was turned into an error is not classified as it was. -/
theorem not_sameClassification_eof {phase : Phase} {msg : String}
    (h : Delivers bytes (.data []) events)
    (h' : Delivers bytes (.error ⟨.unexpectedEof, msg⟩) events')
    (hmeets : kind.MeetsEnd request quiet write bytes phase)
    (hprobed : ¬ (phase = .receive ∧ kind.Probed bytes)) (rebuilt : Bool) :
    ¬ SameClassification kind slaveId request (phase.attempt quiet write rebuilt events)
      (phase.attempt quiet write rebuilt events') := by
  intro hsame
  have houtcome := hsame.outcome (.connect .standard)
  cases phase with
  | drain =>
      rw [ClientKind.sendRecv_drain hmeets (drainStaleData_eof h),
        ClientKind.sendRecv_drain hmeets (drainStaleData_error h')] at houtcome
      cases houtcome
  | receive =>
      obtain ⟨hreq, hdrain, henc, rfl, hbytes⟩ := hmeets
      obtain ⟨c', hresult⟩ := ClientKind.sendRecv_receive slaveId hreq hdrain henc
        rebuilt (.connect .standard)
      -- one of the two ends in an error of no particular kind, the other does not
      have hshort := hbytes.resolve_right fun hbytes => hprobed ⟨rfl, hbytes⟩
      rw [hresult, hresult, ClientKind.receive_error h' hshort] at houtcome
      exact ClientKind.receive_eof h hshort (SameEnd.other houtcome)

/-- An end that a probe meets makes no difference. -/
theorem sameClassification_probed {last last' : ReadEvent} (h : Delivers bytes last events)
    (h' : Delivers bytes last' events') (hlast : IsEnd last) (hlast' : IsEnd last')
    (hmeets : kind.MeetsEnd request quiet write bytes .receive) (hprobed : kind.Probed bytes)
    (rebuilt : Bool) :
    SameClassification kind slaveId request (Phase.receive.attempt quiet write rebuilt events)
      (Phase.receive.attempt quiet write rebuilt events') := by
  obtain ⟨hreq, hdrain, henc, rfl, -⟩ := hmeets
  refine .of_eq ?_ rfl
  intro c
  obtain ⟨c', hresult⟩ := ClientKind.sendRecv_receive slaveId hreq hdrain henc
    rebuilt c
  rw [hresult, hresult, ClientKind.receive_probed h h' hlast hlast' hprobed]

end Phases

/-- **A tap does not change how a lost connection is classified** exactly when the stream ends with
an I/O error, or its end is met by a probe. -/
theorem lostConnection_iff (kind : ClientKind) (phase : Phase) (slaveId : UInt8)
    (request : Request) (quiet : List ReadEvent) (write : WriteEvent) (rebuilt : Bool)
    (chunks : List Bytes) (ending : Option IoError) (timing timing' : Bool)
    (bufSize dataCapacity tapCapacity : ℕ) (ops ops' : List (IoOp (SniffIo.Task RawEvent)))
    (hne : ∀ c ∈ chunks, c ≠ []) (harrivals : arrivals ops = script chunks ending)
    (harrivals' : arrivals ops' = script chunks ending) (hroom : ∀ op ∈ ops, HasRoom op)
    (hroom' : ∀ op ∈ ops', HasRoom op)
    (hend : ∃ event ∈ (untappedRun timing ops).seen, IsEnd event)
    (hend' : ∃ event ∈ (tappedRun timing' bufSize dataCapacity tapCapacity ops').seen, IsEnd event)
    (hkept : (tappedRun timing' bufSize dataCapacity tapCapacity ops').io.dataDroppedBytes = 0)
    (hmeets : kind.MeetsEnd request quiet write chunks.flatten phase) :
    SameClassification kind slaveId request
        (phase.attempt quiet write rebuilt (untappedRun timing ops).seen)
        (phase.attempt quiet write rebuilt
          (tappedRun timing' bufSize dataCapacity tapCapacity ops').seen) ↔
      ending ≠ none ∨ phase = .receive ∧ kind.Probed chunks.flatten := by
  have h := passthrough_delivers hne harrivals hroom hend
  have h' := sniffing_delivers hne harrivals' hroom' hkept hend'
  by_cases hprobed : phase = .receive ∧ kind.Probed chunks.flatten
  · obtain ⟨rfl, hprobed⟩ := hprobed
    refine iff_of_true ?_ (.inr ⟨rfl, hprobed⟩)
    refine sameClassification_probed h h' ?_ trivial hmeets hprobed rebuilt
    cases ending with
    | none => rfl
    | some e => trivial
  · cases ending with
    | none =>
        refine iff_of_false (not_sameClassification_eof h h' hmeets hprobed rebuilt) ?_
        exact not_or.2 ⟨fun hnone => hnone rfl, hprobed⟩
    | some e =>
        refine iff_of_true (sameClassification_error h h' hmeets rebuilt) (.inl ?_)
        exact Option.some_ne_none e

/-- An RTU client gets three bytes of an answer, and the connection is reset: with a tap it reads
them in other pieces. -/
theorem lostConnection_iff_reset :
    SameClassification .rtu 1 (.readHoldingRegisters 0 1)
        (Phase.receive.attempt [.elapsed] .done true (untappedRun false
          [.task (.inner (.arrive (.ok [1, 3]))), .pollRead ⟨[], 64⟩,
            .task (.inner (.arrive (.ok [2]))), .pollRead ⟨[], 64⟩,
            .task (.inner (.arrive (.error ⟨.connectionReset, "reset"⟩))),
            .pollRead ⟨[], 64⟩]).seen)
        (Phase.receive.attempt [.elapsed] .done true (tappedRun false 4096 1048576 262144
          [.task (.inner (.arrive (.ok [1, 3]))), .task (.activeReader 63), .pollRead ⟨[], 1⟩,
            .task (.inner (.arrive (.ok [2]))),
            .task (.inner (.arrive (.error ⟨.connectionReset, "reset"⟩))),
            .task (.activeReader 63), .task (.activeReader 63), .pollRead ⟨[], 64⟩,
            .pollRead ⟨[], 64⟩, .pollRead ⟨[], 64⟩]).seen) ↔
      (some ⟨.connectionReset, "reset"⟩ : Option IoError) ≠ none ∨
        Phase.receive = .receive ∧ ClientKind.rtu.Probed [[1, 3], [2]].flatten :=
  lostConnection_iff .rtu .receive 1 (.readHoldingRegisters 0 1) [.elapsed] .done true
    [[1, 3], [2]] (some ⟨.connectionReset, "reset"⟩) false false 4096 1048576 262144 _ _
    (by decide) rfl rfl (by simp [HasRoom]) (by simp [HasRoom])
    ⟨.error ⟨.connectionReset, "reset"⟩, by decide, trivial⟩
    ⟨.error ⟨.connectionReset, "reset"⟩, by decide, trivial⟩ (by decide)
    ⟨nofun, rfl, rfl, rfl, .inl (show 3 < rtuTarget (.readHoldingRegisters 0 1) by decide)⟩

/-- The stream ends before an RTU client sends its request.  Without a tap the connection is built
again, and the second attempt is answered; with a tap the call ends with the first. -/
theorem eof_classified_differently :
    let ops : List (IoOp (SniffIo.Task RawEvent)) :=
      [.task (.inner (.arrive (.ok []))), .pollRead ⟨[], 64⟩]
    let ops' : List (IoOp (SniffIo.Task RawEvent)) :=
      [.task (.inner (.arrive (.ok []))), .task (.activeReader 63), .pollRead ⟨[], 64⟩]
    let first := Phase.drain.attempt [] .done true (untappedRun false ops).seen
    let first' := Phase.drain.attempt [] .done true (tappedRun false 4096 1048576 262144 ops').seen
    let later : ℕ → Attempt :=
      fun _ => ⟨[.elapsed], .done, fun _ => [.data (encodeRtuFrame [1, 3, 2, 0, 5] [])], true⟩
    first.drain = [.data []] ∧ first'.drain = [.error ⟨.unexpectedEof, "transport closed"⟩] ∧
      rtuCall (some ⟨3⟩) 2 1 (.readHoldingRegisters 0 1) (attemptsFrom first later)
        = some (.ok (.readHoldingRegisters [5])) ∧
      rtuCall (some ⟨3⟩) 2 1 (.readHoldingRegisters 0 1) (attemptsFrom first' later)
        = some (.error (.other "transport closed")) ∧
      ¬ SameClassification .rtu 1 (.readHoldingRegisters 0 1) first first' := by
  intro ops ops' first first' later
  refine ⟨rfl, rfl, rfl, rfl, ?_⟩
  intro hsame
  have houtcome := hsame.outcome (.connect .standard)
  cases houtcome

end OmsModbus.Capture
