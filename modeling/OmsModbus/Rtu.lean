/-
**Modbus RTU.**

An RTU frame has no length and no delimiter.  The server takes the whole buffer for a frame when its
CRC says so; the client reads as many bytes as a good answer to its request has, and takes what came
in for the frame when the bus falls silent before that, since an exception is shorter.

Main definitions:

* `OmsModbus.tryParseServerRtu` — the parser of the server;
* `OmsModbus.expectedRtuPduLen` — how long a good answer is;
* `OmsModbus.rtuSendRecv`, `OmsModbus.rtuCall` — one attempt, and a call;
* `OmsModbus.serveRtu` — the server.

Main results:

* `OmsModbus.rtuFramer_run` — a request frame that comes in one read is found;
* `OmsModbus.rtuSendRecv_ok` — **a client gets the answer whose frame arrives**.
-/

import OmsModbus.Codec
import OmsModbus.Serial

set_option relaxedAutoImplicit false
set_option autoImplicit false

namespace OmsModbus

open Words BitPack StreamFraming

/-! ### The server -/

/-- The CRC at the end of a buffer. -/
def crcReceived (buf : Bytes) : UInt16 :=
  fromLeBytes (buf.getD (buf.length - 2) 0) (buf.getD (buf.length - 1) 0)

/-- Parsing a buffer that is a request frame: CRC and function code are checked. -/
def tryParseServerRtu (buf : Bytes) : Option (RawRequest Unit × ℕ) :=
  if buf.length < MIN_RTU_FRAME then none
  else if crcReceived buf ≠ calculateCrc (buf.take (buf.length - 2)) then none
  else
    match buf.take (buf.length - 2) with
    | slaveId :: fc :: data =>
      if ¬ isKnownFunctionCode fc then none else some (⟨(), slaveId, fc :: data⟩, buf.length)
    | _ => none

theorem tryParseServerRtu_eq_some {buf : Bytes} {x : RawRequest Unit} {n : ℕ}
    (h : tryParseServerRtu buf = some (x, n)) : n = buf.length ∧ 0 < n := by
  unfold tryParseServerRtu at h
  split at h
  · cases h
  · next hlen =>
    rw [MIN_RTU_FRAME] at hlen
    split at h
    · cases h
    · split at h
      · split at h
        · cases h
        · cases h
          exact ⟨rfl, by omega⟩
      · cases h

/-- The parser as a framer. -/
def rtuFramer : Framer UInt8 (RawRequest Unit) where
  parse := tryParseServerRtu
  pos := fun h => (tryParseServerRtu_eq_some h).2
  le := fun h => (tryParseServerRtu_eq_some h).1.le

/-- The protocol of the RTU server. -/
def rtuProtocol : Protocol Unit :=
  { rtuFramer with encode := fun _ data => encodeRtuFrame data [] }

/-- When the bus falls silent a buffer that is no frame is thrown away. -/
def rtuOnSilence (buf : Bytes) : Bytes := if (tryParseServerRtu buf).isNone then [] else buf

/-- The RTU server over its waits. -/
def serveRtu {σ : Type} (service : Service σ) (writeOk : ℕ → Bool) (s : ServerLoop Unit σ)
    (events : List ReadEvent) : ServerLoop Unit σ :=
  serveSerial rtuProtocol service writeOk rtuOnSilence s events

/-! ### The client -/

/-- The length of the PDU of a good answer. -/
def expectedRtuPduLen : Request → Option ℕ
  | .readCoils _ count | .readDiscreteInputs _ count => some (2 + divCeil count.toNat 8)
  | .readHoldingRegisters _ count | .readInputRegisters _ count => some (2 + count.toNat * 2)
  | .writeSingleCoil _ _ | .writeSingleRegister _ _ | .writeMultipleCoils _ _
  | .writeMultipleRegisters _ _ => some 5
  | .readWriteMultipleRegisters _ count _ _ => some (2 + count.toNat * 2)
  | .maskWriteRegister _ _ _ => some 7
  | .diagnostic _ _ => some 5
  | .disconnect => none

/-- The response in the bytes that were read. -/
def decodeRtuResponse (slaveId : UInt8) (buf : Bytes) : Except ModbusError Response :=
  if buf.length < MIN_RTU_FRAME then
    let got := buf.length
    if got = 0 then .error (.timeout RTU_RECV_TIMEOUT)
    else .error (.timeout s!"RTU short frame ({got} bytes, need at least {MIN_RTU_FRAME})")
  else if crcReceived buf ≠ calculateCrc (buf.take (buf.length - 2)) then
    .error (.protocol "RTU CRC mismatch")
  else
    match buf.take (buf.length - 2) with
    | rspSlave :: fc :: data =>
      if rspSlave ≠ slaveId then
        .error (.protocol s!"{SLAVE_ID_MISMATCH} {slaveId}, got {rspSlave}")
      else
        match Response.tryFrom (fc :: data) with
        | .error e => .error (.protocol s!"{PDU_DECODE_ERROR} {e.msg}")
        | .ok rsp => .ok rsp
    | _ => .error (.protocol "RTU frame too short")

/-- Reading the answer. -/
def rtuReceive (slaveId : UInt8) (request : Request) (events : List ReadEvent) :
    Except ModbusError Response :=
  let expectedFrame := (expectedRtuPduLen request).map fun p => p + 1 + CRC_SIZE
  let target := expectedFrame.getD MIN_RTU_FRAME
  match readAtLeast target [] events with
  | (.error e, _, _) => .error e
  | (.ok (), buf, _) => decodeRtuResponse slaveId buf

/-- One attempt of a call. -/
def rtuSendRecv (slaveId : UInt8) (request : Request) (a : Attempt) : Except ModbusError Response :=
  match drainStaleData a.drain with
  | (.error e, _) => .error e
  | (.ok (), _) =>
    match sendFrame slaveId request (fun data => encodeRtuFrame data []) a.write with
    | .error e => .error e
    | .ok frame => rtuReceive slaveId request (a.recv frame)

/-- What a client makes of the PDU of a frame. -/
def rtuOutcome (pdu : Bytes) : Except ModbusError Response :=
  match Response.tryFrom pdu with
  | .error e => .error (.protocol s!"{PDU_DECODE_ERROR} {e.msg}")
  | .ok rsp => .ok rsp

/-- A call. -/
def rtuCall (reconnect : Option ReconnectConfig) (fuel : ℕ) (slaveId : UInt8) (request : Request)
    (attempts : ℕ → Attempt) : Option (Except ModbusError Response) :=
  callAttempts (rtuSendRecv slaveId request) reconnect fuel attempts

/-! ### A frame -/

theorem crcReceived_encode (data : Bytes) :
    crcReceived (encodeRtuFrame data []) = calculateCrc data := by
  have hlen : data.length + 2 - 2 = data.length := by omega
  have hlast : data.length + 2 - 1 = data.length + 1 := by omega
  rw [crcReceived, encodeRtuFrame_nil_length, hlen, hlast,
    encodeRtuFrame, List.nil_append, List.getD_append_right _ _ _ _ (by omega),
    List.getD_append_right _ _ _ _ (by omega), Nat.sub_self, Nat.add_sub_cancel_left]
  exact fromLeBytes_toLeBytes _

theorem take_encodeRtuFrame (data : Bytes) :
    (encodeRtuFrame data []).take ((encodeRtuFrame data []).length - 2) = data := by
  rw [encodeRtuFrame_nil_length, Nat.add_sub_cancel, encodeRtuFrame, List.nil_append,
    List.take_left]

/-- The parser finds a request frame. -/
theorem tryParseServerRtu_encode {slaveId fc : UInt8} {data : Bytes} (hdata : data ≠ [])
    (hfc : isKnownFunctionCode fc = true) :
    tryParseServerRtu (encodeRtuFrame (slaveId :: fc :: data) [])
      = some (⟨(), slaveId, fc :: data⟩, (encodeRtuFrame (slaveId :: fc :: data) []).length) := by
  have hlen := encodeRtuFrame_nil_length (slaveId :: fc :: data)
  have hpos := List.length_pos_iff.2 hdata
  rw [List.length_cons, List.length_cons] at hlen
  rw [tryParseServerRtu, if_neg (by rw [MIN_RTU_FRAME]; omega), take_encodeRtuFrame,
    crcReceived_encode, if_neg (by simp)]
  simp [hfc]

/-- A request frame that comes in one read is found. -/
theorem rtuFramer_run {slaveId : UInt8} {pdu : Bytes} {q : Request}
    (h : Request.tryFrom pdu = .ok q) :
    rtuFramer.run (fun _ => false) [] [encodeRtuFrame (slaveId :: pdu) []]
      = ([⟨(), slaveId, pdu⟩], []) := by
  have hlen := (Request.five_le_pdu_length (Request.tryFrom_inRange h).1).trans
    (Request.pdu_length_le h)
  match pdu with
  | [] => simp at hlen
  | [_] => simp at hlen
  | fc :: b :: data =>
    have hparse : rtuFramer.parse (encodeRtuFrame (slaveId :: fc :: b :: data) [])
        = some (⟨(), slaveId, fc :: b :: data⟩,
          (encodeRtuFrame (slaveId :: fc :: b :: data) []).length) :=
      tryParseServerRtu_encode (by simp) (Request.isKnown_of_tryFrom h)
    have hnil : rtuFramer.parse [] = none := rfl
    rw [Framer.run_cons, Framer.feed, List.nil_append, rtuFramer.drain_some hparse,
      List.drop_length, rtuFramer.drain_none hnil]
    rfl

/-- A frame passes its own checks. -/
theorem decodeRtuResponse_frame (slaveId : UInt8) {pdu : Bytes} (hlen : 2 ≤ pdu.length) :
    decodeRtuResponse slaveId (encodeRtuFrame (slaveId :: pdu) []) = rtuOutcome pdu := by
  have hframe := encodeRtuFrame_nil_length (slaveId :: pdu)
  rw [List.length_cons] at hframe
  rw [decodeRtuResponse, if_neg (by rw [MIN_RTU_FRAME]; omega), crcReceived_encode,
    take_encodeRtuFrame, if_neg (by simp)]
  obtain ⟨fc, data, rfl⟩ := List.exists_cons_of_length_pos (show 0 < pdu.length by omega)
  simp only [ne_eq, not_true_eq_false, if_false]
  rfl

/-- An attempt that comes to the answer: the bus is quiet, the request fits, and is written. -/
structure Attempt.Asks (a : Attempt) (request : Request) : Prop where
  quiet : (drainStaleData a.drain).1 = .ok ()
  encodes : (encodeRequestInto request []).1 = .ok ()
  written : a.write = .done

theorem rtuSendRecv_eq (slaveId : UInt8) {request : Request} {a : Attempt} (h : a.Asks request) :
    rtuSendRecv slaveId request a
      = rtuReceive slaveId request (a.recv (encodeRtuFrame (slaveId :: request.pdu) [])) := by
  have hdrain : drainStaleData a.drain = (.ok (), (drainStaleData a.drain).2) :=
    Prod.ext h.quiet rfl
  rw [rtuSendRecv, hdrain]
  simp only [h.written, sendFrame_done _ h.encodes]

/-- What was read is decoded. -/
theorem rtuReceive_of_read {slaveId : UInt8} {request : Request} {n : ℕ}
    (hexp : expectedRtuPduLen request = some n) {events left : List ReadEvent} {buf : Bytes}
    (h : readAtLeast (n + 1 + CRC_SIZE) [] events = (.ok (), buf, left)) :
    rtuReceive slaveId request events = decodeRtuResponse slaveId buf := by
  simp only [rtuReceive, hexp, Option.map_some, Option.getD_some, h]

/-- **A client gets the answer whose frame arrives**, when it is no longer than a good answer. -/
theorem rtuSendRecv_ok {slaveId : UInt8} {request : Request} {a : Attempt} {rsp : Response}
    {n : ℕ} (hdrain : (drainStaleData a.drain).1 = .ok ()) (hwrite : a.write = .done)
    (hreq : (encodeRequestInto request []).1 = .ok ())
    (hexp : expectedRtuPduLen request = some n) (hlen : rsp.pdu.length ≤ n)
    (hfit : rsp.pdu.length ≤ 253)
    (harr : Arrives (encodeRtuFrame (slaveId :: rsp.pdu) [])
      (a.recv (encodeRtuFrame (slaveId :: request.pdu) []))) :
    rtuSendRecv slaveId request a = .ok (normResponse rsp) := by
  have hframe := encodeRtuFrame_nil_length (slaveId :: rsp.pdu)
  have h2 := rsp.one_lt_pdu_length
  rw [List.length_cons] at hframe
  obtain ⟨left, hread⟩ := @readAtLeast_of_arrives (n + 1 + CRC_SIZE) _ _ harr
    (List.length_pos_iff.1 (by omega)) (by rw [CRC_SIZE]; omega)
  rw [rtuSendRecv_eq slaveId ⟨hdrain, hreq, hwrite⟩, rtuReceive_of_read hexp hread,
    decodeRtuResponse_frame slaveId h2, rtuOutcome, Response.tryFrom_pdu hfit]

end OmsModbus
