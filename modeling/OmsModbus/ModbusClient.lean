/-
**The methods of a client.**

A transport implements one method, `call`; every other method of a client makes one call and checks
the kind of the response.  A write also checks what the device echoes.  A read does not check how
much the device sent.  What a write checks are the decoded fields, so it says as much about the
bytes as the decoder: nothing but an exact echo passes, except that a coil write of off is confirmed
by any value other than on.

Main definitions:

* `OmsModbus.ModbusClient` — a transport, by what its calls return;
* `OmsModbus.ModbusClient.callFor` — a call, and the check of its response;
* `OmsModbus.ModbusClient.HandsOver` — a transport hands a PDU to the decoder;
* `OmsModbus.rtuClient`, `OmsModbus.asciiClient`, `OmsModbus.tcpClient` — the transports.

Main results:

* `OmsModbus.rtuClient_handsOver`, `OmsModbus.asciiClient_handsOver`,
  `OmsModbus.tcpClient_handsOver` — the transports hand over what a device answers;
* `OmsModbus.ModbusClient.reads_size_iff` — **a read has the requested size exactly when the byte
  count of the answer has it**;
* `OmsModbus.ModbusClient.writes_confirmed_iff` — **only the exact echo confirms a write**, but for
  a coil that is switched off.
-/

import OmsModbus.Ascii
import OmsModbus.ResponseCanonical
import OmsModbus.RtuReceive
import OmsModbus.TcpClient

set_option relaxedAutoImplicit false
set_option autoImplicit false

namespace OmsModbus

open Words BitPack

/-! ### An unexpected response -/

/-- `Debug` for `Exception`. -/
def Exception.debug : Exception → String
  | illegalFunction => "IllegalFunction"
  | illegalDataAddress => "IllegalDataAddress"
  | illegalDataValue => "IllegalDataValue"
  | serverDeviceFailure => "ServerDeviceFailure"
  | acknowledge => "Acknowledge"
  | serverDeviceBusy => "ServerDeviceBusy"
  | negativeAcknowledge => "NegativeAcknowledge"
  | memoryParityError => "MemoryParityError"
  | gatewayPathUnavailable => "GatewayPathUnavailable"
  | gatewayTargetDeviceFailedToRespond => "GatewayTargetDeviceFailedToRespond"
  | custom code => s!"Custom({code})"

/-- `Debug` for `Response`. -/
def Response.debug : Response → String
  | readCoils bits => s!"ReadCoils({bits})"
  | readDiscreteInputs bits => s!"ReadDiscreteInputs({bits})"
  | readHoldingRegisters regs => s!"ReadHoldingRegisters({regs})"
  | readInputRegisters regs => s!"ReadInputRegisters({regs})"
  | writeSingleCoil addr val => s!"WriteSingleCoil({addr}, {val})"
  | writeSingleRegister addr val => s!"WriteSingleRegister({addr}, {val})"
  | writeMultipleCoils addr qty => s!"WriteMultipleCoils({addr}, {qty})"
  | writeMultipleRegisters addr qty => s!"WriteMultipleRegisters({addr}, {qty})"
  | readWriteMultipleRegisters regs => s!"ReadWriteMultipleRegisters({regs})"
  | maskWriteRegister addr andMask orMask => s!"MaskWriteRegister({addr}, {andMask}, {orMask})"
  | diagnostic sf data => s!"Diagnostic({sf}, {data})"
  | exception fc ex => s!"Exception({fc}, {ex.debug})"

/-- The error of a response that is not the expected one. -/
def unexpectedResponse : Response → ModbusError
  | .exception fc ex => .exception fc ex.toU8
  | other => .protocol s!"unexpected response: {other.debug}"

/-! ### The methods -/

/-- A transport, by what its calls return. -/
structure ModbusClient where
  call : UInt8 → Request → Except ModbusError Response

namespace ModbusClient

/-- A call whose response is the expected one, as `select` says. -/
def callFor {α : Type} (c : ModbusClient) (slave : UInt8) (request : Request)
    (select : Response → Option α) : Except ModbusError α :=
  match c.call slave request with
  | .error e => .error e
  | .ok rsp =>
    match select rsp with
    | some v => .ok v
    | none => .error (unexpectedResponse rsp)

def readCoils (c : ModbusClient) (slave : UInt8) (addr quantity : UInt16) :
    Except ModbusError (List Bool) :=
  c.callFor slave (.readCoils addr quantity) fun
    | .readCoils bits => some bits
    | _ => none

def readDiscreteInputs (c : ModbusClient) (slave : UInt8) (addr quantity : UInt16) :
    Except ModbusError (List Bool) :=
  c.callFor slave (.readDiscreteInputs addr quantity) fun
    | .readDiscreteInputs bits => some bits
    | _ => none

def readHoldingRegisters (c : ModbusClient) (slave : UInt8) (addr quantity : UInt16) :
    Except ModbusError (List UInt16) :=
  c.callFor slave (.readHoldingRegisters addr quantity) fun
    | .readHoldingRegisters regs => some regs
    | _ => none

def readInputRegisters (c : ModbusClient) (slave : UInt8) (addr quantity : UInt16) :
    Except ModbusError (List UInt16) :=
  c.callFor slave (.readInputRegisters addr quantity) fun
    | .readInputRegisters regs => some regs
    | _ => none

def writeSingleCoil (c : ModbusClient) (slave : UInt8) (addr : UInt16) (value : Bool) :
    Except ModbusError Unit :=
  c.callFor slave (.writeSingleCoil addr value) fun
    | .writeSingleCoil a v => if a = addr ∧ v = value then some () else none
    | _ => none

def writeSingleRegister (c : ModbusClient) (slave : UInt8) (addr value : UInt16) :
    Except ModbusError Unit :=
  c.callFor slave (.writeSingleRegister addr value) fun
    | .writeSingleRegister a v => if a = addr ∧ v = value then some () else none
    | _ => none

def writeMultipleCoils (c : ModbusClient) (slave : UInt8) (addr : UInt16) (values : List Bool) :
    Except ModbusError Unit :=
  c.callFor slave (.writeMultipleCoils addr values) fun
    | .writeMultipleCoils a n => if a = addr ∧ n.toNat = values.length then some () else none
    | _ => none

def writeMultipleRegisters (c : ModbusClient) (slave : UInt8) (addr : UInt16)
    (values : List UInt16) : Except ModbusError Unit :=
  c.callFor slave (.writeMultipleRegisters addr values) fun
    | .writeMultipleRegisters a n => if a = addr ∧ n.toNat = values.length then some () else none
    | _ => none

def maskWriteRegister (c : ModbusClient) (slave : UInt8) (addr andMask orMask : UInt16) :
    Except ModbusError Unit :=
  c.callFor slave (.maskWriteRegister addr andMask orMask) fun
    | .maskWriteRegister a and or =>
        if a = addr ∧ and = andMask ∧ or = orMask then some () else none
    | _ => none

def diagnostic (c : ModbusClient) (slave : UInt8) (subFunction data : UInt16) :
    Except ModbusError (UInt16 × UInt16) :=
  c.callFor slave (.diagnostic subFunction data) fun
    | .diagnostic sf d => some (sf, d)
    | _ => none

def readWriteMultipleRegisters (c : ModbusClient) (slave : UInt8) (readAddr readQty : UInt16)
    (writeAddr : UInt16) (values : List UInt16) : Except ModbusError (List UInt16) :=
  c.callFor slave (.readWriteMultipleRegisters readAddr readQty writeAddr values) fun
    | .readWriteMultipleRegisters regs => some regs
    | _ => none

theorem callFor_eq_ok {α : Type} {c : ModbusClient} {slave : UInt8} {request : Request}
    {select : Response → Option α} {v : α} :
    c.callFor slave request select = .ok v ↔
      ∃ rsp, c.call slave request = .ok rsp ∧ select rsp = some v := by
  unfold callFor
  cases c.call slave request with
  | error e => simp
  | ok rsp =>
      cases h : select rsp with
      | none => simp [h]
      | some w => simp [h]

/-- The calls of a transport return what the decoder makes of `b`, if the request can be sent. -/
def HandsOver (c : ModbusClient) (slave : UInt8) (b : Bytes) : Prop :=
  ∀ request, request ≠ .disconnect → ∀ rsp, c.call slave request = .ok rsp ↔
    (encodeRequestInto request []).1 = .ok () ∧ Response.tryFrom b = .ok rsp

end ModbusClient

/-! ### The transports -/

/-- The RTU client, when a call makes the attempt `a`. -/
def rtuClient (a : Attempt) : ModbusClient := ⟨fun slave request => rtuSendRecv slave request a⟩

/-- The ASCII client, when a call makes the attempt `a`. -/
def asciiClient (a : Attempt) : ModbusClient :=
  ⟨fun slave request => asciiSendRecv slave request a⟩

/-- The TCP client, when a call makes the attempt `a`. -/
def tcpClient (c : TcpClient) (a : Attempt) : ModbusClient :=
  ⟨fun slave request => (c.sendRecv slave request a.drain a.write a.recv).1.result⟩

/-- A quiet line, and a device that answers with `frame`. -/
def answering (frame : Bytes) : Attempt where
  drain := [.elapsed]
  write := .done
  recv := fun _ => [.data frame, .elapsed]
  rebuilt := true

/-- A frame that comes in one read, and then silence. -/
theorem readAtLeast_one {min : ℕ} (hmin : 0 < min) {f : Bytes} (hf : f ≠ []) :
    ∃ left, readAtLeast min [] [.data f, .elapsed] = (.ok (), f, left) := by
  have hzero : ([] : Bytes).length < min := hmin
  have hsilent : Silent [.elapsed] := by
    intro event hevent
    exact .inl (List.mem_singleton.1 hevent)
  rw [readAtLeast_cons, if_pos hzero]
  simp only [if_neg hf, List.nil_append]
  exact readAtLeast_silent hf hsilent

theorem encodes_of_sendFrame {slaveId : UInt8} {request : Request} {encodeFn : Bytes → Bytes}
    {write : WriteEvent} {frame : Bytes}
    (h : sendFrame slaveId request encodeFn write = .ok frame) :
    (encodeRequestInto request []).1 = .ok () := by
  unfold sendFrame at h
  split at h
  · cases h
  · next henc =>
    obtain ⟨hfit, -⟩ := encodeRequestInto_eq_ok.1 henc
    have hok : encodeRequestInto request [] = (.ok (), request.pdu) :=
      encodeRequestInto_eq_ok.2 ⟨hfit, rfl⟩
    rw [hok]

theorem rtuOutcome_eq_ok {pdu : Bytes} {rsp : Response} :
    rtuOutcome pdu = .ok rsp ↔ Response.tryFrom pdu = .ok rsp := by
  unfold rtuOutcome
  cases Response.tryFrom pdu with
  | error e => simp
  | ok r => simp only [Except.ok.injEq]

/-- A transport that sends the request before it looks at the answer hands the answer over. -/
theorem ModbusClient.handsOver_of {c : ModbusClient} {slave : UInt8} {b : Bytes}
    (hsent : ∀ request, request ≠ .disconnect → ∀ rsp, c.call slave request = .ok rsp →
      (encodeRequestInto request []).1 = .ok ())
    (hcall : ∀ request, request ≠ .disconnect → (encodeRequestInto request []).1 = .ok () →
      ∀ rsp, c.call slave request = .ok rsp ↔ Response.tryFrom b = .ok rsp) :
    c.HandsOver slave b := by
  intro request hreq rsp
  constructor
  · intro hok
    have henc := hsent request hreq rsp hok
    exact ⟨henc, (hcall request hreq henc rsp).1 hok⟩
  · intro h
    exact (hcall request hreq h.1 rsp).2 h.2

/-- **An RTU client hands over what a device answers.** -/
theorem rtuClient_handsOver (slave : UInt8) (b : Bytes) :
    (rtuClient (answering (encodeRtuFrame (slave :: b) []))).HandsOver slave b := by
  refine ModbusClient.handsOver_of ?_ ?_
  · intro request _ rsp hok
    change rtuSendRecv slave request (answering (encodeRtuFrame (slave :: b) [])) = _ at hok
    unfold rtuSendRecv at hok
    split at hok
    · cases hok
    · split at hok
      · cases hok
      · next hsend => exact encodes_of_sendFrame hsend
  · intro request hreq henc rsp
    change rtuSendRecv slave request (answering (encodeRtuFrame (slave :: b) [])) = _ ↔ _
    obtain ⟨n, hexp⟩ := exists_expectedRtuPduLen hreq
    have hframe := encodeRtuFrame_nil_length (slave :: b)
    obtain ⟨left, hread⟩ := readAtLeast_one (Nat.succ_pos (n + 1 + 1))
      (List.length_pos_iff.1 (show 0 < (encodeRtuFrame (slave :: b) []).length by omega))
    rw [rtuSendRecv_eq slave ⟨rfl, henc, rfl⟩]
    change rtuReceive slave request [.data (encodeRtuFrame (slave :: b) []), .elapsed] = _ ↔ _
    rw [rtuReceive_of_read hexp hread]
    by_cases hlen : 2 ≤ b.length
    · rw [decodeRtuResponse_frame slave hlen, rtuOutcome_eq_ok]
    · -- a PDU of less than two bytes is neither taken for a frame nor decoded
      rw [List.length_cons] at hframe
      rw [decodeRtuResponse, if_pos (by rw [MIN_RTU_FRAME]; omega)]
      refine iff_of_false ?_ ?_
      · simp only
        split <;> simp
      · intro hdec
        have := Response.pdu_length_le hdec
        have := rsp.one_lt_pdu_length
        omega

/-- **An ASCII client hands over what a device answers.** -/
theorem asciiClient_handsOver (slave : UInt8) {b : Bytes} (hb : b ≠ []) :
    (asciiClient (answering (encodeAsciiFrameInto (slave :: b) []))).HandsOver slave b := by
  refine ModbusClient.handsOver_of ?_ ?_
  · intro request hreq rsp hok
    change asciiSendRecv slave request (answering (encodeAsciiFrameInto (slave :: b) [])) = _ at hok
    rw [asciiSendRecv, if_neg hreq] at hok
    split at hok
    · cases hok
    · split at hok
      · cases hok
      · next hsend => exact encodes_of_sendFrame hsend
  · intro request hreq henc rsp
    change asciiSendRecv slave request (answering (encodeAsciiFrameInto (slave :: b) [])) = _ ↔ _
    obtain ⟨fc, data, rfl⟩ := List.exists_cons_of_ne_nil hb
    have hfound := @tryParseAscii_encode slave fc data []
    rw [List.append_nil] at hfound
    have hparse : tryParseAsciiResponse (encodeAsciiFrameInto (slave :: fc :: data) []) slave
        = some (rtuOutcome (fc :: data)) := by
      rw [tryParseAsciiResponse, hfound, rtuOutcome]
      simp only [ne_eq, not_true_eq_false, if_false]
      cases Response.tryFrom (fc :: data) <;> rfl
    have hframe : encodeAsciiFrameInto (slave :: fc :: data) [] ≠ [] := by
      rw [encodeAsciiFrameInto_line]
      simp
    have hreceive : asciiReceive slave []
        [.data (encodeAsciiFrameInto (slave :: fc :: data) []), .elapsed]
        = rtuOutcome (fc :: data) := by
      rw [asciiReceive, if_neg hframe, List.nil_append]
      simp only [hparse]
    rw [← rtuOutcome_eq_ok, ← hreceive, asciiSendRecv, if_neg hreq]
    simp only [answering, sendFrame_done _ henc]
    rfl

/-- **A TCP client hands over what a device answers**, unless it looks for a repeated unit id. -/
theorem tcpClient_handsOver {c : TcpClient} (hc : c.tcpConfig.unitIdInBody = false)
    (slave : UInt8) (tid : UInt16) {b : Bytes} (hb : b ≠ []) (hlen : b.length ≤ 253) :
    (tcpClient c (answering (mbap tid (b.length + 1) slave ++ b))).HandsOver slave b := by
  refine ModbusClient.handsOver_of ?_ ?_
  · intro request _ rsp hok
    change (c.sendRecv slave request _ _ _).1.result = _ at hok
    unfold TcpClient.sendRecv at hok
    split at hok
    · cases hok
    · simp only at hok
      split at hok
      · cases hok
      · next hsend => exact encodes_of_sendFrame hsend
  · intro request _ henc rsp
    change (c.sendRecv slave request _ _ _).1.result = _ ↔ _
    have hframe : ∀ f ∈ [mbap tid (b.length + 1) slave ++ b], f ≠ [] := by
      simp [hb]
    have hflat : [mbap tid (b.length + 1) slave ++ b].flatten
        = mbap tid (b.length + 1) slave ++ b := List.flatten_singleton
    have hstrip : c.tcpConfig.strip slave b = b := by
      rw [TcpConfig.strip, hc, if_neg (by simp)]
    have hreceive : (tcpReceive c.tcpConfig slave
        ([mbap tid (b.length + 1) slave ++ b].map .data ++ [.elapsed])).1 = rtuOutcome b := by
      rw [tcpReceive_frame hb (by omega) (Nat.le_succ _) le_rfl hframe hflat rfl, hstrip]
      rfl
    have hresult : (c.sendRecv slave request [.elapsed] .done fun _ =>
        [.data (mbap tid (b.length + 1) slave ++ b), .elapsed]).1.result = rtuOutcome b := by
      rw [TcpClient.sendRecv_result _ rfl henc]
      exact hreceive
    rw [← rtuOutcome_eq_ok, ← hresult]
    rfl

/-! ### The size of a read -/

/-- A PDU starts with the function code of what it is decoded to. -/
theorem Response.tryFrom_head {b : Bytes} {rsp : Response} (h : Response.tryFrom b = .ok rsp) :
    b.head? = some rsp.functionCode.value := by
  obtain ⟨-, p, s, rfl, hp⟩ := Response.tryFrom_eq_ok_iff.1 h
  cases rsp with
  | writeSingleCoil addr val =>
      obtain ⟨raw, -, rfl⟩ := hp
      rfl
  | _ =>
      rcases hp with rfl
      rfl

/-- The second byte of a response with a list is its byte count. -/
theorem Response.tryFrom_byteCount {b : Bytes} {rsp : Response}
    (h : Response.tryFrom b = .ok rsp) (hlist : rsp.functionCode.value ∈ [1, 2, 3, 4, 23]) :
    (b.getD 1 0).toNat = rsp.byteCount := by
  obtain ⟨hdec, p, s, rfl, hp⟩ := Response.tryFrom_eq_ok_iff.1 h
  cases rsp with
  | readCoils bits | readDiscreteInputs bits =>
      rcases hp with rfl
      have hle : bits.length ≤ 8 * 255 := hdec.2
      change (UInt8.ofNat (divCeil bits.length 8)).toNat = divCeil bits.length 8
      rw [UInt8.toNat_ofNat', divCeil]
      omega
  | readHoldingRegisters regs | readInputRegisters regs | readWriteMultipleRegisters regs =>
      rcases hp with rfl
      have hle : regs.length ≤ 127 := hdec
      change (UInt8.ofNat (regs.length * 2)).toNat = regs.length * 2
      rw [UInt8.toNat_ofNat']
      omega
  | exception fc ex =>
      simp only [functionCode, List.mem_cons, List.not_mem_nil, or_false] at hlist
      rcases hlist with hfc | hfc | hfc | hfc | hfc <;>
        exact absurd hfc (or_exceptionBit_ne (by decide))
  | _ => simp [functionCode] at hlist

namespace ModbusClient

/-- A list that is read has the given size exactly when the byte count says so.  Which responses
have the list and which have the function code is seen case by case, for each constructor. -/
theorem callFor_size_iff {α : Type} {c : ModbusClient} {slave : UInt8} {request : Request}
    {rsp : Response} {b : Bytes} {select : Response → Option (List α)} {fc : UInt8}
    {size count : ℕ} (f : List α → Response) (hcall : c.call slave request = .ok rsp)
    (hdec : Response.tryFrom b = .ok rsp)
    (hsize : ∀ v, (f v).Decodable → (v.length = size ↔ (f v).byteCount = count))
    (hlist : fc ∈ [1, 2, 3, 4, 23] := by decide)
    (hsel : ∀ r v, select r = some v ↔ r = f v := by
      intro r v
      cases r <;> simp)
    (hfc : ∀ r : Response, r.functionCode.value = fc ↔ ∃ v, r = f v := by
      intro r
      cases r <;> simp (disch := decide) [Response.functionCode, or_exceptionBit_ne]) :
    (∀ v, c.callFor slave request select = .ok v → v.length = size) ↔
      (b.head? = some fc → (b.getD 1 0).toNat = count) := by
  have hok : ∀ v, c.callFor slave request select = .ok v ↔ rsp = f v := by
    intro v
    rw [callFor_eq_ok, hcall]
    simp only [Except.ok.injEq, exists_eq_left', hsel]
  have hhead : b.head? = some fc ↔ rsp.functionCode.value = fc := by
    rw [Response.tryFrom_head hdec, Option.some.injEq]
  simp only [hok, hhead, hfc]
  constructor
  · intro h hv
    obtain ⟨v, rfl⟩ := hv
    rw [Response.tryFrom_byteCount hdec (by rwa [(hfc _).2 ⟨v, rfl⟩])]
    exact (hsize v (Response.tryFrom_eq_ok_iff.1 hdec).1).1 (h v rfl)
  · intro h v hv
    subst hv
    have hcount := h ⟨v, rfl⟩
    rw [Response.tryFrom_byteCount hdec (by rwa [(hfc _).2 ⟨v, rfl⟩])] at hcount
    exact (hsize v (Response.tryFrom_eq_ok_iff.1 hdec).1).2 hcount

/-- Registers have two bytes each. -/
theorem registers_size_iff {f : List UInt16 → Response} (hf : ∀ v, (f v).byteCount = v.length * 2)
    (q : ℕ) (v : List UInt16) : v.length = q ↔ (f v).byteCount = 2 * q := by
  rw [hf]
  omega

/-- Whole bytes of coils. -/
theorem coils_size_iff {bits : List Bool} (h : bits.length % 8 = 0) (q : ℕ) :
    bits.length = 8 * divCeil q 8 ↔ divCeil bits.length 8 = divCeil q 8 := by
  rw [divCeil, divCeil]
  omega

/-- **A read has the requested size exactly when the byte count of the answer has it.** -/
theorem reads_size_iff (c : ModbusClient) (slave : UInt8) (b : Bytes) (rsp : Response)
    (hdec : Response.tryFrom b = .ok rsp) :
    (∀ addr q, c.call slave (.readHoldingRegisters addr q) = .ok rsp →
      ((∀ v, c.readHoldingRegisters slave addr q = .ok v → v.length = q.toNat) ↔
        (b.head? = some 3 → (b.getD 1 0).toNat = 2 * q.toNat))) ∧
    (∀ addr q, c.call slave (.readInputRegisters addr q) = .ok rsp →
      ((∀ v, c.readInputRegisters slave addr q = .ok v → v.length = q.toNat) ↔
        (b.head? = some 4 → (b.getD 1 0).toNat = 2 * q.toNat))) ∧
    (∀ addr q writeAddr values,
      c.call slave (.readWriteMultipleRegisters addr q writeAddr values) = .ok rsp →
      ((∀ v, c.readWriteMultipleRegisters slave addr q writeAddr values = .ok v →
          v.length = q.toNat) ↔
        (b.head? = some 23 → (b.getD 1 0).toNat = 2 * q.toNat))) ∧
    (∀ addr q, c.call slave (.readCoils addr q) = .ok rsp →
      ((∀ v, c.readCoils slave addr q = .ok v → v.length = 8 * divCeil q.toNat 8) ↔
        (b.head? = some 1 → (b.getD 1 0).toNat = divCeil q.toNat 8))) ∧
    ∀ addr q, c.call slave (.readDiscreteInputs addr q) = .ok rsp →
      ((∀ v, c.readDiscreteInputs slave addr q = .ok v → v.length = 8 * divCeil q.toNat 8) ↔
        (b.head? = some 2 → (b.getD 1 0).toNat = divCeil q.toNat 8)) := by
  refine ⟨?_, ?_, ?_, ?_, ?_⟩
  · intro addr q hcall
    refine callFor_size_iff .readHoldingRegisters hcall hdec ?_
    intro v _
    exact registers_size_iff (fun _ => rfl) _ v
  · intro addr q hcall
    refine callFor_size_iff .readInputRegisters hcall hdec ?_
    intro v _
    exact registers_size_iff (fun _ => rfl) _ v
  · intro addr q writeAddr values hcall
    refine callFor_size_iff .readWriteMultipleRegisters hcall hdec ?_
    intro v _
    exact registers_size_iff (fun _ => rfl) _ v
  · intro addr q hcall
    refine callFor_size_iff .readCoils hcall hdec ?_
    intro v hv
    exact coils_size_iff hv.1 _
  · intro addr q hcall
    refine callFor_size_iff .readDiscreteInputs hcall hdec ?_
    intro v hv
    exact coils_size_iff hv.1 _

/-- Two registers are asked for and come back. -/
theorem reads_size_iff_two :
    (∀ v, (rtuClient (answering (encodeRtuFrame [1, 3, 4, 0, 1, 0, 2] []))).readHoldingRegisters
        1 0 2 = .ok v → v.length = 2) ↔
      (([3, 4, 0, 1, 0, 2] : Bytes).head? = some 3 →
        (([3, 4, 0, 1, 0, 2] : Bytes).getD 1 0).toNat = 2 * 2) :=
  (reads_size_iff (rtuClient (answering (encodeRtuFrame [1, 3, 4, 0, 1, 0, 2] []))) 1
    [3, 4, 0, 1, 0, 2] (.readHoldingRegisters [1, 2]) (by decide)).1 0 2 (by decide)

/-- Two registers are asked for, one comes back, and the read succeeds. -/
theorem readHoldingRegisters_short :
    Response.tryFrom [3, 2, 0, 5] = .ok (.readHoldingRegisters [5]) ∧
      ∃ v, (rtuClient (answering (encodeRtuFrame [1, 3, 2, 0, 5] []))).readHoldingRegisters 1 0 2
          = .ok v ∧ v.length ≠ 2 :=
  ⟨by decide, [5], by decide, by decide⟩

/-! ### The echo of a write -/

/-- What a call that succeeds says about the request and the answer. -/
theorem HandsOver.callFor_eq_ok {α : Type} {c : ModbusClient} {slave : UInt8} {b : Bytes}
    (h : c.HandsOver slave b) {request : Request} (hreq : request ≠ .disconnect)
    {select : Response → Option α} {v : α} :
    c.callFor slave request select = .ok v ↔
      encodeRequestInto request [] = (.ok (), request.pdu) ∧
        ∃ rsp, Response.tryFrom b = .ok rsp ∧ select rsp = some v := by
  have henc : encodeRequestInto request [] = (.ok (), request.pdu) ↔
      (encodeRequestInto request []).1 = .ok () := by
    constructor
    · intro heq
      rw [heq]
    · intro hok
      obtain ⟨hfit, -⟩ := encodeRequestInto_eq_ok.1 (Prod.ext hok rfl)
      exact encodeRequestInto_eq_ok.2 ⟨hfit, rfl⟩
  rw [ModbusClient.callFor_eq_ok, henc]
  constructor
  · intro hok
    obtain ⟨rsp, hcall, hsel⟩ := hok
    obtain ⟨hsent, hdec⟩ := (h request hreq rsp).1 hcall
    exact ⟨hsent, rsp, hdec, hsel⟩
  · intro hok
    obtain ⟨hsent, rsp, hdec, hsel⟩ := hok
    exact ⟨rsp, (h request hreq rsp).2 ⟨hsent, hdec⟩, hsel⟩

/-- A call that succeeds has sent the request, and the answer starts with a response that passed
the check. -/
theorem HandsOver.carried {α : Type} {c : ModbusClient} {slave : UInt8} {b : Bytes}
    (h : c.HandsOver slave b) {request : Request} (hreq : request ≠ .disconnect)
    {select : Response → Option α} {v : α} (hok : c.callFor slave request select = .ok v) :
    encodeRequestInto request [] = (.ok (), request.pdu) ∧
      ∃ rsp p, select rsp = some v ∧ rsp.Carries p ∧ p <+: b := by
  obtain ⟨henc, rsp, hdec, hsel⟩ := (h.callFor_eq_ok hreq).1 hok
  obtain ⟨-, p, s, rfl, hp⟩ := Response.tryFrom_eq_ok_iff.1 hdec
  exact ⟨henc, rsp, p, hsel, hp, List.prefix_append _ _⟩

/-- The answer starts with the request. -/
def Echoes (b : Bytes) (request : Request) : Prop :=
  ∃ e, encodeRequestInto request [] = (.ok (), e) ∧ e <+: b

/-- The answer starts with the first five bytes of the request: function code, address and
quantity. -/
def EchoesHead (b : Bytes) (request : Request) : Prop :=
  ∃ e, encodeRequestInto request [] = (.ok (), e) ∧ e.take 5 <+: b

/-- The answer to a coil write, with a value that is neither on nor off. -/
def StrayCoilValue (b : Bytes) (addr : Address) : Prop :=
  ∃ raw : UInt16, raw ≠ 0xFF00 ∧ raw ≠ 0x0000 ∧ 5 :: (toBeBytes addr ++ toBeBytes raw) <+: b

section Writes

variable {c : ModbusClient} {slave : UInt8} {b : Bytes} {addr : Address}

theorem writeSingleCoil_eq_ok (h : c.HandsOver slave b) {value : Bool} :
    c.writeSingleCoil slave addr value = .ok () ↔
      ∃ raw : UInt16, (raw == 0xFF00) = value ∧
        5 :: (toBeBytes addr ++ toBeBytes raw) <+: b := by
  have henc : encodeRequestInto (.writeSingleCoil addr value) []
      = (.ok (), (Request.writeSingleCoil addr value).pdu) :=
    encodeRequestInto_eq_ok.2 ⟨by simp [Request.pdu], rfl⟩
  rw [writeSingleCoil, h.callFor_eq_ok (by simp)]
  constructor
  · intro hok
    obtain ⟨-, rsp, hdec, hsel⟩ := hok
    cases rsp with
    | writeSingleCoil a v =>
        obtain ⟨rfl, rfl⟩ : a = addr ∧ v = value := by simpa using hsel
        obtain ⟨-, p, s, rfl, raw, hraw, rfl⟩ := Response.tryFrom_eq_ok_iff.1 hdec
        exact ⟨raw, hraw, List.prefix_append _ _⟩
    | _ => cases hsel
  · intro hraw
    obtain ⟨raw, hval, s, rfl⟩ := hraw
    refine ⟨henc, .writeSingleCoil addr value, ?_, by simp⟩
    exact Response.tryFrom_eq_ok_iff.2 ⟨trivial, _, s, rfl, raw, hval, rfl⟩

/-- A coil write is confirmed by its echo only, when the value of the answer is on or off. -/
theorem writeSingleCoil_confirmed_iff (h : c.HandsOver slave b) (value : Bool) :
    (c.writeSingleCoil slave addr value = .ok () → Echoes b (.writeSingleCoil addr value)) ↔
      ¬ (value = false ∧ StrayCoilValue b addr) := by
  have hecho : Echoes b (.writeSingleCoil addr value) ↔
      (Request.writeSingleCoil addr value).pdu <+: b := by
    have hfit : (Request.writeSingleCoil addr value).pdu.length ≤ 253 := by simp [Request.pdu]
    constructor
    · intro he
      obtain ⟨e, henc, hpre⟩ := he
      obtain ⟨-, rfl⟩ := encodeRequestInto_eq_ok.1 henc
      exact hpre
    · intro hpre
      exact ⟨_, encodeRequestInto_eq_ok.2 ⟨hfit, rfl⟩, hpre⟩
  rw [hecho, writeSingleCoil_eq_ok h]
  constructor
  · intro hall hstray
    obtain ⟨rfl, raw, hon, hoff, hpre⟩ := hstray
    have hpdu := hall ⟨raw, by simpa using hon, hpre⟩
    -- both prefixes have five bytes, so the values are the same
    have heq := List.prefix_of_prefix_length_le hpre hpdu (by simp [Request.pdu])
    have hfive := heq.eq_of_length (by simp [Request.pdu])
    rw [Request.pdu, List.cons.injEq] at hfive
    have hword : toBeBytes raw ++ [] = toBeBytes 0x0000 ++ [] :=
      congrArg (· ++ []) (List.append_cancel_left hfive.2)
    exact hoff (toBeBytes_append_inj.1 hword).1
  · intro hstray hraw
    obtain ⟨raw, hval, hpre⟩ := hraw
    cases value with
    | true =>
        obtain rfl : raw = 0xFF00 := by simpa using hval
        exact hpre
    | false =>
        have hon : raw ≠ 0xFF00 := by simpa using hval
        by_cases hoff : raw = 0x0000
        · subst hoff
          exact hpre
        · exact absurd ⟨rfl, raw, hon, hoff, hpre⟩ hstray

theorem writeSingleRegister_confirmed (h : c.HandsOver slave b) {value : UInt16}
    (hok : c.writeSingleRegister slave addr value = .ok ()) :
    Echoes b (.writeSingleRegister addr value) := by
  obtain ⟨henc, rsp, p, hsel, hp, hpre⟩ := h.carried (by simp) hok
  refine ⟨_, henc, ?_⟩
  cases rsp with
  | writeSingleRegister a v =>
      obtain ⟨rfl, rfl⟩ : a = addr ∧ v = value := by simpa using hsel
      rcases hp with rfl
      exact hpre
  | _ => cases hsel

theorem maskWriteRegister_confirmed (h : c.HandsOver slave b) {andMask orMask : UInt16}
    (hok : c.maskWriteRegister slave addr andMask orMask = .ok ()) :
    Echoes b (.maskWriteRegister addr andMask orMask) := by
  obtain ⟨henc, rsp, p, hsel, hp, hpre⟩ := h.carried (by simp) hok
  refine ⟨_, henc, ?_⟩
  cases rsp with
  | maskWriteRegister a and or =>
      obtain ⟨rfl, rfl, rfl⟩ : a = addr ∧ and = andMask ∧ or = orMask := by simpa using hsel
      rcases hp with rfl
      rw [Request.pdu, List.append_assoc]
      exact hpre
  | _ => cases hsel

/-- A quantity that was echoed is the length of the list modulo 2 ^ 16. -/
theorem ofNat_of_toNat_eq {n : UInt16} {count : ℕ} (h : n.toNat = count) :
    UInt16.ofNat count = n := by
  rw [← h, UInt16.ofNat_toNat]

theorem writeMultipleCoils_confirmed (h : c.HandsOver slave b) {values : List Bool}
    (hok : c.writeMultipleCoils slave addr values = .ok ()) :
    EchoesHead b (.writeMultipleCoils addr values) := by
  obtain ⟨henc, rsp, p, hsel, hp, hpre⟩ := h.carried (by simp) hok
  refine ⟨_, henc, ?_⟩
  cases rsp with
  | writeMultipleCoils a n =>
      obtain ⟨rfl, hn⟩ : a = addr ∧ n.toNat = values.length := by simpa using hsel
      rcases hp with rfl
      rw [Request.pdu, ofNat_of_toNat_eq hn]
      exact hpre
  | _ => cases hsel

theorem writeMultipleRegisters_confirmed (h : c.HandsOver slave b) {values : List UInt16}
    (hok : c.writeMultipleRegisters slave addr values = .ok ()) :
    EchoesHead b (.writeMultipleRegisters addr values) := by
  obtain ⟨henc, rsp, p, hsel, hp, hpre⟩ := h.carried (by simp) hok
  refine ⟨_, henc, ?_⟩
  cases rsp with
  | writeMultipleRegisters a n =>
      obtain ⟨rfl, hn⟩ : a = addr ∧ n.toNat = values.length := by simpa using hsel
      rcases hp with rfl
      rw [Request.pdu, ofNat_of_toNat_eq hn]
      exact hpre
  | _ => cases hsel

end Writes

/-- **Only the exact echo confirms a write**, of several values that of their address and quantity;
but a coil that is switched off is confirmed by any value other than on. -/
theorem writes_confirmed_iff (c : ModbusClient) (slave : UInt8) (b : Bytes)
    (h : c.HandsOver slave b) :
    (∀ addr value,
      (c.writeSingleCoil slave addr value = .ok () → Echoes b (.writeSingleCoil addr value)) ↔
        ¬ (value = false ∧ StrayCoilValue b addr)) ∧
    (∀ addr value, c.writeSingleRegister slave addr value = .ok () →
      Echoes b (.writeSingleRegister addr value)) ∧
    (∀ addr andMask orMask, c.maskWriteRegister slave addr andMask orMask = .ok () →
      Echoes b (.maskWriteRegister addr andMask orMask)) ∧
    (∀ addr values, c.writeMultipleCoils slave addr values = .ok () →
      EchoesHead b (.writeMultipleCoils addr values)) ∧
    ∀ addr values, c.writeMultipleRegisters slave addr values = .ok () →
      EchoesHead b (.writeMultipleRegisters addr values) :=
  ⟨fun _ => writeSingleCoil_confirmed_iff h, fun _ _ => writeSingleRegister_confirmed h,
    fun _ _ _ => maskWriteRegister_confirmed h, fun _ _ => writeMultipleCoils_confirmed h,
    fun _ _ => writeMultipleRegisters_confirmed h⟩

/-- A register write, and its echo. -/
theorem writes_confirmed_iff_register :
    Echoes [6, 0, 1, 0, 5] (.writeSingleRegister 1 5) :=
  (writes_confirmed_iff (rtuClient (answering (encodeRtuFrame [1, 6, 0, 1, 0, 5] []))) 1
    [6, 0, 1, 0, 5] (rtuClient_handsOver 1 [6, 0, 1, 0, 5])).2.1 1 5 (by decide)

/-- A coil is switched off, the device answers with a value that is neither on nor off, and the
write succeeds. -/
theorem writeSingleCoil_stray :
    (rtuClient (answering (encodeRtuFrame [1, 5, 0, 1, 0x12, 0x34] []))).writeSingleCoil 1 1 false
        = .ok () ∧
      encodeRequestInto (.writeSingleCoil 1 false) [] = (.ok (), [5, 0, 1, 0, 0]) ∧
      ¬ [5, 0, 1, 0, 0] <+: ([5, 0, 1, 0x12, 0x34] : Bytes) := by
  decide

end ModbusClient

end OmsModbus
