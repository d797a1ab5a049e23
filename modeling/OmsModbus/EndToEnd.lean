/-
**From a client to the store and back.**

A call travels through everything the other modules describe: the request is encoded and framed, the
server cuts the frame out of its reads, decodes the request, asks the store, and the way back is the
same.  On a line that loses nothing the client gets what the store answers, over RTU as over ASCII.
Two things about the answer change on the way: coils come in whole bytes, and an exception is a
response.

Main definitions:

* `OmsModbus.visibleAnswer` — what a client sees of an answer of a service;
* `OmsModbus.RtuLine`, `OmsModbus.AsciiLine` — an attempt over a line that loses nothing, to an idle
  server.

Main results:

* `OmsModbus.SlaveStore.call_cases` — the store answers with as many bytes as an RTU client expects,
  or with an exception;
* `OmsModbus.rtu_exchange`, `OmsModbus.ascii_exchange` — one call over each transport;
* `OmsModbus.rtu_ascii_agree` — **both clients return what the store answers**.
-/

import OmsModbus.Ascii
import OmsModbus.Rtu
import OmsModbus.SlaveStore

set_option relaxedAutoImplicit false
set_option autoImplicit false

namespace OmsModbus

open BitPack

/-! ### What a client sees -/

/-- A response whose coils come in whole bytes. -/
def padResponse : Response → Response
  | .readCoils bits => .readCoils (padBits bits)
  | .readDiscreteInputs bits => .readDiscreteInputs (padBits bits)
  | rsp => rsp

/-- What a client sees of an answer of a service. -/
def visibleAnswer (q : Request) : Except Exception Response → Response
  | .ok rsp => padResponse rsp
  | .error ex => .exception q.functionCode.value ex

/-- The store answers with a response that is no exception, or refuses a diagnostic. -/
theorem SlaveStore.call_cases (s : SlaveStore) {q : Request} (hq : q ≠ .disconnect) :
    (∃ rsp, (s.call q).1 = .ok rsp ∧ expectedRtuPduLen q = some rsp.pdu.length ∧
        normResponse rsp = padResponse rsp) ∨
      ∃ sf data, q = .diagnostic sf data ∧ (s.call q).1 = .error .illegalDataValue := by
  cases q with
  | disconnect => exact absurd rfl hq
  | diagnostic sf data =>
      rw [SlaveStore.call]
      split
      · exact .inl ⟨_, rfl, rfl, rfl⟩
      · split
        · exact .inl ⟨_, rfl, rfl, rfl⟩
        · split
          · exact .inl ⟨_, rfl, rfl, rfl⟩
          · exact .inr ⟨sf, data, rfl, rfl⟩
  | readCoils addr qty =>
      refine .inl ⟨_, rfl, ?_, rfl⟩
      simp [expectedRtuPduLen, Response.pdu, SlaveStore.readCoilsRange, readBits]
      omega
  | readDiscreteInputs addr qty =>
      refine .inl ⟨_, rfl, ?_, rfl⟩
      simp [expectedRtuPduLen, Response.pdu, SlaveStore.readDiscreteInputsRange, readBits]
      omega
  | readHoldingRegisters addr qty =>
      refine .inl ⟨_, rfl, ?_, rfl⟩
      simp [expectedRtuPduLen, Response.pdu, SlaveStore.readHoldingRange, readRegisters_eq]
      omega
  | readInputRegisters addr qty =>
      refine .inl ⟨_, rfl, ?_, rfl⟩
      simp [expectedRtuPduLen, Response.pdu, SlaveStore.readInputRange, readRegisters_eq]
      omega
  | readWriteMultipleRegisters readAddr readQty writeAddr data =>
      refine .inl ⟨_, rfl, ?_, rfl⟩
      simp [expectedRtuPduLen, Response.pdu, SlaveStore.readHoldingRange, readRegisters_eq]
      omega
  | writeSingleCoil addr value => exact .inl ⟨_, rfl, rfl, rfl⟩
  | writeSingleRegister addr value => exact .inl ⟨_, rfl, rfl, rfl⟩
  | writeMultipleCoils addr values => exact .inl ⟨_, rfl, rfl, rfl⟩
  | writeMultipleRegisters addr values => exact .inl ⟨_, rfl, rfl, rfl⟩
  | maskWriteRegister addr andMask orMask => exact .inl ⟨_, rfl, rfl, rfl⟩

/-- A good answer fits in a PDU. -/
theorem expectedRtuPduLen_le {q : Request} (hq : q.InRange) {n : ℕ}
    (hn : expectedRtuPduLen q = some n) : n ≤ 253 := by
  cases q with
  | readCoils addr qty | readDiscreteInputs addr qty =>
      cases hn
      have := hq.2.1
      unfold divCeil
      omega
  | readHoldingRegisters addr qty | readInputRegisters addr qty =>
      cases hn
      have := hq.2.1
      omega
  | readWriteMultipleRegisters readAddr readQty writeAddr data =>
      cases hn
      have := hq.1.2.1
      omega
  | disconnect => cases hn
  | _ =>
      cases hn
      omega

/-- What the store answers fits, is no longer than an RTU client expects, and comes back as what a
client is to see. -/
theorem SlaveStore.call_response (s : SlaveStore) {q : Request} (hq : q ≠ .disconnect)
    (hrange : q.InRange) :
    ∃ n, expectedRtuPduLen q = some n ∧
      (responseOf q.functionCode.value (s.call q).1).pdu.length ≤ n ∧
      (responseOf q.functionCode.value (s.call q).1).pdu.length ≤ 253 ∧
      normResponse (responseOf q.functionCode.value (s.call q).1)
        = visibleAnswer q (s.call q).1 := by
  obtain ⟨rsp, hok, hlen, hnorm⟩ | ⟨sf, data, rfl, herr⟩ := s.call_cases hq
  · rw [hok]
    exact ⟨_, hlen, le_rfl, expectedRtuPduLen_le hrange hlen, hnorm⟩
  · have hnorm : normResponse (.exception 8 .illegalDataValue)
        = .exception 8 .illegalDataValue := by
      decide
    rw [herr]
    exact ⟨5, rfl, by simp [responseOf, Response.pdu], by simp [responseOf, Response.pdu], hnorm⟩

/-! ### One call over a line -/

/-- The RTU frame of a request. -/
def sendRtu (slaveId : UInt8) (q : Request) : Except ModbusError Bytes :=
  sendFrame slaveId q (fun data => encodeRtuFrame data []) .done

/-- The ASCII frame of a request. -/
def sendAscii (slaveId : UInt8) (q : Request) : Except ModbusError Bytes :=
  sendFrame slaveId q (fun data => encodeAsciiFrameInto data []) .done

/-- An idle RTU server after one read. -/
def rtuServed (s : SlaveStore) (frame : Bytes) : ServerLoop Unit SlaveStore :=
  serveRtu storeService (fun _ => true) (.idle s) [.data frame]

/-- An idle ASCII server after some reads. -/
def asciiServed (s : SlaveStore) (reads : List Bytes) : ServerLoop Unit SlaveStore :=
  serveAscii storeService (fun _ => true) (.idle s) (reads.map .data)

/-- An attempt over a line that loses nothing: the bus is quiet, the request frame is written, and
what an idle server answers to it in one read comes back. -/
structure RtuLine (s : SlaveStore) (slaveId : UInt8) (q : Request) (a : Attempt) : Prop where
  quiet : (drainStaleData a.drain).1 = .ok ()
  written : a.write = .done
  answered : ∀ frame, sendRtu slaveId q = .ok frame →
    Arrives (rtuServed s frame).written.flatten (a.recv frame)

/-- The same for ASCII, where the request comes in `reads`. -/
structure AsciiLine (s : SlaveStore) (slaveId : UInt8) (q : Request) (reads : List Bytes)
    (a : Attempt) : Prop where
  quiet : (drainStaleData a.drain).1 = .ok ()
  written : a.write = .done
  nonempty : ∀ bs ∈ reads, bs ≠ []
  delivered : ∀ frame, sendAscii slaveId q = .ok frame → reads.flatten = frame
  answered : ∀ frame, sendAscii slaveId q = .ok frame →
    Arrives (asciiServed s reads).written.flatten (a.recv frame)

section Exchange

variable {s : SlaveStore} {slaveId : UInt8} {q : Request}

/-- An RTU server answers a request frame with the frame of what the store answers. -/
theorem rtuServed_eq (hslave : slaveId ≠ 0) (hdec : Request.tryFrom q.pdu = .ok q) :
    rtuServed s (encodeRtuFrame (slaveId :: q.pdu) [])
      = ⟨[], (s.call q).2, [⟨(), slaveId, q.pdu⟩],
          [encodeRtuFrame (slaveId :: (responseOf q.functionCode.value (s.call q).1).pdu) []],
          true⟩ := by
  obtain ⟨hq, hrange⟩ := Request.tryFrom_inRange hdec
  obtain ⟨n, -, -, hfit, -⟩ := s.call_response hq hrange
  have hne : ∀ bs ∈ [encodeRtuFrame (slaveId :: q.pdu) []], bs ≠ [] := by
    simp [encodeRtuFrame]
  exact serveSerial_one (P := rtuProtocol) hne (rtuFramer_run hdec) hslave hdec (Prod.eta _).symm
    hfit

/-- An ASCII server does the same, whatever the reads are. -/
theorem asciiServed_eq (hslave : slaveId ≠ 0) (hdec : Request.tryFrom q.pdu = .ok q)
    {reads : List Bytes} (hne : ∀ bs ∈ reads, bs ≠ [])
    (hreads : reads.flatten = encodeAsciiFrameInto (slaveId :: q.pdu) []) :
    asciiServed s reads
      = ⟨[], (s.call q).2, [⟨(), slaveId, q.pdu⟩],
          [encodeAsciiFrameInto (slaveId :: (responseOf q.functionCode.value (s.call q).1).pdu) []],
          true⟩ := by
  obtain ⟨hq, hrange⟩ := Request.tryFrom_inRange hdec
  obtain ⟨n, -, -, hfit, -⟩ := s.call_response hq hrange
  obtain ⟨fc, data, hpdu⟩ : ∃ fc data, q.pdu = fc :: data :=
    List.exists_cons_of_ne_nil fun h => by rw [h] at hdec; cases hdec
  rw [hpdu] at hreads
  have hrun := asciiFramer_run hreads
  rw [← hpdu] at hrun
  exact serveSerial_one (P := asciiProtocol) hne hrun hslave hdec (Prod.eta _).symm hfit

/-- One attempt over RTU. -/
theorem rtu_exchange {a : Attempt} (hslave : slaveId ≠ 0)
    (hreq : (encodeRequestInto q []).1 = .ok ()) (hdec : Request.tryFrom q.pdu = .ok q)
    (h : RtuLine s slaveId q a) :
    (∃ frame, sendRtu slaveId q = .ok frame ∧ (rtuServed s frame).store = (s.call q).2) ∧
      rtuSendRecv slaveId q a = .ok (visibleAnswer q (s.call q).1) := by
  have hsend : sendRtu slaveId q = .ok (encodeRtuFrame (slaveId :: q.pdu) []) :=
    sendFrame_done _ hreq
  have hserved := @rtuServed_eq s slaveId q hslave hdec
  obtain ⟨hq, hrange⟩ := Request.tryFrom_inRange hdec
  obtain ⟨n, hexp, hlen, hfit, hnorm⟩ := s.call_response hq hrange
  have harr := h.answered _ hsend
  rw [hserved] at harr
  refine ⟨⟨_, hsend, by rw [hserved]⟩, ?_⟩
  rw [rtuSendRecv_ok h.quiet h.written hreq hexp hlen hfit (by simpa using harr), hnorm]

/-- One attempt over ASCII. -/
theorem ascii_exchange {reads : List Bytes} {a : Attempt} (hslave : slaveId ≠ 0)
    (hreq : (encodeRequestInto q []).1 = .ok ()) (hdec : Request.tryFrom q.pdu = .ok q)
    (h : AsciiLine s slaveId q reads a) :
    (asciiServed s reads).store = (s.call q).2 ∧
      asciiSendRecv slaveId q a = .ok (visibleAnswer q (s.call q).1) := by
  have hsend : sendAscii slaveId q = .ok (encodeAsciiFrameInto (slaveId :: q.pdu) []) :=
    sendFrame_done _ hreq
  have hserved := @asciiServed_eq s slaveId q hslave hdec _ h.nonempty (h.delivered _ hsend)
  obtain ⟨hq, hrange⟩ := Request.tryFrom_inRange hdec
  obtain ⟨n, -, -, hfit, hnorm⟩ := s.call_response hq hrange
  have harr := h.answered _ hsend
  rw [hserved] at harr
  refine ⟨by rw [hserved], ?_⟩
  rw [asciiSendRecv_ok h.quiet h.written hreq hq hfit (by simpa using harr), hnorm]

/-- An attempt over a line that hands the answer of an RTU server on in one piece. -/
def rtuDirect (s : SlaveStore) : Attempt :=
  ⟨[.elapsed], .done, fun frame => [.data (rtuServed s frame).written.flatten, .elapsed], false⟩

/-- The same for an ASCII server, byte by byte. -/
def asciiDirect (s : SlaveStore) (reads : List Bytes) : Attempt :=
  ⟨[.elapsed], .done, fun _ => (asciiServed s reads).written.flatten.map fun b => .data [b], false⟩

theorem rtuDirect_line (hslave : slaveId ≠ 0) (hreq : (encodeRequestInto q []).1 = .ok ())
    (hdec : Request.tryFrom q.pdu = .ok q) : RtuLine s slaveId q (rtuDirect s) where
  quiet := rfl
  written := rfl
  answered := by
    intro frame hframe
    have hsend : sendRtu slaveId q = .ok (encodeRtuFrame (slaveId :: q.pdu) []) :=
      sendFrame_done _ hreq
    rw [hsend] at hframe
    cases hframe
    refine ⟨[_], [.elapsed], rfl, ?_, List.append_nil _, ?_⟩
    · rw [rtuServed_eq hslave hdec]
      simp [encodeRtuFrame]
    · intro event hevent
      exact .inl (List.mem_singleton.1 hevent)

theorem asciiDirect_line {reads : List Bytes} (hne : ∀ bs ∈ reads, bs ≠ [])
    (hreads : ∀ frame, sendAscii slaveId q = .ok frame → reads.flatten = frame) :
    AsciiLine s slaveId q reads (asciiDirect s reads) where
  quiet := rfl
  written := rfl
  nonempty := hne
  delivered := hreads
  answered := by
    intro frame _
    refine ⟨(asciiServed s reads).written.flatten.map fun b => [b], [], ?_, ?_, ?_, ?_⟩
    · simp [asciiDirect, Function.comp_def]
    · intro c hc
      obtain ⟨b, -, rfl⟩ := List.mem_map.1 hc
      simp
    · rw [List.flatten_eq_flatMap, List.flatMap_map]
      simp
    · intro event hevent
      cases hevent

end Exchange

/-- **Both clients return what the store answers**, and the store has answered once. -/
theorem rtu_ascii_agree (s : SlaveStore) (slaveId : UInt8) (q : Request) (b : Bytes)
    (reconnect : Option ReconnectConfig) (fuel : ℕ) (rtu ascii : ℕ → Attempt) (reads : List Bytes)
    (hslave : slaveId ≠ 0) (henc : encodeRequestInto q [] = (.ok (), b))
    (hdec : ∃ q', Request.tryFrom b = .ok q') (hrtu : RtuLine s slaveId q (rtu 0))
    (hascii : AsciiLine s slaveId q reads (ascii 0)) :
    rtuCall reconnect (fuel + 1) slaveId q rtu = some (.ok (visibleAnswer q (s.call q).1)) ∧
      asciiCall reconnect (fuel + 1) slaveId q ascii
        = some (.ok (visibleAnswer q (s.call q).1)) ∧
      (∃ frame, sendRtu slaveId q = .ok frame ∧ (rtuServed s frame).store = (s.call q).2) ∧
      (asciiServed s reads).store = (s.call q).2 := by
  obtain ⟨hfit, rfl⟩ := encodeRequestInto_eq_ok.1 henc
  obtain ⟨q', hq'⟩ := hdec
  rw [List.nil_append] at hq'
  have hq : q ≠ .disconnect := by
    rintro rfl
    cases hq'
  obtain rfl := Request.eq_of_tryFrom_pdu hq hfit hq'
  have hreq : (encodeRequestInto q' []).1 = .ok () := by rw [henc]
  obtain ⟨hstore, hrsp⟩ := rtu_exchange hslave hreq hq' hrtu
  obtain ⟨hstore', hrsp'⟩ := ascii_exchange hslave hreq hq' hascii
  exact ⟨callAttempts_of_ok hrsp, callAttempts_of_ok hrsp', hstore, hstore'⟩

/-- Three coils are written: both clients return the echo. -/
theorem rtu_ascii_agree_direct :
    let q : Request := .writeMultipleCoils 9 [true, false, true]
    let reads := [encodeAsciiFrameInto (7 :: q.pdu) []]
    rtuCall none 1 7 q (fun _ => rtuDirect .new)
        = some (.ok (visibleAnswer q (SlaveStore.new.call q).1)) ∧
      asciiCall none 1 7 q (fun _ => asciiDirect .new reads)
        = some (.ok (visibleAnswer q (SlaveStore.new.call q).1)) ∧
      (∃ frame, sendRtu 7 q = .ok frame ∧ (rtuServed .new frame).store = (SlaveStore.new.call q).2) ∧
      (asciiServed .new reads).store = (SlaveStore.new.call q).2 :=
  rtu_ascii_agree .new 7 (.writeMultipleCoils 9 [true, false, true]) [15, 0, 9, 0, 3, 1, 5] none 0
    (fun _ => rtuDirect .new) (fun _ => asciiDirect .new _)
    [encodeAsciiFrameInto (7 :: (Request.writeMultipleCoils 9 [true, false, true]).pdu) []]
    (by decide) (by decide) ⟨_, rfl⟩
    (rtuDirect_line (by decide) (by decide) rfl)
    (asciiDirect_line (by simp [encodeAsciiFrameInto_line])
      (fun frame hframe => by
        rw [sendAscii, sendFrame_done _ (by decide)] at hframe
        cases hframe
        exact List.append_nil _))

end OmsModbus
