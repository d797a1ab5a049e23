/-
**What the encoders write, what they refuse and what they leave behind.**

The two encoders append to a buffer that may already hold something, and they may fail in two
places: at a byte count that does not fit in a byte, and at a PDU that is longer than 253 bytes.
The encoder of responses checks the byte count before it writes, that of requests checks it in the
middle of the fields and leaves the fields before it in the buffer.  The limits on coils and
registers that the library documents are nowhere tested; they come out of the two limits on
bytes, and for coils they come out eight too high.

Main definitions:

* `OmsModbus.SelfDelimiting` — a decoder that finds the end of what it decodes;
* `OmsModbus.CleanAppend` — an encoder that writes all of a PDU or nothing;
* `OmsModbus.Bytes.ofResponse` — the conversion of a response to bytes;
* `OmsModbus.Response.Oversized` — a response beyond the documented limits.

Main results:

* `OmsModbus.pduDecoders_selfDelimiting` — **decoding does not depend on what follows a PDU, and
  fails on every proper part of one**;
* `OmsModbus.cleanAppend_iff` — **a failed encoding leaves the buffer alone**, but for requests
  with a list that is too long for its byte count;
* `OmsModbus.ofResponse_refuses_iff` — **exactly the oversized responses are refused**, but for
  those with 2001 to 2008 coils.
-/

import OmsModbus.AnswerSize
import OmsModbus.RtuReceive

set_option relaxedAutoImplicit false
set_option autoImplicit false

namespace OmsModbus

open Words BitPack

/-! ### Self-delimiting decoders -/

/-- A decoder finds the end of what it decodes: what comes behind does not matter, and no proper
part of an encoding is enough. -/
structure SelfDelimiting {β ε α : Type*} (decode : List β → Except ε α)
    (Encodes : α → List β → Prop) : Prop where
  suffix : ∀ b x s, decode b = .ok x → decode (b ++ s) = .ok x
  part : ∀ x b q t, Encodes x b → q ++ t = b → t ≠ [] → ∃ e, decode q = .error e

/-- A decoder that ignores what follows is self-delimiting when nothing decodes from fewer units
than its encoding has. -/
theorem SelfDelimiting.of_size {β ε α : Type*} {decode : List β → Except ε α}
    {Encodes : α → List β → Prop} (size : α → ℕ)
    (hsuffix : ∀ b x s, decode b = .ok x → decode (b ++ s) = .ok x)
    (hle : ∀ b x, decode b = .ok x → size x ≤ b.length)
    (hsize : ∀ x b y, Encodes x b → decode b = .ok y → size y = b.length) :
    SelfDelimiting decode Encodes := by
  refine ⟨hsuffix, ?_⟩
  intro x b q t hb hqt ht
  cases hq : decode q with
  | error e => exact ⟨e, rfl⟩
  | ok y =>
      have hall := hsuffix q y t hq
      rw [hqt] at hall
      have hwhole := hsize x b y hb hall
      have hshort := hle q y hq
      have hpos := List.length_pos_iff.2 ht
      rw [hwhole, ← hqt, List.length_append] at hshort
      omega

/-- **Decoding does not depend on what follows a PDU, and fails on every proper part of one.** -/
theorem pduDecoders_selfDelimiting :
    SelfDelimiting Request.tryFrom (fun r b => encodeRequestInto r [] = (.ok (), b)) ∧
      SelfDelimiting Response.tryFrom (fun r b => encodeResponseInto r [] = (.ok (), b)) := by
  constructor
  · refine SelfDelimiting.of_size (fun r => r.pdu.length)
      (fun b x s h => Request.tryFrom_append h s) (fun b x h => Request.pdu_length_le h) ?_
    intro r b r' henc hdec
    obtain ⟨hfit, rfl⟩ := encodeRequestInto_eq_ok.1 henc
    rw [List.nil_append] at hdec
    by_cases hr : r = .disconnect
    · subst hr
      cases hdec
    · rw [Request.eq_of_tryFrom_pdu hr hfit hdec, List.nil_append]
  · refine SelfDelimiting.of_size (fun r => r.pdu.length)
      (fun b x s h => Response.tryFrom_append h s) (fun b x h => Response.pdu_length_le h) ?_
    intro r b r' henc hdec
    obtain ⟨hfit, rfl⟩ := encodeResponseInto_eq_ok.1 henc
    rw [List.nil_append, Response.tryFrom_pdu hfit] at hdec
    rw [← Except.ok.inj hdec, normResponse_pdu, List.nil_append]

/-! ### The buffer after a call -/

/-- What a call of an encoder promises: an error leaves the buffer as it was, and success adds a
PDU of at most 253 bytes that starts with the given byte; no byte is given for a request that has
no PDU. -/
def CleanAppend (head : Option UInt8) (buf : Bytes) (out : Except IoError Unit × Bytes) : Prop :=
  (∀ e, out.1 = .error e → out.2 = buf) ∧
    (out.1 = .ok () → ∃ pdu, out.2 = buf ++ pdu ∧ pdu.length ≤ 253 ∧ pdu.head? = head)

/-- The first byte of the PDU of a request. -/
def Request.head (r : Request) : Option UInt8 :=
  if r = .disconnect then none else some r.functionCode.value

theorem Request.pdu_head (r : Request) : r.pdu.head? = r.head := by
  cases r <;> rfl

/-- The list of a request is short enough for its byte count. -/
def Request.CountFits : Request → Prop
  | .writeMultipleCoils _ values => values.length ≤ 2040
  | .writeMultipleRegisters _ values => values.length ≤ 127
  | .readWriteMultipleRegisters _ _ _ data => data.length ≤ 127
  | _ => True

theorem Request.countFits_iff (r : Request) : r.CountFits ↔ r.byteCount ≤ 255 := by
  cases r with
  | writeMultipleCoils addr values =>
      simp only [Request.CountFits, Request.byteCount, divCeil]
      omega
  | writeMultipleRegisters addr values =>
      simp only [Request.CountFits, Request.byteCount]
      omega
  | readWriteMultipleRegisters readAddr readQty writeAddr data =>
      simp only [Request.CountFits, Request.byteCount]
      omega
  | _ => simp [Request.CountFits, Request.byteCount]

/-- How many bytes of a request come before its byte count. -/
def Request.countOffset : Request → ℕ
  | .readWriteMultipleRegisters _ _ _ _ => 9
  | _ => 5

theorem Request.countOffset_pos (r : Request) : 0 < r.countOffset := by
  cases r <;> simp [Request.countOffset]

/-- A byte count that does not fit stops the encoder in the middle: the fields before it stay in the
buffer. -/
theorem encodeRequest_of_lt_byteCount {r : Request} (h : 255 < r.byteCount) (buf : Bytes) :
    ∃ e, encodeRequest r buf = (.error e, buf ++ r.pdu.take r.countOffset) := by
  cases r with
  | writeMultipleCoils addr values =>
      have hbig : ¬ divCeil values.length 8 ≤ 255 := Nat.not_le.2 h
      simp [encodeRequest, safeU8, hbig, Request.pdu, Request.countOffset, Request.functionCode,
        putU8, pushU16, toBeBytes]
  | writeMultipleRegisters addr values =>
      have hbig : ¬ values.length * 2 ≤ 255 := Nat.not_le.2 h
      simp [encodeRequest, safeU8, hbig, Request.pdu, Request.countOffset, Request.functionCode,
        putU8, pushU16, toBeBytes]
  | readWriteMultipleRegisters readAddr readQty writeAddr data =>
      have hbig : ¬ data.length * 2 ≤ 255 := Nat.not_le.2 h
      simp [encodeRequest, safeU8, hbig, Request.pdu, Request.countOffset, Request.functionCode,
        putU8, pushU16, toBeBytes]
  | _ => cases h

/-- Both checks of the encoder of requests. -/
theorem encodeRequestInto_of_countFits {r : Request} (h : r.CountFits) (buf : Bytes) :
    CleanAppend r.head buf (encodeRequestInto r buf) := by
  have hok : encodeRequest r buf = (.ok (), buf ++ r.pdu) :=
    encodeRequest_eq_ok.2 ⟨(Request.countFits_iff r).1 h, rfl⟩
  simp only [encodeRequestInto, hok, List.length_append, Nat.add_sub_cancel_left, MAX_PDU_SIZE]
  split
  · exact ⟨fun _ _ => List.take_left, fun hok => by cases hok⟩
  · exact ⟨fun _ herr => (by cases herr), fun _ => ⟨r.pdu, rfl, by omega, r.pdu_head⟩⟩

/-- The encoder of responses checks the byte count before it writes. -/
theorem encodeResponseInto_cleanAppend (r : Response) (buf : Bytes) :
    CleanAppend (some r.functionCode.value) buf (encodeResponseInto r buf) := by
  unfold encodeResponseInto
  cases h : validateResponseSize r with
  | error e => exact ⟨fun _ _ => rfl, fun hok => by cases hok⟩
  | ok u =>
      simp only [encodeResponse_of_byteCount_le (validateResponseSize_eq_ok.1 h),
        List.length_append, Nat.add_sub_cancel_left, MAX_PDU_SIZE]
      split
      · exact ⟨fun _ _ => List.take_left, fun hok => by cases hok⟩
      · exact ⟨fun _ herr => (by cases herr), fun _ => ⟨r.pdu, rfl, by omega, r.pdu_head⟩⟩

/-- **A failed encoding leaves the buffer alone**: always for responses, and for requests exactly
when the list is short enough for its byte count. -/
theorem cleanAppend_iff (buf : Bytes) :
    (∀ r, CleanAppend r.head buf (encodeRequestInto r buf) ↔ r.CountFits) ∧
      ∀ r, CleanAppend (some r.functionCode.value) buf (encodeResponseInto r buf) := by
  refine ⟨?_, fun r => encodeResponseInto_cleanAppend r buf⟩
  intro r
  refine ⟨?_, fun h => encodeRequestInto_of_countFits h buf⟩
  intro hclean
  by_contra hbig
  rw [Request.countFits_iff, Nat.not_le] at hbig
  obtain ⟨e, he⟩ := encodeRequest_of_lt_byteCount hbig buf
  have hleft := hclean.1 e (by rw [encodeRequestInto, he])
  have hlen := congrArg List.length hleft
  rw [encodeRequestInto, he, List.length_append, List.length_take] at hlen
  have hpdu := r.byteCount_le
  have hoff := r.countOffset_pos
  omega

/-- Writing 128 registers fails and leaves five bytes behind. -/
theorem not_cleanAppend_registers :
    ¬ CleanAppend (Request.writeMultipleRegisters 0 (List.replicate 128 7)).head [0xAA]
        (encodeRequestInto (.writeMultipleRegisters 0 (List.replicate 128 7)) [0xAA]) := by
  intro h
  obtain ⟨e, he⟩ := encodeRequest_of_lt_byteCount
    (r := .writeMultipleRegisters 0 (List.replicate 128 7)) (by simp [Request.byteCount]) [0xAA]
  have hleft := h.1 e (by rw [encodeRequestInto, he])
  rw [encodeRequestInto, he] at hleft
  cases hleft

/-! ### Oversized responses -/

/-- `From<Response> for Bytes`: the buffer of a failed encoding is given out as it is. -/
def Bytes.ofResponse (rsp : Response) : Bytes := (encodeResponseInto rsp []).2

/-- The documented limits: more than 2000 coils or discrete inputs, or more than 125 registers. -/
def Response.Oversized : Response → Prop
  | .readCoils bits | .readDiscreteInputs bits => 2000 < bits.length
  | .readHoldingRegisters regs | .readInputRegisters regs | .readWriteMultipleRegisters regs =>
      125 < regs.length
  | _ => False

/-- The number of coils or discrete inputs that a response carries. -/
def Response.coils : Response → ℕ
  | .readCoils bits | .readDiscreteInputs bits => bits.length
  | _ => 0

/-- What is documented of the conversion: an oversized response gives no bytes, and an error from
the encoder, and every other response gives some. -/
def RefusesOversized (r : Response) : Prop :=
  (Bytes.ofResponse r = [] ↔ r.Oversized) ∧
    ∀ buf, (∃ e, (encodeResponseInto r buf).1 = .error e) ↔ r.Oversized

/-- The encoder fails on the responses that do not fit in a PDU. -/
theorem encodeResponseInto_error_iff (r : Response) (buf : Bytes) :
    (∃ e, (encodeResponseInto r buf).1 = .error e) ↔ 253 < r.pdu.length := by
  rw [← Nat.not_le]
  cases h : encodeResponseInto r buf with
  | mk out buf' =>
      cases out with
      | error e =>
          refine iff_of_true ⟨e, rfl⟩ (fun hfit => ?_)
          rw [encodeResponseInto_eq_ok.2 ⟨hfit, rfl⟩] at h
          cases h
      | ok u =>
          refine iff_of_false ?_ (not_not_intro (encodeResponseInto_eq_ok.1 h).1)
          rintro ⟨e, he⟩
          cases he

/-- The conversion gives no bytes exactly when the encoder fails. -/
theorem ofResponse_eq_nil_iff (r : Response) : Bytes.ofResponse r = [] ↔ 253 < r.pdu.length := by
  rw [← encodeResponseInto_error_iff r []]
  have hclean := encodeResponseInto_cleanAppend r []
  cases h : (encodeResponseInto r []).1 with
  | error e => exact iff_of_true (hclean.1 e h) ⟨e, rfl⟩
  | ok u =>
      obtain ⟨pdu, hout, -, hhead⟩ := hclean.2 h
      refine iff_of_false ?_ (fun ⟨e, he⟩ => by cases he)
      intro hnil
      rw [Bytes.ofResponse, hout, List.nil_append] at hnil
      rw [hnil] at hhead
      cases hhead

/-- Coils are counted in whole bytes, so the limit on bytes is reached eight coils late. -/
theorem Response.lt_pdu_length_iff (r : Response) :
    253 < r.pdu.length ↔ r.Oversized ∧ ¬ (2000 < r.coils ∧ r.coils ≤ 2008) := by
  cases r with
  | readCoils bits | readDiscreteInputs bits =>
      simp only [Response.pdu, List.length_cons, coilField_length, Response.Oversized,
        Response.coils, divCeil]
      omega
  | readHoldingRegisters regs | readInputRegisters regs | readWriteMultipleRegisters regs =>
      simp only [Response.pdu, List.length_cons, registerField_length, Response.Oversized,
        Response.coils]
      omega
  | _ => simp [Response.pdu, Response.Oversized]

/-- **Exactly the oversized responses are refused**, when the response does not carry 2001 to 2008
coils or discrete inputs; these are encoded. -/
theorem ofResponse_refuses_iff (r : Response) :
    RefusesOversized r ↔ ¬ (2000 < r.coils ∧ r.coils ≤ 2008) := by
  simp only [RefusesOversized, ofResponse_eq_nil_iff, encodeResponseInto_error_iff, forall_const,
    and_self, Response.lt_pdu_length_iff]
  constructor
  · intro h hcoils
    have hover : r.Oversized := by
      cases r with
      | readCoils bits | readDiscreteInputs bits => exact hcoils.1
      | _ => cases hcoils.1
    exact (h.2 hover).2 hcoils
  · intro h
    exact ⟨fun hr => hr.1, fun hr => ⟨hr, h⟩⟩

/-- A response with 2001 coils is encoded. -/
theorem not_refusesOversized_coils :
    ¬ RefusesOversized (.readCoils (List.replicate 2001 true)) := by
  rintro ⟨hnil, -⟩
  have hover : (Response.readCoils (List.replicate 2001 true)).Oversized := by
    rw [Response.Oversized, List.length_replicate]
    omega
  have hlong := (ofResponse_eq_nil_iff _).1 (hnil.2 hover)
  rw [Response.pdu, List.length_cons, coilField_length, List.length_replicate, divCeil] at hlong
  omega

end OmsModbus
