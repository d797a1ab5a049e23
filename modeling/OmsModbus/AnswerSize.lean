/-
**How long an answer is.**

Three computations of the library have to agree: how many bytes the store puts in an answer, what
the encoder of responses lets through, and how many bytes an RTU client waits for.  Every request
that decodes is answered, within the limit of a frame, and either with as many bytes as the client
expects or with an exception.

Main definitions:

* `OmsModbus.Answers` — what an answer of a server is to a request: of the expected length, or an
  exception.

Main results:

* `OmsModbus.SlaveStore.call_functionCode` — the store answers under the function code of the
  request;
* `OmsModbus.processServerRequest_answers` — **every decodable request is answered, and with the
  length a client waits for**.
-/

import OmsModbus.EndToEnd

set_option relaxedAutoImplicit false
set_option autoImplicit false

namespace OmsModbus

open Words BitPack

/-! ### The function code of an answer -/

/-- A layout starts with the function code. -/
theorem Response.pdu_head (r : Response) : r.pdu.head? = some r.functionCode.value := by
  cases r <;> rfl

theorem Request.head_of_tryFrom {raw : Bytes} {q : Request} (h : Request.tryFrom raw = .ok q) :
    raw.head? = some q.functionCode.value := by
  cases raw with
  | nil => cases h
  | cons fc data => rw [List.head?_cons, Request.tryFrom_head h]

/-- The store answers under the function code of the request. -/
theorem SlaveStore.call_functionCode (s : SlaveStore) {q : Request} {rsp : Response}
    (h : (s.call q).1 = .ok rsp) : rsp.functionCode = q.functionCode := by
  cases q with
  | diagnostic sf data =>
      rw [SlaveStore.call] at h
      split at h
      · cases h
        rfl
      · split at h
        · cases h
          rfl
        · split at h
          · cases h
            rfl
          · cases h
  | disconnect => cases h
  | _ =>
      cases h
      rfl

/-! ### An answer -/

/-- The frame `f` answers the request `q` that came as `raw`: it goes out under the slave id, fits
in a frame, decodes, and is an exception for the function code of the request or as long as an RTU
client expects. -/
structure Answers (slaveId : UInt8) (raw : Bytes) (q : Request) (f : Bytes) : Prop where
  slave : f.head? = some slaveId
  fits : f.length ≤ 254
  decodes : ∃ rsp, Response.tryFrom f.tail = .ok rsp ∧
    ((∃ ex, rsp = .exception q.functionCode.value ex ∧
        f.tail.head? = raw.head?.map (· ||| 0x80) ∧ f.length = 3) ∨
      (f.tail.head? = raw.head? ∧ expectedRtuPduLen q = some (f.length - 1)))

/-- **Every decodable request is answered, and with the length a client waits for.** -/
theorem processServerRequest_answers (s : SlaveStore) (slaveId : UInt8) (raw : Bytes) (q : Request)
    (hslave : slaveId ≠ 0) (hdec : Request.tryFrom raw = .ok q) :
    ∃ f, (processServerRequest raw slaveId storeService s).1 = some f ∧
      Answers slaveId raw q f := by
  obtain ⟨hq, hrange⟩ := Request.tryFrom_inRange hdec
  obtain ⟨n, -, -, hfit, -⟩ := s.call_response hq hrange
  have hcall : storeService.call slaveId q s = ((s.call q).1, (s.call q).2) := rfl
  have hanswer := processServerRequest_eq hslave hdec hcall hfit
  have hhead := Request.head_of_tryFrom hdec
  refine ⟨_, congrArg Prod.fst hanswer, ⟨rfl, ?_, _, Response.tryFrom_pdu hfit, ?_⟩⟩
  · rw [List.length_cons]
    omega
  · obtain ⟨rsp, hok, hlen, -⟩ | ⟨sf, data, rfl, herr⟩ := s.call_cases hq
    · right
      rw [hok]
      refine ⟨?_, ?_⟩
      · rw [hhead, ← s.call_functionCode hok]
        exact rsp.pdu_head
      · exact hlen
    · left
      have hnorm : normResponse (.exception 8 .illegalDataValue)
          = .exception 8 .illegalDataValue := by
        decide
      rw [herr, hhead]
      exact ⟨.illegalDataValue, hnorm, rfl, rfl⟩

/-- All coils a request may ask for, past the end of the table. -/
theorem processServerRequest_answers_longest :
    ∃ f, (processServerRequest [1, 0xF8, 0x2F, 0x07, 0xD0] 17 storeService .new).1 = some f ∧
      Answers 17 [1, 0xF8, 0x2F, 0x07, 0xD0] (.readCoils 0xF82F 2000) f :=
  processServerRequest_answers .new 17 [1, 0xF8, 0x2F, 0x07, 0xD0] (.readCoils 0xF82F 2000)
    (by decide) rfl

end OmsModbus
