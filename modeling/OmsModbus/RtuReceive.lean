/-
**What an RTU client makes of what it reads.**

The client reads until it has as many bytes as a good answer to its request, or until the bus falls
silent or closes, and takes what it has for one frame.  How the frame is cut into reads does not
matter, and a frame that breaks off is never taken for an answer.  But a read may bring more than
the rest of the frame, and the client takes all it has: the CRC is looked for at the end of the last
read and not at the end of the frame.

Main definitions:

* `OmsModbus.CutsOff` — a wait that ends the receive loop without bytes;
* `OmsModbus.IsAnswerTo` — a PDU of the length of a good answer, or an exception;
* `OmsModbus.overrun` — the bytes behind the frame that come in the read that completes it;
* `OmsModbus.EndsInCrc` — a byte string that ends in the CRC of what is in front of it.

Main results:

* `OmsModbus.Response.tryFrom_of_part` — no part of the layout of a response is a response;
* `OmsModbus.rtuReceive_fragments` — **an answer is received however it is cut, and no part of one
  is an answer**;
* `OmsModbus.rtuReceive_overrun_iff` — **bytes behind the answer are ignored exactly when those that
  come with it end in a CRC**.
-/

import OmsModbus.Rtu

set_option relaxedAutoImplicit false
set_option autoImplicit false

namespace OmsModbus

/-! ### The decoder of responses -/

/-- A suffix is ignored. -/
theorem Response.tryFrom_append {b : Bytes} {r : Response} (h : Response.tryFrom b = .ok r)
    (s : Bytes) : Response.tryFrom (b ++ s) = .ok r := by
  obtain ⟨hdec, p, t, rfl, hp⟩ := Response.tryFrom_eq_ok_iff.1 h
  exact Response.tryFrom_eq_ok_iff.2 ⟨hdec, p, t ++ s, List.append_assoc .., hp⟩

/-- **No part of the layout of a response is a response.** -/
theorem Response.tryFrom_of_part {rsp : Response} (hfit : rsp.pdu.length ≤ 253) {q t : Bytes}
    (ht : t ≠ []) (h : q ++ t = rsp.pdu) (r : Response) : Response.tryFrom q ≠ .ok r := by
  intro hq
  have hall := Response.tryFrom_append hq t
  rw [h, Response.tryFrom_pdu hfit] at hall
  have hlen := Response.pdu_length_le hq
  rw [← Except.ok.inj hall, normResponse_pdu, ← h, List.length_append] at hlen
  have := List.length_pos_iff.2 ht
  omega

/-! ### The receive loop -/

/-- A wait that ends the receive loop without bytes: a timeout, or the end of the stream. -/
def CutsOff : ReadEvent → Prop
  | .data bs => bs = []
  | .elapsed | .expired => True
  | .error _ => False

/-- What is there is taken when nothing more comes. -/
theorem readAtLeast_cutOff {min : ℕ} {buf : Bytes} (hbuf : buf ≠ []) (hlen : buf.length < min)
    {event : ReadEvent} (h : CutsOff event) (events : List ReadEvent) :
    readAtLeast min buf (event :: events) = (.ok (), buf, events) := by
  rw [readAtLeast_cons, if_pos hlen]
  cases event with
  | data bs =>
      have hbs : bs = [] := h
      simp only [hbs, if_true, if_neg hbuf]
  | error e => cases h
  | elapsed => simp only [ne_eq, hbuf, not_false_eq_true, if_true]
  | expired => rfl

section Receive

variable {slaveId : UInt8} {request : Request} {n : ℕ} {chunks : List Bytes}

/-- Bytes that are too few are decoded when nothing more comes. -/
theorem rtuReceive_cutOff (hexp : expectedRtuPduLen request = some n)
    (hne : ∀ c ∈ chunks, c ≠ []) (hbytes : chunks.flatten ≠ [])
    (hlen : chunks.flatten.length < n + 1 + CRC_SIZE) {event : ReadEvent} (h : CutsOff event)
    (events : List ReadEvent) :
    rtuReceive slaveId request (chunks.map .data ++ event :: events)
      = decodeRtuResponse slaveId chunks.flatten := by
  have hread : readAtLeast (n + 1 + CRC_SIZE) [] (chunks.map .data ++ event :: events)
      = (.ok (), chunks.flatten, events) := by
    rw [readAtLeast_short hne [] hlen, List.nil_append]
    exact readAtLeast_cutOff hbytes hlen h events
  exact rtuReceive_of_read hexp hread

/-- When nothing comes at all there is no answer. -/
theorem rtuReceive_nothing (hexp : expectedRtuPduLen request = some n) {event : ReadEvent}
    (h : CutsOff event) (events : List ReadEvent) :
    ∃ e, rtuReceive slaveId request (event :: events) = .error e := by
  have hlen : ([] : Bytes).length < n + 1 + CRC_SIZE := Nat.succ_pos _
  simp only [rtuReceive, hexp, Option.map_some, Option.getD_some, readAtLeast_cons, if_pos hlen]
  cases event with
  | data bs =>
      have hbs : bs = [] := h
      exact ⟨_, by simp [hbs]; rfl⟩
  | error e => cases h
  | elapsed => exact ⟨_, rfl⟩
  | expired => exact ⟨_, rfl⟩

/-- The bytes behind the first `n` that come in the read that brings the last of these. -/
def overrun : ℕ → List Bytes → Bytes
  | _, [] => []
  | n, c :: chunks => if n ≤ c.length then c.drop n else overrun (n - c.length) chunks

/-- Reading stops behind the read that brings the last byte that was asked for. -/
theorem readAtLeast_overrun {f t : Bytes} (hne : ∀ c ∈ chunks, c ≠ [])
    (hflat : chunks.flatten = f ++ t) (hf : f ≠ []) (rest : List ReadEvent) :
    ∃ left, readAtLeast f.length [] (chunks.map .data ++ rest)
      = (.ok (), f ++ overrun f.length chunks, left) := by
  suffices h : ∀ buf : Bytes, buf ++ chunks.flatten = f ++ t → buf.length < f.length →
      ∃ left, readAtLeast f.length buf (chunks.map .data ++ rest)
        = (.ok (), f ++ overrun (f.length - buf.length) chunks, left) by
    exact h [] hflat (List.length_pos_iff.2 hf)
  clear hflat
  induction chunks with
  | nil =>
      intro buf hbuf hlt
      have hlen := congrArg List.length hbuf
      rw [List.flatten_nil, List.append_nil, List.length_append] at hlen
      omega
  | cons c chunks ih =>
      intro buf hbuf hlt
      have hc := hne c (List.mem_cons_self ..)
      rw [List.map_cons, List.cons_append, readAtLeast_cons, if_pos hlt]
      simp only [if_neg hc]
      rw [List.flatten_cons, ← List.append_assoc] at hbuf
      have hlen : (buf ++ c).length = buf.length + c.length := List.length_append
      rw [overrun]
      by_cases hle : f.length - buf.length ≤ c.length
      · -- this read completes the frame
        have hall : buf ++ c = f ++ c.drop (f.length - buf.length) := by
          have hfront : (buf ++ c).take f.length = f := by
            have htake := congrArg (List.take f.length) hbuf
            rw [List.take_append_of_le_length (by omega), List.take_left] at htake
            exact htake
          have hback : (buf ++ c).drop f.length = c.drop (f.length - buf.length) := by
            rw [List.drop_append, List.drop_eq_nil_of_le hlt.le, List.nil_append]
          calc buf ++ c = (buf ++ c).take f.length ++ (buf ++ c).drop f.length :=
                (List.take_append_drop ..).symm
            _ = f ++ c.drop (f.length - buf.length) := by rw [hfront, hback]
        rw [if_pos hle, ← hall, readAtLeast_of_le (by omega)]
        exact ⟨_, rfl⟩
      · rw [if_neg hle]
        obtain ⟨left, hread⟩ := ih (fun c' h => hne c' (List.mem_cons_of_mem _ h)) (buf ++ c) hbuf
          (by omega)
        refine ⟨left, ?_⟩
        rw [hread, hlen, Nat.sub_add_eq]

/-- What comes with the first `n` bytes is in front of what comes behind them. -/
theorem overrun_prefix (n : ℕ) (chunks : List Bytes) :
    overrun n chunks <+: chunks.flatten.drop n := by
  induction chunks generalizing n with
  | nil => exact List.nil_prefix
  | cons c chunks ih =>
      rw [overrun, List.flatten_cons]
      split
      · next hle =>
        rw [List.drop_append_of_le_length hle]
        exact List.prefix_append _ _
      · next hgt =>
        rw [List.drop_append, List.drop_eq_nil_of_le (by omega), List.nil_append]
        exact ih _

/-- When there is nothing behind the frame, nothing comes with it. -/
theorem overrun_eq_nil {f : Bytes} (hflat : chunks.flatten = f) : overrun f.length chunks = [] := by
  have hprefix := overrun_prefix f.length chunks
  rw [hflat, List.drop_length] at hprefix
  exact List.prefix_nil.1 hprefix

end Receive

/-! ### The bytes that were read -/

/-- A byte string that ends in the CRC of what is in front of it. -/
def EndsInCrc (b : Bytes) : Prop := crcReceived b = calculateCrc (b.take (b.length - 2))

instance : DecidablePred EndsInCrc := fun b =>
  inferInstanceAs (Decidable (crcReceived b = calculateCrc (b.take (b.length - 2))))

section Frame

variable {slaveId : UInt8}

/-- What is read behind an answer is taken for a part of it, and ignored if the CRC allows it. -/
theorem decodeRtuResponse_overrun_iff {pdu : Bytes} {rsp : Response}
    (h : Response.tryFrom pdu = .ok rsp) (extra : Bytes) :
    decodeRtuResponse slaveId (encodeRtuFrame (slaveId :: pdu) [] ++ extra) = .ok rsp ↔
      EndsInCrc (encodeRtuFrame (slaveId :: pdu) [] ++ extra) := by
  have hpdu := Response.pdu_length_le h
  have htwo := rsp.one_lt_pdu_length
  have hframe := encodeRtuFrame_nil_length (slaveId :: pdu)
  rw [List.length_cons] at hframe
  have hlen : (encodeRtuFrame (slaveId :: pdu) [] ++ extra).length
      = pdu.length + 3 + extra.length := by
    rw [List.length_append, hframe]
  rw [decodeRtuResponse, if_neg (by rw [MIN_RTU_FRAME]; omega)]
  by_cases hcrc : EndsInCrc (encodeRtuFrame (slaveId :: pdu) [] ++ extra)
  · -- the CRC is behind the PDU, so the decoder sees the PDU and more
    obtain ⟨more, hmore⟩ : ∃ more, (encodeRtuFrame (slaveId :: pdu) [] ++ extra).take
        ((encodeRtuFrame (slaveId :: pdu) [] ++ extra).length - 2) = slaveId :: (pdu ++ more) := by
      refine ⟨(Words.toLeBytes (calculateCrc (slaveId :: pdu)) ++ extra).take extra.length, ?_⟩
      rw [hlen, encodeRtuFrame, List.nil_append, List.append_assoc, List.take_append,
        List.take_of_length_le (by rw [List.length_cons]; omega), List.length_cons,
        show pdu.length + 3 + extra.length - 2 - (pdu.length + 1) = extra.length by omega]
      rfl
    rw [if_neg (show ¬ crcReceived _ ≠ calculateCrc _ from not_not_intro hcrc), hmore]
    obtain ⟨fc, data, rfl⟩ := List.exists_cons_of_length_pos (show 0 < pdu.length by omega)
    have hdec := Response.tryFrom_append h more
    rw [List.cons_append] at hdec
    simp only [List.cons_append, ne_eq, not_true_eq_false, if_false, hdec]
    exact iff_of_true trivial hcrc
  · rw [if_pos (show crcReceived _ ≠ calculateCrc _ from hcrc)]
    exact iff_of_false (fun hok => by cases hok) hcrc

/-- A part of a frame is no answer. -/
theorem decodeRtuResponse_of_part {rsp : Response} (hfit : rsp.pdu.length ≤ 253) {q t : Bytes}
    (ht : t ≠ []) (h : q ++ t = encodeRtuFrame (slaveId :: rsp.pdu) []) :
    ∃ e, decodeRtuResponse slaveId q = .error e := by
  have hlen := congrArg List.length h
  rw [List.length_append, encodeRtuFrame_nil_length, List.length_cons] at hlen
  have hpos := List.length_pos_iff.2 ht
  rw [decodeRtuResponse]
  split
  · simp only
    split <;> exact ⟨_, rfl⟩
  · next hmin =>
    rw [MIN_RTU_FRAME] at hmin
    split
    · exact ⟨_, rfl⟩
    · -- without two bytes of CRC at the end, a part of the PDU is left
      have hfront : q.take (q.length - 2) = slaveId :: rsp.pdu.take (q.length - 3) := by
        have htake := congrArg (List.take (q.length - 2)) h
        rw [List.take_append_of_le_length (by omega), encodeRtuFrame, List.nil_append,
          List.take_append_of_le_length (by rw [List.length_cons]; omega),
          show q.length - 2 = (q.length - 3) + 1 by omega, List.take_succ_cons] at htake
        rw [show q.length - 2 = (q.length - 3) + 1 by omega]
        exact htake
      have hpart : ∀ r, Response.tryFrom (rsp.pdu.take (q.length - 3)) ≠ .ok r := by
        refine Response.tryFrom_of_part hfit (t := rsp.pdu.drop (q.length - 3)) ?_
          (List.take_append_drop ..)
        intro hnil
        have hdrop := congrArg List.length hnil
        rw [List.length_drop, List.length_nil] at hdrop
        omega
      rw [hfront]
      cases hp : rsp.pdu.take (q.length - 3) with
      | nil => exact ⟨_, rfl⟩
      | cons fc data =>
          simp only [ne_eq, not_true_eq_false, if_false]
          cases hdec : Response.tryFrom (fc :: data) with
          | error e => exact ⟨_, rfl⟩
          | ok r =>
              rw [hp] at hpart
              exact absurd hdec (hpart r)

end Frame

/-! ### Fragments -/

/-- A PDU of the length of a good answer, or an exception, which is two bytes. -/
def IsAnswerTo (request : Request) (pdu : Bytes) : Prop :=
  expectedRtuPduLen request = some pdu.length ∨ ∃ fc code, fc &&& 0x80 ≠ 0 ∧ pdu = [fc, code]

theorem two_le_expectedRtuPduLen {request : Request} {n : ℕ}
    (hexp : expectedRtuPduLen request = some n) : 2 ≤ n := by
  cases request with
  | disconnect => cases hexp
  | _ =>
      cases hexp
      omega

theorem exists_expectedRtuPduLen {request : Request} (h : request ≠ .disconnect) :
    ∃ n, expectedRtuPduLen request = some n := by
  cases request with
  | disconnect => exact absurd rfl h
  | _ => exact ⟨_, rfl⟩

section Fragments

variable {slaveId : UInt8} {request : Request} {n : ℕ} {chunks : List Bytes}

/-- An answer of the expected length, and what comes with it. -/
theorem rtuReceive_overrun {pdu t : Bytes} (hexp : expectedRtuPduLen request = some pdu.length)
    (hne : ∀ c ∈ chunks, c ≠ [])
    (hflat : chunks.flatten = encodeRtuFrame (slaveId :: pdu) [] ++ t) (rest : List ReadEvent) :
    rtuReceive slaveId request (chunks.map .data ++ rest)
      = decodeRtuResponse slaveId (encodeRtuFrame (slaveId :: pdu) []
          ++ overrun (encodeRtuFrame (slaveId :: pdu) []).length chunks) := by
  have hframe := encodeRtuFrame_nil_length (slaveId :: pdu)
  rw [List.length_cons] at hframe
  obtain ⟨left, hread⟩ := readAtLeast_overrun hne hflat
    (List.length_pos_iff.1 (by omega)) rest
  have htarget : pdu.length + 1 + CRC_SIZE = (encodeRtuFrame (slaveId :: pdu) []).length :=
    hframe.symm
  rw [← htarget] at hread ⊢
  exact rtuReceive_of_read hexp hread

/-- An answer that comes in any pieces is decoded, a short one when nothing more comes. -/
theorem rtuReceive_answer (hexp : expectedRtuPduLen request = some n) {pdu : Bytes}
    (htwo : 2 ≤ pdu.length) (hle : pdu.length ≤ n) (hne : ∀ c ∈ chunks, c ≠ [])
    (hflat : chunks.flatten = encodeRtuFrame (slaveId :: pdu) []) {rest : List ReadEvent}
    (hrest : pdu.length < n → ∃ event more, rest = event :: more ∧ CutsOff event) :
    rtuReceive slaveId request (chunks.map .data ++ rest) = rtuOutcome pdu := by
  have hframe := encodeRtuFrame_nil_length (slaveId :: pdu)
  rw [List.length_cons] at hframe
  rw [← decodeRtuResponse_frame slaveId htwo]
  rcases Nat.lt_or_eq_of_le hle with hlt | rfl
  · obtain ⟨event, more, rfl, hcut⟩ := hrest hlt
    rw [rtuReceive_cutOff hexp hne ?_ ?_ hcut, hflat]
    · rw [hflat]
      exact List.length_pos_iff.1 (by omega)
    · rw [hflat, CRC_SIZE]
      omega
  · rw [rtuReceive_overrun (t := []) hexp hne (by rw [hflat, List.append_nil]) rest,
      overrun_eq_nil hflat, List.append_nil]

/-- A part of an answer is no answer. -/
theorem rtuReceive_of_part {rsp : Response} (hfit : rsp.pdu.length ≤ 253)
    (hexp : expectedRtuPduLen request = some rsp.pdu.length) (hne : ∀ c ∈ chunks, c ≠ [])
    {t : Bytes} (ht : t ≠ [])
    (hflat : chunks.flatten ++ t = encodeRtuFrame (slaveId :: rsp.pdu) []) {event : ReadEvent}
    (hcut : CutsOff event) (events : List ReadEvent) :
    ∃ e, rtuReceive slaveId request (chunks.map .data ++ event :: events) = .error e := by
  have hlen := congrArg List.length hflat
  rw [List.length_append, encodeRtuFrame_nil_length, List.length_cons] at hlen
  have hpos := List.length_pos_iff.2 ht
  by_cases hnil : chunks.flatten = []
  · obtain rfl : chunks = [] := by
      cases chunks with
      | nil => rfl
      | cons c chunks =>
          rw [List.flatten_cons] at hnil
          exact absurd (List.append_eq_nil_iff.1 hnil).1 (hne c (List.mem_cons_self ..))
    exact rtuReceive_nothing hexp hcut events
  · rw [rtuReceive_cutOff hexp hne hnil (by rw [CRC_SIZE]; omega) hcut]
    exact decodeRtuResponse_of_part hfit ht hflat

end Fragments

/-- **An answer is received however it is cut, and no part of one is an answer.**  An attempt that
has sent its request returns what it receives. -/
theorem rtuReceive_fragments (slaveId : UInt8) (request : Request) (hq : request ≠ .disconnect) :
    (∀ (pdu : Bytes) (chunks : List Bytes) (rest : List ReadEvent), IsAnswerTo request pdu →
      (∀ c ∈ chunks, c ≠ []) → chunks.flatten = encodeRtuFrame (slaveId :: pdu) [] →
      (expectedRtuPduLen request = some pdu.length ∨
        ∃ event more, rest = event :: more ∧ CutsOff event) →
      rtuReceive slaveId request (chunks.map .data ++ rest) = rtuOutcome pdu) ∧
    (∀ (rsp : Response) (pdu t : Bytes) (chunks : List Bytes) (event : ReadEvent)
      (more : List ReadEvent), encodeResponseInto rsp [] = (.ok (), pdu) →
      expectedRtuPduLen request = some pdu.length → (∀ c ∈ chunks, c ≠ []) → t ≠ [] →
      chunks.flatten ++ t = encodeRtuFrame (slaveId :: pdu) [] → CutsOff event →
      ∃ e, rtuReceive slaveId request (chunks.map .data ++ event :: more) = .error e) ∧
    ∀ a : Attempt, a.Asks request → rtuSendRecv slaveId request a
      = rtuReceive slaveId request (a.recv (encodeRtuFrame (slaveId :: request.pdu) [])) := by
  obtain ⟨n, hexp⟩ := exists_expectedRtuPduLen hq
  refine ⟨?_, ?_, fun _ => rtuSendRecv_eq slaveId⟩
  · intro pdu chunks rest hpdu hne hflat hrest
    have htwo := two_le_expectedRtuPduLen hexp
    rw [hexp] at hrest
    rcases hpdu with hlen | ⟨fc, code, -, rfl⟩
    · rw [hexp] at hlen
      obtain rfl := Option.some.inj hlen
      exact rtuReceive_answer hexp htwo le_rfl hne hflat fun h => absurd h (lt_irrefl _)
    · have hlen : [fc, code].length = 2 := rfl
      refine rtuReceive_answer hexp hlen.ge (hlen.trans_le htwo) hne hflat ?_
      intro hlt
      refine hrest.resolve_left ?_
      intro heq
      exact absurd (Option.some.inj heq) hlt.ne'
  · intro rsp pdu t chunks event more henc hlen hne ht hflat hcut
    obtain ⟨hfit, rfl⟩ := encodeResponseInto_eq_ok.1 henc
    exact rtuReceive_of_part hfit hlen hne ht hflat hcut more

/-- A register that comes in two reads, an exception, and a register that breaks off. -/
theorem rtuReceive_fragments_pieces :
    rtuReceive 1 (.readHoldingRegisters 0 1)
        ([[1, 3, 2], [0, 5, 120, 71]].map .data ++ []) = rtuOutcome [3, 2, 0, 5] ∧
      rtuReceive 1 (.readHoldingRegisters 0 1)
        ([[1, 131], [2, 192, 241]].map .data ++ [ReadEvent.elapsed]) = rtuOutcome [131, 2] ∧
      ∃ e, rtuReceive 1 (.readHoldingRegisters 0 1)
        ([[1, 3, 2], [0, 5, 120]].map .data ++ [ReadEvent.elapsed]) = .error e := by
  have h := rtuReceive_fragments 1 (.readHoldingRegisters 0 1) (by decide)
  refine ⟨?_, ?_, ?_⟩
  · exact h.1 [3, 2, 0, 5] _ [] (.inl rfl) (by decide) (by decide) (.inl rfl)
  · exact h.1 [131, 2] _ _ (.inr ⟨131, 2, by decide, rfl⟩) (by decide) (by decide)
      (.inr ⟨_, _, rfl, trivial⟩)
  · exact h.2.1 (.readHoldingRegisters [5]) [3, 2, 0, 5] [71] _ _ [] (by decide) rfl (by decide)
      (by decide) (by decide) trivial

/-! ### Bytes behind the answer -/

/-- **Bytes behind the answer are ignored exactly when those that come with it end in a CRC.** -/
theorem rtuReceive_overrun_iff (slaveId : UInt8) (request : Request) (pdu t : Bytes)
    (rsp : Response) (chunks : List Bytes) (rest : List ReadEvent)
    (hexp : expectedRtuPduLen request = some pdu.length) (hrsp : Response.tryFrom pdu = .ok rsp)
    (hne : ∀ c ∈ chunks, c ≠ [])
    (hflat : chunks.flatten = encodeRtuFrame (slaveId :: pdu) [] ++ t) :
    (rtuReceive slaveId request (chunks.map .data ++ rest) = .ok rsp ↔
      EndsInCrc (encodeRtuFrame (slaveId :: pdu) []
        ++ overrun (encodeRtuFrame (slaveId :: pdu) []).length chunks)) ∧
    ∀ a : Attempt, a.Asks request →
      a.recv (encodeRtuFrame (slaveId :: request.pdu) []) = chunks.map .data ++ rest →
      (rtuSendRecv slaveId request a = .ok rsp ↔
        EndsInCrc (encodeRtuFrame (slaveId :: pdu) []
          ++ overrun (encodeRtuFrame (slaveId :: pdu) []).length chunks)) := by
  have hiff : rtuReceive slaveId request (chunks.map .data ++ rest) = .ok rsp ↔
      EndsInCrc (encodeRtuFrame (slaveId :: pdu) []
        ++ overrun (encodeRtuFrame (slaveId :: pdu) []).length chunks) := by
    rw [rtuReceive_overrun hexp hne hflat rest]
    exact decodeRtuResponse_overrun_iff hrsp _
  refine ⟨hiff, ?_⟩
  intro a ha hrecv
  rw [rtuSendRecv_eq slaveId ha, hrecv]
  exact hiff

/-- What comes in a read of its own is not read. -/
theorem rtuReceive_overrun_iff_apart :
    rtuReceive 1 (.readHoldingRegisters 0 1)
        ([[1, 3, 2, 0, 5, 120, 71], [0xAA]].map .data ++ [ReadEvent.elapsed])
      = .ok (.readHoldingRegisters [5]) :=
  (rtuReceive_overrun_iff 1 (.readHoldingRegisters 0 1) [3, 2, 0, 5] [0xAA] _ _ _ rfl rfl
    (by decide) (by decide)).1.2 (by decide)

/-- A byte of noise in the read that brings the answer: the CRC is looked for one byte too far. -/
theorem rtuReceive_noise_mismatch :
    encodeRtuFrame [1, 3, 2, 0, 5] [] = [1, 3, 2, 0, 5, 120, 71] ∧
      Response.tryFrom [3, 2, 0, 5] = .ok (.readHoldingRegisters [5]) ∧
      rtuSendRecv 1 (.readHoldingRegisters 0 1)
          ⟨[.elapsed], .done, fun _ => [.data [1, 3, 2, 0, 5, 120, 71, 0xAA]], true⟩
        = .error (.protocol "RTU CRC mismatch") := by
  decide

end OmsModbus
