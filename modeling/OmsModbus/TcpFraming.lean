/-
**One TCP frame: what the parser makes of what the encoder wrote.**

A frame is a header `mbap` and a body.  On a buffer that starts with a header the parser is
described by one equation: of the two lengths the header may mean, it takes the longer if the
buffer is that long, else the shorter, else it waits.  For a frame that is alone in the buffer this
always finds the body.  What it makes of the body is another matter: the body of a plain frame is
read as a repeated unit id and a PDU whenever that reading decodes.

Main definitions:

* `OmsModbus.mbap` — the seven bytes of a header;
* `OmsModbus.TcpConfig.body`, `OmsModbus.TcpConfig.lengthField` — body and length of a frame;
* `OmsModbus.Shadowed` — the body of a plain frame that is read as a repeated unit id and a PDU.

Main results:

* `OmsModbus.encodeTcpFrame_eq` — a frame is its header and its body;
* `OmsModbus.tryParseTcpFrame_mbap` — the parser on a buffer that starts with a header;
* `OmsModbus.tryParseTcpFrame_encode_iff` — **a frame is parsed back exactly when its configuration
  repeats the unit id or its PDU is not shadowed**.
-/

import OmsModbus.Tcp

set_option relaxedAutoImplicit false
set_option autoImplicit false

namespace OmsModbus

open Words

/-! ### Header and body -/

/-- The header of a frame with the given length field. -/
def mbap (tid : UInt16) (len : ℕ) (unitId : UInt8) : Bytes :=
  toBeBytes tid ++ (toBeBytes 0 ++ (toBeBytes (UInt16.ofNat len) ++ [unitId]))

@[simp] theorem mbap_length (tid : UInt16) (len : ℕ) (unitId : UInt8) :
    (mbap tid len unitId).length = 7 := rfl

/-- The body of a frame. -/
def TcpConfig.body (cfg : TcpConfig) (unitId : UInt8) (pdu : Bytes) : Bytes :=
  if cfg.unitIdInBody then unitId :: pdu else pdu

/-- The length field of a frame with a body of `n` bytes. -/
def TcpConfig.lengthField (cfg : TcpConfig) (n : ℕ) : ℕ :=
  match cfg.lengthMode with
  | .standard => n + 1
  | .pduOnly => n

/-- **A frame is its header and its body.** -/
theorem encodeTcpFrame_eq (unitId : UInt8) (pdu : Bytes) (cfg : TcpConfig) (tid : UInt16) :
    encodeTcpFrame (unitId :: pdu) [] cfg tid
      = mbap tid (cfg.lengthField (cfg.body unitId pdu).length) unitId ++ cfg.body unitId pdu := by
  have hsucc : ∀ n, UInt16.ofNat n + 1 = UInt16.ofNat (n + 1) := fun n =>
    (UInt16.ofNat_add n 1).symm
  obtain ⟨tm, echo, mode⟩ := cfg
  cases echo <;> cases mode <;>
    simp only [encodeTcpFrame, mbap, TcpConfig.body, TcpConfig.lengthField, pushU16, putU8,
      Bool.false_eq_true, if_true, if_false, UInt16.add_zero, hsucc, List.nil_append,
      List.append_assoc, List.cons_append, List.length_cons]

theorem readMbapHeader_mbap {tid : UInt16} {len : ℕ} (hlen : len < 65536) (unitId : UInt8)
    (data : Bytes) : readMbapHeader (mbap tid len unitId ++ data) = some ⟨tid, 0, len, unitId⟩ := by
  have hn : (UInt16.ofNat len).toNat = len := by
    rw [UInt16.toNat_ofNat']
    omega
  simp only [mbap, toBeBytes, List.cons_append, List.nil_append, readMbapHeader,
    fromBeBytes_toBeBytes, hn]

/-- A header takes seven bytes. -/
theorem readMbapHeader_length {buf : Bytes} {h : MbapHeader} (hread : readMbapHeader buf = some h) :
    7 ≤ buf.length := by
  unfold readMbapHeader at hread
  split at hread
  · simp
  · cases hread

theorem readMbapHeader_of_length_lt {buf : Bytes} (h : buf.length < 7) :
    readMbapHeader buf = none := by
  cases hread : readMbapHeader buf with
  | none => rfl
  | some hdr => exact absurd (readMbapHeader_length hread) (by omega)

/-- A header gives the buffer up exactly when its length field is out of range. -/
theorem isTcpHeaderCorrupt_mbap {tid : UInt16} {len : ℕ} (hlen : len < 65536) (unitId : UInt8)
    (data : Bytes) :
    isTcpHeaderCorrupt (mbap tid len unitId ++ data) = !decide (1 ≤ len ∧ len ≤ 260) := by
  rw [isTcpHeaderCorrupt, readMbapHeader_mbap hlen]
  rfl

/-- One of the possible lengths of a frame. -/
theorem tryFrameLengths_mbap {tid : UInt16} {len : ℕ} {unitId : UInt8} {data : Bytes}
    (h : MbapHeader) (k : ℕ) (fls : List ℕ) :
    tryFrameLengths h (mbap tid len unitId ++ data) ((7 + k) :: fls)
      = if 0 < k ∧ k ≤ data.length then tryExtractTcpPdu h.tid h.unitId (data.take k) (7 + k)
        else tryFrameLengths h (mbap tid len unitId ++ data) fls := by
  have hbody : ((mbap tid len unitId ++ data).take (7 + k)).drop MBAP_HEADER_SIZE
      = data.take k := by
    rw [List.drop_take, MBAP_HEADER_SIZE, Nat.add_sub_cancel_left]
    rfl
  have hsize : (mbap tid len unitId ++ data).length = 7 + data.length := by simp
  rw [tryFrameLengths]
  simp only [hbody, hsize]
  rw [MBAP_HEADER_SIZE]
  by_cases hk : 0 < k ∧ k ≤ data.length
  · have hne : (data.take k).isEmpty = false := by
      rw [List.isEmpty_eq_false_iff, ← List.length_pos_iff, List.length_take]
      omega
    rw [if_pos hk, if_pos (by omega), hne]
    rfl
  · rw [if_neg hk, if_neg (by omega)]

/-- **The parser on a buffer that starts with a header**: the longer of the two lengths if the
buffer is that long, else the shorter. -/
theorem tryParseTcpFrame_mbap {tid : UInt16} {len : ℕ} (hlen : len ≤ 260) (unitId : UInt8)
    (data : Bytes) :
    tryParseTcpFrame (mbap tid len unitId ++ data)
      = if 0 < len ∧ len ≤ data.length then
          tryExtractTcpPdu tid unitId (data.take len) (7 + len)
        else if 1 < len ∧ len - 1 ≤ data.length then
          tryExtractTcpPdu tid unitId (data.take (len - 1)) (6 + len)
        else none := by
  rw [tryParseTcpFrame, readMbapHeader_mbap (by omega)]
  simp only [ne_eq, not_true_eq_false, false_or, MAX_TCP_ADU_SIZE,
    if_neg (show ¬ len > 260 by omega), MBAP_HEADER_SIZE, MBAP_PREFIX_SIZE]
  rw [tryFrameLengths_mbap]
  split
  · rfl
  · cases len with
    | zero => rfl
    | succ k =>
        rw [show 6 + (k + 1) = 7 + k by omega, tryFrameLengths_mbap, Nat.add_sub_cancel]
        by_cases hk : 0 < k ∧ k ≤ data.length
        · rw [if_pos hk, if_pos (by omega)]
        · rw [if_neg hk, if_neg (by omega)]
          rfl

/-- A buffer that is shorter than a header holds no frame. -/
theorem tryParseTcpFrame_of_length_lt {buf : Bytes} (h : buf.length < 7) :
    tryParseTcpFrame buf = none := by
  rw [tryParseTcpFrame, readMbapHeader_of_length_lt h]

theorem isTcpHeaderCorrupt_of_length_lt {buf : Bytes} (h : buf.length < 7) :
    isTcpHeaderCorrupt buf = false := by
  rw [isTcpHeaderCorrupt, readMbapHeader_of_length_lt h]

/-- **A frame that is alone in the buffer is cut at its end.** -/
theorem tryParseTcpFrame_frame {unitId : UInt8} {pdu : Bytes} {cfg : TcpConfig} {tid : UInt16}
    (hne : cfg.body unitId pdu ≠ []) (hlen : (cfg.body unitId pdu).length ≤ 254) :
    tryParseTcpFrame (encodeTcpFrame (unitId :: pdu) [] cfg tid)
      = tryExtractTcpPdu tid unitId (cfg.body unitId pdu) (7 + (cfg.body unitId pdu).length) := by
  have hpos := List.length_pos_iff.2 hne
  rw [encodeTcpFrame_eq]
  unfold TcpConfig.lengthField
  split
  · rw [tryParseTcpFrame_mbap (by omega), if_neg (by omega), if_pos (by omega),
      Nat.add_sub_cancel, List.take_length]
    congr 1
    omega
  · rw [tryParseTcpFrame_mbap (by omega), if_pos (by omega), List.take_length]

/-! ### Reading the body -/

/-- The body `fc :: data` of a plain frame reads as a repeated unit id and a request. -/
def Shadowed (unitId : UInt8) (pdu : Bytes) : Prop :=
  pdu.head? = some unitId ∧ ∃ q, Request.tryFrom pdu.tail = .ok q

/-- The body that repeats the unit id. -/
theorem tryExtractTcpPdu_echo {tid : UInt16} {unitId : UInt8} {pdu : Bytes} {n : ℕ}
    (h : ∃ q, Request.tryFrom pdu = .ok q) :
    tryExtractTcpPdu tid unitId (unitId :: pdu) n = some (⟨tid, unitId, pdu⟩, n) := by
  obtain ⟨q, hq⟩ := h
  cases pdu with
  | nil => cases hq
  | cons fc data =>
      rw [tryExtractTcpPdu, if_pos]
      exact ⟨by simp, rfl, Request.isKnown_of_tryFrom hq, Request.isOk_tryFrom.2 ⟨q, hq⟩⟩

/-- A plain body that is not shadowed. -/
theorem tryExtractTcpPdu_plain {tid : UInt16} {unitId : UInt8} {pdu : Bytes} {n : ℕ}
    (h : ∃ q, Request.tryFrom pdu = .ok q) (hs : ¬ Shadowed unitId pdu) :
    tryExtractTcpPdu tid unitId pdu n = some (⟨tid, unitId, pdu⟩, n) := by
  obtain ⟨q, hq⟩ := h
  cases pdu with
  | nil => cases hq
  | cons fc data =>
      rw [tryExtractTcpPdu, if_neg, if_pos (Request.isKnown_of_tryFrom hq), if_neg]
      · rintro ⟨-, hno⟩
        exact hno (Request.isOk_tryFrom.2 ⟨q, hq⟩)
      · rintro ⟨-, rfl, -, hok⟩
        exact hs ⟨rfl, Request.isOk_tryFrom.1 hok⟩

/-- **A frame is parsed back exactly when its configuration repeats the unit id or its PDU is not
shadowed.** -/
theorem tryParseTcpFrame_encode_iff (cfg : TcpConfig) (tid : UInt16) (unitId : UInt8)
    (r : Request) (p : Bytes) (henc : encodeRequestInto r [] = (.ok (), p))
    (hdec : ∃ q, Request.tryFrom p = .ok q) :
    tryParseTcpFrame (encodeTcpFrame (unitId :: p) [] cfg tid)
        = some (⟨tid, unitId, p⟩, (encodeTcpFrame (unitId :: p) [] cfg tid).length) ↔
      cfg.unitIdInBody = true ∨ ¬ (p.head? = some unitId ∧ ∃ q, Request.tryFrom p.tail = .ok q) := by
  obtain ⟨hfit, rfl⟩ := encodeRequestInto_eq_ok.1 henc
  rw [List.nil_append] at hdec ⊢
  have hne : r.pdu ≠ [] := by
    intro h
    rw [h] at hdec
    obtain ⟨q, hq⟩ := hdec
    cases hq
  have hframe : (encodeTcpFrame (unitId :: r.pdu) [] cfg tid).length
      = 7 + (cfg.body unitId r.pdu).length := by
    rw [encodeTcpFrame_eq, List.length_append, mbap_length]
  cases hecho : cfg.unitIdInBody with
  | true =>
      have hbody : cfg.body unitId r.pdu = unitId :: r.pdu := by simp [TcpConfig.body, hecho]
      rw [hframe, tryParseTcpFrame_frame (by simp [hbody]) (by simp [hbody]; omega), hbody,
        tryExtractTcpPdu_echo hdec]
      simp
  | false =>
      have hbody : cfg.body unitId r.pdu = r.pdu := by simp [TcpConfig.body, hecho]
      rw [hframe, tryParseTcpFrame_frame (by simpa [hbody] using hne) (by simp [hbody]; omega),
        hbody]
      constructor
      · rintro h
        refine .inr ?_
        rintro ⟨hhead, q, hq⟩
        -- the shadowed reading drops the first byte of the PDU
        obtain ⟨fc, data, hpdu⟩ := List.exists_cons_of_ne_nil hne
        rw [hpdu] at hhead hq h
        obtain rfl : fc = unitId := by simpa using hhead
        have hq : Request.tryFrom data = .ok q := hq
        rw [tryExtractTcpPdu_echo ⟨q, hq⟩] at h
        simp at h
      · rintro (h | h)
        · cases h
        · exact tryExtractTcpPdu_plain hdec h

/-- A plain frame for another unit. -/
theorem tryParseTcpFrame_encode_iff_plain :
    tryParseTcpFrame (encodeTcpFrame (1 :: [3, 0, 0, 0, 2]) [] .standard 7)
        = some (⟨7, 1, [3, 0, 0, 0, 2]⟩,
          (encodeTcpFrame (1 :: [3, 0, 0, 0, 2]) [] .standard 7).length) ↔
      TcpConfig.standard.unitIdInBody = true ∨ ¬ (([3, 0, 0, 0, 2] : Bytes).head? = some 1 ∧
        ∃ q, Request.tryFrom ([3, 0, 0, 0, 2] : Bytes).tail = .ok q) :=
  tryParseTcpFrame_encode_iff .standard 7 1 (.readHoldingRegisters 0 2) [3, 0, 0, 0, 2] (by decide)
    ⟨_, rfl⟩

/-- Unit 16 is asked to write several registers from address `0x0600` on; the server reads the
function code as a repeated unit id, and writes a single register. -/
theorem tryParseTcpFrame_shadowed :
    encodeRequestInto (.writeMultipleRegisters 0x0600 [7]) []
        = (.ok (), [16, 6, 0, 0, 1, 2, 0, 7]) ∧
      Request.tryFrom [16, 6, 0, 0, 1, 2, 0, 7] = .ok (.writeMultipleRegisters 0x0600 [7]) ∧
      tryParseTcpFrame (encodeTcpFrame (16 :: [16, 6, 0, 0, 1, 2, 0, 7]) [] .standard 0)
        = some (⟨0, 16, [6, 0, 0, 1, 2, 0, 7]⟩, 15) ∧
      Request.tryFrom [6, 0, 0, 1, 2, 0, 7] = .ok (.writeSingleRegister 0 0x0102) := by
  refine ⟨?_, ?_, ?_, ?_⟩ <;> rfl

end OmsModbus
