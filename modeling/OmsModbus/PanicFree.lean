/-
**The parsers of frames do not panic, and the loops around them end.**

The three parsers of frames are written down once more with every check that Rust makes, and so are
the loops of the servers that take frames off a buffer.  On a buffer that fits in memory no check
fails; what a parser finds takes up some of the bytes that are there, and has a PDU that is not
empty; and so the loop comes to its end.

Main definitions:

* `OmsModbus.Guarded.isTcpHeaderCorrupt`, `OmsModbus.Guarded.tryParseTcpFrame`,
  `OmsModbus.Guarded.tryParseServerRtu`, `OmsModbus.Guarded.tryParseAscii` — the parsers;
* `OmsModbus.Guarded.serveBuffer` — the loop of a server;
* `OmsModbus.PanicFree` — a parser and the loop around it do not panic, and make progress.

Main results:

* `OmsModbus.Guarded.serveBuffer_eq` — the loop ends when the parser does not panic;
* `OmsModbus.parsers_panicFree` — **no parser panics, and all loops end**.
-/

import OmsModbus.Ascii
import OmsModbus.PanicFreePdu
import OmsModbus.Rtu
import OmsModbus.Tcp

set_option relaxedAutoImplicit false
set_option autoImplicit false

namespace OmsModbus

open BitPack PanicChecks Words

namespace Guarded

/-! ### TCP -/

/-- A whole header that cannot be the header of a frame. -/
def isTcpHeaderCorrupt (buf : Bytes) : Checked Bool :=
  if buf.length < MBAP_HEADER_SIZE then .ok false
  else do
    let p₁ ← index buf 2
    let p₀ ← index buf 3
    let l₁ ← index buf 4
    let l₀ ← index buf 5
    let payloadLen := (fromBeBytes l₁ l₀).toNat
    return fromBeBytes p₁ p₀ != 0 || !decide (1 ≤ payloadLen ∧ payloadLen ≤ MAX_TCP_ADU_SIZE)

/-- `body.len() >= 2 && body[0] == unit_id && is_known_function_code(body[1])`. -/
def repeatsUnitId (unitId : UInt8) (body : Bytes) : Checked Bool :=
  if body.length ≥ 2 then do
    let b₀ ← index body 0
    if b₀ = unitId then do
      let b₁ ← index body 1
      return isKnownFunctionCode b₁
    else return false
  else return false

/-- The reading of a body that starts with the function code. -/
def extractNormal (tid : UInt16) (unitId : UInt8) (body : Bytes) (consumed : ℕ) :
    Checked (Option (RawRequest UInt16 × ℕ)) := do
  let b₀ ← index body 0
  if isKnownFunctionCode b₀ then
    if b₀ = unitId then do
      let decoded ← (requestTryFrom body).run
      return if decoded.isOk then some (⟨tid, unitId, body⟩, consumed) else none
    else return some (⟨tid, unitId, body⟩, consumed)
  else return none

/-- The PDU in the body of a frame. -/
def tryExtractTcpPdu (tid : UInt16) (unitId : UInt8) (body : Bytes) (consumed : ℕ) :
    Checked (Option (RawRequest UInt16 × ℕ)) := do
  let repeated ← repeatsUnitId unitId body
  if repeated then do
    let pdu ← slice body 1 body.length
    let decoded ← (requestTryFrom pdu).run
    if decoded.isOk then do
      let b₀ ← index body 0
      return some (⟨tid, b₀, pdu⟩, consumed)
    else extractNormal tid unitId body consumed
  else extractNormal tid unitId body consumed

/-- The loop over the possible lengths of a frame. -/
def tryFrameLengths (tid : UInt16) (unitId : UInt8) (buf : Bytes) :
    List ℕ → Checked (Option (RawRequest UInt16 × ℕ))
  | [] => return none
  | fl :: fls =>
      if fl > MBAP_HEADER_SIZE ∧ buf.length ≥ fl then do
        let body ← slice buf MBAP_HEADER_SIZE fl
        if body.isEmpty then tryFrameLengths tid unitId buf fls
        else tryExtractTcpPdu tid unitId body fl
      else tryFrameLengths tid unitId buf fls

/-- Parsing one frame off the front of a buffer. -/
def tryParseTcpFrame (buf : Bytes) : Checked (Option (RawRequest UInt16 × ℕ)) :=
  if buf.length < MBAP_HEADER_SIZE then return none
  else do
    let t₁ ← index buf 0
    let t₀ ← index buf 1
    let l₁ ← index buf 4
    let l₀ ← index buf 5
    let payloadLen := (fromBeBytes l₁ l₀).toNat
    let p₁ ← index buf 2
    let p₀ ← index buf 3
    if fromBeBytes p₁ p₀ ≠ 0 ∨ payloadLen > MAX_TCP_ADU_SIZE then return none
    else do
      let unitId ← index buf 6
      let long ← add usizeBits MBAP_HEADER_SIZE payloadLen
      let short ← add usizeBits MBAP_PREFIX_SIZE payloadLen
      tryFrameLengths (fromBeBytes t₁ t₀) unitId buf [long, short]

/-! ### RTU -/

/-- The CRC of a byte string. -/
def calculateCrc (data : Bytes) : Checked UInt16 :=
  data.foldlM (fun crc byte => do
    let entry ← index CRC_TABLE (crc.toUInt8 ^^^ byte).toNat
    return (crc >>> 8) ^^^ entry) 0xFFFF

/-- Parsing a buffer that is a request frame. -/
def tryParseServerRtu (buf : Bytes) : Checked (Option (RawRequest Unit × ℕ)) :=
  if buf.length < MIN_RTU_FRAME then return none
  else do
    let i ← sub buf.length 2
    let lo ← index buf i
    let j ← sub buf.length 1
    let hi ← index buf j
    let frame ← slice buf 0 i
    let crcCalc ← calculateCrc frame
    if fromLeBytes lo hi ≠ crcCalc then return none
    else if frame.length < 2 then return none
    else do
      let fc ← index frame 1
      if ¬ isKnownFunctionCode fc then return none
      else do
        let slaveId ← index frame 0
        let pdu ← slice frame 1 frame.length
        return some (⟨(), slaveId, pdu⟩, buf.length)

/-! ### ASCII -/

/-- The value of a digit. -/
def nibble (c : UInt8) : Checked (Option UInt8) :=
  if 0x30 ≤ c ∧ c ≤ 0x39 then do
    let d ← subU8 c 0x30
    return some d
  else if 0x41 ≤ c ∧ c ≤ 0x46 then do
    let d ← subU8 c 0x41
    let d ← addU8 d 10
    return some d
  else if 0x61 ≤ c ∧ c ≤ 0x66 then do
    let d ← subU8 c 0x61
    let d ← addU8 d 10
    return some d
  else return none

/-- The byte with the given two digits. -/
def hexDecodeByte (hi lo : UInt8) : Checked (Option UInt8) := do
  match ← nibble hi with
  | none => return none
  | some h =>
    let h ← shlU8 h 4
    match ← nibble lo with
    | none => return none
    | some l => return some (h ||| l)

/-- The loop over the pairs of digits. -/
def hexDecode : List Bytes → Checked (Option Bytes)
  | [] => return some []
  | chunk :: chunks => do
      let hi ← index chunk 0
      let lo ← index chunk 1
      match ← hexDecodeByte hi lo with
      | none => return none
      | some b =>
        let rest ← hexDecode chunks
        return rest.map (b :: ·)

/-- Slave id and PDU of the bytes of a line, if its checksum is right. -/
def checkLrc (bytes : Bytes) : Checked (Option (UInt8 × Bytes)) :=
  if bytes.length ≥ 2 then do
    let mid ← sub bytes.length 1
    let (data, lrcByte) ← splitAt bytes mid
    let lrc ← index lrcByte 0
    if lrc = calculateLrc data ∧ data.length ≥ 2 then do
      let slaveId ← index data 0
      let pdu ← slice data 1 data.length
      return some (slaveId, pdu)
    else return none
  else return none

/-- Slave id and PDU of a line, if it is a frame. -/
def decodeAsciiLine (content : Bytes) : Checked (Option (UInt8 × Bytes)) :=
  if content.isEmpty then return none
  else do
    let c ← index content 0
    if c ≠ ASCII_START then return none
    else do
      let hexChars ← slice content 1 content.length
      if hexChars.length % 2 ≠ 0 then return none
      else do
        match ← hexDecode (chunks 2 hexChars) with
        | none => return none
        | some bytes => checkLrc bytes

/-- One round of the loop over the lines. -/
def asciiRound (buf : Bytes) (offset : ℕ) : Checked (ℕ ⊕ Option (RawRequest Unit × ℕ)) :=
  match getFrom buf offset with
  | none => return .inr none
  | some remaining =>
    match crlfPos remaining with
    | none => return .inr none
    | some pos => do
      let crlf ← add usizeBits offset pos
      let lineEnd ← add usizeBits crlf 2
      let contentEnd ← sub lineEnd 2
      let content ← slice buf offset contentEnd
      match ← decodeAsciiLine content with
      | some (slaveId, pdu) => return .inr (some (⟨(), slaveId, pdu⟩, lineEnd))
      | none => return .inl lineEnd

/-- The first frame of a buffer, found within `fuel` rounds. -/
def tryParseAscii (fuel : ℕ) (buf : Bytes) : Checked (Option (RawRequest Unit × ℕ)) :=
  runLoop (asciiRound buf) fuel 0

/-! ### Servers -/

section Servers

variable {τ σ : Type} (parse : Bytes → Checked (Option (RawRequest τ × ℕ))) (P : Protocol τ)
  (service : Service σ) (writeOk : ℕ → Bool)

/-- One round of `while let Some(..) = parse(&buf)`.  The loop is left when a write fails. -/
def serveRound (s : ServerLoop τ σ) : Checked (ServerLoop τ σ ⊕ ServerLoop τ σ) := do
  match ← parse s.buf with
  | none => return .inr s
  | some (x, consumed) =>
    let buf ← advance s.buf consumed
    let s := ServerLoop.serve P service writeOk (s.setBuf buf) x
    return if s.running then .inl s else .inr s

/-- The inner loop of a server, with at most `fuel` rounds. -/
def serveBuffer (fuel : ℕ) (s : ServerLoop τ σ) : Checked (ServerLoop τ σ) :=
  runLoop (serveRound parse P service writeOk) fuel s

end Servers

/-! ### What the parsers come to -/

theorem isTcpHeaderCorrupt_eq (buf : Bytes) :
    isTcpHeaderCorrupt buf = .ok (OmsModbus.isTcpHeaderCorrupt buf) := by
  match buf with
  | [] | [_] | [_, _] | [_, _, _] | [_, _, _, _] | [_, _, _, _, _] | [_, _, _, _, _, _] => rfl
  | t₁ :: t₀ :: p₁ :: p₀ :: l₁ :: l₀ :: u :: rest =>
      rw [isTcpHeaderCorrupt, if_neg (by simp [MBAP_HEADER_SIZE])]
      rfl

theorem repeatsUnitId_eq (unitId b₀ : UInt8) (pdu : Bytes) :
    repeatsUnitId unitId (b₀ :: pdu)
      = .ok (decide (pdu ≠ [] ∧ b₀ = unitId ∧ isKnownFunctionCode (pdu.headD 0) = true)) := by
  unfold repeatsUnitId
  cases pdu with
  | nil => rfl
  | cons b₁ pdu =>
      rw [if_pos (by simp)]
      refine bind_eq (index_cons_zero b₀ _) ?_
      by_cases hunit : b₀ = unitId
      · rw [if_pos hunit]
        refine bind_eq (index_cons_zero b₁ pdu) ?_
        simp [hunit, pure, Except.pure]
      · rw [if_neg hunit]
        simp [hunit, pure, Except.pure]

theorem extractNormal_eq (tid : UInt16) (unitId b₀ : UInt8) (pdu : Bytes) (consumed : ℕ) :
    extractNormal tid unitId (b₀ :: pdu) consumed
      = .ok (if isKnownFunctionCode b₀ then
          if b₀ = unitId ∧ ¬ (Request.tryFrom (b₀ :: pdu)).isOk then none
          else some (⟨tid, unitId, b₀ :: pdu⟩, consumed)
        else none) := by
  unfold extractNormal
  refine bind_eq (index_cons_zero b₀ pdu) ?_
  split
  · split
    · next hunit =>
      refine bind_eq (requestTryFrom_eq (b₀ :: pdu)) ?_
      cases hok : (Request.tryFrom (b₀ :: pdu)).isOk <;> simp [hunit, pure, Except.pure]
    · next hunit =>
      simp [hunit, pure, Except.pure]
  · rfl

theorem tryExtractTcpPdu_eq (tid : UInt16) (unitId : UInt8) {body : Bytes} (h : body ≠ [])
    (consumed : ℕ) :
    tryExtractTcpPdu tid unitId body consumed
      = .ok (OmsModbus.tryExtractTcpPdu tid unitId body consumed) := by
  obtain ⟨b₀, pdu, rfl⟩ := List.exists_cons_of_ne_nil h
  unfold tryExtractTcpPdu
  refine bind_eq (repeatsUnitId_eq unitId b₀ pdu) ?_
  rw [OmsModbus.tryExtractTcpPdu]
  by_cases hrep : pdu ≠ [] ∧ b₀ = unitId ∧ isKnownFunctionCode (pdu.headD 0) = true
  · refine (if_pos (decide_eq_true hrep)).trans ?_
    refine bind_eq (slice_to_end (by simp)) (bind_eq (requestTryFrom_eq pdu) ?_)
    by_cases hok : (Request.tryFrom pdu).isOk = true
    · rw [if_pos hok, if_pos ⟨hrep.1, hrep.2.1, hrep.2.2, hok⟩]
      rfl
    · rw [if_neg hok, if_neg fun h => hok h.2.2.2]
      exact extractNormal_eq tid unitId b₀ pdu consumed
  · refine (if_neg fun h => hrep (of_decide_eq_true h)).trans ?_
    rw [if_neg fun h => hrep ⟨h.1, h.2.1, h.2.2.1⟩]
    exact extractNormal_eq tid unitId b₀ pdu consumed

theorem tryFrameLengths_eq (h : MbapHeader) (buf : Bytes) (fls : List ℕ) :
    tryFrameLengths h.tid h.unitId buf fls = .ok (OmsModbus.tryFrameLengths h buf fls) := by
  induction fls with
  | nil => rfl
  | cons fl fls ih =>
      rw [tryFrameLengths, OmsModbus.tryFrameLengths]
      split
      · next hfl =>
        refine bind_eq (slice_eq hfl.1.le hfl.2) ?_
        simp only
        split
        · exact ih
        · next hbody => exact tryExtractTcpPdu_eq _ _ (by simpa using hbody) fl
      · exact ih

theorem tryParseTcpFrame_eq (buf : Bytes) :
    tryParseTcpFrame buf = .ok (OmsModbus.tryParseTcpFrame buf) := by
  match buf with
  | [] | [_] | [_, _] | [_, _, _] | [_, _, _, _] | [_, _, _, _, _] | [_, _, _, _, _, _] => rfl
  | t₁ :: t₀ :: p₁ :: p₀ :: l₁ :: l₀ :: u :: rest =>
      have hbits : 2 ^ usizeBits = 18446744073709551616 := rfl
      have hlen := (fromBeBytes l₁ l₀).toNat_lt
      rw [tryParseTcpFrame, if_neg (by simp [MBAP_HEADER_SIZE])]
      refine bind_eq rfl (bind_eq rfl (bind_eq rfl (bind_eq rfl (bind_eq rfl (bind_eq rfl ?_)))))
      rw [OmsModbus.tryParseTcpFrame, readMbapHeader]
      simp only
      split
      · rfl
      · refine bind_eq rfl ?_
        -- a length that was accepted is far from the end of the words
        refine bind_eq (add_eq (by rw [MBAP_HEADER_SIZE]; omega)) ?_
        refine bind_eq (add_eq (by rw [MBAP_PREFIX_SIZE]; omega)) ?_
        exact tryFrameLengths_eq ⟨_, _, _, u⟩ _ _

theorem calculateCrc_eq (data : Bytes) : calculateCrc data = .ok (OmsModbus.calculateCrc data) := by
  have hstep : ∀ (crc : UInt16) (byte : UInt8), (do
      let entry ← index CRC_TABLE (crc.toUInt8 ^^^ byte).toNat
      return (crc >>> 8) ^^^ entry)
        = Except.ok ((crc >>> 8) ^^^ CRC_TABLE.getD (crc.toUInt8 ^^^ byte).toNat 0) := by
    intro crc byte
    have hindex : (crc.toUInt8 ^^^ byte).toNat < CRC_TABLE.length := by
      have htable : CRC_TABLE.length = 256 := by simp [CRC_TABLE]
      rw [htable]
      exact UInt8.toNat_lt _
    exact bind_eq (index_eq_getD hindex 0) rfl
  unfold calculateCrc OmsModbus.calculateCrc
  generalize (0xFFFF : UInt16) = crc
  induction data generalizing crc with
  | nil => rfl
  | cons byte data ih =>
      rw [List.foldlM_cons, List.foldl_cons]
      exact bind_eq (hstep crc byte) (ih _)

theorem tryParseServerRtu_eq (buf : Bytes) :
    tryParseServerRtu buf = .ok (OmsModbus.tryParseServerRtu buf) := by
  unfold tryParseServerRtu OmsModbus.tryParseServerRtu
  split
  · rfl
  · next hmin =>
    rw [MIN_RTU_FRAME] at hmin
    have hlen : (buf.take (buf.length - 2)).length = buf.length - 2 := by simp
    have hfirst : index buf (buf.length - 2) = .ok (buf.getD (buf.length - 2) 0) :=
      index_eq_getD (by omega) 0
    have hsecond : index buf (buf.length - 1) = .ok (buf.getD (buf.length - 1) 0) :=
      index_eq_getD (by omega) 0
    have hslice : slice buf 0 (buf.length - 2) = .ok (buf.take (buf.length - 2)) := by
      rw [slice_eq (Nat.zero_le _) (Nat.sub_le _ _), List.drop_zero]
    refine bind_eq (sub_eq (by omega)) (bind_eq hfirst (bind_eq (sub_eq (by omega)) ?_))
    refine bind_eq hsecond (bind_eq hslice (bind_eq (calculateCrc_eq _) ?_))
    rw [crcReceived]
    split
    · rfl
    · -- at least three bytes are left without the checksum
      obtain ⟨slaveId, fc, data, hframe⟩ : ∃ slaveId fc data,
          buf.take (buf.length - 2) = slaveId :: fc :: data := by
        rcases htake : buf.take (buf.length - 2) with _ | ⟨slaveId, _ | ⟨fc, data⟩⟩
        · simp only [htake, List.length_nil] at hlen
          omega
        · simp only [htake, List.length_cons, List.length_nil] at hlen
          omega
        · exact ⟨slaveId, fc, data, rfl⟩
      rw [hframe, if_neg (by simp)]
      refine bind_eq rfl ?_
      simp only
      split
      · rfl
      · exact bind_eq rfl (bind_eq (slice_to_end (by simp)) rfl)

theorem nibble_eq (c : UInt8) : nibble c = .ok (OmsModbus.nibble c) := by
  have hletter : ∀ a b : UInt8, a ≤ c → c ≤ b → b.toNat < a.toNat + 6 →
      addU8 (c - a) 10 = .ok (c - a + 10) := by
    intro a b ha hb hab
    refine addU8_eq ?_
    rw [UInt8.toNat_sub_of_le _ _ ha]
    have ha' := UInt8.le_iff_toNat_le.1 ha
    have hb' := UInt8.le_iff_toNat_le.1 hb
    change c.toNat - a.toNat + 10 < 256
    omega
  unfold nibble OmsModbus.nibble
  split
  · next h => exact bind_eq (subU8_eq h.1) rfl
  · split
    · next h =>
      exact bind_eq (subU8_eq h.1) (bind_eq (hletter 0x41 0x46 h.1 h.2 (by decide)) rfl)
    · split
      · next h =>
        exact bind_eq (subU8_eq h.1) (bind_eq (hletter 0x61 0x66 h.1 h.2 (by decide)) rfl)
      · rfl

theorem hexDecodeByte_eq (hi lo : UInt8) :
    hexDecodeByte hi lo = .ok (OmsModbus.hexDecodeByte hi lo) := by
  unfold hexDecodeByte OmsModbus.hexDecodeByte
  refine bind_eq (nibble_eq hi) ?_
  cases OmsModbus.nibble hi with
  | none => rfl
  | some h =>
      refine bind_eq (shlU8_eq h (by decide)) (bind_eq (nibble_eq lo) ?_)
      cases OmsModbus.nibble lo <;> rfl

/-- An even number of digits falls into pairs. -/
theorem hexDecode_chunks : ∀ digits : Bytes, digits.length % 2 = 0 →
    hexDecode (chunks 2 digits) = .ok (OmsModbus.hexDecode digits)
  | [], _ => by
      rw [chunks_nil (by decide)]
      rfl
  | [_], h => by simp at h
  | hi :: lo :: digits, h => by
      have hrest : digits.length % 2 = 0 := by
        simp only [List.length_cons] at h
        omega
      have ih := hexDecode_chunks digits hrest
      rw [chunks_of_ne_nil (by decide) (List.cons_ne_nil _ _), OmsModbus.hexDecode]
      refine bind_eq rfl (bind_eq rfl (bind_eq (hexDecodeByte_eq hi lo) ?_))
      cases OmsModbus.hexDecodeByte hi lo with
      | none => rfl
      | some b => exact bind_eq ih rfl

/-- An odd number of digits is refused. -/
theorem hexDecode_odd : ∀ digits : Bytes, digits.length % 2 ≠ 0 →
    OmsModbus.hexDecode digits = none
  | [], h => by simp at h
  | [_], _ => rfl
  | hi :: lo :: digits, h => by
      have hrest : digits.length % 2 ≠ 0 := by
        simp only [List.length_cons] at h
        omega
      rw [OmsModbus.hexDecode, hexDecode_odd digits hrest]
      cases OmsModbus.hexDecodeByte hi lo <;> rfl

theorem checkLrc_eq (bytes : Bytes) :
    checkLrc bytes
      = .ok (if bytes.length ≥ 2 then
          match bytes.take (bytes.length - 1) with
          | slaveId :: fc :: pdu =>
            if bytes.getD (bytes.length - 1) 0 = calculateLrc (bytes.take (bytes.length - 1)) then
              some (slaveId, fc :: pdu)
            else none
          | _ => none
        else none) := by
  unfold checkLrc
  split
  · next hlen =>
    have hmid : bytes.length - 1 < bytes.length := by omega
    have hlrc : index (bytes.drop (bytes.length - 1)) 0
        = .ok (bytes.getD (bytes.length - 1) 0) := by
      rw [List.drop_eq_getElem_cons hmid, index_cons_zero, List.getD_eq_getElem _ _ hmid]
    refine bind_eq (sub_eq (by omega)) (bind_eq (splitAt_eq hmid.le) (bind_eq hlrc ?_))
    match bytes.take (bytes.length - 1) with
    | [] | [_] => simp [pure, Except.pure]
    | slaveId :: fc :: pdu =>
        by_cases hcheck : bytes.getD (bytes.length - 1) 0 = calculateLrc (slaveId :: fc :: pdu)
        · rw [if_pos ⟨hcheck, by simp⟩]
          simp only [if_pos hcheck]
          exact bind_eq rfl (bind_eq (slice_to_end (by simp)) rfl)
        · rw [if_neg fun h => hcheck h.1]
          simp only [if_neg hcheck]
          rfl
  · rfl

theorem decodeAsciiLine_eq (content : Bytes) :
    decodeAsciiLine content = .ok (OmsModbus.decodeAsciiLine content) := by
  cases content with
  | nil => rfl
  | cons c digits =>
      rw [OmsModbus.decodeAsciiLine]
      refine bind_eq (index_cons_zero c digits) ?_
      split
      · rfl
      · refine bind_eq (slice_to_end (by simp)) ?_
        rw [List.drop_succ_cons, List.drop_zero]
        by_cases hodd : digits.length % 2 ≠ 0
        · rw [if_pos hodd, hexDecode_odd digits hodd]
          rfl
        · rw [if_neg hodd]
          refine bind_eq (hexDecode_chunks digits (not_not.1 hodd)) ?_
          cases OmsModbus.hexDecode digits with
          | none => rfl
          | some bytes => exact checkLrc_eq bytes

/-- A round that finds a line. -/
theorem asciiRound_some {buf : Bytes} (hfits : buf.length < 2 ^ (usizeBits - 1)) {offset pos : ℕ}
    (hoffset : offset ≤ buf.length) (hpos : crlfPos (buf.drop offset) = some pos) :
    asciiRound buf offset
      = .ok (match OmsModbus.decodeAsciiLine ((buf.drop offset).take pos) with
        | some (slaveId, pdu) => .inr (some (⟨(), slaveId, pdu⟩, offset + pos + 2))
        | none => .inl (offset + pos + 2)) := by
  have hbits : 2 ^ (usizeBits - 1) * 2 = 2 ^ usizeBits := rfl
  have hlt := crlfPos_lt hpos
  rw [List.length_drop] at hlt
  have hget : getFrom buf offset = some (buf.drop offset) := if_pos hoffset
  have hslice : slice buf offset (offset + pos) = .ok ((buf.drop offset).take pos) := by
    rw [slice_eq (by omega) (by omega), List.drop_take, Nat.add_sub_cancel_left]
  unfold asciiRound
  rw [hget]
  simp only [hpos]
  -- the line lies in the buffer, so no sum leaves the words
  refine bind_eq (add_eq (by omega)) (bind_eq (add_eq (by omega)) ?_)
  refine bind_eq (sub_eq (by omega)) (bind_eq hslice (bind_eq (decodeAsciiLine_eq _) ?_))
  cases OmsModbus.decodeAsciiLine ((buf.drop offset).take pos) <;> rfl

/-- **One round of the loop over the lines** does not panic; it finds what there is to be found, or
leaves a line behind. -/
theorem asciiRound_cases {buf : Bytes} (hfits : buf.length < 2 ^ (usizeBits - 1)) {offset : ℕ}
    (hoffset : offset ≤ buf.length) :
    asciiRound buf offset
        = .ok (.inr (tryParseAsciiFrom (buf.length + 1) offset (buf.drop offset))) ∨
      ∃ lineEnd, asciiRound buf offset = .ok (.inl lineEnd) ∧ lineEnd ≤ buf.length ∧
        buf.length - lineEnd < buf.length - offset ∧
        tryParseAsciiFrom (buf.length + 1) lineEnd (buf.drop lineEnd)
          = tryParseAsciiFrom (buf.length + 1) offset (buf.drop offset) := by
  rw [tryParseAsciiFrom]
  cases hpos : crlfPos (buf.drop offset) with
  | none =>
      have hget : getFrom buf offset = some (buf.drop offset) := if_pos hoffset
      unfold asciiRound
      rw [hget]
      simp only [hpos]
      exact .inl rfl
  | some pos =>
      have hlt := crlfPos_lt hpos
      rw [List.length_drop] at hlt
      rw [asciiRound_some hfits hoffset hpos]
      simp only
      cases OmsModbus.decodeAsciiLine ((buf.drop offset).take pos) with
      | some p => exact .inl rfl
      | none =>
          refine .inr ⟨offset + pos + 2, rfl, by omega, by omega, ?_⟩
          rw [List.drop_drop, Nat.add_assoc]
          refine tryParseAsciiFrom_of_le ?_ ?_
          · rw [List.length_drop]
            omega
          · rw [List.length_drop]
            omega

theorem tryParseAscii_eq {buf : Bytes} (hfits : buf.length < 2 ^ (usizeBits - 1)) {fuel : ℕ}
    (hfuel : buf.length < fuel) :
    tryParseAscii fuel buf = .ok (OmsModbus.tryParseAscii buf) := by
  have hloop : tryParseAscii fuel buf
      = .ok (tryParseAsciiFrom (buf.length + 1) 0 (buf.drop 0)) :=
    runLoop_eq (· ≤ buf.length) (buf.length - ·)
      (fun _ hoffset => asciiRound_cases hfits hoffset) (Nat.zero_le _) hfuel
  rw [hloop, List.drop_zero]
  exact congrArg _ (tryParseAsciiFrom_of_le (Nat.le_succ _) le_rfl)

section Servers

variable {τ σ : Type} {parse : Bytes → Checked (Option (RawRequest τ × ℕ))} {P : Protocol τ}
  {service : Service σ} {writeOk : ℕ → Bool}

/-- A round that finds a request. -/
theorem serveRound_some {s : ServerLoop τ σ} {x : RawRequest τ} {consumed : ℕ}
    (hparse : parse s.buf = .ok (some (x, consumed))) (hle : consumed ≤ s.buf.length) :
    serveRound parse P service writeOk s
      = .ok (if (ServerLoop.serve P service writeOk (s.setBuf (s.buf.drop consumed)) x).running then
          .inl (ServerLoop.serve P service writeOk (s.setBuf (s.buf.drop consumed)) x)
        else .inr (ServerLoop.serve P service writeOk (s.setBuf (s.buf.drop consumed)) x)) :=
  bind_eq hparse (bind_eq (advance_eq hle) rfl)

/-- One round of the loop of a server does not panic when the parser does not; the loop is over, or
the buffer has become shorter. -/
theorem serveRound_cases {s : ServerLoop τ σ} (hparse : parse s.buf = .ok (P.parse s.buf)) :
    serveRound parse P service writeOk s
        = .ok (.inr (OmsModbus.serveBuffer P service writeOk s)) ∨
      ∃ s', serveRound parse P service writeOk s = .ok (.inl s') ∧ s'.buf.length < s.buf.length ∧
        OmsModbus.serveBuffer P service writeOk s' = OmsModbus.serveBuffer P service writeOk s := by
  cases hp : P.parse s.buf with
  | none =>
      rw [serveBuffer_none hp]
      exact .inl (bind_eq (hparse.trans (congrArg _ hp)) rfl)
  | some parsed =>
      obtain ⟨x, consumed⟩ := parsed
      have hpos := P.pos hp
      have hle := P.le hp
      have hlen : (ServerLoop.serve P service writeOk
          (s.setBuf (s.buf.drop consumed)) x).buf.length < s.buf.length := by
        rw [ServerLoop.serve_buf, ServerLoop.setBuf_buf, List.length_drop]
        omega
      rw [serveRound_some (hparse.trans (congrArg _ hp)) hle, serveBuffer_some hp]
      split
      · exact .inr ⟨_, rfl, hlen, rfl⟩
      · exact .inl rfl

/-- **The loop ends when the parser does not panic** on what is left of the buffer. -/
theorem serveBuffer_eq {s : ServerLoop τ σ}
    (hparse : ∀ b : Bytes, b.length ≤ s.buf.length → parse b = .ok (P.parse b)) {fuel : ℕ}
    (hfuel : s.buf.length < fuel) :
    serveBuffer parse P service writeOk fuel s
      = .ok (OmsModbus.serveBuffer P service writeOk s) := by
  refine runLoop_eq (·.buf.length ≤ s.buf.length) (·.buf.length) (fun s' hs' => ?_) le_rfl hfuel
  rcases serveRound_cases (hparse s'.buf hs') with hround | ⟨s'', hround, hlt, heq⟩
  · exact .inl hround
  · exact .inr ⟨s'', hround, hlt.le.trans hs', hlt, heq⟩

end Servers

end Guarded

/-! ### All parsers -/

/-- A parser of frames and the loop of the server around it, on every buffer that fits in memory:
the parser comes to a result; what it finds takes up some of the bytes that are there, and has a PDU
that is not empty; and the loop ends.  Rounds are bounded by `fuel`, and any number of rounds that
is larger than the buffer is enough. -/
structure PanicFree {τ : Type} (P : Protocol τ)
    (parse : ℕ → Bytes → Checked (Option (RawRequest τ × ℕ))) : Prop where
  parses : ∀ (buf : Slice usizeBits UInt8) (fuel : ℕ), buf.toList.length < fuel →
    parse fuel buf.toList = .ok (P.parse buf.toList)
  progress : ∀ (buf : Slice usizeBits UInt8) (fuel : ℕ) (x : RawRequest τ) (n : ℕ),
    buf.toList.length < fuel → parse fuel buf.toList = .ok (some (x, n)) →
      0 < n ∧ n ≤ buf.toList.length ∧ x.pdu ≠ []
  serves : ∀ {σ : Type} (service : Service σ) (writeOk : ℕ → Bool) (s : ServerLoop τ σ)
    (buf : Slice usizeBits UInt8) (fuel : ℕ), buf.toList.length < fuel →
      Guarded.serveBuffer (parse fuel) P service writeOk fuel (s.setBuf buf.toList)
        = .ok (serveBuffer P service writeOk (s.setBuf buf.toList))

/-- A parser that does not panic makes progress, and the loop around it ends. -/
theorem PanicFree.of_eq {τ : Type} {P : Protocol τ}
    {parse : ℕ → Bytes → Checked (Option (RawRequest τ × ℕ))}
    (hparse : ∀ {buf : Bytes} {fuel : ℕ}, buf.length < 2 ^ (usizeBits - 1) → buf.length < fuel →
      parse fuel buf = .ok (P.parse buf))
    (hpdu : ∀ {buf : Bytes} {x : RawRequest τ} {n : ℕ}, P.parse buf = some (x, n) → x.pdu ≠ []) :
    PanicFree P parse where
  parses := fun buf _ hfuel => hparse buf.fits hfuel
  progress := by
    intro buf fuel x n hfuel h
    rw [hparse buf.fits hfuel] at h
    have hp : P.parse buf.toList = some (x, n) := Except.ok.inj h
    exact ⟨P.pos hp, P.le hp, hpdu hp⟩
  serves := by
    intro σ service writeOk s buf fuel hfuel
    refine Guarded.serveBuffer_eq (fun b hb => ?_) hfuel
    exact hparse (hb.trans_lt buf.fits) (hb.trans_lt hfuel)

theorem tryExtractTcpPdu_pdu_ne_nil {tid : UInt16} {unitId : UInt8} {body : Bytes} {consumed n : ℕ}
    {x : RawRequest UInt16} (h : tryExtractTcpPdu tid unitId body consumed = some (x, n)) :
    x.pdu ≠ [] := by
  unfold tryExtractTcpPdu at h
  split at h
  · cases h
  · split at h
    · next hrep =>
      cases h
      exact hrep.1
    · split at h
      · split at h
        · cases h
        · cases h
          exact List.cons_ne_nil _ _
      · cases h

theorem tryParseTcpFrame_pdu_ne_nil {buf : Bytes} {x : RawRequest UInt16} {n : ℕ}
    (h : tryParseTcpFrame buf = some (x, n)) : x.pdu ≠ [] := by
  have hlengths : ∀ (hdr : MbapHeader) (fls : List ℕ),
      tryFrameLengths hdr buf fls = some (x, n) → x.pdu ≠ [] := by
    intro hdr fls hp
    induction fls with
    | nil => cases hp
    | cons fl fls ih =>
        unfold tryFrameLengths at hp
        split at hp
        · simp only at hp
          split at hp
          · exact ih hp
          · exact tryExtractTcpPdu_pdu_ne_nil hp
        · exact ih hp
  unfold tryParseTcpFrame at h
  split at h
  · cases h
  · split at h
    · cases h
    · exact hlengths _ _ h

theorem tryParseServerRtu_pdu_ne_nil {buf : Bytes} {x : RawRequest Unit} {n : ℕ}
    (h : tryParseServerRtu buf = some (x, n)) : x.pdu ≠ [] := by
  unfold tryParseServerRtu at h
  split at h
  · cases h
  · split at h
    · cases h
    · split at h
      · split at h
        · cases h
        · cases h
          exact List.cons_ne_nil _ _
      · cases h

theorem decodeAsciiLine_pdu_ne_nil {content pdu : Bytes} {slaveId : UInt8}
    (h : decodeAsciiLine content = some (slaveId, pdu)) : pdu ≠ [] := by
  unfold decodeAsciiLine at h
  split at h
  · cases h
  · split at h
    · cases h
    · split at h
      · cases h
      · split at h
        · simp only at h
          split at h
          · split at h
            · cases h
              exact List.cons_ne_nil _ _
            · cases h
          · cases h
        · cases h

theorem tryParseAscii_pdu_ne_nil {buf : Bytes} {x : RawRequest Unit} {n : ℕ}
    (h : tryParseAscii buf = some (x, n)) : x.pdu ≠ [] := by
  unfold tryParseAscii at h
  generalize buf.length = fuel at h
  generalize 0 = offset at h
  induction fuel generalizing offset buf with
  | zero => cases h
  | succ fuel ih =>
      rw [tryParseAsciiFrom] at h
      split at h
      · cases h
      · simp only at h
        split at h
        · next hline =>
          cases h
          exact decodeAsciiLine_pdu_ne_nil hline
        · exact ih _ h

/-- **No parser panics, and all loops end**: the frame parsers of the three servers with their
loops, the test of a TCP header, and the decoders of PDUs. -/
theorem parsers_panicFree (cfg : TcpConfig) :
    PanicFree (tcpProtocol cfg) (fun _ => Guarded.tryParseTcpFrame) ∧
      PanicFree rtuProtocol (fun _ => Guarded.tryParseServerRtu) ∧
      PanicFree asciiProtocol Guarded.tryParseAscii ∧
      (∀ buf : Slice usizeBits UInt8,
        Guarded.isTcpHeaderCorrupt buf.toList = .ok (isTcpHeaderCorrupt buf.toList)) ∧
      (∀ buf : Slice usizeBits UInt8,
        (Guarded.requestTryFrom buf.toList).run = .ok (Request.tryFrom buf.toList)) ∧
      (∀ buf : Slice usizeBits UInt8,
        (Guarded.responseTryFrom buf.toList).run = .ok (Response.tryFrom buf.toList)) := by
  refine ⟨?_, ?_, ?_, ?_, ?_, ?_⟩
  · exact .of_eq (fun _ _ => Guarded.tryParseTcpFrame_eq _) tryParseTcpFrame_pdu_ne_nil
  · exact .of_eq (fun _ _ => Guarded.tryParseServerRtu_eq _) tryParseServerRtu_pdu_ne_nil
  · exact .of_eq (fun hfits hfuel => Guarded.tryParseAscii_eq hfits hfuel) tryParseAscii_pdu_ne_nil
  · exact fun buf => Guarded.isTcpHeaderCorrupt_eq buf.toList
  · exact fun buf => Guarded.requestTryFrom_eq buf.toList
  · exact fun buf => Guarded.responseTryFrom_eq buf.toList

end OmsModbus
