/-
**A frame that cannot be served, and the frame behind it.**

The server keeps what its parser cannot use and throws it away only when the header is corrupt.
A whole frame whose body is neither a request nor looks like one — an unknown function code, or a
function code equal to the unit id in front of a malformed request — is neither used nor thrown
away: it stays at the front of the buffer, and the next frame is added behind it.  This module
says which frames these are, on the level of the parser and on the level of the connection.

Main definitions:

* `OmsModbus.Readable` — the bodies the parser can use;
* `OmsModbus.ReadsAs` — the request a body is read as;
* `OmsModbus.Incomplete` — a buffer that ends before the frame its header announces;
* `OmsModbus.selectedBody` — the body the parser looks at.

Main results:

* `OmsModbus.tryExtractTcpPdu_isSome_iff` — the parser uses exactly the readable bodies;
* `OmsModbus.tcp_recovery_iff` — **when the parser's silence means an incomplete frame, and when a
  request behind a whole frame is served**.
-/

import OmsModbus.TcpStream

set_option relaxedAutoImplicit false
set_option autoImplicit false

namespace OmsModbus

open Words StreamFraming

/-! ### Readable bodies -/

/-- The bodies the parser can use: a repeated unit id and a request, or a known function code that
differs from the unit id or starts a request. -/
def Readable (unitId : UInt8) (body : Bytes) : Prop :=
  ∃ b t, body = b :: t ∧
    ((b = unitId ∧ ∃ q, Request.tryFrom t = .ok q) ∨
      (isKnownFunctionCode b = true ∧ (b ≠ unitId ∨ ∃ q, Request.tryFrom body = .ok q)))

/-- The request a body is read as: behind a repeated unit id if possible, else from its start. -/
def ReadsAs (unitId : UInt8) (body : Bytes) (q : Request) : Prop :=
  ∃ b t, body = b :: t ∧
    ((b = unitId ∧ Request.tryFrom t = .ok q) ∨
      (¬ (b = unitId ∧ ∃ q', Request.tryFrom t = .ok q') ∧ Request.tryFrom body = .ok q))

/-- The test of the parser for a repeated unit id. -/
theorem echo_iff {b unitId : UInt8} {t : Bytes} :
    (t ≠ [] ∧ b = unitId ∧ isKnownFunctionCode (t.headD 0) = true ∧
        (Request.tryFrom t).isOk = true) ↔ b = unitId ∧ ∃ q, Request.tryFrom t = .ok q := by
  rw [Request.isOk_tryFrom]
  constructor
  · rintro ⟨-, hb, -, hq⟩
    exact ⟨hb, hq⟩
  · rintro ⟨hb, q, hq⟩
    cases t with
    | nil => cases hq
    | cons fc data => exact ⟨by simp, hb, Request.isKnown_of_tryFrom hq, q, hq⟩

/-- All the parser can do with a body. -/
theorem tryExtractTcpPdu_cons {tid : UInt16} {unitId b : UInt8} {t : Bytes} {n m : ℕ}
    {x : RawRequest UInt16} :
    tryExtractTcpPdu tid unitId (b :: t) n = some (x, m) ↔ m = n ∧
      (((b = unitId ∧ ∃ q, Request.tryFrom t = .ok q) ∧ x = ⟨tid, unitId, t⟩) ∨
        (¬ (b = unitId ∧ ∃ q, Request.tryFrom t = .ok q) ∧ isKnownFunctionCode b = true ∧
          (b ≠ unitId ∨ ∃ q, Request.tryFrom (b :: t) = .ok q) ∧ x = ⟨tid, unitId, b :: t⟩)) := by
  rw [tryExtractTcpPdu]
  by_cases hecho : b = unitId ∧ ∃ q, Request.tryFrom t = .ok q
  · rw [if_pos (echo_iff.2 hecho)]
    constructor
    · intro h
      cases h
      exact ⟨rfl, .inl ⟨hecho, by rw [hecho.1]⟩⟩
    · rintro ⟨rfl, ⟨-, rfl⟩ | ⟨h, -⟩⟩
      · rw [hecho.1]
      · exact absurd hecho h
  · rw [if_neg (mt echo_iff.1 hecho)]
    by_cases hknown : isKnownFunctionCode b = true
    · rw [if_pos hknown]
      by_cases hbad : b = unitId ∧ ¬ (Request.tryFrom (b :: t)).isOk = true
      · rw [if_pos hbad]
        rw [Request.isOk_tryFrom] at hbad
        constructor
        · intro h
          cases h
        · rintro ⟨-, ⟨h, -⟩ | ⟨-, -, h | h, -⟩⟩
          · exact absurd h hecho
          · exact absurd hbad.1 h
          · exact absurd h hbad.2
      · rw [if_neg hbad]
        rw [Request.isOk_tryFrom] at hbad
        constructor
        · intro h
          cases h
          exact ⟨rfl, .inr ⟨hecho, hknown, by tauto, rfl⟩⟩
        · rintro ⟨rfl, ⟨h, -⟩ | ⟨-, -, -, rfl⟩⟩
          · exact absurd h hecho
          · rfl
    · rw [if_neg hknown]
      constructor
      · intro h
        cases h
      · rintro ⟨-, ⟨h, -⟩ | ⟨-, h, -⟩⟩
        · exact absurd h hecho
        · exact absurd h hknown

/-- **The parser uses exactly the readable bodies.** -/
theorem tryExtractTcpPdu_isSome_iff {tid : UInt16} {unitId : UInt8} {body : Bytes} {n : ℕ} :
    (∃ x, tryExtractTcpPdu tid unitId body n = some (x, n)) ↔ Readable unitId body := by
  cases body with
  | nil =>
      constructor
      · rintro ⟨x, h⟩
        cases h
      · rintro ⟨b, t, h, -⟩
        cases h
  | cons b t =>
      constructor
      · rintro ⟨x, h⟩
        rcases (tryExtractTcpPdu_cons.1 h).2 with ⟨h, -⟩ | ⟨-, hknown, h, -⟩
        · exact ⟨b, t, rfl, .inl h⟩
        · exact ⟨b, t, rfl, .inr ⟨hknown, h⟩⟩
      · rintro ⟨b', t', heq, h⟩
        obtain ⟨rfl, rfl⟩ : b = b' ∧ t = t' := by simpa using heq
        by_cases hecho : b = unitId ∧ ∃ q, Request.tryFrom t = .ok q
        · exact ⟨_, tryExtractTcpPdu_cons.2 ⟨rfl, .inl ⟨hecho, rfl⟩⟩⟩
        · rcases h with h | ⟨hknown, h⟩
          · exact absurd h hecho
          · exact ⟨_, tryExtractTcpPdu_cons.2 ⟨rfl, .inr ⟨hecho, hknown, h, rfl⟩⟩⟩

theorem tryExtractTcpPdu_eq_none_iff {tid : UInt16} {unitId : UInt8} {body : Bytes} {n : ℕ} :
    tryExtractTcpPdu tid unitId body n = none ↔ ¬ Readable unitId body := by
  rw [← @tryExtractTcpPdu_isSome_iff tid unitId body n]
  cases h : tryExtractTcpPdu tid unitId body n with
  | none => simp
  | some r =>
      obtain ⟨x, m⟩ := r
      obtain ⟨rfl, -⟩ := tryExtractTcpPdu_eq_some h
      simp

theorem RawRequest.dispatch_eq_some {τ : Type} {x : RawRequest τ} {slave : UInt8} {q : Request} :
    x.dispatch = some (slave, q) ↔
      slave ≠ 0 ∧ x.slaveId = slave ∧ Request.tryFrom x.pdu = .ok q := by
  unfold RawRequest.dispatch
  by_cases hz : x.slaveId = 0
  · simp only [hz, if_true]
    constructor
    · intro h
      cases h
    · rintro ⟨hne, heq, -⟩
      exact absurd heq.symm hne
  · rw [if_neg hz]
    cases Request.tryFrom x.pdu with
    | error e => simp
    | ok r =>
        simp only [Option.some.injEq, Prod.mk.injEq, Except.ok.injEq]
        constructor
        · rintro ⟨rfl, rfl⟩
          exact ⟨hz, rfl, rfl⟩
        · rintro ⟨-, h⟩
          exact h

/-- A request the parser finds goes to the unit of the header, and is what the body reads as. -/
theorem tryExtractTcpPdu_dispatch {tid : UInt16} {unitId : UInt8} {body : Bytes} {n m : ℕ}
    {x : RawRequest UInt16} (h : tryExtractTcpPdu tid unitId body n = some (x, m)) {slave : UInt8}
    {q : Request} :
    x.dispatch = some (slave, q) ↔ slave ≠ 0 ∧ unitId = slave ∧ ReadsAs unitId body q := by
  rw [RawRequest.dispatch_eq_some]
  cases body with
  | nil => cases h
  | cons b t =>
      have hreads : ReadsAs unitId (b :: t) q ↔ Request.tryFrom x.pdu = .ok q := by
        constructor
        · rintro ⟨b', t', heq, hq⟩
          obtain ⟨rfl, rfl⟩ : b = b' ∧ t = t' := by simpa using heq
          rcases (tryExtractTcpPdu_cons.1 h).2 with ⟨hecho, rfl⟩ | ⟨hecho, -, -, rfl⟩
          · rcases hq with ⟨-, hq⟩ | ⟨hno, -⟩
            · exact hq
            · exact absurd hecho hno
          · rcases hq with ⟨hb, hq⟩ | ⟨-, hq⟩
            · exact absurd ⟨hb, q, hq⟩ hecho
            · exact hq
        · intro hq
          rcases (tryExtractTcpPdu_cons.1 h).2 with ⟨hecho, rfl⟩ | ⟨hecho, -, -, rfl⟩
          · exact ⟨b, t, rfl, .inl ⟨hecho.1, hq⟩⟩
          · exact ⟨b, t, rfl, .inr ⟨hecho, hq⟩⟩
      have hunit : x.slaveId = unitId := by
        rcases (tryExtractTcpPdu_cons.1 h).2 with ⟨-, rfl⟩ | ⟨-, -, -, rfl⟩ <;> rfl
      rw [hreads, hunit]

/-! ### The parser's silence -/

/-- A buffer that ends before the frame its header announces does; also one without a whole
header. -/
def Incomplete (buf : Bytes) : Prop :=
  ∀ h, readMbapHeader buf = some h → buf.length < MBAP_PREFIX_SIZE + h.payloadLen

/-- The body the parser looks at: of the two lengths the header may mean, the longer if the buffer
is that long. -/
def selectedBody (h : MbapHeader) (buf : Bytes) : Bytes :=
  if MBAP_HEADER_SIZE + h.payloadLen ≤ buf.length then
    (buf.drop MBAP_HEADER_SIZE).take h.payloadLen
  else (buf.drop MBAP_HEADER_SIZE).take (h.payloadLen - 1)

/-- A buffer is too short for a header, or starts with one. -/
theorem buffer_cases (buf : Bytes) :
    (buf.length < 7 ∧ readMbapHeader buf = none) ∨
      ∃ h data, readMbapHeader buf = some h ∧ buf.length = 7 + data.length ∧ h.payloadLen < 65536 ∧
        (h.protoId = 0 → buf = mbap h.tid h.payloadLen h.unitId ++ data) := by
  match buf with
  | t₁ :: t₀ :: p₁ :: p₀ :: l₁ :: l₀ :: u :: data =>
      refine .inr ⟨_, data, rfl, by simp; omega, UInt16.toNat_lt _, ?_⟩
      intro hproto
      have hproto : fromBeBytes p₁ p₀ = 0 := hproto
      have hp : toBeBytes 0 = [p₁, p₀] := by rw [← hproto, toBeBytes_fromBeBytes]
      simp only [mbap, hp, UInt16.ofNat_toNat, toBeBytes_fromBeBytes, List.cons_append,
        List.nil_append]
  | [] | [_] | [_, _] | [_, _, _] | [_, _, _, _] | [_, _, _, _, _] | [_, _, _, _, _, _] =>
      exact .inl ⟨by simp, rfl⟩

/-- **When the parser's silence means an incomplete frame.** -/
theorem parse_silence_iff (buf : Bytes) :
    (tryParseTcpFrame buf = none ∧ isTcpHeaderCorrupt buf = false → Incomplete buf) ↔
      Incomplete buf ∨ isTcpHeaderCorrupt buf = true ∨
        ∃ h, readMbapHeader buf = some h ∧ Readable h.unitId (selectedBody h buf) := by
  rcases buffer_cases buf with ⟨hshort, hread⟩ | ⟨h, data, hread, hlen, hpay, hbuf⟩
  · have hinc : Incomplete buf := by
      intro h hh
      rw [hread] at hh
      cases hh
    simp [hinc]
  · by_cases hinc : Incomplete buf
    · simp [hinc]
    · by_cases hcorrupt : isTcpHeaderCorrupt buf = true
      · simp [hcorrupt]
      · have hrange : h.protoId = 0 ∧ 1 ≤ h.payloadLen ∧ h.payloadLen ≤ 260 := by
          simp only [isTcpHeaderCorrupt, hread, MAX_TCP_ADU_SIZE, Bool.or_eq_true, not_or,
            bne_iff_ne, ne_eq, not_not, Bool.not_eq_true, Bool.not_eq_false'] at hcorrupt
          exact ⟨hcorrupt.1, of_decide_eq_true hcorrupt.2⟩
        have hlong : h.payloadLen ≤ data.length + 1 := by
          by_contra hlt
          refine hinc fun h' hh' => ?_
          rw [hread] at hh'
          cases hh'
          rw [MBAP_PREFIX_SIZE]
          omega
        have hbuf := hbuf hrange.1
        have hdrop : buf.drop MBAP_HEADER_SIZE = data := by
          rw [hbuf]
          rfl
        have hnone : tryParseTcpFrame buf = none ↔ ¬ Readable h.unitId (selectedBody h buf) := by
          have hsel : selectedBody h buf = if h.payloadLen ≤ data.length then
              data.take h.payloadLen else data.take (h.payloadLen - 1) := by
            rw [selectedBody, hdrop, hlen, MBAP_HEADER_SIZE]
            by_cases hle : h.payloadLen ≤ data.length
            · rw [if_pos hle, if_pos (by omega)]
            · rw [if_neg hle, if_neg (by omega)]
          rw [hsel, hbuf, tryParseTcpFrame_mbap hrange.2.2]
          by_cases hlonger : h.payloadLen ≤ data.length
          · rw [if_pos ⟨hrange.2.1, hlonger⟩, if_pos hlonger, tryExtractTcpPdu_eq_none_iff]
          · rw [if_neg fun hc => hlonger hc.2, if_neg hlonger]
            by_cases hone : 1 < h.payloadLen
            · rw [if_pos ⟨hone, by omega⟩, tryExtractTcpPdu_eq_none_iff]
            · -- a length of one announces an empty body
              rw [if_neg fun hc => hone hc.1, show h.payloadLen - 1 = 0 by omega, List.take_zero]
              simp [Readable]
        rw [hnone]
        simp [hcorrupt, hinc, hread]

/-! ### The next frame -/

/-- A whole frame of the standard mode, with any unit id and any body. -/
def wholeFrame (tid : UInt16) (unitId : UInt8) (body : Bytes) : Bytes :=
  mbap tid (body.length + 1) unitId ++ body

section NextFrame

variable {tid : UInt16} {unitId : UInt8} {body : Bytes}

theorem parse_wholeFrame (hpos : 0 < body.length) (hlen : body.length ≤ 249) :
    tryParseTcpFrame (wholeFrame tid unitId body)
      = tryExtractTcpPdu tid unitId body (7 + body.length) := by
  rw [wholeFrame, tryParseTcpFrame_mbap (by omega), if_neg (by omega), if_pos (by omega),
    Nat.add_sub_cancel, List.take_length]
  congr 1
  omega

theorem parse_wholeFrame_cons (hlen : body.length ≤ 249) (x : UInt8) (s : Bytes) :
    tryParseTcpFrame (wholeFrame tid unitId body ++ x :: s)
      = tryExtractTcpPdu tid unitId (body ++ [x]) (8 + body.length) := by
  have htake : (body ++ x :: s).take (body.length + 1) = body ++ [x] := by
    simp [List.take_append]
  rw [wholeFrame, List.append_assoc, tryParseTcpFrame_mbap (by omega), if_pos (by simp), htake]
  congr 1
  omega

theorem discard_wholeFrame (hpos : 0 < body.length) (hlen : body.length ≤ 249) {s : Bytes}
    (hs : s.length ≤ 260) : tcpDiscard (wholeFrame tid unitId body ++ s) = false := by
  rw [tcpDiscard, wholeFrame, List.append_assoc, isTcpHeaderCorrupt_mbap (by omega)]
  simp [MAX_TCP_BUF_BYTES]
  omega

/-- A frame that lacks its first byte looks corrupt and is thrown away. -/
theorem feed_shifted (r : TcpRequest) {x : UInt8} {s : Bytes} (h : r.frame .standard = x :: s) :
    tryParseTcpFrame s = none ∧ tcpDiscard s = true := by
  have h5 := r.five_le_pdu_length
  have hlen := r.pdu_length_le
  obtain ⟨fc, data, hpdu, -⟩ := r.exists_cons
  have hn : (UInt8.ofNat (r.pdu.length + 1)).toNat = r.pdu.length + 1 := by
    rw [UInt8.toNat_ofNat']
    omega
  have hbig : (fromBeBytes (UInt8.ofNat (r.pdu.length + 1)) r.unitId).toNat > 260 := by
    rw [toNat_fromBeBytes, hn]
    omega
  -- the length field of the shifted header is made of the length and the unit id
  have hread : ∃ h', readMbapHeader s = some h' ∧ h'.payloadLen > 260 := by
    rw [r.frame_standard, mbap, toBeBytes_ofNat_of_lt (by omega)] at h
    generalize UInt8.ofNat (r.pdu.length + 1) = l at h hbig
    rw [hpdu] at h
    simp only [toBeBytes, List.cons_append, List.nil_append, List.cons.injEq] at h
    obtain ⟨-, rfl⟩ := h
    exact ⟨_, rfl, hbig⟩
  obtain ⟨h', hread, hbig'⟩ := hread
  constructor
  · simp only [tryParseTcpFrame, hread]
    exact if_pos (.inr hbig')
  · have hout : ¬ (1 ≤ h'.payloadLen ∧ h'.payloadLen ≤ MAX_TCP_ADU_SIZE) := by
      rw [MAX_TCP_ADU_SIZE]
      omega
    simp only [tcpDiscard, isTcpHeaderCorrupt, hread, decide_eq_false hout, Bool.not_false,
      Bool.or_true, Bool.true_or]

/-- A frame with a readable body is handed on. -/
theorem feed_readable (hpos : 0 < body.length) (hlen : body.length ≤ 249)
    (h : Readable unitId body) :
    ∃ x, tcpFramer.feed tcpDiscard [] (wholeFrame tid unitId body) = ([x], []) := by
  obtain ⟨x, hx⟩ := (@tryExtractTcpPdu_isSome_iff tid unitId body (7 + body.length)).2 h
  have hp : tcpFramer.parse (wholeFrame tid unitId body) = some (x, 7 + body.length) := by
    rw [← hx]
    exact parse_wholeFrame hpos hlen
  have hdrop : (wholeFrame tid unitId body).drop (7 + body.length) = [] :=
    List.drop_of_length_le (by simp [wholeFrame])
  have hnil : tcpFramer.parse [] = none := rfl
  refine ⟨x, ?_⟩
  rw [Framer.feed, List.nil_append, tcpFramer.drain_some hp, hdrop, tcpFramer.drain_none hnil]
  simp

/-- A frame with another body stays in the buffer. -/
theorem feed_unreadable (hpos : 0 < body.length) (hlen : body.length ≤ 249)
    (h : ¬ Readable unitId body) :
    tcpFramer.feed tcpDiscard [] (wholeFrame tid unitId body)
      = ([], wholeFrame tid unitId body) := by
  have hp : tcpFramer.parse (wholeFrame tid unitId body) = none := by
    rw [← tryExtractTcpPdu_eq_none_iff.2 h]
    exact parse_wholeFrame hpos hlen
  have hd := @discard_wholeFrame tid unitId body hpos hlen [] (by simp)
  rw [List.append_nil] at hd
  exact tcpFramer.feed_of_parse_none _ hp hd

/-- Behind such a frame the next one is read with its first byte as the last of the body before. -/
theorem feed_behind (hlen : body.length ≤ 249) (r : TcpRequest)
    {x : UInt8} {s : Bytes} (h : r.frame .standard = x :: s) :
    (tcpFramer.feed tcpDiscard (wholeFrame tid unitId body) (r.frame .standard)).1
      = ((tryExtractTcpPdu tid unitId (body ++ [x]) (8 + body.length)).map Prod.fst).toList := by
  have hp := @parse_wholeFrame_cons tid unitId body hlen x s
  have hr := r.frame_length .standard
  have hrlen := r.pdu_length_le
  rw [← h] at hp
  cases hx : tryExtractTcpPdu tid unitId (body ++ [x]) (8 + body.length) with
  | none =>
      have hnone : tcpFramer.parse (wholeFrame tid unitId body ++ r.frame .standard) = none :=
        hp.trans hx
      rw [Framer.feed, tcpFramer.drain_none hnone]
      rfl
  | some y =>
      obtain ⟨y, n⟩ := y
      obtain ⟨rfl, -⟩ := tryExtractTcpPdu_eq_some hx
      have hsome : tcpFramer.parse (wholeFrame tid unitId body ++ r.frame .standard)
          = some (y, 8 + body.length) := hp.trans hx
      have hdrop :
          (wholeFrame tid unitId body ++ r.frame .standard).drop (8 + body.length) = s := by
        rw [h, List.append_cons]
        exact List.drop_left' (by simp [wholeFrame]; omega)
      have hrest : tcpFramer.parse s = none := (feed_shifted r h).1
      rw [Framer.feed, tcpFramer.drain_some hsome, hdrop, tcpFramer.drain_none hrest]
      rfl

end NextFrame

/-- The request `r`, read behind a whole frame with the given body, is handed to the service. -/
def ServedNext {σ : Type} (service : Service σ) (cfg : TcpConfig) (store : σ) (tid : UInt16)
    (unitId : UInt8) (body : Bytes) (r : TcpRequest) : Prop :=
  let s₁ := handleTcpConnection service cfg (fun _ => true) (.idle store)
    [.ok (wholeFrame tid unitId body)]
  let s₂ := handleTcpConnection service cfg (fun _ => true) s₁ [.ok (r.frame .standard)]
  ∃ xs, s₂.requests = s₁.requests ++ xs ∧ ∃ x ∈ xs, x.dispatch = some (r.unitId, r.req)

/-- What is handed on in the second read. -/
theorem servedNext_iff_feed {σ : Type} (service : Service σ) (cfg : TcpConfig) (store : σ)
    (tid : UInt16) (unitId : UInt8) (body : Bytes) (r : TcpRequest) :
    ServedNext service cfg store tid unitId body r ↔
      ∃ x ∈ (tcpFramer.feed tcpDiscard
          (tcpFramer.feed tcpDiscard [] (wholeFrame tid unitId body)).2 (r.frame .standard)).1,
        x.dispatch = some (r.unitId, r.req) := by
  have hne : wholeFrame tid unitId body ≠ [] := by simp [wholeFrame, mbap, toBeBytes]
  have hw : ∀ k : ℕ, (fun _ => true) k = true := fun _ => rfl
  have hidle : (ServerLoop.idle store : ServerLoop UInt16 σ).running = true := rfl
  obtain ⟨-, hbuf, hrun⟩ := onTcpRead_fields service cfg hw hidle hne
  obtain ⟨hsecond, -, -⟩ :=
    onTcpRead_fields service cfg hw hrun (r.frame_ne_nil .standard)
  rw [hbuf] at hsecond
  constructor
  · rintro ⟨xs, hxs, h⟩
    have heq := List.append_cancel_left (hxs.symm.trans hsecond)
    rw [heq] at h
    exact h
  · intro h
    exact ⟨_, hsecond, h⟩

theorem servedNext_iff {σ : Type} (service : Service σ) (cfg : TcpConfig) (store : σ)
    (tid : UInt16) (unitId : UInt8) (body : Bytes) (r : TcpRequest) (hpos : 0 < body.length)
    (hlen : body.length ≤ 249) :
    ServedNext service cfg store tid unitId body r ↔
      r.unitId ≠ 0 ∧ (Readable unitId body ∨ (unitId = r.unitId ∧
        ReadsAs unitId (body ++ (r.frame .standard).take 1) r.req)) := by
  rw [servedNext_iff_feed]
  by_cases hread : Readable unitId body
  · obtain ⟨x, hx⟩ := @feed_readable tid unitId body hpos hlen hread
    rw [hx, feed_standard_whole r (List.nil_append _)]
    simp [RawRequest.dispatch_eq_some, TcpRequest.raw, r.decoded, hread]
  · obtain ⟨x, s, hf⟩ := List.exists_cons_of_ne_nil (r.frame_ne_nil .standard)
    have htake : (r.frame .standard).take 1 = [x] := by rw [hf]; rfl
    rw [feed_unreadable hpos hlen hread, feed_behind hlen r hf, htake]
    cases hp : tryExtractTcpPdu tid unitId (body ++ [x]) (8 + body.length) with
    | none =>
        -- nothing is found, so nothing is read either
        have hno := tryExtractTcpPdu_eq_none_iff.1 hp
        simp only [Option.map_none, Option.toList_none, List.not_mem_nil, false_and, exists_false,
          false_iff]
        rintro ⟨-, h | ⟨-, b, t, heq, h⟩⟩
        · exact hread h
        · refine hno ⟨b, t, heq, ?_⟩
          rcases h with ⟨hb, hq⟩ | ⟨-, hq⟩
          · exact .inl ⟨hb, _, hq⟩
          · refine .inr ⟨?_, .inr ⟨_, hq⟩⟩
            rw [heq] at hq
            exact Request.isKnown_of_tryFrom hq
    | some y =>
        obtain ⟨y, n⟩ := y
        simp [tryExtractTcpPdu_dispatch hp, hread]

/-! ### Recovery -/

/-- **When the parser's silence means an incomplete frame, and when a request behind a whole frame
is served.**  The second part is about a whole frame with a body of 1 to 249 bytes that arrives in
one read, and a valid request that arrives in the next. -/
theorem tcp_recovery_iff (buf : Bytes) {σ : Type} (service : Service σ) (cfg : TcpConfig)
    (store : σ) (tid : UInt16) (unitId : UInt8) (body : Bytes) (r : TcpRequest)
    (hpos : 0 < body.length) (hlen : body.length ≤ 249) :
    ((tryParseTcpFrame buf = none ∧ isTcpHeaderCorrupt buf = false → Incomplete buf) ↔
      Incomplete buf ∨ isTcpHeaderCorrupt buf = true ∨
        ∃ h, readMbapHeader buf = some h ∧ Readable h.unitId (selectedBody h buf)) ∧
    (ServedNext service cfg store tid unitId body r ↔
      r.unitId ≠ 0 ∧ (Readable unitId body ∨ (unitId = r.unitId ∧
        ReadsAs unitId (body ++ (r.frame .standard).take 1) r.req))) :=
  ⟨parse_silence_iff buf, servedNext_iff service cfg store tid unitId body r hpos hlen⟩

/-- A frame with the unknown function code `0x46`, and a request behind it. -/
theorem tcp_recovery_iff_unknown :
    ((tryParseTcpFrame (wholeFrame 1 1 [0x46, 0]) = none ∧
        isTcpHeaderCorrupt (wholeFrame 1 1 [0x46, 0]) = false →
        Incomplete (wholeFrame 1 1 [0x46, 0])) ↔
      Incomplete (wholeFrame 1 1 [0x46, 0]) ∨
        isTcpHeaderCorrupt (wholeFrame 1 1 [0x46, 0]) = true ∨
        ∃ h, readMbapHeader (wholeFrame 1 1 [0x46, 0]) = some h ∧
          Readable h.unitId (selectedBody h (wholeFrame 1 1 [0x46, 0]))) ∧
    (ServedNext refusing .standard () 1 1 [0x46, 0] (.readOne 2) ↔
      (TcpRequest.readOne 2).unitId ≠ 0 ∧ (Readable 1 [0x46, 0] ∨
        (1 = (TcpRequest.readOne 2).unitId ∧
          ReadsAs 1 ([0x46, 0] ++ ((TcpRequest.readOne 2).frame .standard).take 1)
            (TcpRequest.readOne 2).req))) :=
  tcp_recovery_iff (wholeFrame 1 1 [0x46, 0]) refusing .standard () 1 1 [0x46, 0] (.readOne 2)
    (by decide) (by decide)

/-- A whole frame with an unknown function code blocks the request behind it, and the parser is
silent on it although it is whole. -/
theorem tcp_wedged :
    ¬ ServedNext refusing .standard () 1 1 [0x46, 0] (.readOne 2) ∧
      tryParseTcpFrame (wholeFrame 1 1 [0x46, 0]) = none ∧
      isTcpHeaderCorrupt (wholeFrame 1 1 [0x46, 0]) = false ∧
      ¬ Incomplete (wholeFrame 1 1 [0x46, 0]) := by
  refine ⟨?_, rfl, rfl, ?_⟩
  · intro h
    rw [servedNext_iff_feed] at h
    obtain ⟨x, hx, -⟩ := h
    have hnone : (tcpFramer.feed tcpDiscard
        (tcpFramer.feed tcpDiscard [] (wholeFrame 1 1 [0x46, 0])).2
        ((TcpRequest.readOne 2).frame .standard)).1 = [] := rfl
    rw [hnone] at hx
    cases hx
  · intro h
    exact absurd (h _ rfl) (by decide)

end OmsModbus
