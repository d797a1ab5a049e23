/-
**A stream of TCP frames: how it must be cut to be read.**

A client sends request after request on one connection; the server sees the stream in the chunks
its reads return.  The parser first tries the length that is one byte longer than a frame of the
standard length mode, so a frame is cut wrong as soon as one byte of the next frame is in the
buffer.  In the other length mode it finds the right length, but takes a frame that still lacks its
last byte for a frame of the standard mode.  Both defects depend on the cutting only, and this
module proves that the cuttings described here are exactly the ones the server survives.

Main definitions:

* `OmsModbus.TcpRequest` — a valid request in a plain frame, with its transaction and unit id;
* `OmsModbus.CleanCut` — the cuttings the server reads correctly: in the standard mode every frame
  ends at the end of a read, in the other no read ends one byte before the end of a frame;
* `OmsModbus.EndsAtReads`, `OmsModbus.AvoidsEnds` — the same behind what the buffer holds already;
* `OmsModbus.Delivered` — the server handed on these requests, in order, each once, and has an
  empty buffer.

Main results:

* `OmsModbus.TcpRequest.parse_standard`, `OmsModbus.TcpRequest.parse_pduOnly` — the parser on a
  buffer that starts with a frame;
* `OmsModbus.handleTcpConnection_delivers_iff` — **a stream of requests is delivered exactly when it
  is cut cleanly**.
-/

import OmsModbus.TcpFraming

set_option relaxedAutoImplicit false
set_option autoImplicit false

namespace OmsModbus

open Words StreamFraming

/-! ### Requests in plain frames -/

/-- A valid request with the ids it is sent under: the encoder and the decoder accept it, and its
function code differs from the unit id. -/
structure TcpRequest where
  tid : UInt16
  unitId : UInt8
  req : Request
  pdu : Bytes
  encoded : encodeRequestInto req [] = (.ok (), pdu)
  decoded : Request.tryFrom pdu = .ok req
  distinct : req.functionCode.value ≠ unitId

namespace TcpRequest

/-- The frame of a request, without a repeated unit id. -/
def frame (mode : LengthMode) (r : TcpRequest) : Bytes :=
  encodeTcpFrame (r.unitId :: r.pdu) [] ⟨.fixed 0, false, mode⟩ r.tid

/-- What is to be handed on. -/
def expected (r : TcpRequest) : UInt16 × UInt8 × Except IoError Request :=
  (r.tid, r.unitId, .ok r.req)

/-- What the parser is to find. -/
def raw (r : TcpRequest) : RawRequest UInt16 := ⟨r.tid, r.unitId, r.pdu⟩

theorem pdu_eq (r : TcpRequest) : r.pdu = r.req.pdu := by
  have h := (encodeRequestInto_eq_ok.1 r.encoded).2
  simpa using h

theorem pdu_length_le (r : TcpRequest) : r.pdu.length ≤ 253 := by
  rw [r.pdu_eq]
  exact (encodeRequestInto_eq_ok.1 r.encoded).1

/-- The shortest requests take five bytes. -/
theorem five_le_pdu_length (r : TcpRequest) : 5 ≤ r.pdu.length := by
  rw [r.pdu_eq]
  exact Request.five_le_pdu_length (Request.tryFrom_inRange r.decoded).1

/-- The PDU starts with a known function code other than the unit id. -/
theorem exists_cons (r : TcpRequest) :
    ∃ fc data, r.pdu = fc :: data ∧ isKnownFunctionCode fc = true ∧ fc ≠ r.unitId := by
  have hlen := r.five_le_pdu_length
  have hdec := r.decoded
  cases hp : r.pdu with
  | nil => simp [hp] at hlen
  | cons fc data =>
      rw [hp] at hdec
      refine ⟨fc, data, rfl, Request.isKnown_of_tryFrom hdec, ?_⟩
      rw [Request.tryFrom_head hdec]
      exact r.distinct

theorem frame_standard (r : TcpRequest) :
    r.frame .standard = mbap r.tid (r.pdu.length + 1) r.unitId ++ r.pdu := encodeTcpFrame_eq ..

theorem frame_pduOnly (r : TcpRequest) :
    r.frame .pduOnly = mbap r.tid r.pdu.length r.unitId ++ r.pdu := encodeTcpFrame_eq ..

theorem frame_length (mode : LengthMode) (r : TcpRequest) :
    (r.frame mode).length = 7 + r.pdu.length := by
  cases mode with
  | standard => rw [frame_standard, List.length_append, mbap_length]
  | pduOnly => rw [frame_pduOnly, List.length_append, mbap_length]

theorem frame_ne_nil (mode : LengthMode) (r : TcpRequest) : r.frame mode ≠ [] := by
  rw [← List.length_pos_iff, frame_length]
  omega

/-! ### The parser on a frame -/

/-- A body that starts with the function code is read as it stands, whatever follows. -/
theorem tryExtract (r : TcpRequest) {body : Bytes} (n : ℕ) {fc : UInt8} {data : Bytes}
    (hpdu : r.pdu = fc :: data) (hbody : ∃ d, body = fc :: d) :
    tryExtractTcpPdu r.tid r.unitId body n = some (⟨r.tid, r.unitId, body⟩, n) := by
  obtain ⟨fc', data', hpdu', hknown, hne⟩ := r.exists_cons
  obtain ⟨rfl, rfl⟩ : fc' = fc ∧ data' = data := by
    rw [hpdu'] at hpdu
    simpa using hpdu
  obtain ⟨d, rfl⟩ := hbody
  rw [tryExtractTcpPdu, if_neg, if_pos hknown, if_neg]
  · rintro ⟨h, -⟩
    exact hne h
  · rintro ⟨-, h, -⟩
    exact hne h

/-- A frame of the standard mode that is alone in the buffer. -/
theorem parse_standard (r : TcpRequest) :
    tryParseTcpFrame (r.frame .standard) = some (r.raw, (r.frame .standard).length) := by
  have hlen := r.pdu_length_le
  have h5 := r.five_le_pdu_length
  obtain ⟨fc, data, hpdu, -⟩ := r.exists_cons
  rw [frame_length, frame_standard, tryParseTcpFrame_mbap (by omega), if_neg (by omega),
    if_pos (by omega), Nat.add_sub_cancel, List.take_length,
    r.tryExtract _ hpdu ⟨data, hpdu⟩]
  congr 2
  omega

/-- **A frame of the standard mode with a byte behind it is cut one byte too late.** -/
theorem parse_standard_cons (r : TcpRequest) (x : UInt8) (s : Bytes) :
    tryParseTcpFrame (r.frame .standard ++ x :: s)
      = some (⟨r.tid, r.unitId, r.pdu ++ [x]⟩, (r.frame .standard).length + 1) := by
  have hlen := r.pdu_length_le
  obtain ⟨fc, data, hpdu, -⟩ := r.exists_cons
  have htake : (r.pdu ++ x :: s).take (r.pdu.length + 1) = r.pdu ++ [x] := by
    simp [List.take_append]
  rw [frame_length, frame_standard, List.append_assoc, tryParseTcpFrame_mbap (by omega),
    if_pos (by simp), htake, r.tryExtract _ hpdu ⟨data ++ [x], by simp [hpdu]⟩]
  congr 2

/-- A frame of the other mode is cut at its end, whatever follows. -/
theorem parse_pduOnly (r : TcpRequest) (s : Bytes) :
    tryParseTcpFrame (r.frame .pduOnly ++ s) = some (r.raw, (r.frame .pduOnly).length) := by
  have hlen := r.pdu_length_le
  have h5 := r.five_le_pdu_length
  obtain ⟨fc, data, hpdu, -⟩ := r.exists_cons
  rw [frame_length, frame_pduOnly, List.append_assoc, tryParseTcpFrame_mbap (by omega),
    if_pos (by simp; omega), List.take_left, r.tryExtract _ hpdu ⟨data, hpdu⟩]
  rfl

/-! ### The parser on a part of a frame -/

/-- A proper prefix of a header and a body is shorter than the header, or ends in the body. -/
theorem prefix_cases {tid : UInt16} {len : ℕ} {unitId : UInt8} {pdu q t : Bytes}
    (h : mbap tid len unitId ++ pdu = q ++ t) :
    q.length < 7 ∨ ∃ d, q = mbap tid len unitId ++ d ∧ pdu = d ++ t := by
  rcases List.append_eq_append_iff.1 h with ⟨d, hq, hpdu⟩ | ⟨d, hheader, -⟩
  · exact .inr ⟨d, hq, hpdu⟩
  · by_cases hd : d = []
    · subst hd
      rw [List.append_nil] at hheader
      rw [hheader, List.append_cancel_left_eq] at h
      exact .inr ⟨[], by simp [hheader], by simpa using h⟩
    · have hlen := congrArg List.length hheader
      have hpos := List.length_pos_iff.2 hd
      rw [mbap_length, List.length_append] at hlen
      exact .inl (by omega)

/-- The server keeps a part of a frame in the buffer. -/
theorem discard_prefix (mode : LengthMode) (r : TcpRequest) {q t : Bytes}
    (h : r.frame mode = q ++ t) : tcpDiscard q = false := by
  have hlen := r.pdu_length_le
  have h5 := r.five_le_pdu_length
  have hsize : ¬ q.length > MAX_TCP_BUF_BYTES := by
    have hq := congrArg List.length h
    rw [frame_length, List.length_append] at hq
    rw [MAX_TCP_BUF_BYTES]
    omega
  have hcorrupt : isTcpHeaderCorrupt q = false := by
    cases mode with
    | standard =>
        rw [frame_standard] at h
        rcases prefix_cases h with hshort | ⟨d, rfl, -⟩
        · exact isTcpHeaderCorrupt_of_length_lt hshort
        · rw [isTcpHeaderCorrupt_mbap (by omega)]
          simp
          omega
    | pduOnly =>
        rw [frame_pduOnly] at h
        rcases prefix_cases h with hshort | ⟨d, rfl, -⟩
        · exact isTcpHeaderCorrupt_of_length_lt hshort
        · rw [isTcpHeaderCorrupt_mbap (by omega)]
          simp
          omega
  simp [tcpDiscard, hcorrupt, hsize]

/-- No part of a frame of the standard mode is taken for a frame. -/
theorem parse_standard_prefix (r : TcpRequest) {q t : Bytes} (ht : t ≠ [])
    (h : r.frame .standard = q ++ t) : tryParseTcpFrame q = none := by
  have hlen := r.pdu_length_le
  have hpos := List.length_pos_iff.2 ht
  rw [frame_standard] at h
  rcases prefix_cases h with hshort | ⟨d, rfl, hd⟩
  · exact tryParseTcpFrame_of_length_lt hshort
  · have hsplit := congrArg List.length hd
    rw [List.length_append] at hsplit
    rw [tryParseTcpFrame_mbap (by omega), if_neg (by omega), if_neg (by omega)]

/-- A part of a frame of the other mode is not taken for a frame, unless it lacks one byte. -/
theorem parse_pduOnly_prefix (r : TcpRequest) {q t : Bytes} (ht : t ≠ [])
    (h : r.frame .pduOnly = q ++ t) (hone : q.length + 1 ≠ (r.frame .pduOnly).length) :
    tryParseTcpFrame q = none := by
  have hlen := r.pdu_length_le
  have hpos := List.length_pos_iff.2 ht
  rw [frame_length] at hone
  rw [frame_pduOnly] at h
  rcases prefix_cases h with hshort | ⟨d, rfl, hd⟩
  · exact tryParseTcpFrame_of_length_lt hshort
  · have hsplit := congrArg List.length hd
    rw [List.length_append] at hsplit
    rw [List.length_append, mbap_length] at hone
    rw [tryParseTcpFrame_mbap (by omega), if_neg (by omega), if_neg (by omega)]

/-- **A frame of the other mode that lacks its last byte is taken for a frame.** -/
theorem parse_pduOnly_dropLast (r : TcpRequest) {q t : Bytes} (h : r.frame .pduOnly = q ++ t)
    (hone : q.length + 1 = (r.frame .pduOnly).length) :
    ∃ d x, r.pdu = d ++ [x] ∧ tryParseTcpFrame q = some (⟨r.tid, r.unitId, d⟩, q.length) := by
  have hlen := r.pdu_length_le
  have h5 := r.five_le_pdu_length
  obtain ⟨fc, data, hpdu, -⟩ := r.exists_cons
  have htlen : t.length = 1 := by
    rw [h, List.length_append] at hone
    omega
  obtain ⟨x, rfl⟩ := List.length_eq_one_iff.1 htlen
  rw [frame_length] at hone
  rw [frame_pduOnly] at h
  rcases prefix_cases h with hshort | ⟨d, rfl, hd⟩
  · omega
  · have hsplit := congrArg List.length hd
    rw [List.length_append, List.length_singleton] at hsplit
    obtain ⟨b, d', rfl⟩ : ∃ b d', d = b :: d' := by
      cases d with
      | nil => simp at hsplit; omega
      | cons b d' => exact ⟨b, d', rfl⟩
    have hhead : b = fc := by
      rw [hpdu] at hd
      exact (List.cons.inj hd).1.symm
    refine ⟨b :: d', x, hd, ?_⟩
    rw [tryParseTcpFrame_mbap (by omega), if_neg (by omega), if_pos (by omega),
      List.take_of_length_le (by omega), r.tryExtract _ hpdu ⟨d', by rw [hhead]⟩,
      List.length_append, mbap_length]
    congr 2
    omega

/-- A PDU that lacks its last byte does not decode. -/
theorem tryFrom_dropLast (r : TcpRequest) {d : Bytes} {x : UInt8} (h : r.pdu = d ++ [x]) :
    ∃ e, Request.tryFrom d = .error e := by
  cases hd : Request.tryFrom d with
  | error e => exact ⟨e, rfl⟩
  | ok q =>
      -- it would decode to the same request, which is longer
      have hq := Request.tryFrom_append hd [x]
      rw [← h, r.decoded] at hq
      have hle := Request.pdu_length_le hd
      have heq := r.pdu_eq
      cases hq
      rw [heq] at h
      rw [h, List.length_append, List.length_singleton] at hle
      omega

end TcpRequest

/-! ### Clean cuts -/

/-- The stream of a list of requests. -/
def stream (mode : LengthMode) (rs : List TcpRequest) : Bytes := rs.flatMap (TcpRequest.frame mode)

/-- The cuttings the server reads correctly.  In the standard mode every frame ends at the end of a
read; in the other mode no read ends one byte before the end of a frame. -/
def CleanCut (mode : LengthMode) (rs : List TcpRequest) (reads : List Bytes) : Prop :=
  match mode with
  | .standard => ∀ k < rs.length, ∃ j,
      (reads.take j).flatten.length = (stream .standard (rs.take (k + 1))).length
  | .pduOnly => ∀ k < rs.length, ∀ j,
      (reads.take j).flatten.length + 1 ≠ (stream .pduOnly (rs.take (k + 1))).length

/-- What a request handed on looks like to the request processor. -/
def RawRequest.seen (x : RawRequest UInt16) : UInt16 × UInt8 × Except IoError Request :=
  (x.tag, x.slaveId, Request.tryFrom x.pdu)

/-- These requests were handed on, in order, each once, and the buffer is empty. -/
def Delivered {σ : Type} (rs : List TcpRequest) (s : ServerLoop UInt16 σ) : Prop :=
  s.requests.map RawRequest.seen = rs.map TcpRequest.expected ∧ s.buf = []

theorem stream_cons (mode : LengthMode) (r : TcpRequest) (rs : List TcpRequest) :
    stream mode (r :: rs) = r.frame mode ++ stream mode rs := rfl

theorem stream_take_length_le (mode : LengthMode) (rs : List TcpRequest) (k : ℕ) :
    (stream mode (rs.take k)).length ≤ (stream mode rs).length := by
  have h := congrArg (fun l => (stream mode l).length) (List.take_append_drop k rs)
  simp only [stream, List.flatMap_append, List.length_append] at h
  rw [stream, stream]
  omega

theorem RawRequest.seen_raw (r : TcpRequest) : r.raw.seen = r.expected := by
  simp [RawRequest.seen, TcpRequest.raw, TcpRequest.expected, r.decoded]

theorem stream_append (mode : LengthMode) (rs rs' : List TcpRequest) :
    stream mode (rs ++ rs') = stream mode rs ++ stream mode rs' := List.flatMap_append

/-- Requests that were handed on correctly weigh at least as much as their frames. -/
theorem stream_length_le (mode : LengthMode) {rs : List TcpRequest}
    {xs : List (RawRequest UInt16)} (h : xs.map RawRequest.seen = rs.map TcpRequest.expected) :
    (stream mode rs).length ≤ (xs.map fun x => MBAP_HEADER_SIZE + x.pdu.length).sum := by
  induction rs generalizing xs with
  | nil => simp [stream]
  | cons r rs ih =>
      cases xs with
      | nil => simp at h
      | cons x xs =>
          simp only [List.map_cons, List.cons.injEq] at h
          have hdec : Request.tryFrom x.pdu = .ok r.req := congrArg (·.2.2) h.1
          have hle := Request.pdu_length_le hdec
          have htail := ih h.2
          rw [stream_cons, List.length_append, TcpRequest.frame_length, r.pdu_eq, List.map_cons,
            List.sum_cons, MBAP_HEADER_SIZE]
          rw [MBAP_HEADER_SIZE] at htail
          omega

/-- A proper prefix of the next frame is shorter than the frame. -/
theorem Partial.length_lt {mode : LengthMode} {r : TcpRequest} {rs : List TcpRequest} {q : Bytes}
    (hq : Partial (TcpRequest.frame mode) (r :: rs) q) : q.length < (r.frame mode).length := by
  obtain ⟨t, ht, hr⟩ := hq
  have hpos := List.length_pos_iff.2 ht
  rw [hr, List.length_append]
  omega

/-- A buffer that holds the whole rest of the stream is empty. -/
theorem Partial.eq_nil {mode : LengthMode} {rs : List TcpRequest} {q : Bytes}
    (hq : Partial (TcpRequest.frame mode) rs q) (h : q = stream mode rs) : rs = [] := by
  cases rs with
  | nil => rfl
  | cons r rs =>
      have hlt := Partial.length_lt hq
      have hlen := congrArg List.length h
      rw [stream_cons, List.length_append] at hlen
      omega

/-! ### The standard mode -/

/-- A cut inside a frame only fills the buffer. -/
theorem feed_standard_part {r : TcpRequest} {rs : List TcpRequest} {q c q' : Bytes}
    (hq' : Partial (TcpRequest.frame .standard) (r :: rs) q') (h : q ++ c = q') :
    tcpFramer.feed tcpDiscard q c = ([], q') := by
  subst h
  obtain ⟨t, ht, hr⟩ := hq'
  exact tcpFramer.feed_of_parse_none _ (r.parse_standard_prefix ht hr) (r.discard_prefix _ hr)

/-- The cut that ends one frame exactly. -/
theorem feed_standard_whole (r : TcpRequest) {q c : Bytes} (h : q ++ c = r.frame .standard) :
    tcpFramer.feed tcpDiscard q c = ([r.raw], []) := by
  have hp : tcpFramer.parse (r.frame .standard) = some (r.raw, (r.frame .standard).length) :=
    r.parse_standard
  have hnil : tcpFramer.parse [] = none := rfl
  rw [Framer.feed, h, tcpFramer.drain_some hp, List.drop_length, tcpFramer.drain_none hnil]
  simp

/-- A read that goes beyond the end of a frame hands the frame on with a byte too many. -/
theorem feed_standard_beyond (r : TcpRequest) {q c s : Bytes} {x : UInt8}
    (h : q ++ c = r.frame .standard ++ x :: s) :
    ∃ xs, (tcpFramer.feed tcpDiscard q c).1 = ⟨r.tid, r.unitId, r.pdu ++ [x]⟩ :: xs := by
  have hp : tcpFramer.parse (r.frame .standard ++ x :: s) = some (⟨r.tid, r.unitId, r.pdu ++ [x]⟩,
    (r.frame .standard).length + 1) := r.parse_standard_cons x s
  rw [Framer.feed, h, tcpFramer.drain_some hp]
  exact ⟨_, rfl⟩

/-- Once a frame was handed on with a byte too many, the stream is not delivered any more: the
bytes do not suffice. -/
theorem not_delivered_standard {r : TcpRequest} {rs : List TcpRequest} {reads : List Bytes}
    {q c s : Bytes} {x : UInt8} (hq : q ++ c = r.frame .standard ++ x :: s)
    (hcut : q ++ (c :: reads).flatten = stream .standard (r :: rs)) :
    (tcpFramer.run tcpDiscard q (c :: reads)).1.map RawRequest.seen
      ≠ (r :: rs).map TcpRequest.expected := by
  intro h
  have hweight := tcpFramer.run_weight tcpDiscard
    (w := fun x => MBAP_HEADER_SIZE + x.pdu.length) tryParseTcpFrame_weight q (c :: reads)
  have hlen := congrArg List.length hcut
  obtain ⟨xs, hxs⟩ := feed_standard_beyond r hq
  rw [Framer.run_cons, hxs] at h hweight
  simp only [List.cons_append, List.map_cons, List.cons.injEq] at h
  have htail := stream_length_le .standard h.2
  rw [stream_cons] at hlen
  simp only [List.length_append, List.cons_append, List.map_cons, List.sum_cons,
    List.length_singleton, TcpRequest.frame_length, MBAP_HEADER_SIZE] at hlen hweight htail
  omega

/-- Every frame ends at the end of a read, behind `n` bytes that the buffer holds already. -/
def EndsAtReads (n : ℕ) (rs : List TcpRequest) (reads : List Bytes) : Prop :=
  ∀ k < rs.length, ∃ j,
    n + (reads.take j).flatten.length = (stream .standard (rs.take (k + 1))).length

/-- The first frame does not end before the first read. -/
private theorem ne_end_of_lt {n : ℕ} {r : TcpRequest} {rs : List TcpRequest} {reads : List Bytes}
    {k : ℕ} (hlt : n < (r.frame .standard).length) :
    n + (reads.take 0).flatten.length
      ≠ (stream .standard ((r :: rs).take (k + 1))).length := by
  intro h
  rw [List.take_succ_cons, stream_cons, List.length_append] at h
  simp only [List.take_zero, List.flatten_nil, List.length_nil] at h
  omega

/-- A read that ends inside the next frame moves no end. -/
theorem endsAtReads_part {n : ℕ} {r : TcpRequest} {rs : List TcpRequest} (c : Bytes)
    (reads : List Bytes) (hlt : n < (r.frame .standard).length) :
    EndsAtReads (n + c.length) (r :: rs) reads ↔ EndsAtReads n (r :: rs) (c :: reads) := by
  constructor
  · intro h k hk
    obtain ⟨j, hj⟩ := h k hk
    refine ⟨j + 1, ?_⟩
    rw [List.take_succ_cons, List.flatten_cons, List.length_append]
    omega
  · intro h k hk
    obtain ⟨j, hj⟩ := h k hk
    cases j with
    | zero => exact absurd hj (ne_end_of_lt hlt)
    | succ j =>
        refine ⟨j, ?_⟩
        rw [List.take_succ_cons, List.flatten_cons, List.length_append] at hj
        omega

/-- A read that ends with the next frame leaves the others to the reads behind it. -/
theorem endsAtReads_whole {n : ℕ} {r : TcpRequest} {rs : List TcpRequest} {c : Bytes}
    (reads : List Bytes) (hlt : n < (r.frame .standard).length)
    (hwhole : n + c.length = (r.frame .standard).length) :
    EndsAtReads 0 rs reads ↔ EndsAtReads n (r :: rs) (c :: reads) := by
  constructor
  · intro h k hk
    cases k with
    | zero =>
        refine ⟨1, ?_⟩
        simp [stream]
        omega
    | succ k =>
        obtain ⟨j, hj⟩ := h k (by simpa using hk)
        refine ⟨j + 1, ?_⟩
        rw [List.take_succ_cons, List.flatten_cons, List.length_append, List.take_succ_cons,
          stream_cons, List.length_append]
        omega
  · intro h k hk
    obtain ⟨j, hj⟩ := h (k + 1) (by simpa using hk)
    cases j with
    | zero => exact absurd hj (ne_end_of_lt hlt)
    | succ j =>
        refine ⟨j, ?_⟩
        rw [List.take_succ_cons, List.flatten_cons, List.length_append, List.take_succ_cons,
          stream_cons, List.length_append] at hj
        omega

/-- The end of a frame that a read goes beyond is at the end of no read. -/
theorem not_endsAtReads_beyond {n : ℕ} {r : TcpRequest} {rs : List TcpRequest} {c : Bytes}
    (reads : List Bytes) (hlt : n < (r.frame .standard).length)
    (hbeyond : (r.frame .standard).length < n + c.length) :
    ¬ EndsAtReads n (r :: rs) (c :: reads) := by
  intro h
  obtain ⟨j, hj⟩ := h 0 (by simp)
  cases j with
  | zero => exact absurd hj (ne_end_of_lt hlt)
  | succ j =>
      rw [List.take_succ_cons, List.flatten_cons, List.length_append] at hj
      simp [stream] at hj
      omega

theorem run_standard_iff {rs : List TcpRequest} {reads : List Bytes} {q : Bytes}
    (hne : ∀ c ∈ reads, c ≠ []) (hq : Partial (TcpRequest.frame .standard) rs q)
    (hcut : q ++ reads.flatten = stream .standard rs) :
    ((tcpFramer.run tcpDiscard q reads).1.map RawRequest.seen = rs.map TcpRequest.expected ∧
        (tcpFramer.run tcpDiscard q reads).2 = []) ↔ EndsAtReads q.length rs reads := by
  induction reads generalizing rs q with
  | nil =>
      obtain rfl := Partial.eq_nil hq (by simpa using hcut)
      have hq : q = [] := hq
      simp [hq, EndsAtReads]
  | cons c reads ih =>
      have hne' : ∀ c ∈ reads, c ≠ [] := fun c' hc' => hne c' (by simp [hc'])
      have hcut' := hcut
      rw [List.flatten_cons, ← List.append_assoc] at hcut
      obtain ⟨done, rest, q', rfl, hb, hq', hrest⟩ := exists_split _ hcut
      cases done with
      | nil =>
          -- the read ends inside the next frame
          rw [List.flatMap_nil, List.nil_append] at hb
          rw [List.nil_append] at hq hcut' ⊢
          obtain ⟨r, rest, rfl⟩ : ∃ r rest', rest = r :: rest' := by
            cases rest with
            | nil =>
                have hnil : q' = [] := hq'
                rw [hnil, List.append_eq_nil_iff] at hb
                exact absurd hb.2 (hne c (by simp))
            | cons r rest => exact ⟨r, rest, rfl⟩
          rw [Framer.run_cons, feed_standard_part hq' hb]
          simp only [List.nil_append]
          rw [ih hne' hq' hrest, ← endsAtReads_part c reads (Partial.length_lt hq), ← hb,
            List.length_append]
      | cons r done =>
          have hlt := Partial.length_lt hq
          rw [List.flatMap_cons, List.append_assoc] at hb
          by_cases hwhole : q ++ c = r.frame .standard
          · -- the read ends with the frame
            rw [hwhole, List.self_eq_append_right] at hb
            obtain ⟨hdone, rfl⟩ := List.append_eq_nil_iff.1 hb
            obtain rfl : done = [] := by
              cases done with
              | nil => rfl
              | cons r' done => simp [TcpRequest.frame_ne_nil] at hdone
            have hqc := congrArg List.length hwhole
            rw [List.length_append] at hqc
            rw [Framer.run_cons, feed_standard_whole r hwhole]
            simp only [List.cons_append, List.nil_append, List.map_cons]
            rw [RawRequest.seen_raw, List.cons.injEq, and_assoc]
            simp only [true_and]
            rw [ih hne' hq' hrest]
            exact endsAtReads_whole reads hlt hqc
          · -- the read goes beyond the end of the frame
            obtain ⟨x, s, hxs⟩ : ∃ x s, done.flatMap (TcpRequest.frame .standard) ++ q' = x :: s :=
              List.exists_cons_of_ne_nil fun hnil => hwhole (by rw [hb, hnil, List.append_nil])
            rw [hxs] at hb
            have hbeyond := congrArg List.length hb
            simp only [List.length_append, List.length_cons] at hbeyond
            refine iff_of_false ?_ (not_endsAtReads_beyond reads hlt (by omega))
            rintro ⟨h, -⟩
            exact not_delivered_standard hb hcut' h

/-! ### The other mode -/

/-- A read that does not end one byte before the end of a frame: the whole frames are handed on. -/
theorem feed_pduOnly_clean {done rest : List TcpRequest} {q c q' : Bytes}
    (hb : q ++ c = done.flatMap (TcpRequest.frame .pduOnly) ++ q')
    (hq' : Partial (TcpRequest.frame .pduOnly) rest q')
    (hclean : ∀ r ∈ rest.head?, q'.length + 1 ≠ (r.frame .pduOnly).length) :
    tcpFramer.feed tcpDiscard q c = (done.map TcpRequest.raw, q') := by
  have hparse : ∀ r ∈ done, ∀ s, tcpFramer.parse (r.frame .pduOnly ++ s)
      = some (r.raw, (r.frame .pduOnly).length) := fun r _ s => r.parse_pduOnly s
  have hrest : tcpFramer.parse q' = none ∧ tcpDiscard q' = false := by
    cases rest with
    | nil =>
        have hnil : q' = [] := hq'
        rw [hnil]
        exact ⟨rfl, rfl⟩
    | cons r rest =>
        obtain ⟨t, ht, hr⟩ := hq'
        exact ⟨r.parse_pduOnly_prefix ht hr (hclean r rfl), r.discard_prefix _ hr⟩
  rw [Framer.feed, hb, tcpFramer.drain_flatMap TcpRequest.raw hparse,
    tcpFramer.drain_none hrest.1]
  simp [hrest.2]

/-- A read that ends one byte before the end of a frame: the frame is handed on without it. -/
theorem feed_pduOnly_early {done rest : List TcpRequest} {r : TcpRequest} {q c q' : Bytes}
    (hb : q ++ c = done.flatMap (TcpRequest.frame .pduOnly) ++ q')
    (hq' : Partial (TcpRequest.frame .pduOnly) (r :: rest) q')
    (hone : q'.length + 1 = (r.frame .pduOnly).length) :
    ∃ x ∈ (tcpFramer.feed tcpDiscard q c).1, ∃ e, Request.tryFrom x.pdu = .error e := by
  have hparse : ∀ r ∈ done, ∀ s, tcpFramer.parse (r.frame .pduOnly ++ s)
      = some (r.raw, (r.frame .pduOnly).length) := fun r _ s => r.parse_pduOnly s
  obtain ⟨t, -, hr⟩ := hq'
  obtain ⟨d, x, hpdu, hparse'⟩ := r.parse_pduOnly_dropLast hr hone
  have hdrain : tcpFramer.parse q' = some (⟨r.tid, r.unitId, d⟩, q'.length) := hparse'
  rw [Framer.feed, hb, tcpFramer.drain_flatMap TcpRequest.raw hparse,
    tcpFramer.drain_some hdrain]
  exact ⟨⟨r.tid, r.unitId, d⟩, by simp, r.tryFrom_dropLast hpdu⟩

/-- A request that does not decode is none of the requests that were sent. -/
theorem not_delivered_of_error {xs : List (RawRequest UInt16)} {x : RawRequest UInt16}
    (hx : x ∈ xs) {e : IoError} (he : Request.tryFrom x.pdu = .error e) (rs : List TcpRequest) :
    xs.map RawRequest.seen ≠ rs.map TcpRequest.expected := by
  intro h
  have hmem : x.seen ∈ rs.map TcpRequest.expected := by
    rw [← h]
    exact List.mem_map_of_mem hx
  obtain ⟨r, -, hr⟩ := List.mem_map.1 hmem
  have hdec : Except.ok r.req = Request.tryFrom x.pdu := congrArg (·.2.2) hr
  rw [he] at hdec
  cases hdec

/-- The buffer itself does not end one byte before the end of a frame. -/
private theorem partial_boundary {rs : List TcpRequest} {q : Bytes} {k : ℕ}
    (hq : Partial (TcpRequest.frame .pduOnly) rs q)
    (hclean : ∀ r ∈ rs.head?, q.length + 1 ≠ (r.frame .pduOnly).length) (hk : k < rs.length) :
    q.length + 0 + 1 ≠ (stream .pduOnly (rs.take (k + 1))).length := by
  cases rs with
  | nil => simp at hk
  | cons r rs =>
      have hlt := Partial.length_lt hq
      have hfirst := hclean r rfl
      rw [List.take_succ_cons, stream_cons, List.length_append]
      cases k with
      | zero =>
          simp [stream]
          omega
      | succ k =>
          cases rs with
          | nil => simp at hk
          | cons r' rs =>
              have hpos := r'.frame_length .pduOnly
              rw [List.take_succ_cons, stream_cons, List.length_append]
              omega

/-- No read ends one byte before the end of a frame, behind `n` bytes that the buffer holds
already. -/
def AvoidsEnds (n : ℕ) (rs : List TcpRequest) (reads : List Bytes) : Prop :=
  ∀ k < rs.length, ∀ j,
    n + (reads.take j).flatten.length + 1 ≠ (stream .pduOnly (rs.take (k + 1))).length

/-- A read that brings the rest of some frames leaves the others to the reads behind it. -/
theorem avoidsEnds_clean {done rest : List TcpRequest} {q c q' : Bytes} (reads : List Bytes)
    (hq : Partial (TcpRequest.frame .pduOnly) (done ++ rest) q)
    (hclean : ∀ r ∈ (done ++ rest).head?, q.length + 1 ≠ (r.frame .pduOnly).length)
    (hlen : q.length + c.length = (stream .pduOnly done).length + q'.length) :
    AvoidsEnds q'.length rest reads ↔ AvoidsEnds q.length (done ++ rest) (c :: reads) := by
  constructor
  · intro h k hk j
    cases j with
    | zero => exact partial_boundary hq hclean hk
    | succ j =>
        rcases Nat.lt_or_ge k done.length with hdone | hdone
        · -- the frame ends inside the read or before
          have hle := stream_take_length_le .pduOnly done (k + 1)
          rw [List.take_append_of_le_length (by omega), List.take_succ_cons, List.flatten_cons,
            List.length_append]
          omega
        · obtain ⟨k, rfl⟩ : ∃ m, k = done.length + m := ⟨k - done.length, by omega⟩
          rw [List.length_append] at hk
          have hne := h k (by omega) j
          rw [Nat.add_assoc done.length, List.take_length_add_append, stream_append,
            List.length_append, List.take_succ_cons, List.flatten_cons, List.length_append]
          omega
  · intro h k hk j
    have hne := h (done.length + k) (by rw [List.length_append]; omega) (j + 1)
    rw [Nat.add_assoc done.length, List.take_length_add_append, stream_append,
      List.length_append, List.take_succ_cons, List.flatten_cons, List.length_append] at hne
    omega

theorem not_avoidsEnds_early {done rest : List TcpRequest} {r : TcpRequest} {q c q' : Bytes}
    (reads : List Bytes) (hlen : q.length + c.length = (stream .pduOnly done).length + q'.length)
    (hone : q'.length + 1 = (r.frame .pduOnly).length) :
    ¬ AvoidsEnds q.length (done ++ r :: rest) (c :: reads) := by
  intro h
  have hne := h done.length (by simp) 1
  rw [List.take_length_add_append, stream_append, List.length_append] at hne
  simp [stream] at hne hlen
  omega

theorem run_pduOnly_iff {rs : List TcpRequest} {reads : List Bytes} {q : Bytes}
    (hq : Partial (TcpRequest.frame .pduOnly) rs q)
    (hclean : ∀ r ∈ rs.head?, q.length + 1 ≠ (r.frame .pduOnly).length)
    (hcut : q ++ reads.flatten = stream .pduOnly rs) :
    ((tcpFramer.run tcpDiscard q reads).1.map RawRequest.seen = rs.map TcpRequest.expected ∧
        (tcpFramer.run tcpDiscard q reads).2 = []) ↔ AvoidsEnds q.length rs reads := by
  induction reads generalizing rs q with
  | nil =>
      obtain rfl := Partial.eq_nil hq (by simpa using hcut)
      have hq : q = [] := hq
      simp [hq, AvoidsEnds]
  | cons c reads ih =>
      rw [List.flatten_cons, ← List.append_assoc] at hcut
      obtain ⟨done, rest, q', rfl, hb, hq', hrest⟩ := exists_split _ hcut
      have hlen : q.length + c.length = (stream .pduOnly done).length + q'.length := by
        rw [← List.length_append, hb, List.length_append]
        rfl
      by_cases hnext : ∀ r ∈ rest.head?, q'.length + 1 ≠ (r.frame .pduOnly).length
      · rw [Framer.run_cons, feed_pduOnly_clean hb hq' hnext]
        have hseen : (done.map TcpRequest.raw).map RawRequest.seen
            = done.map TcpRequest.expected := by
          rw [List.map_map]
          exact List.map_congr_left fun r _ => RawRequest.seen_raw r
        simp only
        rw [List.map_append, List.map_append, hseen, List.append_cancel_left_eq,
          ih hq' hnext hrest]
        exact avoidsEnds_clean reads hq hclean hlen
      · -- the read ends one byte before the end of a frame
        obtain ⟨r, rest, rfl⟩ : ∃ r rest', rest = r :: rest' := by
          cases rest with
          | nil => simp at hnext
          | cons r rest => exact ⟨r, rest, rfl⟩
        have hone : q'.length + 1 = (r.frame .pduOnly).length := by simpa using hnext
        obtain ⟨x, hx, e, he⟩ := feed_pduOnly_early hb hq' hone
        have hrun : x ∈ (tcpFramer.run tcpDiscard q (c :: reads)).1 := by
          rw [Framer.run_cons]
          exact List.mem_append_left _ hx
        refine iff_of_false ?_ (not_avoidsEnds_early reads hlen hone)
        rintro ⟨h, -⟩
        exact not_delivered_of_error hrun he _ h

/-! ### The server -/

/-- **A stream of requests is delivered exactly when it is cut cleanly.**  The stream of the frames
of `rs` reaches the server in the given nonempty reads, and the writes of the responses succeed. -/
theorem handleTcpConnection_delivers_iff {σ : Type} (service : Service σ) (cfg : TcpConfig)
    (store : σ) (mode : LengthMode) (rs : List TcpRequest) (reads : List Bytes)
    (hreads : ∀ bs ∈ reads, bs ≠ [] ∧ bs.length ≤ MAX_ADU_SIZE)
    (hcut : reads.flatten = rs.flatMap (TcpRequest.frame mode)) :
    Delivered rs (handleTcpConnection service cfg (fun _ => true) (.idle store) (reads.map .ok)) ↔
      CleanCut mode rs reads := by
  have hne : ∀ bs ∈ reads, bs ≠ [] := fun bs h => (hreads bs h).1
  have hq : Partial (TcpRequest.frame mode) rs [] :=
    Partial.nil _ fun r _ => r.frame_ne_nil mode
  rw [Delivered, handleTcpConnection_eq (fun _ => rfl) hne rfl, ServerLoop.setBuf_requests,
    ServerLoop.setBuf_buf, ServerLoop.serveAll_requests]
  cases mode with
  | standard =>
      have h := run_standard_iff hne hq hcut
      simpa only [CleanCut, EndsAtReads, ServerLoop.idle, List.nil_append, List.length_nil,
        Nat.zero_add] using h
  | pduOnly =>
      have hclean : ∀ r ∈ rs.head?, ([] : Bytes).length + 1 ≠ (r.frame .pduOnly).length := by
        intro r _
        rw [TcpRequest.frame_length, List.length_nil]
        omega
      have h := run_pduOnly_iff hq hclean hcut
      simpa only [CleanCut, AvoidsEnds, ServerLoop.idle, List.nil_append, List.length_nil,
        Nat.zero_add] using h

/-- A service that refuses every request. -/
def refusing : Service Unit := ⟨fun _ _ s => (.error .illegalFunction, s)⟩

/-- The request for one register of unit 1. -/
def TcpRequest.readOne (tid : UInt16) : TcpRequest :=
  ⟨tid, 1, .readHoldingRegisters 0 1, [3, 0, 0, 0, 1], by decide, rfl, by decide⟩

/-- One frame over two reads. -/
theorem handleTcpConnection_delivers_iff_split :
    Delivered [TcpRequest.readOne 1] (handleTcpConnection refusing .standard (fun _ => true)
        (.idle ()) ([[0, 1, 0, 0, 0], [6, 1, 3, 0, 0, 0, 1]].map .ok)) ↔
      CleanCut .standard [TcpRequest.readOne 1] [[0, 1, 0, 0, 0], [6, 1, 3, 0, 0, 0, 1]] :=
  handleTcpConnection_delivers_iff refusing .standard () .standard [TcpRequest.readOne 1]
    [[0, 1, 0, 0, 0], [6, 1, 3, 0, 0, 0, 1]] (by decide) rfl

/-- Two frames in one read: the second is lost. -/
theorem handleTcpConnection_two_frames :
    ¬ Delivered [TcpRequest.readOne 1, TcpRequest.readOne 2]
      (handleTcpConnection refusing .standard (fun _ => true) (.idle ())
        [.ok ((TcpRequest.readOne 1).frame .standard ++ (TcpRequest.readOne 2).frame .standard)])
    := by
  intro h
  have hlen : (handleTcpConnection refusing .standard (fun _ => true) (.idle ())
      [.ok ((TcpRequest.readOne 1).frame .standard
        ++ (TcpRequest.readOne 2).frame .standard)]).requests.length = 1 := by rfl
  have hdel := congrArg List.length h.1
  rw [List.length_map, hlen] at hdel
  cases hdel

end OmsModbus
