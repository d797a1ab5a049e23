/-
**Modbus ASCII.**

An ASCII frame is a line.  Both sides look for the first line of the buffer that is a frame and skip
the lines in front of it that are not.

Main definitions:

* `OmsModbus.crlfPos` — where the first line ends;
* `OmsModbus.decodeAsciiLine` — the contents of a line that is a frame;
* `OmsModbus.tryParseAscii` — the first frame of a buffer;
* `OmsModbus.asciiSendRecv`, `OmsModbus.asciiCall` — one attempt, and a call;
* `OmsModbus.serveAscii` — the server.

Main results:

* `OmsModbus.tryParseAsciiFrom_of_le` — the parser has fuel enough;
* `OmsModbus.tryParseAscii_encode` — a frame is found in front of anything;
* `OmsModbus.tryParseAscii_of_part` — nothing is found in a part of a frame;
* `OmsModbus.asciiFramer_run` — **a request frame is found however it is cut**;
* `OmsModbus.asciiSendRecv_ok` — **a client gets the answer whose frame arrives**.
-/

import OmsModbus.Codec
import OmsModbus.Serial

set_option relaxedAutoImplicit false
set_option autoImplicit false

namespace OmsModbus

open StreamFraming

/-! ### Lines -/

/-- The position of the first CR LF. -/
def crlfPos : Bytes → Option ℕ
  | a :: b :: rest => if a = CR ∧ b = LF then some 0 else (crlfPos (b :: rest)).map (· + 1)
  | _ => none

/-- Slave id and PDU of a line, if it is a frame. -/
def decodeAsciiLine : Bytes → Option (UInt8 × Bytes)
  | [] => none
  | c :: hexChars =>
    if c ≠ ASCII_START then none
    else
      match hexDecode hexChars with
      | none => none
      | some bytes =>
        if bytes.length ≥ 2 then
          let data := bytes.take (bytes.length - 1)
          let lrcByte := bytes.getD (bytes.length - 1) 0
          match data with
          | slaveId :: fc :: pdu =>
            if lrcByte = calculateLrc data then some (slaveId, fc :: pdu) else none
          | _ => none
        else none

/-- The loop over the lines behind `offset`.  Every line takes up two bytes, so there are no more of
them than `fuel`. -/
def tryParseAsciiFrom : ℕ → ℕ → Bytes → Option (RawRequest Unit × ℕ)
  | 0, _, _ => none
  | fuel + 1, offset, remaining =>
    match crlfPos remaining with
    | none => none
    | some pos =>
      let lineEnd := offset + pos + 2
      match decodeAsciiLine (remaining.take pos) with
      | some (slaveId, pdu) => some (⟨(), slaveId, pdu⟩, lineEnd)
      | none => tryParseAsciiFrom fuel lineEnd (remaining.drop (pos + 2))

/-- The first frame of a buffer. -/
def tryParseAscii (buf : Bytes) : Option (RawRequest Unit × ℕ) :=
  tryParseAsciiFrom buf.length 0 buf

/-- Induction on the way to the first CR LF. -/
theorem crlfPos_induction {P : Bytes → ℕ → Prop} (here : ∀ rest, P (CR :: LF :: rest) 0)
    (there : ∀ a c rest n, ¬ (a = CR ∧ c = LF) → P (c :: rest) n → P (a :: c :: rest) (n + 1))
    {b : Bytes} {n : ℕ} (h : crlfPos b = some n) : P b n := by
  induction b generalizing n with
  | nil => cases h
  | cons a b ih =>
      cases b with
      | nil => cases h
      | cons c rest =>
          rw [crlfPos] at h
          split at h
          · next hcrlf =>
            cases h
            obtain ⟨rfl, rfl⟩ := hcrlf
            exact here rest
          · next hcrlf =>
            obtain ⟨m, hm, rfl⟩ := Option.map_eq_some_iff.1 h
            exact there a c rest m hcrlf (ih hm)

theorem crlfPos_lt {b : Bytes} {n : ℕ} (h : crlfPos b = some n) : n + 2 ≤ b.length := by
  refine crlfPos_induction (P := fun b n => n + 2 ≤ b.length) ?_ ?_ h
  · intro rest
    simp
  · intro a c rest n _ ih
    rw [List.length_cons]
    omega

theorem tryParseAsciiFrom_eq_some {fuel offset n : ℕ} {b : Bytes} {x : RawRequest Unit}
    (h : tryParseAsciiFrom fuel offset b = some (x, n)) : offset < n ∧ n ≤ offset + b.length := by
  induction fuel generalizing offset b with
  | zero => cases h
  | succ fuel ih =>
      rw [tryParseAsciiFrom] at h
      split at h
      · cases h
      · next pos hpos =>
        have hlt := crlfPos_lt hpos
        simp only at h
        split at h
        · cases h
          omega
        · have hrest := ih h
          rw [List.length_drop] at hrest
          omega

private theorem tryParseAsciiFrom_nil (fuel offset : ℕ) :
    tryParseAsciiFrom fuel offset [] = none := by
  cases fuel <;> rfl

/-- Any fuel that covers the bytes gives the same result. -/
theorem tryParseAsciiFrom_of_le {fuel fuel' offset : ℕ} {b : Bytes} (h : b.length ≤ fuel)
    (h' : b.length ≤ fuel') :
    tryParseAsciiFrom fuel offset b = tryParseAsciiFrom fuel' offset b := by
  induction fuel generalizing fuel' offset b with
  | zero =>
      obtain rfl : b = [] := List.length_eq_zero_iff.1 (by omega)
      rw [tryParseAsciiFrom_nil, tryParseAsciiFrom_nil]
  | succ fuel ih =>
      cases fuel' with
      | zero =>
          obtain rfl : b = [] := List.length_eq_zero_iff.1 (by omega)
          rw [tryParseAsciiFrom_nil, tryParseAsciiFrom_nil]
      | succ fuel' =>
          rw [tryParseAsciiFrom, tryParseAsciiFrom]
          split
          · rfl
          · next pos hpos =>
            have hlt := crlfPos_lt hpos
            have hdrop : (b.drop (pos + 2)).length + 2 ≤ b.length := by
              rw [List.length_drop]
              omega
            simp only
            split
            · rfl
            · exact ih (by omega) (by omega)

/-- The parser as a framer. -/
def asciiFramer : Framer UInt8 (RawRequest Unit) where
  parse := tryParseAscii
  pos := fun h => (tryParseAsciiFrom_eq_some h).1
  le := fun h => by
    have := (tryParseAsciiFrom_eq_some h).2
    omega

/-! ### The server -/

/-- The protocol of the ASCII server. -/
def asciiProtocol : Protocol Unit :=
  { asciiFramer with encode := fun _ data => encodeAsciiFrameInto data [] }

/-- The ASCII server over its waits.  When the bus falls silent the buffer is thrown away. -/
def serveAscii {σ : Type} (service : Service σ) (writeOk : ℕ → Bool) (s : ServerLoop Unit σ)
    (events : List ReadEvent) : ServerLoop Unit σ :=
  serveSerial asciiProtocol service writeOk (fun _ => []) s events

/-! ### The client -/

/-- The response in the first frame of a buffer. -/
def tryParseAsciiResponse (buf : Bytes) (slaveId : UInt8) : Option (Except ModbusError Response) :=
  match tryParseAscii buf with
  | none => none
  | some (x, _) =>
    if x.slaveId ≠ slaveId then
      some (.error (.protocol s!"{SLAVE_ID_MISMATCH} {slaveId}, got {x.slaveId}"))
    else
      match Response.tryFrom x.pdu with
      | .error e => some (.error (.protocol s!"{PDU_DECODE_ERROR} {e.msg}"))
      | .ok rsp => some (.ok rsp)

/-- Reading until there is a frame; when the wait is over the buffer is looked at once more. -/
def asciiReceive (slaveId : UInt8) (readBuf : Bytes) : List ReadEvent → Except ModbusError Response
  | [] | .expired :: _ | .elapsed :: _ =>
      (tryParseAsciiResponse readBuf slaveId).getD (.error (.timeout "ASCII_RECV_TIMEOUT"))
  | .data bs :: events =>
      if bs = [] then .error (.connection CONN_CLOSED)
      else
        let readBuf := readBuf ++ bs
        match tryParseAsciiResponse readBuf slaveId with
        | some result => result
        | none => asciiReceive slaveId readBuf events
  | .error e :: _ => .error (.ofIoError e)

/-- One attempt of a call. -/
def asciiSendRecv (slaveId : UInt8) (request : Request) (a : Attempt) :
    Except ModbusError Response :=
  if request = .disconnect then .error (.other "Disconnected")
  else
    match drainStaleData a.drain with
    | (.error e, _) => .error e
    | (.ok (), _) =>
      match sendFrame slaveId request (fun data => encodeAsciiFrameInto data []) a.write with
      | .error e => .error e
      | .ok frame => asciiReceive slaveId [] (a.recv frame)

/-- A call. -/
def asciiCall (reconnect : Option ReconnectConfig) (fuel : ℕ) (slaveId : UInt8) (request : Request)
    (attempts : ℕ → Attempt) : Option (Except ModbusError Response) :=
  callAttempts (asciiSendRecv slaveId request) reconnect fuel attempts

/-! ### A frame -/

/-- Without a CR no line ends. -/
theorem crlfPos_of_not_mem {b : Bytes} (h : CR ∉ b) : crlfPos b = none := by
  induction b with
  | nil => rfl
  | cons a b ih =>
      cases b with
      | nil => rfl
      | cons c rest =>
          rw [crlfPos, if_neg fun hc => h (by simp [hc.1]), ih fun hc => h (by simp [hc])]
          rfl

/-- A line ends at its first CR LF. -/
theorem crlfPos_append {b : Bytes} (h : CR ∉ b) (s : Bytes) :
    crlfPos (b ++ CR :: LF :: s) = some b.length := by
  induction b with
  | nil => rfl
  | cons a b ih =>
      have ih := ih fun hc => h (by simp [hc])
      cases b with
      | nil =>
          rw [List.cons_append, List.nil_append, crlfPos, if_neg fun hc => h (by simp [hc.1])]
          rw [List.nil_append] at ih
          rw [ih]
          rfl
      | cons c rest =>
          rw [List.cons_append] at ih ⊢
          rw [List.cons_append, crlfPos, if_neg fun hc => h (by simp [hc.1]), ih]
          rfl

/-- A line with its CR, but not its LF. -/
theorem crlfPos_append_cr {b : Bytes} (h : CR ∉ b) : crlfPos (b ++ [CR]) = none := by
  induction b with
  | nil => rfl
  | cons a b ih =>
      have ih := ih fun hc => h (by simp [hc])
      cases b with
      | nil =>
          rw [List.cons_append, List.nil_append, crlfPos, if_neg fun hc => h (by simp [hc.1])]
          rfl
      | cons c rest =>
          rw [List.cons_append] at ih ⊢
          rw [List.cons_append, crlfPos, if_neg fun hc => h (by simp [hc.1]), ih]
          rfl

/-- The line of a frame. -/
def asciiLine (data : Bytes) : Bytes := ASCII_START :: hexEncode (data ++ [calculateLrc data])

theorem encodeAsciiFrameInto_line (data : Bytes) :
    encodeAsciiFrameInto data [] = asciiLine data ++ [CR, LF] := encodeAsciiFrameInto_eq data

theorem not_mem_asciiLine (data : Bytes) : CR ∉ asciiLine data := by
  intro h
  rcases List.mem_cons.1 h with h | h
  · exact absurd h (by decide)
  · exact not_mem_hexEncode _ h

/-- The line of a frame is decoded. -/
theorem decodeAsciiLine_asciiLine {slaveId fc : UInt8} {pdu : Bytes} :
    decodeAsciiLine (asciiLine (slaveId :: fc :: pdu)) = some (slaveId, fc :: pdu) := by
  have hsize : ((slaveId :: fc :: pdu) ++ [calculateLrc (slaveId :: fc :: pdu)]).length
      = (slaveId :: fc :: pdu).length + 1 := by simp
  rw [asciiLine, decodeAsciiLine, if_neg (by simp), hexDecode_hexEncode]
  simp only [hsize, Nat.add_sub_cancel]
  rw [if_pos (by simp), List.take_left, List.getD_append_right _ _ _ _ le_rfl, Nat.sub_self]
  simp

/-- **A frame is found in front of anything.** -/
theorem tryParseAscii_encode {slaveId fc : UInt8} {pdu : Bytes} (s : Bytes) :
    tryParseAscii (encodeAsciiFrameInto (slaveId :: fc :: pdu) [] ++ s)
      = some (⟨(), slaveId, fc :: pdu⟩,
          (encodeAsciiFrameInto (slaveId :: fc :: pdu) []).length) := by
  rw [encodeAsciiFrameInto_line, List.append_assoc]
  have hpos := crlfPos_append (not_mem_asciiLine (slaveId :: fc :: pdu)) s
  have hlt := crlfPos_lt hpos
  generalize hline : asciiLine (slaveId :: fc :: pdu) = line at hpos hlt ⊢
  rw [show [CR, LF] ++ s = CR :: LF :: s from rfl]
  obtain ⟨fuel, hfuel⟩ : ∃ m, (line ++ CR :: LF :: s).length = m + 1 :=
    ⟨(line ++ CR :: LF :: s).length - 1, by omega⟩
  rw [tryParseAscii, hfuel, tryParseAsciiFrom, hpos]
  simp only [List.take_left]
  rw [← hline, decodeAsciiLine_asciiLine]
  simp

/-- **Nothing is found in a part of a frame.** -/
theorem tryParseAscii_of_part {data q t : Bytes} (ht : t ≠ [])
    (h : encodeAsciiFrameInto data [] = q ++ t) : tryParseAscii q = none := by
  have hmem := not_mem_asciiLine data
  rw [encodeAsciiFrameInto_line] at h
  have hnone : crlfPos q = none := by
    rcases List.append_eq_append_iff.1 h with ⟨s, hq, ht'⟩ | ⟨s, hline, -⟩
    · -- the whole line is there: at most the CR is
      match s with
      | [] =>
        rw [hq, List.append_nil]
        exact crlfPos_of_not_mem hmem
      | [c] =>
        obtain ⟨rfl, -⟩ := List.cons.inj ht'
        rw [hq]
        exact crlfPos_append_cr hmem
      | c :: d :: s =>
        obtain ⟨-, ht'⟩ := List.cons.inj ht'
        obtain ⟨-, ht'⟩ := List.cons.inj ht'
        exact absurd (List.append_eq_nil_iff.1 ht'.symm).2 ht
    · refine crlfPos_of_not_mem fun hc => hmem ?_
      rw [hline]
      exact List.mem_append_left _ hc
  unfold tryParseAscii
  cases q.length with
  | zero => rfl
  | succ fuel => rw [tryParseAsciiFrom, hnone]

/-- **A request frame is found however it is cut.** -/
theorem asciiFramer_run {slaveId fc : UInt8} {pdu : Bytes} {reads : List Bytes}
    (hreads : reads.flatten = encodeAsciiFrameInto (slaveId :: fc :: pdu) []) :
    asciiFramer.run (fun _ => false) [] reads = ([⟨(), slaveId, fc :: pdu⟩], []) := by
  have hparse : ∀ r ∈ [()], ∀ s,
      asciiFramer.parse (encodeAsciiFrameInto (slaveId :: fc :: pdu) [] ++ s)
        = some (⟨r, slaveId, fc :: pdu⟩,
            (encodeAsciiFrameInto (slaveId :: fc :: pdu) []).length) := by
    intro _ _ s
    exact tryParseAscii_encode s
  refine asciiFramer.run_eq_of_selfDelimiting _ _ hparse ?_ rfl ?_ ?_
  · intro _ _ q t ht hq
    exact ⟨tryParseAscii_of_part ht hq, rfl⟩
  · exact ⟨_, by simp, rfl⟩
  · simpa using hreads

/-- The client waits for the whole frame. -/
theorem asciiReceive_of_arrives {slaveId : UInt8} {rsp : Response} {events : List ReadEvent}
    (hfit : rsp.pdu.length ≤ 253)
    (h : Arrives (encodeAsciiFrameInto (slaveId :: rsp.pdu) []) events) :
    asciiReceive slaveId [] events = .ok (normResponse rsp) := by
  have h2 := rsp.one_lt_pdu_length
  obtain ⟨fc, data, hpdu⟩ :=
    List.exists_cons_of_ne_nil (List.length_pos_iff.1 (by omega : 0 < rsp.pdu.length))
  have hparse : tryParseAsciiResponse (encodeAsciiFrameInto (slaveId :: rsp.pdu) []) slaveId
      = some (.ok (normResponse rsp)) := by
    have hfound := @tryParseAscii_encode slaveId fc data []
    rw [List.append_nil, ← hpdu] at hfound
    rw [tryParseAsciiResponse, hfound]
    simp only [ne_eq, not_true_eq_false, if_false, Response.tryFrom_pdu hfit]
  obtain ⟨chunks, silence, rfl, hcne, hflat, -⟩ := h
  suffices hgen : ∀ buf : Bytes,
      encodeAsciiFrameInto (slaveId :: rsp.pdu) [] = buf ++ chunks.flatten →
      chunks.flatten ≠ [] →
      asciiReceive slaveId buf (chunks.map .data ++ silence) = .ok (normResponse rsp) by
    refine hgen [] hflat.symm ?_
    rw [hflat, encodeAsciiFrameInto_line]
    simp
  clear hflat
  induction chunks with
  | nil =>
      intro buf _ hne
      exact absurd rfl hne
  | cons c chunks ih =>
      intro buf hbuf hne
      have hc : c ≠ [] := hcne c (by simp)
      rw [List.flatten_cons, ← List.append_assoc] at hbuf
      rw [List.map_cons, List.cons_append, asciiReceive, if_neg hc]
      by_cases hlast : chunks.flatten = []
      · rw [hlast, List.append_nil] at hbuf
        simp only [← hbuf, hparse]
      · have hnone : tryParseAsciiResponse (buf ++ c) slaveId = none := by
          rw [tryParseAsciiResponse, tryParseAscii_of_part hlast hbuf]
        simp only [hnone]
        exact ih (fun c' h => hcne c' (by simp [h])) _ hbuf hlast

/-- **A client gets the answer whose frame arrives.** -/
theorem asciiSendRecv_ok {slaveId : UInt8} {request : Request} {a : Attempt} {rsp : Response}
    (hdrain : (drainStaleData a.drain).1 = .ok ()) (hwrite : a.write = .done)
    (hreq : (encodeRequestInto request []).1 = .ok ()) (hne : request ≠ .disconnect)
    (hfit : rsp.pdu.length ≤ 253)
    (harr : Arrives (encodeAsciiFrameInto (slaveId :: rsp.pdu) [])
      (a.recv (encodeAsciiFrameInto (slaveId :: request.pdu) []))) :
    asciiSendRecv slaveId request a = .ok (normResponse rsp) := by
  have hdrain' : drainStaleData a.drain = (.ok (), (drainStaleData a.drain).2) :=
    Prod.ext hdrain rfl
  rw [asciiSendRecv, if_neg hne, hdrain']
  simp only [hwrite, sendFrame_done _ hreq]
  exact asciiReceive_of_arrives hfit harr

end OmsModbus
