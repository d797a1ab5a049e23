/-
**ASCII frames in a stream.**

Both sides look for frames in a buffer that grows with every read, and skip the lines in front of a
frame that are none.  What is found in a buffer is found in the buffer with more behind it, so what
a receiver makes of a stream is a matter of the lines of the stream, and not of the reads it came
in, wherever they end: in the middle of a line, or between a CR and its LF.

Main definitions:

* `OmsModbus.splitLines` — the lines of a byte string, and what follows the last of them;
* `OmsModbus.asciiFrames` — the frames among its lines;
* `OmsModbus.asciiOutcome` — what a client makes of a frame.

Main results:

* `OmsModbus.asciiFramer_stable` — the parser does not change its mind;
* `OmsModbus.asciiFramer_drain` — the loop takes the frames of a buffer off it, in order;
* `OmsModbus.ascii_reads` — **what a server hands on and what a client returns is a matter of the
  stream**, however it is cut.
-/

import OmsModbus.Ascii

set_option relaxedAutoImplicit false
set_option autoImplicit false

namespace OmsModbus

open StreamFraming

/-! ### The frames of a stream -/

/-- The lines of a byte string, which end at a CR LF, from the left; and the rest. -/
def splitLines : Bytes → List Bytes × Bytes
  | [] => ([], [])
  | [a] => ([], [a])
  | a :: b :: rest =>
    if a = CR ∧ b = LF then ([] :: (splitLines rest).1, (splitLines rest).2)
    else
      match splitLines (b :: rest) with
      | ([], left) => ([], a :: left)
      | (line :: lines, left) => ((a :: line) :: lines, left)

/-- The frame in a line. -/
def asciiFrame (line : Bytes) : Option (RawRequest Unit) :=
  (decodeAsciiLine line).map fun p => ⟨(), p.1, p.2⟩

/-- The frames among the lines of a byte string. -/
def asciiFrames (b : Bytes) : List (RawRequest Unit) := (splitLines b).1.filterMap asciiFrame

/-- Without a CR LF there is no line. -/
theorem splitLines_of_none {b : Bytes} (h : crlfPos b = none) : splitLines b = ([], b) := by
  induction b with
  | nil => rfl
  | cons a b ih =>
      cases b with
      | nil => rfl
      | cons c rest =>
          rw [crlfPos] at h
          split at h
          · cases h
          · next hcrlf =>
            rw [splitLines, if_neg hcrlf, ih (Option.map_eq_none_iff.1 h)]

/-- The first line ends at the first CR LF. -/
theorem splitLines_of_some {b : Bytes} {pos : ℕ} (h : crlfPos b = some pos) :
    splitLines b
      = (b.take pos :: (splitLines (b.drop (pos + 2))).1, (splitLines (b.drop (pos + 2))).2) := by
  refine crlfPos_induction (P := fun b pos => splitLines b
    = (b.take pos :: (splitLines (b.drop (pos + 2))).1, (splitLines (b.drop (pos + 2))).2)) ?_ ?_ h
  · intro rest
    rw [splitLines, if_pos ⟨rfl, rfl⟩]
    rfl
  · intro a c rest pos hcrlf ih
    rw [splitLines, if_neg hcrlf, ih]
    rfl

/-- What the parser finds is the first frame of the buffer, and the others are behind it. -/
theorem asciiFrames_parseFrom {fuel : ℕ} (offset : ℕ) {b : Bytes} (hfuel : b.length ≤ fuel) :
    asciiFrames b
      = match tryParseAsciiFrom fuel offset b with
        | none => []
        | some (x, n) => x :: asciiFrames (b.drop (n - offset)) := by
  induction fuel generalizing offset b with
  | zero =>
      obtain rfl : b = [] := List.length_eq_zero_iff.1 (by omega)
      rfl
  | succ fuel ih =>
      rw [tryParseAsciiFrom]
      cases hpos : crlfPos b with
      | none =>
          rw [asciiFrames, splitLines_of_none hpos]
          rfl
      | some pos =>
          have hlt := crlfPos_lt hpos
          rw [asciiFrames, splitLines_of_some hpos, List.filterMap_cons, asciiFrame]
          simp only
          cases hline : decodeAsciiLine (b.take pos) with
          | some p =>
              simp only [Option.map_some]
              rw [Nat.add_assoc, Nat.add_sub_cancel_left]
              rfl
          | none =>
              -- the line is skipped, and the offset grows by its length
              simp only [Option.map_none]
              have hfuel' : (b.drop (pos + 2)).length ≤ fuel := by
                rw [List.length_drop]
                omega
              have hrest := ih (offset + pos + 2) hfuel'
              refine Eq.trans hrest ?_
              cases hparse : tryParseAsciiFrom fuel (offset + pos + 2) (b.drop (pos + 2)) with
              | none => rfl
              | some found =>
                  obtain ⟨x, n⟩ := found
                  have hoff := (tryParseAsciiFrom_eq_some hparse).1
                  simp only [List.drop_drop]
                  rw [show pos + 2 + (n - (offset + pos + 2)) = n - offset by omega]

/-- A buffer in which nothing is found has no frame. -/
theorem asciiFrames_of_parse_none {b : Bytes} (h : tryParseAscii b = none) :
    asciiFrames b = [] := by
  have hfrom := asciiFrames_parseFrom 0 (le_refl b.length)
  rw [tryParseAscii] at h
  rw [h] at hfrom
  exact hfrom

/-- What is found is the first frame. -/
theorem asciiFrames_of_parse_some {b : Bytes} {x : RawRequest Unit} {n : ℕ}
    (h : tryParseAscii b = some (x, n)) : asciiFrames b = x :: asciiFrames (b.drop n) := by
  have hfrom := asciiFrames_parseFrom 0 (le_refl b.length)
  rw [tryParseAscii] at h
  rw [h] at hfrom
  exact hfrom

/-! ### The parser and the reads -/

theorem crlfPos_append_of_some {b : Bytes} {pos : ℕ} (h : crlfPos b = some pos) (s : Bytes) :
    crlfPos (b ++ s) = some pos := by
  refine crlfPos_induction (P := fun b pos => crlfPos (b ++ s) = some pos) ?_ ?_ h
  · intro rest
    rw [List.cons_append, List.cons_append, crlfPos, if_pos ⟨rfl, rfl⟩]
  · intro a c rest pos hcrlf ih
    rw [List.cons_append] at ih
    rw [List.cons_append, List.cons_append, crlfPos, if_neg hcrlf, ih]
    rfl

theorem tryParseAsciiFrom_append {fuel fuel' offset n : ℕ} {b : Bytes} {x : RawRequest Unit}
    (h : tryParseAsciiFrom fuel offset b = some (x, n)) (s : Bytes) (hfuel : fuel ≤ fuel') :
    tryParseAsciiFrom fuel' offset (b ++ s) = some (x, n) := by
  induction fuel generalizing fuel' offset b with
  | zero => cases h
  | succ fuel ih =>
      obtain ⟨fuel', rfl⟩ : ∃ k, fuel' = k + 1 := ⟨fuel' - 1, by omega⟩
      rw [tryParseAsciiFrom] at h ⊢
      cases hpos : crlfPos b with
      | none =>
          rw [hpos] at h
          cases h
      | some pos =>
          have hlt := crlfPos_lt hpos
          rw [hpos] at h
          rw [crlfPos_append_of_some hpos s]
          simp only at h ⊢
          rw [List.take_append_of_le_length (by omega), List.drop_append_of_le_length (by omega)]
          cases hline : decodeAsciiLine (b.take pos) with
          | some p =>
              rw [hline] at h
              exact h
          | none =>
              rw [hline] at h
              exact ih h (by omega)

/-- **The parser does not change its mind**: the first frame of a buffer is the first frame of the
buffer with more behind it. -/
theorem asciiFramer_stable : asciiFramer.Stable := by
  intro b x n h s
  exact tryParseAsciiFrom_append h s (by rw [List.length_append]; omega)

/-- The loop takes the frames of a buffer off it, in order. -/
theorem asciiFramer_drain (b : Bytes) : (asciiFramer.drain b).1 = asciiFrames b := by
  induction b using asciiFramer.drain_induction with
  | none b hp => rw [asciiFramer.drain_none hp, asciiFrames_of_parse_none hp]
  | some b x n hp ih => rw [asciiFramer.drain_some hp, ih, asciiFrames_of_parse_some hp]

/-- **However the stream is cut**, the frames of the stream are found. -/
theorem asciiFramer_run_stream (reads : List Bytes) :
    (asciiFramer.run (fun _ => false) [] reads).1 = asciiFrames reads.flatten := by
  rw [Framer.run_eq_drain asciiFramer_stable rfl, List.nil_append, asciiFramer_drain]

/-! ### The server and the client -/

/-- What a client makes of a frame. -/
def asciiOutcome (slaveId : UInt8) (x : RawRequest Unit) : Except ModbusError Response :=
  if x.slaveId ≠ slaveId then
    .error (.protocol s!"{SLAVE_ID_MISMATCH} {slaveId}, got {x.slaveId}")
  else
    match Response.tryFrom x.pdu with
    | .error e => .error (.protocol s!"{PDU_DECODE_ERROR} {e.msg}")
    | .ok rsp => .ok rsp

theorem tryParseAsciiResponse_eq (buf : Bytes) (slaveId : UInt8) :
    tryParseAsciiResponse buf slaveId
      = (tryParseAscii buf).map fun found => asciiOutcome slaveId found.1 := by
  unfold tryParseAsciiResponse asciiOutcome
  cases tryParseAscii buf with
  | none => rfl
  | some found =>
      obtain ⟨x, n⟩ := found
      simp only [Option.map_some]
      split
      · rfl
      · cases Response.tryFrom x.pdu <;> rfl

/-- The server serves the frames of the stream, up to the first write that fails. -/
theorem serveAscii_requests {σ : Type} (service : Service σ) (writeOk : ℕ → Bool) (s : σ)
    {reads : List Bytes} (hne : ∀ bs ∈ reads, bs ≠ []) :
    (serveAscii service writeOk (.idle s) (reads.map .data)).requests
      = (ServerLoop.serveWhile asciiProtocol service writeOk (.idle s)
          (asciiFrames reads.flatten)).requests := by
  obtain ⟨b, hserve, -⟩ := serveSerial_data_while asciiProtocol service writeOk (fun _ => []) hne
    (.idle s) rfl
  change serveAscii service writeOk (.idle s) (reads.map .data) = (ServerLoop.serveWhile
    asciiProtocol service writeOk (.idle s)
    (asciiFramer.run (fun _ => false) [] reads).1).setBuf b at hserve
  rw [hserve, ServerLoop.setBuf_requests, asciiFramer_run_stream]

/-- The client returns with the first frame of the stream. -/
theorem asciiReceive_first {slaveId : UInt8} {reads : List Bytes} (hne : ∀ bs ∈ reads, bs ≠ [])
    {x : RawRequest Unit} {xs : List (RawRequest Unit)} (buf : Bytes)
    (hbuf : tryParseAscii buf = none) (hx : asciiFrames (buf ++ reads.flatten) = x :: xs)
    (events : List ReadEvent) :
    asciiReceive slaveId buf (reads.map .data ++ events) = asciiOutcome slaveId x := by
  induction reads generalizing buf with
  | nil =>
      rw [List.flatten_nil, List.append_nil, asciiFrames_of_parse_none hbuf] at hx
      cases hx
  | cons bs reads ih =>
      rw [List.flatten_cons, ← List.append_assoc] at hx
      rw [List.map_cons, List.cons_append, asciiReceive, if_neg (hne bs (by simp))]
      simp only [tryParseAsciiResponse_eq]
      cases hparse : tryParseAscii (buf ++ bs) with
      | none => exact ih (fun c hc => hne c (by simp [hc])) _ hparse hx
      | some found =>
          obtain ⟨y, n⟩ := found
          have hall := asciiFramer_stable _ _ _ hparse reads.flatten
          rw [asciiFrames_of_parse_some hall] at hx
          rw [(List.cons.inj hx).1]
          rfl

/-- **What a server hands on and what a client returns is a matter of the stream**, however it is
cut.  The server hands on the frames of the stream, all of them when its writes succeed; the client
returns what it makes of the first of them, whatever follows. -/
theorem ascii_reads {reads reads' : List Bytes} (hne : ∀ bs ∈ reads, bs ≠ [])
    (hne' : ∀ bs ∈ reads', bs ≠ []) (hcut : reads'.flatten = reads.flatten) :
    (∀ (σ : Type) (service : Service σ) (writeOk : ℕ → Bool) (s : σ),
      (serveAscii service writeOk (.idle s) (reads'.map .data)).requests
          = (serveAscii service writeOk (.idle s) (reads.map .data)).requests ∧
        ((∀ k, writeOk k = true) →
          (serveAscii service writeOk (.idle s) (reads.map .data)).requests
            = asciiFrames reads.flatten)) ∧
      ∀ (slaveId : UInt8) (x : RawRequest Unit) (xs : List (RawRequest Unit))
        (events : List ReadEvent), asciiFrames reads.flatten = x :: xs →
        asciiReceive slaveId [] (reads.map .data ++ events) = asciiOutcome slaveId x := by
  refine ⟨?_, ?_⟩
  · intro σ service writeOk s
    rw [serveAscii_requests service writeOk s hne, serveAscii_requests service writeOk s hne', hcut]
    refine ⟨rfl, ?_⟩
    intro hw
    rw [ServerLoop.serveWhile_eq_serveAll hw rfl, ServerLoop.serveAll_requests]
    rfl
  · intro slaveId x xs events hx
    exact asciiReceive_first hne [] rfl hx events

/-- A garbage line and a frame, cut inside the frame and between the CR and the LF. -/
theorem ascii_reads_cut :
    let reads : List Bytes := [[0x21, 13, 10, 58, 48], [49, 48, 54, 70, 57, 13], [10, 58]]
    let reads' : List Bytes := [[0x21, 13, 10, 58, 48, 49, 48, 54, 70, 57, 13, 10, 58]]
    (∀ (σ : Type) (service : Service σ) (writeOk : ℕ → Bool) (s : σ),
      (serveAscii service writeOk (.idle s) (reads'.map .data)).requests
          = (serveAscii service writeOk (.idle s) (reads.map .data)).requests ∧
        ((∀ k, writeOk k = true) →
          (serveAscii service writeOk (.idle s) (reads.map .data)).requests
            = asciiFrames reads.flatten)) ∧
      ∀ (slaveId : UInt8) (x : RawRequest Unit) (xs : List (RawRequest Unit))
        (events : List ReadEvent), asciiFrames reads.flatten = x :: xs →
        asciiReceive slaveId [] (reads.map .data ++ events) = asciiOutcome slaveId x :=
  @ascii_reads [[0x21, 13, 10, 58, 48], [49, 48, 54, 70, 57, 13], [10, 58]]
    [[0x21, 13, 10, 58, 48, 49, 48, 54, 70, 57, 13, 10, 58]] (by decide) (by decide) (by decide)

example :
    asciiFrames [0x21, 13, 10, 58, 48, 49, 48, 54, 70, 57, 13, 10, 58] = [⟨(), 1, [6]⟩] := by
  decide

end OmsModbus
