/-
**Which errors the LRC of an ASCII frame sees.**

The LRC of a frame is a sum, so it does not see two digits that change places; but it sees every
error in a single character.  A character of the line is the colon, one of the two digits of a
byte, or the end of the line: without the colon or the end there is no line, and a digit that
changes its value changes one byte and with it the sum.  The error may also put the end of a line
in the wrong place, but CR and LF stand next to each other in no line that has only one wrong
character.

Main results:

* `OmsModbus.Spells.set` — one wrong digit is one wrong byte;
* `OmsModbus.ValidLine.eq_of_set` — a line with one wrong character spells nothing new;
* `OmsModbus.tryParseAscii_corrupted` — **a frame with one wrong character is read as itself or not
  at all**.
-/

import OmsModbus.AsciiGrammar

set_option relaxedAutoImplicit false
set_option autoImplicit false

namespace OmsModbus

/-! ### Sums -/

/-- A list that changes in one place without changing its sum does not change. -/
theorem eq_of_sum_set {M : Type*} [AddCommGroup M] {l : List M} {j : ℕ} {b : M}
    (h : (l.set j b).sum = l.sum) : l.set j b = l := by
  rw [List.sum_set', add_eq_left] at h
  by_cases hj : j < l.length
  · rw [dif_pos hj, neg_add_eq_zero] at h
    rw [← h, List.set_getElem_self]
  · exact List.set_eq_of_length_le (Nat.le_of_not_lt hj)

/-- The bytes of a line with their LRC add up to zero. -/
theorem sum_calculateLrc (d : Bytes) : (d ++ [calculateLrc d]).sum = 0 := by
  rw [List.sum_append, List.sum_singleton, calculateLrc, ← List.sum_eq_foldl, add_neg_cancel]

/-! ### Digits -/

theorem HexDigit.not_end {c v : UInt8} (h : HexDigit c v) : c ≠ CR ∧ c ≠ LF := by
  have hnibble := nibble_eq_some_iff.2 h
  constructor
  · rintro rfl
    exact absurd hnibble (by simp [show nibble CR = none by decide])
  · rintro rfl
    exact absurd hnibble (by simp [show nibble LF = none by decide])

theorem HexDigit.unique {c v v' : UInt8} (h : HexDigit c v) (h' : HexDigit c v') : v' = v := by
  have heq := nibble_eq_some_iff.2 h'
  rw [nibble_eq_some_iff.2 h] at heq
  exact (Option.some.inj heq).symm

/-- There is no end of a line among digits. -/
theorem Spells.not_end {digits bytes : Bytes} (h : Spells digits bytes) :
    CR ∉ digits ∧ LF ∉ digits := by
  induction h with
  | nil => simp
  | cons hhi hlo _ ih =>
      obtain ⟨hhiCR, hhiLF⟩ := hhi.not_end
      obtain ⟨hloCR, hloLF⟩ := hlo.not_end
      simp [hhiCR.symm, hhiLF.symm, hloCR.symm, hloLF.symm, ih]

/-- Digits spell one list of bytes. -/
theorem Spells.unique {digits bytes bytes' : Bytes} (h : Spells digits bytes)
    (h' : Spells digits bytes') : bytes' = bytes := by
  have heq := hexDecode_eq_some_iff.2 h'
  rw [hexDecode_eq_some_iff.2 h] at heq
  exact (Option.some.inj heq).symm

/-- **One wrong digit is one wrong byte.** -/
theorem Spells.set {digits bytes bytes' : Bytes} {k : ℕ} {v : UInt8} (h : Spells digits bytes)
    (h' : Spells (digits.set k v) bytes') : ∃ j b, bytes' = bytes.set j b := by
  induction h generalizing k bytes' with
  | nil =>
      cases h'
      exact ⟨0, 0, rfl⟩
  | cons hhi hlo hrest ih =>
      rcases k with _ | _ | k
      · obtain _ | ⟨_, _, hrest'⟩ := h'
        exact ⟨0, _, by rw [hrest.unique hrest', List.set_cons_zero]⟩
      · obtain _ | ⟨_, _, hrest'⟩ := h'
        exact ⟨0, _, by rw [hrest.unique hrest', List.set_cons_zero]⟩
      · obtain _ | ⟨hhi', hlo', hrest'⟩ := h'
        obtain ⟨j, b, rfl⟩ := ih hrest'
        rw [hhi.unique hhi', hlo.unique hlo']
        exact ⟨j + 1, b, rfl⟩

/-! ### Lines -/

theorem validLine_asciiLine {d : Bytes} (h : 2 ≤ d.length) : ValidLine (asciiLine d) d :=
  ⟨⟨_, rfl, hexDecode_eq_some_iff.1 (hexDecode_hexEncode _)⟩, h⟩

/-- **A line with one wrong character spells nothing new.** -/
theorem ValidLine.eq_of_set {line d d' : Bytes} {i : ℕ} {v : UInt8} (h : ValidLine line d)
    (h' : ValidLine (line.set i v) d') : d' = d := by
  obtain ⟨digits, rfl, hspells⟩ := h.spelled
  obtain ⟨digits', hline, hspells'⟩ := h'.spelled
  have hbytes : d' ++ [calculateLrc d'] = d ++ [calculateLrc d] := by
    cases i with
    | zero =>
        -- without its colon the line is not valid
        rw [List.set_cons_zero, List.cons.injEq] at hline
        rw [← hline.2] at hspells'
        exact hspells.unique hspells'
    | succ k =>
        rw [List.set_cons_succ, List.cons.injEq] at hline
        rw [← hline.2] at hspells'
        obtain ⟨j, b, heq⟩ := hspells.set hspells'
        rw [heq]
        apply eq_of_sum_set
        rw [← heq, sum_calculateLrc, sum_calculateLrc]
  exact (List.append_inj' hbytes rfl).1

/-- There is no end of a line in a line. -/
theorem not_end_asciiLine (d : Bytes) : CR ∉ asciiLine d ∧ LF ∉ asciiLine d := by
  have hspells := hexDecode_eq_some_iff.1 (hexDecode_hexEncode (d ++ [calculateLrc d]))
  have hends := hspells.not_end
  simp only [asciiLine, List.mem_cons, not_or]
  exact ⟨⟨by decide, hends.1⟩, ⟨by decide, hends.2⟩⟩

/-- A CR LF consists of a CR and an LF. -/
theorem mem_of_crlf {b : Bytes} (h : [CR, LF] <:+: b) : CR ∈ b ∧ LF ∈ b :=
  ⟨h.subset (by simp), h.subset (by simp)⟩

/-- One wrong character makes no CR LF in a line, nor with the CR behind it. -/
theorem not_crlf_set {line : Bytes} (hCR : CR ∉ line) (hLF : LF ∉ line) (i : ℕ) (v : UInt8) :
    ¬ [CR, LF] <:+: line.set i v ++ [CR] := by
  intro h
  rcases List.infix_concat_iff.1 h with hend | hin
  · obtain hnil | ⟨t, ht, -⟩ := List.suffix_concat_iff.1 hend
    · cases hnil
    · exact absurd (congrArg List.getLast? ht) (by simp [CR, LF])
  · obtain ⟨h₁, h₂⟩ := mem_of_crlf hin
    have hv₁ := (List.mem_or_eq_of_mem_set h₁).resolve_left hCR
    have hv₂ := (List.mem_or_eq_of_mem_set h₂).resolve_left hLF
    rw [← hv₁] at hv₂
    exact absurd hv₂ (by decide)

/-! ### Frames -/

theorem tryParseAscii_of_not_crlf {b : Bytes} (h : ¬ [CR, LF] <:+: b) : tryParseAscii b = none := by
  have hsplit : IsSplit b [] b := ⟨rfl, fun _ hl => absurd hl List.not_mem_nil, h⟩
  exact tryParseAsciiFrom_of_invalid hsplit fun _ hl => absurd hl List.not_mem_nil

/-- A buffer of one line is that line. -/
theorem tryParseAscii_line {line : Bytes} (hline : ¬ [CR, LF] <:+: line ++ [CR]) :
    tryParseAscii (line ++ [CR, LF])
      = (decodeAsciiLine line).map fun p => (⟨(), p.1, p.2⟩, line.length + 2) := by
  have hfuel : (line ++ [CR, LF]).length = line.length + 1 + 1 := by simp
  rw [tryParseAscii, hfuel, tryParseAsciiFrom_line hline]
  cases decodeAsciiLine line with
  | none =>
      have hnil : ¬ [CR, LF] <:+: [] := by simp
      have hsplit : IsSplit [] [] [] := ⟨rfl, fun _ hl => absurd hl List.not_mem_nil, hnil⟩
      exact tryParseAsciiFrom_of_invalid hsplit fun _ hl => absurd hl List.not_mem_nil
  | some p => simp

/-- **A frame with one wrong character is read as itself or not at all.** -/
theorem tryParseAscii_corrupted (slaveId fc : UInt8) (data : Bytes) (i : ℕ) (v : UInt8) :
    tryParseAscii ((encodeAsciiFrameInto (slaveId :: fc :: data) []).set i v) = none ∨
      tryParseAscii ((encodeAsciiFrameInto (slaveId :: fc :: data) []).set i v)
        = some (⟨(), slaveId, fc :: data⟩,
            (encodeAsciiFrameInto (slaveId :: fc :: data) []).length) := by
  have hgood : tryParseAscii (encodeAsciiFrameInto (slaveId :: fc :: data) [])
      = some (⟨(), slaveId, fc :: data⟩,
          (encodeAsciiFrameInto (slaveId :: fc :: data) []).length) := by
    have henc := @tryParseAscii_encode slaveId fc data []
    rwa [List.append_nil] at henc
  obtain ⟨hCR, hLF⟩ := not_end_asciiLine (slaveId :: fc :: data)
  have hvalid := validLine_asciiLine (d := slaveId :: fc :: data) (by simp)
  rw [encodeAsciiFrameInto_line] at hgood ⊢
  generalize asciiLine (slaveId :: fc :: data) = line at hgood hCR hLF hvalid ⊢
  rw [List.set_append]
  split
  · -- the line
    next hi =>
    have hline := not_crlf_set hCR hLF i v
    rw [tryParseAscii_line hline]
    cases hdec : decodeAsciiLine (line.set i v) with
    | none => exact .inl rfl
    | some p =>
        have heq := hvalid.eq_of_set (decodeAsciiLine_eq_some_iff.1 hdec)
        rw [List.cons.injEq] at heq
        right
        simp [heq]
  · rcases hk : i - line.length with _ | _ | k
    · -- the CR
      by_cases hv : v = CR
      · exact .inr (by rw [hv]; exact hgood)
      · refine .inl (tryParseAscii_of_not_crlf fun h => ?_)
        have hmem := (mem_of_crlf h).1
        simp [hCR, Ne.symm hv, show CR ≠ LF by decide] at hmem
    · -- the LF
      by_cases hv : v = LF
      · exact .inr (by rw [hv]; exact hgood)
      · refine .inl (tryParseAscii_of_not_crlf fun h => ?_)
        have hmem := (mem_of_crlf h).2
        simp [hLF, Ne.symm hv, show LF ≠ CR by decide] at hmem
    · exact .inr hgood

end OmsModbus
