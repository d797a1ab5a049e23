/-
**The grammar of ASCII frames.**

A frame is a line: a colon, and an even number of hexadecimal digits that spell the bytes of a
message and its LRC.  This module says so without the parser — what a digit is, what a list of
digits spells, which lines are valid, and where the lines of a buffer end — and proves that the
parser finds the first valid line of a buffer, and nothing when there is none.

Main definitions:

* `OmsModbus.HexDigit`, `OmsModbus.Spells` — digits, and the bytes they spell;
* `OmsModbus.ValidLine` — a line that is a frame;
* `OmsModbus.IsSplit` — the lines of a buffer, and what follows the last of them.

Main results:

* `OmsModbus.decodeAsciiLine_eq_some_iff` — a line is decoded exactly when it is valid;
* `OmsModbus.isSplit_iff` — a buffer has one split into lines, and `splitLines` finds it;
* `OmsModbus.tryParseAsciiFrom_line` — one round of the loop is one line;
* `OmsModbus.tryParseAscii_grammar` — **the parser finds the first valid line**.
-/

import OmsModbus.AsciiStream

set_option relaxedAutoImplicit false
set_option autoImplicit false

namespace OmsModbus

/-! ### Digits -/

/-- A hexadecimal digit, in either case, and its value. -/
inductive HexDigit : UInt8 → UInt8 → Prop
  | decimal (d : UInt8) (hd : d < 10) : HexDigit (0x30 + d) d
  | upper (d : UInt8) (hd : d < 6) : HexDigit (0x41 + d) (10 + d)
  | lower (d : UInt8) (hd : d < 6) : HexDigit (0x61 + d) (10 + d)

/-- The bytes that a list of digits spells, two digits each. -/
inductive Spells : Bytes → Bytes → Prop
  | nil : Spells [] []
  | cons {hi lo h l : UInt8} {digits bytes : Bytes} (hhi : HexDigit hi h) (hlo : HexDigit lo l)
      (hrest : Spells digits bytes) : Spells (hi :: lo :: digits) ((16 * h + l) :: bytes)

/-- A line is a frame with the data `d`. -/
structure ValidLine (line d : Bytes) : Prop where
  spelled : ∃ digits, line = ASCII_START :: digits ∧ Spells digits (d ++ [calculateLrc d])
  long : 2 ≤ d.length

theorem HexDigit.lt {c v : UInt8} (h : HexDigit c v) : v.toNat < 16 := by
  cases h with
  | decimal d hd =>
      have : v.toNat < 10 := hd
      omega
  | upper d hd | lower d hd =>
      have hlt : d.toNat < 6 := hd
      rw [UInt8.toNat_add]
      have : (10 : UInt8).toNat = 10 := rfl
      omega

private theorem sub_lt_of_range {c lo n : UInt8} (hlo : lo ≤ c)
    (hlt : c.toNat < lo.toNat + n.toNat) :
    c - lo < n ∧ lo + (c - lo) = c := by
  have hle : lo.toNat ≤ c.toNat := hlo
  refine ⟨?_, ?_⟩
  · rw [UInt8.lt_iff_toNat_lt, UInt8.toNat_sub_of_le _ _ hlo]
    omega
  · rw [UInt8.add_comm, UInt8.sub_add_cancel]

private theorem nibble_digits :
    (∀ d < 10, nibble (0x30 + UInt8.ofNat d) = some (UInt8.ofNat d)) ∧
      (∀ d < 6, nibble (0x41 + UInt8.ofNat d) = some (10 + UInt8.ofNat d)) ∧
      ∀ d < 6, nibble (0x61 + UInt8.ofNat d) = some (10 + UInt8.ofNat d) := by
  decide

/-- The values that are read are those of the digits. -/
theorem nibble_eq_some_iff {c v : UInt8} : nibble c = some v ↔ HexDigit c v := by
  constructor
  · intro h
    unfold nibble at h
    split at h
    · next hrange =>
      cases h
      obtain ⟨hlt, heq⟩ := sub_lt_of_range (n := 10) hrange.1 (Nat.lt_succ_of_le hrange.2)
      have hdigit := HexDigit.decimal _ hlt
      rw [heq] at hdigit
      exact hdigit
    · split at h
      · next hrange =>
        cases h
        obtain ⟨hlt, heq⟩ := sub_lt_of_range (n := 6) hrange.1 (Nat.lt_succ_of_le hrange.2)
        have hdigit := HexDigit.upper _ hlt
        rw [heq, UInt8.add_comm] at hdigit
        exact hdigit
      · split at h
        · next hrange =>
          cases h
          obtain ⟨hlt, heq⟩ := sub_lt_of_range (n := 6) hrange.1 (Nat.lt_succ_of_le hrange.2)
          have hdigit := HexDigit.lower _ hlt
          rw [heq, UInt8.add_comm] at hdigit
          exact hdigit
        · cases h
  · intro h
    obtain ⟨hdecimal, hupper, hlower⟩ := nibble_digits
    cases h with
    | decimal _ hd => simpa using hdecimal v.toNat hd
    | upper d hd => simpa using hupper d.toNat hd
    | lower d hd => simpa using hlower d.toNat hd

/-- Two digits make a byte. -/
private theorem shiftLeft_or {h l : UInt8} (hh : h.toNat < 16) (hl : l.toNat < 16) :
    (h <<< 4) ||| l = 16 * h + l := by
  apply UInt8.toNat_inj.1
  have hshift : (h <<< 4).toNat = h.toNat <<< 4 := by
    rw [UInt8.toNat_shiftLeft, show (4 : UInt8).toNat % 8 = 4 from rfl, Nat.shiftLeft_eq]
    omega
  have hsixteen : (16 : UInt8).toNat = 16 := rfl
  rw [UInt8.toNat_or, hshift, ← Nat.shiftLeft_add_eq_or_of_lt (show l.toNat < 2 ^ 4 by omega),
    Nat.shiftLeft_eq, UInt8.toNat_add, UInt8.toNat_mul, hsixteen]
  omega

theorem hexDecodeByte_eq_some_iff {hi lo b : UInt8} :
    hexDecodeByte hi lo = some b ↔
      ∃ h l, HexDigit hi h ∧ HexDigit lo l ∧ b = 16 * h + l := by
  unfold hexDecodeByte
  constructor
  · intro heq
    split at heq
    · next h l hh hl =>
      cases heq
      have hhi := nibble_eq_some_iff.1 hh
      have hlo := nibble_eq_some_iff.1 hl
      exact ⟨h, l, hhi, hlo, shiftLeft_or hhi.lt hlo.lt⟩
    · cases heq
  · intro heq
    obtain ⟨h, l, hhi, hlo, rfl⟩ := heq
    rw [nibble_eq_some_iff.2 hhi, nibble_eq_some_iff.2 hlo]
    exact congrArg some (shiftLeft_or hhi.lt hlo.lt)

/-- **Digits are decoded as the bytes they spell.** -/
theorem hexDecode_eq_some_iff {digits bytes : Bytes} :
    hexDecode digits = some bytes ↔ Spells digits bytes := by
  constructor
  · intro h
    induction digits using hexDecode.induct generalizing bytes with
    | case1 =>
        cases h
        exact .nil
    | case2 c => cases h
    | case3 hi lo digits hbyte =>
        rw [hexDecode, hbyte] at h
        cases h
    | case4 hi lo digits b hbyte ih =>
        rw [hexDecode, hbyte] at h
        obtain ⟨rest, hrest, rfl⟩ := Option.map_eq_some_iff.1 h
        obtain ⟨hv, lv, hhi, hlo, rfl⟩ := hexDecodeByte_eq_some_iff.1 hbyte
        exact .cons hhi hlo (ih hrest)
  · intro h
    induction h with
    | nil => rfl
    | cons hhi hlo _ ih =>
        rw [hexDecode, hexDecodeByte_eq_some_iff.2 ⟨_, _, hhi, hlo, rfl⟩]
        simp only
        rw [ih]
        rfl

/-! ### Lines -/

private theorem take_concat (d : Bytes) (l : UInt8) :
    (d ++ [l]).take ((d ++ [l]).length - 1) = d ∧
      (d ++ [l]).getD ((d ++ [l]).length - 1) 0 = l := by
  rw [List.length_append, List.length_singleton, Nat.add_sub_cancel]
  refine ⟨List.take_left, ?_⟩
  rw [List.getD_append_right _ _ _ _ le_rfl, Nat.sub_self, List.getD_cons_zero]

/-- **A line is decoded exactly when it is valid.** -/
theorem decodeAsciiLine_eq_some_iff {line : Bytes} {slaveId : UInt8} {pdu : Bytes} :
    decodeAsciiLine line = some (slaveId, pdu) ↔ ValidLine line (slaveId :: pdu) := by
  constructor
  · intro h
    unfold decodeAsciiLine at h
    split at h
    · cases h
    · next c digits =>
      split at h
      · cases h
      · next hcolon =>
        split at h
        · cases h
        · next bytes hbytes =>
          split at h
          · next hlen =>
            -- the last byte is the LRC of those in front of it
            rcases List.eq_nil_or_concat bytes with rfl | ⟨d, l, rfl⟩
            · exact absurd hlen (by simp)
            · rw [List.concat_eq_append] at hbytes h
              obtain ⟨htake, hlast⟩ := take_concat d l
              simp only [htake, hlast] at h
              split at h
              · split at h
                · next hlrc =>
                  cases h
                  rw [hlrc] at hbytes
                  exact ⟨⟨digits, by rw [not_ne_iff.1 hcolon], hexDecode_eq_some_iff.1 hbytes⟩,
                    by simp⟩
                · cases h
              · cases h
          · cases h
  · intro h
    obtain ⟨digits, rfl, hspells⟩ := h.spelled
    obtain ⟨htake, hlast⟩ := take_concat (slaveId :: pdu) (calculateLrc (slaveId :: pdu))
    have hlen : 2 ≤ ((slaveId :: pdu) ++ [calculateLrc (slaveId :: pdu)]).length := by
      have := h.long
      rw [List.length_append]
      omega
    obtain ⟨fc, data, rfl⟩ : ∃ fc data, pdu = fc :: data := by
      cases pdu with
      | nil => exact absurd h.long (by simp)
      | cons fc data => exact ⟨fc, data, rfl⟩
    rw [decodeAsciiLine, if_neg (by simp), hexDecode_eq_some_iff.2 hspells]
    simp only [htake, hlast]
    rw [if_pos hlen, if_pos trivial]

/-- A line that is decoded as nothing is not valid. -/
theorem decodeAsciiLine_eq_none_iff {line : Bytes} :
    decodeAsciiLine line = none ↔ ∀ d, ¬ ValidLine line d := by
  constructor
  · intro h d hd
    cases d with
    | nil => exact absurd hd.long (by simp)
    | cons slaveId pdu =>
        rw [decodeAsciiLine_eq_some_iff.2 hd] at h
        cases h
  · intro h
    cases hline : decodeAsciiLine line with
    | none => rfl
    | some found =>
        obtain ⟨slaveId, pdu⟩ := found
        exact absurd (decodeAsciiLine_eq_some_iff.1 hline) (h _)

/-! ### The lines of a buffer -/

/-- The lines of a buffer, each of them in front of the first CR LF there is, and the rest. -/
structure IsSplit (b : Bytes) (lines : List Bytes) (rest : Bytes) : Prop where
  whole : b = lines.flatMap (· ++ [CR, LF]) ++ rest
  first : ∀ line ∈ lines, ¬ [CR, LF] <:+: line ++ [CR]
  left : ¬ [CR, LF] <:+: rest

theorem crlf_infix_cons {a c : UInt8} {b : Bytes} :
    [CR, LF] <:+: a :: c :: b ↔ (a = CR ∧ c = LF) ∨ [CR, LF] <:+: c :: b := by
  rw [List.infix_cons_iff, List.cons_prefix_cons, List.cons_prefix_cons]
  simp [eq_comm]

/-- No line ends where there is no CR LF. -/
theorem crlfPos_eq_none_iff {b : Bytes} : crlfPos b = none ↔ ¬ [CR, LF] <:+: b := by
  induction b with
  | nil => simp [crlfPos]
  | cons a b ih =>
      cases b with
      | nil => simp [crlfPos, List.infix_cons_iff]
      | cons c rest =>
          rw [crlf_infix_cons, crlfPos]
          split
          · next hcrlf => simp [hcrlf]
          · next hcrlf => simp [hcrlf, ih]

/-- A line ends at the first CR LF. -/
theorem crlfPos_line {line : Bytes} (h : ¬ [CR, LF] <:+: line ++ [CR]) (s : Bytes) :
    crlfPos (line ++ CR :: LF :: s) = some line.length := by
  induction line with
  | nil => rfl
  | cons a line ih =>
      cases line with
      | nil =>
          have hcr : ¬ (a = CR ∧ CR = LF) := fun hc => absurd hc.2 (by decide)
          rw [List.cons_append, List.nil_append, crlfPos, if_neg hcr]
          rfl
      | cons c line =>
          rw [List.cons_append, List.cons_append, crlf_infix_cons] at h
          obtain ⟨hcrlf, hline⟩ := not_or.1 h
          have ih := ih hline
          rw [List.cons_append] at ih
          rw [List.cons_append, List.cons_append, crlfPos, if_neg hcrlf, ih]
          rfl

theorem exists_line {b : Bytes} {pos : ℕ} (h : crlfPos b = some pos) :
    ∃ line s, b = line ++ CR :: LF :: s ∧ line.length = pos ∧ ¬ [CR, LF] <:+: line ++ [CR] := by
  refine crlfPos_induction (P := fun b pos => ∃ line s, b = line ++ CR :: LF :: s ∧
    line.length = pos ∧ ¬ [CR, LF] <:+: line ++ [CR]) ?_ ?_ h
  · intro rest
    exact ⟨[], rest, rfl, rfl, by decide⟩
  · intro a c rest pos hcrlf ih
    obtain ⟨line, s, heq, hlen, hline⟩ := ih
    refine ⟨a :: line, s, by rw [heq, List.cons_append], by rw [List.length_cons, hlen], ?_⟩
    cases line with
    | nil =>
        obtain ⟨rfl, rfl⟩ := List.cons.inj heq
        simp [List.infix_cons_iff, CR, LF]
    | cons c' line =>
        obtain ⟨rfl, -⟩ := List.cons.inj heq
        rw [List.cons_append, List.cons_append, crlf_infix_cons]
        exact not_or.2 ⟨hcrlf, hline⟩

/-- The lines behind the first one are split by themselves. -/
theorem isSplit_cons_iff {line b rest : Bytes} {lines : List Bytes} :
    IsSplit b (line :: lines) rest ↔
      ∃ s, b = line ++ CR :: LF :: s ∧ ¬ [CR, LF] <:+: line ++ [CR] ∧ IsSplit s lines rest := by
  constructor
  · intro h
    refine ⟨lines.flatMap (· ++ [CR, LF]) ++ rest, ?_, h.first line (by simp), rfl, ?_, h.left⟩
    · rw [h.whole]
      simp
    · exact fun l hl => h.first l (List.mem_cons_of_mem _ hl)
  · intro h
    obtain ⟨s, rfl, hline, hs⟩ := h
    refine ⟨?_, ?_, hs.left⟩
    · rw [hs.whole]
      simp
    · intro l hl
      rcases List.mem_cons.1 hl with rfl | hl
      · exact hline
      · exact hs.first l hl

/-- **A buffer has one split into lines**, and it is the one that is computed. -/
theorem isSplit_iff {b rest : Bytes} {lines : List Bytes} :
    IsSplit b lines rest ↔ splitLines b = (lines, rest) := by
  constructor
  · intro h
    induction lines generalizing b with
    | nil =>
        have hb : b = rest := h.whole
        rw [hb, splitLines_of_none (crlfPos_eq_none_iff.2 h.left)]
    | cons line lines ih =>
        obtain ⟨s, rfl, hline, hs⟩ := isSplit_cons_iff.1 h
        have hdrop : (line ++ CR :: LF :: s).drop (line.length + 2) = s := by
          rw [← List.drop_drop, List.drop_left]
          rfl
        rw [splitLines_of_some (crlfPos_line hline s), hdrop, ih hs, List.take_left]
  · intro h
    induction hn : b.length using Nat.strong_induction_on generalizing b lines with
    | _ n ih =>
        cases hpos : crlfPos b with
        | none =>
            rw [splitLines_of_none hpos] at h
            cases h
            exact ⟨rfl, fun _ hl => absurd hl (List.not_mem_nil), crlfPos_eq_none_iff.1 hpos⟩
        | some pos =>
            obtain ⟨line, s, rfl, rfl, hline⟩ := exists_line hpos
            have hdrop : (line ++ CR :: LF :: s).drop (line.length + 2) = s := by
              rw [← List.drop_drop, List.drop_left]
              rfl
            rw [splitLines_of_some hpos, hdrop, List.take_left] at h
            cases h
            have hlen : s.length < n := by
              rw [← hn, List.length_append]
              simp only [List.length_cons]
              omega
            exact isSplit_cons_iff.2 ⟨s, rfl, hline, ih _ hlen rfl rfl⟩

/-! ### The parser -/

/-- The length of some lines with their ends. -/
def linesLength (lines : List Bytes) : ℕ := (lines.flatMap (· ++ [CR, LF])).length

theorem linesLength_cons (line : Bytes) (lines : List Bytes) :
    linesLength (line :: lines) = line.length + 2 + linesLength lines := by
  simp [linesLength]
  omega

/-- One round of the loop over a buffer that starts with a line. -/
theorem tryParseAsciiFrom_line {fuel offset : ℕ} {line s : Bytes}
    (hline : ¬ [CR, LF] <:+: line ++ [CR]) :
    tryParseAsciiFrom (fuel + 1) offset (line ++ CR :: LF :: s)
      = (decodeAsciiLine line).elim (tryParseAsciiFrom fuel (offset + line.length + 2) s)
          fun p => some (⟨(), p.1, p.2⟩, offset + line.length + 2) := by
  have hdrop : (line ++ CR :: LF :: s).drop (line.length + 2) = s := by
    rw [← List.drop_drop, List.drop_left]
    rfl
  rw [tryParseAsciiFrom, crlfPos_line hline]
  simp only [List.take_left, hdrop]
  cases decodeAsciiLine line <;> rfl

/-- No valid line, no frame. -/
theorem tryParseAsciiFrom_of_invalid {fuel offset : ℕ} {b rest : Bytes} {lines : List Bytes}
    (h : IsSplit b lines rest) (hinvalid : ∀ line ∈ lines, ∀ d, ¬ ValidLine line d) :
    tryParseAsciiFrom fuel offset b = none := by
  induction lines generalizing fuel offset b with
  | nil =>
      have hb : b = rest := h.whole
      cases fuel with
      | zero => rfl
      | succ fuel => rw [tryParseAsciiFrom, crlfPos_eq_none_iff.2 (hb ▸ h.left)]
  | cons line lines ih =>
      obtain ⟨s, rfl, hline, hs⟩ := isSplit_cons_iff.1 h
      cases fuel with
      | zero => rfl
      | succ fuel =>
          rw [tryParseAsciiFrom_line hline,
            decodeAsciiLine_eq_none_iff.2 (hinvalid line (List.mem_cons_self ..))]
          exact ih hs fun l hl => hinvalid l (List.mem_cons_of_mem _ hl)

/-- The first valid line is found. -/
theorem tryParseAsciiFrom_of_valid {fuel offset : ℕ} {b rest line : Bytes}
    {skipped more : List Bytes} {slaveId : UInt8} {pdu : Bytes}
    (h : IsSplit b (skipped ++ line :: more) rest) (hfuel : b.length ≤ fuel)
    (hskipped : ∀ l ∈ skipped, ∀ d, ¬ ValidLine l d) (hvalid : ValidLine line (slaveId :: pdu)) :
    tryParseAsciiFrom fuel offset b
      = some (⟨(), slaveId, pdu⟩, offset + linesLength (skipped ++ [line])) := by
  induction skipped generalizing fuel offset b with
  | nil =>
      obtain ⟨s, rfl, hline, hs⟩ := isSplit_cons_iff.1 h
      obtain ⟨fuel, rfl⟩ : ∃ m, fuel = m + 1 := ⟨fuel - 1, by simp at hfuel; omega⟩
      rw [tryParseAsciiFrom_line hline, decodeAsciiLine_eq_some_iff.2 hvalid]
      simp [linesLength, Nat.add_assoc]
  | cons l skipped ih =>
      obtain ⟨s, rfl, hline, hs⟩ := isSplit_cons_iff.1 h
      rw [List.length_append, List.length_cons, List.length_cons] at hfuel
      obtain ⟨fuel, rfl⟩ : ∃ m, fuel = m + 1 := ⟨fuel - 1, by omega⟩
      rw [tryParseAsciiFrom_line hline,
        decodeAsciiLine_eq_none_iff.2 (hskipped l (List.mem_cons_self ..))]
      rw [Option.elim_none, ih hs (by omega) fun l' hl => hskipped l' (List.mem_cons_of_mem _ hl),
        List.cons_append, linesLength_cons]
      simp only [Nat.add_assoc]

/-- Among some lines there is a first valid one, or none is valid. -/
theorem exists_first_valid (lines : List Bytes) :
    (∀ line ∈ lines, ∀ d, ¬ ValidLine line d) ∨
      ∃ skipped line more d, lines = skipped ++ line :: more ∧
        (∀ l ∈ skipped, ∀ d, ¬ ValidLine l d) ∧ ValidLine line d := by
  induction lines with
  | nil =>
      left
      intro line hline
      cases hline
  | cons line lines ih =>
      by_cases hvalid : ∃ d, ValidLine line d
      · obtain ⟨d, hd⟩ := hvalid
        refine .inr ⟨[], line, lines, d, rfl, ?_, hd⟩
        intro l hl
        cases hl
      · have hline := not_exists.1 hvalid
        rcases ih with hnone | ⟨skipped, l, more, d, rfl, hskipped, hd⟩
        · left
          intro l hl
          rcases List.mem_cons.1 hl with rfl | hl
          · exact hline
          · exact hnone l hl
        · refine .inr ⟨line :: skipped, l, more, d, rfl, ?_, hd⟩
          intro l' hl
          rcases List.mem_cons.1 hl with rfl | hl
          · exact hline
          · exact hskipped l' hl

section Split

variable {b rest : Bytes} {lines : List Bytes}

theorem tryParseAscii_of_valid (h : IsSplit b lines rest) {skipped more : List Bytes} {line : Bytes}
    {slaveId : UInt8} {pdu : Bytes} (hlines : lines = skipped ++ line :: more)
    (hskipped : ∀ l ∈ skipped, ∀ d, ¬ ValidLine l d) (hvalid : ValidLine line (slaveId :: pdu)) :
    tryParseAscii b = some (⟨(), slaveId, pdu⟩, linesLength (skipped ++ [line])) := by
  rw [hlines] at h
  rw [tryParseAscii, tryParseAsciiFrom_of_valid h le_rfl hskipped hvalid, Nat.zero_add]

/-- Nothing is found exactly when no line is valid. -/
theorem tryParseAscii_eq_none_iff (h : IsSplit b lines rest) :
    tryParseAscii b = none ↔ ∀ line ∈ lines, ∀ d, ¬ ValidLine line d := by
  constructor
  · intro hnone
    rcases exists_first_valid lines with hinvalid |
      ⟨skipped, line, more, d, hlines, hskipped, hvalid⟩
    · exact hinvalid
    · cases d with
      | nil => exact absurd hvalid.long (by simp)
      | cons slaveId pdu =>
          rw [tryParseAscii_of_valid h hlines hskipped hvalid] at hnone
          cases hnone
  · intro hinvalid
    exact tryParseAsciiFrom_of_invalid h hinvalid

/-- What is found is the first valid line. -/
theorem tryParseAscii_eq_some_iff (h : IsSplit b lines rest) {slaveId : UInt8} {pdu : Bytes}
    {n : ℕ} :
    tryParseAscii b = some (⟨(), slaveId, pdu⟩, n) ↔
      ∃ skipped line more, lines = skipped ++ line :: more ∧
        (∀ l ∈ skipped, ∀ d, ¬ ValidLine l d) ∧ ValidLine line (slaveId :: pdu) ∧
        n = linesLength (skipped ++ [line]) := by
  constructor
  · intro hsome
    rcases exists_first_valid lines with hinvalid |
      ⟨skipped, line, more, d, hlines, hskipped, hvalid⟩
    · rw [(tryParseAscii_eq_none_iff h).2 hinvalid] at hsome
      cases hsome
    · cases d with
      | nil => exact absurd hvalid.long (by simp)
      | cons slaveId' pdu' =>
          rw [tryParseAscii_of_valid h hlines hskipped hvalid] at hsome
          cases hsome
          exact ⟨skipped, line, more, hlines, hskipped, hvalid, rfl⟩
  · intro hfirst
    obtain ⟨skipped, line, more, hlines, hskipped, hvalid, rfl⟩ := hfirst
    exact tryParseAscii_of_valid h hlines hskipped hvalid

end Split

/-- **The parser finds the first valid line** of a buffer, with the offset behind its end, and
nothing exactly when no complete line is valid; a frame is found in front of anything. -/
theorem tryParseAscii_grammar :
    (∀ b : Bytes, ∃ lines rest, IsSplit b lines rest ∧
      (tryParseAscii b = none ↔ ∀ line ∈ lines, ∀ d, ¬ ValidLine line d) ∧
      ∀ (slaveId : UInt8) (pdu : Bytes) (n : ℕ),
        tryParseAscii b = some (⟨(), slaveId, pdu⟩, n) ↔
          ∃ skipped line more, lines = skipped ++ line :: more ∧
            (∀ l ∈ skipped, ∀ d, ¬ ValidLine l d) ∧ ValidLine line (slaveId :: pdu) ∧
            n = linesLength (skipped ++ [line])) ∧
      ∀ d t : Bytes, 2 ≤ d.length →
        tryParseAscii (encodeAsciiFrameInto d [] ++ t)
          = some (⟨(), d.headD 0, d.tail⟩, (encodeAsciiFrameInto d []).length) := by
  refine ⟨?_, ?_⟩
  · intro b
    have hsplit : IsSplit b (splitLines b).1 (splitLines b).2 := isSplit_iff.2 rfl
    exact ⟨_, _, hsplit, tryParseAscii_eq_none_iff hsplit,
      fun _ _ _ => tryParseAscii_eq_some_iff hsplit⟩
  · intro d t hd
    cases d with
    | nil => exact absurd hd (by simp)
    | cons slaveId pdu =>
        cases pdu with
        | nil => exact absurd hd (by simp)
        | cons fc data => exact tryParseAscii_encode t

/-- A frame in front of the beginning of another. -/
theorem tryParseAscii_grammar_front :
    tryParseAscii (encodeAsciiFrameInto [1, 6] [] ++ [58, 48])
      = some (⟨(), 1, [6]⟩, (encodeAsciiFrameInto [1, 6] []).length) :=
  tryParseAscii_grammar.2 [1, 6] [58, 48] (by decide)

end OmsModbus
