/-
**The text of captured packets.**

A captured packet is printed on one line: its time, its direction, the number of its bytes, the
bytes, and the text of the error if there was one.  Who reads such a line, or a file of them, wants
to get the packets back, and to sort lines by their beginnings.

Main definitions:

* `OmsModbus.Capture.formatRecord`, `OmsModbus.Capture.display` — a record in the file of a recorder
  and on a display;
* `OmsModbus.Capture.logText` — a file of lines.

Main results:

* `OmsModbus.Capture.isoChars_inj`, `OmsModbus.Capture.isoChars_lt` — times are told apart and
  ordered by their texts;
* `OmsModbus.Capture.formatTimestamp_order` — **the text of a time**, for all times;
* `OmsModbus.Capture.log_readable` — **the records can be read back** from a line, and from a file
  as long as no error has a line break in its text.
-/

import OmsModbus.BusCapture
import OmsModbus.TextFormat
import OmsModbus.Timestamp

set_option relaxedAutoImplicit false
set_option autoImplicit false

namespace OmsModbus.Capture

open TextFormat Calendar PanicChecks

/-! ### Times -/

/-- The characters of a time. -/
def isoChars (y m d hour min sec us : ℕ) : List Char :=
  padded '0' 4 y ++ '-' :: (padded '0' 2 m ++ '-' :: (padded '0' 2 d ++ 'T' ::
    (padded '0' 2 hour ++ ':' :: (padded '0' 2 min ++ ':' :: (padded '0' 2 sec ++ '.' ::
      padded '0' 6 us)))))

theorem toList_zeroPadded (width n : ℕ) : (zeroPadded width n).toList = padded '0' width n := by
  rw [zeroPadded, String.toList_append, String.toList_ofList, Nat.toList_repr, padded,
    ← String.length_toList, Nat.toList_repr]

theorem toList_zeroPaddedInt (width n : ℕ) :
    (zeroPaddedInt width (n : ℤ)).toList = padded '0' width n := by
  rw [zeroPaddedInt, if_neg (by omega), Int.natAbs_natCast, toList_zeroPadded]

theorem toList_isoFormat (y m d hour min sec us : ℕ) :
    (isoFormat ((y : ℤ), m, d) hour min sec us).toList = isoChars y m d hour min sec us := by
  simp only [isoFormat, isoChars, String.toList_append, toList_zeroPadded, toList_zeroPaddedInt,
    List.append_assoc]
  rfl

/-- A number, and what follows it. -/
theorem padded_cons_inj {width n m : ℕ} {c : Char} (hc : c.isDigit = false) {x y : List Char}
    (h : padded '0' width n ++ c :: x = padded '0' width m ++ c :: y) : n = m ∧ x = y := by
  have hnot : ∀ k, c ∉ padded '0' width k := by
    intro k hk
    rw [isDigit_of_mem_padded hk] at hc
    exact Bool.noConfusion hc
  obtain ⟨hnm, hxy⟩ := append_cons_inj (hnot n) (hnot m) h
  exact ⟨padded_zero_injective width hnm, hxy⟩

theorem isoChars_inj {y m d hour min sec us y' m' d' hour' min' sec' us' : ℕ}
    (h : isoChars y m d hour min sec us = isoChars y' m' d' hour' min' sec' us') :
    y = y' ∧ m = m' ∧ d = d' ∧ hour = hour' ∧ min = min' ∧ sec = sec' ∧ us = us' := by
  obtain ⟨hy, h⟩ := padded_cons_inj rfl h
  obtain ⟨hm, h⟩ := padded_cons_inj rfl h
  obtain ⟨hd, h⟩ := padded_cons_inj rfl h
  obtain ⟨hhour, h⟩ := padded_cons_inj rfl h
  obtain ⟨hmin, h⟩ := padded_cons_inj rfl h
  obtain ⟨hsec, h⟩ := padded_cons_inj rfl h
  exact ⟨hy, hm, hd, hhour, hmin, hsec, padded_zero_injective 6 h⟩

/-- Two texts with numbers of one width in front. -/
theorem field_lt {width n m : ℕ} (hm : m < 10 ^ (width + 1)) {x y : List Char}
    (h : n < m ∨ n = m ∧ x < y) :
    padded '0' (width + 1) n ++ x < padded '0' (width + 1) m ++ y := by
  rcases h with h | ⟨rfl, h⟩
  · refine append_lt_append_of_lt ?_ (padded_lt h hm) _ _
    rw [length_padded (Nat.succ_pos _) (h.trans hm), length_padded (Nat.succ_pos _) hm]
  · exact append_lt_append_left _ h

theorem cons_lt_cons_of_lt {c : Char} {x y : List Char} (h : x < y) : c :: x < c :: y :=
  append_lt_append_left [c] h

/-- The width of the year only has to be one that both years have. -/
theorem padded_widen {width n width' : ℕ}
    (h : (padded '0' width n).length = width') : padded '0' width n = padded '0' width' n := by
  rw [padded, List.length_append, List.length_replicate] at h
  rw [padded, padded]
  congr 2
  omega

theorem year_lt {y y' : ℕ} (h : y < y')
    (hlength : (padded '0' 4 y).length = (padded '0' 4 y').length) (x x' : List Char) :
    padded '0' 4 y ++ x < padded '0' 4 y' ++ x' := by
  obtain ⟨width, hwidth⟩ : ∃ width, (padded '0' 4 y').length = width + 1 := by
    refine Nat.exists_eq_add_one.2 (List.length_pos_iff.2 ?_)
    intro hnil
    exact Nat.toDigits_ne_nil (List.append_eq_nil_iff.1 hnil).2
  have hy' : y' < 10 ^ (width + 1) := by
    rw [← Nat.length_toDigits_le_iff (by decide) (show 0 < width + 1 by omega), ← hwidth, padded,
      List.length_append]
    exact Nat.le_add_left _ _
  rw [padded_widen (hlength.trans hwidth), padded_widen hwidth]
  exact field_lt hy' (Or.inl h)

/-- **Later times have greater texts**, of those that write the year with as many digits. -/
theorem isoChars_lt {y m d hour min sec us y' m' d' hour' min' sec' us' : ℕ}
    (hlength : (padded '0' 4 y).length = (padded '0' 4 y').length) (hm : m' < 100) (hd : d' < 100)
    (hhour : hour' < 100) (hmin : min' < 100) (hsec : sec' < 100) (hus : us' < 1000000)
    (h : y < y' ∨ y = y' ∧ (m < m' ∨ m = m' ∧ (d < d' ∨ d = d' ∧ (hour < hour' ∨ hour = hour' ∧
      (min < min' ∨ min = min' ∧ (sec < sec' ∨ sec = sec' ∧ us < us')))))) :
    isoChars y m d hour min sec us < isoChars y' m' d' hour' min' sec' us' := by
  rcases h with h | ⟨rfl, h⟩
  · exact year_lt h hlength _ _
  refine append_lt_append_left _ (cons_lt_cons_of_lt (field_lt hm (h.imp_right ?_)))
  refine And.imp_right fun h => cons_lt_cons_of_lt (field_lt hd (h.imp_right ?_))
  refine And.imp_right fun h => cons_lt_cons_of_lt (field_lt hhour (h.imp_right ?_))
  refine And.imp_right fun h => cons_lt_cons_of_lt (field_lt hmin (h.imp_right ?_))
  refine And.imp_right fun h => cons_lt_cons_of_lt (field_lt hsec (h.imp_right ?_))
  exact And.imp_right fun h => cons_lt_cons_of_lt (padded_lt h hus)

/-- The first microsecond of the year 10000. -/
def YEAR_10000 : ℕ := 253402300800000000

theorem daysInMonth_lt (y : ℤ) (m : ℕ) : daysInMonth y m < 100 := by
  rw [daysInMonth.eq_def]
  split
  · split <;> omega
  all_goals omega

/-- The years of the times that are printed. -/
theorem year_bounds {d : Date} {t : ℕ} (h : d.dayCount = (t / 86400000000 : ℕ)) :
    1970 ≤ d.year ∧ (d.year < 10000 ↔ t < YEAR_10000) := by
  let epoch : Date := ⟨1970, 1, 1, by decide, by decide, by decide, by decide⟩
  let limit : Date := ⟨10000, 1, 1, by decide, by decide, by decide, by decide⟩
  have hepoch : epoch.dayCount = 0 := by decide +kernel
  have hlimit : limit.dayCount = 2932897 := by decide +kernel
  have hmonth := d.month_pos
  have hday := d.day_pos
  have hlow : ¬ d < epoch := by
    rw [← Date.dayCount_strictMono.lt_iff_lt, hepoch]
    omega
  have hhigh : d < limit ↔ t < YEAR_10000 := by
    rw [← Date.dayCount_strictMono.lt_iff_lt, hlimit, YEAR_10000]
    omega
  rw [Date.lt_iff] at hlow
  rw [← hhigh, Date.lt_iff]
  change ¬ (d.year < 1970 ∨ d.year = 1970 ∧ (d.month < 1 ∨ d.month = 1 ∧ d.day < 1)) at hlow
  change _ ∧ (d.year < 10000 ↔ d.year < 10000 ∨ d.year = 10000 ∧
    (d.month < 1 ∨ d.month = 1 ∧ d.day < 1))
  omega

/-- The text of the time `t`. -/
def IsTimeText (t : ℕ) (s : String) : Prop :=
  ∃ d : Date, d.dayCount = (t / 86400000000 : ℕ) ∧ s.toList = isoChars d.year.toNat d.month d.day
    (t / 3600000000 % 24) (t / 60000000 % 60) (t / 1000000 % 60) (t % 1000000)

theorem formatTimestamp_text (a : UInt64) :
    ∃ s, formatTimestamp a = .ok s ∧ IsTimeText a.toNat s := by
  obtain ⟨d, hcount, heq⟩ := formatTimestamp_eq a
  refine ⟨_, heq, d, hcount, ?_⟩
  have hyear : d.year = (d.year.toNat : ℤ) := by
    have hlow := (year_bounds hcount).1
    omega
  rw [Date.ymd, hyear, toList_isoFormat, Int.toNat_natCast]

theorem IsTimeText.inj {a b : ℕ} {s : String} (ha : IsTimeText a s) (hb : IsTimeText b s) :
    a = b := by
  obtain ⟨d, hd, hs⟩ := ha
  obtain ⟨d', hd', hs'⟩ := hb
  obtain ⟨hyear, hmonth, hday, hhour, hmin, hsec, hus⟩ := isoChars_inj (hs.symm.trans hs')
  have hlow := (year_bounds hd).1
  have hlow' := (year_bounds hd').1
  have hdate : d = d' := Date.ext (by omega) hmonth hday
  rw [hdate, hd'] at hd
  omega

theorem IsTimeText.length_eq {a : ℕ} {s : String} (h : IsTimeText a s) :
    ∃ d : Date, d.dayCount = (a / 86400000000 : ℕ) ∧
      s.length = (padded '0' 4 d.year.toNat).length + 22 := by
  obtain ⟨d, hd, hs⟩ := h
  refine ⟨d, hd, ?_⟩
  have hmonth := d.month_le
  have hday := d.day_le.trans_lt (daysInMonth_lt _ _)
  rw [← String.length_toList, hs, isoChars]
  simp only [List.length_append, List.length_cons]
  rw [length_padded (by omega) (show d.month < 10 ^ 2 by omega),
    length_padded (by omega) (show d.day < 10 ^ 2 by omega),
    length_padded (by omega) (show a / 3600000000 % 24 < 10 ^ 2 by omega),
    length_padded (by omega) (show a / 60000000 % 60 < 10 ^ 2 by omega),
    length_padded (by omega) (show a / 1000000 % 60 < 10 ^ 2 by omega),
    length_padded (by omega) (show a % 1000000 < 10 ^ 6 by omega)]

theorem IsTimeText.length_iff {a : ℕ} {s : String} (h : IsTimeText a s) :
    s.length = 26 ↔ a < YEAR_10000 := by
  obtain ⟨d, hd, hlength⟩ := h.length_eq
  obtain ⟨hlow, hhigh⟩ := year_bounds hd
  rw [hlength, ← hhigh]
  constructor
  · intro h26
    by_contra hyear
    have hlong := lt_length_padded (by omega) (show 10 ^ 4 ≤ d.year.toNat by omega) '0'
    omega
  · intro hyear
    rw [length_padded (by omega) (show d.year.toNat < 10 ^ 4 by omega)]

theorem timeUnits (t : ℕ) : t / 60000000 = t / 1000000 / 60 ∧
    t / 3600000000 = t / 1000000 / 60 / 60 ∧
    t / 86400000000 = t / 1000000 / 60 / 60 / 24 := by
  simp only [Nat.div_div_eq_div_mul, and_self]

/-- Two times of one day are told apart by the first unit in which they differ. -/
theorem timeOfDay_lt {a b : ℕ} (hday : b / 86400000000 ≤ a / 86400000000) (hab : a < b) :
    a / 3600000000 % 24 < b / 3600000000 % 24 ∨ a / 3600000000 % 24 = b / 3600000000 % 24 ∧
      (a / 60000000 % 60 < b / 60000000 % 60 ∨ a / 60000000 % 60 = b / 60000000 % 60 ∧
        (a / 1000000 % 60 < b / 1000000 % 60 ∨ a / 1000000 % 60 = b / 1000000 % 60 ∧
          a % 1000000 < b % 1000000)) := by
  obtain ⟨hmin, hhour, hdays⟩ := timeUnits a
  obtain ⟨hmin', hhour', hdays'⟩ := timeUnits b
  rw [hdays, hdays'] at hday
  rw [hmin, hhour, hmin', hhour']
  have hsec : a / 1000000 < b / 1000000 ∨
      a / 1000000 = b / 1000000 ∧ a % 1000000 < b % 1000000 := by omega
  generalize a / 1000000 = s, b / 1000000 = s' at *
  rcases hsec with hsec | ⟨rfl, hus⟩
  · have hmin : s / 60 < s' / 60 ∨ s / 60 = s' / 60 ∧ s % 60 < s' % 60 := by omega
    generalize s / 60 = m, s' / 60 = m' at *
    rcases hmin with hmin | ⟨rfl, hsec⟩
    · omega
    · exact Or.inr ⟨rfl, Or.inr ⟨rfl, Or.inl hsec⟩⟩
  · exact Or.inr ⟨rfl, Or.inr ⟨rfl, Or.inr ⟨rfl, hus⟩⟩⟩

theorem IsTimeText.lt {a b : ℕ} {s t : String} (ha : IsTimeText a s) (hb : IsTimeText b t)
    (hlength : s.length = t.length) (hab : a < b) : s < t := by
  obtain ⟨d, hd, hs⟩ := ha
  obtain ⟨d', hd', ht⟩ := hb
  obtain ⟨e, he, hslength⟩ := IsTimeText.length_eq ⟨d, hd, hs⟩
  obtain ⟨e', he', htlength⟩ := IsTimeText.length_eq ⟨d', hd', ht⟩
  rw [← hd] at he
  rw [← hd'] at he'
  rw [Date.dayCount_injective he] at hslength
  rw [Date.dayCount_injective he'] at htlength
  have hmonth := d'.month_le
  have hday := d'.day_le.trans_lt (daysInMonth_lt _ _)
  have hlow := (year_bounds hd).1
  have hlow' := (year_bounds hd').1
  rw [String.lt_iff, hs, ht]
  refine isoChars_lt (by omega) (by omega) hday (by omega) (by omega) (by omega) (by omega) ?_
  rcases Nat.lt_or_ge (a / 86400000000) (b / 86400000000) with hdays | hdays
  · -- an earlier day
    have hdate : d < d' := by
      rw [← Date.dayCount_strictMono.lt_iff_lt]
      omega
    rcases (Date.lt_iff d d').1 hdate with hyear | ⟨hyear, hmonth | ⟨hmonth, hday⟩⟩
    · exact Or.inl ((Int.toNat_lt_toNat (by omega)).2 hyear)
    · exact Or.inr ⟨congrArg Int.toNat hyear, Or.inl hmonth⟩
    · exact Or.inr ⟨congrArg Int.toNat hyear, Or.inr ⟨hmonth, Or.inl hday⟩⟩
  · -- the same day, and an earlier time
    have hsame : d = d' := Date.dayCount_injective (by omega)
    subst hsame
    exact Or.inr ⟨rfl, Or.inr ⟨rfl, Or.inr ⟨rfl, timeOfDay_lt hdays hab⟩⟩⟩

/-- **The text of a time.**  Different times have different texts.  A text has 26 characters exactly
for the times before the year 10000, and texts of one length are ordered like the times. -/
theorem formatTimestamp_order (a b : UInt64) :
    ∃ s t, formatTimestamp a = .ok s ∧ formatTimestamp b = .ok t ∧ (s = t ↔ a = b) ∧
      (s.length = 26 ↔ a.toNat < YEAR_10000) ∧ (s.length = t.length → (s < t ↔ a < b)) := by
  obtain ⟨s, hs, hstext⟩ := formatTimestamp_text a
  obtain ⟨t, ht, httext⟩ := formatTimestamp_text b
  refine ⟨s, t, hs, ht, ?_, hstext.length_iff, ?_⟩
  · constructor
    · rintro rfl
      exact UInt64.toNat_inj.1 (hstext.inj httext)
    · rintro rfl
      exact Except.ok.inj (hs.symm.trans ht)
  · intro hlength
    rw [UInt64.lt_iff_toNat_lt]
    refine ⟨?_, hstext.lt httext hlength⟩
    intro hlt
    rcases Nat.lt_trichotomy a.toNat b.toNat with hab | hab | hab
    · exact hab
    · rw [UInt64.toNat_inj.1 hab] at hs
      rw [Except.ok.inj (hs.symm.trans ht)] at hlt
      exact absurd hlt (String.lt_irrefl t)
    · exact absurd hlt (String.lt_asymm (httext.lt hstext hlength.symm hab))

/-! ### Bytes -/

/-- The loop over the bytes, which puts a blank before each but the first. -/
def hexStrFrom (s : String) (i : ℕ) : Bytes → String
  | [] => s
  | b :: bs => hexStrFrom ((if i > 0 then s.push ' ' else s) ++ hexDigits 2 b.toNat) (i + 1) bs

def hexStr (bytes : Bytes) : String := hexStrFrom "" 0 bytes

/-- The same loop on a formatter, with brackets around the bytes. -/
def writeHex (f : String) (bytes : Bytes) : String := hexStrFrom (f ++ "[") 0 bytes ++ "]"

def hexByte (b : UInt8) : List Char := (hexDigits 2 b.toNat).toList

/-- The value of hexadecimal digits in capitals. -/
def hexValue (cs : List Char) : ℕ :=
  cs.foldl (fun v c => 16 * v + (if c.isDigit then c.toNat - 48 else c.toNat - 55)) 0

/-- What a byte looks like. -/
theorem hexByte_cases (b : UInt8) : (hexByte b).length = 2 ∧ ']' ∉ hexByte b ∧ '\n' ∉ hexByte b ∧
    hexValue (hexByte b) = b.toNat := by
  have hall : ∀ n < 256,
      let digits := (Nat.toDigits 16 n).map Char.toUpper
      let cs := List.replicate (2 - digits.length) '0' ++ digits
      cs.length = 2 ∧ ']' ∉ cs ∧ '\n' ∉ cs ∧ hexValue cs = n := by
    decide +kernel
  rw [hexByte, hexDigits, String.toList_ofList]
  exact hall b.toNat b.toNat_lt

theorem hexByte_injective : Function.Injective hexByte := by
  intro b b' h
  have hvalue := (hexByte_cases b).2.2.2
  rw [h, (hexByte_cases b').2.2.2] at hvalue
  exact UInt8.toNat_inj.1 hvalue.symm

/-- A byte with the blank before it. -/
def hexField (b : UInt8) : List Char := ' ' :: hexByte b

theorem selfDelimiting_hexField : TextFormat.SelfDelimiting Set.univ hexField := by
  refine selfDelimiting_of_length 3 ?_ ?_
  · intro b _
    rw [hexField, List.length_cons, (hexByte_cases b).1]
  · intro b _ b' _ h
    exact hexByte_injective (List.cons.inj h).2

def hexChars (bytes : Bytes) : List Char := (bytes.flatMap hexField).tail

theorem toList_hexStrFrom_succ (bytes : Bytes) : ∀ (s : String) (i : ℕ),
    (hexStrFrom s (i + 1) bytes).toList = s.toList ++ bytes.flatMap hexField := by
  induction bytes with
  | nil =>
      intro s i
      exact (List.append_nil _).symm
  | cons b bytes ih =>
      intro s i
      rw [hexStrFrom, if_pos (Nat.succ_pos i), ih, String.toList_append, String.toList_push,
        List.flatMap_cons, List.append_assoc, List.append_assoc]
      rfl

theorem toList_hexStrFrom (s : String) (bytes : Bytes) :
    (hexStrFrom s 0 bytes).toList = s.toList ++ hexChars bytes := by
  cases bytes with
  | nil => exact (List.append_nil _).symm
  | cons b bytes =>
      rw [hexStrFrom, if_neg (Nat.lt_irrefl 0), toList_hexStrFrom_succ, String.toList_append,
        List.append_assoc]
      rfl

theorem hexChars_injective : Function.Injective hexChars := by
  intro bs bs' h
  refine selfDelimiting_hexField.flatMap_inj (fun b _ => List.cons_ne_nil _ _)
    (fun b _ => Set.mem_univ b) (fun b _ => Set.mem_univ b) ?_
  cases bs with
  | nil =>
      cases bs' with
      | nil => rfl
      | cons b' bs' =>
          have hlength := congrArg List.length h
          change 0 = (hexByte b' ++ bs'.flatMap hexField).length at hlength
          rw [List.length_append, (hexByte_cases b').1] at hlength
          omega
  | cons b bs =>
      cases bs' with
      | nil =>
          have hlength := congrArg List.length h
          change (hexByte b ++ bs.flatMap hexField).length = 0 at hlength
          rw [List.length_append, (hexByte_cases b).1] at hlength
          omega
      | cons b' bs' => exact congrArg (List.cons ' ') h

theorem mem_hexChars {c : Char} {bytes : Bytes} (h : c ∈ hexChars bytes) :
    c ≠ ']' ∧ c ≠ '\n' := by
  obtain ⟨b, hb, hc⟩ := List.mem_flatMap.1 (List.mem_of_mem_tail h)
  obtain ⟨-, hbracket, hbreak, -⟩ := hexByte_cases b
  rcases List.mem_cons.1 hc with rfl | hc
  · exact ⟨by decide, by decide⟩
  · exact ⟨fun heq => hbracket (heq ▸ hc), fun heq => hbreak (heq ▸ hc)⟩

/-! ### Records -/

/-- A number at the right end of a field. -/
def rightAligned (width n : ℕ) : String :=
  String.ofList (List.replicate (width - (Nat.repr n).length) ' ') ++ Nat.repr n

/-- The direction of a record, and what is printed of its bytes. -/
def formatDetail (record : PacketRecord) : String × String :=
  match record.data with
  | .rawTx b => ("TX", rightAligned 3 b.length ++ "B  [" ++ hexStr b ++ "]")
  | .rawRx b => ("RX", rightAligned 3 b.length ++ "B  [" ++ hexStr b ++ "]")
  | .rawError b e => ("ERR", rightAligned 3 b.length ++ "B  [" ++ hexStr b ++ "]  — " ++ e)

/-- The line of a record in a file. -/
def formatRecord (record : PacketRecord) : Checked String := do
  let ts ← formatTimestamp record.timestampUs
  let (dir, detail) := formatDetail record
  pure (ts ++ "  " ++ dir ++ "  " ++ detail)

/-- The text of a record on a display. -/
def display (record : PacketRecord) : Checked String := do
  let ts ← formatTimestamp record.timestampUs
  match record.data with
  | .rawTx bytes =>
      pure (writeHex ("[TX] " ++ ts ++ "  " ++ rightAligned 3 bytes.length ++ "B  ") bytes)
  | .rawRx bytes =>
      pure (writeHex ("[RX] " ++ ts ++ "  " ++ rightAligned 3 bytes.length ++ "B  ") bytes)
  | .rawError bytes err =>
      pure (writeHex ("[ERR] " ++ ts ++ "  " ++ rightAligned 3 bytes.length ++ "B  ") bytes ++
        "  — " ++ err)

namespace PacketData

def bytes : PacketData → Bytes
  | .rawTx b | .rawRx b | .rawError b _ => b

def dirChars : PacketData → List Char
  | .rawTx _ => ['T', 'X']
  | .rawRx _ => ['R', 'X']
  | .rawError _ _ => ['E', 'R', 'R']

/-- What follows the bytes. -/
def tailChars : PacketData → List Char
  | .rawTx _ | .rawRx _ => []
  | .rawError _ e => ' ' :: ' ' :: '—' :: ' ' :: e.toList

def detailChars (data : PacketData) : List Char :=
  padded ' ' 3 data.bytes.length ++ 'B' :: (' ' :: ' ' :: '[' :: (hexChars data.bytes ++
    ']' :: data.tailChars))

/-- The text of an error has no line break. -/
def OneLine : PacketData → Prop
  | .rawTx _ | .rawRx _ => True
  | .rawError _ e => '\n' ∉ e.toList

theorem eq_of_chars {data data' : PacketData} (hdir : data.dirChars = data'.dirChars)
    (hdetail : data.detailChars = data'.detailChars) : data = data' := by
  have hB : ∀ n, 'B' ∉ padded ' ' 3 n := fun n => not_mem_padded (by decide) rfl
  obtain ⟨-, h⟩ := append_cons_inj (hB _) (hB _) hdetail
  have hbracket : ∀ bytes, ']' ∉ hexChars bytes := fun bytes h => (mem_hexChars h).1 rfl
  obtain ⟨hhex, htail⟩ := append_cons_inj (hbracket _) (hbracket _)
    (List.cons.inj (List.cons.inj (List.cons.inj h).2).2).2
  have hbytes := hexChars_injective hhex
  cases data with
  | rawTx b =>
      cases data' with
      | rawTx b' => exact congrArg PacketData.rawTx hbytes
      | rawRx b' | rawError b' e' => exact absurd hdir (by simp [dirChars])
  | rawRx b =>
      cases data' with
      | rawRx b' => exact congrArg PacketData.rawRx hbytes
      | rawTx b' | rawError b' e' => exact absurd hdir (by simp [dirChars])
  | rawError b e =>
      cases data' with
      | rawError b' e' =>
          simp only [tailChars, List.cons.injEq, true_and, String.toList_inj] at htail
          change b = b' at hbytes
          rw [hbytes, htail]
      | rawTx b' | rawRx b' => exact absurd hdir (by simp [dirChars])

end PacketData

theorem toList_rightAligned (width n : ℕ) :
    (rightAligned width n).toList = padded ' ' width n := by
  rw [rightAligned, String.toList_append, String.toList_ofList, Nat.toList_repr, padded,
    ← String.length_toList, Nat.toList_repr]

theorem toList_formatDetail (record : PacketRecord) :
    (formatDetail record).1.toList = record.data.dirChars ∧
      (formatDetail record).2.toList = record.data.detailChars := by
  obtain ⟨ts, data⟩ := record
  cases data with
  | rawTx b | rawRx b | rawError b e =>
      refine ⟨by simp [formatDetail, PacketData.dirChars], ?_⟩
      simp only [formatDetail, String.toList_append, toList_rightAligned, hexStr,
        toList_hexStrFrom, PacketData.detailChars, PacketData.bytes, PacketData.tailChars,
        List.append_assoc]
      rfl

/-- What a line consists of. -/
theorem formatRecord_chars (record : PacketRecord) :
    ∃ s ts, formatRecord record = .ok s ∧ IsTimeText record.timestampUs.toNat ts ∧
      s.toList = ts.toList ++ ' ' :: (' ' :: (record.data.dirChars ++ ' ' :: (' ' ::
        record.data.detailChars))) := by
  obtain ⟨ts, hts, htext⟩ := formatTimestamp_text record.timestampUs
  obtain ⟨hdir, hdetail⟩ := toList_formatDetail record
  refine ⟨ts ++ "  " ++ (formatDetail record).1 ++ "  " ++ (formatDetail record).2, ts,
    bind_eq hts rfl, htext, ?_⟩
  simp only [String.toList_append, hdir, hdetail, List.append_assoc]
  rfl

/-- What a display shows, which is the same with the direction in front. -/
theorem display_chars (record : PacketRecord) :
    ∃ s ts, display record = .ok s ∧ IsTimeText record.timestampUs.toNat ts ∧
      s.toList = '[' :: (record.data.dirChars ++ ']' :: (' ' :: (ts.toList ++ ' ' :: (' ' ::
        record.data.detailChars)))) := by
  obtain ⟨ts, hts, htext⟩ := formatTimestamp_text record.timestampUs
  obtain ⟨time, data⟩ := record
  cases data with
  | rawTx b | rawRx b | rawError b e =>
      refine ⟨_, ts, bind_eq hts rfl, htext, ?_⟩
      simp only [writeHex, String.toList_append, toList_rightAligned, toList_hexStrFrom,
        PacketData.detailChars, PacketData.bytes, PacketData.tailChars, List.append_assoc]
      rfl

/-- The characters of times and of directions. -/
theorem IsTimeText.mem {t : ℕ} {ts : String} (h : IsTimeText t ts) {c : Char}
    (hc : c ∈ ts.toList) : c.isDigit = true ∨ c ∈ ['-', 'T', ':', '.'] := by
  obtain ⟨d, -, hs⟩ := h
  rw [hs] at hc
  simp only [isoChars, List.mem_append, List.mem_cons] at hc
  rcases hc with hc | rfl | hc | rfl | hc | rfl | hc | rfl | hc | rfl | hc | rfl | hc
  all_goals first
    | exact Or.inl (isDigit_of_mem_padded hc)
    | exact Or.inr (by decide)

theorem IsTimeText.not_mem {t : ℕ} {ts : String} (h : IsTimeText t ts) :
    ' ' ∉ ts.toList ∧ '\n' ∉ ts.toList := by
  constructor
  · intro hc
    rcases h.mem hc with hc | hc <;> exact absurd hc (by decide)
  · intro hc
    rcases h.mem hc with hc | hc <;> exact absurd hc (by decide)

open PacketData in
theorem PacketData.not_mem_dirChars (data : PacketData) :
    ' ' ∉ data.dirChars ∧ ']' ∉ data.dirChars ∧ '\n' ∉ data.dirChars := by
  cases data with
  | rawTx b | rawRx b | rawError b e => simp [dirChars]

theorem formatRecord_inj {r r' : PacketRecord} {s : String} (h : formatRecord r = .ok s)
    (h' : formatRecord r' = .ok s) : r = r' := by
  obtain ⟨t, ts, ht, htext, hchars⟩ := formatRecord_chars r
  obtain ⟨t', ts', ht', htext', hchars'⟩ := formatRecord_chars r'
  rw [Except.ok.inj (ht.symm.trans h)] at hchars
  rw [Except.ok.inj (ht'.symm.trans h'), hchars] at hchars'
  obtain ⟨hts, hrest⟩ := append_cons_inj htext.not_mem.1 htext'.not_mem.1 hchars'
  obtain ⟨hdir, hrest⟩ := append_cons_inj r.data.not_mem_dirChars.1 r'.data.not_mem_dirChars.1
    (List.cons.inj hrest).2
  obtain ⟨time, data⟩ := r
  obtain ⟨time', data'⟩ := r'
  rw [← String.toList_inj.1 hts] at htext'
  have htime : time = time' := UInt64.toNat_inj.1 (htext.inj htext')
  have hdata : data = data' := PacketData.eq_of_chars hdir (List.cons.inj hrest).2
  rw [htime, hdata]

theorem display_inj {r r' : PacketRecord} {s : String} (h : display r = .ok s)
    (h' : display r' = .ok s) : r = r' := by
  obtain ⟨t, ts, ht, htext, hchars⟩ := display_chars r
  obtain ⟨t', ts', ht', htext', hchars'⟩ := display_chars r'
  rw [Except.ok.inj (ht.symm.trans h)] at hchars
  rw [Except.ok.inj (ht'.symm.trans h'), hchars] at hchars'
  obtain ⟨hdir, hrest⟩ := append_cons_inj r.data.not_mem_dirChars.2.1
    r'.data.not_mem_dirChars.2.1 (List.cons.inj hchars').2
  obtain ⟨hts, hrest⟩ := append_cons_inj htext.not_mem.1 htext'.not_mem.1 (List.cons.inj hrest).2
  obtain ⟨time, data⟩ := r
  obtain ⟨time', data'⟩ := r'
  rw [← String.toList_inj.1 hts] at htext'
  have htime : time = time' := UInt64.toNat_inj.1 (htext.inj htext')
  have hdata : data = data' := PacketData.eq_of_chars hdir (List.cons.inj hrest).2
  rw [htime, hdata]

/-! ### Files -/

/-- The line of a record; there always is one. -/
def recordLine (record : PacketRecord) : String := (formatRecord record).toOption.getD ""

theorem formatRecord_eq (record : PacketRecord) :
    formatRecord record = .ok (recordLine record) := by
  obtain ⟨s, -, hs, -, -⟩ := formatRecord_chars record
  rw [recordLine, hs]
  rfl

theorem recordLine_injective : Function.Injective recordLine := by
  intro r r' h
  have hr' := formatRecord_eq r'
  rw [← h] at hr'
  exact formatRecord_inj (formatRecord_eq r) hr'

/-- A line has no break in it when the error has none. -/
theorem not_mem_recordLine {record : PacketRecord} (h : record.data.OneLine) :
    '\n' ∉ (recordLine record).toList := by
  obtain ⟨s, ts, hs, htext, hchars⟩ := formatRecord_chars record
  rw [← Except.ok.inj (hs.symm.trans (formatRecord_eq record)), hchars]
  have hpadded : ∀ n, '\n' ∉ padded ' ' 3 n := fun n => not_mem_padded (by decide) rfl
  have hhex : ∀ bytes, '\n' ∉ hexChars bytes := fun bytes h => (mem_hexChars h).2 rfl
  have htail : '\n' ∉ record.data.tailChars := by
    obtain ⟨time, data⟩ := record
    cases data with
    | rawTx b | rawRx b => exact List.not_mem_nil
    | rawError b e =>
        change '\n' ∉ ' ' :: ' ' :: '—' :: ' ' :: e.toList
        simpa using (show '\n' ∉ e.toList from h)
  simp [PacketData.detailChars, htext.not_mem.2, record.data.not_mem_dirChars.2.2, hpadded, hhex,
    htail]

/-- A file of lines, each with a line break after it. -/
def logText (lines : List String) : String := String.join (lines.map fun line => line ++ "\n")

/-- The file of a list of records. -/
def recordLog (records : List PacketRecord) : Checked String := do
  let lines ← records.mapM formatRecord
  pure (logText lines)

theorem toList_join (texts : List String) :
    (String.join texts).toList = texts.flatMap String.toList := by
  have hfoldl : ∀ s : String,
      (texts.foldl (fun r t => r ++ t) s).toList = s.toList ++ texts.flatMap String.toList := by
    induction texts with
    | nil => exact fun s => (List.append_nil _).symm
    | cons t texts ih =>
        intro s
        rw [List.foldl_cons, ih, String.toList_append, List.flatMap_cons, List.append_assoc]
  exact hfoldl ""

theorem toList_logText (lines : List String) :
    (logText lines).toList = lines.flatMap fun line => line.toList ++ ['\n'] := by
  rw [logText, toList_join, List.flatMap_map]
  simp only [String.toList_append]
  rfl

theorem recordLog_eq (records : List PacketRecord) :
    recordLog records = .ok (logText (records.map recordLine)) := by
  have hmapM : records.mapM formatRecord = .ok (records.map recordLine) := by
    induction records with
    | nil => rfl
    | cons r records ih =>
        rw [List.mapM_cons, formatRecord_eq, ih]
        rfl
  exact bind_eq hmapM rfl

/-- Lines without breaks say where they end. -/
theorem selfDelimiting_line : TextFormat.SelfDelimiting {r : PacketRecord | r.data.OneLine}
    fun r => (recordLine r).toList ++ ['\n'] := by
  refine selfDelimiting_of_end '\n' (fun r hr => not_mem_recordLine hr) ?_
  intro r _ r' _ h
  exact recordLine_injective (String.toList_inj.1 h)

theorem recordLog_inj {rs rs' : List PacketRecord} (hrs : ∀ r ∈ rs, r.data.OneLine)
    (hrs' : ∀ r ∈ rs', r.data.OneLine) (h : recordLog rs = recordLog rs') : rs = rs' := by
  rw [recordLog_eq, recordLog_eq] at h
  have hchars := congrArg String.toList (Except.ok.inj h)
  rw [toList_logText, toList_logText, List.flatMap_map, List.flatMap_map] at hchars
  exact selfDelimiting_line.flatMap_inj (fun r _ => List.append_ne_nil_of_right_ne_nil _ (by simp))
    hrs hrs' hchars

/-- The last line break of a file. -/
theorem exists_logText_cons (line : String) (lines : List String) :
    ∃ t, logText (line :: lines) = t ++ "\n" := by
  induction lines generalizing line with
  | nil => exact ⟨line, rfl⟩
  | cons line' lines ih =>
      obtain ⟨t, ht⟩ := ih line'
      refine ⟨line ++ "\n" ++ t, ?_⟩
      rw [← String.toList_inj] at ht ⊢
      rw [toList_logText, List.flatMap_cons, ← toList_logText, ht]
      simp only [String.toList_append, List.append_assoc]
      rfl

/-- The text of an error goes to the end of the line. -/
theorem recordLine_error (ts : UInt64) (bs : Bytes) (e e' : String) :
    recordLine ⟨ts, .rawError bs (e ++ e')⟩ = recordLine ⟨ts, .rawError bs e⟩ ++ e' := by
  obtain ⟨t, ht, -⟩ := formatTimestamp_text ts
  have hline : ∀ e, recordLine ⟨ts, .rawError bs e⟩ = t ++ "  " ++ "ERR" ++ "  " ++
      (rightAligned 3 bs.length ++ "B  [" ++ hexStr bs ++ "]  — " ++ e) := by
    intro e
    exact Except.ok.inj ((formatRecord_eq _).symm.trans (bind_eq ht rfl))
  rw [hline, hline]
  simp only [String.append_assoc]

/-- An error text with a line break in it can pass for further records. -/
theorem recordLog_forged (ts : UInt64) (bs : Bytes) (e : String) (r : PacketRecord)
    (rs : List PacketRecord) : ∃ t, recordLog (r :: rs) = .ok (t ++ "\n") ∧
      recordLog (⟨ts, .rawError bs e⟩ :: r :: rs)
        = recordLog [⟨ts, .rawError bs (e ++ ("\n" ++ t))⟩] := by
  obtain ⟨t, ht⟩ := exists_logText_cons (recordLine r) (rs.map recordLine)
  refine ⟨t, ?_, ?_⟩
  · rw [recordLog_eq, List.map_cons, ht]
  · rw [recordLog_eq, recordLog_eq, List.map_cons, List.map_singleton, recordLine_error]
    refine congrArg Except.ok ?_
    rw [← String.toList_inj, toList_logText, List.flatMap_cons, ← toList_logText, List.map_cons,
      ht, toList_logText, List.flatMap_singleton]
    simp only [String.toList_append, List.append_assoc]
    rfl

/-- **The records can be read back.**  A line gives the record it is the line of, in a file as on a
display.  A file of lines gives the list of its records, if no error has a line break in its text;
with a line break in it, the text of an error can pass for any further records. -/
theorem log_readable :
    (∀ r r' s, formatRecord r = .ok s → formatRecord r' = .ok s → r = r') ∧
    (∀ r r' s, display r = .ok s → display r' = .ok s → r = r') ∧
    (∀ rs rs', (∀ r ∈ rs, r.data.OneLine) → (∀ r ∈ rs', r.data.OneLine) →
      recordLog rs = recordLog rs' → rs = rs') ∧
    ∀ ts bs e r rs, ∃ t, recordLog (r :: rs) = .ok (t ++ "\n") ∧
      recordLog (⟨ts, .rawError bs e⟩ :: r :: rs)
        = recordLog [⟨ts, .rawError bs (e ++ ("\n" ++ t))⟩] :=
  ⟨fun _ _ _ => formatRecord_inj, fun _ _ _ => display_inj, fun _ _ => recordLog_inj,
    recordLog_forged⟩

/-- A request and its response, which cannot be taken for each other. -/
theorem log_readable_exchange :
    recordLog [⟨0, .rawTx [1, 3]⟩, ⟨1, .rawRx [1, 0x83, 0xAF]⟩]
      ≠ recordLog [⟨0, .rawRx [1, 3]⟩, ⟨1, .rawTx [1, 0x83, 0xAF]⟩] :=
  fun h => absurd (log_readable.2.2.1 _ _ (by simp [PacketData.OneLine])
    (by simp [PacketData.OneLine]) h) (by simp)

example : formatRecord ⟨86400000000, .rawError [1, 0xAF] "timeout"⟩
    = .ok "1970-01-02T00:00:00.000000  ERR    2B  [01 AF]  — timeout" := by
  decide +kernel

end OmsModbus.Capture
