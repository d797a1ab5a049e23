/-
**Reflected cyclic redundancy checks.**

A register of `w` bits is shifted down one place for each bit of a stream, and a polynomial is added
to it when the bit shifted out is one.  Addition is exclusive or, so the register depends linearly on
the stream and on what it held before.  Two properties of the polynomial decide which errors are
seen.  When its top bit is set the shift can be undone, so an error that fits in the register leaves
a trace in it; when it has an odd number of ones the shift keeps the parity of the register, so an
odd number of errors does.

Main definitions:

* `ReflectedCrc.shift` — one shift of the register;
* `ReflectedCrc.run` — the register after a stream of bits;
* `ReflectedCrc.ofBits` — a stream that fits in the register, as a value of it;
* `ReflectedCrc.parity` — the parity of a register.

Main results:

* `ReflectedCrc.run_xor` — **the register is linear** in its initial value and the stream;
* `ReflectedCrc.run_eq_iterate` — a stream that fits in the register may be added to it at once;
* `ReflectedCrc.iterate_shift_eq` — several shifts at once, with a table for the low bits;
* `ReflectedCrc.run_burst_eq_zero` — **a burst that fits in the register is seen**;
* `ReflectedCrc.parity_run` — **an odd number of ones is seen**.
-/

import Mathlib

set_option relaxedAutoImplicit false
set_option autoImplicit false

namespace ReflectedCrc

variable {w : ℕ} (P : BitVec w)

/-! ### The register -/

/-- One shift of the register: the polynomial is added when a one is shifted out. -/
def shift (c : BitVec w) : BitVec w := if c.getLsbD 0 then (c >>> 1) ^^^ P else c >>> 1

/-- A bit at the bottom of the register. -/
def lowBit (b : Bool) : BitVec w := if b then 1#w else 0#w

/-- The register after a stream of bits. -/
def run (c : BitVec w) (bits : List Bool) : BitVec w :=
  bits.foldl (fun c b => shift P (c ^^^ lowBit b)) c

@[simp] theorem run_nil (c : BitVec w) : run P c [] = c := rfl

@[simp] theorem run_cons (c : BitVec w) (b : Bool) (bits : List Bool) :
    run P c (b :: bits) = run P (shift P (c ^^^ lowBit b)) bits := rfl

theorem run_append (c : BitVec w) (as bs : List Bool) :
    run P c (as ++ bs) = run P (run P c as) bs := List.foldl_append

/-! ### Linearity -/

theorem shift_eq (c : BitVec w) : shift P c = (c >>> 1) ^^^ (if c.getLsbD 0 then P else 0#w) := by
  unfold shift
  split <;> simp

@[simp] theorem shift_zero : shift P 0#w = 0#w := by
  simp [shift]

theorem shift_xor (a b : BitVec w) : shift P (a ^^^ b) = shift P a ^^^ shift P b := by
  have hite (x y : Bool) :
      (if x ^^ y then P else 0#w) = (if x then P else 0#w) ^^^ (if y then P else 0#w) := by
    cases x <;> cases y <;> simp
  rw [shift_eq, shift_eq, shift_eq, BitVec.ushiftRight_xor_distrib, BitVec.getLsbD_xor, hite]
  ac_rfl

theorem lowBit_xor (a b : Bool) : lowBit (w := w) (a ^^ b) = lowBit a ^^^ lowBit b := by
  cases a <;> cases b <;> simp [lowBit]

theorem iterate_shift_xor (n : ℕ) (a b : BitVec w) :
    (shift P)^[n] (a ^^^ b) = (shift P)^[n] a ^^^ (shift P)^[n] b := by
  induction n with
  | zero => rfl
  | succ n ih => rw [Function.iterate_succ_apply', ih, shift_xor,
      ← Function.iterate_succ_apply' (shift P), ← Function.iterate_succ_apply' (shift P)]

@[simp] theorem iterate_shift_zero (n : ℕ) : (shift P)^[n] 0#w = 0#w :=
  Function.iterate_fixed (shift_zero P) n

/-- **The register is linear** in its initial value and the stream. -/
theorem run_xor (as bs : List Bool) (hlen : as.length = bs.length) (a b : BitVec w) :
    run P (a ^^^ b) (List.zipWith (· ^^ ·) as bs) = run P a as ^^^ run P b bs := by
  induction as generalizing bs a b with
  | nil =>
      cases bs with
      | nil => rfl
      | cons y bs => cases hlen
  | cons x as ih =>
      cases bs with
      | nil => cases hlen
      | cons y bs =>
          have hstep : shift P (a ^^^ b ^^^ lowBit (x ^^ y))
              = shift P (a ^^^ lowBit x) ^^^ shift P (b ^^^ lowBit y) := by
            rw [← shift_xor, lowBit_xor]
            congr 1
            ac_rfl
          rw [List.zipWith_cons_cons, run_cons, hstep, run_cons, run_cons]
          exact ih bs (Nat.succ.inj hlen) _ _

/-- Zeros only shift the register. -/
theorem run_replicate_false (n : ℕ) (c : BitVec w) :
    run P c (List.replicate n false) = (shift P)^[n] c := by
  induction n generalizing c with
  | zero => rfl
  | succ n ih =>
      rw [List.replicate_succ, run_cons, ih, Function.iterate_succ_apply]
      simp [lowBit]

/-! ### Streams that fit in the register -/

/-- A stream of bits as a value of the register, the first bit lowest. -/
def ofBits (bits : List Bool) : BitVec w := (BitVec.ofBoolListLE bits).setWidth w

theorem getLsbD_ofBits (bits : List Bool) (i : ℕ) :
    (ofBits (w := w) bits).getLsbD i = (decide (i < w) && bits.getD i false) := by
  rw [ofBits, BitVec.getLsbD_setWidth, BitVec.getLsbD_ofBoolListLE]

theorem getLsbD_lowBit (b : Bool) (i : ℕ) :
    (lowBit (w := w) b).getLsbD i = (decide (i < w) && (decide (i = 0) && b)) := by
  cases b with
  | false => simp [lowBit]
  | true =>
      rw [lowBit, if_pos rfl, BitVec.getLsbD_one]
      by_cases hi : i = 0 <;> simp [hi]

@[simp] theorem ofBits_nil : ofBits (w := w) [] = 0#w := by
  apply BitVec.eq_of_getLsbD_eq
  intro i _
  simp [getLsbD_ofBits]

/-- A stream with one bit in front, after a shift. -/
theorem shift_ofBits_cons (b : Bool) (bits : List Bool) (h : bits.length < w) :
    shift P (ofBits (b :: bits)) = shift P (lowBit b) ^^^ ofBits bits := by
  have hup : shift P (ofBits (b :: bits) ^^^ lowBit b) = ofBits bits := by
    have hlow : (ofBits (w := w) (b :: bits) ^^^ lowBit b).getLsbD 0 = false := by
      rw [BitVec.getLsbD_xor, getLsbD_ofBits, getLsbD_lowBit]
      simp
    rw [shift, hlow, if_neg Bool.false_ne_true]
    apply BitVec.eq_of_getLsbD_eq
    intro i hi
    rw [BitVec.getLsbD_ushiftRight, BitVec.getLsbD_xor, getLsbD_ofBits, getLsbD_lowBit,
      getLsbD_ofBits, Nat.add_comm 1 i]
    rcases Nat.lt_or_ge (i + 1) w with hlt | hge
    · simp [hlt, hi]
    · have hout : bits.length ≤ i := by omega
      simp [Nat.not_lt.2 hge, List.getElem?_eq_none hout]
  rw [shift_xor] at hup
  rw [← hup, BitVec.xor_comm (shift P (ofBits (b :: bits))), ← BitVec.xor_assoc, BitVec.xor_self,
    BitVec.zero_xor]

/-- **A stream that fits in the register may be added to it at once.** -/
theorem run_eq_iterate (bits : List Bool) (h : bits.length ≤ w) (c : BitVec w) :
    run P c bits = (shift P)^[bits.length] (c ^^^ ofBits bits) := by
  induction bits generalizing c with
  | nil => simp
  | cons b bits ih =>
      rw [List.length_cons] at h
      rw [run_cons, ih (by omega), List.length_cons, Function.iterate_succ_apply, shift_xor,
        shift_xor, shift_ofBits_cons P b bits (by omega), BitVec.xor_assoc]

/-- The bits of a value, lowest first. -/
theorem ofBits_eq {bits : List Bool} {c : BitVec w} (h : ∀ i < w, bits.getD i false = c.getLsbD i) :
    ofBits bits = c := by
  apply BitVec.eq_of_getLsbD_eq
  intro i hi
  rw [getLsbD_ofBits, h i hi]
  simp [hi]

/-- **The residue**: a register that is fed its own bits ends at zero. -/
theorem run_own_bits {bits : List Bool} {c : BitVec w} (hlen : bits.length ≤ w)
    (h : ∀ i < w, bits.getD i false = c.getLsbD i) : run P c bits = 0#w := by
  rw [run_eq_iterate P bits hlen, ofBits_eq h, BitVec.xor_self, iterate_shift_zero]

/-! ### Several shifts at once -/

/-- Zeros at the bottom are only shifted out. -/
theorem iterate_shift_of_low_zero {n : ℕ} {c : BitVec w} (h : ∀ i < n, c.getLsbD i = false) :
    (shift P)^[n] c = c >>> n := by
  induction n with
  | zero => simp
  | succ n ih =>
      have hlow : (c >>> n).getLsbD 0 = false := by
        rw [BitVec.getLsbD_ushiftRight]
        exact h n (Nat.lt_succ_self n)
      rw [Function.iterate_succ_apply', ih fun i hi => h i (Nat.lt_succ_of_lt hi), shift, hlow,
        if_neg Bool.false_ne_true, ← BitVec.shiftRight_add]

/-- **Several shifts at once**: those of the low bits, which a table may hold, and the others moved
down. -/
theorem iterate_shift_eq (n : ℕ) (c : BitVec w) :
    (shift P)^[n] c = (c >>> n) ^^^ (shift P)^[n] ((c.setWidth n).setWidth w) := by
  have hbit (i : ℕ) : ((c.setWidth n).setWidth w).getLsbD i = (decide (i < n) && c.getLsbD i) := by
    rw [BitVec.getLsbD_setWidth, BitVec.getLsbD_setWidth]
    rcases Nat.lt_or_ge i w with hi | hi
    · simp [hi]
    · simp [BitVec.getLsbD_of_ge c i hi]
  have hhigh : (shift P)^[n] (c ^^^ (c.setWidth n).setWidth w) = c >>> n := by
    rw [iterate_shift_of_low_zero]
    · apply BitVec.eq_of_getLsbD_eq
      intro i _
      rw [BitVec.getLsbD_ushiftRight, BitVec.getLsbD_ushiftRight, BitVec.getLsbD_xor, hbit]
      simp
    · intro i hi
      rw [BitVec.getLsbD_xor, hbit]
      simp [hi]
  rw [iterate_shift_xor] at hhigh
  rw [← hhigh, BitVec.xor_assoc, BitVec.xor_self, BitVec.xor_zero]

/-! ### Bursts -/

/-- With the top bit of the polynomial set, a shift shows what was shifted out. -/
theorem shift_eq_zero (hP : P.msb = true) {c : BitVec w} (h : shift P c = 0#w) : c = 0#w := by
  have hw : 0 < w := by
    rcases Nat.eq_zero_or_pos w with rfl | hw
    · simp [BitVec.msb, BitVec.getMsbD] at hP
    · exact hw
  rw [BitVec.msb_eq_getLsbD_last] at hP
  have hlow : c.getLsbD 0 = false := by
    by_contra hbit
    rw [Bool.not_eq_false] at hbit
    have htop := congrArg (BitVec.getLsbD · (w - 1)) h
    simp only [shift, hbit, if_true, BitVec.getLsbD_xor, BitVec.getLsbD_ushiftRight, hP] at htop
    rw [BitVec.getLsbD_of_ge c _ (by omega)] at htop
    simp at htop
  rw [shift, hlow, if_neg Bool.false_ne_true] at h
  apply BitVec.eq_of_getLsbD_eq
  intro i hi
  cases i with
  | zero => simp [hlow]
  | succ i =>
      have hbit := congrArg (BitVec.getLsbD · i) h
      simpa [Nat.add_comm 1 i] using hbit

theorem iterate_shift_eq_zero (hP : P.msb = true) {n : ℕ} {c : BitVec w}
    (h : (shift P)^[n] c = 0#w) : c = 0#w := by
  induction n with
  | zero => exact h
  | succ n ih =>
      rw [Function.iterate_succ_apply'] at h
      exact ih (shift_eq_zero P hP h)

/-- **A burst that fits in the register is seen**: behind zeros and in front of zeros, only zeros
leave the register at zero. -/
theorem run_burst_eq_zero (hP : P.msb = true) {i j : ℕ} {burst : List Bool}
    (hfit : burst.length ≤ w)
    (h : run P 0#w (List.replicate i false ++ burst ++ List.replicate j false) = 0#w) :
    burst = List.replicate burst.length false := by
  rw [run_append, run_append, run_replicate_false, run_replicate_false, iterate_shift_zero] at h
  have hburst := iterate_shift_eq_zero P hP h
  rw [run_eq_iterate P burst hfit, BitVec.zero_xor] at hburst
  have hzero := iterate_shift_eq_zero P hP hburst
  refine List.ext_getElem (by simp) ?_
  intro k hk _
  have hbit := congrArg (BitVec.getLsbD · k) hzero
  simp only [getLsbD_ofBits, BitVec.getLsbD_zero] at hbit
  rw [List.getElem_replicate]
  simpa [Nat.lt_of_lt_of_le hk hfit, hk] using hbit

/-! ### Parity -/

/-- A bit as a number modulo two. -/
def bit (b : Bool) : ZMod 2 := if b then 1 else 0

theorem bit_xor (a b : Bool) : bit (a ^^ b) = bit a + bit b := by
  cases a <;> cases b <;> decide

/-- The parity of a register: the sum of its bits modulo two. -/
def parity (c : BitVec w) : ZMod 2 := ∑ i ∈ Finset.range w, bit (c.getLsbD i)

theorem parity_xor (a b : BitVec w) : parity (a ^^^ b) = parity a + parity b := by
  simp only [parity, BitVec.getLsbD_xor, bit_xor, Finset.sum_add_distrib]

@[simp] theorem parity_zero : parity 0#w = 0 := by
  simp [parity, bit]

theorem parity_lowBit (hw : 0 < w) (b : Bool) : parity (lowBit (w := w) b) = bit b := by
  rw [parity, Finset.sum_eq_single_of_mem 0 (Finset.mem_range.2 hw)]
  · rw [getLsbD_lowBit]
    simp [hw]
  · intro i _ hi
    simp [getLsbD_lowBit, hi, bit]

theorem parity_ushiftRight_one (c : BitVec w) :
    parity (c >>> 1) + bit (c.getLsbD 0) = parity c := by
  cases w with
  | zero => simp [parity, bit]
  | succ n =>
      have hlast : c.getLsbD (n + 1) = false := BitVec.getLsbD_of_ge c (n + 1) le_rfl
      simp only [parity, BitVec.getLsbD_ushiftRight, Nat.add_comm 1]
      rw [Finset.sum_range_succ, hlast, Finset.sum_range_succ']
      simp [bit]

/-- A polynomial with an odd number of ones makes up for the one that is shifted out. -/
theorem parity_shift (hP : parity P = 1) (c : BitVec w) : parity (shift P c) = parity c := by
  rw [shift_eq, parity_xor, ← parity_ushiftRight_one c]
  cases c.getLsbD 0 with
  | false => simp [bit]
  | true => simp [bit, hP]

/-- **The register keeps the parity of the stream.** -/
theorem parity_run (hP : parity P = 1) (c : BitVec w) (bits : List Bool) :
    parity (run P c bits) = parity c + (bits.map bit).sum := by
  have hw : 0 < w := by
    rcases Nat.eq_zero_or_pos w with rfl | hw
    · simp [parity] at hP
    · exact hw
  induction bits generalizing c with
  | nil => simp
  | cons b bits ih =>
      rw [run_cons, ih, parity_shift P hP, parity_xor, parity_lowBit hw, List.map_cons,
        List.sum_cons, add_assoc]

theorem sum_bit (bits : List Bool) : (bits.map bit).sum = (bits.count true : ZMod 2) := by
  induction bits with
  | nil => rfl
  | cons b bits ih =>
      rw [List.map_cons, List.sum_cons, ih, List.count_cons]
      cases b <;> simp [bit, add_comm]

/-- **An odd number of ones is seen.** -/
theorem run_odd_ne_zero (hP : parity P = 1) {bits : List Bool} (hodd : Odd (bits.count true)) :
    run P 0#w bits ≠ 0#w := by
  intro h
  have hparity := parity_run P hP 0#w bits
  rw [h, parity_zero, zero_add, sum_bit, eq_comm, ZMod.natCast_eq_zero_iff_even] at hparity
  exact (Nat.not_even_iff_odd.2 hodd) hparity

end ReflectedCrc
