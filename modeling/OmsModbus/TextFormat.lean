/-
**Texts that can be read back.**

A text that is put together from fields can be read back when each field says where it ends: it has
a fixed length, or it ends with a character that does not occur in it.  Then also a list of such
texts, one after the other, can be read back.  Numbers are written in decimal digits, with fill
characters in front up to some width; with zeros in front the order of the texts is that of the
numbers, as long as these fit into the width.

Main definitions:

* `TextFormat.SelfDelimiting` — texts that say where they end;
* `TextFormat.padded` — a number in decimal digits, with fill characters in front.

Main results:

* `TextFormat.SelfDelimiting.flatMap_inj` — a list of self-delimiting texts can be read back;
* `TextFormat.exists_of_prefix_flatMap` — what was cut off in the middle of such a list;
* `TextFormat.ofDigitChars_padded` — the number is the value of the digits;
* `TextFormat.padded_lt` — **with zeros in front, texts are ordered like the numbers**.
-/

import Mathlib.Algebra.Group.Nat.Defs
import Mathlib.Data.List.Lex
import Mathlib.Data.Char
import Mathlib.Data.List.Basic
import Mathlib.Data.List.Infix
import Mathlib.Data.Set.Function

set_option relaxedAutoImplicit false
set_option autoImplicit false

namespace TextFormat

variable {α β : Type*}

/-! ### Fields -/

/-- Texts that say where they end: what follows them cannot be taken for a part of them. -/
def SelfDelimiting (S : Set α) (f : α → List β) : Prop :=
  ∀ ⦃a⦄, a ∈ S → ∀ ⦃b⦄, b ∈ S → ∀ ⦃x y : List β⦄, f a ++ x = f b ++ y → a = b

theorem selfDelimiting_of_length {S : Set α} {f : α → List β} (n : ℕ)
    (hlength : ∀ a ∈ S, (f a).length = n) (hf : Set.InjOn f S) : SelfDelimiting S f := by
  intro a ha b hb x y h
  exact hf ha hb (List.append_inj h ((hlength a ha).trans (hlength b hb).symm)).1

/-- What comes before the first separator, and what comes after it. -/
theorem append_cons_inj {sep : β} {a b x y : List β} (ha : sep ∉ a) (hb : sep ∉ b)
    (h : a ++ sep :: x = b ++ sep :: y) : a = b ∧ x = y := by
  rcases List.append_eq_append_iff.1 h with ⟨c, rfl, hc⟩ | ⟨c, rfl, hc⟩
  · cases c with
    | nil => exact ⟨(List.append_nil a).symm, (List.cons.inj hc).2⟩
    | cons d c =>
        rw [(List.cons.inj hc).1] at hb
        exact absurd (List.mem_append_right a (List.mem_cons_self ..)) hb
  · cases c with
    | nil => exact ⟨List.append_nil b, (List.cons.inj hc).2.symm⟩
    | cons d c =>
        rw [(List.cons.inj hc).1] at ha
        exact absurd (List.mem_append_right b (List.mem_cons_self ..)) ha

theorem selfDelimiting_of_end {S : Set α} {f : α → List β} (sep : β)
    (hsep : ∀ a ∈ S, sep ∉ f a) (hf : Set.InjOn f S) :
    SelfDelimiting S fun a => f a ++ [sep] := by
  intro a ha b hb x y h
  rw [List.append_assoc, List.append_assoc, List.singleton_append, List.singleton_append] at h
  exact hf ha hb (append_cons_inj (hsep a ha) (hsep b hb) h).1

/-- **A list of self-delimiting texts can be read back.** -/
theorem SelfDelimiting.flatMap_inj {S : Set α} {f : α → List β} (hf : SelfDelimiting S f)
    (hne : ∀ a ∈ S, f a ≠ []) {as bs : List α} (has : ∀ a ∈ as, a ∈ S) (hbs : ∀ b ∈ bs, b ∈ S)
    (h : as.flatMap f = bs.flatMap f) : as = bs := by
  induction as generalizing bs with
  | nil =>
      cases bs with
      | nil => rfl
      | cons b bs =>
          have hb := hne b (hbs b (List.mem_cons_self ..))
          exact absurd (List.append_eq_nil_iff.1 h.symm).1 hb
  | cons a as ih =>
      cases bs with
      | nil =>
          have ha := hne a (has a (List.mem_cons_self ..))
          exact absurd (List.append_eq_nil_iff.1 h).1 ha
      | cons b bs =>
          rw [List.flatMap_cons, List.flatMap_cons] at h
          have hab : a = b := hf (has a (List.mem_cons_self ..)) (hbs b (List.mem_cons_self ..)) h
          subst hab
          rw [ih (fun a ha => has a (List.mem_cons_of_mem _ ha))
            (fun b hb => hbs b (List.mem_cons_of_mem _ hb)) (List.append_cancel_left h)]

/-- A list of texts that was cut off: whole texts, and the beginning of the next. -/
theorem exists_of_prefix_flatMap {f : α → List β} {p : List β} {as : List α}
    (h : p <+: as.flatMap f) :
    ∃ whole next rest, whole ++ next <+: as ∧ next.length ≤ 1 ∧ p = whole.flatMap f ++ rest ∧
      rest <+: next.flatMap f := by
  induction as generalizing p with
  | nil => exact ⟨[], [], p, List.prefix_refl _, Nat.zero_le _, rfl, h⟩
  | cons a as ih =>
      rw [List.flatMap_cons] at h
      rcases List.prefix_or_prefix_of_prefix h (List.prefix_append (f a) _) with hp | ⟨q, rfl⟩
      · refine ⟨[], [a], p, ⟨as, rfl⟩, Nat.le_refl _, rfl, ?_⟩
        rw [List.flatMap_singleton]
        exact hp
      · obtain ⟨whole, next, rest, hwhole, hnext, rfl, hrest⟩ :=
          ih ((List.prefix_append_right_inj _).1 h)
        exact ⟨a :: whole, next, rest, List.cons_prefix_cons.2 ⟨rfl, hwhole⟩, hnext,
          (List.append_assoc ..).symm, hrest⟩

/-! ### The order of texts -/

section Order

variable [LinearOrder α]

theorem append_lt_append_of_lt {a b : List α} (hlength : a.length = b.length) (h : a < b)
    (x y : List α) : a ++ x < b ++ y := by
  induction a generalizing b with
  | nil =>
      rw [List.length_eq_zero_iff.1 hlength.symm] at h
      exact absurd h (lt_irrefl _)
  | cons c a ih =>
      cases b with
      | nil => cases hlength
      | cons d b =>
          rw [List.cons_append, List.cons_append, List.cons_lt_cons_iff]
          rcases List.cons_lt_cons_iff.1 h with hlt | ⟨rfl, hlt⟩
          · exact Or.inl hlt
          · exact Or.inr ⟨rfl, ih (Nat.succ.inj hlength) hlt⟩

theorem append_lt_append_left (a : List α) {x y : List α} (h : x < y) : a ++ x < a ++ y := by
  induction a with
  | nil => exact h
  | cons c a ih => exact List.cons_lt_cons_iff.2 (Or.inr ⟨rfl, ih⟩)

end Order

/-! ### Numbers -/

/-- A number in decimal digits, with fill characters in front. -/
def padded (fill : Char) (width n : ℕ) : List Char :=
  List.replicate (width - (Nat.toDigits 10 n).length) fill ++ Nat.toDigits 10 n

theorem isDigit_of_mem_toDigits {c : Char} {n : ℕ} (h : c ∈ Nat.toDigits 10 n) :
    c.isDigit = true :=
  Nat.isDigit_of_mem_toDigits (by decide) (by decide) h

theorem mem_padded {fill c : Char} {width n : ℕ} (h : c ∈ padded fill width n) :
    c = fill ∨ c.isDigit = true := by
  rcases List.mem_append.1 h with h | h
  · exact Or.inl (List.eq_of_mem_replicate h)
  · exact Or.inr (isDigit_of_mem_toDigits h)

theorem not_mem_padded {fill c : Char} (hfill : c ≠ fill) (hc : c.isDigit = false)
    {width n : ℕ} : c ∉ padded fill width n := by
  intro h
  rcases mem_padded h with h | h
  · exact hfill h
  · exact Bool.noConfusion (hc.symm.trans h)

theorem isDigit_of_mem_padded {c : Char} {width n : ℕ} (h : c ∈ padded '0' width n) :
    c.isDigit = true := by
  rcases mem_padded h with rfl | h
  · rfl
  · exact h

/-- Zeros in front do not change the value. -/
theorem ofDigitChars_padded (width n : ℕ) : Nat.ofDigitChars 10 (padded '0' width n) 0 = n := by
  rw [padded, Nat.ofDigitChars_append, Nat.ofDigitChars_replicate_zero, Nat.mul_zero,
    Nat.ofDigitChars_ten_toDigits]

theorem padded_zero_injective (width : ℕ) : Function.Injective (padded '0' width) := by
  intro n m h
  rw [← ofDigitChars_padded width n, h, ofDigitChars_padded]

/-- Numbers with different last digits, or different digits before. -/
theorem padded_succ {width : ℕ} (hwidth : 0 < width) (n : ℕ) :
    padded '0' (width + 1) n = padded '0' width (n / 10) ++ [(n % 10).digitChar] := by
  rcases Nat.lt_or_ge n 10 with hn | hn
  · rw [padded, padded, Nat.div_eq_of_lt hn, Nat.mod_eq_of_lt hn, Nat.toDigits_of_lt_base hn,
      Nat.toDigits_zero]
    obtain ⟨width, rfl⟩ := Nat.exists_eq_add_one.2 hwidth
    simp [List.replicate_succ']
  · rw [padded, padded, Nat.toDigits_of_base_le (by decide) hn, List.length_append,
      List.length_singleton, Nat.add_sub_add_right, List.append_assoc]

theorem length_padded {width n : ℕ} (hwidth : 0 < width) (hn : n < 10 ^ width) (fill : Char) :
    (padded fill width n).length = width := by
  have hlength := (Nat.length_toDigits_le_iff (by decide) hwidth).2 hn
  rw [padded, List.length_append, List.length_replicate]
  omega

/-- A text gets longer than its width when the number does. -/
theorem lt_length_padded {width n : ℕ} (hwidth : 0 < width) (hn : 10 ^ width ≤ n) (fill : Char) :
    width < (padded fill width n).length := by
  have hlength := mt (Nat.length_toDigits_le_iff (by decide) hwidth).1 (Nat.not_lt.2 hn)
  rw [padded, List.length_append]
  omega

theorem digitChar_lt {n m : ℕ} (h : n < m) (hm : m < 10) : n.digitChar < m.digitChar := by
  change n.digitChar.toNat < m.digitChar.toNat
  rw [Nat.toNat_digitChar_of_lt_ten hm,
    Nat.toNat_digitChar_of_lt_ten (h.trans hm)]
  omega

/-- **With zeros in front, texts are ordered like the numbers.** -/
theorem padded_lt {width n m : ℕ} (h : n < m) (hm : m < 10 ^ (width + 1)) :
    padded '0' (width + 1) n < padded '0' (width + 1) m := by
  induction width generalizing n m with
  | zero =>
      rw [padded, padded, Nat.toDigits_of_lt_base (by omega), Nat.toDigits_of_lt_base (by omega)]
      exact List.cons_lt_cons_iff.2 (Or.inl (digitChar_lt h (by omega)))
  | succ width ih =>
      rw [padded_succ (Nat.succ_pos _), padded_succ (Nat.succ_pos _)]
      have hm' : m / 10 < 10 ^ (width + 1) := by
        rw [Nat.pow_succ] at hm
        exact Nat.div_lt_of_lt_mul (by omega)
      rcases Nat.lt_or_ge (n / 10) (m / 10) with hdiv | hdiv
      · refine append_lt_append_of_lt ?_ (ih hdiv hm') _ _
        rw [length_padded (Nat.succ_pos _) (hdiv.trans hm'), length_padded (Nat.succ_pos _) hm']
      · have hdiv' : n / 10 = m / 10 := by omega
        rw [hdiv']
        refine append_lt_append_left _ (List.cons_lt_cons_iff.2 (Or.inl ?_))
        exact digitChar_lt (by omega) (by omega)

end TextFormat
