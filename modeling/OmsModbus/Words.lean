/-
**Sixteen-bit words on a byte stream.**

Protocols of the serial age write their numbers as pairs of bytes, some high byte first and some
low byte first.  This module is about the two orders and nothing else: what the bytes of a word
are, how a word is read back from a stream, and that the two undo each other in front of any
suffix.

Main definitions:

* `Words.toBeBytes`, `Words.fromBeBytes` — high byte first;
* `Words.toLeBytes`, `Words.fromLeBytes` — low byte first;
* `Words.beBytes`, `Words.takeWords` — a list of words, and reading a given number of them.

Main results:

* `Words.fromBeBytes_toBeBytes`, `Words.toBeBytes_fromBeBytes` — a word is its two bytes;
* `Words.takeWords_beBytes` — reading as many words as were written gives them back and leaves
  the rest of the stream;
* `Words.beBytes_takeWords` — what was read is what the stream held.
-/

import Mathlib

set_option relaxedAutoImplicit false
set_option autoImplicit false

namespace Words

/-! ### One word -/

/-- The two bytes of a word, high byte first. -/
def toBeBytes (v : UInt16) : List UInt8 := [(v >>> 8).toUInt8, v.toUInt8]

/-- The word with the given high and low byte. -/
def fromBeBytes (hi lo : UInt8) : UInt16 := (hi.toUInt16 <<< 8) ||| lo.toUInt16

/-- The two bytes of a word, low byte first. -/
def toLeBytes (v : UInt16) : List UInt8 := [v.toUInt8, (v >>> 8).toUInt8]

/-- The word with the given low and high byte. -/
def fromLeBytes (lo hi : UInt8) : UInt16 := fromBeBytes hi lo

@[simp] theorem toBeBytes_length (v : UInt16) : (toBeBytes v).length = 2 := rfl

@[simp] theorem toLeBytes_length (v : UInt16) : (toLeBytes v).length = 2 := rfl

theorem toNat_fromBeBytes (hi lo : UInt8) :
    (fromBeBytes hi lo).toNat = hi.toNat * 256 + lo.toNat := by
  have hhi := hi.toNat_lt
  have hlo := lo.toNat_lt
  simp only [fromBeBytes, UInt16.toNat_or, UInt16.toNat_shiftLeft, UInt8.toNat_toUInt16]
  rw [show (8 : UInt16).toNat % 16 = 8 from rfl, Nat.shiftLeft_eq, Nat.mod_eq_of_lt (by omega),
    show hi.toNat * 2 ^ 8 = hi.toNat <<< 8 from (Nat.shiftLeft_eq _ _).symm,
    ← Nat.shiftLeft_add_eq_or_of_lt (by omega), Nat.shiftLeft_eq]

theorem toNat_hi (v : UInt16) : (v >>> 8).toUInt8.toNat = v.toNat / 256 := by
  have hv := v.toNat_lt
  simp only [UInt16.toNat_toUInt8, UInt16.toNat_shiftRight]
  rw [show (8 : UInt16).toNat % 16 = 8 from rfl, Nat.shiftRight_eq_div_pow]
  omega

theorem toNat_lo (v : UInt16) : v.toUInt8.toNat = v.toNat % 256 := by
  simp

/-- **A word is read back from its two bytes.** -/
@[simp] theorem fromBeBytes_toBeBytes (v : UInt16) :
    fromBeBytes (v >>> 8).toUInt8 v.toUInt8 = v := by
  apply UInt16.toNat_inj.1
  rw [toNat_fromBeBytes, toNat_hi, toNat_lo]
  omega

@[simp] theorem fromLeBytes_toLeBytes (v : UInt16) :
    fromLeBytes v.toUInt8 (v >>> 8).toUInt8 = v := fromBeBytes_toBeBytes v

/-- **Two bytes are the bytes of the word they spell.** -/
@[simp] theorem toBeBytes_fromBeBytes (hi lo : UInt8) :
    toBeBytes (fromBeBytes hi lo) = [hi, lo] := by
  have hhi := hi.toNat_lt
  have hlo := lo.toNat_lt
  have h₁ : ((fromBeBytes hi lo) >>> 8).toUInt8 = hi := by
    apply UInt8.toNat_inj.1
    rw [toNat_hi, toNat_fromBeBytes]
    omega
  have h₂ : (fromBeBytes hi lo).toUInt8 = lo := by
    apply UInt8.toNat_inj.1
    rw [toNat_lo, toNat_fromBeBytes]
    omega
  rw [toBeBytes, h₁, h₂]

theorem toLeBytes_fromLeBytes (lo hi : UInt8) : toLeBytes (fromLeBytes lo hi) = [lo, hi] := by
  have h := toBeBytes_fromBeBytes hi lo
  simp only [toBeBytes, List.cons.injEq, and_true] at h
  rw [toLeBytes, fromLeBytes, h.1, h.2]

/-- Two streams that start with a word are equal when the words and the rests are. -/
theorem toBeBytes_append_inj {v w : UInt16} {a b : List UInt8} :
    toBeBytes v ++ a = toBeBytes w ++ b ↔ v = w ∧ a = b := by
  constructor
  · intro h
    obtain ⟨hv, ha⟩ := List.append_inj h rfl
    simp only [toBeBytes, List.cons.injEq, and_true] at hv
    refine ⟨?_, ha⟩
    rw [← fromBeBytes_toBeBytes v, hv.1, hv.2, fromBeBytes_toBeBytes]
  · rintro ⟨rfl, rfl⟩
    rfl

/-- The bytes of a number that fits in one byte: the high one is zero. -/
theorem toBeBytes_ofNat_of_lt {n : ℕ} (h : n < 256) :
    toBeBytes (UInt16.ofNat n) = [0, UInt8.ofNat n] := by
  have hn : (UInt16.ofNat n).toNat = n := by
    rw [UInt16.toNat_ofNat']
    omega
  have h₁ : ((UInt16.ofNat n) >>> 8).toUInt8 = 0 := by
    apply UInt8.toNat_inj.1
    rw [toNat_hi, hn]
    simp [Nat.div_eq_of_lt h]
  have h₂ : (UInt16.ofNat n).toUInt8 = UInt8.ofNat n := by
    apply UInt8.toNat_inj.1
    rw [toNat_lo, hn]
    simp
  rw [toBeBytes, h₁, h₂]

/-! ### Lists of words -/

/-- The bytes of a list of words, each high byte first. -/
def beBytes (ws : List UInt16) : List UInt8 := ws.flatMap toBeBytes

@[simp] theorem beBytes_nil : beBytes [] = [] := rfl

@[simp] theorem beBytes_cons (w : UInt16) (ws : List UInt16) :
    beBytes (w :: ws) = toBeBytes w ++ beBytes ws := rfl

@[simp] theorem beBytes_length (ws : List UInt16) : (beBytes ws).length = 2 * ws.length := by
  induction ws with
  | nil => rfl
  | cons w ws ih => simp [ih]; omega

/-- Reading `n` words off the front of a stream; a stream that is too short gives what it has. -/
def takeWords : ℕ → List UInt8 → List UInt16 × List UInt8
  | n + 1, hi :: lo :: bs =>
      let r := takeWords n bs
      (fromBeBytes hi lo :: r.1, r.2)
  | _, bs => ([], bs)

@[simp] theorem takeWords_zero (bs : List UInt8) : takeWords 0 bs = ([], bs) := by
  cases bs <;> rfl

theorem takeWords_succ (n : ℕ) (hi lo : UInt8) (bs : List UInt8) :
    takeWords (n + 1) (hi :: lo :: bs)
      = (fromBeBytes hi lo :: (takeWords n bs).1, (takeWords n bs).2) := rfl

/-- **Reading as many words as were written gives them back**, whatever follows. -/
@[simp] theorem takeWords_beBytes (ws : List UInt16) (rest : List UInt8) :
    takeWords ws.length (beBytes ws ++ rest) = (ws, rest) := by
  induction ws with
  | nil => simp
  | cons w ws ih =>
      simp only [List.length_cons, beBytes_cons, toBeBytes, List.cons_append, List.nil_append,
        takeWords_succ, ih, fromBeBytes_toBeBytes]

theorem beBytes_inj {ws vs : List UInt16} (h : beBytes ws = beBytes vs) : ws = vs := by
  have hlen : ws.length = vs.length := by
    have := congrArg List.length h
    simp only [beBytes_length] at this
    omega
  have hws := takeWords_beBytes ws []
  rw [h, hlen, takeWords_beBytes] at hws
  exact (Prod.mk.inj hws).1.symm

/-- **What was read is what the stream held.** -/
theorem beBytes_takeWords {n : ℕ} {bs : List UInt8} (h : 2 * n ≤ bs.length) :
    (takeWords n bs).1.length = n ∧ bs = beBytes (takeWords n bs).1 ++ (takeWords n bs).2 := by
  induction n generalizing bs with
  | zero => simp
  | succ n ih =>
      match bs with
      | [] => simp at h
      | [_] => simp at h; omega
      | hi :: lo :: bs =>
          obtain ⟨hlen, heq⟩ := @ih bs (by simp at h; omega)
          rw [takeWords_succ]
          refine ⟨by simp [hlen], ?_⟩
          simp only [beBytes_cons, toBeBytes_fromBeBytes, List.cons_append, List.nil_append]
          rw [← heq]

end Words
