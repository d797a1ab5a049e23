/-
**Programs that may panic.**

An index, a slice, an arithmetic operation on machine words may panic.  Here each is an operation
that checks its operands and comes to a fault when they are bad, so that a program can be written
down with every check that the language makes, and be shown to come to no fault.  A loop is run with
fuel, and running out of it is a fault too.

Main definitions:

* `PanicChecks.Checked`, `PanicChecks.Fallible` — computations that may panic, the second of which
  may also return an error;
* `PanicChecks.index`, `PanicChecks.slice`, `PanicChecks.splitAt`, `PanicChecks.advance` — access to
  lists;
* `PanicChecks.add`, `PanicChecks.mul`, `PanicChecks.sub`, `PanicChecks.addU8`,
  `PanicChecks.subU8`, `PanicChecks.signed` — arithmetic;
* `PanicChecks.runLoop` — a loop;
* `PanicChecks.Slice` — a list that fits in memory;
* `PanicChecks.Yields` — a computation does not panic, and what it comes to.

Main results:

* `PanicChecks.Yields.bind` — one step after the other;
* `PanicChecks.runLoop_eq` — **a loop whose rounds go down comes to its result**.
-/

import Mathlib

set_option relaxedAutoImplicit false
set_option autoImplicit false

namespace PanicChecks

/-! ### Computations that may panic -/

/-- Why a computation does not come to a result. -/
inductive Fault
  | index
  | slice
  | advance
  | overflow
  | fuel
  deriving DecidableEq, Repr

/-- A computation that may panic. -/
abbrev Checked (α : Type) := Except Fault α

/-- A computation that may return an error, and may panic. -/
abbrev Fallible (ε α : Type) := ExceptT ε (Except Fault) α

/-- A result or an error that is already there. -/
def fromExcept {ε α : Type} (x : Except ε α) : Fallible ε α := ExceptT.mk (.ok x)

/-- A step that may only panic. -/
def check {ε α : Type} (x : Checked α) : Fallible ε α := ExceptT.mk (x.map .ok)

section Operations

variable {α : Type}

/-- `xs[i]`. -/
def index (xs : List α) (i : ℕ) : Checked α :=
  match xs[i]? with
  | some x => .ok x
  | none => .error .index

/-- `xs[i..j]`. -/
def slice (xs : List α) (i j : ℕ) : Checked (List α) :=
  if i ≤ j ∧ j ≤ xs.length then .ok ((xs.take j).drop i) else .error .slice

/-- `xs.get(i..)`, which does not panic. -/
def getFrom (xs : List α) (i : ℕ) : Option (List α) :=
  if i ≤ xs.length then some (xs.drop i) else none

/-- `xs.split_at(mid)`. -/
def splitAt (xs : List α) (mid : ℕ) : Checked (List α × List α) :=
  if mid ≤ xs.length then .ok (xs.take mid, xs.drop mid) else .error .slice

/-- `xs.advance(n)`. -/
def advance (xs : List α) (n : ℕ) : Checked (List α) :=
  if n ≤ xs.length then .ok (xs.drop n) else .error .advance

/-- `a + b` on words of `bits` bits. -/
def add (bits a b : ℕ) : Checked ℕ := if a + b < 2 ^ bits then .ok (a + b) else .error .overflow

/-- `a * b` on words of `bits` bits. -/
def mul (bits a b : ℕ) : Checked ℕ := if a * b < 2 ^ bits then .ok (a * b) else .error .overflow

/-- `a - b` on words. -/
def sub (a b : ℕ) : Checked ℕ := if b ≤ a then .ok (a - b) else .error .overflow

/-- The result `x` of an operation on signed words of `bits` bits. -/
def signed (bits : ℕ) (x : ℤ) : Checked ℤ :=
  if -2 ^ (bits - 1) ≤ x ∧ x < 2 ^ (bits - 1) then .ok x else .error .overflow

/-- `a + b` on bytes. -/
def addU8 (a b : UInt8) : Checked UInt8 :=
  if a.toNat + b.toNat < 256 then .ok (a + b) else .error .overflow

/-- `a - b` on bytes. -/
def subU8 (a b : UInt8) : Checked UInt8 := if b ≤ a then .ok (a - b) else .error .overflow

/-- `a << i` on bytes. -/
def shlU8 (a : UInt8) (i : ℕ) : Checked UInt8 :=
  if i < 8 then .ok (a <<< UInt8.ofNat i) else .error .overflow

theorem index_eq {xs : List α} {i : ℕ} (h : i < xs.length) : index xs i = .ok xs[i] := by
  unfold index
  rw [List.getElem?_eq_getElem h]

theorem index_eq_getD {xs : List α} {i : ℕ} (h : i < xs.length) (d : α) :
    index xs i = .ok (xs.getD i d) := by
  rw [index_eq h, List.getD_eq_getElem _ _ h]

@[simp] theorem index_cons_zero (x : α) (xs : List α) : index (x :: xs) 0 = .ok x := rfl

theorem slice_eq {xs : List α} {i j : ℕ} (h : i ≤ j) (hj : j ≤ xs.length) :
    slice xs i j = .ok ((xs.take j).drop i) := if_pos ⟨h, hj⟩

/-- `xs[i..]`. -/
theorem slice_to_end {xs : List α} {i : ℕ} (h : i ≤ xs.length) :
    slice xs i xs.length = .ok (xs.drop i) := by
  rw [slice_eq h le_rfl, List.take_length]

theorem splitAt_eq {xs : List α} {mid : ℕ} (h : mid ≤ xs.length) :
    splitAt xs mid = .ok (xs.take mid, xs.drop mid) := if_pos h

theorem advance_eq {xs : List α} {n : ℕ} (h : n ≤ xs.length) : advance xs n = .ok (xs.drop n) :=
  if_pos h

theorem add_eq {bits a b : ℕ} (h : a + b < 2 ^ bits) : add bits a b = .ok (a + b) := if_pos h

theorem mul_eq {bits a b : ℕ} (h : a * b < 2 ^ bits) : mul bits a b = .ok (a * b) := if_pos h

theorem sub_eq {a b : ℕ} (h : b ≤ a) : sub a b = .ok (a - b) := if_pos h

theorem signed_eq {bits : ℕ} {x : ℤ} (hmin : -2 ^ (bits - 1) ≤ x) (hmax : x < 2 ^ (bits - 1)) :
    signed bits x = .ok x := if_pos ⟨hmin, hmax⟩

theorem addU8_eq {a b : UInt8} (h : a.toNat + b.toNat < 256) : addU8 a b = .ok (a + b) := if_pos h

theorem subU8_eq {a b : UInt8} (h : b ≤ a) : subU8 a b = .ok (a - b) := if_pos h

theorem shlU8_eq (a : UInt8) {i : ℕ} (h : i < 8) : shlU8 a i = .ok (a <<< UInt8.ofNat i) := if_pos h

/-- One step after the other. -/
theorem bind_eq {β : Type} {x : Checked α} {f : α → Checked β} {a : α} {y : Checked β}
    (h : x = .ok a) (hf : f a = y) : (x >>= f) = y := by
  rw [h]
  exact hf

/-- A list of steps none of which panics. -/
theorem mapM_eq {β : Type} {xs : List α} {f : α → Checked β} {g : α → β}
    (h : ∀ x ∈ xs, f x = .ok (g x)) : xs.mapM f = .ok (xs.map g) := by
  induction xs with
  | nil => rfl
  | cons x xs ih =>
      rw [List.mapM_cons, h x List.mem_cons_self, ih fun x' hx => h x' (List.mem_cons_of_mem _ hx)]
      rfl

end Operations

/-- A list in the memory of a machine with words of `bits` bits: its length is a signed word. -/
structure Slice (bits : ℕ) (α : Type) where
  toList : List α
  fits : toList.length < 2 ^ (bits - 1)

/-! ### What a computation comes to -/

section Yields

variable {ε α β : Type}

/-- The computation does not panic, and comes to `y`. -/
def Yields (x : Fallible ε α) (y : Except ε α) : Prop := x.run = .ok y

theorem Yields.pure (a : α) : Yields (Pure.pure a : Fallible ε α) (.ok a) := rfl

theorem Yields.throw (e : ε) : Yields (throw e : Fallible ε α) (.error e) := rfl

theorem Yields.fromExcept (y : Except ε α) : Yields (fromExcept y) y := rfl

theorem Yields.check {x : Checked α} {a : α} (h : x = .ok a) :
    Yields (check x : Fallible ε α) (.ok a) := by
  rw [h]
  rfl

/-- **One step after the other**; the second is only taken when the first returned no error. -/
theorem Yields.bind {x : Fallible ε α} {y : Except ε α} {f : α → Fallible ε β}
    {g : α → Except ε β} (h : Yields x y) (hf : ∀ a, y = .ok a → Yields (f a) (g a)) :
    Yields (x >>= f) (y >>= g) := by
  have hx : x = ExceptT.mk (.ok y) := h
  subst hx
  cases y with
  | error e => rfl
  | ok a => exact hf a rfl

/-- A step of the program that is no step of what it comes to. -/
theorem Yields.bind_ok {x : Fallible ε α} {a : α} {f : α → Fallible ε β} {z : Except ε β}
    (h : Yields x (.ok a)) (hf : Yields (f a) z) : Yields (x >>= f) z := by
  have hx : x = ExceptT.mk (.ok (.ok a)) := h
  subst hx
  exact hf

theorem Yields.ite {p : Prop} [Decidable p] {x x' : Fallible ε α} {y y' : Except ε α}
    (h : p → Yields x y) (h' : ¬ p → Yields x' y') :
    Yields (if p then x else x') (if p then y else y') := by
  split
  · next hp => exact h hp
  · next hp => exact h' hp

end Yields

/-! ### Loops -/

section Loops

variable {S R : Type}

/-- A loop with at most `fuel` rounds.  A round ends in another state or in the result. -/
def runLoop (body : S → Checked (S ⊕ R)) : ℕ → S → Checked R
  | 0, _ => .error .fuel
  | fuel + 1, s =>
    match body s with
    | .error e => .error e
    | .ok (.inl s') => runLoop body fuel s'
    | .ok (.inr r) => .ok r

/-- **A loop whose rounds go down comes to its result**, when every round does not panic, keeps the
invariant, and leaves the result as it is. -/
theorem runLoop_eq {body : S → Checked (S ⊕ R)} (inv : S → Prop) (measure : S → ℕ) {result : S → R}
    (h : ∀ s, inv s → body s = .ok (.inr (result s)) ∨
      ∃ s', body s = .ok (.inl s') ∧ inv s' ∧ measure s' < measure s ∧ result s' = result s)
    {fuel : ℕ} {s : S} (hs : inv s) (hfuel : measure s < fuel) :
    runLoop body fuel s = .ok (result s) := by
  induction fuel generalizing s with
  | zero => exact absurd hfuel (Nat.not_lt_zero _)
  | succ fuel ih =>
      rw [runLoop]
      rcases h s hs with hbody | ⟨s', hbody, hs', hlt, hresult⟩
      · rw [hbody]
      · rw [hbody, ← hresult]
        exact ih hs' (by omega)

end Loops

end PanicChecks
