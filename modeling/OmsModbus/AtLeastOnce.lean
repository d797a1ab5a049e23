/-
**An operation that is tried until it is answered.**

A client that hears nothing cannot tell whether its operation was lost on the way there or its
answer on the way back.  If it tries again, the operation may run more than once.  Nobody can tell
from the state when a second run finds nothing left to do, and nobody can tell from the answers when
a second run answers the same.

Main definitions:

* `AtLeastOnce.Settles`, `AtLeastOnce.Repeats` — operations that may be run again;
* `AtLeastOnce.Tried` — the states that are reached by tries without an answer;
* `AtLeastOnce.Answered` — what the try that is answered leads to.

Main results:

* `AtLeastOnce.Tried.again`, `AtLeastOnce.Tried.answered` — **tries of an operation that settles
  come to no run or to one**;
* `AtLeastOnce.Answered.eq_of_repeats` — an answer is the one of the only run, when the operation
  repeats it.
-/

import Mathlib.Logic.Basic

set_option relaxedAutoImplicit false
set_option autoImplicit false

namespace AtLeastOnce

variable {σ ρ : Type}

/-- A second run changes nothing. -/
def Settles (op : σ → ρ × σ) : Prop := ∀ s, (op (op s).2).2 = (op s).2

/-- A second run answers what the first has answered. -/
def Repeats (op : σ → ρ × σ) : Prop := ∀ s, (op (op s).2).1 = (op s).1

/-- Where tries without an answer may have led: to no run of the operation, or to one. -/
inductive Tried (op : σ → ρ × σ) (s : σ) : σ → Prop
  | lost : Tried op s s
  | run : Tried op s (op s).2

/-- What a try that is answered leads to: the state of one run, and the answer of a first or of a
second one. -/
structure Answered (op : σ → ρ × σ) (s : σ) (r : ρ) (s' : σ) : Prop where
  state : s' = (op s).2
  answer : r = (op s).1 ∨ ¬ Repeats op ∧ r = (op (op s).2).1

variable {op : σ → ρ × σ} {s s' : σ}

/-- One more run. -/
theorem Tried.again (h : Tried op s s') (hop : Settles op) : (op s').2 = (op s).2 := by
  cases h with
  | lost => rfl
  | run => exact hop s

/-- One more run, and its answer. -/
theorem Tried.answered (h : Tried op s s') (hop : Settles op) :
    Answered op s (op s').1 (op s').2 := by
  refine ⟨h.again hop, ?_⟩
  cases h with
  | lost => exact .inl rfl
  | run =>
      by_cases hrep : Repeats op
      · exact .inl (hrep s)
      · exact .inr ⟨hrep, rfl⟩

/-- **The answer is the one of the only run**, when the operation repeats it. -/
theorem Answered.eq_of_repeats {r : ρ} (h : Answered op s r s') (hop : Repeats op) :
    (r, s') = op s := by
  obtain ⟨rfl, rfl | ⟨hno, -⟩⟩ := h
  · rfl
  · exact absurd hop hno

end AtLeastOnce
