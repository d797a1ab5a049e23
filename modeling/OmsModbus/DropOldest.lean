/-
**Queues that drop their oldest items.**

A queue whose items have weights is kept within a limit by dropping items from its front.  What is
left is the longest suffix within the limit.  Making room for a new item first, and appending it
then, keeps the longest suffix of the queue with the new item, as long as the item fits by itself;
if it does not, nothing is kept.

Main definitions:

* `DropOldest.weight` — the weight of a queue;
* `DropOldest.keep` — the queue after its oldest items were dropped;
* `DropOldest.LongestWithin` — the longest suffix within a limit, as a property.

Main results:

* `DropOldest.longestWithin_keep` — **dropping keeps the longest suffix within the limit**;
* `DropOldest.keep_append_singleton` — making room for an item and appending it.
-/

import Mathlib

set_option relaxedAutoImplicit false
set_option autoImplicit false

namespace DropOldest

variable {α : Type*} (w : α → ℕ)

/-- The weight of a queue. -/
def weight (q : List α) : ℕ := (q.map w).sum

@[simp] theorem weight_nil : weight w ([] : List α) = 0 := rfl

@[simp] theorem weight_cons (x : α) (q : List α) : weight w (x :: q) = w x + weight w q := by
  simp [weight]

@[simp] theorem weight_append (q r : List α) : weight w (q ++ r) = weight w q + weight w r := by
  simp [weight]

/-- The oldest items are dropped until the rest weighs at most `limit`. -/
def keep (limit : ℕ) : List α → List α
  | [] => []
  | x :: q => if weight w (x :: q) ≤ limit then x :: q else keep limit q

theorem keep_of_le {limit : ℕ} {q : List α} (h : weight w q ≤ limit) : keep w limit q = q := by
  cases q with
  | nil => rfl
  | cons x q => rw [keep, if_pos h]

theorem keep_cons_of_lt {limit : ℕ} {x : α} {q : List α} (h : limit < weight w (x :: q)) :
    keep w limit (x :: q) = keep w limit q := by
  rw [keep, if_neg (by omega)]

/-- `s` is the longest suffix of `q` that weighs at most `limit`. -/
structure LongestWithin (limit : ℕ) (q s : List α) : Prop where
  suffix : s <:+ q
  within : weight w s ≤ limit
  longest : ∀ t, t <:+ q → weight w t ≤ limit → t <:+ s

/-- **Dropping keeps the longest suffix within the limit.** -/
theorem longestWithin_keep (limit : ℕ) (q : List α) : LongestWithin w limit q (keep w limit q) := by
  induction q with
  | nil =>
      refine ⟨List.suffix_refl _, Nat.zero_le _, ?_⟩
      intro t ht _
      exact ht
  | cons x q ih =>
      rcases Nat.lt_or_ge limit (weight w (x :: q)) with hlt | hle
      · rw [keep_cons_of_lt w hlt]
        refine ⟨ih.suffix.trans (List.suffix_cons x q), ih.within, ?_⟩
        intro t ht htw
        rcases List.suffix_cons_iff.1 ht with rfl | ht
        · omega
        · exact ih.longest t ht htw
      · rw [keep_of_le w hle]
        exact ⟨List.suffix_refl _, hle, fun t ht _ => ht⟩

/-- **Making room for an item and appending it** keeps the longest suffix with the item, when it
fits by itself. -/
theorem keep_append_singleton {limit : ℕ} {x : α} (hx : w x ≤ limit) (q : List α) :
    keep w limit (q ++ [x]) = keep w (limit - w x) q ++ [x] := by
  induction q with
  | nil =>
      rw [List.nil_append]
      exact keep_of_le w (by simpa using hx)
  | cons y q ih =>
      have hweight : weight w (y :: (q ++ [x])) = weight w (y :: q) + w x := by
        rw [← List.cons_append, weight_append, weight_cons w x, weight_nil, Nat.add_zero]
      rw [List.cons_append]
      rcases Nat.lt_or_ge (limit - w x) (weight w (y :: q)) with hlt | hle
      · rw [keep_cons_of_lt w hlt, ← ih]
        exact keep_cons_of_lt w (by omega)
      · rw [keep_of_le w hle]
        exact keep_of_le w (by omega)

/-- An item that does not fit leaves nothing. -/
theorem keep_append_singleton_of_lt {limit : ℕ} {x : α} (hx : limit < w x) (q : List α) :
    keep w limit (q ++ [x]) = [] := by
  induction q with
  | nil =>
      rw [List.nil_append, keep_cons_of_lt w (by simpa using hx)]
      rfl
  | cons y q ih =>
      rw [List.cons_append, keep_cons_of_lt w, ih]
      simp
      omega

end DropOldest
