/-
**Buffers of records that may forget.**

A buffer is told of events, keeps a record of each, and hands its records out when it is drained.
When it is full it forgets its oldest record and counts it.  What such buffers have in common is
stated here as an interface: recording an event puts its record at the end, and either all records
before it stay or the oldest of them goes, counted.  Whatever else a buffer can be told leaves its
records alone.  The books of a run, that is what was recorded and what was handed out, then agree
with the buffer in every state.

Main definitions:

* `RecordBuffer.Buffer` — the interface;
* `RecordBuffer.Op`, `RecordBuffer.Run` — the operations of a run, and its state with the books;
* `RecordBuffer.Conserved` — the books agree with the buffer.

Main results:

* `RecordBuffer.Buffer.run_induction` — what every operation keeps holds after every run;
* `RecordBuffer.Buffer.conserved_run` — **no record is lost without being counted, none is handed
  out twice, and their order is kept**;
* `RecordBuffer.Buffer.rtake_run` — **a buffer that forgets only above its capacity holds the last
  records**.
-/

import Mathlib

set_option relaxedAutoImplicit false
set_option autoImplicit false

namespace RecordBuffer

variable {S E R C : Type*}

/-! ### The interface -/

/-- What recording does to the records and to the count of the forgotten ones: the new record comes
last, and the oldest one may go. -/
inductive Records (x : R) : List R × ℕ → List R × ℕ → Prop
  | keep (items : List R) (n : ℕ) : Records x (items, n) (items ++ [x], n)
  | forget (y : R) (items : List R) (n : ℕ) : Records x (y :: items, n) (items ++ [x], n + 1)

/-- A buffer of records, with the states in which it works. -/
structure Buffer (S E R C : Type*) where
  packet : E → R
  record : S → E → S
  drain : S → List R × S
  control : S → C → S
  items : S → List R
  dropped : S → ℕ
  Ok : S → Prop
  ok_record : ∀ {s : S}, Ok s → ∀ e, Ok (record s e)
  ok_drain : ∀ {s : S}, Ok s → Ok (drain s).2
  ok_control : ∀ {s : S}, Ok s → ∀ c, Ok (control s c)
  records : ∀ {s : S}, Ok s → ∀ e,
    Records (packet e) (items s, dropped s) (items (record s e), dropped (record s e))
  drains : ∀ s, (drain s).1 = items s ∧ items (drain s).2 = [] ∧ dropped (drain s).2 = dropped s
  controls : ∀ s c, items (control s c) = items s ∧ dropped (control s c) = dropped s

/-- An operation: an event is recorded, the buffer is drained or only looked at, or told something
of its own. -/
inductive Op (E C : Type*)
  | record (e : E)
  | drain
  | snapshot
  | control (c : C)
  deriving DecidableEq, Repr

/-- The state of a buffer, and the books of the run that led to it: everything recorded, what was
recorded since the buffer was last drained, and everything handed out when it was. -/
structure Run (S R : Type*) where
  state : S
  recorded : List R
  since : List R
  drained : List R

namespace Buffer

variable (b : Buffer S E R C)

/-- One operation.  Looking at the records changes nothing. -/
def step (k : Run S R) : Op E C → Run S R
  | .record e => { k with
      state := b.record k.state e
      recorded := k.recorded ++ [b.packet e]
      since := k.since ++ [b.packet e] }
  | .drain => { k with
      state := (b.drain k.state).2
      since := []
      drained := k.drained ++ (b.drain k.state).1 }
  | .snapshot => k
  | .control c => { k with state := b.control k.state c }

/-- A run from a state, with empty books. -/
def run (s : S) (ops : List (Op E C)) : Run S R := ops.foldl b.step ⟨s, [], [], []⟩

/-- **What every operation keeps holds after every run.** -/
theorem run_induction {P : Run S R → Prop} {s : S} (h0 : P ⟨s, [], [], []⟩)
    (hstep : ∀ k op, P k → P (b.step k op)) (ops : List (Op E C)) : P (b.run s ops) := by
  unfold run
  generalize (⟨s, [], [], []⟩ : Run S R) = k at h0
  induction ops generalizing k with
  | nil => exact h0
  | cons op ops ih => exact ih _ (hstep k op h0)

/-- The same for a property that is kept in the states of an invariant. -/
theorem run_induction_of {I : S → Prop} {P : Run S R → Prop} {s : S} (hs : I s)
    (h0 : P ⟨s, [], [], []⟩) (hI : ∀ k op, I k.state → I (b.step k op).state)
    (hP : ∀ k op, I k.state → P k → P (b.step k op)) (ops : List (Op E C)) :
    I (b.run s ops).state ∧ P (b.run s ops) := by
  refine b.run_induction (P := fun k => I k.state ∧ P k) ⟨hs, h0⟩ ?_ ops
  intro k op h
  exact ⟨hI k op h.1, hP k op h.1 h.2⟩

end Buffer

/-! ### Conservation -/

/-- The books agree with the buffer: what was handed out and what is left are a part of what was
recorded, in order, and the rest was counted. -/
structure Conserved (b : Buffer S E R C) (k : Run S R) : Prop where
  order : (k.drained ++ b.items k.state).Sublist k.recorded
  count : k.recorded.length = k.drained.length + (b.items k.state).length + b.dropped k.state

namespace Buffer

variable (b : Buffer S E R C)

theorem ok_step {k : Run S R} (h : b.Ok k.state) (op : Op E C) : b.Ok (b.step k op).state := by
  cases op with
  | record e => exact b.ok_record h e
  | drain => exact b.ok_drain h
  | snapshot => exact h
  | control c => exact b.ok_control h c

/-- Every operation keeps the books. -/
theorem conserved_step {k : Run S R} (hok : b.Ok k.state) (h : Conserved b k) (op : Op E C) :
    Conserved b (b.step k op) := by
  obtain ⟨horder, hcount⟩ := h
  cases op with
  | record e =>
      have hrecords := b.records hok e
      generalize hitems : b.items k.state = items at hrecords horder hcount
      generalize hdropped : b.dropped k.state = n at hrecords hcount
      generalize hitems' : b.items (b.record k.state e) = items' at hrecords
      generalize hdropped' : b.dropped (b.record k.state e) = n' at hrecords
      refine ⟨?_, ?_⟩
      · change (k.drained ++ b.items (b.record k.state e)).Sublist (k.recorded ++ [b.packet e])
        rw [hitems']
        cases hrecords with
        | keep =>
            rw [← List.append_assoc]
            exact horder.append_right _
        | forget y items =>
            rw [← List.append_assoc]
            have hforget := (List.Sublist.refl k.drained).append (List.sublist_cons_self y items)
            exact (hforget.trans horder).append_right _
      · change (k.recorded ++ [b.packet e]).length
          = k.drained.length + (b.items (b.record k.state e)).length
            + b.dropped (b.record k.state e)
        rw [hitems', hdropped', List.length_append, List.length_singleton, hcount]
        cases hrecords with
        | keep =>
            rw [List.length_append, List.length_singleton]
            omega
        | forget y items =>
            rw [List.length_append, List.length_singleton, List.length_cons]
            omega
  | drain =>
      obtain ⟨hout, hitems, hdropped⟩ := b.drains k.state
      refine ⟨?_, ?_⟩
      · change (k.drained ++ (b.drain k.state).1 ++ b.items (b.drain k.state).2).Sublist k.recorded
        rw [hout, hitems, List.append_nil]
        exact horder
      · change k.recorded.length = (k.drained ++ (b.drain k.state).1).length
          + (b.items (b.drain k.state).2).length + b.dropped (b.drain k.state).2
        rw [hout, hitems, hdropped, List.length_append, List.length_nil, Nat.add_zero]
        exact hcount
  | snapshot => exact ⟨horder, hcount⟩
  | control c =>
      obtain ⟨hitems, hdropped⟩ := b.controls k.state c
      refine ⟨?_, ?_⟩
      · change (k.drained ++ b.items (b.control k.state c)).Sublist k.recorded
        rw [hitems]
        exact horder
      · change k.recorded.length = k.drained.length + (b.items (b.control k.state c)).length
          + b.dropped (b.control k.state c)
        rw [hitems, hdropped]
        exact hcount

/-- **No record is lost without being counted, none is handed out twice, and their order is
kept.** -/
theorem conserved_run {s : S} (hok : b.Ok s) (hitems : b.items s = []) (hdropped : b.dropped s = 0)
    (ops : List (Op E C)) : Conserved b (b.run s ops) := by
  have h0 : Conserved b ⟨s, [], [], []⟩ := ⟨by simp [hitems], by simp [hitems, hdropped]⟩
  exact (b.run_induction_of hok h0 (fun _ op h => b.ok_step h op)
    (fun _ op hk h => b.conserved_step hk h op) ops).2

/-! ### The last records -/

/-- Forgetting the oldest of `cap` records makes room for one. -/
theorem rtake_concat (l : List R) (x : R) {cap : ℕ} (hcap : 0 < cap) :
    (l ++ [x]).rtake cap
      = (if (l.rtake cap).length < cap then l.rtake cap else (l.rtake cap).tail) ++ [x] := by
  obtain ⟨n, rfl⟩ : ∃ n, cap = n + 1 := ⟨cap - 1, by omega⟩
  rw [List.rtake_concat_succ]
  congr 1
  simp only [List.rtake, List.length_drop, List.tail_drop]
  split
  · rw [Nat.sub_eq_zero_of_le (show l.length ≤ n by omega),
      Nat.sub_eq_zero_of_le (show l.length ≤ n + 1 by omega)]
  · congr 1
    omega

/-- **A buffer that forgets only above its capacity holds the last records** since it was last
drained. -/
theorem rtake_run {s : S} {cap : ℕ} (hcap : 0 < cap) {P : S → Prop} (hP : P s)
    (hitems : b.items s = []) (hkeep : ∀ k op, P k.state → P (b.step k op).state)
    (hrecord : ∀ s e, P s → b.items (b.record s e)
      = (if (b.items s).length < cap then b.items s else (b.items s).tail) ++ [b.packet e])
    (ops : List (Op E C)) :
    b.items (b.run s ops).state = (b.run s ops).since.rtake cap := by
  refine (b.run_induction_of (P := fun k => b.items k.state = k.since.rtake cap) hP ?_ hkeep ?_
    ops).2
  · rw [hitems, List.rtake_nil]
  · intro k op hk h
    cases op with
    | record e =>
        change b.items (b.record k.state e) = (k.since ++ [b.packet e]).rtake cap
        rw [hrecord k.state e hk, rtake_concat _ _ hcap, h]
    | drain =>
        change b.items (b.drain k.state).2 = ([] : List R).rtake cap
        rw [(b.drains k.state).2.1, List.rtake_nil]
    | snapshot => exact h
    | control c =>
        change b.items (b.control k.state c) = k.since.rtake cap
        rw [(b.controls k.state c).1, h]

end Buffer

end RecordBuffer
