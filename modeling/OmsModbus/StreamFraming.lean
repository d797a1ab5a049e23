/-
**Cutting a byte stream into frames.**

A receiver appends every chunk it reads to a buffer and takes frames off the front of the buffer
for as long as its parser finds one.  The parser only ever sees the buffer, so what it makes of a
stream depends on how the stream was cut into chunks.  This module develops that loop for an
arbitrary parser: what one pass over the buffer does, what a run over a list of chunks does, how
the buffer stands to the frames that were sent, and the case in which the cutting does not matter.

Main definitions:

* `StreamFraming.Framer` — a parser that takes a nonempty piece off the front of a buffer;
* `StreamFraming.Framer.drain` — taking off frames until the parser finds none;
* `StreamFraming.Framer.run` — the receiver over a list of chunks, with a rule that throws away a
  buffer that looks hopeless;
* `StreamFraming.Partial` — the bytes in the buffer are a proper prefix of the next frame.

Main results:

* `StreamFraming.Framer.run_weight` — **no byte is used twice**: what the items weigh and what is
  left in the buffer come to at most the bytes that were read;
* `StreamFraming.exists_split` — every cut of a stream of frames falls behind some whole frames
  and inside the next one;
* `StreamFraming.Framer.run_eq_of_selfDelimiting` — a parser that recognises a frame in front of
  any suffix, and nothing in a proper prefix of one, finds the frames that were sent **however the
  stream was cut**;
* `StreamFraming.Framer.run_eq_drain` — so does a parser that finds in a buffer with more behind it
  what it found in the buffer, whatever the stream is made of.
-/

import Mathlib

set_option relaxedAutoImplicit false
set_option autoImplicit false

namespace StreamFraming

variable {α β ρ : Type}

/-! ### Taking frames off a buffer -/

/-- A parser that looks at the front of a buffer: it finds an item and the number of elements it
takes up, or nothing.  An item takes up at least one element, and no more than there are. -/
structure Framer (α β : Type) where
  parse : List α → Option (β × ℕ)
  pos : ∀ {b : List α} {x : β} {n : ℕ}, parse b = some (x, n) → 0 < n
  le : ∀ {b : List α} {x : β} {n : ℕ}, parse b = some (x, n) → n ≤ b.length

namespace Framer

variable (F : Framer α β)

/-- At most `k` items are taken off the buffer. -/
def drainN : ℕ → List α → List β × List α
  | 0, b => ([], b)
  | k + 1, b =>
      match F.parse b with
      | none => ([], b)
      | some (x, n) =>
        let r := drainN k (b.drop n)
        (x :: r.1, r.2)

/-- Items are taken off the buffer until the parser finds none.  Every item takes up an element,
so there are no more of them than elements. -/
def drain (b : List α) : List β × List α := F.drainN b.length b

/-- More fuel than elements changes nothing. -/
theorem drainN_of_le {k : ℕ} {b : List α} (h : b.length ≤ k) : F.drainN k b = F.drain b := by
  induction k using Nat.strong_induction_on generalizing b with
  | _ k ih =>
      cases hp : F.parse b with
      | none =>
          unfold drain
          cases k <;> cases b.length <;> simp [drainN, hp]
      | some r =>
          obtain ⟨x, n⟩ := r
          have hpos := F.pos hp
          have hle := F.le hp
          obtain ⟨k, rfl⟩ : ∃ m, k = m + 1 := ⟨k - 1, by omega⟩
          obtain ⟨l, hl⟩ : ∃ m, b.length = m + 1 := ⟨b.length - 1, by omega⟩
          have hdrop : (b.drop n).length ≤ l := by
            rw [List.length_drop]
            omega
          -- both fuels cover what is left behind the first item
          rw [drain, hl, drainN, drainN, hp]
          simp only
          rw [ih k (by omega) (by omega), ih l (by omega) hdrop]

theorem drain_none {b : List α} (h : F.parse b = none) : F.drain b = ([], b) := by
  unfold drain
  cases b.length <;> simp [drainN, h]

theorem drain_some {b : List α} {x : β} {n : ℕ} (h : F.parse b = some (x, n)) :
    F.drain b = (x :: (F.drain (b.drop n)).1, (F.drain (b.drop n)).2) := by
  have hpos := F.pos h
  have hle := F.le h
  obtain ⟨l, hl⟩ : ∃ m, b.length = m + 1 := ⟨b.length - 1, by omega⟩
  rw [drain, hl, drainN, h]
  simp only
  rw [F.drainN_of_le (by rw [List.length_drop]; omega)]

/-- An induction over the items that are taken off a buffer. -/
theorem drain_induction {P : List α → Prop} (none : ∀ b, F.parse b = none → P b)
    (some : ∀ b x n, F.parse b = some (x, n) → P (b.drop n) → P b) (b : List α) : P b := by
  induction hl : b.length using Nat.strong_induction_on generalizing b with
  | _ l ih =>
      subst hl
      cases hp : F.parse b with
      | none => exact none b hp
      | some r =>
          obtain ⟨x, n⟩ := r
          have hpos := F.pos hp
          have hle := F.le hp
          refine some b x n hp (ih _ ?_ (b.drop n) rfl)
          rw [List.length_drop]
          omega

/-- What is left holds no frame. -/
theorem parse_drain (b : List α) : F.parse (F.drain b).2 = none := by
  induction b using F.drain_induction with
  | none b hp => rw [F.drain_none hp, hp]
  | some b x n hp ih => rw [F.drain_some hp, ih]

/-- The items weigh no more than the elements they take up. -/
theorem drain_weight {w : β → ℕ} (hw : ∀ {b x n}, F.parse b = some (x, n) → w x ≤ n)
    (b : List α) : ((F.drain b).1.map w).sum + (F.drain b).2.length ≤ b.length := by
  induction b using F.drain_induction with
  | none b hp => simp [F.drain_none hp]
  | some b x n hp ih =>
      have hx := hw hp
      have hle := F.le hp
      rw [F.drain_some hp]
      simp only [List.map_cons, List.sum_cons, List.length_drop] at ih ⊢
      omega

/-! ### A receiver -/

variable (discard : List α → Bool)

/-- One chunk: it is appended, the buffer is drained, and what is left is thrown away when
`discard` says so. -/
def feed (b c : List α) : List β × List α :=
  let r := F.drain (b ++ c)
  (r.1, if discard r.2 then [] else r.2)

/-- A list of chunks, with the items of all of them. -/
def run : List α → List (List α) → List β × List α
  | b, [] => ([], b)
  | b, c :: cs =>
      let r := F.feed discard b c
      let s := run r.2 cs
      (r.1 ++ s.1, s.2)

@[simp] theorem run_nil (b : List α) : F.run discard b [] = ([], b) := rfl

theorem run_cons (b c : List α) (cs : List (List α)) :
    F.run discard b (c :: cs)
      = ((F.feed discard b c).1 ++ (F.run discard (F.feed discard b c).2 cs).1,
        (F.run discard (F.feed discard b c).2 cs).2) := rfl

theorem feed_weight {w : β → ℕ} (hw : ∀ {b x n}, F.parse b = some (x, n) → w x ≤ n)
    (b c : List α) : ((F.feed discard b c).1.map w).sum + (F.feed discard b c).2.length
      ≤ b.length + c.length := by
  have h := F.drain_weight hw (b ++ c)
  rw [List.length_append] at h
  unfold feed
  simp only
  split
  · simp only [List.length_nil]
    omega
  · exact h

/-- **No byte is used twice**: the items of a run and the buffer it leaves come to at most the
bytes that were there and that were read. -/
theorem run_weight {w : β → ℕ} (hw : ∀ {b x n}, F.parse b = some (x, n) → w x ≤ n)
    (b : List α) (cs : List (List α)) :
    ((F.run discard b cs).1.map w).sum + (F.run discard b cs).2.length
      ≤ b.length + cs.flatten.length := by
  induction cs generalizing b with
  | nil => simp
  | cons c cs ih =>
      have hfeed := F.feed_weight discard hw b c
      have hrun := ih (F.feed discard b c).2
      rw [run_cons]
      simp only [List.map_append, List.sum_append, List.flatten_cons, List.length_append]
      omega

/-- A chunk that leaves nothing to take off is only appended. -/
theorem feed_of_parse_none {b c : List α} (h : F.parse (b ++ c) = none)
    (hd : discard (b ++ c) = false) : F.feed discard b c = ([], b ++ c) := by
  rw [feed, F.drain_none h]
  simp [hd]

/-- Chunks that leave nothing to take off are only appended. -/
theorem run_append_of_parse_none {b : List α} {cs : List (List α)}
    (h : ∀ k, 0 < k → k ≤ cs.length → F.parse (b ++ (cs.take k).flatten) = none)
    (ds : List (List α)) :
    F.run (fun _ => false) b (cs ++ ds) = F.run (fun _ => false) (b ++ cs.flatten) ds := by
  induction cs generalizing b with
  | nil => simp
  | cons c cs ih =>
      have hc : F.parse (b ++ c) = none := by simpa using h 1 (by omega) (by simp)
      have hcs : ∀ k, 0 < k → k ≤ cs.length →
          F.parse (b ++ c ++ (cs.take k).flatten) = none := by
        intro k hk hle
        have := h (k + 1) (by omega) (by simpa using hle)
        simpa using this
      rw [List.cons_append, run_cons, F.feed_of_parse_none _ hc rfl, List.nil_append, ih hcs,
        List.flatten_cons, List.append_assoc]

/-- The first chunk that lets the parser find something. -/
theorem run_first {b : List α} {cs : List (List α)} {k : ℕ} (hk : k < cs.length)
    (hnone : ∀ j, 0 < j → j ≤ k → F.parse (b ++ (cs.take j).flatten) = none) {x : β} {n : ℕ}
    (hx : F.parse (b ++ (cs.take (k + 1)).flatten) = some (x, n)) :
    ∃ r s, F.drain ((b ++ (cs.take (k + 1)).flatten).drop n) = r ∧
      F.run (fun _ => false) r.2 (cs.drop (k + 1)) = s ∧
      F.run (fun _ => false) b cs = (x :: (r.1 ++ s.1), s.2) := by
  refine ⟨_, _, rfl, rfl, ?_⟩
  have hsplit : cs = cs.take k ++ cs[k] :: cs.drop (k + 1) := by
    rw [← List.drop_eq_getElem_cons hk, List.take_append_drop]
  have hchunk : b ++ (cs.take (k + 1)).flatten = b ++ (cs.take k).flatten ++ cs[k] := by
    rw [List.take_add_one, List.getElem?_eq_getElem hk, List.flatten_append, List.append_assoc]
    simp
  conv_lhs => rw [hsplit]
  have htake : ∀ j, 0 < j → j ≤ (cs.take k).length →
      F.parse (b ++ ((cs.take k).take j).flatten) = none := by
    intro j hj hle
    rw [List.length_take] at hle
    rw [List.take_take, Nat.min_eq_left (by omega)]
    exact hnone j hj (by omega)
  rw [F.run_append_of_parse_none htake, run_cons, feed, ← hchunk, F.drain_some hx]
  simp

/-- An item that is found when it is whole, and not before, comes out once however it is cut. -/
theorem run_whole {frame b : List α} {cs : List (List α)} {x : β}
    (hwhole : F.parse frame = some (x, frame.length)) (hnil : F.parse [] = none)
    (hcs : cs ≠ []) (hcut : b ++ cs.flatten = frame)
    (hpart : ∀ k, 0 < k → k < cs.length →
      F.parse (b ++ (cs.take k).flatten) = none ∧ discard (b ++ (cs.take k).flatten) = false) :
    F.run discard b cs = ([x], []) := by
  induction cs generalizing b with
  | nil => exact absurd rfl hcs
  | cons c cs ih =>
      rw [List.flatten_cons, ← List.append_assoc] at hcut
      by_cases hlast : cs = []
      · subst hlast
        rw [List.flatten_nil, List.append_nil] at hcut
        have hdrain : F.drain frame = ([x], []) := by
          rw [F.drain_some hwhole, List.drop_length, F.drain_none hnil]
        rw [run_cons, feed, hcut, hdrain]
        simp
      · obtain ⟨hnone, hkeep⟩ := hpart 1 (by omega) (by
          have := List.length_pos_iff.2 hlast
          simpa using this)
        simp only [List.take_succ_cons, List.take_zero, List.flatten_cons, List.flatten_nil,
          List.append_nil] at hnone hkeep
        rw [run_cons, F.feed_of_parse_none _ hnone hkeep, List.nil_append,
          ih hlast hcut]
        intro k hk hlt
        have := hpart (k + 1) (by omega) (by simpa using hlt)
        simpa using this

end Framer

/-! ### Frames in a stream -/

variable (bytes : ρ → List α)

/-- `q` is a proper prefix of the next frame, and empty when no frame is left. -/
def Partial : List ρ → List α → Prop
  | [], q => q = []
  | r :: _, q => ∃ t, t ≠ [] ∧ bytes r = q ++ t

/-- The empty buffer is a proper prefix of a nonempty frame. -/
theorem Partial.nil {rs : List ρ} (hne : ∀ r ∈ rs, bytes r ≠ []) : Partial bytes rs [] := by
  cases rs with
  | nil => rfl
  | cons r rs => exact ⟨bytes r, hne r (by simp), rfl⟩

/-- **Every cut of a stream of frames** falls behind some whole frames and inside the next. -/
theorem exists_split {rs : List ρ} {b t : List α} (h : b ++ t = rs.flatMap bytes) :
    ∃ done rest q, rs = done ++ rest ∧ b = done.flatMap bytes ++ q ∧ Partial bytes rest q ∧
      q ++ t = rest.flatMap bytes := by
  induction rs generalizing b with
  | nil =>
      obtain ⟨rfl, rfl⟩ : b = [] ∧ t = [] := by simpa using h
      exact ⟨[], [], [], rfl, rfl, rfl, rfl⟩
  | cons r rs ih =>
      rw [List.flatMap_cons] at h
      rcases List.append_eq_append_iff.1 h with ⟨s, hs, ht⟩ | ⟨s, hs, ht⟩
      · by_cases hnil : s = []
        · -- the cut falls on the end of the frame
          subst hnil
          obtain ⟨done, rest, q, rfl, hq, hpart, hrest⟩ := ih (b := []) (by simpa using ht)
          refine ⟨r :: done, rest, q, rfl, ?_, hpart, hrest⟩
          rw [List.flatMap_cons, List.append_assoc, ← hq, hs, List.append_nil, List.append_nil]
        · exact ⟨[], r :: rs, b, rfl, rfl, ⟨s, hnil, hs⟩, h⟩
      · obtain ⟨done, rest, q, rfl, hq, hpart, hrest⟩ := ih ht.symm
        refine ⟨r :: done, rest, q, rfl, ?_, hpart, hrest⟩
        rw [List.flatMap_cons, List.append_assoc, ← hq, hs]

/-! ### Frames that delimit themselves -/

namespace Framer

variable (F : Framer α β) (discard : List α → Bool) (item : ρ → β) {bytes}

/-- Whole frames are taken off one by one. -/
theorem drain_flatMap {rs : List ρ}
    (hparse : ∀ r ∈ rs, ∀ s, F.parse (bytes r ++ s) = some (item r, (bytes r).length))
    (q : List α) : F.drain (rs.flatMap bytes ++ q)
      = (rs.map item ++ (F.drain q).1, (F.drain q).2) := by
  induction rs with
  | nil => rfl
  | cons r rs ih =>
      have hr := hparse r (by simp) (rs.flatMap bytes ++ q)
      rw [List.flatMap_cons, List.append_assoc, F.drain_some hr, List.drop_left,
        ih fun r' hr' => hparse r' (by simp [hr'])]
      rfl

/-- **However the stream was cut**, a parser for which the frames delimit themselves finds the
frames that were sent. -/
theorem run_eq_of_selfDelimiting {rs : List ρ} {cs : List (List α)} {q : List α}
    (hparse : ∀ r ∈ rs, ∀ s, F.parse (bytes r ++ s) = some (item r, (bytes r).length))
    (hpart : ∀ r ∈ rs, ∀ q t, t ≠ [] → bytes r = q ++ t → F.parse q = none ∧ discard q = false)
    (hnil : F.parse [] = none) (hq : Partial bytes rs q)
    (hcut : q ++ cs.flatten = rs.flatMap bytes) : F.run discard q cs = (rs.map item, []) := by
  induction cs generalizing rs q with
  | nil =>
      rw [List.flatten_nil, List.append_nil] at hcut
      cases rs with
      | nil => simp [hcut]
      | cons r rs =>
          -- a proper prefix of a frame is not the whole stream
          obtain ⟨t, ht, hr⟩ := hq
          have hlen := congrArg List.length hcut
          have htpos := List.length_pos_iff.2 ht
          rw [List.flatMap_cons, hr] at hlen
          simp only [List.length_append] at hlen
          omega
  | cons c cs ih =>
      rw [List.flatten_cons, ← List.append_assoc] at hcut
      obtain ⟨done, rest, q', rfl, hb, hpart', hrest⟩ := exists_split bytes hcut
      have hnone : F.parse q' = none ∧ (if discard q' then [] else q') = q' := by
        cases rest with
        | nil =>
            obtain rfl : q' = [] := hpart'
            simp [hnil]
        | cons r rest =>
            obtain ⟨t, ht, hr⟩ := hpart'
            have h := hpart r (by simp) q' t ht hr
            simp [h.1, h.2]
      have hfeed : F.feed discard q c = (done.map item, q') := by
        have hdone : ∀ r ∈ done, ∀ s, F.parse (bytes r ++ s) = some (item r, (bytes r).length) :=
          fun r hr => hparse r (by simp [hr])
        rw [feed, hb, F.drain_flatMap item hdone, F.drain_none hnone.1, List.append_nil]
        simp only
        rw [hnone.2]
      have hrun := ih (fun r hr => hparse r (by simp [hr])) (fun r hr => hpart r (by simp [hr]))
        hpart' hrest
      rw [run_cons, hfeed]
      simp only
      rw [hrun, List.map_append]

end Framer

/-! ### Parsers that do not change their mind -/

namespace Framer

variable {F : Framer α β}

/-- What is found in a buffer is found in the buffer with more behind it. -/
def Stable (F : Framer α β) : Prop :=
  ∀ b x n, F.parse b = some (x, n) → ∀ s, F.parse (b ++ s) = some (x, n)

/-- Draining a buffer and what is left with more behind it is draining all of it. -/
theorem drain_append (hF : F.Stable) (b s : List α) :
    F.drain (b ++ s)
      = ((F.drain b).1 ++ (F.drain ((F.drain b).2 ++ s)).1, (F.drain ((F.drain b).2 ++ s)).2) := by
  induction b using F.drain_induction with
  | none b hp =>
      rw [F.drain_none hp]
      rfl
  | some b x n hp ih =>
      rw [F.drain_some (hF b x n hp s), List.drop_append_of_le_length (F.le hp), ih,
        F.drain_some hp]
      rfl

/-- **However the stream was cut**, a parser that does not change its mind takes off what it would
take off the whole stream. -/
theorem run_eq_drain (hF : F.Stable) {b : List α} (hb : F.parse b = none) (cs : List (List α)) :
    F.run (fun _ => false) b cs = F.drain (b ++ cs.flatten) := by
  induction cs generalizing b with
  | nil => rw [run_nil, List.flatten_nil, List.append_nil, F.drain_none hb]
  | cons c cs ih =>
      have hfeed : F.feed (fun _ => false) b c = F.drain (b ++ c) := rfl
      rw [run_cons, hfeed, ih (F.parse_drain _), List.flatten_cons, ← List.append_assoc,
        drain_append hF (b ++ c)]

end Framer

end StreamFraming
