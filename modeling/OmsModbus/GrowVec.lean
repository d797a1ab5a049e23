/-
**Growable vectors as total maps.**

A vector that grows when something is written behind its end, and reads a default there, stands for
a total map from the indices: nobody can see how long it is.  The same holds for a vector of bytes
that is used as a vector of bits.  A loop that writes a list of values to consecutive indices puts
the list over the map, whatever the representation is, as soon as a single write updates one value.

Main definitions:

* `GrowVec.overlay` — a map with a list of values put over it;
* `GrowVec.resize`, `GrowVec.grow` — a vector with another length, and with room for an index;
* `GrowVec.lookup`, `GrowVec.bitLookup` — the map a vector stands for, and that of its bits;
* `GrowVec.window` — a part of a vector, with the default behind its end.

Main results:

* `GrowVec.look_writeLoop` — **the write loop puts the list over the map**;
* `GrowVec.writeLoop_eq_self_iff` — when the write loop changes nothing at all;
* `GrowVec.lookup_write`, `GrowVec.bitLookup_write` — a single write updates one value;
* `GrowVec.window_eq` — a part of a vector is read value by value.
-/

import OmsModbus.BitPack

set_option relaxedAutoImplicit false
set_option autoImplicit false

namespace GrowVec

open BitPack

variable {α : Type*}

/-! ### Putting a list over a map -/

/-- The map that is `xs` from `a` on, and `m` elsewhere. -/
def overlay (m : ℕ → α) (a : ℕ) (xs : List α) : ℕ → α :=
  fun b => if a ≤ b then xs[b - a]?.getD (m b) else m b

@[simp] theorem overlay_nil (m : ℕ → α) (a : ℕ) : overlay m a [] = m := by
  funext b
  simp [overlay]

/-- The first value can be put down first. -/
theorem overlay_cons (m : ℕ → α) (a : ℕ) (x : α) (xs : List α) :
    overlay m a (x :: xs) = overlay (Function.update m a x) (a + 1) xs := by
  funext b
  rcases Nat.lt_trichotomy b a with hlt | rfl | hgt
  · simp [overlay, show ¬ a ≤ b by omega, show ¬ a + 1 ≤ b by omega, Nat.ne_of_lt hlt]
  · simp [overlay]
  · have hsub : b - a = (b - (a + 1)) + 1 := by omega
    simp [overlay, show a ≤ b by omega, show a + 1 ≤ b by omega, hsub, Nat.ne_of_gt hgt]

/-- **The write loop puts the list over the map**, whatever stands for the map. -/
theorem look_writeLoop {V : Type*} {look : V → ℕ → α} {write : V → ℕ → α → V}
    (hwrite : ∀ v a x, look (write v a x) = Function.update (look v) a x) (xs : List α) (v : V)
    (a : ℕ) :
    look ((xs.zipIdx).foldl (fun v p => write v (a + p.2) p.1) v) = overlay (look v) a xs := by
  suffices h : ∀ (i : ℕ) (v : V),
      look ((xs.zipIdx i).foldl (fun v p => write v (a + p.2) p.1) v)
        = overlay (look v) (a + i) xs from h 0 v
  induction xs with
  | nil =>
      intro i v
      simp
  | cons x xs ih =>
      intro i v
      rw [List.zipIdx_cons, List.foldl_cons, ih, hwrite, overlay_cons]
      rfl

section WriteLoop

variable {V : Type*} {look : V → ℕ → α} {size : V → ℕ} {cell : ℕ → ℕ} {write : V → ℕ → α → V}

/-- The write loop leaves room for every place it writes to. -/
theorem lt_size_writeLoop (hsize : ∀ v a x, size (write v a x) = max (size v) (cell a + 1))
    (xs : List α) (v : V) (a k : ℕ) :
    size v ≤ size ((xs.zipIdx k).foldl (fun v p => write v (a + p.2) p.1) v) ∧
      ∀ i < xs.length,
        cell (a + (k + i)) < size ((xs.zipIdx k).foldl (fun v p => write v (a + p.2) p.1) v) := by
  induction xs generalizing v k with
  | nil =>
      refine ⟨le_rfl, ?_⟩
      intro i hi
      cases hi
  | cons x xs ih =>
      obtain ⟨hle, hlt⟩ := ih (write v (a + k) x) (k + 1)
      have hstep := hsize v (a + k) x
      rw [List.zipIdx_cons, List.foldl_cons]
      refine ⟨le_trans (by omega) hle, ?_⟩
      intro i hi
      cases i with
      | zero =>
          rw [Nat.add_zero]
          exact lt_of_lt_of_le (by omega) hle
      | succ i =>
          rw [show k + (i + 1) = k + 1 + i by omega]
          exact hlt i (by simpa using hi)

/-- **When the write loop changes nothing**: every place it writes to is there and holds what is
written. -/
theorem writeLoop_eq_self_iff (size : V → ℕ) (cell : ℕ → ℕ)
    (hwrite : ∀ v a x, look (write v a x) = Function.update (look v) a x)
    (hsize : ∀ v a x, size (write v a x) = max (size v) (cell a + 1))
    (hself : ∀ v a x, cell a < size v → look v a = x → write v a x = v) (xs : List α) (v : V)
    (a : ℕ) :
    xs.zipIdx.foldl (fun v p => write v (a + p.2) p.1) v = v ↔
      ∀ i x, xs[i]? = some x → cell (a + i) < size v ∧ look v (a + i) = x := by
  constructor
  · intro h i x hx
    have hi : i < xs.length := (List.getElem?_eq_some_iff.1 hx).1
    have hroom := (lt_size_writeLoop hsize xs v a 0).2 i hi
    have hlook := look_writeLoop hwrite xs v a
    rw [h] at hroom hlook
    rw [Nat.zero_add] at hroom
    refine ⟨hroom, ?_⟩
    rw [hlook, overlay, if_pos (by omega), Nat.add_sub_cancel_left, hx, Option.getD_some]
  · suffices hgen : ∀ k, (∀ i x, xs[i]? = some x →
        cell (a + (k + i)) < size v ∧ look v (a + (k + i)) = x) →
        (xs.zipIdx k).foldl (fun v p => write v (a + p.2) p.1) v = v by
      intro h
      exact hgen 0 (by simpa using h)
    induction xs with
    | nil =>
        intro k _
        rfl
    | cons x xs ih =>
        intro k h
        obtain ⟨hroom, hlook⟩ := h 0 x rfl
        have hstep : write v (a + k) x = v := hself v (a + k) x hroom hlook
        rw [List.zipIdx_cons, List.foldl_cons]
        simp only [hstep]
        refine ih (k + 1) ?_
        intro i y hy
        have hi := h (i + 1) y hy
        rw [show k + (i + 1) = k + 1 + i by omega] at hi
        exact hi

end WriteLoop

/-! ### Vectors -/

/-- A vector with another length: its beginning, or filled up with `d`. -/
def resize (v : List α) (n : ℕ) (d : α) : List α := v.take n ++ List.replicate (n - v.length) d

/-- A vector with room for index `a`. -/
def grow (d : α) (v : List α) (a : ℕ) : List α :=
  if a ≥ v.length then resize v (a + 1) d else v

/-- The map a vector stands for. -/
def lookup (d : α) (v : List α) (a : ℕ) : α := v[a]?.getD d

theorem getElem?_eq_some_iff_lookup {d : α} {v : List α} {a : ℕ} {x : α} :
    v[a]? = some x ↔ a < v.length ∧ lookup d v a = x := by
  rw [lookup, List.getElem?_eq_some_iff]
  constructor
  · intro h
    obtain ⟨hlt, hget⟩ := h
    exact ⟨hlt, by rw [List.getElem?_eq_getElem hlt, Option.getD_some, hget]⟩
  · intro h
    obtain ⟨hlt, hget⟩ := h
    rw [List.getElem?_eq_getElem hlt, Option.getD_some] at hget
    exact ⟨hlt, hget⟩

theorem lookup_resize {d : α} {v : List α} {n : ℕ} (h : v.length ≤ n) :
    lookup d (resize v n d) = lookup d v := by
  funext a
  rw [lookup, lookup, resize, List.take_of_length_le h]
  rcases Nat.lt_or_ge a v.length with hlt | hge
  · rw [List.getElem?_append_left hlt]
  · rw [List.getElem?_append_right hge, List.getElem?_eq_none hge, List.getElem?_replicate]
    split <;> rfl

/-- Growing cannot be seen. -/
theorem lookup_grow (d : α) (v : List α) (a : ℕ) : lookup d (grow d v a) = lookup d v := by
  unfold grow
  split
  · exact lookup_resize (by omega)
  · rfl

theorem lt_length_grow (d : α) (v : List α) (a : ℕ) : a < (grow d v a).length := by
  unfold grow
  split
  · simp [resize]
    omega
  · omega

theorem lookup_set {d : α} {v : List α} {a : ℕ} (h : a < v.length) (x : α) :
    lookup d (v.set a x) = Function.update (lookup d v) a x := by
  funext b
  rw [lookup, List.getElem?_set, Function.update_apply]
  by_cases hb : b = a
  · simp [hb, h]
  · rw [if_neg (Ne.symm hb), if_neg hb, lookup]

/-- **Writing a value updates the map.** -/
theorem lookup_write (d : α) (v : List α) (a : ℕ) (x : α) :
    lookup d ((grow d v a).set a x) = Function.update (lookup d v) a x := by
  rw [lookup_set (lt_length_grow d v a), lookup_grow]

theorem length_write (d : α) (v : List α) (a : ℕ) (x : α) :
    ((grow d v a).set a x).length = max v.length (a + 1) := by
  rw [List.length_set, grow]
  split
  · rw [resize, List.length_append, List.length_take, List.length_replicate]
    omega
  · omega

/-- Writing what is there changes nothing. -/
theorem write_self {d : α} {v : List α} {a : ℕ} (h : a < v.length) {x : α}
    (hx : lookup d v a = x) : (grow d v a).set a x = v := by
  have hget : v[a] = x := by
    rw [lookup, List.getElem?_eq_getElem h] at hx
    exact hx
  rw [grow, if_neg (by omega), ← hget, List.set_getElem_self]

/-- The values from `a` on that are in the vector, filled up with the default. -/
def window (d : α) (v : List α) (a n : ℕ) : List α :=
  if a ≥ v.length then List.replicate n d
  else
    let b := min (a + n) v.length
    (v.take b).drop a ++ (List.replicate n d).drop (b - a)

@[simp] theorem window_length (d : α) (v : List α) (a n : ℕ) : (window d v a n).length = n := by
  unfold window
  split
  · simp
  · simp
    omega

/-- **A part of a vector is read value by value.** -/
theorem window_eq (d : α) (v : List α) (a n : ℕ) :
    window d v a n = (List.range n).map fun i => lookup d v (a + i) := by
  apply List.ext_getElem?
  intro i
  rw [List.getElem?_map]
  rcases Nat.lt_or_ge i n with hi | hi
  · rw [List.getElem?_range hi, Option.map_some, window]
    split
    · rw [List.getElem?_replicate, if_pos hi, lookup, List.getElem?_eq_none (by omega)]
      rfl
    · next hlt =>
      have hlen : ((v.take (min (a + n) v.length)).drop a).length = min (a + n) v.length - a := by
        simp
      rcases Nat.lt_or_ge (a + i) v.length with hin | hout
      · rw [List.getElem?_append_left (by omega), List.getElem?_drop,
          List.getElem?_take_of_lt (by omega), lookup, List.getElem?_eq_getElem hin]
        rfl
      · rw [List.getElem?_append_right (by omega), hlen, List.getElem?_drop,
          List.getElem?_replicate, if_pos (by omega), lookup, List.getElem?_eq_none hout]
        rfl
  · rw [List.getElem?_eq_none (by simpa using hi), List.getElem?_eq_none (by simpa using hi)]
    rfl

/-! ### Bits -/

/-- The map of bits a vector of bytes stands for. -/
def bitLookup (v : List UInt8) (a : ℕ) : Bool := bitAt (lookup 0 v (a / 8)) (a % 8)

/-- **Writing a bit updates the map of bits.** -/
theorem bitLookup_write (v : List UInt8) (a : ℕ) (x : Bool) :
    bitLookup ((grow 0 v (a / 8)).modify (a / 8) fun b => setBitAt b (a % 8) x)
      = Function.update (bitLookup v) a x := by
  have hlt := lt_length_grow 0 v (a / 8)
  have hmodify : (grow 0 v (a / 8)).modify (a / 8) (fun b => setBitAt b (a % 8) x)
      = (grow 0 v (a / 8)).set (a / 8) (setBitAt (lookup 0 v (a / 8)) (a % 8) x) := by
    rw [List.modify_eq_set_getElem?, List.getElem?_eq_getElem hlt, ← lookup_grow 0 v (a / 8),
      lookup, List.getElem?_eq_getElem hlt]
    rfl
  funext b
  rw [hmodify, bitLookup, lookup_write, Function.update_apply, Function.update_apply]
  have hb := Nat.mod_lt b (show 8 > 0 by omega)
  have ha := Nat.mod_lt a (show 8 > 0 by omega)
  by_cases hbyte : b / 8 = a / 8
  · rw [if_pos hbyte, bitAt_setBitAt _ _ ha hb]
    by_cases hbit : b % 8 = a % 8
    · rw [if_pos hbit, if_pos (by omega)]
    · rw [if_neg hbit, if_neg (by omega), bitLookup, hbyte]
  · rw [if_neg hbyte, if_neg (by omega), bitLookup]

theorem length_bitWrite (v : List UInt8) (a : ℕ) (x : Bool) :
    ((grow 0 v (a / 8)).modify (a / 8) fun b => setBitAt b (a % 8) x).length
      = max v.length (a / 8 + 1) := by
  rw [List.length_modify, ← length_write 0 v (a / 8) 0, List.length_set]

/-- Writing the bit that is there changes nothing. -/
theorem bitWrite_self {v : List UInt8} {a : ℕ} (h : a / 8 < v.length) {x : Bool}
    (hx : bitLookup v a = x) :
    ((grow 0 v (a / 8)).modify (a / 8) fun b => setBitAt b (a % 8) x) = v := by
  have ha := Nat.mod_lt a (show 8 > 0 by omega)
  have hbyte : setBitAt v[a / 8] (a % 8) x = v[a / 8] := by
    rw [bitLookup, lookup, List.getElem?_eq_getElem h, Option.getD_some] at hx
    refine ext_bitAt fun i hi => ?_
    rw [bitAt_setBitAt _ _ ha hi]
    split
    · next heq => rw [heq, hx]
    · rfl
  rw [grow, if_neg (by omega), List.modify_eq_set_getElem?, List.getElem?_eq_getElem h]
  change v.set (a / 8) (setBitAt v[a / 8] (a % 8) x) = v
  rw [hbyte, List.set_getElem_self]

end GrowVec
