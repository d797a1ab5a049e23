/-
**What the request decoder accepts that the encoder cannot produce.**

The decoder bounds the quantity of a write request by the largest number of coils or registers of
any request; the encoder bounds the PDU as a whole, by 253 bytes.  The two do not agree: a write of
more than 1976 coils, 123 registers, or 121 registers together with a read makes a longer PDU, and
is decoded all the same.  Within these quantities what is decoded is what the encoder writes, up to
the unused bits of the last coil byte, and whatever follows.

Main definitions:

* `OmsModbus.Request.SameUpToPadding` — two byte strings differ in unused coil bits only;
* `OmsModbus.Request.Canonical` — the encoder gives back what was decoded;
* `OmsModbus.WritesFit` — the quantity that is written leaves room for the rest of the PDU.

Main results:

* `OmsModbus.Request.Carries.sameUpToPadding` — all layouts of a request are the same up to padding;
* `OmsModbus.Request.pdu_length_le_iff_writesFit` — when the layout fits in a PDU;
* `OmsModbus.Request.canonical_iff_writesFit` — **which of the accepted byte strings are
  canonical**.
-/

import OmsModbus.RequestCodec

set_option relaxedAutoImplicit false
set_option autoImplicit false

namespace OmsModbus

open Words BitPack

/-! ### The same up to padding -/

/-- Two layouts of a request are the same, except for the bits of the last coil byte that stand for
no coil. -/
def Request.SameUpToPadding (r : Request) (e p : Bytes) : Prop :=
  match r with
  | .writeMultipleCoils _ values =>
      e.length = p.length ∧
        ∀ i < e.length, ∀ j < 8,
          (i + 1 = e.length → values.length % 8 ≠ 0 → j < values.length % 8) →
          e[i]?.map (bitAt · j) = p[i]?.map (bitAt · j)
  | _ => e = p

/-- All layouts of a request are the same up to padding. -/
theorem Request.Carries.sameUpToPadding {r : Request} {p : Bytes} (h : r.Carries p) :
    r.SameUpToPadding r.pdu p := by
  cases r with
  | writeMultipleCoils addr values =>
      obtain ⟨coils, hlen, hvals, rfl⟩ := h
      have hcoils : (unpackBits (packBits values)).take values.length
          = (unpackBits coils).take values.length := by
        rw [unpackBits_packBits, take_padBits, hvals]
      refine ⟨by simp [pdu, hlen], ?_⟩
      intro i hi j hj hpad
      -- both start with the same six bytes
      have hsix : ∀ bs : Bytes, 15 :: (toBeBytes addr ++ toBeBytes (UInt16.ofNat values.length)
          ++ UInt8.ofNat (divCeil values.length 8) :: bs)
          = (15 :: (toBeBytes addr ++ toBeBytes (UInt16.ofNat values.length)
            ++ [UInt8.ofNat (divCeil values.length 8)])) ++ bs := by simp
      rw [pdu, hsix] at hi hpad ⊢
      rw [hsix coils]
      generalize hhead : (15 :: (toBeBytes addr ++ toBeBytes (UInt16.ofNat values.length)
        ++ [UInt8.ofNat (divCeil values.length 8)])) = head at hi hpad ⊢
      rcases Nat.lt_or_ge i head.length with hlt | hge
      · rw [List.getElem?_append_left hlt, List.getElem?_append_left hlt]
      · rw [List.getElem?_append_right hge, List.getElem?_append_right hge]
        refine bitAt_of_take_unpackBits hcoils hj ?_
        rw [List.length_append, packBits_length, divCeil] at hi hpad
        by_cases hlast : i + 1 = head.length + (values.length + (8 - 1)) / 8
        · have hlast' := hpad hlast
          omega
        · omega
  | _ => exact Eq.symm h

/-! ### Quantities -/

/-- A word in the middle of a byte string. -/
def wordAt (b : Bytes) (i : ℕ) : ℕ := (fromBeBytes (b.getD i 0) (b.getD (i + 1) 0)).toNat

/-- The number of coils or registers that a PDU says are written leaves room for the other fields
in 253 bytes. -/
def WritesFit (b : Bytes) : Prop :=
  (b.headD 0 = 15 → wordAt b 3 ≤ 1976) ∧ (b.headD 0 = 16 → wordAt b 3 ≤ 123) ∧
    (b.headD 0 = 23 → wordAt b 7 ≤ 121)

instance : DecidablePred WritesFit := fun _ => inferInstanceAs (Decidable (_ ∧ _))

theorem wordAt_append (pre : Bytes) (v : UInt16) (s : Bytes) {i : ℕ} (hi : pre.length = i) :
    wordAt (pre ++ (toBeBytes v ++ s)) i = v.toNat := by
  subst hi
  have hhi : (pre ++ (toBeBytes v ++ s)).getD pre.length 0 = (v >>> 8).toUInt8 := by
    rw [List.getD_append_right _ _ _ _ le_rfl, Nat.sub_self]
    rfl
  have hlo : (pre ++ (toBeBytes v ++ s)).getD (pre.length + 1) 0 = v.toUInt8 := by
    rw [List.getD_append_right _ _ _ _ (by omega), Nat.add_sub_cancel_left]
    rfl
  rw [wordAt, hhi, hlo]
  exact congrArg UInt16.toNat (fromBeBytes_toBeBytes v)

/-- **When the layout fits in a PDU**: exactly when the quantity that is written is small enough. -/
theorem Request.pdu_length_le_iff_writesFit {r : Request} {p : Bytes} (hr : r ≠ .disconnect)
    (hrange : r.InRange) (hp : r.Carries p) (s : Bytes) :
    r.pdu.length ≤ 253 ↔ WritesFit (p ++ s) := by
  cases r with
  | disconnect => exact absurd rfl hr
  | writeMultipleCoils addr values =>
      obtain ⟨coils, -, -, rfl⟩ := hp
      obtain ⟨-, hle, -⟩ := hrange
      have hqty : wordAt (15 :: (toBeBytes addr ++ toBeBytes (UInt16.ofNat values.length)
          ++ UInt8.ofNat (divCeil values.length 8) :: coils) ++ s) 3 = values.length := by
        have h := wordAt_append (15 :: toBeBytes addr) (UInt16.ofNat values.length)
          (UInt8.ofNat (divCeil values.length 8) :: (coils ++ s)) (i := 3) rfl
        rw [UInt16.toNat_ofNat', Nat.mod_eq_of_lt (by omega)] at h
        simpa using h
      have hlen : (Request.writeMultipleCoils addr values).pdu.length
          = 6 + divCeil values.length 8 := by
        simp [pdu]
        omega
      rw [WritesFit, hqty, hlen, divCeil]
      simp
      omega
  | writeMultipleRegisters addr values =>
      obtain rfl : p = (Request.writeMultipleRegisters addr values).pdu := hp
      obtain ⟨-, hle, -⟩ := hrange
      have hqty : wordAt ((Request.writeMultipleRegisters addr values).pdu ++ s) 3
          = values.length := by
        have h := wordAt_append (16 :: toBeBytes addr) (UInt16.ofNat values.length)
          (UInt8.ofNat (values.length * 2) :: (beBytes values ++ s)) (i := 3) rfl
        rw [UInt16.toNat_ofNat', Nat.mod_eq_of_lt (by omega)] at h
        simpa [pdu] using h
      have hlen : (Request.writeMultipleRegisters addr values).pdu.length
          = 6 + 2 * values.length := by
        simp [pdu]
        omega
      rw [WritesFit, hqty, hlen]
      simp [pdu]
      omega
  | readWriteMultipleRegisters readAddr readQty writeAddr data =>
      obtain rfl :
          p = (Request.readWriteMultipleRegisters readAddr readQty writeAddr data).pdu := hp
      obtain ⟨-, -, hle, -⟩ := hrange
      have hqty : wordAt ((Request.readWriteMultipleRegisters readAddr readQty writeAddr data).pdu
          ++ s) 7 = data.length := by
        have h := wordAt_append
          (23 :: (toBeBytes readAddr ++ toBeBytes readQty ++ toBeBytes writeAddr))
          (UInt16.ofNat data.length) (UInt8.ofNat (data.length * 2) :: (beBytes data ++ s))
          (i := 7) rfl
        rw [UInt16.toNat_ofNat', Nat.mod_eq_of_lt (by omega)] at h
        simpa [pdu] using h
      have hlen : (Request.readWriteMultipleRegisters readAddr readQty writeAddr data).pdu.length
          = 10 + 2 * data.length := by
        simp [pdu]
        omega
      rw [WritesFit, hqty, hlen]
      simp [pdu]
      omega
  | _ =>
      obtain rfl := hp
      simp [WritesFit, pdu, functionCode]

/-! ### Canonical requests -/

/-- The encoder gives back what was decoded: it succeeds, what it writes is a PDU that is no longer
than the byte string, and the byte string starts with it, up to padding. -/
def Request.Canonical (r : Request) (b : Bytes) : Prop :=
  ∃ e, encodeRequestInto r [] = (.ok (), e) ∧ e.length ≤ MAX_PDU_SIZE ∧ e.length ≤ b.length ∧
    r.SameUpToPadding e (b.take e.length)

/-- **Which of the accepted byte strings are canonical**: those whose quantity leaves room for the
rest of the PDU. -/
theorem Request.canonical_iff_writesFit {b : Bytes} {r : Request} (h : Request.tryFrom b = .ok r) :
    r.Canonical b ↔ WritesFit b := by
  obtain ⟨hr, hrange, p, s, rfl, hp⟩ := Request.tryFrom_eq_ok_iff.1 h
  rw [← Request.pdu_length_le_iff_writesFit hr hrange hp s]
  constructor
  · intro hcan
    obtain ⟨e, henc, -⟩ := hcan
    exact (encodeRequestInto_eq_ok.1 henc).1
  · intro hfit
    have hlen := hp.length_eq
    refine ⟨r.pdu, encodeRequestInto_eq_ok.2 ⟨hfit, rfl⟩, hfit, ?_, ?_⟩
    · rw [List.length_append]
      omega
    · rw [← hlen, List.take_left]
      exact hp.sameUpToPadding

/-- Three coils, with unused bits set and a byte behind them. -/
theorem Request.canonical_iff_coils :
    (Request.writeMultipleCoils 0 [true, false, true]).Canonical [15, 0, 0, 0, 3, 1, 0xFD, 7] ↔
      WritesFit [15, 0, 0, 0, 3, 1, 0xFD, 7] :=
  Request.canonical_iff_writesFit (by decide)

theorem beBytes_replicate_zero (n : ℕ) :
    beBytes (List.replicate n 0) = List.replicate (2 * n) 0 := by
  induction n with
  | zero => rfl
  | succ n ih =>
      rw [List.replicate_succ, beBytes_cons, ih]
      rfl

/-- A write of 124 registers is decoded, and is too long for the encoder. -/
theorem Request.not_canonical_registers :
    let b : Bytes := [16, 0, 0, 0, 124, 248] ++ List.replicate 248 0
    let r := Request.writeMultipleRegisters 0 (List.replicate 124 0)
    Request.tryFrom b = .ok r ∧ b.length = 254 ∧ ¬ r.Canonical b := by
  have hpdu : (Request.writeMultipleRegisters 0 (List.replicate 124 0)).pdu
      = [16, 0, 0, 0, 124, 248] ++ List.replicate 248 0 := by
    rw [pdu, List.length_replicate, beBytes_replicate_zero]
    rfl
  have hrange : (Request.writeMultipleRegisters 0 (List.replicate 124 0)).InRange := by
    rw [InRange, List.length_replicate]
    decide
  have hlen : ([16, 0, 0, 0, 124, 248] ++ List.replicate 248 0 : Bytes).length = 254 := by
    rw [List.length_append, List.length_replicate]
    rfl
  refine ⟨?_, hlen, ?_⟩
  · rw [← hpdu]
    exact Request.tryFrom_pdu (by simp only [ne_eq, reduceCtorEq, not_false_eq_true]) hrange
  · intro hcan
    obtain ⟨e, henc, -⟩ := hcan
    have hfit := (encodeRequestInto_eq_ok.1 henc).1
    rw [hpdu, hlen] at hfit
    omega

end OmsModbus
