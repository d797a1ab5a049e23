/-
**What the response decoder accepts that the encoder cannot produce.**

The decoder of responses is exact up to two leniencies.  It takes any value of a coil write other
than `0xFF00` for off, where the decoder of requests takes `0x0000` only; and it takes any byte
count, where the encoder keeps the PDU within 253 bytes.  A response that is decoded without making
use of either is what the encoder writes, with anything behind it.

Main definitions:

* `OmsModbus.Response.Canonical` — the encoder gives back what was decoded;
* `OmsModbus.StrictResponse` — a byte string that makes no use of the leniencies.

Main results:

* `OmsModbus.Response.canonical_iff_strictResponse` — **which of the accepted byte strings are
  canonical**;
* `OmsModbus.Response.take_eq_of_canonical` — canonical byte strings with the same response start
  with the same bytes.
-/

import OmsModbus.RequestCanonical
import OmsModbus.ResponseCodec

set_option relaxedAutoImplicit false
set_option autoImplicit false

namespace OmsModbus

open Words BitPack

/-! ### Canonical responses -/

/-- The encoder gives back what was decoded: it succeeds, and the byte string starts with what it
writes. -/
def Response.Canonical (r : Response) (b : Bytes) : Prop :=
  ∃ e, encodeResponseInto r [] = (.ok (), e) ∧ b.take e.length = e

/-- A byte string that makes no use of the leniencies of the decoder: a coil write says on or off,
and a byte count leaves room for the two bytes in front of the list. -/
def StrictResponse (b : Bytes) : Prop :=
  (b.headD 0 = 5 → wordAt b 3 = 0xFF00 ∨ wordAt b 3 = 0) ∧
    (b.headD 0 ∈ [1, 2, 3, 4, 23] → (b.getD 1 0).toNat ≤ 251)

instance : DecidablePred StrictResponse := fun _ => inferInstanceAs (Decidable (_ ∧ _))

theorem Response.canonical_iff_take {r : Response} {b : Bytes} :
    r.Canonical b ↔ r.pdu.length ≤ 253 ∧ b.take r.pdu.length = r.pdu := by
  constructor
  · intro h
    obtain ⟨e, henc, htake⟩ := h
    obtain ⟨hfit, rfl⟩ := encodeResponseInto_eq_ok.1 henc
    exact ⟨hfit, htake⟩
  · intro h
    exact ⟨r.pdu, encodeResponseInto_eq_ok.2 ⟨h.1, rfl⟩, h.2⟩

/-- In front of a suffix only the length of the layout counts. -/
theorem Response.canonical_pdu_append {r : Response} (s : Bytes) :
    r.Canonical (r.pdu ++ s) ↔ r.pdu.length ≤ 253 := by
  rw [canonical_iff_take, List.take_left]
  exact and_iff_left rfl

theorem strictResponse_of_head {fc : UInt8} (h5 : fc ≠ 5) (h : fc ∉ [1, 2, 3, 4, 23]) (s : Bytes) :
    StrictResponse (fc :: s) := ⟨fun h' => absurd h' h5, fun h' => absurd h' h⟩

/-- A PDU with a byte count is strict when the count is small enough. -/
theorem strictResponse_count_iff {fc : UInt8} (h : fc ∈ [1, 2, 3, 4, 23]) {n : ℕ} (hn : n ≤ 255)
    (s : Bytes) : StrictResponse (fc :: UInt8.ofNat n :: s) ↔ n + 2 ≤ 253 := by
  have h5 : fc ≠ 5 := by
    intro h5
    rw [h5] at h
    revert h
    decide
  have hcount : (UInt8.ofNat n).toNat = n := by
    rw [UInt8.toNat_ofNat']
    omega
  have hget : ((fc :: UInt8.ofNat n :: s).getD 1 0).toNat = n := hcount
  rw [StrictResponse, hget]
  constructor
  · intro hstrict
    have := hstrict.2 h
    omega
  · intro hle
    exact ⟨fun h' => absurd h' h5, fun _ => by omega⟩

/-- The function code of an exception is no function code of a request. -/
theorem or_exceptionBit_ne {fc code : UInt8} (h : code &&& 0x80 = 0) : fc ||| 0x80 ≠ code := by
  intro hcode
  refine or_exceptionBit_and fc ?_
  rw [hcode, h]

/-- **Which of the accepted byte strings are canonical**: those that make no use of the leniencies
of the decoder. -/
theorem Response.canonical_iff_strictResponse {b : Bytes} {r : Response}
    (h : Response.tryFrom b = .ok r) : r.Canonical b ↔ StrictResponse b := by
  obtain ⟨hdec, p, s, rfl, hp⟩ := Response.tryFrom_eq_ok_iff.1 h
  cases r with
  | readCoils bits | readDiscreteInputs bits =>
      rcases hp with rfl
      rw [canonical_pdu_append, pdu, coilField, List.cons_append, List.cons_append,
        strictResponse_count_iff (by decide) (by rw [divCeil]; have := hdec.2; omega)]
      simp
      omega
  | readHoldingRegisters regs | readInputRegisters regs | readWriteMultipleRegisters regs =>
      rcases hp with rfl
      have hle : regs.length ≤ 127 := hdec
      rw [canonical_pdu_append, pdu, registerField, List.cons_append, List.cons_append,
        strictResponse_count_iff (by decide) (by omega)]
      simp
      omega
  | writeSingleCoil addr val =>
      obtain ⟨raw, hraw, rfl⟩ := hp
      have hword : wordAt (5 :: (toBeBytes addr ++ toBeBytes raw) ++ s) 3 = raw.toNat := by
        have := wordAt_append (5 :: toBeBytes addr) raw s (i := 3) rfl
        simpa using this
      have htake : (5 :: (toBeBytes addr ++ toBeBytes raw) ++ s).take
          (Response.writeSingleCoil addr val).pdu.length = 5 :: (toBeBytes addr ++ toBeBytes raw) :=
        rfl
      have hpdu : 5 :: (toBeBytes addr ++ toBeBytes raw) = (Response.writeSingleCoil addr val).pdu
          ↔ raw = if val then 0xFF00 else 0x0000 := by
        have hinj := toBeBytes_append_inj (v := raw) (w := if val then 0xFF00 else 0x0000) (a := [])
          (b := [])
        simpa [pdu] using hinj
      rw [canonical_iff_take, htake, StrictResponse, hword, hpdu]
      constructor
      · intro hcan
        refine ⟨fun _ => ?_, fun hmem => absurd hmem (by simp)⟩
        rw [hcan.2]
        cases val
        · exact Or.inr rfl
        · exact Or.inl rfl
      · intro hstrict
        refine ⟨by simp [pdu], ?_⟩
        rcases hstrict.1 rfl with hon | hoff
        · obtain rfl : raw = 0xFF00 := UInt16.toNat_inj.1 hon
          rw [← hraw]
          rfl
        · obtain rfl : raw = 0x0000 := UInt16.toNat_inj.1 hoff
          rw [← hraw]
          rfl
  | exception fc ex =>
      rcases hp with rfl
      rw [canonical_pdu_append]
      refine iff_of_true (by simp [pdu])
        (strictResponse_of_head (or_exceptionBit_ne (by decide)) ?_ _)
      intro hmem
      simp only [List.mem_cons, List.not_mem_nil, or_false] at hmem
      rcases hmem with hfc | hfc | hfc | hfc | hfc <;> exact or_exceptionBit_ne (by decide) hfc
  | _ =>
      rcases hp with rfl
      rw [canonical_pdu_append]
      exact iff_of_true (by simp [pdu]) (strictResponse_of_head (by decide) (by decide) _)

/-- Canonical byte strings with the same response start with the same bytes. -/
theorem Response.take_eq_of_canonical {b b' : Bytes} {r : Response} (h : r.Canonical b)
    (h' : r.Canonical b') : b.take r.pdu.length = b'.take r.pdu.length := by
  rw [(canonical_iff_take.1 h).2, (canonical_iff_take.1 h').2]

/-- Two registers, with a byte behind them. -/
theorem Response.canonical_iff_registers :
    (Response.readHoldingRegisters [1, 2]).Canonical [3, 4, 0, 1, 0, 2, 9] ↔
      StrictResponse [3, 4, 0, 1, 0, 2, 9] :=
  Response.canonical_iff_strictResponse (by decide)

/-- A coil write with a value that is neither on nor off is decoded like one that says off, and the
encoder gives back the one that says off. -/
theorem Response.not_canonical_coil :
    Response.tryFrom [5, 0, 1, 0x12, 0x34] = .ok (.writeSingleCoil 1 false) ∧
      Response.tryFrom [5, 0, 1, 0, 0] = .ok (.writeSingleCoil 1 false) ∧
      encodeResponseInto (.writeSingleCoil 1 false) [] = (.ok (), [5, 0, 1, 0, 0]) ∧
      ¬ (Response.writeSingleCoil 1 false).Canonical [5, 0, 1, 0x12, 0x34] := by
  refine ⟨by decide, by decide, by decide, ?_⟩
  rw [Response.canonical_iff_take]
  decide

end OmsModbus
