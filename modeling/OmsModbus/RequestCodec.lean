/-
**The request codec: decoding undoes encoding.**

The encoder and the decoder of requests are two separate `match` statements.  This module gives
both the same specification.  A request has one wire layout, `Request.pdu`; the encoder appends
exactly these bytes whenever they fit in a PDU; and the decoder accepts exactly the byte strings
that start with the layout of a request in range, where the unused bits of the last coil byte are
free.  Everything else — the round trip, that a suffix is ignored, that no shorter byte string
decodes to the same request — follows from these two statements.

Main definitions:

* `OmsModbus.Request.pdu` — the wire layout of a request;
* `OmsModbus.Request.InRange` — the quantities and addresses the protocol allows;
* `OmsModbus.Request.Carries` — a byte string is the layout of a request, up to padding bits.

Main results:

* `OmsModbus.encodeRequestInto_eq_ok` — **the encoder appends the layout** when it fits;
* `OmsModbus.Request.tryFrom_eq_ok_iff` — **the decoder accepts the layouts of the requests in
  range**, with any suffix;
* `OmsModbus.Request.tryFrom_pdu_append` — decoding undoes encoding, in front of any suffix;
* `OmsModbus.Request.tryFrom_append`, `OmsModbus.Request.pdu_length_le` — a suffix is ignored, and
  a decoded request is no longer than the bytes it was decoded from.
-/

import OmsModbus.Frame

set_option relaxedAutoImplicit false
set_option autoImplicit false

namespace OmsModbus

open Words BitPack

/-! ### Appending and reading fields -/

theorem bind_eq_ok {ε α β : Type} {x : Except ε α} {f : α → Except ε β} {b : β} :
    (x >>= f) = .ok b ↔ ∃ a, x = .ok a ∧ f a = .ok b := by
  cases x <;> simp [bind, Except.bind]

theorem pure_eq_ok {ε α : Type} {a b : α} : (pure a : Except ε α) = .ok b ↔ a = b := by
  simp [pure, Except.pure]

theorem putBits_eq (buf : Bytes) (values : List Bool) :
    putBits buf values = buf ++ packBits values := by
  suffices h : ∀ cs : List (List Bool), ∀ buf : Bytes,
      cs.foldl (fun buf chunk => putU8 buf (packByte chunk)) buf = buf ++ cs.map packByte from
    h (chunks 8 values) buf
  intro cs
  induction cs with
  | nil => simp
  | cons c cs ih =>
      intro buf
      rw [List.foldl_cons, ih]
      simp [putU8]

theorem putWords_eq (buf : Bytes) (values : List UInt16) :
    putWords buf values = buf ++ beBytes values := by
  unfold putWords
  induction values generalizing buf with
  | nil => simp
  | cons v values ih => simp [ih, pushU16]

theorem safeU8_eq_ok {val : ℕ} {context : String} {b : UInt8} :
    safeU8 val context = .ok b ↔ val ≤ 255 ∧ b = UInt8.ofNat val := by
  unfold safeU8
  split
  · next h => simp [h, eq_comm]
  · next h => simp [h]

theorem readU16_eq_ok {w : String} {data rest : Bytes} {v : UInt16} :
    readU16 w data = .ok (v, rest) ↔ data = toBeBytes v ++ rest := by
  match data with
  | [] => simp [readU16, toBeBytes]
  | [_] => simp [readU16, toBeBytes]
  | hi :: lo :: data =>
      simp only [readU16, Except.ok.injEq, Prod.mk.injEq]
      constructor
      · rintro ⟨rfl, rfl⟩
        simp
      · intro h
        have h' : [hi, lo] ++ data = toBeBytes v ++ rest := h
        have hb : toBeBytes (fromBeBytes hi lo) = toBeBytes v := by
          rw [toBeBytes_fromBeBytes]
          exact List.append_inj_left h' rfl
        simp only [toBeBytes, List.cons_append, List.nil_append, List.cons.injEq] at h
        obtain ⟨rfl, rfl, rfl⟩ := h
        simp

theorem readU8_eq_ok {w : String} {data rest : Bytes} {b : UInt8} :
    readU8 w data = .ok (b, rest) ↔ data = b :: rest := by
  cases data <;> simp [readU8]

theorem checkRemaining_eq_ok {data : Bytes} {count : ℕ} {w : String} {u : Unit} :
    checkRemaining data count w = .ok u ↔ count ≤ data.length := by
  unfold checkRemaining
  split <;> simp <;> omega

theorem checkQuantity_eq_ok {arm name : String} {qty max : UInt16} {u : Unit} :
    checkQuantity arm name qty max = .ok u ↔ 1 ≤ qty.toNat ∧ qty.toNat ≤ max.toNat := by
  have hzero : qty = 0 ↔ qty.toNat = 0 := by
    rw [← UInt16.toNat_inj]
    rfl
  unfold checkQuantity
  simp only [hzero, gt_iff_lt, UInt16.lt_iff_toNat_lt]
  split <;> simp <;> omega

theorem checkSpan_eq_ok {arm aName qName : String} {addr qty : UInt16} {u : Unit} :
    checkSpan arm aName qName addr qty = .ok u ↔ addr.toNat + qty.toNat ≤ 65536 := by
  unfold checkSpan
  split <;> simp <;> omega

theorem checkByteCount_eq_ok {arm formula : String} {count expected : ℕ} {u : Unit} :
    checkByteCount arm formula count expected = .ok u ↔ count = expected := by
  unfold checkByteCount
  split <;> simp_all

/-! ### The coil reader -/

theorem pushBits_take (qty : ℕ) (byte : UInt8) : ∀ (is : List ℕ) (values : List Bool),
    (pushBits qty byte is values).take qty = (values ++ is.map (bitAt byte)).take qty ∧
      ((pushBits qty byte is values).length < qty →
        pushBits qty byte is values = values ++ is.map (bitAt byte)) := by
  intro is
  induction is with
  | nil => intro values; simp [pushBits]
  | cons i is ih =>
      intro values
      simp only [pushBits, List.map_cons]
      split
      · next hge =>
        -- the loop stops: what it has pushed already covers the first `qty` values
        refine ⟨?_, fun h => absurd h (by simpa using hge)⟩
        rw [← List.singleton_append (l := is.map (bitAt byte)), ← List.append_assoc,
          List.take_append_of_le_length hge]
      · next hlt =>
        obtain ⟨htake, heq⟩ := ih (values ++ [bitAt byte i])
        simpa using And.intro htake heq

/-- **The coil reader returns the first `qty` bits.** -/
theorem readCoilValues_eq (qty : ℕ) (bytes : Bytes) :
    readCoilValues qty bytes = (unpackBits bytes).take qty := by
  suffices h : ∀ (bytes : Bytes) (values bits : List Bool), values.take qty = bits.take qty →
      (values.length < qty → values = bits) →
      (bytes.foldl (fun values byte => pushBits qty byte (List.range 8) values) values).take qty
        = (bits ++ unpackBits bytes).take qty from
    h bytes [] [] rfl (fun _ => rfl)
  intro bytes
  induction bytes with
  | nil => intro values bits htake _; simpa using htake
  | cons byte bytes ih =>
      intro values bits htake heq
      obtain ⟨htake', heq'⟩ := pushBits_take qty byte (List.range 8) values
      have hstep : (values ++ unpackByte byte).take qty = (bits ++ unpackByte byte).take qty := by
        rcases Nat.lt_or_ge values.length qty with hlt | hge
        · rw [heq hlt]
        · have hbits : qty ≤ bits.length := by
            have := congrArg List.length htake
            simp only [List.length_take] at this
            omega
          rw [List.take_append_of_le_length hge, List.take_append_of_le_length hbits, htake]
      rw [List.foldl_cons, ih _ (bits ++ unpackByte byte) (htake'.trans hstep), unpackBits_cons,
        List.append_assoc]
      intro hlt
      have hvals := heq' hlt
      have hshort : values.length < qty := by
        have := congrArg List.length hvals
        simp only [List.length_append] at this
        omega
      rw [hvals, heq hshort]
      rfl

/-! ### The wire layout -/

/-- The wire layout of a request. -/
def Request.pdu (r : Request) : Bytes :=
  match r with
  | .disconnect => []
  | .readCoils addr qty | .readDiscreteInputs addr qty | .readHoldingRegisters addr qty
  | .readInputRegisters addr qty => r.functionCode.value :: (toBeBytes addr ++ toBeBytes qty)
  | .writeSingleCoil addr value =>
      5 :: (toBeBytes addr ++ toBeBytes (if value then 0xFF00 else 0x0000))
  | .writeSingleRegister addr value => 6 :: (toBeBytes addr ++ toBeBytes value)
  | .writeMultipleCoils addr values =>
      15 :: (toBeBytes addr ++ toBeBytes (UInt16.ofNat values.length)
        ++ UInt8.ofNat (divCeil values.length 8) :: packBits values)
  | .writeMultipleRegisters addr values =>
      16 :: (toBeBytes addr ++ toBeBytes (UInt16.ofNat values.length)
        ++ UInt8.ofNat (values.length * 2) :: beBytes values)
  | .readWriteMultipleRegisters readAddr readQty writeAddr data =>
      23 :: (toBeBytes readAddr ++ toBeBytes readQty ++ toBeBytes writeAddr
        ++ toBeBytes (UInt16.ofNat data.length) ++ UInt8.ofNat (data.length * 2) :: beBytes data)
  | .maskWriteRegister addr andMask orMask =>
      22 :: (toBeBytes addr ++ toBeBytes andMask ++ toBeBytes orMask)
  | .diagnostic sf data => 8 :: (toBeBytes sf ++ toBeBytes data)

/-- A quantity lies in `1..=max` and its addresses in the address space. -/
def QuantityOk (addr : Address) (qty max : ℕ) : Prop :=
  1 ≤ qty ∧ qty ≤ max ∧ addr.toNat + qty ≤ 65536

instance (addr : Address) (qty max : ℕ) : Decidable (QuantityOk addr qty max) :=
  inferInstanceAs (Decidable (_ ∧ _))

/-- Every quantity of the request is one the protocol allows, and no address leaves the address
space. -/
def Request.InRange : Request → Prop
  | .readCoils addr qty | .readDiscreteInputs addr qty => QuantityOk addr qty.toNat 2000
  | .readHoldingRegisters addr qty | .readInputRegisters addr qty => QuantityOk addr qty.toNat 125
  | .writeMultipleCoils addr values => QuantityOk addr values.length 2000
  | .writeMultipleRegisters addr values => QuantityOk addr values.length 125
  | .readWriteMultipleRegisters readAddr readQty writeAddr data =>
      QuantityOk readAddr readQty.toNat 125 ∧ QuantityOk writeAddr data.length 125
  | _ => True

instance : DecidablePred Request.InRange
  | .readCoils _ _ | .readDiscreteInputs _ _ | .readHoldingRegisters _ _
  | .readInputRegisters _ _ | .writeMultipleCoils _ _ | .writeMultipleRegisters _ _ =>
      inferInstanceAs (Decidable (QuantityOk _ _ _))
  | .readWriteMultipleRegisters _ _ _ _ => inferInstanceAs (Decidable (_ ∧ _))
  | .writeSingleCoil _ _ | .writeSingleRegister _ _ | .maskWriteRegister _ _ _ | .diagnostic _ _
  | .disconnect => inferInstanceAs (Decidable True)

/-- `p` is the wire layout of `r`; the bits of the last coil byte beyond the values are free. -/
def Request.Carries (r : Request) (p : Bytes) : Prop :=
  match r with
  | .writeMultipleCoils addr values =>
      ∃ coils : Bytes, coils.length = divCeil values.length 8 ∧
        (unpackBits coils).take values.length = values ∧
        p = 15 :: (toBeBytes addr ++ toBeBytes (UInt16.ofNat values.length)
          ++ UInt8.ofNat (divCeil values.length 8) :: coils)
  | r => p = r.pdu

theorem Request.carries_pdu (r : Request) : r.Carries r.pdu := by
  cases r with
  | writeMultipleCoils addr values =>
      exact ⟨packBits values, by simp, by rw [unpackBits_packBits, take_padBits], rfl⟩
  | _ => rfl

/-- All layouts of a request have the same length. -/
theorem Request.Carries.length_eq {r : Request} {p : Bytes} (h : r.Carries p) :
    p.length = r.pdu.length := by
  cases r with
  | writeMultipleCoils addr values =>
      obtain ⟨coils, hlen, -, rfl⟩ := h
      simp [Request.pdu, hlen]
  | _ => rcases h with rfl; rfl

/-- A layout starts with the function code. -/
theorem Request.Carries.head {r : Request} {p : Bytes} (h : r.Carries p) (hr : r ≠ .disconnect) :
    ∃ data, p = r.functionCode.value :: data := by
  cases r with
  | disconnect => exact absurd rfl hr
  | writeMultipleCoils addr values =>
      obtain ⟨coils, -, -, rfl⟩ := h
      exact ⟨_, rfl⟩
  | _ => exact ⟨_, h⟩

/-! ### The encoder -/

/-- The byte count of the list a request carries. -/
def Request.byteCount : Request → ℕ
  | .writeMultipleCoils _ values => divCeil values.length 8
  | .writeMultipleRegisters _ values => values.length * 2
  | .readWriteMultipleRegisters _ _ _ data => data.length * 2
  | _ => 0

theorem encodeRequest_eq_ok {r : Request} {buf buf' : Bytes} :
    encodeRequest r buf = (.ok (), buf') ↔ r.byteCount ≤ 255 ∧ buf' = buf ++ r.pdu := by
  cases r with
  | writeMultipleCoils addr values =>
      simp only [encodeRequest, Request.byteCount, Request.pdu, Request.functionCode]
      cases h : safeU8 (divCeil values.length 8) "coil byte count" with
      | error e =>
          have hbig : ¬ divCeil values.length 8 ≤ 255 := fun hle => by
            simp [safeU8, hle] at h
          simp [hbig]
      | ok n =>
          obtain ⟨hle, rfl⟩ := safeU8_eq_ok.1 h
          simp [hle, putBits_eq, putU8, pushU16, eq_comm]
  | writeMultipleRegisters addr values =>
      simp only [encodeRequest, Request.byteCount, Request.pdu, Request.functionCode]
      cases h : safeU8 (values.length * 2) "write multiple reg byte count" with
      | error e =>
          have hbig : ¬ values.length * 2 ≤ 255 := fun hle => by
            simp [safeU8, hle] at h
          simp [hbig]
      | ok n =>
          obtain ⟨hle, rfl⟩ := safeU8_eq_ok.1 h
          simp [hle, putWords_eq, putU8, pushU16, eq_comm]
  | readWriteMultipleRegisters readAddr readQty writeAddr data =>
      simp only [encodeRequest, Request.byteCount, Request.pdu, Request.functionCode]
      cases h : safeU8 (data.length * 2) "read-write reg byte count" with
      | error e =>
          have hbig : ¬ data.length * 2 ≤ 255 := fun hle => by
            simp [safeU8, hle] at h
          simp [hbig]
      | ok n =>
          obtain ⟨hle, rfl⟩ := safeU8_eq_ok.1 h
          simp [hle, putWords_eq, putU8, pushU16, eq_comm]
  | _ =>
      simp [encodeRequest, Request.byteCount, Request.pdu, Request.functionCode, putU8, pushU16,
        eq_comm]

theorem Request.byteCount_le (r : Request) : r.byteCount ≤ r.pdu.length := by
  cases r <;> simp [Request.byteCount, Request.pdu] <;> omega

/-- The size limit behind an encoder that has appended `pdu` to `buf`. -/
theorem pduLimit_eq_ok {e : IoError} {buf pdu left buf' : Bytes} :
    (if (buf ++ pdu).length - buf.length > MAX_PDU_SIZE then (.error e, left)
        else (.ok (), buf ++ pdu)) = ((.ok (), buf') : Except IoError Unit × Bytes) ↔
      pdu.length ≤ 253 ∧ buf' = buf ++ pdu := by
  rw [List.length_append, Nat.add_sub_cancel_left, MAX_PDU_SIZE]
  split
  · simp
    omega
  · simp only [Prod.mk.injEq, true_and]
    constructor
    · intro h
      exact ⟨by omega, h.symm⟩
    · intro h
      exact h.2.symm

/-- **The encoder appends the layout**, and succeeds exactly when it fits in a PDU. -/
theorem encodeRequestInto_eq_ok {r : Request} {buf buf' : Bytes} :
    encodeRequestInto r buf = (.ok (), buf') ↔ r.pdu.length ≤ 253 ∧ buf' = buf ++ r.pdu := by
  unfold encodeRequestInto
  cases h : encodeRequest r buf with
  | mk res buf₁ =>
      cases res with
      | error e =>
          have hbig : ¬ r.byteCount ≤ 255 := fun hle => by
            have hok : encodeRequest r buf = (.ok (), buf ++ r.pdu) :=
              encodeRequest_eq_ok.2 ⟨hle, rfl⟩
            rw [h] at hok
            cases hok
          have := r.byteCount_le
          simp
          omega
      | ok u =>
          obtain ⟨-, rfl⟩ := encodeRequest_eq_ok.1 h
          exact pduLimit_eq_ok

/-! ### The decoder -/

/-- The arms that read a range of addresses. -/
private theorem rangeArm_eq_ok {w arm : String} {data : Bytes} {max : UInt16} {r : Request}
    (f : Address → Quantity → Request) :
    (do
      let (addr, data) ← readU16 w data
      let (qty, _) ← readU16 w data
      checkQuantity arm "qty" qty max
      checkSpan arm "addr" "qty" addr qty
      return f addr qty) = Except.ok r ↔
    ∃ addr qty s, data = toBeBytes addr ++ toBeBytes qty ++ s ∧
      QuantityOk addr qty.toNat max.toNat ∧ r = f addr qty := by
  simp only [bind_eq_ok, Prod.exists, readU16_eq_ok, checkQuantity_eq_ok, checkSpan_eq_ok,
    pure_eq_ok, QuantityOk]
  constructor
  · rintro ⟨addr, _, rfl, qty, s, rfl, _, ⟨h₁, h₂⟩, _, h₃, rfl⟩
    exact ⟨addr, qty, s, by simp, ⟨h₁, h₂, h₃⟩, rfl⟩
  · rintro ⟨addr, qty, s, rfl, ⟨h₁, h₂, h₃⟩, rfl⟩
    exact ⟨addr, _, List.append_assoc .., qty, s, rfl, (), ⟨h₁, h₂⟩, (), h₃, rfl⟩

/-- The arms that read two words. -/
theorem pairArm_eq_ok {ρ : Type} {w : String} {data : Bytes} {r : ρ}
    (f : UInt16 → UInt16 → ρ) :
    (do
      let (x, data) ← readU16 w data
      let (y, _) ← readU16 w data
      return f x y) = Except.ok r ↔
    ∃ x y s, data = toBeBytes x ++ toBeBytes y ++ s ∧ r = f x y := by
  simp only [bind_eq_ok, Prod.exists, readU16_eq_ok, pure_eq_ok]
  constructor
  · rintro ⟨x, _, rfl, y, s, rfl, rfl⟩
    exact ⟨x, y, s, by simp, rfl⟩
  · rintro ⟨x, y, s, rfl, rfl⟩
    exact ⟨x, _, List.append_assoc .., y, s, rfl, rfl⟩

theorem decodeRequest_five_eq_ok {data : Bytes} {r : Request} :
    decodeRequest 5 data = .ok r ↔
    ∃ addr val s, data = toBeBytes addr ++ toBeBytes (if val then 0xFF00 else 0x0000) ++ s ∧
      r = .writeSingleCoil addr val := by
  simp only [decodeRequest, bind_eq_ok, Prod.exists, readU16_eq_ok]
  constructor
  · rintro ⟨addr, _, rfl, raw, s, rfl, h⟩
    split at h
    · next hraw => exact ⟨addr, true, s, by simp [hraw], (pure_eq_ok.1 h).symm⟩
    · split at h
      · next hraw => exact ⟨addr, false, s, by simp [hraw], (pure_eq_ok.1 h).symm⟩
      · cases h
  · rintro ⟨addr, val, s, rfl, rfl⟩
    refine ⟨addr, _, List.append_assoc .., _, s, rfl, ?_⟩
    cases val <;> rfl

theorem decodeRequest_coils_eq_ok {data : Bytes} {r : Request} :
    decodeRequest 15 data = .ok r ↔
    ∃ addr values coils s, coils.length = divCeil values.length 8 ∧
      (unpackBits coils).take values.length = values ∧
      data = toBeBytes addr ++ toBeBytes (UInt16.ofNat values.length)
        ++ UInt8.ofNat (divCeil values.length 8) :: (coils ++ s) ∧
      QuantityOk addr values.length 2000 ∧ r = .writeMultipleCoils addr values := by
  simp only [decodeRequest, bind_eq_ok, Prod.exists, readU16_eq_ok, readU8_eq_ok,
    checkQuantity_eq_ok, checkSpan_eq_ok, checkByteCount_eq_ok, checkRemaining_eq_ok, pure_eq_ok,
    readCoilValues_eq, QuantityOk]
  constructor
  · rintro ⟨addr, _, rfl, qty, _, rfl, _, ⟨h₁, h₂⟩, _, h₃, count, s, rfl, _, hcount, _, hlen, rfl⟩
    have htake : (s.take count.toNat).length = count.toNat := by simp [hlen]
    have hqty : ((unpackBits (s.take count.toNat)).take qty.toNat).length = qty.toNat := by
      rw [List.length_take, unpackBits_length, htake, hcount, divCeil]
      omega
    have h2000 : MAX_COILS.toNat = 2000 := rfl
    refine ⟨addr, _, s.take count.toNat, s.drop count.toNat, ?_, ?_, ?_, ?_, rfl⟩
    · rw [hqty, htake, hcount]
    · rw [hqty]
    · rw [hqty, ← hcount]
      simp
    · rw [hqty]
      exact ⟨h₁, by omega, h₃⟩
  · rintro ⟨addr, values, coils, s, hlen, hvals, rfl, ⟨h₁, h₂, h₃⟩, rfl⟩
    have h2000 : MAX_COILS.toNat = 2000 := rfl
    have hqty : (UInt16.ofNat values.length).toNat = values.length := by
      rw [UInt16.toNat_ofNat']
      omega
    have hcount : (UInt8.ofNat (divCeil values.length 8)).toNat = divCeil values.length 8 := by
      rw [UInt8.toNat_ofNat', divCeil]
      omega
    refine ⟨addr, _, List.append_assoc .., _, _, rfl, (), ?_, (), ?_, _, _, rfl, (), ?_, (), ?_,
      ?_⟩
    · rw [hqty]
      omega
    · rw [hqty]
      exact h₃
    · rw [hqty, hcount]
    · rw [hcount, ← hlen]
      simp
    · rw [hqty, hcount, ← hlen, List.take_left, hvals]

/-- What the arms that carry words read after the quantity. -/
private theorem wordList_eq_ok {arm formula truncated w : String} {data : Bytes} {qty : UInt16}
    {r : Request} (hqty : qty.toNat ≤ 125) (f : List UInt16 → Request) :
    (do
      let (byteCount, data) ← readU8 w data
      checkByteCount arm formula byteCount.toNat (qty.toNat * 2)
      checkRemaining data (qty.toNat * 2) truncated
      return f (takeWords qty.toNat data).1) = Except.ok r ↔
    ∃ values s, values.length = qty.toNat ∧
      data = UInt8.ofNat (values.length * 2) :: (beBytes values ++ s) ∧ r = f values := by
  simp only [bind_eq_ok, Prod.exists, readU8_eq_ok, checkByteCount_eq_ok, checkRemaining_eq_ok,
    pure_eq_ok]
  constructor
  · rintro ⟨count, s, rfl, _, hcount, _, hlen, rfl⟩
    have hlen' : 2 * qty.toNat ≤ s.length := by omega
    obtain ⟨hvals, heq⟩ : _ ∧ s = _ := beBytes_takeWords hlen'
    refine ⟨_, (takeWords qty.toNat s).2, hvals, ?_, rfl⟩
    rw [← heq, hvals, ← hcount, UInt8.ofNat_toNat]
  · rintro ⟨values, s, hlen, rfl, rfl⟩
    refine ⟨_, _, rfl, (), ?_, (), ?_, ?_⟩
    · rw [UInt8.toNat_ofNat', hlen]
      omega
    · simp [← hlen]
      omega
    · rw [← hlen, takeWords_beBytes]

theorem decodeRequest_registers_eq_ok {data : Bytes} {r : Request} :
    decodeRequest 16 data = .ok r ↔
    ∃ addr values s, data = toBeBytes addr ++ toBeBytes (UInt16.ofNat values.length)
        ++ UInt8.ofNat (values.length * 2) :: (beBytes values ++ s) ∧
      QuantityOk addr values.length 125 ∧ r = .writeMultipleRegisters addr values := by
  have h125 : MAX_REGISTERS.toNat = 125 := rfl
  rw [decodeRequest]
  simp only [bind_eq_ok (x := readU16 _ _), bind_eq_ok (x := checkQuantity _ _ _ _),
    bind_eq_ok (x := checkSpan _ _ _ _ _), Prod.exists, readU16_eq_ok, checkQuantity_eq_ok,
    checkSpan_eq_ok]
  constructor
  · rintro ⟨addr, _, rfl, qty, _, rfl, _, ⟨h₁, h₂⟩, _, h₃, h⟩
    obtain ⟨values, s, hlen, rfl, rfl⟩ :=
      (wordList_eq_ok (by omega) (Request.writeMultipleRegisters addr)).1 h
    exact ⟨addr, values, s, by simp [hlen], ⟨by omega, by omega, by omega⟩, rfl⟩
  · rintro ⟨addr, values, s, rfl, ⟨h₁, h₂, h₃⟩, rfl⟩
    have hqty : (UInt16.ofNat values.length).toNat = values.length := by
      rw [UInt16.toNat_ofNat']
      omega
    refine ⟨addr, _, List.append_assoc .., _, _, rfl, (), by omega, (), by omega, ?_⟩
    exact (wordList_eq_ok (by omega) (Request.writeMultipleRegisters addr)).2
      ⟨values, s, hqty.symm, rfl, rfl⟩

theorem decodeRequest_readWrite_eq_ok {data : Bytes} {r : Request} :
    decodeRequest 23 data = .ok r ↔
    ∃ rAddr rQty wAddr values s, data = toBeBytes rAddr ++ toBeBytes rQty ++ toBeBytes wAddr
        ++ toBeBytes (UInt16.ofNat values.length)
        ++ UInt8.ofNat (values.length * 2) :: (beBytes values ++ s) ∧
      QuantityOk rAddr rQty.toNat 125 ∧ QuantityOk wAddr values.length 125 ∧
      r = .readWriteMultipleRegisters rAddr rQty wAddr values := by
  have h125 : MAX_REGISTERS.toNat = 125 := rfl
  rw [decodeRequest]
  simp only [bind_eq_ok (x := readU16 _ _), bind_eq_ok (x := checkQuantity _ _ _ _),
    bind_eq_ok (x := checkSpan _ _ _ _ _), Prod.exists, readU16_eq_ok, checkQuantity_eq_ok,
    checkSpan_eq_ok]
  constructor
  · rintro ⟨rAddr, _, rfl, rQty, _, rfl, _, ⟨h₁, h₂⟩, _, h₃, wAddr, _, rfl, qty, _, rfl, _,
      ⟨h₄, h₅⟩, _, h₆, h⟩
    obtain ⟨values, s, hlen, rfl, rfl⟩ :=
      (wordList_eq_ok (by omega) (Request.readWriteMultipleRegisters rAddr rQty wAddr)).1 h
    exact ⟨rAddr, rQty, wAddr, values, s, by simp [hlen], ⟨h₁, by omega, h₃⟩,
      ⟨by omega, by omega, by omega⟩, rfl⟩
  · rintro ⟨rAddr, rQty, wAddr, values, s, rfl, ⟨h₁, h₂, h₃⟩, ⟨h₄, h₅, h₆⟩, rfl⟩
    have hqty : (UInt16.ofNat values.length).toNat = values.length := by
      rw [UInt16.toNat_ofNat']
      omega
    simp only [List.append_assoc]
    refine ⟨rAddr, _, rfl, rQty, _, rfl, (), by omega, (), by omega, wAddr, _, rfl, _, _, rfl, (),
      by omega, (), by omega, ?_⟩
    exact (wordList_eq_ok (by omega) (Request.readWriteMultipleRegisters rAddr rQty wAddr)).2
      ⟨values, s, hqty.symm, rfl, rfl⟩

theorem decodeRequest_mask_eq_ok {data : Bytes} {r : Request} :
    decodeRequest 22 data = .ok r ↔
    ∃ addr andMask orMask s, data = toBeBytes addr ++ toBeBytes andMask ++ toBeBytes orMask ++ s ∧
      r = .maskWriteRegister addr andMask orMask := by
  simp only [decodeRequest, bind_eq_ok, Prod.exists, readU16_eq_ok, pure_eq_ok]
  constructor
  · rintro ⟨addr, _, rfl, andMask, _, rfl, orMask, s, rfl, rfl⟩
    exact ⟨addr, andMask, orMask, s, by simp, rfl⟩
  · rintro ⟨addr, andMask, orMask, s, rfl, rfl⟩
    simp only [List.append_assoc]
    exact ⟨addr, _, rfl, andMask, _, rfl, orMask, s, rfl, rfl⟩

/-- **The decoder accepts exactly the layouts of the requests in range**, with any suffix. -/
theorem Request.tryFrom_eq_ok_iff {b : Bytes} {r : Request} :
    Request.tryFrom b = .ok r ↔
      r ≠ .disconnect ∧ r.InRange ∧ ∃ p s, b = p ++ s ∧ r.Carries p := by
  constructor
  · intro h
    match b with
    | [] => simp [Request.tryFrom] at h
    | fc :: data =>
      rw [Request.tryFrom] at h
      -- one case per arm of the decoder
      have h' := h
      unfold decodeRequest at h'
      split at h'
      · obtain ⟨addr, qty, s, rfl, hq, rfl⟩ := (rangeArm_eq_ok Request.readCoils).1 h'
        exact ⟨by simp, hq, _, s, rfl, rfl⟩
      · obtain ⟨addr, qty, s, rfl, hq, rfl⟩ := (rangeArm_eq_ok Request.readDiscreteInputs).1 h'
        exact ⟨by simp, hq, _, s, rfl, rfl⟩
      · obtain ⟨addr, qty, s, rfl, hq, rfl⟩ := (rangeArm_eq_ok Request.readHoldingRegisters).1 h'
        exact ⟨by simp, hq, _, s, rfl, rfl⟩
      · obtain ⟨addr, qty, s, rfl, hq, rfl⟩ := (rangeArm_eq_ok Request.readInputRegisters).1 h'
        exact ⟨by simp, hq, _, s, rfl, rfl⟩
      · obtain ⟨addr, val, s, rfl, rfl⟩ := decodeRequest_five_eq_ok.1 h
        exact ⟨by simp, trivial, _, s, rfl, rfl⟩
      · obtain ⟨addr, val, s, rfl, rfl⟩ := (pairArm_eq_ok Request.writeSingleRegister).1 h'
        exact ⟨by simp, trivial, _, s, rfl, rfl⟩
      · obtain ⟨addr, values, coils, s, hlen, hvals, rfl, hq, rfl⟩ := decodeRequest_coils_eq_ok.1 h
        exact ⟨by simp, hq, _, s, by simp, coils, hlen, hvals, rfl⟩
      · obtain ⟨addr, values, s, rfl, hq, rfl⟩ := decodeRequest_registers_eq_ok.1 h
        refine ⟨by simp, hq, _, s, ?_, rfl⟩
        simp only [Request.pdu, List.cons_append, List.append_assoc]
      · obtain ⟨addr, andMask, orMask, s, rfl, rfl⟩ := decodeRequest_mask_eq_ok.1 h
        exact ⟨by simp, trivial, _, s, rfl, rfl⟩
      · obtain ⟨rAddr, rQty, wAddr, values, s, rfl, hr, hw, rfl⟩ :=
          decodeRequest_readWrite_eq_ok.1 h
        refine ⟨by simp, ⟨hr, hw⟩, _, s, ?_, rfl⟩
        simp only [Request.pdu, List.cons_append, List.append_assoc]
      · obtain ⟨sf, d, s, rfl, rfl⟩ := (pairArm_eq_ok Request.diagnostic).1 h'
        exact ⟨by simp, trivial, _, s, rfl, rfl⟩
      · cases h'
  · rintro ⟨hr, hrange, p, s, rfl, hp⟩
    cases r with
    | readCoils addr qty =>
        rcases hp with rfl
        exact (rangeArm_eq_ok Request.readCoils).2 ⟨addr, qty, s, rfl, hrange, rfl⟩
    | readDiscreteInputs addr qty =>
        rcases hp with rfl
        exact (rangeArm_eq_ok Request.readDiscreteInputs).2 ⟨addr, qty, s, rfl, hrange, rfl⟩
    | readHoldingRegisters addr qty =>
        rcases hp with rfl
        exact (rangeArm_eq_ok Request.readHoldingRegisters).2 ⟨addr, qty, s, rfl, hrange, rfl⟩
    | readInputRegisters addr qty =>
        rcases hp with rfl
        exact (rangeArm_eq_ok Request.readInputRegisters).2 ⟨addr, qty, s, rfl, hrange, rfl⟩
    | writeSingleCoil addr value =>
        rcases hp with rfl
        exact decodeRequest_five_eq_ok.2 ⟨addr, value, s, rfl, rfl⟩
    | writeSingleRegister addr value =>
        rcases hp with rfl
        exact (pairArm_eq_ok Request.writeSingleRegister).2 ⟨addr, value, s, rfl, rfl⟩
    | writeMultipleCoils addr values =>
        obtain ⟨coils, hlen, hvals, rfl⟩ := hp
        exact decodeRequest_coils_eq_ok.2
          ⟨addr, values, coils, s, hlen, hvals, by simp, hrange, rfl⟩
    | writeMultipleRegisters addr values =>
        have hp : p = (Request.writeMultipleRegisters addr values).pdu := hp
        rw [hp, Request.pdu, List.cons_append, Request.tryFrom]
        refine decodeRequest_registers_eq_ok.2 ⟨addr, values, s, ?_, hrange, rfl⟩
        simp only [List.append_assoc, List.cons_append]
    | readWriteMultipleRegisters rAddr rQty wAddr values =>
        have hp : p = (Request.readWriteMultipleRegisters rAddr rQty wAddr values).pdu := hp
        rw [hp, Request.pdu, List.cons_append, Request.tryFrom]
        refine decodeRequest_readWrite_eq_ok.2
          ⟨rAddr, rQty, wAddr, values, s, ?_, hrange.1, hrange.2, rfl⟩
        simp only [List.append_assoc, List.cons_append]
    | maskWriteRegister addr andMask orMask =>
        rcases hp with rfl
        exact decodeRequest_mask_eq_ok.2 ⟨addr, andMask, orMask, s, rfl, rfl⟩
    | diagnostic sf data =>
        rcases hp with rfl
        exact (pairArm_eq_ok Request.diagnostic).2 ⟨sf, data, s, rfl, rfl⟩
    | disconnect => exact absurd rfl hr

/-! ### Decoding and encoding -/

/-- Decoding undoes encoding, in front of any suffix. -/
theorem Request.tryFrom_pdu_append {r : Request} (hr : r ≠ .disconnect) (h : r.InRange)
    (s : Bytes) : Request.tryFrom (r.pdu ++ s) = .ok r :=
  Request.tryFrom_eq_ok_iff.2 ⟨hr, h, _, s, rfl, r.carries_pdu⟩

theorem Request.tryFrom_pdu {r : Request} (hr : r ≠ .disconnect) (h : r.InRange) :
    Request.tryFrom r.pdu = .ok r := by
  simpa using Request.tryFrom_pdu_append hr h []

/-- A suffix is ignored. -/
theorem Request.tryFrom_append {b : Bytes} {r : Request} (h : Request.tryFrom b = .ok r)
    (s : Bytes) : Request.tryFrom (b ++ s) = .ok r := by
  obtain ⟨hr, hrange, p, t, rfl, hp⟩ := Request.tryFrom_eq_ok_iff.1 h
  exact Request.tryFrom_eq_ok_iff.2 ⟨hr, hrange, p, t ++ s, by simp, hp⟩

/-- A decoded request is no longer than the bytes it was decoded from. -/
theorem Request.pdu_length_le {b : Bytes} {r : Request} (h : Request.tryFrom b = .ok r) :
    r.pdu.length ≤ b.length := by
  obtain ⟨-, -, p, s, rfl, hp⟩ := Request.tryFrom_eq_ok_iff.1 h
  simp [hp.length_eq]

/-- A decoded byte string starts with the function code of the request. -/
theorem Request.tryFrom_head {fc : UInt8} {data : Bytes} {r : Request}
    (h : Request.tryFrom (fc :: data) = .ok r) : fc = r.functionCode.value := by
  obtain ⟨hr, -, p, s, heq, hp⟩ := Request.tryFrom_eq_ok_iff.1 h
  obtain ⟨data', rfl⟩ := hp.head hr
  exact (List.cons.inj heq).1

/-- What the decoder returns is in range, and never `Disconnect`. -/
theorem Request.tryFrom_inRange {b : Bytes} {r : Request} (h : Request.tryFrom b = .ok r) :
    r ≠ .disconnect ∧ r.InRange := by
  obtain ⟨hr, hrange, -⟩ := Request.tryFrom_eq_ok_iff.1 h
  exact ⟨hr, hrange⟩

theorem Request.isOk_tryFrom {b : Bytes} :
    (Request.tryFrom b).isOk = true ↔ ∃ r, Request.tryFrom b = .ok r := by
  cases Request.tryFrom b with
  | error e => simp [Except.isOk, Except.toBool]
  | ok r => simp [Except.isOk, Except.toBool]

/-- A byte string that decodes starts with a known function code. -/
theorem Request.isKnown_of_tryFrom {fc : UInt8} {data : Bytes} {r : Request}
    (h : Request.tryFrom (fc :: data) = .ok r) : isKnownFunctionCode fc = true := by
  have hr := (Request.tryFrom_inRange h).1
  rw [Request.tryFrom_head h]
  cases r with
  | disconnect => exact absurd rfl hr
  | _ =>
      simp only [Request.functionCode]
      decide

/-- A request has a function code and at least four more bytes. -/
theorem Request.five_le_pdu_length {r : Request} (hr : r ≠ .disconnect) : 5 ≤ r.pdu.length := by
  cases r with
  | disconnect => exact absurd rfl hr
  | _ => simp [Request.pdu] <;> omega

private theorem ofNat_length_inj {n m : ℕ} (hn : n < 65536) (hm : m < 65536)
    (h : UInt16.ofNat n = UInt16.ofNat m) : n = m := by
  have := congrArg UInt16.toNat h
  rw [UInt16.toNat_ofNat', UInt16.toNat_ofNat'] at this
  omega

/-- The last word of a stream. -/
private theorem readQty_inj {v w : UInt16} {s : Bytes} (h : toBeBytes v = toBeBytes w ++ s) :
    v = w ∧ [] = s := by
  rw [← toBeBytes_append_inj, List.append_nil]
  exact h

/-- A list of words that is at most 125 long is determined by its length and its bytes. -/
private theorem wordsField_inj {values values' : List UInt16} {s : Bytes}
    (hfit : values.length < 65536) (hq : values'.length ≤ 125)
    (hcount : UInt16.ofNat values.length = UInt16.ofNat values'.length)
    (hdata : beBytes values = beBytes values' ++ s) : values' = values := by
  have hn := ofNat_length_inj hfit (by omega) hcount
  rw [← List.append_nil (beBytes values)] at hdata
  obtain ⟨heq, -⟩ := List.append_inj hdata (by simp [hn])
  exact (beBytes_inj heq).symm

/-- A layout that fits in a PDU decodes to no other request. -/
theorem Request.eq_of_tryFrom_pdu {r r' : Request} (hr : r ≠ .disconnect)
    (hfit : r.pdu.length ≤ 253) (h : Request.tryFrom r.pdu = .ok r') : r' = r := by
  cases r with
  | readCoils addr qty =>
      obtain ⟨addr', qty', s, heq, -, rfl⟩ := (rangeArm_eq_ok Request.readCoils).1 h
      simp only [List.append_assoc, toBeBytes_append_inj] at heq
      rw [heq.1, (readQty_inj heq.2).1]
  | readDiscreteInputs addr qty =>
      obtain ⟨addr', qty', s, heq, -, rfl⟩ := (rangeArm_eq_ok Request.readDiscreteInputs).1 h
      simp only [List.append_assoc, toBeBytes_append_inj] at heq
      rw [heq.1, (readQty_inj heq.2).1]
  | readHoldingRegisters addr qty =>
      obtain ⟨addr', qty', s, heq, -, rfl⟩ := (rangeArm_eq_ok Request.readHoldingRegisters).1 h
      simp only [List.append_assoc, toBeBytes_append_inj] at heq
      rw [heq.1, (readQty_inj heq.2).1]
  | readInputRegisters addr qty =>
      obtain ⟨addr', qty', s, heq, -, rfl⟩ := (rangeArm_eq_ok Request.readInputRegisters).1 h
      simp only [List.append_assoc, toBeBytes_append_inj] at heq
      rw [heq.1, (readQty_inj heq.2).1]
  | writeSingleCoil addr value =>
      obtain ⟨addr', value', s, heq, rfl⟩ := decodeRequest_five_eq_ok.1 h
      simp only [List.append_assoc, toBeBytes_append_inj] at heq
      have hval := (readQty_inj heq.2).1
      have hvalue : value = value' := by
        cases value <;> cases value' <;> first | rfl | exact absurd hval (by decide)
      rw [heq.1, hvalue]
  | writeSingleRegister addr value =>
      obtain ⟨addr', value', s, heq, rfl⟩ := (pairArm_eq_ok Request.writeSingleRegister).1 h
      simp only [List.append_assoc, toBeBytes_append_inj] at heq
      rw [heq.1, (readQty_inj heq.2).1]
  | writeMultipleCoils addr values =>
      obtain ⟨addr', values', coils, s, hlen, hvals, heq, hq, rfl⟩ :=
        decodeRequest_coils_eq_ok.1 h
      simp only [List.append_assoc, toBeBytes_append_inj, List.cons.injEq] at heq
      obtain ⟨rfl, hcount, -, hdata⟩ := heq
      have hfit' : values.length < 65536 := by
        simp [Request.pdu, divCeil] at hfit
        omega
      have hn := ofNat_length_inj hfit' (by have := hq.2.1; omega) hcount
      rw [← List.append_nil (packBits values)] at hdata
      obtain ⟨rfl, -⟩ := List.append_inj hdata (by simp [hlen, hn])
      rw [unpackBits_packBits, ← hn, take_padBits] at hvals
      rw [hvals]
  | writeMultipleRegisters addr values =>
      obtain ⟨addr', values', s, heq, hq, rfl⟩ := decodeRequest_registers_eq_ok.1 h
      simp only [List.append_assoc, toBeBytes_append_inj, List.cons.injEq] at heq
      obtain ⟨rfl, hcount, -, hdata⟩ := heq
      rw [wordsField_inj (by simp [Request.pdu] at hfit; omega) hq.2.1 hcount hdata]
  | readWriteMultipleRegisters readAddr readQty writeAddr data =>
      obtain ⟨rAddr, rQty, wAddr, values, s, heq, -, hq, rfl⟩ := decodeRequest_readWrite_eq_ok.1 h
      simp only [List.append_assoc, toBeBytes_append_inj, List.cons.injEq] at heq
      obtain ⟨rfl, rfl, rfl, hcount, -, hdata⟩ := heq
      rw [wordsField_inj (by simp [Request.pdu] at hfit; omega) hq.2.1 hcount hdata]
  | maskWriteRegister addr andMask orMask =>
      obtain ⟨addr', andMask', orMask', s, heq, rfl⟩ := decodeRequest_mask_eq_ok.1 h
      simp only [List.append_assoc, toBeBytes_append_inj] at heq
      rw [heq.1, heq.2.1, (readQty_inj heq.2.2).1]
  | diagnostic sf data =>
      obtain ⟨sf', data', s, heq, rfl⟩ := (pairArm_eq_ok Request.diagnostic).1 h
      simp only [List.append_assoc, toBeBytes_append_inj] at heq
      rw [heq.1, (readQty_inj heq.2).1]
  | disconnect => exact absurd rfl hr

/-- Decoding a layout: the request when it is in range, an error when it is not. -/
theorem Request.tryFrom_pdu_eq_ok_iff {r r' : Request} (hr : r ≠ .disconnect)
    (hfit : r.pdu.length ≤ 253) : Request.tryFrom r.pdu = .ok r' ↔ r.InRange ∧ r' = r := by
  constructor
  · intro h
    obtain rfl := Request.eq_of_tryFrom_pdu hr hfit h
    exact ⟨(Request.tryFrom_inRange h).2, rfl⟩
  · rintro ⟨hrange, rfl⟩
    exact Request.tryFrom_pdu hr hrange

/-- **The request codec round trip.**  Whatever the buffer held before, a request that is encoded
takes at most 253 bytes; these decode to the request exactly when its quantities and addresses are
in range, and are refused otherwise. -/
theorem encodeRequestInto_roundTrip (r : Request) (hr : r ≠ .disconnect) (buf buf' : Bytes)
    (h : encodeRequestInto r buf = (.ok (), buf')) :
    ∃ b, buf' = buf ++ b ∧ b.length ≤ 253 ∧ (Request.tryFrom b = .ok r ↔ r.InRange) ∧
      (¬ r.InRange → ∃ e, Request.tryFrom b = .error e) := by
  obtain ⟨hfit, rfl⟩ := encodeRequestInto_eq_ok.1 h
  refine ⟨r.pdu, rfl, hfit, ?_, ?_⟩
  · rw [Request.tryFrom_pdu_eq_ok_iff hr hfit]
    simp
  · intro hout
    cases hdec : Request.tryFrom r.pdu with
    | error e => exact ⟨e, rfl⟩
    | ok r' => exact absurd ((Request.tryFrom_pdu_eq_ok_iff hr hfit).1 hdec).1 hout

/-- Nine coils take two bytes, after what the buffer held before. -/
theorem encodeRequestInto_roundTrip_nineCoils :
    ∃ b, [0xAA, 15, 0, 3, 0, 9, 2, 0x05, 0x01] = [0xAA] ++ b ∧ b.length ≤ 253 ∧
      (Request.tryFrom b = .ok (.writeMultipleCoils 3
          [true, false, true, false, false, false, false, false, true]) ↔
        Request.InRange (.writeMultipleCoils 3
          [true, false, true, false, false, false, false, false, true])) ∧
      (¬ Request.InRange (.writeMultipleCoils 3
          [true, false, true, false, false, false, false, false, true]) →
        ∃ e, Request.tryFrom b = .error e) :=
  encodeRequestInto_roundTrip
    (.writeMultipleCoils 3 [true, false, true, false, false, false, false, false, true])
    (by decide) [0xAA] _ (by decide)

end OmsModbus
