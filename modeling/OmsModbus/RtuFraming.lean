/-
**Where an RTU frame ends.**

The server says that bytes are gathered until the bus goes quiet, and that the CRC is validated
then.  Its loop validates the CRC after every read, over the whole buffer.  A frame that comes in
several reads is cut short as soon as the bytes up to a read boundary end in a CRC of their own,
which the data of a write request can bring about; and frames that come in one read are looked at
as one.

Main definitions:

* `OmsModbus.SerialRequest.rtuFrame` — the frame of a request;
* `OmsModbus.NoEarlyCrc` — no read boundary inside a frame falls behind a valid CRC.

Main results:

* `OmsModbus.tryParseServerRtu_eq_none_iff` — in a part of a frame only the CRC counts;
* `OmsModbus.serveRtu_cut_iff` — **which cuttings of a frame a server can take**;
* `OmsModbus.serveRtu_one_read_length_le` — one read leads to one request at most;
* `OmsModbus.serveRtu_coalesced` — **frames that come in one read are not all served**.
-/

import OmsModbus.Rtu
import OmsModbus.SlaveStore

set_option relaxedAutoImplicit false
set_option autoImplicit false

namespace OmsModbus

open Words StreamFraming

/-! ### Frames and their parts -/

/-- The RTU frame of a request. -/
def SerialRequest.rtuFrame (r : SerialRequest) : Bytes := encodeRtuFrame (r.slaveId :: r.pdu) []

theorem SerialRequest.rtuFrame_length (r : SerialRequest) :
    r.rtuFrame.length = r.pdu.length + 3 := by
  rw [rtuFrame, encodeRtuFrame_nil_length, List.length_cons]

theorem SerialRequest.rtuFrame_ne_nil (r : SerialRequest) : r.rtuFrame ≠ [] := by
  intro h
  have hlen := r.rtuFrame_length
  rw [h] at hlen
  cases hlen

/-- The parser takes a whole frame for what it is. -/
theorem tryParseServerRtu_rtuFrame (r : SerialRequest) :
    tryParseServerRtu r.rtuFrame = some (r.raw, r.rtuFrame.length) := by
  obtain ⟨fc, data, hpdu, hfc, hlen⟩ := r.exists_cons
  have hdata : data ≠ [] := by
    intro h
    rw [h] at hlen
    cases hlen
  rw [SerialRequest.rtuFrame, SerialRequest.raw, hpdu]
  exact tryParseServerRtu_encode hdata hfc

/-- The first bytes of a part of a frame that is long enough to be looked at. -/
theorem SerialRequest.take_rtuFrame {r : SerialRequest} {b t : Bytes} (h : r.rtuFrame = b ++ t)
    (ht : t ≠ []) (hb : MIN_RTU_FRAME ≤ b.length) :
    ∃ fc data, b.take (b.length - 2) = r.slaveId :: fc :: data ∧ isKnownFunctionCode fc = true ∧
      data.length + 4 = b.length ∧ b.length < r.rtuFrame.length := by
  obtain ⟨fc, data, hpdu, hfc, hlen⟩ := r.exists_cons
  rw [MIN_RTU_FRAME] at hb
  have hlt : b.length < r.rtuFrame.length := by
    rw [h, List.length_append]
    have := List.length_pos_iff.2 ht
    omega
  obtain ⟨a, c, rest, rfl⟩ : ∃ a c rest, b = a :: c :: rest := by
    cases b with
    | nil => cases hb
    | cons a tail =>
        cases tail with
        | nil => simp at hb
        | cons c rest => exact ⟨a, c, rest, rfl⟩
  have hhead := h
  rw [rtuFrame, encodeRtuFrame, List.nil_append, hpdu] at hhead
  have hslave : r.slaveId = a := (List.cons.inj hhead).1
  have hcode : fc = c := (List.cons.inj (List.cons.inj hhead).2).1
  simp only [List.length_cons] at hb hlt ⊢
  refine ⟨fc, rest.take (rest.length - 2), ?_, hfc, ?_, hlt⟩
  · obtain ⟨k, hk⟩ : ∃ k, rest.length = k + 2 := ⟨rest.length - 2, by omega⟩
    rw [hk, hslave, hcode]
    rfl
  · rw [List.length_take]
    omega

/-- **In a part of a frame only the CRC counts**: nothing is found exactly when the part is too
short, or does not end in its CRC. -/
theorem tryParseServerRtu_eq_none_iff {r : SerialRequest} {b t : Bytes} (h : r.rtuFrame = b ++ t)
    (ht : t ≠ []) :
    tryParseServerRtu b = none ↔
      (MIN_RTU_FRAME ≤ b.length → crcReceived b ≠ calculateCrc (b.take (b.length - 2))) := by
  unfold tryParseServerRtu
  by_cases hb : b.length < MIN_RTU_FRAME
  · simp [hb]
  · obtain ⟨fc, data, htake, hfc, -, -⟩ := r.take_rtuFrame h ht (by omega)
    rw [if_neg hb, htake]
    by_cases hcrc : crcReceived b = calculateCrc (r.slaveId :: fc :: data)
    · simp [hcrc, hfc, Nat.not_lt.1 hb]
    · simp [hcrc]

/-- What is found in a part of a frame is shorter than the request. -/
theorem tryParseServerRtu_part {r : SerialRequest} {b t : Bytes} (h : r.rtuFrame = b ++ t)
    (ht : t ≠ []) {x : RawRequest Unit} {n : ℕ} (hx : tryParseServerRtu b = some (x, n)) :
    x ≠ r.raw := by
  have hb : MIN_RTU_FRAME ≤ b.length := by
    by_contra hlt
    rw [tryParseServerRtu, if_pos (by omega)] at hx
    cases hx
  obtain ⟨fc, data, htake, hfc, hdata, hlt⟩ := r.take_rtuFrame h ht hb
  rw [tryParseServerRtu, if_neg (by omega), htake] at hx
  split at hx
  · cases hx
  · simp only [hfc, not_true_eq_false, if_false] at hx
    cases hx
    intro heq
    have hpdu := congrArg List.length (congrArg RawRequest.pdu heq)
    rw [SerialRequest.raw, List.length_cons] at hpdu
    rw [r.rtuFrame_length] at hlt
    simp only at hpdu
    omega

/-! ### A frame in several reads -/

/-- The bytes up to a read boundary do not end in their own CRC, wherever the boundary falls. -/
def NoEarlyCrc (reads : List Bytes) : Prop :=
  ∀ k < reads.length, MIN_RTU_FRAME ≤ (reads.take k).flatten.length →
    crcReceived (reads.take k).flatten
      ≠ calculateCrc ((reads.take k).flatten.take ((reads.take k).flatten.length - 2))

instance (reads : List Bytes) : Decidable (NoEarlyCrc reads) :=
  inferInstanceAs (Decidable (∀ k < reads.length, _ → _))

/-- The bytes up to a read boundary, and those behind it. -/
theorem rtuFrame_eq_take_append {r : SerialRequest} {reads : List Bytes}
    (hne : ∀ bs ∈ reads, bs ≠ []) (hcut : reads.flatten = r.rtuFrame) {k : ℕ}
    (hk : k < reads.length) :
    r.rtuFrame = (reads.take k).flatten ++ (reads.drop k).flatten ∧
      (reads.drop k).flatten ≠ [] := by
  refine ⟨?_, ?_⟩
  · rw [← List.flatten_append, List.take_append_drop, hcut]
  · rw [List.drop_eq_getElem_cons hk, List.flatten_cons]
    intro h
    exact hne _ (List.getElem_mem hk) (List.append_eq_nil_iff.1 h).1

/-- Without an early CRC the run finds the request, and nothing else. -/
theorem rtuFramer_run_of_noEarlyCrc {r : SerialRequest} {reads : List Bytes}
    (hne : ∀ bs ∈ reads, bs ≠ []) (hcut : reads.flatten = r.rtuFrame) (h : NoEarlyCrc reads) :
    rtuFramer.run (fun _ => false) [] reads = ([r.raw], []) := by
  have hlen : reads.length ≠ 0 := by
    intro h0
    refine r.rtuFrame_ne_nil ?_
    rw [← hcut, List.length_eq_zero_iff.1 h0]
    rfl
  obtain ⟨k, hk⟩ : ∃ k, reads.length = k + 1 := ⟨reads.length - 1, by omega⟩
  have hnone : ∀ j, 0 < j → j ≤ k → rtuFramer.parse ([] ++ (reads.take j).flatten) = none := by
    intro j _ hj
    obtain ⟨hframe, ht⟩ := rtuFrame_eq_take_append hne hcut (k := j) (by omega)
    exact (tryParseServerRtu_eq_none_iff hframe ht).2 (h j (by omega))
  have hall : reads.take (k + 1) = reads := List.take_of_length_le (by omega)
  have hsome : rtuFramer.parse ([] ++ (reads.take (k + 1)).flatten)
      = some (r.raw, r.rtuFrame.length) := by
    rw [hall, hcut]
    exact tryParseServerRtu_rtuFrame r
  obtain ⟨d, s, hd, hs, hrun⟩ := rtuFramer.run_first (by omega) hnone hsome
  have hnil : rtuFramer.parse [] = none := rfl
  rw [hall, hcut, List.nil_append, List.drop_length, rtuFramer.drain_none hnil] at hd
  subst hd
  rw [← hk, List.drop_length] at hs
  subst hs
  exact hrun

/-- With an early CRC the run finds something else first. -/
theorem rtuFramer_run_of_earlyCrc {r : SerialRequest} {reads : List Bytes}
    (hne : ∀ bs ∈ reads, bs ≠ []) (hcut : reads.flatten = r.rtuFrame) (h : ¬ NoEarlyCrc reads) :
    ∃ x xs, (rtuFramer.run (fun _ => false) [] reads).1 = x :: xs ∧ x ≠ r.raw := by
  have hex : ∃ k, k < reads.length ∧ tryParseServerRtu (reads.take k).flatten ≠ none := by
    by_contra hall
    refine h ?_
    intro k hk
    obtain ⟨hframe, ht⟩ := rtuFrame_eq_take_append hne hcut hk
    refine (tryParseServerRtu_eq_none_iff hframe ht).1 ?_
    by_contra hsome
    exact hall ⟨k, hk, hsome⟩
  -- the first boundary at which the buffer parses
  obtain ⟨hk, hsome⟩ := Nat.find_spec hex
  have hfirst := fun j => Nat.find_min (H := hex) (m := j)
  generalize Nat.find hex = k at hk hsome hfirst
  cases k with
  | zero => exact absurd rfl hsome
  | succ k =>
      obtain ⟨⟨x, n⟩, hx⟩ := Option.ne_none_iff_exists'.1 hsome
      have hnone : ∀ j, 0 < j → j ≤ k → rtuFramer.parse ([] ++ (reads.take j).flatten) = none := by
        intro j _ hj
        by_contra hj'
        exact hfirst j (by omega) ⟨by omega, hj'⟩
      obtain ⟨d, s, -, -, hrun⟩ := rtuFramer.run_first (b := []) (by omega) hnone hx
      obtain ⟨hframe, ht⟩ := rtuFrame_eq_take_append hne hcut hk
      refine ⟨x, d.1 ++ s.1, ?_, tryParseServerRtu_part hframe ht hx⟩
      rw [hrun]

/-- **Which cuttings of a frame a server can take**: a request that comes in several reads, with no
silence between them, is handed on alone and once exactly when no read boundary falls behind a
valid CRC. -/
theorem serveRtu_cut_iff {σ : Type} (service : Service σ) (writeOk : ℕ → Bool) (s : σ)
    (r : SerialRequest) {reads : List Bytes} (hne : ∀ bs ∈ reads, bs ≠ [])
    (hcut : reads.flatten = r.rtuFrame) :
    (serveRtu service writeOk (.idle s) (reads.map .data)).requests = [r.raw] ↔
      NoEarlyCrc reads := by
  obtain ⟨b, hserve, -⟩ := serveSerial_data_while rtuProtocol service writeOk rtuOnSilence hne
    (.idle s) rfl
  rw [serveRtu, hserve, ServerLoop.setBuf_requests]
  constructor
  · intro h
    by_contra hearly
    obtain ⟨x, xs, hrun, hx⟩ := rtuFramer_run_of_earlyCrc hne hcut hearly
    obtain ⟨n, hn⟩ := ServerLoop.serveWhile_requests rtuProtocol service writeOk (.idle s) rfl x xs
    change (ServerLoop.serveWhile rtuProtocol service writeOk (.idle s)
      (rtuFramer.run (fun _ => false) [] reads).1).requests = _ at h
    rw [hrun, hn] at h
    exact hx (List.cons.inj h).1
  · intro h
    have hrun := rtuFramer_run_of_noEarlyCrc hne hcut h
    obtain ⟨n, hn⟩ := ServerLoop.serveWhile_requests rtuProtocol service writeOk (.idle s) rfl
      r.raw []
    change (ServerLoop.serveWhile rtuProtocol service writeOk (.idle s)
      (rtuFramer.run (fun _ => false) [] reads).1).requests = _
    rw [hrun, hn, List.take_nil]
    rfl

/-- A write of two registers, the first of which holds the CRC of the bytes in front of it. -/
def crcInData : SerialRequest where
  slaveId := 1
  pdu := [16, 0, 0, 0, 2, 4, 9, 243, 0, 1]
  unicast := by decide
  accepted := ⟨.writeMultipleRegisters 0 [2547, 1], by decide⟩

/-- Cut inside the address the same request is handed on. -/
theorem serveRtu_cut_iff_inside :
    (serveRtu storeService (fun _ => true) (.idle .new)
        ([crcInData.rtuFrame.take 3, crcInData.rtuFrame.drop 3].map .data)).requests
      = [crcInData.raw] ↔ NoEarlyCrc [crcInData.rtuFrame.take 3, crcInData.rtuFrame.drop 3] :=
  serveRtu_cut_iff storeService (fun _ => true) .new crcInData (by decide) (by decide)

/-- Cut behind its first register the request is lost: the server hands on the bytes in front of
that register, and finds nothing in the rest. -/
theorem serveRtu_cut_lost :
    let reads := [crcInData.rtuFrame.take 9, crcInData.rtuFrame.drop 9]
    (∀ bs ∈ reads, bs ≠ []) ∧ reads.flatten = crcInData.rtuFrame ∧
      (serveRtu storeService (fun _ => true) (.idle .new) (reads.map .data)).requests
        = [⟨(), 1, [16, 0, 0, 0, 2, 4]⟩] ∧
      (serveRtu storeService (fun _ => true) (.idle .new) (reads.map .data)).requests
        ≠ [crcInData.raw] := by
  decide

/-! ### Several frames in one read -/

/-- **One read leads to one request at most**: the parser takes the whole buffer. -/
theorem serveRtu_one_read_length_le {σ : Type} (service : Service σ) (writeOk : ℕ → Bool) (s : σ)
    {bs : Bytes} (hbs : bs ≠ []) :
    (serveRtu service writeOk (.idle s) [.data bs]).requests.length ≤ 1 := by
  have hne : ∀ c ∈ [bs], c ≠ [] := by
    intro c hc
    rw [List.mem_singleton.1 hc]
    exact hbs
  obtain ⟨b, hserve, -⟩ := serveSerial_data_while rtuProtocol service writeOk rtuOnSilence hne
    (.idle s) rfl
  have hrun : (rtuFramer.run (fun _ => false) [] [bs]).1 = (rtuFramer.drain bs).1 := by
    rw [Framer.run_cons, Framer.run_nil, List.append_nil]
    rfl
  change serveRtu service writeOk (.idle s) [.data bs] = (ServerLoop.serveWhile rtuProtocol service
    writeOk (.idle s) (rtuFramer.run (fun _ => false) [] [bs]).1).setBuf b at hserve
  rw [hserve, ServerLoop.setBuf_requests, hrun]
  cases hp : rtuFramer.parse bs with
  | none =>
      rw [rtuFramer.drain_none hp]
      exact Nat.zero_le 1
  | some found =>
      obtain ⟨x, n⟩ := found
      have hnil : rtuFramer.parse [] = none := rfl
      rw [rtuFramer.drain_some hp, (tryParseServerRtu_eq_some hp).1, List.drop_length,
        rtuFramer.drain_none hnil]
      obtain ⟨m, hm⟩ := ServerLoop.serveWhile_requests rtuProtocol service writeOk (.idle s) rfl
        x []
      rw [hm, List.take_nil]
      exact le_rfl

/-- **Frames that come in one read are not all served**, whatever they are. -/
theorem serveRtu_coalesced {σ : Type} (service : Service σ) (writeOk : ℕ → Bool) (s : σ)
    {rs : List SerialRequest} (h : 2 ≤ rs.length) :
    (serveRtu service writeOk (.idle s) [.data (rs.flatMap SerialRequest.rtuFrame)]).requests
      ≠ rs.map SerialRequest.raw := by
  have hne : rs.flatMap SerialRequest.rtuFrame ≠ [] := by
    cases rs with
    | nil => cases h
    | cons r rs =>
        intro hnil
        exact r.rtuFrame_ne_nil (List.append_eq_nil_iff.1 hnil).1
  have hle := serveRtu_one_read_length_le service writeOk s hne
  intro heq
  rw [heq, List.length_map] at hle
  omega

/-- A write to register 1 of slave 1. -/
def writeOne : SerialRequest where
  slaveId := 1
  pdu := [6, 0, 1, 0, 3]
  unicast := by decide
  accepted := ⟨.writeSingleRegister 1 3, by decide⟩

/-- A write to register 1 of slave 2. -/
def writeTwo : SerialRequest where
  slaveId := 2
  pdu := [6, 0, 1, 0, 4]
  unicast := by decide
  accepted := ⟨.writeSingleRegister 1 4, by decide⟩

/-- Two writes that come together. -/
theorem serveRtu_coalesced_two :
    (serveRtu storeService (fun _ => true) (.idle .new)
        [.data ([writeOne, writeTwo].flatMap SerialRequest.rtuFrame)]).requests
      ≠ [writeOne, writeTwo].map SerialRequest.raw :=
  serveRtu_coalesced storeService (fun _ => true) .new (by decide)

/-- Two writes that come together are both lost. -/
theorem serveRtu_coalesced_lost :
    ([writeOne, writeTwo].flatMap SerialRequest.rtuFrame).length ≤ 256 ∧
      (serveRtu storeService (fun _ => true) (.idle .new)
        [.data ([writeOne, writeTwo].flatMap SerialRequest.rtuFrame)]).requests = [] ∧
      (serveRtu storeService (fun _ => true) (.idle .new)
        [.data ([writeOne, writeTwo].flatMap SerialRequest.rtuFrame)]).requests
        ≠ [writeOne, writeTwo].map SerialRequest.raw := by
  decide

end OmsModbus
