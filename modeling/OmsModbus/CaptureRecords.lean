/-
**Capture buffers conserve records.**

The library has two recorders in memory: `BusCapture`, which counts the calls of its tap and may
keep all records or the youngest ones, and `RingBufferCapture`, which counts nothing but what it
dropped, and can be switched between the two ways of keeping records while it runs.  Both are
buffers in the sense of `OmsModbus.RecordBuffer`, so both conserve what they record; the second
keeps more records than its capacity after a switch, and drops one for each new record then.

Main definitions:

* `OmsModbus.Capture.RingBufferCapture` — the second recorder;
* `OmsModbus.Capture.busCaptureBuffer`, `OmsModbus.Capture.ringBuffer` — the recorders as buffers.

Main results:

* `OmsModbus.Capture.captures_conserve` — **both recorders conserve records in every run**, and what
  `BusCapture` holds is what it should.
-/

import OmsModbus.BusCapture
import OmsModbus.RecordBuffer

set_option relaxedAutoImplicit false
set_option autoImplicit false

namespace OmsModbus.Capture

open RecordBuffer

/-- The record of a call. -/
def packetOf : UInt64 × TapCall → PacketRecord
  | (ts, .onWrite bs) => ⟨ts, .rawTx bs⟩
  | (ts, .onRead bs) => ⟨ts, .rawRx bs⟩
  | (ts, .onError bs error) => ⟨ts, .rawError bs error⟩

/-! ### The recorder with counters -/

namespace BusCapture

/-- A recorder that keeps records, and has room for one at least. -/
def Keeps (c : BusCapture) : Prop :=
  match c.store with
  | .statsOnly => False
  | .unbounded _ => True
  | .bounded _ cap => 0 < cap

/-- Hearing a call is counting it and recording it. -/
theorem hear_store (c : BusCapture) (call : UInt64 × TapCall) :
    (c.hear call).store = (c.record call.1 (packetOf call).data).store ∧
      (c.hear call).dropped = (c.record call.1 (packetOf call).data).dropped := by
  obtain ⟨ts, call⟩ := call
  cases call with
  | onWrite bs | onRead bs | onError bs error =>
      simp only [hear, onWrite, onRead, onError, packetOf, record]
      cases hc : c.store with
      | statsOnly => exact ⟨hc.symm, rfl⟩
      | unbounded v => exact ⟨rfl, rfl⟩
      | bounded buf cap =>
          simp only
          split <;> exact ⟨rfl, rfl⟩

/-- What a call does to the store. -/
theorem hear_cases {c : BusCapture} (call : UInt64 × TapCall) (h : c.Keeps) :
    (∃ v, c.store = .unbounded v ∧ (c.hear call).store = .unbounded (v ++ [packetOf call]) ∧
        (c.hear call).dropped = c.dropped) ∨
      ∃ buf cap, c.store = .bounded buf cap ∧ 0 < cap ∧
        ((buf.length < cap ∧ (c.hear call).store = .bounded (buf ++ [packetOf call]) cap ∧
            (c.hear call).dropped = c.dropped) ∨
          ∃ y rest, buf = y :: rest ∧ cap ≤ buf.length ∧
            (c.hear call).store = .bounded (rest ++ [packetOf call]) cap ∧
            (c.hear call).dropped = c.dropped + 1) := by
  obtain ⟨hstore, hdropped⟩ := c.hear_store call
  have hpacket : (⟨call.1, (packetOf call).data⟩ : PacketRecord) = packetOf call := by
    obtain ⟨ts, call⟩ := call
    cases call <;> rfl
  rw [hstore, hdropped]
  unfold Keeps at h
  unfold record
  cases hc : c.store with
  | statsOnly =>
      rw [hc] at h
      exact absurd h id
  | unbounded v => exact .inl ⟨v, rfl, by rw [hpacket], rfl⟩
  | bounded buf cap =>
      rw [hc] at h
      refine .inr ⟨buf, cap, rfl, h, ?_⟩
      simp only [hpacket]
      split
      · next hlt => exact .inl ⟨hlt, rfl, rfl⟩
      · next hge =>
        have hle := Nat.le_of_not_lt hge
        obtain ⟨y, rest, rfl⟩ := List.exists_cons_of_length_pos (Nat.lt_of_lt_of_le h hle)
        exact .inr ⟨y, rest, rfl, hle, rfl, rfl⟩

end BusCapture

/-- `BusCapture` as a buffer; there is nothing else to tell it. -/
def busCaptureBuffer : Buffer BusCapture (UInt64 × TapCall) PacketRecord Empty where
  packet := packetOf
  record := BusCapture.hear
  drain := BusCapture.drain
  control := fun c _ => c
  items := BusCapture.snapshot
  dropped := BusCapture.dropped
  Ok := BusCapture.Keeps
  ok_record := by
    intro c h call
    rcases BusCapture.hear_cases call h with ⟨v, -, hstore, -⟩ |
      ⟨buf, cap, -, hcap, ⟨-, hstore, -⟩ | ⟨y, rest, -, -, hstore, -⟩⟩
    · simp only [BusCapture.Keeps, hstore]
    · simpa only [BusCapture.Keeps, hstore] using hcap
    · simpa only [BusCapture.Keeps, hstore] using hcap
  ok_drain := by
    intro c h
    unfold BusCapture.Keeps at h
    unfold BusCapture.Keeps BusCapture.drain
    cases hc : c.store with
    | statsOnly =>
        rw [hc] at h
        exact absurd h id
    | unbounded v => trivial
    | bounded buf cap =>
        rw [hc] at h
        exact h
  ok_control := fun h _ => h
  records := by
    intro c h call
    rcases BusCapture.hear_cases call h with ⟨v, hc, hstore, hdropped⟩ |
      ⟨buf, cap, hc, -, ⟨-, hstore, hdropped⟩ | ⟨y, rest, rfl, -, hstore, hdropped⟩⟩
    · simp only [BusCapture.snapshot, hc, hstore, hdropped]
      exact .keep v c.dropped
    · simp only [BusCapture.snapshot, hc, hstore, hdropped]
      exact .keep buf c.dropped
    · simp only [BusCapture.snapshot, hc, hstore, hdropped]
      exact .forget y rest c.dropped
  drains := by
    intro c
    unfold BusCapture.drain BusCapture.snapshot
    cases hc : c.store <;> simp [hc]
  controls := fun _ _ => ⟨rfl, rfl⟩

namespace BusCapture

/-- The number of calls that were counted. -/
def counted (c : BusCapture) : ℕ := c.requests + c.responses + c.errors

theorem counted_hear (c : BusCapture) (call : UInt64 × TapCall) :
    (c.hear call).counted = c.counted + 1 := by
  obtain ⟨hreq, hrsp, herr⟩ := c.hearAll_counters [call]
  change (c.hearAll [call]).counted = c.counted + 1
  rw [counted, hreq, hrsp, herr, counted]
  obtain ⟨ts, call⟩ := call
  cases call with
  | onWrite bs | onRead bs | onError bs error =>
      simp [writeCalls, readCalls, errorCalls]
      omega

theorem counted_drain (c : BusCapture) : c.drain.2.counted = c.counted := by
  unfold drain
  cases c.store <;> rfl

/-- The counters together count what was recorded. -/
theorem counted_run {c : BusCapture} (h : c.counted = 0)
    (ops : List (Op (UInt64 × TapCall) Empty)) :
    (busCaptureBuffer.run c ops).state.counted = (busCaptureBuffer.run c ops).recorded.length := by
  refine busCaptureBuffer.run_induction (P := fun k => k.state.counted = k.recorded.length) h ?_ ops
  intro k op hk
  cases op with
  | record call =>
      change (k.state.hear call).counted = (k.recorded ++ [packetOf call]).length
      rw [counted_hear, hk, List.length_append, List.length_singleton]
  | drain =>
      change k.state.drain.2.counted = k.recorded.length
      rw [counted_drain, hk]
  | snapshot => exact hk
  | control c => exact c.elim

/-- The recorder keeps the last `cap` records. -/
def Bounds (cap : ℕ) (c : BusCapture) : Prop := ∃ buf, c.store = .bounded buf cap

/-- The recorder keeps all records, and never dropped one. -/
def KeepsAll (c : BusCapture) : Prop := (∃ v, c.store = .unbounded v) ∧ c.dropped = 0

theorem Bounds.hear {cap : ℕ} {c : BusCapture} (h : c.Bounds cap) (hcap : 0 < cap)
    (call : UInt64 × TapCall) : (c.hear call).Bounds cap ∧ (c.hear call).snapshot
      = (if c.snapshot.length < cap then c.snapshot else c.snapshot.tail) ++ [packetOf call] := by
  obtain ⟨buf, hbuf⟩ := h
  have hkeeps : c.Keeps := by
    rw [Keeps, hbuf]
    exact hcap
  rcases hear_cases call hkeeps with ⟨v, hc, -, -⟩ |
    ⟨buf', cap', hc, -, ⟨hlt, hstore, -⟩ | ⟨y, rest, rfl, hle, hstore, -⟩⟩
  · rw [hbuf] at hc
    cases hc
  · rw [hbuf] at hc
    cases hc
    refine ⟨⟨_, hstore⟩, ?_⟩
    simp only [snapshot, hstore, hbuf, if_pos hlt]
  · rw [hbuf] at hc
    cases hc
    refine ⟨⟨_, hstore⟩, ?_⟩
    simp only [snapshot, hstore, hbuf, if_neg (Nat.not_lt.2 hle), List.tail_cons]

theorem Bounds.step {cap : ℕ} (hcap : 0 < cap) (k : Run BusCapture PacketRecord)
    (op : Op (UInt64 × TapCall) Empty) (h : k.state.Bounds cap) :
    (busCaptureBuffer.step k op).state.Bounds cap := by
  cases op with
  | record call => exact (h.hear hcap call).1
  | drain =>
      obtain ⟨buf, hbuf⟩ := h
      refine ⟨[], ?_⟩
      change (BusCapture.drain k.state).2.store = _
      rw [BusCapture.drain, hbuf]
  | snapshot => exact h
  | control c => exact c.elim

theorem KeepsAll.hear {c : BusCapture} (h : c.KeepsAll) (call : UInt64 × TapCall) :
    (c.hear call).KeepsAll ∧ (c.hear call).snapshot = c.snapshot ++ [packetOf call] := by
  obtain ⟨⟨v, hv⟩, hdropped⟩ := h
  have hkeeps : c.Keeps := by
    rw [Keeps, hv]
    trivial
  rcases hear_cases call hkeeps with ⟨v', hc, hstore, hsame⟩ | ⟨buf, cap, hc, -⟩
  · rw [hv] at hc
    cases hc
    refine ⟨⟨⟨_, hstore⟩, hsame.trans hdropped⟩, ?_⟩
    simp only [snapshot, hstore, hv]
  · rw [hv] at hc
    cases hc

theorem KeepsAll.drain {c : BusCapture} (h : c.KeepsAll) :
    c.drain.2 = { c with store := .unbounded [] } := by
  obtain ⟨⟨v, hv⟩, -⟩ := h
  rw [BusCapture.drain, hv]

theorem KeepsAll.step (k : Run BusCapture PacketRecord) (op : Op (UInt64 × TapCall) Empty)
    (h : k.state.KeepsAll) : (busCaptureBuffer.step k op).state.KeepsAll := by
  cases op with
  | record call => exact (h.hear call).1
  | drain =>
      change k.state.drain.2.KeepsAll
      rw [h.drain]
      exact ⟨⟨[], rfl⟩, h.2⟩
  | snapshot => exact h
  | control c => exact c.elim

/-- A recorder that keeps all records has them all in every run. -/
theorem keepsAll_run (ops : List (Op (UInt64 × TapCall) Empty)) :
    (busCaptureBuffer.run unbounded ops).state.dropped = 0 ∧
      (busCaptureBuffer.run unbounded ops).state.snapshot
        = (busCaptureBuffer.run unbounded ops).since := by
  have hall : (busCaptureBuffer.run unbounded ops).state.KeepsAll ∧
      (busCaptureBuffer.run unbounded ops).state.snapshot
        = (busCaptureBuffer.run unbounded ops).since := by
    refine busCaptureBuffer.run_induction_of (I := KeepsAll)
      (P := fun k => k.state.snapshot = k.since) ⟨⟨[], rfl⟩, rfl⟩ rfl KeepsAll.step ?_ ops
    intro k op hkeeps hsnapshot
    cases op with
    | record call =>
        refine (hkeeps.hear call).2.trans ?_
        rw [hsnapshot]
        rfl
    | drain =>
        change k.state.drain.2.snapshot = []
        rw [hkeeps.drain]
        rfl
    | snapshot => exact hsnapshot
    | control c => exact c.elim
  exact ⟨hall.1.2, hall.2⟩

end BusCapture

/-! ### The recorder without counters -/

/-- A recorder in memory that can be switched between keeping all records and keeping the youngest
ones.  Its capacity is fixed when it is made, and one at least. -/
structure RingBufferCapture where
  records : List PacketRecord
  capacity : ℕ
  unbounded : Bool
  dropped : ℕ
  capacity_pos : 0 < capacity

namespace RingBufferCapture

def new (capacity : ℕ) : RingBufferCapture :=
  ⟨[], max capacity 1, false, 0, Nat.lt_of_lt_of_le Nat.one_pos (Nat.le_max_right ..)⟩

/-- The recorder that keeps all records; its capacity is `usize::MAX`. -/
def newUnbounded : RingBufferCapture :=
  ⟨[], 2 ^ usizeBits - 1, true, 0, by decide⟩

def snapshot (c : RingBufferCapture) : List PacketRecord := c.records

def drain (c : RingBufferCapture) : List PacketRecord × RingBufferCapture :=
  (c.records, { c with records := [] })

def setUnbounded (c : RingBufferCapture) : RingBufferCapture := { c with unbounded := true }

def setBounded (c : RingBufferCapture) : RingBufferCapture := { c with unbounded := false }

def record (c : RingBufferCapture) (ts : UInt64) (data : PacketData) : RingBufferCapture :=
  let record : PacketRecord := ⟨ts, data⟩
  if c.unbounded || decide (c.records.length < c.capacity) then
    { c with records := c.records ++ [record] }
  else { c with records := c.records.tail ++ [record], dropped := c.dropped + 1 }

def onWrite (c : RingBufferCapture) (bs : Bytes) (ts : UInt64) : RingBufferCapture :=
  c.record ts (.rawTx bs)

def onRead (c : RingBufferCapture) (bs : Bytes) (ts : UInt64) : RingBufferCapture :=
  c.record ts (.rawRx bs)

def onError (c : RingBufferCapture) (bs : Bytes) (error : String) (ts : UInt64) :
    RingBufferCapture := c.record ts (.rawError bs error)

/-- A call at some time. -/
def hear (c : RingBufferCapture) : UInt64 × TapCall → RingBufferCapture
  | (ts, .onWrite bs) => c.onWrite bs ts
  | (ts, .onRead bs) => c.onRead bs ts
  | (ts, .onError bs error) => c.onError bs error ts

/-- A switch between the two ways of keeping records. -/
inductive Mode
  | setBounded
  | setUnbounded
  deriving DecidableEq, Repr

def switch (c : RingBufferCapture) : Mode → RingBufferCapture
  | .setBounded => c.setBounded
  | .setUnbounded => c.setUnbounded

theorem hear_eq (c : RingBufferCapture) (call : UInt64 × TapCall) :
    c.hear call = c.record (packetOf call).timestampUs (packetOf call).data := by
  obtain ⟨ts, call⟩ := call
  cases call <;> rfl

theorem records_record (c : RingBufferCapture) (x : PacketRecord) :
    Records x (c.records, c.dropped)
      ((c.record x.timestampUs x.data).records, (c.record x.timestampUs x.data).dropped) := by
  unfold record
  split
  · exact .keep c.records c.dropped
  · next hfull =>
    simp only [Bool.or_eq_true, decide_eq_true_eq, not_or, Nat.not_lt] at hfull
    obtain ⟨y, rest, hrecords⟩ :=
      List.exists_cons_of_length_pos (Nat.lt_of_lt_of_le c.capacity_pos hfull.2)
    simp only [hrecords, List.tail_cons]
    exact .forget y rest c.dropped

end RingBufferCapture

/-- `RingBufferCapture` as a buffer that can be told its mode. -/
def ringBuffer :
    Buffer RingBufferCapture (UInt64 × TapCall) PacketRecord RingBufferCapture.Mode where
  packet := packetOf
  record := RingBufferCapture.hear
  drain := RingBufferCapture.drain
  control := RingBufferCapture.switch
  items := RingBufferCapture.snapshot
  dropped := RingBufferCapture.dropped
  Ok := fun _ => True
  ok_record := fun h _ => h
  ok_drain := fun h => h
  ok_control := fun h _ => h
  records := by
    intro c _ call
    rw [RingBufferCapture.hear_eq]
    exact c.records_record (packetOf call)
  drains := fun _ => ⟨rfl, rfl, rfl⟩
  controls := by
    intro c mode
    cases mode <;> exact ⟨rfl, rfl⟩

/-! ### Runs -/

/-- What is true of a recorder after a run: the records handed out and those it holds are a part of
the recorded ones in order, and the others were dropped and counted. -/
theorem ringBuffer_conserved {c : RingBufferCapture} (hrecords : c.records = [])
    (hdropped : c.dropped = 0)
    (ops : List (Op (UInt64 × TapCall) RingBufferCapture.Mode)) :
    Conserved ringBuffer (ringBuffer.run c ops) :=
  ringBuffer.conserved_run trivial hrecords hdropped ops

/-- **Capture buffers conserve records**, in every run of calls, drains, snapshots and, for the
recorder that has one, switches of the mode.  A bounded `BusCapture` holds the last records since it
was last drained, as many as it has room for; an unbounded one holds all of them. -/
theorem captures_conserve (capacity : ℕ) :
    (∀ ops,
      Conserved busCaptureBuffer (busCaptureBuffer.run (.bounded capacity) ops) ∧
      (busCaptureBuffer.run (.bounded capacity) ops).state.snapshot
        = (busCaptureBuffer.run (.bounded capacity) ops).since.rtake (max capacity 1) ∧
      (busCaptureBuffer.run (.bounded capacity) ops).state.snapshot.length
        = min (max capacity 1) (busCaptureBuffer.run (.bounded capacity) ops).since.length ∧
      (busCaptureBuffer.run (.bounded capacity) ops).state.counted
        = (busCaptureBuffer.run (.bounded capacity) ops).recorded.length) ∧
    (∀ ops,
      Conserved busCaptureBuffer (busCaptureBuffer.run .unbounded ops) ∧
      (busCaptureBuffer.run .unbounded ops).state.dropped = 0 ∧
      (busCaptureBuffer.run .unbounded ops).state.snapshot
        = (busCaptureBuffer.run .unbounded ops).since ∧
      (busCaptureBuffer.run .unbounded ops).state.counted
        = (busCaptureBuffer.run .unbounded ops).recorded.length) ∧
    ∀ ops,
      Conserved ringBuffer (ringBuffer.run (.new capacity) ops) ∧
      Conserved ringBuffer (ringBuffer.run .newUnbounded ops) := by
  have hcap : 0 < max capacity 1 := Nat.lt_of_lt_of_le Nat.one_pos (Nat.le_max_right ..)
  refine ⟨fun ops => ?_, fun ops => ?_, fun ops => ?_⟩
  · have hlast : (busCaptureBuffer.run (.bounded capacity) ops).state.snapshot
        = (busCaptureBuffer.run (.bounded capacity) ops).since.rtake (max capacity 1) :=
      busCaptureBuffer.rtake_run hcap (P := BusCapture.Bounds (max capacity 1)) ⟨[], rfl⟩ rfl
        (BusCapture.Bounds.step hcap) (fun _ call h => (h.hear hcap call).2) ops
    refine ⟨busCaptureBuffer.conserved_run (s := .bounded capacity) hcap rfl rfl ops, hlast, ?_,
      BusCapture.counted_run rfl ops⟩
    rw [hlast, List.rtake, List.length_drop]
    omega
  · obtain ⟨hdropped, hsnapshot⟩ := BusCapture.keepsAll_run ops
    exact ⟨busCaptureBuffer.conserved_run (s := .unbounded) trivial rfl rfl ops, hdropped,
      hsnapshot, BusCapture.counted_run rfl ops⟩
  · exact ⟨ringBuffer_conserved rfl rfl ops, ringBuffer_conserved rfl rfl ops⟩

end OmsModbus.Capture
