/-
**Which transfers the bus timing is told of.**

A layer with a bus timing tells it of a read when the buffer of the caller holds bytes after the
read, and of a write when bytes were taken.  Writes are told exactly when they move bytes.  Reads
are not: bytes that are left over from a chunk are handed out without a word to the timing, and a
read that brings nothing is told when the caller had put bytes into the buffer before.  Apart from
these two cases the timing holds, after every run, the time of the last call that moved bytes.

Main definitions:

* `OmsModbus.Capture.Plain` — what is asked of the wrapped transport;
* `OmsModbus.Capture.moved` — how many bytes a call moves;
* `OmsModbus.Capture.TouchExact` — a call tells the timing exactly when it moves bytes;
* `OmsModbus.Capture.Measured` — a call that is neither of the two cases;
* `OmsModbus.Capture.TimedRun` — a run with its timing.

Main results:

* `OmsModbus.Capture.touchExact_iff` — **one call**;
* `OmsModbus.Capture.touchExact_run` — **whole runs**, and the time that is recorded.
-/

import OmsModbus.BusTiming
import OmsModbus.SniffIo

set_option relaxedAutoImplicit false
set_option autoImplicit false

namespace OmsModbus.Capture

/-! ### The wrapped transport -/

/-- A transport as the traits describe it: a read appends to the buffer, and only a read that is
ready and no error appends anything.  It is not a layer with a timing itself. -/
structure Plain (τ : Type) [AsyncIo τ] : Prop where
  read : ∀ (io : τ) (buf : ReadBuf), ∃ bs,
    (AsyncIo.pollRead io buf).buf.filled = buf.filled ++ bs ∧
      ((AsyncIo.pollRead io buf).result ≠ .ready (.ok ()) → bs = [])
  readQuiet : ∀ (io : τ) (buf : ReadBuf), .touch ∉ (AsyncIo.pollRead io buf).effects
  writeQuiet : ∀ (io : τ) (bs : Bytes), .touch ∉ (AsyncIo.pollWrite io bs).effects
  taskQuiet : ∀ (io : τ) (task : AsyncIo.Task τ), .touch ∉ (AsyncIo.runTask io task).2

theorem RawTransport.plain : Plain RawTransport where
  read := by
    intro raw buf
    change ∃ bs, (raw.pollRead buf).buf.filled = buf.filled ++ bs ∧
      ((raw.pollRead buf).result ≠ .ready (.ok ()) → bs = [])
    unfold RawTransport.pollRead
    split
    · exact ⟨[], (List.append_nil _).symm, fun _ => rfl⟩
    · exact ⟨[], (List.append_nil _).symm, fun _ => rfl⟩
    · exact ⟨_, rfl, fun h => absurd rfl h⟩
  readQuiet := by
    intro raw buf
    change .touch ∉ (raw.pollRead buf).effects
    unfold RawTransport.pollRead
    split <;> exact List.not_mem_nil
  writeQuiet := by
    intro raw bs
    change .touch ∉ (raw.pollWrite bs).effects
    unfold RawTransport.pollWrite
    split <;> exact List.not_mem_nil
  taskQuiet := by
    intro raw task
    cases task <;> exact List.not_mem_nil

section Calls

variable {τ : Type}

/-! ### What a layer tests -/

theorem SniffIo.mem_touch {io : SniffIo τ} (hio : io.timing = true) (moved : Bool) :
    .touch ∈ io.touch moved ↔ moved = true := by
  cases moved <;> simp [SniffIo.touch, hio]

/-- What a write reports. -/
theorem SniffIo.touch_mem_report {io : SniffIo τ} (hio : io.timing = true) (bs : Bytes)
    (result : Poll (Except IoError ℕ)) :
    .touch ∈ io.report bs result ↔ 0 < (match result with | .ready (.ok n) => n | _ => 0) := by
  unfold SniffIo.report
  rcases result with (e | n) | _
  · simp
  · by_cases hn : n > 0
    · cases io.tap <;> simp [hn, SniffIo.mem_touch hio]
    · simp [hn]
  · simp

/-- The test of a read, that the buffer holds bytes afterwards, against what the read appended. -/
theorem filled_test_iff {ready : Prop} {filled bs : Bytes} (h : ¬ ready → bs = []) :
    ((ready ∧ filled ++ bs ≠ []) ↔ 0 < bs.length) ↔ filled = [] ∨ ¬ ready ∨ bs ≠ [] := by
  by_cases hbs : bs = []
  · subst hbs
    by_cases hready : ready <;> simp [hready]
  · have hready : ready := not_not.1 (mt h hbs)
    simp [hbs, hready, List.length_pos_iff]

/-- What a read does when nothing is left over: it hands out the oldest chunk, or nothing. -/
theorem Sniffing.pollChannel_cases (s : Sniffing τ) (buf : ReadBuf) :
    (∃ data queue, s.dataChannel.queue = data :: queue ∧
        (s.pollChannel buf).1 = .ready (.ok ()) ∧
        (s.pollChannel buf).2.1.filled
          = buf.filled ++ data.take (min data.length buf.remaining)) ∨
      (s.dataChannel.queue = [] ∧ (s.pollChannel buf).1 ≠ .ready (.ok ()) ∧
        (s.pollChannel buf).2.1.filled = buf.filled) := by
  unfold Sniffing.pollChannel
  rcases s.dataChannel.pollRecv_cases with ⟨data, queue, hq, hpoll⟩ | ⟨hq, e, -, hpoll⟩ |
    ⟨hq, -, -, hpoll⟩ | ⟨hq, -, -, hpoll⟩
  · rw [hpoll]
    exact .inl ⟨data, queue, hq, rfl, rfl⟩
  · rw [hpoll]
    exact .inr ⟨hq, by simp, rfl⟩
  · rw [hpoll]
    exact .inr ⟨hq, by simp, rfl⟩
  · rw [hpoll]
    simp only
    split
    · exact .inr ⟨hq, by simp, rfl⟩
    · exact .inr ⟨hq, by simp, rfl⟩

/-! ### Calls -/

variable [AsyncIo τ]

/-- The layer after an operation. -/
def next (io : SniffIo τ) (op : IoOp (AsyncIo.Task (SniffIo τ))) : SniffIo τ :=
  ((IoRun.start io).step op).io

/-- What an operation does outside the layer. -/
def effectsOf (io : SniffIo τ) (op : IoOp (AsyncIo.Task (SniffIo τ))) : List Effect :=
  ((IoRun.start io).step op).effects

/-- How many bytes an operation moves: those that a read appends to the buffer, and those that a
write takes.  The tasks in the background are no calls. -/
def moved (io : SniffIo τ) : IoOp (AsyncIo.Task (SniffIo τ)) → ℕ
  | .task _ => 0
  | .pollRead buf => (io.pollRead buf).buf.filled.length - buf.filled.length
  | .pollWrite bs =>
    match (io.pollWrite bs).result with
    | .ready (.ok n) => n
    | _ => 0

/-- An operation tells the timing exactly when it moves bytes. -/
def TouchExact (io : SniffIo τ) (op : IoOp (AsyncIo.Task (SniffIo τ))) : Prop :=
  .touch ∈ effectsOf io op ↔ 0 < moved io op

/-- A read that finds nothing left over from a chunk, or has no room for it, and that brings
something when the caller had put bytes into the buffer before. -/
def Measured (io : SniffIo τ) : IoOp (AsyncIo.Task (SniffIo τ)) → Prop
  | .pollRead buf =>
    match io.state with
    | .passthrough inner =>
        buf.filled = [] ∨ (AsyncIo.pollRead inner buf).result ≠ .ready (.ok ()) ∨
          (AsyncIo.pollRead inner buf).buf.filled ≠ buf.filled
    | .sniffing s =>
      match s.pending with
      | some left => left = [] ∨ buf.remaining = 0
      | none =>
          buf.filled = [] ∨ ∀ data ∈ s.dataChannel.queue.head?, data ≠ [] ∧ buf.remaining ≠ 0
  | _ => True

theorem effectsOf_pollRead (io : SniffIo τ) (buf : ReadBuf) :
    effectsOf io (.pollRead buf) = (io.pollRead buf).effects := List.nil_append _

theorem effectsOf_pollWrite (io : SniffIo τ) (bs : Bytes) :
    effectsOf io (.pollWrite bs) = (io.pollWrite bs).effects := List.nil_append _

/-- A read tells the timing exactly when it moves bytes if it is measured, and only then. -/
theorem touchExact_pollRead_iff (hτ : Plain τ) {io : SniffIo τ} (hio : io.timing = true)
    (buf : ReadBuf) : TouchExact io (.pollRead buf) ↔ Measured io (.pollRead buf) := by
  rw [TouchExact, effectsOf_pollRead, moved, Measured, SniffIo.pollRead]
  cases hstate : io.state with
  | passthrough inner =>
      obtain ⟨bs, hfilled, hbs⟩ := hτ.read inner buf
      have hquiet := hτ.readQuiet inner buf
      simp only [List.mem_append, hquiet, false_or, SniffIo.mem_touch hio, decide_eq_true_eq,
        hfilled, List.length_append, Nat.add_sub_cancel_left]
      rw [filled_test_iff hbs]
      simp
  | sniffing s =>
      cases hpending : s.pending with
      | some left =>
          simp only [hpending, List.not_mem_nil, false_iff, Sniffing.deliver, ReadBuf.putSlice,
            List.length_append, Nat.add_sub_cancel_left, List.length_take]
          rw [← List.length_eq_zero_iff]
          omega
      | none =>
          simp only [hpending, SniffIo.mem_touch hio, decide_eq_true_eq]
          rcases s.pollChannel_cases buf with ⟨data, queue, hq, hres, hfilled⟩ | ⟨hq, hres, hfilled⟩
          · rw [hres, hfilled, List.length_append, Nat.add_sub_cancel_left, hq]
            rw [filled_test_iff fun h => absurd rfl h]
            have htake : data.take (min data.length buf.remaining) ≠ []
                ↔ data ≠ [] ∧ buf.remaining ≠ 0 := by
              rw [← List.length_pos_iff, ← List.length_pos_iff, List.length_take]
              omega
            simp [htake]
          · simp [hres, hfilled, hq]

/-- A write tells the timing exactly when it moves bytes. -/
theorem touchExact_pollWrite (hτ : Plain τ) {io : SniffIo τ} (hio : io.timing = true)
    (bs : Bytes) : TouchExact io (.pollWrite bs) := by
  rw [TouchExact, effectsOf_pollWrite, moved, SniffIo.pollWrite]
  cases hstate : io.state with
  | passthrough inner =>
      have hquiet := hτ.writeQuiet inner bs
      simp only [List.mem_append, hquiet, false_or]
      exact SniffIo.touch_mem_report hio bs _
  | sniffing s =>
      have hquiet := hτ.writeQuiet s.inner bs
      simp only [List.mem_append, hquiet, false_or]
      exact SniffIo.touch_mem_report hio bs _

/-- The tasks in the background do not tell the timing. -/
theorem touch_not_mem_runTask (hτ : Plain τ) (io : SniffIo τ)
    (task : AsyncIo.Task (SniffIo τ)) : .touch ∉ effectsOf io (.task task) := by
  have heffects : effectsOf io (.task task) = (io.runTask task).2 := List.nil_append _
  rw [heffects]
  unfold SniffIo.runTask
  cases io.state with
  | passthrough inner =>
      cases task with
      | inner task => exact hτ.taskQuiet inner task
      | activeReader spare => exact List.not_mem_nil
      | tapForwarder => exact List.not_mem_nil
  | sniffing s =>
      cases task with
      | inner task => exact hτ.taskQuiet s.inner task
      | activeReader spare =>
          have hquiet := hτ.readQuiet s.inner ⟨[], spare + 1⟩
          simp only [Sniffing.activeReader]
          split
          · exact List.not_mem_nil
          · split
            · exact hquiet
            · split <;> exact hquiet
            · exact hquiet
      | tapForwarder =>
          simp only [Sniffing.tapForwarder]
          split
          · exact List.not_mem_nil
          · split <;> simp

/-- **One call.** -/
theorem touchExact_iff (hτ : Plain τ) {io : SniffIo τ} (hio : io.timing = true)
    (op : IoOp (AsyncIo.Task (SniffIo τ))) : TouchExact io op ↔ Measured io op := by
  cases op with
  | task task =>
      refine iff_of_true ?_ trivial
      exact iff_of_false (touch_not_mem_runTask hτ io task) (Nat.lt_irrefl 0)
  | pollRead buf => exact touchExact_pollRead_iff hτ hio buf
  | pollWrite bs => exact iff_of_true (touchExact_pollWrite hτ hio bs) trivial

/-- No operation takes the timing away. -/
theorem next_timing (io : SniffIo τ) (op : IoOp (AsyncIo.Task (SniffIo τ))) :
    (next io op).timing = io.timing := by
  cases op with
  | task task =>
      change (io.runTask task).1.timing = io.timing
      unfold SniffIo.runTask
      cases io.state <;> cases task <;> rfl
  | pollRead buf =>
      change (io.pollRead buf).io.timing = io.timing
      unfold SniffIo.pollRead
      cases io.state with
      | passthrough inner => rfl
      | sniffing s =>
          simp only
          split <;> rfl
  | pollWrite bs =>
      change (io.pollWrite bs).io.timing = io.timing
      unfold SniffIo.pollWrite
      cases io.state <;> rfl

/-! ### Runs -/

/-- A property of an operation and the layer before it, of every operation of a run. -/
def Along (P : SniffIo τ → IoOp (AsyncIo.Task (SniffIo τ)) → Prop) :
    SniffIo τ → List (ℕ × IoOp (AsyncIo.Task (SniffIo τ))) → Prop
  | _, [] => True
  | io, (_, op) :: ops => P io op ∧ Along P (next io op) ops

/-- A run with its timing, and the time of the last call that moved bytes. -/
structure TimedRun (τ : Type) where
  io : SniffIo τ
  timing : BusTiming
  lastMove : Option ℕ

namespace TimedRun

/-- A layer that was just built, with a new timing. -/
def start (io : SniffIo τ) (minSpacing : ℕ) : TimedRun τ := ⟨io, .custom minSpacing, none⟩

/-- An operation at some time. -/
def step (r : TimedRun τ) (op : ℕ × IoOp (AsyncIo.Task (SniffIo τ))) : TimedRun τ where
  io := next r.io op.2
  timing := if .touch ∈ effectsOf r.io op.2 then r.timing.touch op.1 else r.timing
  lastMove := if 0 < moved r.io op.2 then some op.1 else r.lastMove

def run (r : TimedRun τ) (ops : List (ℕ × IoOp (AsyncIo.Task (SniffIo τ)))) : TimedRun τ :=
  ops.foldl step r

/-- The timing holds the time of the last call that moved bytes, and 0 when there was none; the time
0 is recorded as 1. -/
def Recorded (r : TimedRun τ) : Prop := r.timing.lastEventUs = r.lastMove.elim 0 (max · 1)

theorem Recorded.step {r : TimedRun τ} {op : ℕ × IoOp (AsyncIo.Task (SniffIo τ))}
    (h : r.Recorded) (hop : TouchExact r.io op.2) : (r.step op).Recorded := by
  unfold Recorded TimedRun.step
  by_cases hmove : 0 < moved r.io op.2
  · simp only [if_pos hmove, if_pos (hop.2 hmove)]
    rfl
  · simp only [if_neg hmove, if_neg (mt hop.1 hmove)]
    exact h

end TimedRun

theorem along_iff {P Q : SniffIo τ → IoOp (AsyncIo.Task (SniffIo τ)) → Prop}
    (h : ∀ io, io.timing = true → ∀ op, P io op ↔ Q io op) {io : SniffIo τ}
    (hio : io.timing = true) (ops : List (ℕ × IoOp (AsyncIo.Task (SniffIo τ)))) :
    Along P io ops ↔ Along Q io ops := by
  induction ops generalizing io with
  | nil => exact Iff.rfl
  | cons op ops ih =>
      rw [Along, Along, h io hio, ih ((next_timing io op.2).trans hio)]

/-- A run of exact operations keeps the time of the last call that moved bytes. -/
theorem TimedRun.Recorded.run {r : TimedRun τ} (h : r.Recorded)
    {ops : List (ℕ × IoOp (AsyncIo.Task (SniffIo τ)))} (hops : Along TouchExact r.io ops) :
    (r.run ops).Recorded := by
  induction ops generalizing r with
  | nil => exact h
  | cons op ops ih => exact ih (h.step hops.1) hops.2

/-- **Whole runs**: every operation tells the timing exactly when it moves bytes, if and only if
every read is measured, and then the timing holds the time of the last call that moved bytes. -/
theorem touchExact_run (hτ : Plain τ) {io : SniffIo τ} (hio : io.timing = true) (minSpacing : ℕ)
    (ops : List (ℕ × IoOp (AsyncIo.Task (SniffIo τ)))) :
    (Along TouchExact io ops ↔ Along Measured io ops) ∧
      (Along Measured io ops → ((TimedRun.start io minSpacing).run ops).Recorded) := by
  have hexact : Along TouchExact io ops ↔ Along Measured io ops :=
    along_iff (fun io hio op => touchExact_iff hτ hio op) hio ops
  refine ⟨hexact, fun hmeasured => ?_⟩
  have hstart : (TimedRun.start io minSpacing).Recorded := rfl
  exact hstart.run (hexact.2 hmeasured)

end Calls

/-! ### Reads that are not measured -/

/-- A tapped layer around a transport that has a chunk of three bytes. -/
def chunkRun : List (ℕ × IoOp (AsyncIo.Task (SniffIo RawTransport))) :=
  [(0, .task (.inner (.arrive (.ok [1, 2, 3])))), (1, .task (.activeReader 7)),
    (2, .pollRead ⟨[], 2⟩)]

/-- The third byte is handed out without a word to the timing. -/
theorem not_touchExact_leftover :
    ¬ Along TouchExact (SniffIo.new RawTransport.new true true)
        (chunkRun ++ [(3, .pollRead ⟨[], 2⟩)]) := by
  rintro ⟨-, -, -, hread, -⟩
  revert hread
  rw [TouchExact]
  decide

/-- A run without a tap. -/
theorem touchExact_run_passthrough :
    (Along TouchExact (SniffIo.new RawTransport.new false true) chunkRun ↔
        Along Measured (SniffIo.new RawTransport.new false true) chunkRun) ∧
      (Along Measured (SniffIo.new RawTransport.new false true) chunkRun →
        ((TimedRun.start (SniffIo.new RawTransport.new false true) 1750).run chunkRun).Recorded) :=
  touchExact_run RawTransport.plain rfl 1750 chunkRun

end OmsModbus.Capture
