/-
**What the tap is told.**

A transport under a capturing layer is read by the background reader and written by the owner of the
layer.  This module keeps a log of what the transport answered, and compares it with the calls of
the tap.  A chunk goes through a channel and a second task before the tap hears of it, a write is
reported on the spot; neither is lost or told twice.  Of an error the tap hears nothing: the
background reader leaves it in the data channel, for the owner, and ends.

Main definitions:

* `OmsModbus.Capture.Logged` — a stream with a log of its answers;
* `OmsModbus.Capture.TapBooks` — the log against the calls of the tap;
* `OmsModbus.Capture.TapSeesAll` — the tap was told of everything in the log.

Main results:

* `OmsModbus.Capture.ioRun_tapBooks` — **every chunk and every write is on its way to the tap, in
  order**, or was dropped and counted;
* `OmsModbus.Capture.tap_sees_iff` — **the tap was told of everything exactly when there was no
  error**.
-/

import OmsModbus.BusCapture

set_option relaxedAutoImplicit false
set_option autoImplicit false

namespace OmsModbus.Capture

/-! ### A log -/

/-- What a stream answered: the bytes of a read or its error, the bytes that a write offered and how
many of them were taken or its error. -/
inductive IoEvent
  | read (answer : Except IoError Bytes)
  | write (bs : Bytes) (answer : Except IoError ℕ)
  deriving DecidableEq, Repr

/-- A stream with a log of its answers. -/
structure Logged (τ : Type) where
  io : τ
  log : List IoEvent

namespace Logged

variable {τ : Type}

/-- The entry of a read that leaves `buf'` of its buffer `buf`; while it waits there is none. -/
def readEvent (buf : ReadBuf) (result : Poll (Except IoError Unit)) (buf' : ReadBuf) :
    List IoEvent :=
  match result with
  | .pending => []
  | .ready (.ok ()) => [.read (.ok (buf'.filled.drop buf.filled.length))]
  | .ready (.error e) => [.read (.error e)]

/-- The entry of a write. -/
def writeEvent (bs : Bytes) (result : Poll (Except IoError ℕ)) : List IoEvent :=
  match result with
  | .pending => []
  | .ready answer => [.write bs answer]

variable [AsyncIo τ]

def runTask (l : Logged τ) (task : AsyncIo.Task τ) : Logged τ × List Effect :=
  let (io, effects) := AsyncIo.runTask l.io task
  (⟨io, l.log⟩, effects)

def pollRead (l : Logged τ) (buf : ReadBuf) : ReadPoll (Logged τ) :=
  let p := AsyncIo.pollRead l.io buf
  ⟨p.result, p.buf, ⟨p.io, l.log ++ readEvent buf p.result p.buf⟩, p.effects⟩

def pollWrite (l : Logged τ) (bs : Bytes) : WritePoll (Logged τ) :=
  let p := AsyncIo.pollWrite l.io bs
  ⟨p.result, ⟨p.io, l.log ++ writeEvent bs p.result⟩, p.effects⟩

instance : AsyncIo (Logged τ) where
  Task := AsyncIo.Task τ
  runTask := runTask
  pollRead := pollRead
  pollWrite := pollWrite

end Logged

/-- The chunks in a log. -/
def chunksRead (log : List IoEvent) : List Bytes :=
  log.filterMap fun
    | .read (.ok bs) => if bs = [] then none else some bs
    | _ => none

/-- The errors of the reads in a log. -/
def readErrors (log : List IoEvent) : List IoError :=
  log.filterMap fun
    | .read (.error e) => some e
    | _ => none

/-- What the writes in a log took, where they took anything. -/
def acceptedWrites (log : List IoEvent) : List Bytes :=
  log.filterMap fun
    | .write bs (.ok n) => if n > 0 then some (bs.take n) else none
    | _ => none

section Log

variable (log log' : List IoEvent)

@[simp] theorem chunksRead_append : chunksRead (log ++ log') = chunksRead log ++ chunksRead log' :=
  List.filterMap_append

@[simp] theorem acceptedWrites_append :
    acceptedWrites (log ++ log') = acceptedWrites log ++ acceptedWrites log' :=
  List.filterMap_append

@[simp] theorem acceptedWrites_read (answer : Except IoError Bytes) :
    acceptedWrites [.read answer] = [] := rfl

@[simp] theorem chunksRead_error (e : IoError) : chunksRead [.read (.error e)] = [] := rfl

@[simp] theorem chunksRead_eof : chunksRead [.read (.ok [])] = [] := rfl

theorem chunksRead_writeEvent (bs : Bytes) (result : Poll (Except IoError ℕ)) :
    chunksRead (Logged.writeEvent bs result) = [] := by
  cases result <;> rfl

theorem chunksRead_chunk {bs : Bytes} (hne : bs ≠ []) : chunksRead [.read (.ok bs)] = [bs] := by
  cases bs with
  | nil => exact absurd rfl hne
  | cons b bs => rfl

end Log

/-! ### The log against the calls -/

/-- The log of the transport against the calls of the tap: the chunks went into the tap channel,
which accounts for each of them, and the writes were reported. -/
structure TapBooks (s : Sniffing (Logged RawTransport)) (effects : List Effect) : Prop where
  tap : (ChannelRun.mk s.tapChannel (chunksRead s.inner.log) (onReads effects)).Conserves
  written : onWrites effects = acceptedWrites s.inner.log

/-- The branches of a logged read with room for a byte. -/
theorem Logged.pollRead_cases (l : Logged RawTransport) (buf : ReadBuf) (hroom : 0 < buf.remaining) :
    (∃ io, AsyncIo.pollRead l buf = ⟨.pending, buf, ⟨io, l.log⟩, []⟩) ∨
    (∃ e io, AsyncIo.pollRead l buf
      = ⟨.ready (.error e), buf, ⟨io, l.log ++ [.read (.error e)]⟩, []⟩) ∨
    (∃ part io, AsyncIo.pollRead l buf
      = ⟨.ready (.ok ()), buf.putSlice part, ⟨io, l.log ++ [.read (.ok part)]⟩, []⟩) := by
  change (∃ io, l.pollRead buf = _) ∨ (∃ e io, l.pollRead buf = _) ∨ ∃ part io, l.pollRead buf = _
  simp only [pollRead, AsyncIo.pollRead]
  rcases l.io.pollRead_cases buf hroom with hpoll | ⟨e, incoming, -, hpoll⟩ |
    ⟨incoming, -, hpoll⟩ | ⟨part, left, incoming, -, -, hpoll⟩
  · rw [hpoll]
    exact .inl ⟨l.io, by simp [readEvent]⟩
  · rw [hpoll]
    exact .inr (.inl ⟨e, _, rfl⟩)
  · rw [hpoll]
    exact .inr (.inr ⟨[], l.io.taken [] [] incoming, by simp [readEvent, ReadBuf.putSlice]⟩)
  · rw [hpoll]
    exact .inr (.inr ⟨part, l.io.taken part left incoming, by
      simp [readEvent, ReadBuf.putSlice]⟩)

theorem Logged.pollWrite_eq (l : Logged RawTransport) (bs : Bytes) :
    ∃ result io, AsyncIo.pollWrite l bs = ⟨result, ⟨io, l.log ++ writeEvent bs result⟩, []⟩ := by
  change ∃ result io, l.pollWrite bs = _
  simp only [pollWrite, AsyncIo.pollWrite, RawTransport.pollWrite]
  cases l.io.accepting with
  | nil => exact ⟨_, _, rfl⟩
  | cons answer accepting => cases answer <;> exact ⟨_, _, rfl⟩

/-- A turn of the background reader sends what it reads into the tap channel, and reports nothing
itself. -/
theorem Sniffing.activeReader_log (s : Sniffing (Logged RawTransport)) (spare : ℕ) :
    ∃ s', s.activeReader spare = (s', []) ∧
      acceptedWrites s'.inner.log = acceptedWrites s.inner.log ∧
      ((s'.tapChannel = s.tapChannel ∧ chunksRead s'.inner.log = chunksRead s.inner.log) ∨
        ∃ chunk, s'.tapChannel = s.tapChannel.send chunk ∧
          chunksRead s'.inner.log = chunksRead s.inner.log ++ [chunk]) := by
  have hbuf : ∀ part : Bytes, (ReadBuf.putSlice ⟨[], spare + 1⟩ part).filled = part := fun _ => rfl
  rw [activeReader]
  split
  · exact ⟨s, rfl, rfl, .inl ⟨rfl, rfl⟩⟩
  · rcases s.inner.pollRead_cases ⟨[], spare + 1⟩ (Nat.succ_pos spare) with ⟨io, hpoll⟩ |
      ⟨e, io, hpoll⟩ | ⟨part, io, hpoll⟩
    · rw [hpoll]
      exact ⟨_, rfl, rfl, .inl ⟨rfl, rfl⟩⟩
    · rw [hpoll]
      exact ⟨_, rfl, by simp, .inl ⟨rfl, by simp⟩⟩
    · rw [hpoll]
      simp only [hbuf]
      by_cases hpart : part = []
      · rw [if_pos hpart, hpart]
        exact ⟨_, rfl, by simp, .inl ⟨rfl, by simp⟩⟩
      · rw [if_neg hpart]
        refine ⟨_, rfl, by simp, .inr ⟨part, rfl, ?_⟩⟩
        rw [chunksRead_append, chunksRead_chunk hpart]

/-- What a layer with a tap reports of a write is what the log has of it. -/
theorem SniffIo.report_calls {io : SniffIo (Logged RawTransport)} (htap : io.tap = true)
    (bs : Bytes) (result : Poll (Except IoError ℕ)) :
    onReads (io.report bs result) = [] ∧
      onWrites (io.report bs result) = acceptedWrites (Logged.writeEvent bs result) := by
  cases result with
  | pending => exact ⟨rfl, rfl⟩
  | ready answer =>
      cases answer with
      | error e => exact ⟨rfl, rfl⟩
      | ok n =>
          rw [SniffIo.report]
          by_cases hn : n > 0
          · have hlog : acceptedWrites (Logged.writeEvent bs (.ready (.ok n))) = [bs.take n] := by
              simp [Logged.writeEvent, acceptedWrites, hn]
            simp only [if_pos hn, htap, if_true, SniffIo.touch, hlog]
            split <;> exact ⟨rfl, rfl⟩
          · simp [hn, Logged.writeEvent, acceptedWrites, onReads, onWrites]

namespace TapBooks

variable {s : Sniffing (Logged RawTransport)} {effects : List Effect}

theorem activeReader (h : TapBooks s effects) (spare : ℕ) :
    TapBooks (s.activeReader spare).1 (effects ++ (s.activeReader spare).2) := by
  obtain ⟨s', heq, hwrites, ⟨htap, hchunks⟩ | ⟨chunk, htap, hchunks⟩⟩ := s.activeReader_log spare
  · rw [heq, List.append_nil]
    refine ⟨?_, by rw [hwrites, h.written]⟩
    rw [htap, hchunks]
    exact h.tap
  · rw [heq, List.append_nil]
    refine ⟨?_, by rw [hwrites, h.written]⟩
    rw [htap, hchunks]
    exact ChannelRun.step_conserves h.tap (.send chunk)

theorem tapForwarder (h : TapBooks s effects) :
    TapBooks s.tapForwarder.1 (effects ++ s.tapForwarder.2) := by
  have htap := ChannelRun.step_conserves h.tap .pollRecv
  rw [ChannelRun.step] at htap
  rw [Sniffing.tapForwarder]
  split
  · rw [List.append_nil]
    exact h
  · split
    · next chunk tapChannel hpoll =>
      simp only [hpoll] at htap
      refine ⟨?_, ?_⟩
      · rw [onReads_append]
        exact htap
      · rw [onWrites_append]
        simpa [onWrites] using h.written
    · next tapChannel hpoll =>
      simp only [hpoll] at htap
      rw [List.append_nil]
      exact ⟨htap, h.written⟩
    · next e tapChannel hpoll =>
      simp only [hpoll] at htap
      rw [List.append_nil]
      exact ⟨htap, h.written⟩

/-- Touching the bus timing is no call. -/
theorem touch (h : TapBooks s effects) (io : SniffIo (Logged RawTransport)) (moved : Bool) :
    TapBooks s (effects ++ io.touch moved) := by
  rw [SniffIo.touch]
  split
  · refine ⟨?_, ?_⟩
    · rw [onReads_append]
      simpa [onReads] using h.tap
    · rw [onWrites_append]
      simpa [onWrites] using h.written
  · rw [List.append_nil]
    exact h

/-- A read of the owner concerns the data channel only. -/
theorem pollRead {io : SniffIo (Logged RawTransport)} (h : TapBooks s effects)
    (hstate : io.state = .sniffing s) (buf : ReadBuf) :
    ∃ s', (io.pollRead buf).io = { io with state := .sniffing s' } ∧
      TapBooks s' (effects ++ (io.pollRead buf).effects) := by
  simp only [SniffIo.pollRead, hstate]
  cases hleft : s.pending with
  | some left =>
      refine ⟨_, rfl, ?_⟩
      rw [List.append_nil]
      exact ⟨h.tap, h.written⟩
  | none =>
      refine ⟨_, rfl, touch ?_ io _⟩
      rw [Sniffing.pollChannel]
      split
      · exact ⟨h.tap, h.written⟩
      · split
        · exact ⟨h.tap, h.written⟩
        · exact ⟨h.tap, h.written⟩
      · exact ⟨h.tap, h.written⟩

/-- A write of the owner, when the layer has a tap. -/
theorem pollWrite {io : SniffIo (Logged RawTransport)} (h : TapBooks s effects)
    (hstate : io.state = .sniffing s) (htap : io.tap = true) (bs : Bytes) :
    ∃ s', (io.pollWrite bs).io = { io with state := .sniffing s' } ∧
      TapBooks s' (effects ++ (io.pollWrite bs).effects) := by
  obtain ⟨result, inner, hpoll⟩ := s.inner.pollWrite_eq bs
  obtain ⟨hreads, hwrites⟩ := SniffIo.report_calls htap bs result
  simp only [SniffIo.pollWrite, hstate, hpoll, List.nil_append]
  refine ⟨_, rfl, ?_, ?_⟩
  · rw [onReads_append, hreads, List.append_nil]
    simp only [chunksRead_append, chunksRead_writeEvent, List.append_nil]
    exact h.tap
  · rw [onWrites_append, hwrites, h.written]
    exact (acceptedWrites_append _ _).symm

end TapBooks

/-- A capturing layer with a tap over a logged transport, in use. -/
def IoRun.TapBooked (r : IoRun (SniffIo (Logged RawTransport))) : Prop :=
  r.io.tap = true ∧ ∃ s, r.io.state = .sniffing s ∧ TapBooks s r.effects

/-- Every operation keeps the log and the calls together. -/
theorem IoRun.TapBooked.step {r : IoRun (SniffIo (Logged RawTransport))} (h : r.TapBooked)
    (op : IoOp (SniffIo.Task RawEvent)) : (r.step op).TapBooked := by
  obtain ⟨htap, s, hstate, hbooks⟩ := h
  cases op with
  | task t =>
      simp only [IoRun.step, AsyncIo.runTask, SniffIo.runTask, hstate]
      cases t with
      | activeReader spare => exact ⟨htap, _, rfl, hbooks.activeReader spare⟩
      | tapForwarder => exact ⟨htap, _, rfl, hbooks.tapForwarder⟩
      | inner event =>
          refine ⟨htap, _, rfl, ?_⟩
          cases event with
          | arrive answer =>
              simp only [AsyncIo.runTask, Logged.runTask, RawTransport.runTask, List.append_nil]
              exact ⟨hbooks.tap, hbooks.written⟩
          | accept answer =>
              simp only [AsyncIo.runTask, Logged.runTask, RawTransport.runTask, List.append_nil]
              exact ⟨hbooks.tap, hbooks.written⟩
  | pollRead buf =>
      obtain ⟨s', hio, hbooks'⟩ := hbooks.pollRead hstate buf
      refine ⟨?_, s', ?_, hbooks'⟩
      · change (r.io.pollRead buf).io.tap = true
        rw [hio]
        exact htap
      · change (r.io.pollRead buf).io.state = .sniffing s'
        rw [hio]
  | pollWrite bs =>
      obtain ⟨s', hio, hbooks'⟩ := hbooks.pollWrite hstate htap bs
      refine ⟨?_, s', ?_, hbooks'⟩
      · change (r.io.pollWrite bs).io.tap = true
        rw [hio]
        exact htap
      · change (r.io.pollWrite bs).io.state = .sniffing s'
        rw [hio]

/-- **Every chunk and every write is on its way to the tap, in order**, or was dropped and
counted. -/
theorem ioRun_tapBooks {r : IoRun (SniffIo (Logged RawTransport))} (h : r.TapBooked)
    (ops : List (IoOp (SniffIo.Task RawEvent))) : (r.run ops).TapBooked := by
  induction ops generalizing r with
  | nil => exact h
  | cons op ops ih => exact ih (h.step op)

/-! ### What the tap sees -/

/-- A capturing layer that was just built over a transport that was just opened. -/
def IoRun.logged (timing : Bool) (bufSize dataCapacity tapCapacity : ℕ) :
    IoRun (SniffIo (Logged RawTransport)) :=
  .start (.startSniffing ⟨.new, []⟩ timing bufSize dataCapacity tapCapacity)

theorem IoRun.logged_tapBooked (timing : Bool) (bufSize dataCapacity tapCapacity : ℕ) :
    (logged timing bufSize dataCapacity tapCapacity).TapBooked :=
  ⟨rfl, _, rfl, ChannelRun.new_conserves tapCapacity, rfl⟩

/-- The tap was told of everything in the log: of each chunk, of each write, and of each error; and
a recorder behind the tap has counted them. -/
structure TapSeesAll (log : List IoEvent) (calls : List TapCall) : Prop where
  reads : readCalls calls = chunksRead log
  writes : writeCalls calls = acceptedWrites log
  errors : (errorCalls calls).length = (readErrors log).length
  counted : ∀ (c : BusCapture) (stamped : List (UInt64 × TapCall)), stamped.map Prod.snd = calls →
    (c.hearAll stamped).requests = c.requests + (acceptedWrites log).length ∧
      (c.hearAll stamped).responses = c.responses + (chunksRead log).length ∧
      (c.hearAll stamped).errors = c.errors + (readErrors log).length

/-- **The tap was told of everything exactly when there was no error**, once its channel has dropped
nothing and is empty. -/
theorem tap_sees_iff (timing : Bool) (bufSize dataCapacity tapCapacity : ℕ)
    (ops : List (IoOp (SniffIo.Task RawEvent))) (s : Sniffing (Logged RawTransport))
    (hstate : ((IoRun.logged timing bufSize dataCapacity tapCapacity).run ops).io.state
      = .sniffing s)
    (hkept : s.tapChannel.droppedChunks = 0) (hcaught : s.tapChannel.queue = []) :
    TapSeesAll s.inner.log
        (tapCalls ((IoRun.logged timing bufSize dataCapacity tapCapacity).run ops).effects) ↔
      readErrors s.inner.log = [] := by
  obtain ⟨-, s', hstate', hbooks⟩ :=
    ioRun_tapBooks (IoRun.logged_tapBooked timing bufSize dataCapacity tapCapacity) ops
  rw [hstate] at hstate'
  cases hstate'
  generalize ((IoRun.logged timing bufSize dataCapacity tapCapacity).run ops).effects = effects
    at hbooks ⊢
  have hreads : onReads effects = chunksRead s.inner.log := by
    have heq := hbooks.tap.received_eq hkept
    simp only [hcaught, List.append_nil] at heq
    exact heq
  constructor
  · intro h
    have herrors := h.errors
    rw [errorCalls_tapCalls, List.length_nil] at herrors
    exact List.length_eq_zero_iff.1 herrors.symm
  · intro hnone
    refine ⟨?_, ?_, ?_, ?_⟩
    · rw [readCalls_tapCalls, hreads]
    · rw [writeCalls_tapCalls, hbooks.written]
    · rw [errorCalls_tapCalls, hnone]
      rfl
    · intro c stamped hstamped
      obtain ⟨hrequests, hresponses, herrors⟩ := c.hearAll_counters stamped
      rw [hrequests, hresponses, herrors, hstamped, writeCalls_tapCalls, readCalls_tapCalls,
        errorCalls_tapCalls, hbooks.written, hreads, hnone]
      exact ⟨rfl, rfl, rfl⟩

/-- A chunk is read and reported, and of a write one byte is taken. -/
theorem tap_sees_iff_exchange :
    let ops : List (IoOp (SniffIo.Task RawEvent)) :=
      [.task (.inner (.arrive (.ok [1, 2]))), .task (.activeReader 7),
        .task (.inner (.accept (.ok 1))), .pollWrite [3, 4], .task .tapForwarder]
    let r := (IoRun.logged false 4096 16 16).run ops
    ∃ s, r.io.state = .sniffing s ∧
      (TapSeesAll s.inner.log (tapCalls r.effects) ↔ readErrors s.inner.log = []) :=
  ⟨_, rfl, tap_sees_iff false 4096 16 16 _ _ rfl rfl rfl⟩

/-- The transport fails: the tap hears nothing of it. -/
theorem tap_misses_error :
    let ops : List (IoOp (SniffIo.Task RawEvent)) :=
      [.task (.inner (.arrive (.error ⟨.connectionReset, "reset"⟩))), .task (.activeReader 7),
        .task .tapForwarder]
    let r := (IoRun.logged false 4096 16 16).run ops
    ∃ s, r.io.state = .sniffing s ∧ s.tapChannel.droppedChunks = 0 ∧ s.tapChannel.queue = [] ∧
      readErrors s.inner.log = [⟨.connectionReset, "reset"⟩] ∧
      ¬ TapSeesAll s.inner.log (tapCalls r.effects) :=
  ⟨_, rfl, rfl, rfl, rfl, fun h => absurd h.errors (by decide)⟩

end OmsModbus.Capture
