/-
**The capturing transport.**

`SniffIo` wraps a byte stream.  Without a tap it hands every call on.  With a tap a background
reader takes the bytes from the wrapped stream and sends every chunk into two channels: one that the
owner of the stream reads from, and one from which a second task reports to the tap.  Writes go
straight to the wrapped stream and are reported on the way.  A wrapped stream may be a `SniffIo`
again, so the operations are those of any stream; the two tasks of a layer take turns with the calls
of the owner in any order.

What an operation does outside the stream, to the tap and to the clock of the bus, is a list of
effects.  At the bottom of every stack is a raw transport, whose answers come from its environment.

Main definitions:

* `OmsModbus.Capture.AsyncIo` — what a byte stream can do;
* `OmsModbus.Capture.RawTransport` — the bottom of a stack;
* `OmsModbus.Capture.SniffIo` — a layer, with `new`, `withChannelCapacity`,
  `withTapChannelCapacity` and `replaceInner` to build it, its calls `pollRead` and `pollWrite`, and
  its tasks `Sniffing.activeReader` and `Sniffing.tapForwarder`;
* `OmsModbus.Capture.IoRun` — a stream in use, with what its owner and the tap have seen.

Main results:

* `OmsModbus.Capture.ioRun_passthrough` — a layer without a tap is invisible.
-/

import OmsModbus.SendRecv
import OmsModbus.SniffChannel

set_option relaxedAutoImplicit false
set_option autoImplicit false

namespace OmsModbus.Capture

/-! ### Streams -/

/-- The answer to a poll. -/
inductive Poll (α : Type)
  | ready (a : α)
  | pending
  deriving DecidableEq, Repr

/-- The buffer of a read: the bytes in it, and the room behind them. -/
structure ReadBuf where
  filled : Bytes
  remaining : ℕ

def ReadBuf.putSlice (buf : ReadBuf) (bs : Bytes) : ReadBuf :=
  ⟨buf.filled ++ bs, buf.remaining - bs.length⟩

/-- What a stream does outside itself: a call of the tap, or a touch of the bus timing. -/
inductive Effect
  | onRead (bs : Bytes)
  | onWrite (bs : Bytes)
  | touch
  deriving DecidableEq, Repr

/-- A read: its answer, the buffer after it, the stream after it, and what it did outside. -/
structure ReadPoll (τ : Type) where
  result : Poll (Except IoError Unit)
  buf : ReadBuf
  io : τ
  effects : List Effect

/-- A write: the answer is how many of the bytes were taken. -/
structure WritePoll (τ : Type) where
  result : Poll (Except IoError ℕ)
  io : τ
  effects : List Effect

/-- A byte stream: reads, writes, and the tasks that run in the background. -/
class AsyncIo (τ : Type) where
  Task : Type
  runTask : τ → Task → τ × List Effect
  pollRead : τ → ReadBuf → ReadPoll τ
  pollWrite : τ → Bytes → WritePoll τ

/-! ### Raw transports -/

/-- A raw transport: the answers that its environment has ready for the next reads and writes, and
all that was read from it and written to it. -/
structure RawTransport where
  incoming : List (Except IoError Bytes)
  accepting : List (Except IoError ℕ)
  read : Bytes
  written : Bytes

/-- What the environment does. -/
inductive RawEvent
  | arrive (answer : Except IoError Bytes)
  | accept (answer : Except IoError ℕ)

namespace RawTransport

/-- A transport that was just opened. -/
def new : RawTransport := ⟨[], [], [], []⟩

def runTask (raw : RawTransport) : RawEvent → RawTransport × List Effect
  | .arrive answer => ({ raw with incoming := raw.incoming ++ [answer] }, [])
  | .accept answer => ({ raw with accepting := raw.accepting ++ [answer] }, [])

/-- `part` was read of the next answer; what is left of it stays in front of the others. -/
def taken (raw : RawTransport) (part left : Bytes) (incoming : List (Except IoError Bytes)) :
    RawTransport :=
  { raw with
    incoming := if left = [] then incoming else .ok left :: incoming
    read := raw.read ++ part }

/-- A read takes what there is room for; no bytes stand for the end of the stream. -/
def pollRead (raw : RawTransport) (buf : ReadBuf) : ReadPoll RawTransport :=
  match raw.incoming with
  | [] => ⟨.pending, buf, raw, []⟩
  | .error e :: incoming => ⟨.ready (.error e), buf, { raw with incoming := incoming }, []⟩
  | .ok bs :: incoming =>
      ⟨.ready (.ok ()), buf.putSlice (bs.take buf.remaining),
        raw.taken (bs.take buf.remaining) (bs.drop buf.remaining) incoming, []⟩

/-- A write takes as many bytes as the environment allows. -/
def pollWrite (raw : RawTransport) (bs : Bytes) : WritePoll RawTransport :=
  match raw.accepting with
  | [] => ⟨.pending, raw, []⟩
  | .error e :: accepting => ⟨.ready (.error e), { raw with accepting := accepting }, []⟩
  | .ok n :: accepting =>
      ⟨.ready (.ok (min n bs.length)),
        { raw with accepting := accepting, written := raw.written ++ bs.take n }, []⟩

/-- The branches of a read with room for a byte. -/
theorem pollRead_cases (raw : RawTransport) (buf : ReadBuf) (hroom : 0 < buf.remaining) :
    raw.pollRead buf = ⟨.pending, buf, raw, []⟩ ∨
    (∃ e incoming, raw.incoming = .error e :: incoming ∧
      raw.pollRead buf = ⟨.ready (.error e), buf, { raw with incoming := incoming }, []⟩) ∨
    (∃ incoming, raw.incoming = .ok [] :: incoming ∧
      raw.pollRead buf = ⟨.ready (.ok ()), buf.putSlice [], raw.taken [] [] incoming, []⟩) ∨
    (∃ part left incoming, part ≠ [] ∧ raw.incoming = .ok (part ++ left) :: incoming ∧
      raw.pollRead buf
        = ⟨.ready (.ok ()), buf.putSlice part, raw.taken part left incoming, []⟩) := by
  rw [pollRead]
  cases hin : raw.incoming with
  | nil => exact .inl rfl
  | cons answer incoming =>
      right
      match answer with
      | .error e => exact .inl ⟨e, incoming, rfl, rfl⟩
      | .ok [] =>
        refine .inr (.inl ⟨incoming, rfl, ?_⟩)
        simp only [List.take_nil, List.drop_nil]
      | .ok (b :: bs) =>
        refine .inr (.inr ⟨(b :: bs).take buf.remaining, (b :: bs).drop buf.remaining, incoming, ?_,
          ?_, rfl⟩)
        · intro hnil
          have hlen := congrArg List.length hnil
          rw [List.length_take, List.length_cons, List.length_nil] at hlen
          omega
        · rw [List.take_append_drop]

end RawTransport

instance : AsyncIo RawTransport where
  Task := RawEvent
  runTask := RawTransport.runTask
  pollRead := RawTransport.pollRead
  pollWrite := RawTransport.pollWrite

/-! ### A layer -/

def DEFAULT_BUF_SIZE : ℕ := 4096
def DEFAULT_DATA_CHANNEL_CAPACITY : ℕ := 1024 * 1024
def DEFAULT_TAP_CHANNEL_CAPACITY : ℕ := 256 * 1024

/-- A layer that captures.  The two halves of the wrapped stream are one stream here; `pending` is
what did not fit into the buffer of the last read; of the two tasks it matters whether they have
ended. -/
structure Sniffing (τ : Type) where
  dataChannel : SniffChannel
  tapChannel : SniffChannel
  inner : τ
  readerFinished : Bool
  tapFinished : Bool
  pending : Option Bytes

inductive SniffState (τ : Type)
  | passthrough (inner : τ)
  | sniffing (s : Sniffing τ)

/-- A layer.  Of the tap and of the bus timing it matters whether there is one. -/
structure SniffIo (τ : Type) where
  tap : Bool
  bufSize : ℕ
  dataCapacity : ℕ
  tapCapacity : ℕ
  timing : Bool
  state : SniffState τ

namespace SniffIo

variable {τ : Type}

def startSniffing (inner : τ) (timing : Bool) (bufSize dataCapacity tapCapacity : ℕ) :
    SniffIo τ where
  tap := true
  bufSize := bufSize
  dataCapacity := dataCapacity
  tapCapacity := tapCapacity
  timing := timing
  state := .sniffing
    { dataChannel := .new dataCapacity
      tapChannel := .new tapCapacity
      inner := inner
      readerFinished := false
      tapFinished := false
      pending := none }

def new (inner : τ) (tap timing : Bool) : SniffIo τ :=
  if tap then
    startSniffing inner timing DEFAULT_BUF_SIZE DEFAULT_DATA_CHANNEL_CAPACITY
      DEFAULT_TAP_CHANNEL_CAPACITY
  else
    { tap := false
      bufSize := DEFAULT_BUF_SIZE
      dataCapacity := DEFAULT_DATA_CHANNEL_CAPACITY
      tapCapacity := DEFAULT_TAP_CHANNEL_CAPACITY
      timing := timing
      state := .passthrough inner }

def withChannelCapacity (io : SniffIo τ) (bytes : ℕ) : SniffIo τ :=
  { io with
    dataCapacity := bytes
    state :=
      match io.state with
      | .sniffing s => .sniffing { s with dataChannel := s.dataChannel.setCapacity bytes }
      | .passthrough inner => .passthrough inner }

def withTapChannelCapacity (io : SniffIo τ) (bytes : ℕ) : SniffIo τ :=
  { io with
    tapCapacity := bytes
    state :=
      match io.state with
      | .sniffing s => .sniffing { s with tapChannel := s.tapChannel.setCapacity bytes }
      | .passthrough inner => .passthrough inner }

/-- The bytes that were evicted from the data channel. -/
def dataDroppedBytes (io : SniffIo τ) : ℕ :=
  match io.state with
  | .sniffing s => s.dataChannel.droppedBytes
  | .passthrough _ => 0

/-- Another transport under the same layer. -/
def replaceInner (io : SniffIo τ) (inner : τ) : SniffIo τ :=
  if io.tap then startSniffing inner io.timing io.bufSize io.dataCapacity io.tapCapacity
  else { io with tap := false, state := .passthrough inner }

end SniffIo

/-! ### The tasks and the calls of a layer -/

namespace Sniffing

variable {τ : Type} [AsyncIo τ]

/-- A turn of the background reader.  Its buffer always has room for a byte. -/
def activeReader (s : Sniffing τ) (spare : ℕ) : Sniffing τ × List Effect :=
  if s.readerFinished then (s, [])
  else
    let p := AsyncIo.pollRead s.inner ⟨[], spare + 1⟩
    let s := { s with inner := p.io }
    match p.result with
    | .pending => (s, p.effects)
    | .ready (.ok ()) =>
        if p.buf.filled = [] then
          -- the end of the stream; the tap channel stays open for what is still in it
          ({ s with
              dataChannel := s.dataChannel.sendError ⟨.unexpectedEof, "transport closed"⟩
              readerFinished := true }, p.effects)
        else
          let dataChannel := s.dataChannel.send p.buf.filled
          ({ s with
              dataChannel := dataChannel
              tapChannel := s.tapChannel.send p.buf.filled
              readerFinished := dataChannel.isClosed }, p.effects)
    | .ready (.error e) =>
        ({ s with dataChannel := s.dataChannel.sendError e, readerFinished := true }, p.effects)

/-- A turn of the task that reports to the tap. -/
def tapForwarder (s : Sniffing τ) : Sniffing τ × List Effect :=
  if s.tapFinished then (s, [])
  else
    match s.tapChannel.pollRecv with
    | (.ok (some chunk), tapChannel) => ({ s with tapChannel := tapChannel }, [.onRead chunk])
    | (.ok none, tapChannel) => ({ s with tapChannel := tapChannel }, [])
    | (.error _, tapChannel) => ({ s with tapChannel := tapChannel, tapFinished := true }, [])

/-- As much of `data` as there is room for; the rest waits for the next read. -/
def deliver (s : Sniffing τ) (data : Bytes) (buf : ReadBuf) : ReadBuf × Sniffing τ :=
  let n := min data.length buf.remaining
  (buf.putSlice (data.take n),
    { s with pending := if n < data.length then some (data.drop n) else none })

/-- A read when nothing is left over from the last one. -/
def pollChannel (s : Sniffing τ) (buf : ReadBuf) :
    Poll (Except IoError Unit) × ReadBuf × Sniffing τ :=
  match s.dataChannel.pollRecv with
  | (.ok (some data), dataChannel) =>
      (.ready (.ok ()), { s with dataChannel := dataChannel }.deliver data buf)
  | (.ok none, dataChannel) =>
      if s.readerFinished then
        -- the reader has ended and left no error
        (.ready (.error ⟨.brokenPipe, "background reader terminated"⟩), buf,
          { s with dataChannel := dataChannel })
      else (.pending, buf, { s with dataChannel := dataChannel })
  | (.error e, dataChannel) =>
      (.ready (.error e), buf, { s with dataChannel := dataChannel })

end Sniffing

namespace SniffIo

variable {τ : Type} [AsyncIo τ]

/-- The tasks of a layer, and those below it. -/
inductive Task (β : Type)
  | activeReader (spare : ℕ)
  | tapForwarder
  | inner (task : β)

def runTask (io : SniffIo τ) (task : Task (AsyncIo.Task τ)) : SniffIo τ × List Effect :=
  match io.state with
  | .passthrough inner =>
    match task with
    | .inner task =>
        let (inner, effects) := AsyncIo.runTask inner task
        ({ io with state := .passthrough inner }, effects)
    | _ => (io, [])
  | .sniffing s =>
    match task with
    | .inner task =>
        let (inner, effects) := AsyncIo.runTask s.inner task
        ({ io with state := .sniffing { s with inner := inner } }, effects)
    | .activeReader spare =>
        let (s, effects) := s.activeReader spare
        ({ io with state := .sniffing s }, effects)
    | .tapForwarder =>
        let (s, effects) := s.tapForwarder
        ({ io with state := .sniffing s }, effects)

/-- The bus timing is told that bytes were moved. -/
def touch (io : SniffIo τ) (moved : Bool) : List Effect :=
  if io.timing ∧ moved then [.touch] else []

/-- A read; one that finds a leftover returns before the bus timing is told. -/
def pollRead (io : SniffIo τ) (buf : ReadBuf) : ReadPoll (SniffIo τ) :=
  match io.state with
  | .passthrough inner =>
      let p := AsyncIo.pollRead inner buf
      ⟨p.result, p.buf, { io with state := .passthrough p.io },
        p.effects ++ io.touch (p.result = .ready (.ok ()) ∧ p.buf.filled ≠ [])⟩
  | .sniffing s =>
    match s.pending with
    | some left =>
        let (buf, s) := s.deliver left buf
        ⟨.ready (.ok ()), buf, { io with state := .sniffing s }, []⟩
    | none =>
        let (result, buf, s) := s.pollChannel buf
        ⟨result, buf, { io with state := .sniffing s },
          io.touch (result = .ready (.ok ()) ∧ buf.filled ≠ [])⟩

/-- The bytes that were written are reported to the tap. -/
def report (io : SniffIo τ) (bs : Bytes) (result : Poll (Except IoError ℕ)) : List Effect :=
  match result with
  | .ready (.ok n) =>
      if n > 0 then (if io.tap then [.onWrite (bs.take n)] else []) ++ io.touch true else []
  | _ => []

def pollWrite (io : SniffIo τ) (bs : Bytes) : WritePoll (SniffIo τ) :=
  match io.state with
  | .passthrough inner =>
      let p := AsyncIo.pollWrite inner bs
      ⟨p.result, { io with state := .passthrough p.io }, p.effects ++ io.report bs p.result⟩
  | .sniffing s =>
      let p := AsyncIo.pollWrite s.inner bs
      ⟨p.result, { io with state := .sniffing { s with inner := p.io } },
        p.effects ++ io.report bs p.result⟩

instance : AsyncIo (SniffIo τ) where
  Task := Task (AsyncIo.Task τ)
  runTask := runTask
  pollRead := pollRead
  pollWrite := pollWrite

end SniffIo

/-! ### A stream in use -/

/-- What happens to a stream: a task takes its turn, or the owner reads or writes. -/
inductive IoOp (β : Type)
  | task (task : β)
  | pollRead (buf : ReadBuf)
  | pollWrite (bs : Bytes)

/-- A stream with what it did outside and what the reads of its owner brought. -/
structure IoRun (τ : Type) where
  io : τ
  effects : List Effect
  seen : List ReadEvent

namespace IoRun

variable {τ : Type}

/-- A stream that was just built. -/
def start (io : τ) : IoRun τ := ⟨io, [], []⟩

/-- What the owner gets from a read that leaves `buf'` of its buffer `buf`; while it waits it gets
nothing. -/
def seenBy (buf : ReadBuf) (result : Poll (Except IoError Unit)) (buf' : ReadBuf) :
    List ReadEvent :=
  match result with
  | .pending => []
  | .ready (.ok ()) => [.data (buf'.filled.drop buf.filled.length)]
  | .ready (.error e) => [.error e]

variable [AsyncIo τ]

def step (r : IoRun τ) : IoOp (AsyncIo.Task τ) → IoRun τ
  | .task task =>
      let (io, effects) := AsyncIo.runTask r.io task
      { r with io := io, effects := r.effects ++ effects }
  | .pollRead buf =>
      let p := AsyncIo.pollRead r.io buf
      { io := p.io, effects := r.effects ++ p.effects, seen := r.seen ++ seenBy buf p.result p.buf }
  | .pollWrite bs =>
      let p := AsyncIo.pollWrite r.io bs
      { r with io := p.io, effects := r.effects ++ p.effects }

def run (r : IoRun τ) (ops : List (IoOp (AsyncIo.Task τ))) : IoRun τ := ops.foldl step r

theorem run_append (r : IoRun τ) (ops ops' : List (IoOp (AsyncIo.Task τ))) :
    r.run (ops ++ ops') = (r.run ops).run ops' := List.foldl_append

end IoRun

/-- The reads that were reported. -/
def onReads : List Effect → List Bytes
  | [] => []
  | .onRead bs :: effects => bs :: onReads effects
  | _ :: effects => onReads effects

/-- The writes that were reported. -/
def onWrites : List Effect → List Bytes
  | [] => []
  | .onWrite bs :: effects => bs :: onWrites effects
  | _ :: effects => onWrites effects

@[simp] theorem onReads_append (effects effects' : List Effect) :
    onReads (effects ++ effects') = onReads effects ++ onReads effects' := by
  induction effects with
  | nil => rfl
  | cons effect effects ih =>
      cases effect with
      | onRead bs => exact congrArg (bs :: ·) ih
      | onWrite bs => exact ih
      | touch => exact ih

@[simp] theorem onWrites_append (effects effects' : List Effect) :
    onWrites (effects ++ effects') = onWrites effects ++ onWrites effects' := by
  induction effects with
  | nil => rfl
  | cons effect effects ih =>
      cases effect with
      | onRead bs => exact ih
      | onWrite bs => exact congrArg (bs :: ·) ih
      | touch => exact ih

/-! ### A layer without a tap -/

section Passthrough

variable {τ : Type}

/-- The run of a stream, seen through a layer without a tap. -/
def IoRun.through (r : IoRun τ) : IoRun (SniffIo τ) :=
  ⟨.new r.io false false, r.effects, r.seen⟩

/-- What an operation on a layer without a tap is below it. -/
def IoOp.below {β : Type} : IoOp (SniffIo.Task β) → List (IoOp β)
  | .task (.inner t) => [.task t]
  | .task _ => []
  | .pollRead buf => [.pollRead buf]
  | .pollWrite bs => [.pollWrite bs]

theorem SniffIo.report_new (inner : τ) (bs : Bytes) (result : Poll (Except IoError ℕ)) :
    (SniffIo.new inner false false).report bs result = [] := by
  match result with
  | .pending => rfl
  | .ready (.error e) => rfl
  | .ready (.ok n) =>
    rw [report]
    split <;> rfl

variable [AsyncIo τ]

theorem IoRun.step_through (r : IoRun τ) (op : IoOp (SniffIo.Task (AsyncIo.Task τ))) :
    r.through.step op = (r.run op.below).through := by
  match op with
  | .task (.inner t) => rfl
  | .task (.activeReader spare) =>
    change (⟨_, r.effects ++ [], r.seen⟩ : IoRun (SniffIo τ)) = r.through
    rw [List.append_nil]
    rfl
  | .task .tapForwarder =>
    change (⟨_, r.effects ++ [], r.seen⟩ : IoRun (SniffIo τ)) = r.through
    rw [List.append_nil]
    rfl
  | .pollRead buf =>
    change (⟨_, r.effects ++ ((AsyncIo.pollRead r.io buf).effects ++ []), _⟩ : IoRun (SniffIo τ))
      = (r.step (.pollRead buf)).through
    rw [List.append_nil]
    rfl
  | .pollWrite bs =>
    change (⟨_, r.effects ++ ((AsyncIo.pollWrite r.io bs).effects
      ++ (SniffIo.new r.io false false).report bs _), _⟩ : IoRun (SniffIo τ))
      = (r.step (.pollWrite bs)).through
    rw [SniffIo.report_new, List.append_nil]
    rfl

/-- **A layer without a tap is invisible.** -/
theorem ioRun_passthrough (r : IoRun τ) (ops : List (IoOp (SniffIo.Task (AsyncIo.Task τ)))) :
    r.through.run ops = (r.run (ops.flatMap IoOp.below)).through := by
  induction ops generalizing r with
  | nil => rfl
  | cons op ops ih =>
      rw [IoRun.run, List.foldl_cons, IoRun.step_through, List.flatMap_cons, IoRun.run_append]
      exact ih _

end Passthrough

end OmsModbus.Capture
