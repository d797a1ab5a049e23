/-
**Recording through a channel.**

So that slow recording does not hold up the line, a tap sends its records into an unbounded channel,
and a task takes them out again and hands them to a sink, which the user provides.  The task ends
when the tap is gone and the channel is empty; it is cancelled when its handle is dropped, and the
records that still are in the channel go with it.  Tap, task, handle and what the sink does by
itself interleave in any way.

Main definitions:

* `OmsModbus.Capture.RecordSink` — a sink, and what it does by itself;
* `OmsModbus.Capture.ChannelRecorder` — the tap, the channel, the task and its handle;
* `OmsModbus.Capture.RecorderRun` — the same with the records it was told of, and what became of
  them.

Main results:

* `OmsModbus.Capture.RecorderRun.Inv.step` — what every event keeps;
* `OmsModbus.Capture.RecorderRun.inv_run` — the same for runs;
* `OmsModbus.Capture.channelRecorder_run` — **no record is lost, doubled or out of order** before
  the handle is dropped, and what the sink gets is the same as without the channel.
-/

import OmsModbus.CaptureRecords

set_option relaxedAutoImplicit false
set_option autoImplicit false

namespace OmsModbus.Capture

variable {σ ε : Type}

/-! ### Sinks -/

/-- A sink for records.  It may have threads of its own, whose steps are the events `ε`. -/
structure RecordSink (σ ε : Type) where
  onPacket : PacketRecord → σ → σ
  own : ε → σ → σ
  drop : σ → σ

/-- What happens to a sink. -/
inductive SinkEvent (ε : Type)
  | packet (record : PacketRecord)
  | own (e : ε)
  | drop

namespace RecordSink

def step (sink : RecordSink σ ε) (s : σ) : SinkEvent ε → σ
  | .packet record => sink.onPacket record s
  | .own e => sink.own e s
  | .drop => sink.drop s

def run (sink : RecordSink σ ε) (s : σ) (events : List (SinkEvent ε)) : σ :=
  events.foldl sink.step s

theorem step_run {sink : RecordSink σ ε} {s s' : σ} {events : List (SinkEvent ε)}
    (h : s' = sink.run s events) (e : SinkEvent ε) :
    sink.step s' e = sink.run s (events ++ [e]) := by
  rw [h, run, run, List.foldl_append]
  rfl

end RecordSink

/-- What may happen to a sink that belongs to a task: after it was dropped it is not called, and not
dropped again. -/
inductive SinkHistory : List (SinkEvent ε) → Bool → Prop
  | nil : SinkHistory [] true
  | packet {events : List (SinkEvent ε)} (record : PacketRecord) (h : SinkHistory events true) :
      SinkHistory (events ++ [.packet record]) true
  | own {events : List (SinkEvent ε)} {owned : Bool} (e : ε) (h : SinkHistory events owned) :
      SinkHistory (events ++ [.own e]) owned
  | drop {events : List (SinkEvent ε)} (h : SinkHistory events true) :
      SinkHistory (events ++ [.drop]) false

/-- The records a sink is called with. -/
def packets (events : List (SinkEvent ε)) : List PacketRecord :=
  events.filterMap fun
    | .packet record => some record
    | .own _ | .drop => none

theorem packets_packet (events : List (SinkEvent ε)) (record : PacketRecord) :
    packets (events ++ [.packet record]) = packets events ++ [record] := List.filterMap_append

theorem packets_own (events : List (SinkEvent ε)) (e : ε) :
    packets (events ++ [.own e]) = packets events :=
  List.filterMap_append.trans (List.append_nil _)

theorem packets_drop (events : List (SinkEvent ε)) : packets (events ++ [.drop]) = packets events :=
  List.filterMap_append.trans (List.append_nil _)

/-! ### The recorder -/

/-- A tap that records through a channel.  The task owns the receiver and the sink, so all three are
gone together. -/
structure ChannelRecorder (σ : Type) where
  tap : Bool
  queue : List PacketRecord
  dropped : UInt64
  handle : Bool
  task : Bool
  sink : σ

/-- What may happen next: a call of the tap, its end, a turn of the task, the end of the handle, the
cancellation of the task, or a step of the sink by itself. -/
inductive RecorderEvent (ε : Type)
  | tap (ts : UInt64) (call : TapCall)
  | dropTap
  | recv
  | dropHandle
  | cancel
  | own (e : ε)

namespace ChannelRecorder

/-- Spawning the task. -/
def spawn (s : σ) : ChannelRecorder σ where
  tap := true
  queue := []
  dropped := 0
  handle := true
  task := true
  sink := s

/-- The tap sends a record, which fails when the receiver is gone. -/
def send (c : ChannelRecorder σ) (record : PacketRecord) : ChannelRecorder σ :=
  if c.task then { c with queue := c.queue ++ [record] } else { c with dropped := c.dropped + 1 }

/-- A turn of the task: it takes a record out and calls the sink, or ends after the tap. -/
def recv (sink : RecordSink σ ε) (c : ChannelRecorder σ) : ChannelRecorder σ :=
  if c.task then
    match c.queue with
    | record :: queue => { c with queue := queue, sink := sink.onPacket record c.sink }
    | [] => if c.tap then c else { c with task := false, sink := sink.drop c.sink }
  else c

/-- The runtime drops the task, after its handle. -/
def cancel (sink : RecordSink σ ε) (c : ChannelRecorder σ) : ChannelRecorder σ :=
  if c.task && !c.handle then { c with task := false, queue := [], sink := sink.drop c.sink } else c

def step (sink : RecordSink σ ε) (c : ChannelRecorder σ) : RecorderEvent ε → ChannelRecorder σ
  | .tap ts call => if c.tap then c.send (packetOf (ts, call)) else c
  | .dropTap => { c with tap := false }
  | .recv => c.recv sink
  | .dropHandle => { c with handle := false }
  | .cancel => c.cancel sink
  | .own e => { c with sink := sink.own e c.sink }

end ChannelRecorder

/-! ### Runs -/

/-- A recorder with its history: the records it was told of, what happened to the sink, the records
that were in the channel when the task was cancelled, and those that came later. -/
structure RecorderRun (σ ε : Type) where
  recorder : ChannelRecorder σ
  told : List PacketRecord
  sinkEvents : List (SinkEvent ε)
  lost : List PacketRecord
  missed : List PacketRecord

namespace RecorderRun

/-- What the event does to the history. -/
def step (sink : RecordSink σ ε) (k : RecorderRun σ ε) (event : RecorderEvent ε) :
    RecorderRun σ ε :=
  let c := k.recorder
  let k := { k with recorder := c.step sink event }
  match event with
  | .tap ts call =>
      if c.tap then
        let record := packetOf (ts, call)
        if c.task then { k with told := k.told ++ [record] }
        else { k with told := k.told ++ [record], missed := k.missed ++ [record] }
      else k
  | .recv =>
      if c.task then
        match c.queue with
        | record :: _ => { k with sinkEvents := k.sinkEvents ++ [.packet record] }
        | [] => if c.tap then k else { k with sinkEvents := k.sinkEvents ++ [.drop] }
      else k
  | .cancel =>
      if c.task && !c.handle then
        { k with sinkEvents := k.sinkEvents ++ [.drop], lost := c.queue }
      else k
  | .own e => { k with sinkEvents := k.sinkEvents ++ [.own e] }
  | .dropTap | .dropHandle => k

def run (sink : RecordSink σ ε) (s : σ) (events : List (RecorderEvent ε)) : RecorderRun σ ε :=
  events.foldl (step sink) ⟨.spawn s, [], [], [], []⟩

/-- What holds after any events. -/
structure Inv (sink : RecordSink σ ε) (s : σ) (k : RecorderRun σ ε) : Prop where
  told : k.told = packets k.sinkEvents ++ k.recorder.queue ++ k.lost ++ k.missed
  sink : k.recorder.sink = sink.run s k.sinkEvents
  history : SinkHistory k.sinkEvents k.recorder.task
  dropped : k.recorder.dropped = UInt64.ofNat k.missed.length
  running : k.recorder.task = true → k.lost = [] ∧ k.missed = []
  ended : k.recorder.task = false → k.recorder.queue = []
  kept : k.recorder.handle = true → k.lost = [] ∧
    (k.recorder.task = false → k.recorder.tap = false ∧ k.missed = [])

theorem inv_spawn (sink : RecordSink σ ε) (s : σ) : Inv sink s ⟨.spawn s, [], [], [], []⟩ where
  told := rfl
  sink := rfl
  history := .nil
  dropped := rfl
  running _ := ⟨rfl, rfl⟩
  ended h := Bool.noConfusion h
  kept _ := ⟨rfl, fun h => Bool.noConfusion h⟩

/-- The tap sends a record. -/
theorem Inv.tap {sink : RecordSink σ ε} {s : σ} {k : RecorderRun σ ε} (h : k.Inv sink s)
    (ts : UInt64) (call : TapCall) : (k.step sink (.tap ts call)).Inv sink s := by
  obtain ⟨⟨tap, queue, dropped, handle, task, state⟩, told, sinkEvents, lost, missed⟩ := k
  obtain ⟨htold, hsink, hhistory, hdropped, hrunning, hended, hkept⟩ := h
  cases tap with
  | false => exact ⟨htold, hsink, hhistory, hdropped, hrunning, hended, hkept⟩
  | true =>
      cases task with
      | true =>
          obtain ⟨rfl, rfl⟩ := hrunning rfl
          refine ⟨?_, hsink, hhistory, hdropped, hrunning, fun h => Bool.noConfusion h, ?_⟩
          · change told ++ [_] = packets sinkEvents ++ (queue ++ [_]) ++ [] ++ []
            rw [show told = packets sinkEvents ++ queue ++ [] ++ [] from htold]
            simp only [List.append_nil, List.append_assoc]
          · exact fun _ => ⟨rfl, fun h => Bool.noConfusion h⟩
      | false =>
          refine ⟨?_, hsink, hhistory, ?_, fun h => Bool.noConfusion h, hended, ?_⟩
          · change told ++ [_] = packets sinkEvents ++ queue ++ lost ++ (missed ++ [_])
            rw [show told = packets sinkEvents ++ queue ++ lost ++ missed from htold]
            simp only [List.append_assoc]
          · change dropped + 1 = UInt64.ofNat (missed ++ [_]).length
            rw [show dropped = UInt64.ofNat missed.length from hdropped, List.length_append,
              UInt64.ofNat_add]
            rfl
          · -- a task that nobody cancelled ends after the tap
            intro hhandle
            exact Bool.noConfusion ((hkept hhandle).2 rfl).1

/-- A turn of the task. -/
theorem Inv.recv {sink : RecordSink σ ε} {s : σ} {k : RecorderRun σ ε} (h : k.Inv sink s) :
    (k.step sink .recv).Inv sink s := by
  obtain ⟨⟨tap, queue, dropped, handle, task, state⟩, told, sinkEvents, lost, missed⟩ := k
  obtain ⟨htold, hsink, hhistory, hdropped, hrunning, hended, hkept⟩ := h
  cases task with
  | false => exact ⟨htold, hsink, hhistory, hdropped, hrunning, hended, hkept⟩
  | true =>
      obtain ⟨rfl, rfl⟩ := hrunning rfl
      cases queue with
      | cons record queue =>
          refine ⟨?_, ?_, hhistory.packet record, hdropped, hrunning,
            fun h => Bool.noConfusion h, hkept⟩
          · change told = packets (sinkEvents ++ [.packet record]) ++ queue ++ [] ++ []
            rw [packets_packet, List.append_assoc (packets sinkEvents), List.singleton_append]
            exact htold
          · exact RecordSink.step_run hsink (.packet record)
      | nil =>
          cases tap with
          | true =>
              exact ⟨htold, hsink, hhistory, hdropped, hrunning, fun h => Bool.noConfusion h, hkept⟩
          | false =>
              refine ⟨?_, ?_, hhistory.drop, hdropped, fun h => Bool.noConfusion h,
                fun _ => rfl, ?_⟩
              · change told = packets (sinkEvents ++ [.drop]) ++ [] ++ [] ++ []
                rw [packets_drop]
                exact htold
              · exact RecordSink.step_run hsink .drop
              · exact fun _ => ⟨rfl, fun _ => ⟨rfl, rfl⟩⟩

/-- The task is cancelled, and the channel goes with it. -/
theorem Inv.cancel {sink : RecordSink σ ε} {s : σ} {k : RecorderRun σ ε} (h : k.Inv sink s) :
    (k.step sink .cancel).Inv sink s := by
  obtain ⟨⟨tap, queue, dropped, handle, task, state⟩, told, sinkEvents, lost, missed⟩ := k
  obtain ⟨htold, hsink, hhistory, hdropped, hrunning, hended, hkept⟩ := h
  cases task with
  | false => exact ⟨htold, hsink, hhistory, hdropped, hrunning, hended, hkept⟩
  | true =>
      cases handle with
      | true => exact ⟨htold, hsink, hhistory, hdropped, hrunning, hended, hkept⟩
      | false =>
          obtain ⟨rfl, rfl⟩ := hrunning rfl
          refine ⟨?_, ?_, hhistory.drop, hdropped, fun h => Bool.noConfusion h, fun _ => rfl,
            fun h => Bool.noConfusion h⟩
          · change told = packets (sinkEvents ++ [.drop]) ++ [] ++ queue ++ []
            rw [packets_drop]
            simp only [List.append_nil] at htold ⊢
            exact htold
          · exact RecordSink.step_run hsink .drop

/-- The sink does something by itself. -/
theorem Inv.own {sink : RecordSink σ ε} {s : σ} {k : RecorderRun σ ε} (h : k.Inv sink s) (e : ε) :
    (k.step sink (.own e)).Inv sink s where
  told := by
    change k.told = packets (k.sinkEvents ++ [.own e]) ++ k.recorder.queue ++ k.lost ++ k.missed
    rw [packets_own]
    exact h.told
  sink := RecordSink.step_run h.sink (.own e)
  history := h.history.own e
  dropped := h.dropped
  running := h.running
  ended := h.ended
  kept := h.kept

theorem Inv.step {sink : RecordSink σ ε} {s : σ} {k : RecorderRun σ ε} (h : k.Inv sink s)
    (event : RecorderEvent ε) : (k.step sink event).Inv sink s := by
  cases event with
  | tap ts call => exact h.tap ts call
  | recv => exact h.recv
  | cancel => exact h.cancel
  | own e => exact h.own e
  | dropTap =>
      refine ⟨h.told, h.sink, h.history, h.dropped, h.running, h.ended, fun hhandle => ?_⟩
      exact ⟨(h.kept hhandle).1, fun htask => ⟨rfl, ((h.kept hhandle).2 htask).2⟩⟩
  | dropHandle =>
      exact ⟨h.told, h.sink, h.history, h.dropped, h.running, h.ended,
        fun h => Bool.noConfusion h⟩

theorem inv_run (sink : RecordSink σ ε) (s : σ) (events : List (RecorderEvent ε)) :
    (run sink s events).Inv sink s := by
  induction events using List.reverseRecOn with
  | nil => exact inv_spawn sink s
  | append_singleton events event ih =>
      rw [run, List.foldl_append]
      exact ih.step event

/-- A step of the sink by itself is an event of the run. -/
theorem own_mem_step {sink : RecordSink σ ε} {k : RecorderRun σ ε} {event : RecorderEvent ε} {e : ε}
    (h : .own e ∈ (k.step sink event).sinkEvents) : .own e ∈ k.sinkEvents ∨ event = .own e := by
  have hsnoc : ∀ {x : SinkEvent ε}, SinkEvent.own e ∈ k.sinkEvents ++ [x] →
      .own e ∈ k.sinkEvents ∨ .own e = x := by
    intro x hx
    exact (List.mem_append.1 hx).imp_right List.mem_singleton.1
  cases event with
  | dropTap | dropHandle => exact Or.inl h
  | own e' =>
      rcases hsnoc h with h | h
      · exact Or.inl h
      · cases h
        exact Or.inr rfl
  | tap ts call =>
      rw [step] at h
      split at h
      · split at h <;> exact Or.inl h
      · exact Or.inl h
  | recv =>
      rw [step] at h
      split at h
      · split at h
        · exact (hsnoc h).imp_right fun h => nomatch h
        · split at h
          · exact Or.inl h
          · exact (hsnoc h).imp_right fun h => nomatch h
      · exact Or.inl h
  | cancel =>
      rw [step] at h
      split at h
      · exact (hsnoc h).imp_right fun h => nomatch h
      · exact Or.inl h

theorem own_mem_run {sink : RecordSink σ ε} {s : σ} {events : List (RecorderEvent ε)} {e : ε}
    (h : .own e ∈ (run sink s events).sinkEvents) : .own e ∈ events := by
  induction events using List.reverseRecOn with
  | nil => exact absurd h List.not_mem_nil
  | append_singleton events event ih =>
      rw [run, List.foldl_append] at h
      rcases own_mem_step h with h | rfl
      · exact List.mem_append_left _ (ih h)
      · exact List.mem_append_right _ (List.mem_singleton_self _)

end RecorderRun

/-- **Nothing gets lost on the way to the sink.**  The records the tap was told of are, in this
order: those the sink was called with, those in the channel, those that a cancellation found there,
and those that came after the task had ended; the last are what the counter counts.  The state of
the sink is that of the sink alone, which is not called after it was dropped.  As long as the handle
exists, nothing is missing. -/
theorem channelRecorder_run (sink : RecordSink σ ε) (s : σ) (events : List (RecorderEvent ε)) :
    let k := RecorderRun.run sink s events
    k.told = packets k.sinkEvents ++ k.recorder.queue ++ k.lost ++ k.missed ∧
      k.recorder.sink = sink.run s k.sinkEvents ∧ SinkHistory k.sinkEvents k.recorder.task ∧
      k.recorder.dropped = UInt64.ofNat k.missed.length ∧
      (k.recorder.task = true → k.lost = [] ∧ k.missed = []) ∧
      (k.recorder.handle = true → k.told = packets k.sinkEvents ++ k.recorder.queue ∧
        k.recorder.dropped = 0) := by
  intro k
  have hinv := RecorderRun.inv_run sink s events
  refine ⟨hinv.told, hinv.sink, hinv.history, hinv.dropped, hinv.running, ?_⟩
  intro hhandle
  obtain ⟨hlost, hended⟩ := hinv.kept hhandle
  have hmissed : k.missed = [] := by
    cases htask : k.recorder.task with
    | true => exact (hinv.running htask).2
    | false => exact (hended htask).2
  refine ⟨?_, ?_⟩
  · exact hinv.told.trans (by rw [hlost, hmissed, List.append_nil, List.append_nil])
  · exact hinv.dropped.trans (by rw [hmissed]; rfl)

/-- A sink that keeps what it gets. -/
def listSink : RecordSink (List PacketRecord) Empty where
  onPacket record records := records ++ [record]
  own e := e.elim
  drop := id

/-- A request and its response, of which the task has taken the request. -/
theorem channelRecorder_run_kept :
    let k := RecorderRun.run listSink []
      [.tap 5 (.onWrite [1, 3]), .tap 9 (.onRead [1, 0x83]), .recv]
    k.told = packets k.sinkEvents ++ k.recorder.queue ∧ k.recorder.dropped = 0 :=
  (channelRecorder_run listSink []
    [.tap 5 (.onWrite [1, 3]), .tap 9 (.onRead [1, 0x83]), .recv]).2.2.2.2.2 rfl

end OmsModbus.Capture
