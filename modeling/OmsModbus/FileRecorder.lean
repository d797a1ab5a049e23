/-
**Recording into a file.**

The recorder of files is a sink with a thread of its own.  The sink formats a record and puts the
line into a channel with room for 4096 lines; a line that does not fit is dropped, and counted.  The
thread takes the lines out and writes them through a buffer.  When writing fails, or when the sink
is gone and the channel is empty, the thread tries to write what is in the buffer, and ends; what
still is in the channel then is lost.

Main definitions:

* `OmsModbus.Capture.FileRecorder` — the sink, the channel, the thread, its buffer and the file;
* `OmsModbus.Capture.fileSink` — the same as a sink;
* `OmsModbus.Capture.FileRun` — the same with what became of the records.

Main results:

* `OmsModbus.Capture.FileRun.Inv.packet`, `OmsModbus.Capture.FileRun.Inv.own` — what the sink and
  the thread keep;
* `OmsModbus.Capture.fileRecorder_run` — **the file is a log of some of the records, in order, which
  may be cut off**, and what is missing;
* `OmsModbus.Capture.recording_complete` — **when nothing goes wrong, the file gives back all that
  went over the line**.
-/

import OmsModbus.ChannelRecorder
import OmsModbus.LogFormat

set_option relaxedAutoImplicit false
set_option autoImplicit false

namespace OmsModbus.Capture

open TextFormat

/-! ### Bytes of texts -/

/-- The bytes of a text in a file. -/
def utf8 (s : String) : Bytes := s.toUTF8.data.toList

theorem utf8_append (s t : String) : utf8 (s ++ t) = utf8 s ++ utf8 t := by
  rw [utf8, String.toUTF8_eq_toByteArray, String.toByteArray_append, ByteArray.data_append,
    Array.toList_append]
  rfl

theorem utf8_injective : Function.Injective utf8 := by
  intro s t h
  exact String.toByteArray_inj.1 (ByteArray.ext (Array.toList_inj.1 h))

/-- The bytes of a line and its break. -/
def lineBytes (line : String) : Bytes := utf8 (line ++ "\n")

theorem utf8_logText (lines : List String) : utf8 (logText lines) = lines.flatMap lineBytes := by
  induction lines with
  | nil => rfl
  | cons line lines ih =>
      have hcons : logText (line :: lines) = line ++ "\n" ++ logText lines := by
        rw [← String.toList_inj, String.toList_append, toList_logText, toList_logText,
          String.toList_append]
        rfl
      rw [hcons, utf8_append, ih]
      rfl

/-! ### The recorder -/

/-- Where the thread is: in its loop, after it, or gone. -/
inductive IoThread
  | running
  | flushing
  | ended
  deriving DecidableEq, Repr

/-- The recorder, and what it has to do with: the lines in the channel, whether there still is a
sender, and the thread with the bytes in its buffer and in the file. -/
structure FileRecorder where
  lines : List String
  dropped : UInt64
  sender : Bool
  thread : IoThread
  buffered : Bytes
  file : Bytes

/-- What the thread may do. -/
inductive ThreadEvent
  /-- A line is taken out of the channel and written. -/
  | write
  /-- A line is taken out, and after `n` of its bytes writing fails. -/
  | fail (n : ℕ)
  /-- `n` bytes of the buffer get into the file. -/
  | spill (n : ℕ)
  /-- There are no lines, and no sender any more. -/
  | finish
  /-- The thread ends, with what is left in the buffer and in the channel. -/
  | exit
  deriving DecidableEq, Repr

namespace FileRecorder

/-- The room in the channel. -/
def CHANNEL_LINES : ℕ := 4096

/-- A new file. -/
def new : FileRecorder where
  lines := []
  dropped := 0
  sender := true
  thread := .running
  buffered := []
  file := []

/-- A line is sent, which fails when the channel is full, or the receiver is gone. -/
def trySend (f : FileRecorder) (line : String) : FileRecorder :=
  if f.thread = .ended ∨ f.lines.length ≥ CHANNEL_LINES then { f with dropped := f.dropped + 1 }
  else { f with lines := f.lines ++ [line] }

/-- The line of the record is sent; formatting it does not panic (`formatRecord_eq`). -/
def onPacket (record : PacketRecord) (f : FileRecorder) : FileRecorder :=
  f.trySend (recordLine record)

/-- The thread goes on. -/
def io (event : ThreadEvent) (f : FileRecorder) : FileRecorder :=
  match event with
  | .write =>
      match f.thread, f.lines with
      | .running, line :: lines =>
          { f with lines := lines, buffered := f.buffered ++ lineBytes line }
      | _, _ => f
  | .fail n =>
      match f.thread, f.lines with
      | .running, line :: lines =>
          { f with
            lines := lines, buffered := f.buffered ++ (lineBytes line).take n, thread := .flushing }
      | _, _ => f
  | .spill n =>
      if f.thread = .ended then f
      else { f with file := f.file ++ f.buffered.take n, buffered := f.buffered.drop n }
  | .finish =>
      if f.thread = .running ∧ f.lines = [] ∧ f.sender = false then { f with thread := .flushing }
      else f
  | .exit => if f.thread = .flushing then { f with thread := .ended, lines := [] } else f

end FileRecorder

/-- The recorder as a sink.  Dropping it drops the sender. -/
def fileSink : RecordSink FileRecorder ThreadEvent where
  onPacket := FileRecorder.onPacket
  own := FileRecorder.io
  drop f := { f with sender := false }

/-! ### Runs -/

/-- A recorder with what became of its records: written, written in part, waiting in the channel,
left there when the thread ended, or dropped. -/
structure FileRun where
  recorder : FileRecorder
  written : List PacketRecord
  torn : List PacketRecord
  waiting : List PacketRecord
  abandoned : List PacketRecord
  refused : List PacketRecord

namespace FileRun

/-- What the thread does to the records. -/
def io (k : FileRun) (event : ThreadEvent) : FileRun :=
  let f := k.recorder
  let k := { k with recorder := f.io event }
  match event with
  | .write =>
      match f.thread, k.waiting with
      | .running, record :: waiting =>
          { k with written := k.written ++ [record], waiting := waiting }
      | _, _ => k
  | .fail _ =>
      match f.thread, k.waiting with
      | .running, record :: waiting => { k with torn := [record], waiting := waiting }
      | _, _ => k
  | .exit =>
      if f.thread = .flushing then { k with abandoned := k.waiting, waiting := [] } else k
  | .spill _ | .finish => k

def step (k : FileRun) : SinkEvent ThreadEvent → FileRun
  | .packet record =>
      let f := k.recorder
      let k := { k with recorder := f.onPacket record }
      if f.thread = .ended ∨ f.lines.length ≥ FileRecorder.CHANNEL_LINES then
        { k with refused := k.refused ++ [record] }
      else { k with waiting := k.waiting ++ [record] }
  | .own event => k.io event
  | .drop => { k with recorder := fileSink.drop k.recorder }

def run (events : List (SinkEvent ThreadEvent)) : FileRun :=
  events.foldl step ⟨.new, [], [], [], [], []⟩

/-- What holds after the records `told`. -/
structure Inv (told : List PacketRecord) (owned : Bool) (k : FileRun) : Prop where
  lines : k.recorder.lines = k.waiting.map recordLine
  room : k.recorder.lines.length ≤ FileRecorder.CHANNEL_LINES
  sender : k.recorder.sender = owned
  order : List.Sublist (k.written ++ k.torn ++ k.abandoned ++ k.waiting) told
  conserved : told.Perm (k.written ++ k.torn ++ k.abandoned ++ k.waiting ++ k.refused)
  dropped : k.recorder.dropped = UInt64.ofNat k.refused.length
  bytes : ∃ rest, k.recorder.file ++ k.recorder.buffered
    = (k.written.map recordLine).flatMap lineBytes ++ rest ∧
      rest <+: (k.torn.map recordLine).flatMap lineBytes
  running : k.recorder.thread = .running → k.torn = [] ∧ k.abandoned = []
  flushing : k.recorder.thread = .flushing → k.abandoned = []
  ended : k.recorder.thread = .ended → k.waiting = []
  clean : k.torn = [] → k.recorder.thread ≠ .running →
    k.recorder.sender = false ∧ k.waiting = [] ∧ k.abandoned = []

theorem inv_new : Inv [] true ⟨.new, [], [], [], [], []⟩ where
  lines := rfl
  room := Nat.zero_le _
  sender := rfl
  order := List.Sublist.refl _
  conserved := List.Perm.refl _
  dropped := rfl
  bytes := ⟨[], rfl, List.prefix_refl _⟩
  running _ := ⟨rfl, rfl⟩
  flushing h := nomatch h
  ended h := nomatch h
  clean _ h := absurd rfl h

/-- The sink takes a record, or drops it. -/
theorem Inv.packet {told : List PacketRecord} {k : FileRun} (h : k.Inv told true)
    (record : PacketRecord) : (k.step (.packet record)).Inv (told ++ [record]) true := by
  rw [FileRun.step, FileRecorder.onPacket, FileRecorder.trySend]
  by_cases hfull : k.recorder.thread = .ended ∨ k.recorder.lines.length ≥ FileRecorder.CHANNEL_LINES
  · simp only [if_pos hfull]
    refine ⟨h.lines, h.room, h.sender, ?_, ?_, ?_, h.bytes, h.running, h.flushing, h.ended, h.clean⟩
    · exact h.order.trans (List.sublist_append_left _ _)
    · rw [← List.append_assoc]
      exact h.conserved.append_right [record]
    · change k.recorder.dropped + 1 = UInt64.ofNat (k.refused ++ [record]).length
      rw [h.dropped, List.length_append, UInt64.ofNat_add]
      rfl
  · simp only [if_neg hfull]
    rw [not_or, not_le] at hfull
    refine ⟨?_, ?_, h.sender, ?_, ?_, h.dropped, h.bytes, h.running, h.flushing, ?_, ?_⟩
    · change k.recorder.lines ++ [_] = (k.waiting ++ [_]).map recordLine
      rw [h.lines, List.map_append]
      rfl
    · change (k.recorder.lines ++ [_]).length ≤ _
      rw [List.length_append]
      exact hfull.2
    · rw [← List.append_assoc]
      exact h.order.append (List.Sublist.refl [record])
    · -- the dropped records are counted after the new one
      refine (h.conserved.append_right [record]).trans ?_
      rw [List.append_assoc, ← List.append_assoc _ k.waiting, List.append_assoc _ [record]]
      exact List.perm_append_comm.append_left _
    · exact fun hended => absurd hended hfull.1
    · intro htorn hrunning
      exact Bool.noConfusion ((h.clean htorn hrunning).1.symm.trans h.sender)

/-- The thread writes the oldest line. -/
theorem Inv.write {told : List PacketRecord} {owned : Bool} {k : FileRun} (h : k.Inv told owned) :
    (k.io .write).Inv told owned := by
  obtain ⟨⟨lines, dropped, sender, thread, buffered, file⟩, written, torn, waiting, abandoned,
    refused⟩ := k
  cases thread with
  | flushing | ended => exact h
  | running =>
      obtain ⟨rfl, rfl⟩ : torn = [] ∧ abandoned = [] := h.running rfl
      obtain rfl : lines = waiting.map recordLine := h.lines
      cases waiting with
      | nil => exact h
      | cons record waiting =>
          have horder := h.order
          have hconserved := h.conserved
          obtain ⟨rest, hbytes, hrest⟩ := h.bytes
          refine ⟨rfl, (Nat.le_succ _).trans h.room, h.sender, ?_, ?_, h.dropped,
            ⟨[], ?_, List.nil_prefix⟩, fun _ => ⟨rfl, rfl⟩, nofun,
            nofun, fun _ h => absurd rfl h⟩
          · change List.Sublist (written ++ [record] ++ [] ++ [] ++ waiting) told
            simp only [List.append_nil, List.append_assoc] at horder ⊢
            exact horder
          · change told.Perm (written ++ [record] ++ [] ++ [] ++ waiting ++ refused)
            simp only [List.append_nil, List.append_assoc] at hconserved ⊢
            exact hconserved
          · change file ++ (buffered ++ _) = ((written ++ [record]).map recordLine).flatMap _ ++ []
            rw [← List.append_assoc, show file ++ buffered = _ from hbytes,
              List.prefix_nil.1 hrest, List.map_append, List.flatMap_append, List.map_singleton,
              List.flatMap_singleton]
            simp only [List.append_nil]

/-- The thread fails to write the oldest line, and leaves its loop. -/
theorem Inv.fail {told : List PacketRecord} {owned : Bool} {k : FileRun} (h : k.Inv told owned)
    (n : ℕ) : (k.io (.fail n)).Inv told owned := by
  obtain ⟨⟨lines, dropped, sender, thread, buffered, file⟩, written, torn, waiting, abandoned,
    refused⟩ := k
  cases thread with
  | flushing | ended => exact h
  | running =>
      obtain ⟨rfl, rfl⟩ : torn = [] ∧ abandoned = [] := h.running rfl
      obtain rfl : lines = waiting.map recordLine := h.lines
      cases waiting with
      | nil => exact h
      | cons record waiting =>
          have horder := h.order
          have hconserved := h.conserved
          obtain ⟨rest, hbytes, hrest⟩ := h.bytes
          refine ⟨rfl, (Nat.le_succ _).trans h.room, h.sender, ?_, ?_, h.dropped,
            ⟨(lineBytes (recordLine record)).take n, ?_, ?_⟩, nofun, fun _ => rfl,
            nofun, fun h => absurd h (List.cons_ne_nil _ _)⟩
          · change List.Sublist (written ++ [record] ++ [] ++ waiting) told
            simp only [List.append_nil, List.append_assoc] at horder ⊢
            exact horder
          · change told.Perm (written ++ [record] ++ [] ++ waiting ++ refused)
            simp only [List.append_nil, List.append_assoc] at hconserved ⊢
            exact hconserved
          · change file ++ (buffered ++ (lineBytes (recordLine record)).take n)
              = (written.map recordLine).flatMap lineBytes ++ (lineBytes (recordLine record)).take n
            rw [← List.append_assoc, show file ++ buffered = _ from hbytes,
              List.prefix_nil.1 hrest, List.append_nil]
          · change _ <+: ([record].map recordLine).flatMap lineBytes
            rw [List.map_singleton, List.flatMap_singleton]
            exact List.take_prefix _ _

theorem Inv.exit {told : List PacketRecord} {owned : Bool} {k : FileRun} (h : k.Inv told owned) :
    (k.io .exit).Inv told owned := by
  by_cases hthread : k.recorder.thread = .flushing
  · have habandoned := h.flushing hthread
    have horder := h.order
    have hconserved := h.conserved
    rw [habandoned] at horder hconserved
    simp only [FileRun.io, FileRecorder.io, if_pos hthread]
    refine ⟨rfl, Nat.zero_le _, h.sender, ?_, ?_, h.dropped, h.bytes, nofun,
      nofun, fun _ => rfl, ?_⟩
    · simp only [List.append_nil] at horder ⊢
      exact horder
    · simp only [List.append_nil] at hconserved ⊢
      exact hconserved
    · intro htorn _
      obtain ⟨hsender, hwaiting, -⟩ := h.clean htorn (by rw [hthread]; exact fun h => nomatch h)
      exact ⟨hsender, rfl, hwaiting⟩
  · simp only [FileRun.io, FileRecorder.io, if_neg hthread]
    exact h

theorem Inv.finish {told : List PacketRecord} {owned : Bool} {k : FileRun} (h : k.Inv told owned) :
    (k.io .finish).Inv told owned := by
  by_cases hend : k.recorder.thread = .running ∧ k.recorder.lines = [] ∧ k.recorder.sender = false
  · simp only [FileRun.io, FileRecorder.io, if_pos hend]
    obtain ⟨hthread, hlines, hsender⟩ := hend
    obtain ⟨-, habandoned⟩ := h.running hthread
    have hwaiting : k.waiting = [] := by
      rw [h.lines] at hlines
      exact List.map_eq_nil_iff.1 hlines
    exact ⟨h.lines, h.room, h.sender, h.order, h.conserved, h.dropped, h.bytes,
      nofun, fun _ => habandoned, nofun,
      fun _ _ => ⟨hsender, hwaiting, habandoned⟩⟩
  · simp only [FileRun.io, FileRecorder.io, if_neg hend]
    exact h

theorem Inv.spill {told : List PacketRecord} {owned : Bool} {k : FileRun} (h : k.Inv told owned)
    (n : ℕ) : (k.io (.spill n)).Inv told owned := by
  by_cases hthread : k.recorder.thread = .ended
  · simp only [FileRun.io, FileRecorder.io, if_pos hthread]
    exact h
  · simp only [FileRun.io, FileRecorder.io, if_neg hthread]
    refine ⟨h.lines, h.room, h.sender, h.order, h.conserved, h.dropped, ?_, h.running, h.flushing,
      h.ended, h.clean⟩
    obtain ⟨rest, hbytes, hrest⟩ := h.bytes
    refine ⟨rest, ?_, hrest⟩
    change k.recorder.file ++ k.recorder.buffered.take n ++ k.recorder.buffered.drop n = _
    rw [List.append_assoc, List.take_append_drop, hbytes]

theorem Inv.own {told : List PacketRecord} {owned : Bool} {k : FileRun} (h : k.Inv told owned)
    (event : ThreadEvent) : (k.io event).Inv told owned := by
  cases event with
  | write => exact h.write
  | fail n => exact h.fail n
  | spill n => exact h.spill n
  | finish => exact h.finish
  | exit => exact h.exit

theorem Inv.drop {told : List PacketRecord} {k : FileRun} (h : k.Inv told true) :
    (k.step .drop).Inv told false :=
  ⟨h.lines, h.room, rfl, h.order, h.conserved, h.dropped, h.bytes, h.running, h.flushing, h.ended,
    fun htorn hthread => ⟨rfl, (h.clean htorn hthread).2⟩⟩

theorem inv_run {events : List (SinkEvent ThreadEvent)} {owned : Bool}
    (h : SinkHistory events owned) : (run events).Inv (packets events) owned := by
  induction h with
  | nil => exact inv_new
  | packet record h ih =>
      rw [packets_packet, run, List.foldl_append]
      exact ih.packet record
  | own event h ih =>
      rw [packets_own, run, List.foldl_append]
      exact ih.own event
  | drop h ih =>
      rw [packets_drop, run, List.foldl_append]
      exact ih.drop

/-- The history does not change what the recorder does. -/
theorem run_recorder (events : List (SinkEvent ThreadEvent)) :
    (run events).recorder = fileSink.run .new events := by
  induction events using List.reverseRecOn with
  | nil => rfl
  | append_singleton events event ih =>
      rw [← RecordSink.step_run ih event, run, List.foldl_append]
      change ((run events).step event).recorder = _
      cases event with
      | packet record =>
          simp only [RecordSink.step, fileSink, step, apply_ite FileRun.recorder, ite_self]
      | own event =>
          cases event with
          | spill n | finish => rfl
          | exit =>
              rw [step, io]
              split <;> rfl
          | write | fail n =>
              rw [step, io]
              split <;> rfl
      | drop => rfl

/-- Only a failure leaves a line that was written in part. -/
theorem torn_eq_nil {events : List (SinkEvent ThreadEvent)} (h : ∀ n, .own (.fail n) ∉ events) :
    (run events).torn = [] := by
  induction events using List.reverseRecOn with
  | nil => rfl
  | append_singleton events event ih =>
      have hprev := ih fun n hn => h n (List.mem_append_left _ hn)
      rw [run, List.foldl_append]
      change ((run events).step event).torn = []
      cases event with
      | packet record =>
          simp only [step, apply_ite FileRun.torn, ite_self, hprev]
      | own event =>
          cases event with
          | spill n | finish => exact hprev
          | exit => simp only [step, io, apply_ite FileRun.torn, ite_self, hprev]
          | write =>
              rw [step, io]
              split <;> exact hprev
          | fail n => exact absurd (List.mem_append_right _ (List.mem_singleton_self _)) (h n)
      | drop => exact hprev

end FileRun

/-! ### What is in the file -/

/-- The bytes of a file of records. -/
def logBytes (records : List PacketRecord) : Bytes := utf8 (logText (records.map recordLine))

theorem logBytes_eq (records : List PacketRecord) :
    logBytes records = (records.map recordLine).flatMap lineBytes := utf8_logText _

theorem logBytes_append (records records' : List PacketRecord) :
    logBytes (records ++ records') = logBytes records ++ logBytes records' := by
  rw [logBytes_eq, logBytes_eq, logBytes_eq, List.map_append, List.flatMap_append]

/-- A file that was cut off: whole lines, and the beginning of the next. -/
theorem exists_of_prefix_logBytes {file : Bytes} {records : List PacketRecord}
    (h : file <+: logBytes records) :
    ∃ whole next rest, whole ++ next <+: records ∧ next.length ≤ 1 ∧
      file = logBytes whole ++ rest ∧ rest <+: logBytes next := by
  rw [logBytes_eq, List.flatMap_map] at h
  obtain ⟨whole, next, rest, hwhole, hnext, hfile, hrest⟩ := exists_of_prefix_flatMap h
  refine ⟨whole, next, rest, hwhole, hnext, ?_, ?_⟩
  · rw [logBytes_eq, List.flatMap_map]
    exact hfile
  · rw [logBytes_eq, List.flatMap_map]
    exact hrest

/-- The file is a log of written records, and may be cut off. -/
theorem FileRun.Inv.exists_whole {told : List PacketRecord} {owned : Bool} {k : FileRun}
    (h : k.Inv told owned) :
    ∃ whole next rest, whole ++ next <+: k.written ++ k.torn ∧ next.length ≤ 1 ∧
      k.recorder.file = logBytes whole ++ rest ∧ rest <+: logBytes next := by
  obtain ⟨rest, hbytes, hrest⟩ := h.bytes
  rw [← logBytes_eq] at hbytes hrest
  refine exists_of_prefix_logBytes ((List.prefix_append _ k.recorder.buffered).trans ?_)
  rw [hbytes, logBytes_append]
  exact (List.prefix_append_right_inj _).2 hrest

/-- When writing never failed, and all was flushed, the file is the log of all that was not
dropped. -/
theorem FileRun.Inv.complete {told : List PacketRecord} {owned : Bool} {k : FileRun}
    (h : k.Inv told owned) (htorn : k.torn = []) (hthread : k.recorder.thread ≠ .running)
    (hbuffered : k.recorder.buffered = []) :
    owned = false ∧ List.Sublist k.written told ∧ told.Perm (k.written ++ k.refused) ∧
      k.recorder.file = logBytes k.written := by
  obtain ⟨hsender, hwaiting, habandoned⟩ := h.clean htorn hthread
  have horder := h.order
  have hconserved := h.conserved
  obtain ⟨rest, hbytes, hrest⟩ := h.bytes
  simp only [htorn, hwaiting, habandoned, List.append_nil] at horder hconserved
  rw [htorn, List.map_nil, List.flatMap_nil, List.prefix_nil] at hrest
  rw [← logBytes_eq, hbuffered, hrest, List.append_nil, List.append_nil] at hbytes
  exact ⟨h.sender.symm.trans hsender, horder, hconserved, hbytes⟩

/-- **The file of a recorder.**  The records that were written, those that fail, are left behind or
still wait keep their order, and with the dropped ones they are all; the dropped ones are counted.
The file consists of the lines of written records, in order, and may be cut off within a line.  If
writing never fails, the thread has left its loop and the buffer is empty, then the sink is gone,
and the file is the log of all records but the dropped ones. -/
theorem fileRecorder_run {events : List (SinkEvent ThreadEvent)} {owned : Bool}
    (h : SinkHistory events owned) :
    let k := FileRun.run events
    let f := fileSink.run .new events
    List.Sublist (k.written ++ k.torn ++ k.abandoned ++ k.waiting) (packets events) ∧
      (packets events).Perm (k.written ++ k.torn ++ k.abandoned ++ k.waiting ++ k.refused) ∧
      f.lines = k.waiting.map recordLine ∧ f.lines.length ≤ FileRecorder.CHANNEL_LINES ∧
      f.dropped = UInt64.ofNat k.refused.length ∧
      (∃ whole next rest, whole ++ next <+: k.written ++ k.torn ∧ next.length ≤ 1 ∧
        f.file = logBytes whole ++ rest ∧ rest <+: logBytes next) ∧
      ((∀ n, .own (.fail n) ∉ events) → f.thread ≠ .running → f.buffered = [] →
        owned = false ∧ List.Sublist k.written (packets events) ∧
          (packets events).Perm (k.written ++ k.refused) ∧ f.file = logBytes k.written) := by
  intro k f
  have hinv : k.Inv (packets events) owned := FileRun.inv_run h
  have hf : k.recorder = f := FileRun.run_recorder events
  rw [← hf]
  exact ⟨hinv.order, hinv.conserved, hinv.lines, hinv.room, hinv.dropped, hinv.exists_whole,
    fun hfail => hinv.complete (FileRun.torn_eq_nil hfail)⟩

/-- One request, which was written and flushed before the recorder was dropped. -/
def flushedRequest : List (SinkEvent ThreadEvent) :=
  [] ++ [.packet ⟨0, .rawTx [1, 2]⟩] ++ [.own .write] ++ [.own (.spill 100)] ++ [.drop] ++
    [.own .finish]

/-- Then the file is the log of the request. -/
theorem fileRecorder_run_flushed :
    (fileSink.run .new flushedRequest).file = logBytes [⟨0, .rawTx [1, 2]⟩] :=
  ((@fileRecorder_run flushedRequest false
    (.own _ (.drop (.own _ (.own _ (.packet _ .nil)))))).2.2.2.2.2.2
      (by simp [flushedRequest]) (by decide +kernel) (by decide +kernel)).2.2.2

/-! ### The whole way -/

/-- The records of a file of lines without breaks. -/
theorem logBytes_inj {rs rs' : List PacketRecord} (hrs : ∀ r ∈ rs, r.data.OneLine)
    (hrs' : ∀ r ∈ rs', r.data.OneLine) (h : logBytes rs = logBytes rs') : rs = rs' := by
  refine recordLog_inj hrs hrs' ?_
  rw [recordLog_eq, recordLog_eq, utf8_injective h]

/-- **What the file says of the line.**  In any interleaving of the tap, the task, its handle and
the thread, the file consists of the lines of some records the tap was told of, in their order, each
once, and may be cut off within the next.  If the handle exists, writing never fails, the thread has
left its loop and the buffer is empty, and the recorder has dropped nothing, then the file is the
log of all that went over the line; and no other records have the same file, if the texts of the
errors have no line breaks. -/
theorem recording_complete (events : List (RecorderEvent ThreadEvent)) :
    let k := RecorderRun.run fileSink .new events
    let f := k.recorder.sink
    (∃ whole next rest, List.Sublist (whole ++ next) k.told ∧ next.length ≤ 1 ∧
      f.file = logBytes whole ++ rest ∧ rest <+: logBytes next) ∧
    (k.recorder.handle = true → (∀ n, .own (.fail n) ∉ events) → f.thread ≠ .running →
      f.buffered = [] → f.dropped = 0 → k.told.length < 2 ^ 64 →
      f.file = logBytes k.told ∧ ∀ rs, (∀ r ∈ k.told ++ rs, r.data.OneLine) →
        f.file = logBytes rs → rs = k.told) := by
  intro k f
  have hinv := RecorderRun.inv_run fileSink .new events
  have hfile := FileRun.inv_run hinv.history
  have hf : (FileRun.run k.sinkEvents).recorder = f :=
    (FileRun.run_recorder k.sinkEvents).trans hinv.sink.symm
  rw [← hf]
  constructor
  · obtain ⟨whole, next, rest, hwhole, hnext, hbytes, hrest⟩ := hfile.exists_whole
    refine ⟨whole, next, rest, ?_, hnext, hbytes, hrest⟩
    have hpackets : packets k.sinkEvents <+: k.told := by
      rw [hinv.told, List.append_assoc, List.append_assoc]
      exact List.prefix_append _ _
    refine (hwhole.sublist.trans ?_).trans (hfile.order.trans hpackets.sublist)
    exact (List.sublist_append_left _ _).trans (List.sublist_append_left _ _)
  · intro hhandle hfail hthread hbuffered hzero hcount
    have htorn : (FileRun.run k.sinkEvents).torn = [] :=
      FileRun.torn_eq_nil fun n hn => hfail n (RecorderRun.own_mem_run hn)
    obtain ⟨htask, horder, hperm, hbytes⟩ := hfile.complete htorn hthread hbuffered
    -- the task has ended by itself, so it has taken all records
    obtain ⟨hlost, hended⟩ := hinv.kept hhandle
    have htold : k.told = packets k.sinkEvents := by
      rw [hinv.told, hinv.ended htask, hlost, (hended htask).2, List.append_nil, List.append_nil,
        List.append_nil]
    have hlength := hperm.length_eq
    rw [List.length_append, ← htold] at hlength
    have hrefused : (FileRun.run k.sinkEvents).refused.length = 0 := by
      have hnat := congrArg UInt64.toNat (hfile.dropped.symm.trans hzero)
      rw [UInt64.toNat_ofNat', Nat.mod_eq_of_lt (by omega)] at hnat
      exact hnat
    have hwritten : (FileRun.run k.sinkEvents).written = k.told := by
      rw [← htold] at horder
      exact horder.eq_of_length (hlength.trans (by rw [hrefused, Nat.add_zero])).symm
    rw [hbytes, hwritten]
    refine ⟨rfl, ?_⟩
    intro rs hrs hlog
    exact (logBytes_inj (fun r hr => hrs r (List.mem_append_left _ hr))
      (fun r hr => hrs r (List.mem_append_right _ hr)) hlog).symm

/-- A tap that records a request and goes, then the task, and then the thread. -/
def recordedRequest : List (RecorderEvent ThreadEvent) :=
  [.tap 0 (.onWrite [1, 2]), .dropTap, .recv, .recv, .own .write, .own (.spill 100), .own .finish]

theorem recording_complete_request :
    (RecorderRun.run fileSink .new recordedRequest).recorder.sink.file
      = logBytes [⟨0, .rawTx [1, 2]⟩] :=
  ((recording_complete recordedRequest).2 (by decide +kernel) (by simp [recordedRequest])
    (by decide +kernel) (by decide +kernel) (by decide +kernel) (by decide +kernel)).1

end OmsModbus.Capture
