/-
**How a stream ends, with a tap and without one.**

A transport brings some bytes and then ends, with the end of the stream or with an error.  Through a
layer without a tap the owner reads the bytes, in pieces of some sizes, and then the end as it is.
Through a capturing layer he reads the same bytes in other pieces, and then an error: the background
reader has met the end, and left an error in its place in the data channel, behind the last chunk.
When the stream ended with an error it is the same error; the end of the stream has become one.

Main definitions:

* `OmsModbus.Capture.script` — what a transport brings;
* `OmsModbus.Capture.Delivers` — some bytes are read in any pieces, and an end behind them;
* `OmsModbus.Capture.arrivals` — what the transport brings in the course of a run.

Main results:

* `OmsModbus.Capture.passthrough_delivers`, `OmsModbus.Capture.sniffing_delivers` — **what the owner
  of a layer reads**, in any order of his reads and the turns of the tasks.
-/

import OmsModbus.SniffBooks

set_option relaxedAutoImplicit false
set_option autoImplicit false

namespace OmsModbus.Capture

/-! ### Streams that end -/

/-- The answer of a transport whose stream ends, with an error if there is one. -/
def endAnswer : Option IoError → Except IoError Bytes
  | none => .ok []
  | some e => .error e

/-- A transport brings some chunks, and ends. -/
def script (chunks : List Bytes) (ending : Option IoError) : List (Except IoError Bytes) :=
  chunks.map .ok ++ [endAnswer ending]

/-- How the end is read from the transport itself. -/
def rawEnd : Option IoError → ReadEvent
  | none => .data []
  | some e => .error e

/-- How the end is read from a data channel. -/
def sniffedEnd : Option IoError → IoError
  | none => ⟨.unexpectedEof, "transport closed"⟩
  | some e => e

/-- Some bytes are read, in any pieces, and then an end; `rest` is read after it. -/
def Delivers (bytes : Bytes) (last : ReadEvent) (events : List ReadEvent) : Prop :=
  ∃ (chunks : List Bytes) (rest : List ReadEvent), events = chunks.map .data ++ last :: rest ∧
    (∀ c ∈ chunks, c ≠ []) ∧ chunks.flatten = bytes

theorem Delivers.append {bytes : Bytes} {last : ReadEvent} {events : List ReadEvent}
    (h : Delivers bytes last events) (events' : List ReadEvent) :
    Delivers bytes last (events ++ events') := by
  obtain ⟨chunks, rest, rfl, hne, hflat⟩ := h
  exact ⟨chunks, rest ++ events', by simp, hne, hflat⟩

/-- Only bytes were read so far. -/
def ReadsOnly (bytes : Bytes) (events : List ReadEvent) : Prop :=
  ∃ chunks : List Bytes, events = chunks.map .data ∧ (∀ c ∈ chunks, c ≠ []) ∧
    chunks.flatten = bytes

theorem ReadsOnly.data {bytes : Bytes} {events : List ReadEvent} (h : ReadsOnly bytes events)
    {part : Bytes} (hpart : part ≠ []) :
    ReadsOnly (bytes ++ part) (events ++ [ReadEvent.data part]) := by
  obtain ⟨chunks, rfl, hne, rfl⟩ := h
  refine ⟨chunks ++ [part], by simp, ?_, by simp⟩
  intro c hc
  rcases List.mem_append.1 hc with hc | hc
  · exact hne c hc
  · rw [List.mem_singleton.1 hc]
    exact hpart

theorem ReadsOnly.last {bytes : Bytes} {events : List ReadEvent} (h : ReadsOnly bytes events)
    (last : ReadEvent) : Delivers bytes last (events ++ [last]) := by
  obtain ⟨chunks, rfl, hne, hflat⟩ := h
  exact ⟨chunks, [], rfl, hne, hflat⟩

theorem ReadsOnly.pending {bytes : Bytes} {events : List ReadEvent} (h : ReadsOnly bytes events) :
    OmsModbus.pending events = bytes := by
  obtain ⟨chunks, rfl, -, rfl⟩ := h
  induction chunks with
  | nil => rfl
  | cons c chunks ih => rw [List.map_cons, OmsModbus.pending, ih, List.flatten_cons]

/-- A read that ends a call: the end of the stream, or an error. -/
def IsEnd : ReadEvent → Prop
  | .data bs => bs = []
  | .error _ => True
  | _ => False

theorem ReadsOnly.not_isEnd {bytes : Bytes} {events : List ReadEvent} (h : ReadsOnly bytes events) :
    ¬ ∃ event ∈ events, IsEnd event := by
  obtain ⟨chunks, rfl, hne, -⟩ := h
  rintro ⟨event, hmem, hend⟩
  obtain ⟨c, hc, rfl⟩ := List.mem_map.1 hmem
  exact hne c hc hend

/-! ### What a transport has left -/

/-- A transport that brings `bytes` and then ends, of which `later` has not arrived yet, and whose
end was not read. -/
def Reading (bytes : Bytes) (ending : Option IoError) (raw : RawTransport)
    (later : List (Except IoError Bytes)) : Prop :=
  ∃ chunks, raw.incoming ++ later = script chunks ending ∧ (∀ c ∈ chunks, c ≠ []) ∧
    raw.read ++ chunks.flatten = bytes

namespace Reading

variable {bytes : Bytes} {ending : Option IoError} {raw : RawTransport}
  {later incoming : List (Except IoError Bytes)}

/-- The next answer is an error: it is the end. -/
theorem error {e : IoError} (h : Reading bytes ending raw later)
    (hin : raw.incoming = .error e :: incoming) : ending = some e ∧ raw.read = bytes := by
  obtain ⟨chunks, hscript, -, hbytes⟩ := h
  rw [hin, script, List.cons_append] at hscript
  cases chunks with
  | nil =>
      have hend := (List.cons.inj hscript).1
      refine ⟨?_, by simpa using hbytes⟩
      cases ending with
      | none => cases hend
      | some e' => rw [Except.error.inj hend]
  | cons c chunks => cases (List.cons.inj hscript).1

/-- The next answer has no bytes: it is the end. -/
theorem eof (h : Reading bytes ending raw later) (hin : raw.incoming = .ok [] :: incoming) :
    ending = none ∧ raw.read = bytes := by
  obtain ⟨chunks, hscript, hne, hbytes⟩ := h
  rw [hin, script, List.cons_append] at hscript
  cases chunks with
  | nil =>
      have hend := (List.cons.inj hscript).1
      refine ⟨?_, by simpa using hbytes⟩
      cases ending with
      | none => rfl
      | some e => cases hend
  | cons c chunks =>
      have hc := Except.ok.inj (List.cons.inj hscript).1
      exact absurd hc.symm (hne c (List.mem_cons_self ..))

/-- The next answer has bytes, and some of them are read. -/
theorem taken {part left : Bytes} (h : Reading bytes ending raw later) (hpart : part ≠ [])
    (hin : raw.incoming = .ok (part ++ left) :: incoming) :
    Reading bytes ending (raw.taken part left incoming) later := by
  obtain ⟨chunks, hscript, hne, hbytes⟩ := h
  rw [hin, script, List.cons_append] at hscript
  cases chunks with
  | nil =>
      cases ending with
      | none =>
          have hnil := Except.ok.inj (List.cons.inj hscript).1
          exact absurd (List.append_eq_nil_iff.1 hnil).1 hpart
      | some e => cases (List.cons.inj hscript).1
  | cons c chunks =>
      obtain ⟨hc, hrest⟩ := List.cons.inj hscript
      have hcs : ∀ c ∈ chunks, c ≠ [] := fun c hc => hne c (List.mem_cons_of_mem _ hc)
      have hc : c = part ++ left := (Except.ok.inj hc).symm
      -- a chunk that is not read to its end stays in front of the others
      rw [hc, List.flatten_cons, ← List.append_assoc, ← List.append_assoc] at hbytes
      by_cases hleft : left = []
      · refine ⟨chunks, ?_, hcs, ?_⟩
        · simp only [RawTransport.taken, if_pos hleft]
          exact hrest
        · rw [← hbytes, hleft, List.append_nil]
          rfl
      · refine ⟨left :: chunks, ?_, ?_, ?_⟩
        · simp only [RawTransport.taken, if_neg hleft, List.cons_append]
          rw [hrest]
          rfl
        · intro c hc
          rcases List.mem_cons.1 hc with rfl | hc
          · exact hleft
          · exact hcs c hc
        · rw [← hbytes, List.flatten_cons, ← List.append_assoc]
          rfl

/-- Only what is to come and what was read matter. -/
theorem congr {raw' : RawTransport} {later' : List (Except IoError Bytes)}
    (h : Reading bytes ending raw later)
    (hcome : raw'.incoming ++ later' = raw.incoming ++ later) (hread : raw'.read = raw.read) :
    Reading bytes ending raw' later' := by
  obtain ⟨chunks, hscript, hne, hbytes⟩ := h
  exact ⟨chunks, hcome.trans hscript, hne, by rw [hread, hbytes]⟩

/-- A transport that was just opened. -/
theorem new {chunks : List Bytes} (hne : ∀ c ∈ chunks, c ≠ []) :
    Reading chunks.flatten ending .new (script chunks ending) :=
  ⟨chunks, rfl, hne, rfl⟩

end Reading

/-! ### Runs -/

/-- What an operation makes arrive at the transport. -/
def arrival : IoOp (SniffIo.Task RawEvent) → List (Except IoError Bytes)
  | .task (.inner (.arrive answer)) => [answer]
  | _ => []

/-- What arrives at the transport in the course of a run. -/
def arrivals (ops : List (IoOp (SniffIo.Task RawEvent))) : List (Except IoError Bytes) :=
  ops.flatMap arrival

/-- A read has room for a byte, as the reads of the clients have. -/
def HasRoom : IoOp (SniffIo.Task RawEvent) → Prop
  | .pollRead buf => 0 < buf.remaining
  | _ => True

/-- What a turn of the environment leaves to come. -/
theorem arrival_inner (raw : RawTransport) (event : RawEvent)
    (later : List (Except IoError Bytes)) :
    (raw.runTask event).1.incoming ++ later
        = raw.incoming ++ (arrival (.task (.inner event)) ++ later) ∧
      (raw.runTask event).1.read = raw.read := by
  cases event with
  | arrive answer => exact ⟨List.append_assoc .., rfl⟩
  | accept answer => exact ⟨rfl, rfl⟩

/-- A write leaves what is to come. -/
theorem RawTransport.pollWrite_io (raw : RawTransport) (bs : Bytes) :
    (raw.pollWrite bs).io.incoming = raw.incoming ∧ (raw.pollWrite bs).io.read = raw.read := by
  rw [pollWrite]
  split <;> exact ⟨rfl, rfl⟩

/-! ### Without a tap -/

/-- A layer without a tap: bytes were read so far, or the end as well. -/
def Passes (bytes : Bytes) (ending : Option IoError) (later : List (Except IoError Bytes))
    (r : IoRun (SniffIo RawTransport)) : Prop :=
  ∃ raw, r.io.state = .passthrough raw ∧
    (Reading bytes ending raw later ∧ ReadsOnly raw.read r.seen ∨
      Delivers bytes (rawEnd ending) r.seen)

/-- A read of the transport brings nothing, the end, or some bytes. -/
theorem Reading.pollRead {bytes : Bytes} {ending : Option IoError} {raw : RawTransport}
    {later : List (Except IoError Bytes)} {seen : List ReadEvent}
    (h : Reading bytes ending raw later) (honly : ReadsOnly raw.read seen) {buf : ReadBuf}
    (hroom : 0 < buf.remaining) :
    Reading bytes ending (raw.pollRead buf).io later ∧ ReadsOnly (raw.pollRead buf).io.read
        (seen ++ IoRun.seenBy buf (raw.pollRead buf).result (raw.pollRead buf).buf) ∨
      Delivers bytes (rawEnd ending)
        (seen ++ IoRun.seenBy buf (raw.pollRead buf).result (raw.pollRead buf).buf) := by
  rcases raw.pollRead_cases _ hroom with hpoll | ⟨e, incoming, hin, hpoll⟩ |
    ⟨incoming, hin, hpoll⟩ | ⟨part, left, incoming, hpart, hin, hpoll⟩
  · rw [hpoll]
    simp only [IoRun.seenBy, List.append_nil]
    exact .inl ⟨h, honly⟩
  · obtain ⟨rfl, hread⟩ := h.error hin
    rw [hread] at honly
    rw [hpoll]
    exact .inr (honly.last _)
  · obtain ⟨rfl, hread⟩ := h.eof hin
    rw [hread] at honly
    rw [hpoll]
    simp only [IoRun.seenBy, ReadBuf.putSlice, List.drop_left]
    exact .inr (honly.last _)
  · rw [hpoll]
    simp only [IoRun.seenBy, ReadBuf.putSlice, List.drop_left]
    exact .inl ⟨h.taken hpart hin, honly.data hpart⟩

theorem Passes.step {bytes : Bytes} {ending : Option IoError} {later : List (Except IoError Bytes)}
    {r : IoRun (SniffIo RawTransport)} {op : IoOp (SniffIo.Task RawEvent)}
    (h : Passes bytes ending (arrival op ++ later) r) (hroom : HasRoom op) :
    Passes bytes ending later (r.step op) := by
  obtain ⟨raw, hstate, h⟩ := h
  cases op with
  | task t =>
      simp only [IoRun.step, AsyncIo.runTask, SniffIo.runTask, hstate]
      cases t with
      | inner event =>
          obtain ⟨hcome, hread⟩ := arrival_inner raw event later
          refine ⟨_, rfl, h.imp_left ?_⟩
          rintro ⟨hreading, honly⟩
          exact ⟨hreading.congr hcome hread, hread ▸ honly⟩
      | activeReader spare => exact ⟨raw, hstate, h⟩
      | tapForwarder => exact ⟨raw, hstate, h⟩
  | pollWrite bs =>
      obtain ⟨hcome, hread⟩ := raw.pollWrite_io bs
      simp only [IoRun.step, AsyncIo.pollWrite, SniffIo.pollWrite, hstate]
      refine ⟨_, rfl, h.imp_left ?_⟩
      rintro ⟨hreading, honly⟩
      exact ⟨hreading.congr (congrArg (· ++ later) hcome) hread, hread ▸ honly⟩
  | pollRead buf =>
      simp only [IoRun.step, AsyncIo.pollRead, SniffIo.pollRead, hstate]
      refine ⟨_, rfl, ?_⟩
      rcases h with ⟨hreading, honly⟩ | hdelivers
      · exact hreading.pollRead honly hroom
      · -- what is read behind the end does not matter
        exact .inr (hdelivers.append _)

theorem Passes.run {bytes : Bytes} {ending : Option IoError} {r : IoRun (SniffIo RawTransport)}
    {ops : List (IoOp (SniffIo.Task RawEvent))} (h : Passes bytes ending (arrivals ops) r)
    (hroom : ∀ op ∈ ops, HasRoom op) : Passes bytes ending [] (r.run ops) := by
  induction ops generalizing r with
  | nil => exact h
  | cons op ops ih =>
      exact ih (h.step (hroom op (List.mem_cons_self ..)))
        fun op' hop => hroom op' (List.mem_cons_of_mem _ hop)

/-- A layer without a tap in use. -/
def untappedRun (timing : Bool) (ops : List (IoOp (SniffIo.Task RawEvent))) :
    IoRun (SniffIo RawTransport) :=
  (IoRun.start (SniffIo.new RawTransport.new false timing)).run ops

/-- **What the owner reads through a layer without a tap**, once he has met the end. -/
theorem passthrough_delivers {chunks : List Bytes} (hne : ∀ c ∈ chunks, c ≠ [])
    {ending : Option IoError} {timing : Bool} {ops : List (IoOp (SniffIo.Task RawEvent))}
    (harrivals : arrivals ops = script chunks ending) (hroom : ∀ op ∈ ops, HasRoom op)
    (hend : ∃ event ∈ (untappedRun timing ops).seen, IsEnd event) :
    Delivers chunks.flatten (rawEnd ending) (untappedRun timing ops).seen := by
  have hstart : Passes chunks.flatten ending (arrivals ops)
      (IoRun.start (SniffIo.new RawTransport.new false timing)) := by
    rw [harrivals]
    exact ⟨_, rfl, .inl ⟨.new hne, [], rfl, by simp, rfl⟩⟩
  obtain ⟨raw, -, ⟨-, honly⟩ | hdelivers⟩ := hstart.run hroom
  · exact absurd hend honly.not_isEnd
  · exact hdelivers

/-! ### With a tap -/

/-- How far a capturing layer is: the background reader has not met the end; it has met it, and the
owner has not; or the owner has met it too, behind all bytes unless some were dropped. -/
inductive Sniffed (bytes : Bytes) (ending : Option IoError) (later : List (Except IoError Bytes))
    (s : Sniffing RawTransport) (seen : List ReadEvent) : Prop
  | reading (hfinished : s.readerFinished = false) (herror : s.dataChannel.error = none)
      (hreading : Reading bytes ending s.inner later) (honly : ∃ read, ReadsOnly read seen)
  | ended (hfinished : s.readerFinished = true)
      (herror : s.dataChannel.error = some (sniffedEnd ending)) (hread : s.inner.read = bytes)
      (honly : ∃ read, ReadsOnly read seen)
  | met (hfinished : s.readerFinished = true)
      (hdelivers : s.dataChannel.droppedBytes = 0 →
        Delivers bytes (.error (sniffedEnd ending)) seen)

namespace Sniffed

variable {bytes : Bytes} {ending : Option IoError} {later : List (Except IoError Bytes)}
  {s : Sniffing RawTransport} {seen : List ReadEvent} {effects : List Effect}
  {dataCapacity tapCapacity : ℕ} {sent received : List Bytes}

/-- Only the background reader, the data channel and what is to come matter. -/
theorem congr {s' : Sniffing RawTransport} {later' : List (Except IoError Bytes)}
    (h : Sniffed bytes ending later s seen) (hfin : s'.readerFinished = s.readerFinished)
    (herr : s'.dataChannel.error = s.dataChannel.error)
    (hdrop : s'.dataChannel.droppedBytes = s.dataChannel.droppedBytes)
    (hcome : s'.inner.incoming ++ later' = s.inner.incoming ++ later)
    (hread : s'.inner.read = s.inner.read) : Sniffed bytes ending later' s' seen := by
  cases h with
  | reading hfinished herror hreading honly =>
      exact .reading (hfin.trans hfinished) (herr.trans herror) (hreading.congr hcome hread) honly
  | ended hfinished herror hbytes honly =>
      exact .ended (hfin.trans hfinished) (herr.trans herror) (hread.trans hbytes) honly
  | met hfinished hdelivers =>
      refine .met (hfin.trans hfinished) fun hzero => hdelivers ?_
      rw [← hdrop, hzero]

/-- The owner reads some bytes. -/
theorem data (h : Sniffed bytes ending later s seen) {part : Bytes} (hpart : part ≠ []) :
    Sniffed bytes ending later s (seen ++ [ReadEvent.data part]) := by
  cases h with
  | reading hfinished herror hreading honly =>
      obtain ⟨read, honly⟩ := honly
      exact .reading hfinished herror hreading ⟨_, honly.data hpart⟩
  | ended hfinished herror hbytes honly =>
      obtain ⟨read, honly⟩ := honly
      exact .ended hfinished herror hbytes ⟨_, honly.data hpart⟩
  | met hfinished hdelivers => exact .met hfinished fun hzero => (hdelivers hzero).append _

theorem activeReader (h : Sniffed bytes ending later s seen)
    (hopen : s.dataChannel.closed = false) (spare : ℕ) :
    Sniffed bytes ending later (s.activeReader spare).1 seen := by
  rcases s.activeReader_cases spare with heq | ⟨hfin, e, incoming, hin, heq⟩ |
    ⟨hfin, incoming, hin, heq⟩ | ⟨hfin, part, left, incoming, hpart, hin, heq⟩
  · rw [heq]
    exact h
  all_goals
    rw [heq]
    cases h with
    | ended hfinished => exact absurd (hfin.symm.trans hfinished) Bool.false_ne_true
    | met hfinished => exact absurd (hfin.symm.trans hfinished) Bool.false_ne_true
    | reading hfinished herror hreading honly => ?_
  · obtain ⟨rfl, hread⟩ := hreading.error hin
    exact .ended rfl rfl hread honly
  · obtain ⟨rfl, hread⟩ := hreading.eof hin
    refine .ended rfl rfl ?_ honly
    rw [← hread]
    exact List.append_nil _
  · refine .reading hopen ?_ (hreading.taken hpart hin) honly
    rw [SniffChannel.send_error, herror]

theorem tapForwarder (h : Sniffed bytes ending later s seen) :
    Sniffed bytes ending later s.tapForwarder.1 seen := by
  rw [Sniffing.tapForwarder]
  split
  · exact h
  · split <;> exact h.congr rfl rfl rfl rfl rfl

/-- The owner is handed the front of some bytes. -/
theorem deliver (h : Sniffed bytes ending later s seen) {data : Bytes} (hdata : data ≠ [])
    {buf : ReadBuf} (hroom : 0 < buf.remaining) :
    Sniffed bytes ending later (s.deliver data buf).2
      (seen ++ [ReadEvent.data ((s.deliver data buf).1.filled.drop buf.filled.length)]) := by
  obtain ⟨part, left, -, hpart, -, hfilled, hs⟩ := s.deliver_cases data buf
  rw [hfilled, hs, List.drop_left]
  exact (h.data (hpart hroom hdata)).congr rfl rfl rfl rfl rfl

/-- The owner reads from the data channel. -/
theorem pollChannel (h : Sniffed bytes ending later s seen)
    (hbooks : Books dataCapacity tapCapacity s effects seen sent received)
    (hnone : s.pending = none) {buf : ReadBuf} (hroom : 0 < buf.remaining) :
    Sniffed bytes ending later (s.pollChannel buf).2.2
      (seen ++ IoRun.seenBy buf (s.pollChannel buf).1 (s.pollChannel buf).2.1) := by
  rw [Sniffing.pollChannel]
  rcases s.dataChannel.pollRecv_cases with ⟨data, queue, hq, hpoll⟩ | ⟨hq, e, he, hpoll⟩ |
    ⟨hq, he, hclosed, hpoll⟩ | ⟨hq, he, hclosed, hpoll⟩
  · rw [hpoll]
    have hmem : data ∈ received ++ s.dataChannel.queue := by simp [hq]
    have hdata := hbooks.nonempty data (hbooks.data.ordered.subset hmem)
    have hs : Sniffed bytes ending later { s with dataChannel := { s.dataChannel with
        queue := queue, totalBytes := s.dataChannel.totalBytes - data.length } } seen :=
      h.congr rfl rfl rfl rfl rfl
    exact hs.deliver hdata hroom
  · rw [hpoll]
    cases h with
    | reading hfinished herror => cases he.symm.trans herror
    | met hfinished hdelivers => exact .met hfinished fun hzero => (hdelivers hzero).append _
    | ended hfinished herror hread honly =>
        -- the error stands behind all bytes that were not dropped
        obtain ⟨read, honly⟩ := honly
        obtain rfl := Option.some.inj (he.symm.trans herror)
        refine .met hfinished fun hzero => ?_
        have hall := hbooks.data.flatten_eq hzero
        have hhanded := hbooks.handed
        rw [hnone, Option.getD_none, List.append_nil, honly.pending] at hhanded
        rw [hq, List.flatten_nil, List.append_nil, hhanded, hbooks.read, hread] at hall
        rw [hall] at honly
        exact honly.last _
  · rw [hbooks.dataOpen] at hclosed
    cases hclosed
  · rw [hpoll]
    simp only
    cases h with
    | reading hfinished herror hreading honly =>
        -- the reader is at work, so the owner waits
        rw [if_neg (by rw [hfinished]; exact Bool.false_ne_true), IoRun.seenBy, List.append_nil]
        exact .reading hfinished herror hreading honly
    | ended hfinished herror => cases he.symm.trans herror
    | met hfinished hdelivers =>
        rw [if_pos hfinished]
        exact .met hfinished fun hzero => (hdelivers hzero).append _

end Sniffed

section Sniffs

variable {bytes : Bytes} {ending : Option IoError} {dataCapacity tapCapacity : ℕ}

/-- A capturing layer in use, as far as it is. -/
def Sniffs (bytes : Bytes) (ending : Option IoError) (later : List (Except IoError Bytes))
    (r : IoRun (SniffIo RawTransport)) : Prop :=
  ∃ s, r.io.state = .sniffing s ∧ Sniffed bytes ending later s r.seen

theorem Sniffs.step {later : List (Except IoError Bytes)} {r : IoRun (SniffIo RawTransport)}
    {op : IoOp (SniffIo.Task RawEvent)} (h : Sniffs bytes ending (arrival op ++ later) r)
    (hbalances : r.Balances dataCapacity tapCapacity) (hroom : HasRoom op) :
    Sniffs bytes ending later (r.step op) := by
  obtain ⟨s, hstate, h⟩ := h
  obtain ⟨-, s', sent, received, hstate', hbooks⟩ := hbalances
  obtain rfl : s = s' := by
    rw [hstate] at hstate'
    exact SniffState.sniffing.inj hstate'
  cases op with
  | task t =>
      simp only [IoRun.step, AsyncIo.runTask, SniffIo.runTask, hstate]
      cases t with
      | activeReader spare => exact ⟨_, rfl, h.activeReader hbooks.dataOpen spare⟩
      | tapForwarder => exact ⟨_, rfl, h.tapForwarder⟩
      | inner event =>
          obtain ⟨hcome, hread⟩ := arrival_inner s.inner event later
          exact ⟨_, rfl, h.congr rfl rfl rfl hcome hread⟩
  | pollWrite bs =>
      obtain ⟨hcome, hread⟩ := s.inner.pollWrite_io bs
      simp only [IoRun.step, AsyncIo.pollWrite, SniffIo.pollWrite, hstate]
      exact ⟨_, rfl, h.congr rfl rfl rfl (congrArg (· ++ later) hcome) hread⟩
  | pollRead buf =>
      simp only [IoRun.step, AsyncIo.pollRead, SniffIo.pollRead, hstate]
      cases hleft : s.pending with
      | some left => exact ⟨_, rfl, h.deliver (hbooks.leftover left hleft) hroom⟩
      | none => exact ⟨_, rfl, h.pollChannel hbooks hleft hroom⟩

theorem Sniffs.run {r : IoRun (SniffIo RawTransport)} {ops : List (IoOp (SniffIo.Task RawEvent))}
    (h : Sniffs bytes ending (arrivals ops) r) (hbalances : r.Balances dataCapacity tapCapacity)
    (hroom : ∀ op ∈ ops, HasRoom op) : Sniffs bytes ending [] (r.run ops) := by
  induction ops generalizing r with
  | nil => exact h
  | cons op ops ih =>
      exact ih (h.step hbalances (hroom op (List.mem_cons_self ..))) (hbalances.step op)
        fun op' hop => hroom op' (List.mem_cons_of_mem _ hop)

end Sniffs

/-- A capturing layer in use. -/
def tappedRun (timing : Bool) (bufSize dataCapacity tapCapacity : ℕ)
    (ops : List (IoOp (SniffIo.Task RawEvent))) : IoRun (SniffIo RawTransport) :=
  (IoRun.start (SniffIo.startSniffing RawTransport.new timing bufSize dataCapacity tapCapacity)).run
    ops

/-- **What the owner reads through a capturing layer**, once he has met the end, when nothing was
evicted from the data channel. -/
theorem sniffing_delivers {chunks : List Bytes} (hne : ∀ c ∈ chunks, c ≠ [])
    {ending : Option IoError} {timing : Bool} {bufSize dataCapacity tapCapacity : ℕ}
    {ops : List (IoOp (SniffIo.Task RawEvent))} (harrivals : arrivals ops = script chunks ending)
    (hroom : ∀ op ∈ ops, HasRoom op)
    (hkept : (tappedRun timing bufSize dataCapacity tapCapacity ops).io.dataDroppedBytes = 0)
    (hend : ∃ event ∈ (tappedRun timing bufSize dataCapacity tapCapacity ops).seen, IsEnd event) :
    Delivers chunks.flatten (.error (sniffedEnd ending))
      (tappedRun timing bufSize dataCapacity tapCapacity ops).seen := by
  have hstart : Sniffs chunks.flatten ending (arrivals ops) (IoRun.start
      (SniffIo.startSniffing .new timing bufSize dataCapacity tapCapacity)) := by
    rw [harrivals]
    exact ⟨_, rfl, .reading rfl rfl (.new hne) ⟨[], [], rfl, by simp, rfl⟩⟩
  obtain ⟨s, hstate, hsniffed⟩ :=
    hstart.run (IoRun.balances_start timing bufSize dataCapacity tapCapacity) hroom
  cases hsniffed with
  | reading hfinished herror hreading honly =>
      obtain ⟨read, honly⟩ := honly
      exact absurd hend honly.not_isEnd
  | ended hfinished herror hread honly =>
      obtain ⟨read, honly⟩ := honly
      exact absurd hend honly.not_isEnd
  | met hfinished hdelivers =>
      refine hdelivers ?_
      rw [SniffIo.dataDroppedBytes] at hkept
      simpa only [tappedRun, hstate] using hkept

end OmsModbus.Capture
