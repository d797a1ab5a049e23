/-
**The books of a capturing layer.**

Over a raw transport, whatever a capturing layer reads goes into both of its channels, and a channel
accounts for every byte that went into it.  So at any time the bytes that were read from the
transport are those that were reported to the tap, those that wait for it and those that its channel
dropped; and they are those that the owner has read, those that wait for him and those that his
channel dropped.  What was written to the transport was reported, byte for byte.

Main definitions:

* `OmsModbus.Capture.Books` — the books of a layer;
* `OmsModbus.Capture.IoRun.Balances` — a layer in use whose books balance.

Main results:

* `OmsModbus.Capture.Sniffing.activeReader_cases` — what a turn of the background reader does;
* `OmsModbus.Capture.ioRun_balances` — **the books of a capturing layer balance** after any
  operations;
* `OmsModbus.Capture.sniffing_reads` — **reads through a capturing layer lose and duplicate
  nothing** while its data channel drops nothing.
-/

import OmsModbus.SniffIo

set_option relaxedAutoImplicit false
set_option autoImplicit false

namespace OmsModbus.Capture

/-! ### What the tasks and the reads of a layer do -/

/-- The branches of a turn of the background reader over a raw transport. -/
theorem Sniffing.activeReader_cases (s : Sniffing RawTransport) (spare : ℕ) :
    s.activeReader spare = (s, []) ∨
    (s.readerFinished = false ∧ ∃ e incoming, s.inner.incoming = .error e :: incoming ∧
      s.activeReader spare = ({ s with
        inner := { s.inner with incoming := incoming }
        dataChannel := s.dataChannel.sendError e
        readerFinished := true }, [])) ∨
    (s.readerFinished = false ∧ ∃ incoming, s.inner.incoming = .ok [] :: incoming ∧
      s.activeReader spare = ({ s with
        inner := s.inner.taken [] [] incoming
        dataChannel := s.dataChannel.sendError ⟨.unexpectedEof, "transport closed"⟩
        readerFinished := true }, [])) ∨
    (s.readerFinished = false ∧ ∃ part left incoming, part ≠ [] ∧
      s.inner.incoming = .ok (part ++ left) :: incoming ∧
      s.activeReader spare = ({ s with
        inner := s.inner.taken part left incoming
        dataChannel := s.dataChannel.send part
        tapChannel := s.tapChannel.send part
        readerFinished := s.dataChannel.closed }, [])) := by
  have hbuf : ∀ part : Bytes, (ReadBuf.putSlice ⟨[], spare + 1⟩ part).filled = part := fun _ => rfl
  cases hfin : s.readerFinished with
  | true =>
      left
      rw [activeReader, if_pos hfin]
  | false =>
      rw [activeReader, if_neg (by rw [hfin]; exact Bool.false_ne_true)]
      simp only [AsyncIo.pollRead]
      rcases s.inner.pollRead_cases ⟨[], spare + 1⟩ (Nat.succ_pos spare) with hpoll |
        ⟨e, incoming, hin, hpoll⟩ | ⟨incoming, hin, hpoll⟩ | ⟨part, left, incoming, hne, hin, hpoll⟩
      · exact .inl (by rw [hpoll])
      · exact .inr (.inl ⟨trivial, e, incoming, hin, by rw [hpoll]⟩)
      · refine .inr (.inr (.inl ⟨trivial, incoming, hin, ?_⟩))
        rw [hpoll]
        simp only [hbuf, if_true]
      · refine .inr (.inr (.inr ⟨trivial, part, left, incoming, hne, hin, ?_⟩))
        rw [hpoll]
        simp only [hbuf, if_neg hne, SniffChannel.isClosed, SniffChannel.send_closed]

/-- A delivery hands out the front of the data and keeps the rest. -/
theorem Sniffing.deliver_cases {τ : Type} (s : Sniffing τ) (data : Bytes) (buf : ReadBuf) :
    ∃ part left, part ++ left.getD [] = data ∧ (0 < buf.remaining → data ≠ [] → part ≠ []) ∧
      (∀ l, left = some l → l ≠ []) ∧ (s.deliver data buf).1.filled = buf.filled ++ part ∧
      (s.deliver data buf).2 = { s with pending := left } := by
  refine ⟨data.take (min data.length buf.remaining), _, ?_, ?_, ?_, rfl, rfl⟩
  · split
    · rw [Option.getD_some, List.take_append_drop]
    · next h => rw [Option.getD_none, List.append_nil, List.take_of_length_le (by omega)]
  · intro hroom hdata hpart
    have hpos := List.length_pos_iff.2 hdata
    have hlen := congrArg List.length hpart
    rw [List.length_take, List.length_nil] at hlen
    omega
  · intro l hl hnil
    split at hl
    · cases hl
      have hlen := congrArg List.length hnil
      rw [List.length_drop, List.length_nil] at hlen
      omega
    · cases hl

/-! ### The books of a layer -/

/-- The books of a capturing layer over a raw transport: `sent` are the chunks that went into its
channels, and `received` those that the reads of the owner took. -/
structure Books (dataCapacity tapCapacity : ℕ) (s : Sniffing RawTransport) (effects : List Effect)
    (seen : List ReadEvent) (sent received : List Bytes) : Prop where
  data : (ChannelRun.mk s.dataChannel sent received).Conserves
  tap : (ChannelRun.mk s.tapChannel sent (onReads effects)).Conserves
  nonempty : ∀ chunk ∈ sent, chunk ≠ []
  read : sent.flatten = s.inner.read
  handed : received.flatten = OmsModbus.pending seen ++ s.pending.getD []
  leftover : ∀ left, s.pending = some left → left ≠ []
  written : (onWrites effects).flatten = s.inner.written
  dataOpen : s.dataChannel.closed = false
  dataCap : s.dataChannel.capacity = dataCapacity
  tapCap : s.tapChannel.capacity = tapCapacity

namespace Books

variable {dataCapacity tapCapacity : ℕ} {s : Sniffing RawTransport} {effects : List Effect}
  {seen : List ReadEvent} {sent received : List Bytes}

theorem activeReader (h : Books dataCapacity tapCapacity s effects seen sent received)
    (spare : ℕ) : ∃ sent', Books dataCapacity tapCapacity (s.activeReader spare).1
      (effects ++ (s.activeReader spare).2) seen sent' received := by
  rcases s.activeReader_cases spare with heq | ⟨-, e, incoming, -, heq⟩ | ⟨-, incoming, -, heq⟩ |
    ⟨-, chunk, left, incoming, hne, -, heq⟩
  · rw [heq, List.append_nil]
    exact ⟨sent, h⟩
  · rw [heq, List.append_nil]
    exact ⟨sent, { h with data := ChannelRun.step_conserves h.data (.sendError e) }⟩
  · rw [heq, List.append_nil]
    refine ⟨sent, { h with data := ChannelRun.step_conserves h.data (.sendError _), read := ?_ }⟩
    rw [h.read]
    exact (List.append_nil _).symm
  · -- the chunk goes into both channels
    rw [heq, List.append_nil]
    refine ⟨sent ++ [chunk], ChannelRun.step_conserves h.data (.send chunk),
      ChannelRun.step_conserves h.tap (.send chunk), ?_, ?_, h.handed, h.leftover,
      h.written, ?_, ?_, ?_⟩
    · intro c hc
      rcases List.mem_append.1 hc with hc | hc
      · exact h.nonempty c hc
      · rw [List.mem_singleton.1 hc]
        exact hne
    · rw [List.flatten_append, h.read, List.flatten_singleton]
      rfl
    · rw [SniffChannel.send_closed, h.dataOpen]
    · rw [SniffChannel.send_capacity, h.dataCap]
    · rw [SniffChannel.send_capacity, h.tapCap]

theorem tapForwarder (h : Books dataCapacity tapCapacity s effects seen sent received) :
    Books dataCapacity tapCapacity s.tapForwarder.1 (effects ++ s.tapForwarder.2) seen sent
      received := by
  have htap := ChannelRun.step_conserves h.tap .pollRecv
  have hcap := h.tapCap
  rw [ChannelRun.step] at htap
  rw [Sniffing.tapForwarder]
  split
  · rw [List.append_nil]
    exact h
  · rw [← s.tapChannel.pollRecv_capacity] at hcap
    split
    · next chunk tapChannel hpoll =>
      rw [hpoll] at hcap
      simp only [hpoll] at htap
      refine { h with tap := ?_, written := ?_, tapCap := hcap }
      · rw [onReads_append]
        exact htap
      · rw [onWrites_append]
        simpa [onWrites] using h.written
    · next tapChannel hpoll =>
      rw [hpoll] at hcap
      simp only [hpoll] at htap
      rw [List.append_nil]
      exact { h with tap := htap, tapCap := hcap }
    · next e tapChannel hpoll =>
      rw [hpoll] at hcap
      simp only [hpoll] at htap
      rw [List.append_nil]
      exact { h with tap := htap, tapCap := hcap }

/-- Handing out `data`, the first of the bytes that are on their way to the owner. -/
theorem deliver {data : Bytes}
    (h : Books dataCapacity tapCapacity { s with pending := some data } effects seen sent received)
    (buf : ReadBuf) :
    Books dataCapacity tapCapacity (s.deliver data buf).2 effects
      (seen ++ [ReadEvent.data ((s.deliver data buf).1.filled.drop buf.filled.length)]) sent
      received := by
  obtain ⟨part, left, hdata, -, hleft, hfilled, hs⟩ := s.deliver_cases data buf
  rw [hfilled, hs, List.drop_left]
  refine { h with handed := ?_, leftover := hleft }
  have hhanded := h.handed
  rw [Option.getD_some] at hhanded
  rw [hhanded, pending_append, OmsModbus.pending, OmsModbus.pending, List.append_nil,
    List.append_assoc, hdata]

/-- A read that finds nothing left over. -/
theorem pollChannel (h : Books dataCapacity tapCapacity s effects seen sent received)
    (hnone : s.pending = none) (buf : ReadBuf) :
    ∃ received', Books dataCapacity tapCapacity (s.pollChannel buf).2.2 effects
      (seen ++ IoRun.seenBy buf (s.pollChannel buf).1 (s.pollChannel buf).2.1) sent received' := by
  have hdata := ChannelRun.step_conserves h.data .pollRecv
  have hhanded := h.handed
  have hcap := s.dataChannel.pollRecv_capacity
  have hclosed := s.dataChannel.pollRecv_closed
  rw [h.dataCap] at hcap
  rw [h.dataOpen] at hclosed
  rw [hnone, Option.getD_none, List.append_nil] at hhanded
  rw [ChannelRun.step] at hdata
  rw [Sniffing.pollChannel]
  split
  · next data dataChannel hpoll =>
    -- the chunk leaves the channel, and is all that is on its way to the owner
    rw [hpoll] at hcap hclosed
    simp only [hpoll] at hdata
    refine ⟨received ++ [data], deliver (s := { s with dataChannel := dataChannel }) { h with
      data := hdata, handed := ?_, leftover := ?_, dataOpen := hclosed, dataCap := hcap } buf⟩
    · rw [List.flatten_append, List.flatten_singleton, hhanded, Option.getD_some]
    · intro left hleft
      cases hleft
      exact h.nonempty data (hdata.ordered.subset (by simp))
  · next dataChannel hpoll =>
    rw [hpoll] at hcap hclosed
    simp only [hpoll] at hdata
    refine ⟨received, ?_⟩
    split
    · refine { h with data := hdata, handed := ?_, dataOpen := hclosed, dataCap := hcap }
      rw [pending_append, h.handed]
      simp [IoRun.seenBy, OmsModbus.pending]
    · rw [IoRun.seenBy, List.append_nil]
      exact { h with data := hdata, dataOpen := hclosed, dataCap := hcap }
  · next e dataChannel hpoll =>
    rw [hpoll] at hcap hclosed
    simp only [hpoll] at hdata
    refine ⟨received, { h with
      data := hdata, handed := ?_, dataOpen := hclosed, dataCap := hcap }⟩
    rw [pending_append, h.handed]
    simp [IoRun.seenBy, OmsModbus.pending]

/-- Touching the bus timing is no report. -/
theorem touch (h : Books dataCapacity tapCapacity s effects seen sent received)
    (io : SniffIo RawTransport) (moved : Bool) :
    Books dataCapacity tapCapacity s (effects ++ io.touch moved) seen sent received := by
  rw [SniffIo.touch]
  split
  · refine { h with tap := ?_, written := ?_ }
    · rw [onReads_append]
      simpa [onReads] using h.tap
    · rw [onWrites_append]
      simpa [onWrites] using h.written
  · rw [List.append_nil]
    exact h

/-- A read of the owner. -/
theorem pollRead {io : SniffIo RawTransport}
    (h : Books dataCapacity tapCapacity s effects seen sent received)
    (hstate : io.state = .sniffing s) (buf : ReadBuf) :
    ∃ s' received', (io.pollRead buf).io = { io with state := .sniffing s' } ∧
      Books dataCapacity tapCapacity s' (effects ++ (io.pollRead buf).effects)
        (seen ++ IoRun.seenBy buf (io.pollRead buf).result (io.pollRead buf).buf) sent
        received' := by
  simp only [SniffIo.pollRead, hstate]
  cases hleft : s.pending with
  | some left =>
      refine ⟨_, received, rfl, ?_⟩
      rw [List.append_nil]
      refine deliver ?_ buf
      rw [← hleft]
      exact h
  | none =>
      obtain ⟨received', hbooks⟩ := h.pollChannel hleft buf
      exact ⟨_, received', rfl, hbooks.touch io _⟩

/-- A write of the owner, when the layer has a tap. -/
theorem pollWrite {io : SniffIo RawTransport}
    (h : Books dataCapacity tapCapacity s effects seen sent received)
    (hstate : io.state = .sniffing s) (htap : io.tap = true) (bs : Bytes) :
    ∃ s', (io.pollWrite bs).io = { io with state := .sniffing s' } ∧
      Books dataCapacity tapCapacity s' (effects ++ (io.pollWrite bs).effects) seen sent
        received := by
  simp only [SniffIo.pollWrite, hstate, AsyncIo.pollWrite, RawTransport.pollWrite]
  cases hacc : s.inner.accepting with
  | nil =>
      refine ⟨_, rfl, ?_⟩
      simpa [SniffIo.report] using h
  | cons answer accepting =>
      cases answer with
      | error e =>
          refine ⟨_, rfl, ?_⟩
          simp only [SniffIo.report, List.append_nil]
          exact { h with }
      | ok n =>
          have htake : bs.take (min n bs.length) = bs.take n := List.take_eq_take_min.symm
          refine ⟨_, rfl, ?_⟩
          simp only [SniffIo.report, htap, if_true, List.nil_append, htake]
          split
          · have hwrite : Books dataCapacity tapCapacity
                { s with inner := { s.inner with
                  accepting := accepting, written := s.inner.written ++ bs.take n } }
                (effects ++ [Effect.onWrite (bs.take n)]) seen sent received := by
              refine { h with tap := ?_, written := ?_ }
              · rw [onReads_append]
                simpa [onReads] using h.tap
              · rw [onWrites_append, List.flatten_append, h.written]
                simp [onWrites]
            rw [← List.append_assoc]
            exact hwrite.touch io true
          · next hzero =>
            -- a write that takes nothing is not reported
            have hnil : bs.take n = [] := by
              rw [← htake, Nat.eq_zero_of_not_pos hzero, List.take_zero]
            rw [List.append_nil, hnil]
            exact { h with written := by rw [h.written, List.append_nil] }

end Books

/-- A capturing layer with a tap over a raw transport, whose books balance. -/
def IoRun.Balances (dataCapacity tapCapacity : ℕ) (r : IoRun (SniffIo RawTransport)) : Prop :=
  r.io.tap = true ∧ ∃ s sent received, r.io.state = .sniffing s ∧
    Books dataCapacity tapCapacity s r.effects r.seen sent received

/-- A layer that was just built over a transport that was just opened. -/
theorem IoRun.balances_start (timing : Bool) (bufSize dataCapacity tapCapacity : ℕ) :
    (IoRun.start (SniffIo.startSniffing .new timing bufSize dataCapacity tapCapacity)).Balances
      dataCapacity tapCapacity := by
  refine ⟨rfl, _, [], [], rfl, ChannelRun.new_conserves dataCapacity,
    ChannelRun.new_conserves tapCapacity, ?_, rfl, rfl, ?_, rfl, rfl, rfl, rfl⟩
  · intro chunk hchunk
    cases hchunk
  · intro left hleft
    cases hleft

/-- **Every operation keeps the books of a layer.** -/
theorem IoRun.Balances.step {dataCapacity tapCapacity : ℕ} {r : IoRun (SniffIo RawTransport)}
    (h : r.Balances dataCapacity tapCapacity) (op : IoOp (SniffIo.Task RawEvent)) :
    (r.step op).Balances dataCapacity tapCapacity := by
  obtain ⟨htap, s, sent, received, hstate, hbooks⟩ := h
  cases op with
  | task t =>
      simp only [IoRun.step, AsyncIo.runTask, SniffIo.runTask, hstate]
      cases t with
      | activeReader spare =>
          obtain ⟨sent', hbooks'⟩ := hbooks.activeReader spare
          exact ⟨htap, _, sent', received, rfl, hbooks'⟩
      | tapForwarder => exact ⟨htap, _, sent, received, rfl, hbooks.tapForwarder⟩
      | inner event =>
          refine ⟨htap, _, sent, received, rfl, ?_⟩
          cases event with
          | arrive answer =>
              simp only [RawTransport.runTask, List.append_nil]
              exact { hbooks with }
          | accept answer =>
              simp only [RawTransport.runTask, List.append_nil]
              exact { hbooks with }
  | pollRead buf =>
      obtain ⟨s', received', hio, hbooks'⟩ := hbooks.pollRead hstate buf
      refine ⟨?_, s', sent, received', ?_, hbooks'⟩
      · change (r.io.pollRead buf).io.tap = true
        rw [hio]
        exact htap
      · change (r.io.pollRead buf).io.state = .sniffing s'
        rw [hio]
  | pollWrite bs =>
      obtain ⟨s', hio, hbooks'⟩ := hbooks.pollWrite hstate htap bs
      refine ⟨?_, s', sent, received, ?_, hbooks'⟩
      · change (r.io.pollWrite bs).io.tap = true
        rw [hio]
        exact htap
      · change (r.io.pollWrite bs).io.state = .sniffing s'
        rw [hio]

/-- **The books of a capturing layer balance** after any operations: what was read from the
transport went into both channels, and both account for it. -/
theorem ioRun_balances {dataCapacity tapCapacity : ℕ} {r : IoRun (SniffIo RawTransport)}
    (h : r.Balances dataCapacity tapCapacity) (ops : List (IoOp (SniffIo.Task RawEvent))) :
    (r.run ops).Balances dataCapacity tapCapacity := by
  induction ops generalizing r with
  | nil => exact h
  | cons op ops ih => exact ih (h.step op)

/-! ### The reads of the owner -/

section Reads

variable {dataCapacity tapCapacity : ℕ} {s : Sniffing RawTransport} {effects : List Effect}
  {seen : List ReadEvent} {sent received : List Bytes}

/-- What waits for the owner is not empty. -/
theorem Books.queued_ne_nil (h : Books dataCapacity tapCapacity s effects seen sent received) :
    ∀ chunk ∈ s.dataChannel.queue, chunk ≠ [] := by
  intro chunk hchunk
  exact h.nonempty chunk (h.data.ordered.subset (List.mem_append_right _ hchunk))

/-- When the data channel has dropped nothing, the owner has read all but what waits for him. -/
theorem Books.handed_eq (h : Books dataCapacity tapCapacity s effects seen sent received)
    (hkept : s.dataChannel.droppedBytes = 0) :
    OmsModbus.pending seen ++ s.pending.getD [] ++ s.dataChannel.queue.flatten = s.inner.read := by
  have hdata := h.data.flatten_eq hkept
  rw [h.handed, h.read] at hdata
  exact hdata

/-- A read with room for a byte brings one while something waits. -/
theorem Books.pollRead_brings {io : SniffIo RawTransport}
    (h : Books dataCapacity tapCapacity s effects seen sent received)
    (hstate : io.state = .sniffing s) {buf : ReadBuf} (hroom : 0 < buf.remaining)
    (hwaits : s.pending ≠ none ∨ s.dataChannel.queue ≠ []) :
    (io.pollRead buf).result = .ready (.ok ()) ∧
      ∃ part, part ≠ [] ∧ (io.pollRead buf).buf.filled = buf.filled ++ part := by
  simp only [SniffIo.pollRead, hstate]
  cases hleft : s.pending with
  | some left =>
      obtain ⟨part, -, -, hne, -, hfilled, -⟩ := s.deliver_cases left buf
      exact ⟨rfl, part, hne hroom (h.leftover left hleft), hfilled⟩
  | none =>
      have hqueue : s.dataChannel.queue ≠ [] := hwaits.resolve_left (fun hp => hp hleft)
      rcases s.dataChannel.pollRecv_cases with ⟨data, queue, hq, hpoll⟩ | ⟨hq, -⟩ | ⟨hq, -⟩ |
        ⟨hq, -⟩
      · have hdata : data ≠ [] := h.queued_ne_nil data (by rw [hq]; exact List.mem_cons_self ..)
        obtain ⟨part, -, -, hne, -, hfilled, -⟩ := Sniffing.deliver_cases
          { s with dataChannel := { s.dataChannel with
            queue := queue, totalBytes := s.dataChannel.totalBytes - data.length } } data buf
        rw [Sniffing.pollChannel, hpoll]
        exact ⟨rfl, part, hne hroom hdata, hfilled⟩
      · exact absurd hq hqueue
      · exact absurd hq hqueue
      · exact absurd hq hqueue

end Reads

/-- **Reads through a capturing layer lose and duplicate nothing**, while its data channel drops
nothing: what the owner has read, what is left over from his last read and what is queued for him
are the bytes that were read from the transport, in order; and while something waits for him, a read
with room for a byte brings one. -/
theorem sniffing_reads (timing : Bool) (bufSize dataCapacity tapCapacity : ℕ)
    (ops : List (IoOp (SniffIo.Task RawEvent))) (s : Sniffing RawTransport)
    (hstate : ((IoRun.start (SniffIo.startSniffing RawTransport.new timing bufSize dataCapacity
      tapCapacity)).run ops).io.state = .sniffing s)
    (hkept : s.dataChannel.droppedBytes = 0) :
    let r := (IoRun.start (SniffIo.startSniffing RawTransport.new timing bufSize dataCapacity
      tapCapacity)).run ops
    OmsModbus.pending r.seen ++ s.pending.getD [] ++ s.dataChannel.queue.flatten = s.inner.read ∧
      ∀ buf : ReadBuf, 0 < buf.remaining →
        (s.pending ≠ none ∨ s.dataChannel.queue ≠ []) →
        (r.io.pollRead buf).result = .ready (.ok ()) ∧
          ∃ part, part ≠ [] ∧ (r.io.pollRead buf).buf.filled = buf.filled ++ part := by
  intro r
  obtain ⟨-, s', sent, received, hstate', hbooks⟩ :=
    ioRun_balances (IoRun.balances_start timing bufSize dataCapacity tapCapacity) ops
  rw [hstate] at hstate'
  cases hstate'
  refine ⟨hbooks.handed_eq hkept, ?_⟩
  intro buf hroom hwaits
  exact hbooks.pollRead_brings hstate hroom hwaits

/-- A chunk is read without room, then in two pieces, while another one comes in. -/
theorem sniffing_reads_pieces :
    let ops : List (IoOp (SniffIo.Task RawEvent)) :=
      [.task (.inner (.arrive (.ok [1, 2, 3]))), .task (.activeReader 7), .pollRead ⟨[], 0⟩,
        .pollRead ⟨[], 2⟩, .task (.inner (.arrive (.ok [4]))), .task (.activeReader 7)]
    let r := (IoRun.start (SniffIo.startSniffing RawTransport.new false 4096 16 16)).run ops
    ∃ s, r.io.state = .sniffing s ∧
      OmsModbus.pending r.seen ++ s.pending.getD [] ++ s.dataChannel.queue.flatten
        = s.inner.read ∧
      (s.inner.read = [1, 2, 3, 4] ∧ s.pending = some [3]) :=
  ⟨_, rfl, (sniffing_reads false 4096 16 16 _ _ rfl rfl).1, rfl, rfl⟩

end OmsModbus.Capture
