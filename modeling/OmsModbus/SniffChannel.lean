/-
**The channels of a capture.**

The bytes that a capture reads go from the background reader to their two readers through bounded
queues of chunks.  A queue never makes its producer wait: when a chunk does not fit, the oldest
chunks are dropped until it does, and a chunk that would not fit into the empty queue is dropped as
well.  The capacity may change at any time.  The loop that makes room for a chunk and the loop that
shrinks the queue are two loops of the source, and both keep the same counters.

Main definitions:

* `OmsModbus.SniffChannel` — a channel;
* `OmsModbus.SniffChannel.send`, `OmsModbus.SniffChannel.setCapacity`,
  `OmsModbus.SniffChannel.pollRecv` — its operations;
* `OmsModbus.ChannelRun` — a channel with what was sent into it and received from it;
* `OmsModbus.ChannelRun.Conserves` — the books of a channel balance.

Main results:

* `OmsModbus.SniffChannel.send_keepsYoungest`, `OmsModbus.SniffChannel.setCapacity_keepsYoungest` —
  what the two loops do to the queue and to the counters;
* `OmsModbus.channelRun_conserves` — the books balance after any operations;
* `OmsModbus.sniffChannel_conserves` — **a channel conserves and orders bytes**.
-/

import OmsModbus.DropOldest
import OmsModbus.Error
import OmsModbus.Frame

set_option relaxedAutoImplicit false
set_option autoImplicit false

namespace OmsModbus

open DropOldest

/-! ### The channel -/

/-- A bounded channel of chunks.  Of a registered waker only its presence matters. -/
structure SniffChannel where
  queue : List Bytes
  totalBytes : ℕ
  capacity : ℕ
  droppedChunks : ℕ
  droppedBytes : ℕ
  closed : Bool
  error : Option IoError
  waker : Bool

namespace SniffChannel

def new (capacity : ℕ) : SniffChannel where
  queue := []
  totalBytes := 0
  capacity := capacity
  droppedChunks := 0
  droppedBytes := 0
  closed := false
  error := none
  waker := false

/-- The body of the eviction loops: the oldest chunk leaves the queue, and `queue` is what is behind
it. -/
def evictOldest (s : SniffChannel) (old : Bytes) (queue : List Bytes) : SniffChannel :=
  { s with
    queue := queue
    totalBytes := s.totalBytes - old.length
    droppedChunks := s.droppedChunks + 1
    droppedBytes := s.droppedBytes + old.length }

/-- The loop of `send`: the oldest chunks are evicted until there is room for `len` bytes.  When the
queue runs empty before that, the chunk itself is counted as dropped and the function returns. -/
def makeRoom (len : ℕ) : List Bytes → SniffChannel → SniffChannel × Bool
  | [], s =>
      if s.totalBytes + len > s.capacity then
        ({ s with
            droppedChunks := s.droppedChunks + 1
            droppedBytes := s.droppedBytes + len }, false)
      else (s, true)
  | old :: queue, s =>
      if s.totalBytes + len > s.capacity then makeRoom len queue (s.evictOldest old queue)
      else (s, true)

/-- A chunk is pushed, and the consumer is woken. -/
def send (s : SniffChannel) (chunk : Bytes) : SniffChannel :=
  match makeRoom chunk.length s.queue s with
  | (s, false) => s
  | (s, true) =>
    { s with
      queue := s.queue ++ [chunk]
      totalBytes := s.totalBytes + chunk.length
      waker := false }

/-- A fatal error of the transport. -/
def sendError (s : SniffChannel) (error : IoError) : SniffChannel :=
  { s with error := some error, waker := false }

/-- The loop of `setCapacity`. -/
def shrink : List Bytes → SniffChannel → SniffChannel
  | [], s => s
  | old :: queue, s =>
      if s.totalBytes > s.capacity then shrink queue (s.evictOldest old queue) else s

def setCapacity (s : SniffChannel) (newCap : ℕ) : SniffChannel :=
  shrink s.queue { s with capacity := newCap }

def isClosed (s : SniffChannel) : Bool := s.closed

def close (s : SniffChannel) : SniffChannel := { s with closed := true, waker := false }

/-- A chunk if there is one, then the error, which is taken, then the end of the channel; otherwise
the consumer waits. -/
def pollRecv (s : SniffChannel) : Except IoError (Option Bytes) × SniffChannel :=
  match s.queue with
  | data :: queue =>
      (.ok (some data), { s with queue := queue, totalBytes := s.totalBytes - data.length })
  | [] =>
    match s.error with
    | some e => (.error e, { s with error := none })
    | none =>
      if s.closed then (.error ⟨.unexpectedEof, "channel closed"⟩, s)
      else (.ok none, { s with waker := true })

/-! ### The eviction loops -/

/-- The counted bytes are those in the queue. -/
def Counted (s : SniffChannel) : Prop := s.totalBytes = weight List.length s.queue

/-- `s'` holds the youngest chunks of `q` that its capacity has room for, and counts the others as
dropped on top of what `s` had counted. -/
structure KeepsYoungest (q : List Bytes) (s s' : SniffChannel) : Prop where
  queue : s'.queue = keep List.length s'.capacity q
  counted : s'.Counted
  bytes : weight List.length q + s.droppedBytes = weight List.length s'.queue + s'.droppedBytes
  chunks : q.length + s.droppedChunks = s'.queue.length + s'.droppedChunks

theorem evictOldest_counted {s : SniffChannel} {old : Bytes} {queue : List Bytes}
    (h : s.Counted) (hq : s.queue = old :: queue) : (s.evictOldest old queue).Counted := by
  rw [Counted, hq, weight_cons] at h
  rw [Counted, evictOldest]
  simp only
  omega

/-- An evicted chunk is counted as dropped, with its bytes. -/
theorem evictOldest_bytes (s : SniffChannel) (old : Bytes) (queue : List Bytes) :
    weight List.length queue + (s.evictOldest old queue).droppedBytes
      = weight List.length (old :: queue) + s.droppedBytes := by
  rw [evictOldest, weight_cons]
  simp only
  omega

theorem evictOldest_chunks (s : SniffChannel) (old : Bytes) (queue : List Bytes) :
    queue.length + (s.evictOldest old queue).droppedChunks
      = (old :: queue).length + s.droppedChunks := by
  rw [evictOldest, List.length_cons]
  simp only
  omega

/-- A chunk that fits by itself gets its room. -/
theorem makeRoom_of_le {len : ℕ} {q : List Bytes} {s : SniffChannel} (hq : s.queue = q)
    (h : s.Counted) (hlen : len ≤ s.capacity) :
    ∃ s', makeRoom len q s = (s', true) ∧ s'.queue = keep List.length (s.capacity - len) q ∧
      s'.Counted ∧ s'.capacity = s.capacity ∧
      weight List.length q + s.droppedBytes = weight List.length s'.queue + s'.droppedBytes ∧
      q.length + s.droppedChunks = s'.queue.length + s'.droppedChunks := by
  induction q generalizing s with
  | nil =>
      have htotal : s.totalBytes = 0 := by rw [h, hq, weight_nil]
      refine ⟨s, ?_, hq, h, rfl, by rw [hq], by rw [hq]⟩
      rw [makeRoom, if_neg (by omega)]
  | cons old queue ih =>
      have htotal : s.totalBytes = weight List.length (old :: queue) := by rw [h, hq]
      rw [makeRoom]
      by_cases hfull : s.totalBytes + len > s.capacity
      · obtain ⟨s', hloop, hqueue, hcounted, hcap, hbytes, hchunks⟩ :=
          ih (s := s.evictOldest old queue) rfl (evictOldest_counted h hq) hlen
        -- the oldest chunk is evicted, and counted
        rw [evictOldest_bytes] at hbytes
        rw [evictOldest_chunks] at hchunks
        refine ⟨s', by rw [if_pos hfull, hloop], ?_, hcounted, hcap, hbytes, hchunks⟩
        rw [keep_cons_of_lt List.length (by omega)]
        exact hqueue
      · refine ⟨s, by rw [if_neg hfull], ?_, h, rfl, by rw [hq], by rw [hq]⟩
        rw [keep_of_le List.length (by omega), hq]

/-- A chunk that does not fit by itself empties the queue. -/
theorem makeRoom_of_lt {len : ℕ} {q : List Bytes} {s : SniffChannel} (hq : s.queue = q)
    (h : s.Counted) (hlen : s.capacity < len) :
    ∃ s', makeRoom len q s = (s', false) ∧ s'.queue = [] ∧ s'.Counted ∧ s'.capacity = s.capacity ∧
      weight List.length q + len + s.droppedBytes = s'.droppedBytes ∧
      q.length + 1 + s.droppedChunks = s'.droppedChunks := by
  induction q generalizing s with
  | nil =>
      rw [makeRoom, if_pos (by omega)]
      refine ⟨_, rfl, hq, h, rfl, ?_, ?_⟩
      · simp only [weight_nil]
        omega
      · simp only [List.length_nil]
        omega
  | cons old queue ih =>
      obtain ⟨s', hloop, hqueue, hcounted, hcap, hbytes, hchunks⟩ :=
        ih (s := s.evictOldest old queue) rfl (evictOldest_counted h hq) hlen
      have hevicted := evictOldest_bytes s old queue
      have hcount := evictOldest_chunks s old queue
      refine ⟨s', by rw [makeRoom, if_pos (by omega), hloop], hqueue, hcounted, hcap, ?_, ?_⟩
      · omega
      · omega

/-- **What `send` does**: the youngest chunks of the queue with the new chunk are kept. -/
theorem send_keepsYoungest {s : SniffChannel} (h : s.Counted) (chunk : Bytes) :
    KeepsYoungest (s.queue ++ [chunk]) s (s.send chunk) ∧ (s.send chunk).capacity = s.capacity := by
  rw [send]
  rcases Nat.lt_or_ge s.capacity chunk.length with hlt | hle
  · obtain ⟨s', hloop, hqueue, hcounted, hcap, hbytes, hchunks⟩ := makeRoom_of_lt rfl h hlt
    rw [hloop]
    change KeepsYoungest _ s s' ∧ s'.capacity = s.capacity
    refine ⟨⟨?_, hcounted, ?_, ?_⟩, hcap⟩
    · rw [hqueue, hcap, keep_append_singleton_of_lt List.length hlt]
    · rw [hqueue, weight_append, weight_cons, weight_nil]
      omega
    · rw [hqueue, List.length_append, List.length_singleton, List.length_nil]
      omega
  · obtain ⟨s', hloop, hqueue, hcounted, hcap, hbytes, hchunks⟩ := makeRoom_of_le rfl h hle
    rw [hloop]
    refine ⟨⟨?_, ?_, ?_, ?_⟩, hcap⟩
    · simp only
      rw [hqueue, hcap, keep_append_singleton List.length hle]
    · rw [Counted] at hcounted ⊢
      simp only
      rw [hcounted, weight_append, weight_cons, weight_nil, Nat.add_zero]
    · simp only [weight_append]
      omega
    · simp only [List.length_append]
      omega

theorem shrink_keepsYoungest {q : List Bytes} {s : SniffChannel} (hq : s.queue = q)
    (h : s.Counted) :
    KeepsYoungest q s (shrink q s) ∧ (shrink q s).capacity = s.capacity := by
  induction q generalizing s with
  | nil => exact ⟨⟨hq, h, by rw [shrink, hq], by rw [shrink, hq]⟩, rfl⟩
  | cons old queue ih =>
      have htotal : s.totalBytes = weight List.length (old :: queue) := by rw [h, hq]
      rw [shrink]
      by_cases hfull : s.totalBytes > s.capacity
      · obtain ⟨hkeeps, hcap⟩ :=
          ih (s := s.evictOldest old queue) rfl (evictOldest_counted h hq)
        rw [if_pos hfull]
        refine ⟨⟨?_, hkeeps.counted, ?_, ?_⟩, hcap⟩
        · rw [hkeeps.queue, hcap]
          exact (keep_cons_of_lt List.length (by rw [evictOldest]; simp only; omega)).symm
        · exact (evictOldest_bytes s old queue).symm.trans hkeeps.bytes
        · exact (evictOldest_chunks s old queue).symm.trans hkeeps.chunks
      · rw [if_neg hfull]
        refine ⟨⟨?_, h, by rw [hq], by rw [hq]⟩, rfl⟩
        rw [keep_of_le List.length (by omega), hq]

/-- **What `setCapacity` does**: the youngest chunks that fit now are kept. -/
theorem setCapacity_keepsYoungest {s : SniffChannel} (h : s.Counted) (newCap : ℕ) :
    KeepsYoungest s.queue s (s.setCapacity newCap) ∧ (s.setCapacity newCap).capacity = newCap := by
  obtain ⟨hkeeps, hcap⟩ := shrink_keepsYoungest (s := { s with capacity := newCap }) rfl h
  exact ⟨⟨hkeeps.queue, hkeeps.counted, hkeeps.bytes, hkeeps.chunks⟩, hcap⟩

/-- Making room changes the queue and the counters only. -/
theorem makeRoom_frame (len : ℕ) (q : List Bytes) (s : SniffChannel) :
    (makeRoom len q s).1.capacity = s.capacity ∧ (makeRoom len q s).1.closed = s.closed ∧
      (makeRoom len q s).1.error = s.error := by
  induction q generalizing s with
  | nil =>
      rw [makeRoom]
      split <;> exact ⟨rfl, rfl, rfl⟩
  | cons old queue ih =>
      rw [makeRoom]
      split
      · exact ih (s.evictOldest old queue)
      · exact ⟨rfl, rfl, rfl⟩

theorem send_frame (s : SniffChannel) (chunk : Bytes) :
    (s.send chunk).capacity = s.capacity ∧ (s.send chunk).closed = s.closed ∧
      (s.send chunk).error = s.error := by
  have h := makeRoom_frame chunk.length s.queue s
  rw [send]
  split
  · next heq =>
    rw [heq] at h
    exact h
  · next heq =>
    rw [heq] at h
    exact h

@[simp] theorem send_capacity (s : SniffChannel) (chunk : Bytes) :
    (s.send chunk).capacity = s.capacity := (s.send_frame chunk).1

@[simp] theorem send_closed (s : SniffChannel) (chunk : Bytes) :
    (s.send chunk).closed = s.closed := (s.send_frame chunk).2.1

@[simp] theorem send_error (s : SniffChannel) (chunk : Bytes) :
    (s.send chunk).error = s.error := (s.send_frame chunk).2.2

theorem droppedBytes_le_makeRoom (len : ℕ) (q : List Bytes) (s : SniffChannel) :
    s.droppedBytes ≤ (makeRoom len q s).1.droppedBytes := by
  induction q generalizing s with
  | nil =>
      rw [makeRoom]
      split
      · exact Nat.le_add_right _ _
      · exact Nat.le_refl _
  | cons old queue ih =>
      rw [makeRoom]
      split
      · exact (Nat.le_add_right _ _).trans (ih (s.evictOldest old queue))
      · exact Nat.le_refl _

/-- What was dropped stays counted. -/
theorem droppedBytes_le_send (s : SniffChannel) (chunk : Bytes) :
    s.droppedBytes ≤ (s.send chunk).droppedBytes := by
  have h := droppedBytes_le_makeRoom chunk.length s.queue s
  rw [send]
  split
  · next heq =>
    rw [heq] at h
    exact h
  · next heq =>
    rw [heq] at h
    exact h

/-- The branches of a receive. -/
theorem pollRecv_cases (s : SniffChannel) :
    (∃ data queue, s.queue = data :: queue ∧ s.pollRecv = (.ok (some data),
      { s with queue := queue, totalBytes := s.totalBytes - data.length })) ∨
    (s.queue = [] ∧ ∃ e, s.error = some e ∧ s.pollRecv = (.error e, { s with error := none })) ∨
    (s.queue = [] ∧ s.error = none ∧ s.closed = true ∧
      s.pollRecv = (.error ⟨.unexpectedEof, "channel closed"⟩, s)) ∨
    (s.queue = [] ∧ s.error = none ∧ s.closed = false ∧
      s.pollRecv = (.ok none, { s with waker := true })) := by
  rw [pollRecv]
  cases hq : s.queue with
  | cons data queue => exact .inl ⟨data, queue, rfl, rfl⟩
  | nil =>
      cases he : s.error with
      | some e => exact .inr (.inl ⟨rfl, e, rfl, rfl⟩)
      | none =>
          cases hc : s.closed with
          | true => exact .inr (.inr (.inl ⟨rfl, rfl, rfl, rfl⟩))
          | false => exact .inr (.inr (.inr ⟨rfl, rfl, rfl, rfl⟩))

@[simp] theorem pollRecv_capacity (s : SniffChannel) : s.pollRecv.2.capacity = s.capacity := by
  rcases s.pollRecv_cases with ⟨data, queue, -, h⟩ | ⟨-, e, -, h⟩ | ⟨-, -, -, h⟩ | ⟨-, -, -, h⟩ <;>
    rw [h]

@[simp] theorem pollRecv_closed (s : SniffChannel) : s.pollRecv.2.closed = s.closed := by
  rcases s.pollRecv_cases with ⟨data, queue, -, h⟩ | ⟨-, e, -, h⟩ | ⟨-, -, -, h⟩ | ⟨-, -, -, h⟩ <;>
    rw [h]

/-- An error and the end of the channel are seen behind the last chunk only. -/
theorem pollRecv_error {s s' : SniffChannel} {e : IoError} (h : s.pollRecv = (.error e, s')) :
    s.queue = [] := by
  rcases s.pollRecv_cases with ⟨data, queue, -, hpoll⟩ | ⟨hq, -⟩ | ⟨hq, -⟩ | ⟨hq, -⟩
  · rw [hpoll] at h
    cases (Prod.ext_iff.1 h).1
  · exact hq
  · exact hq
  · exact hq

end SniffChannel

/-! ### Runs -/

/-- The operations on a channel. -/
inductive ChannelOp
  | send (chunk : Bytes)
  | sendError (error : IoError)
  | setCapacity (newCap : ℕ)
  | close
  | pollRecv

/-- A channel with the chunks that were sent into it and those that were received from it. -/
structure ChannelRun where
  channel : SniffChannel
  sent : List Bytes
  received : List Bytes

namespace ChannelRun

/-- A new channel. -/
def new (capacity : ℕ) : ChannelRun := ⟨.new capacity, [], []⟩

/-- One operation. -/
def step (r : ChannelRun) : ChannelOp → ChannelRun
  | .send chunk => { r with channel := r.channel.send chunk, sent := r.sent ++ [chunk] }
  | .sendError error => { r with channel := r.channel.sendError error }
  | .setCapacity newCap => { r with channel := r.channel.setCapacity newCap }
  | .close => { r with channel := r.channel.close }
  | .pollRecv =>
      match r.channel.pollRecv with
      | (.ok (some data), channel) =>
          { r with channel := channel, received := r.received ++ [data] }
      | (_, channel) => { r with channel := channel }

/-- A sequence of operations. -/
def run (r : ChannelRun) (ops : List ChannelOp) : ChannelRun := ops.foldl step r

/-- The books of a channel balance. -/
structure Conserves (r : ChannelRun) : Prop where
  counted : r.channel.Counted
  fits : r.channel.totalBytes ≤ r.channel.capacity
  ordered : (r.received ++ r.channel.queue).Sublist r.sent
  bytes : weight List.length r.sent
    = weight List.length r.received + weight List.length r.channel.queue + r.channel.droppedBytes
  chunks : r.sent.length
    = r.received.length + r.channel.queue.length + r.channel.droppedChunks

theorem new_conserves (capacity : ℕ) : (new capacity).Conserves :=
  ⟨rfl, Nat.zero_le _, List.Sublist.refl _, rfl, rfl⟩

/-- Keeping the youngest chunks keeps the books. -/
theorem Conserves.of_keepsYoungest {r r' : ChannelRun} {q : List Bytes} (h : r.Conserves)
    (hkeeps : SniffChannel.KeepsYoungest (r.channel.queue ++ q) r.channel r'.channel)
    (hsent : r'.sent = r.sent ++ q) (hreceived : r'.received = r.received) : r'.Conserves := by
  have hlongest := longestWithin_keep List.length r'.channel.capacity (r.channel.queue ++ q)
  rw [← hkeeps.queue] at hlongest
  refine ⟨hkeeps.counted, ?_, ?_, ?_, ?_⟩
  · rw [hkeeps.counted]
    exact hlongest.within
  · rw [hsent, hreceived]
    refine ((List.Sublist.refl _).append hlongest.suffix.sublist).trans ?_
    rw [← List.append_assoc]
    exact h.ordered.append (List.Sublist.refl _)
  · have hbytes := hkeeps.bytes
    rw [weight_append] at hbytes
    rw [hsent, hreceived, weight_append, h.bytes]
    omega
  · have hchunks := hkeeps.chunks
    rw [List.length_append] at hchunks
    rw [hsent, hreceived, List.length_append, h.chunks]
    omega

/-- Receiving a chunk keeps the books, and so does finding none. -/
theorem Conserves.pollRecv {r : ChannelRun} (h : r.Conserves) :
    (r.step .pollRecv).Conserves := by
  rw [step]
  rcases r.channel.pollRecv_cases with ⟨data, queue, hq, hpoll⟩ | ⟨-, e, -, hpoll⟩ |
    ⟨-, -, -, hpoll⟩ | ⟨-, -, -, hpoll⟩
  · -- the chunk goes over from the queue to what was received
    have hcounted := h.counted
    have hfits := h.fits
    have hordered := h.ordered
    have hbytes := h.bytes
    have hchunks := h.chunks
    rw [hq] at hordered hbytes hchunks
    rw [SniffChannel.Counted, hq, weight_cons] at hcounted
    rw [weight_cons] at hbytes
    rw [List.length_cons] at hchunks
    rw [hpoll]
    refine ⟨?_, ?_, ?_, ?_, ?_⟩
    · rw [SniffChannel.Counted]
      simp only
      omega
    · simp only
      omega
    · simp only [List.append_assoc]
      exact hordered
    · simp only [weight_append, weight_cons, weight_nil]
      omega
    · simp only [List.length_append, List.length_cons, List.length_nil]
      omega
  · rw [hpoll]
    exact ⟨h.counted, h.fits, h.ordered, h.bytes, h.chunks⟩
  · rw [hpoll]
    exact ⟨h.counted, h.fits, h.ordered, h.bytes, h.chunks⟩
  · rw [hpoll]
    exact ⟨h.counted, h.fits, h.ordered, h.bytes, h.chunks⟩

/-- **Every operation keeps the books.** -/
theorem step_conserves {r : ChannelRun} (h : r.Conserves) (op : ChannelOp) :
    (r.step op).Conserves := by
  cases op with
  | send chunk =>
      exact h.of_keepsYoungest (SniffChannel.send_keepsYoungest h.counted chunk).1 rfl rfl
  | setCapacity newCap =>
      refine h.of_keepsYoungest (q := []) ?_ (List.append_nil _).symm rfl
      rw [List.append_nil]
      exact (SniffChannel.setCapacity_keepsYoungest h.counted newCap).1
  | sendError error => exact ⟨h.counted, h.fits, h.ordered, h.bytes, h.chunks⟩
  | close => exact ⟨h.counted, h.fits, h.ordered, h.bytes, h.chunks⟩
  | pollRecv => exact h.pollRecv

/-- The bytes that were sent were received, are in the queue, or were dropped. -/
theorem Conserves.length_flatten {r : ChannelRun} (h : r.Conserves) :
    r.received.flatten.length + r.channel.queue.flatten.length + r.channel.droppedBytes
      = r.sent.flatten.length := by
  have hbytes := h.bytes
  simp only [weight] at hbytes
  simp only [List.length_flatten]
  omega

/-- When nothing was dropped, what was sent was received or is in the queue. -/
theorem Conserves.flatten_eq {r : ChannelRun} (h : r.Conserves)
    (hzero : r.channel.droppedBytes = 0) :
    r.received.flatten ++ r.channel.queue.flatten = r.sent.flatten := by
  have hlen := h.length_flatten
  rw [hzero, Nat.add_zero, ← List.length_append] at hlen
  rw [← List.flatten_append] at hlen ⊢
  exact h.ordered.flatten.eq_of_length hlen

/-- When no chunk was dropped, what was sent was received or is in the queue, chunk by chunk. -/
theorem Conserves.received_eq {r : ChannelRun} (h : r.Conserves)
    (hzero : r.channel.droppedChunks = 0) : r.received ++ r.channel.queue = r.sent := by
  have hchunks := h.chunks
  rw [hzero, Nat.add_zero, ← List.length_append] at hchunks
  exact h.ordered.eq_of_length hchunks.symm

end ChannelRun

/-- The books balance after any operations. -/
theorem channelRun_conserves (capacity : ℕ) (ops : List ChannelOp) :
    ((ChannelRun.new capacity).run ops).Conserves := by
  suffices h : ∀ r : ChannelRun, r.Conserves → (r.run ops).Conserves from
    h _ (ChannelRun.new_conserves capacity)
  induction ops with
  | nil =>
      intro r hr
      exact hr
  | cons op ops ih =>
      intro r hr
      exact ih _ (ChannelRun.step_conserves hr op)

/-- **A channel conserves and orders bytes**, in every state that any operations lead to: its
counter is what is in the queue, which its capacity has room for; sending leaves the longest suffix
that fits; what was received and what is in the queue was sent, in this order; what was sent was
received, is in the queue, or was dropped; and an error or the end of the channel is reported behind
the last chunk only. -/
theorem sniffChannel_conserves (capacity : ℕ) (ops : List ChannelOp) :
    let r := (ChannelRun.new capacity).run ops
    r.channel.totalBytes = weight List.length r.channel.queue ∧
      r.channel.totalBytes ≤ r.channel.capacity ∧
      (∀ chunk, LongestWithin List.length r.channel.capacity (r.channel.queue ++ [chunk])
        (r.channel.send chunk).queue) ∧
      (r.received ++ r.channel.queue).Sublist r.sent ∧
      weight List.length r.sent = weight List.length r.received
        + weight List.length r.channel.queue + r.channel.droppedBytes ∧
      r.sent.length = r.received.length + r.channel.queue.length + r.channel.droppedChunks ∧
      ∀ e s', r.channel.pollRecv = (.error e, s') → r.channel.queue = [] := by
  intro r
  have h : r.Conserves := channelRun_conserves capacity ops
  refine ⟨h.counted, h.fits, ?_, h.ordered, h.bytes, h.chunks, ?_⟩
  · intro chunk
    obtain ⟨hkeeps, hcap⟩ := SniffChannel.send_keepsYoungest h.counted chunk
    rw [hkeeps.queue, hcap]
    exact longestWithin_keep List.length _ _
  · intro e s' hpoll
    exact SniffChannel.pollRecv_error hpoll

end OmsModbus
