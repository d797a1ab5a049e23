/-
**No wake-up of a capture channel is lost.**

A consumer that finds nothing in a channel leaves its waker there and is told to wait.  A chunk, an
error and the end of the channel each take the waker and wake it; a chunk that is dropped at once
and a change of the capacity leave it where it is, although they may empty the queue.  The methods
of a channel hold its lock, so that what the producer and the consumer do together is a sequence of
operations.

A channel has one consumer, and polling it again replaces its waker.

Main definitions:

* `OmsModbus.WakerChannel` — a channel with the waker that it holds;
* `OmsModbus.WakerRun` — a channel, the consumer that was told to wait, and the wakers that were
  woken;
* `OmsModbus.WakerRun.KeepsWakers` — who waits is registered, and waits for a reason.

Main results:

* `OmsModbus.WakerRun.step_cases` — what an operation does;
* `OmsModbus.WakerRun.step_keepsWakers` — every operation keeps the wakers;
* `OmsModbus.sniffChannel_noLostWakeup` — **the operation that makes something available wakes the
  consumer that waits for it**.
-/

import OmsModbus.SniffIo

set_option relaxedAutoImplicit false
set_option autoImplicit false

namespace OmsModbus

open Capture (Poll)

/-! ### What the operations do to the waker -/

namespace SniffChannel

/-- Whether `send` gets to push the chunk. -/
def accepts (s : SniffChannel) (chunk : Bytes) : Bool := (makeRoom chunk.length s.queue s).2

/-- Something is there for the consumer: a chunk, an error, or the end of the channel. -/
def Available (s : SniffChannel) : Prop := s.queue ≠ [] ∨ s.error ≠ none ∨ s.closed = true

/-- The answer of a receive that tells the consumer to wait. -/
def mustWait : Except IoError (Option Bytes) → Bool
  | .ok none => true
  | _ => false

theorem not_available_iff (s : SniffChannel) :
    ¬ s.Available ↔ s.queue = [] ∧ s.error = none ∧ s.closed = false := by
  rw [Available]
  constructor
  · intro h
    push Not at h
    exact ⟨h.1, h.2.1, Bool.eq_false_iff.2 h.2.2⟩
  · rintro ⟨hq, he, hc⟩ (h | h | h)
    · exact h hq
    · exact h he
    · rw [hc] at h
      cases h

/-- Making room leaves the waker where it is. -/
theorem makeRoom_waker (len : ℕ) (q : List Bytes) (s : SniffChannel) :
    (makeRoom len q s).1.waker = s.waker := by
  induction q generalizing s with
  | nil =>
      rw [makeRoom]
      split <;> rfl
  | cons old queue ih =>
      rw [makeRoom]
      split
      · exact ih (s.evictOldest old queue)
      · rfl

/-- The loop gives up on a chunk only when the queue has run empty. -/
theorem makeRoom_dropped {len : ℕ} {q : List Bytes} {s : SniffChannel} (hq : s.queue = q)
    (h : (makeRoom len q s).2 = false) : (makeRoom len q s).1.queue = [] := by
  induction q generalizing s with
  | nil =>
      rw [makeRoom]
      split <;> exact hq
  | cons old queue ih =>
      rw [makeRoom] at h ⊢
      split at h
      · next hfull =>
        rw [if_pos hfull]
        exact ih rfl h
      · cases h

theorem shrink_frame (q : List Bytes) (s : SniffChannel) :
    (shrink q s).waker = s.waker ∧ (shrink q s).error = s.error ∧
      (shrink q s).closed = s.closed := by
  induction q generalizing s with
  | nil => exact ⟨rfl, rfl, rfl⟩
  | cons old queue ih =>
      rw [shrink]
      split
      · exact ih (s.evictOldest old queue)
      · exact ⟨rfl, rfl, rfl⟩

theorem send_of_accepts {s : SniffChannel} {chunk : Bytes} (h : s.accepts chunk = true) :
    (s.send chunk).waker = false ∧ (s.send chunk).queue ≠ [] := by
  rw [accepts] at h
  rw [send]
  split
  · next heq =>
    rw [heq] at h
    cases h
  · exact ⟨rfl, List.append_ne_nil_of_right_ne_nil _ (List.cons_ne_nil _ _)⟩

theorem send_of_not_accepts {s : SniffChannel} {chunk : Bytes} (h : s.accepts chunk = false) :
    (s.send chunk).waker = s.waker ∧ (s.send chunk).queue = [] := by
  have hwaker := makeRoom_waker chunk.length s.queue s
  have hqueue : (makeRoom chunk.length s.queue s).1.queue = [] := makeRoom_dropped rfl h
  rw [accepts] at h
  rw [send]
  split
  · next heq =>
    rw [heq] at hwaker hqueue
    exact ⟨hwaker, hqueue⟩
  · next heq =>
    rw [heq] at h
    cases h

theorem setCapacity_frame (s : SniffChannel) (newCap : ℕ) :
    (s.setCapacity newCap).waker = s.waker ∧ (s.setCapacity newCap).error = s.error ∧
      (s.setCapacity newCap).closed = s.closed :=
  shrink_frame s.queue { s with capacity := newCap }

/-- An empty queue stays empty. -/
theorem setCapacity_of_nil {s : SniffChannel} (h : s.queue = []) (newCap : ℕ) :
    (s.setCapacity newCap).queue = [] := by
  rw [setCapacity, h, shrink]

theorem pollRecv_waker (s : SniffChannel) :
    s.pollRecv.2.waker = if mustWait s.pollRecv.1 then true else s.waker := by
  rcases s.pollRecv_cases with ⟨data, queue, -, h⟩ | ⟨-, e, -, h⟩ | ⟨-, -, -, h⟩ | ⟨-, -, -, h⟩ <;>
    rw [h] <;> rfl

/-- The consumer is told to wait when there is nothing for it. -/
theorem mustWait_iff (s : SniffChannel) : mustWait s.pollRecv.1 = true ↔ ¬ s.Available := by
  rw [not_available_iff]
  rcases s.pollRecv_cases with ⟨data, queue, hq, h⟩ | ⟨-, e, he, h⟩ | ⟨-, -, hc, h⟩ |
    ⟨hq, he, hc, h⟩
  · rw [h, hq]
    exact ⟨nofun, nofun⟩
  · rw [h, he]
    exact ⟨nofun, nofun⟩
  · rw [h, hc]
    exact ⟨nofun, nofun⟩
  · rw [h]
    exact ⟨fun _ => ⟨hq, he, hc⟩, fun _ => rfl⟩

/-- A receive that waits changes nothing but the waker. -/
theorem pollRecv_of_mustWait {s : SniffChannel} (h : mustWait s.pollRecv.1 = true) :
    s.pollRecv.2 = { s with waker := true } := by
  obtain ⟨hq, he, hc⟩ := (not_available_iff s).1 ((mustWait_iff s).1 h)
  rw [pollRecv, hq, he, hc]
  rfl

/-! A channel in which nothing is available stays so under three of the operations. -/

theorem not_available_send {s : SniffChannel} {chunk : Bytes} (hidle : ¬ s.Available)
    (h : s.accepts chunk = false) : ¬ (s.send chunk).Available := by
  rw [not_available_iff] at hidle ⊢
  obtain ⟨-, he, hc⟩ := hidle
  refine ⟨(send_of_not_accepts h).2, ?_, ?_⟩
  · rw [send_error, he]
  · rw [send_closed, hc]

theorem not_available_setCapacity {s : SniffChannel} (hidle : ¬ s.Available) (newCap : ℕ) :
    ¬ (s.setCapacity newCap).Available := by
  rw [not_available_iff] at hidle ⊢
  obtain ⟨hq, he, hc⟩ := hidle
  obtain ⟨-, herror, hclosed⟩ := s.setCapacity_frame newCap
  exact ⟨setCapacity_of_nil hq newCap, herror.trans he, hclosed.trans hc⟩

theorem not_available_pollRecv {s : SniffChannel} (hidle : ¬ s.Available) :
    ¬ s.pollRecv.2.Available := by
  rw [pollRecv_of_mustWait ((mustWait_iff s).2 hidle)]
  exact hidle

end SniffChannel

/-! ### A channel and its waker -/

/-- A channel with the waker that it holds, if one is registered. -/
structure WakerChannel (W : Type) where
  channel : SniffChannel
  waker : Option W
  registered : channel.waker = waker.isSome

namespace WakerChannel

variable {W : Type}

def new (capacity : ℕ) : WakerChannel W := ⟨.new capacity, none, rfl⟩

/-! Each of the three returns the waker that it takes and wakes. -/

/-- The early return for a chunk that does not fit is before the waker is taken. -/
def send (s : WakerChannel W) (chunk : Bytes) : WakerChannel W × Option W :=
  if h : s.channel.accepts chunk = true then
    (⟨s.channel.send chunk, none, (SniffChannel.send_of_accepts h).1⟩, s.waker)
  else
    (⟨s.channel.send chunk, s.waker,
      (SniffChannel.send_of_not_accepts (Bool.eq_false_iff.2 h)).1.trans s.registered⟩, none)

def sendError (s : WakerChannel W) (error : IoError) : WakerChannel W × Option W :=
  (⟨s.channel.sendError error, none, rfl⟩, s.waker)

def close (s : WakerChannel W) : WakerChannel W × Option W :=
  (⟨s.channel.close, none, rfl⟩, s.waker)

/-- No waker is touched. -/
def setCapacity (s : WakerChannel W) (newCap : ℕ) : WakerChannel W :=
  ⟨s.channel.setCapacity newCap, s.waker,
    (s.channel.setCapacity_frame newCap).1.trans s.registered⟩

/-- The waker of the caller is registered, in the place of any other, when there is nothing. -/
def pollRecv (s : WakerChannel W) (w : W) : Except IoError (Option Bytes) × WakerChannel W :=
  (s.channel.pollRecv.1,
    { channel := s.channel.pollRecv.2
      waker := if SniffChannel.mustWait s.channel.pollRecv.1 then some w else s.waker
      registered := by
        rw [s.channel.pollRecv_waker, s.registered]
        split <;> rfl })

/-- The poll of the asynchronous receive. -/
def recv (s : WakerChannel W) (w : W) : Poll (Option Bytes) × WakerChannel W :=
  match s.pollRecv w with
  | (.ok (some data), s) => (.ready (some data), s)
  | (.ok none, s) => (.pending, s)
  | (.error _, s) => (.ready none, s)

theorem recv_snd (s : WakerChannel W) (w : W) : (s.recv w).2 = (s.pollRecv w).2 := by
  rw [recv]
  split <;> next heq => rw [heq]

theorem recv_eq_pending (s : WakerChannel W) (w : W) :
    (s.recv w).1 = .pending ↔ SniffChannel.mustWait (s.pollRecv w).1 = true := by
  rw [recv]
  split
  · next heq =>
    rw [heq]
    exact ⟨nofun, nofun⟩
  · next heq =>
    rw [heq]
    exact ⟨fun _ => rfl, fun _ => rfl⟩
  · next heq =>
    rw [heq]
    exact ⟨nofun, nofun⟩

end WakerChannel

/-! ### Runs -/

/-- The operations on a channel, a receive with the waker of its caller. -/
inductive WakerOp (W : Type)
  | send (chunk : Bytes)
  | sendError (error : IoError)
  | setCapacity (newCap : ℕ)
  | close
  | pollRecv (w : W)
  | recv (w : W)

/-- The operation without the waker. -/
def WakerOp.toChannelOp {W : Type} : WakerOp W → ChannelOp
  | .send chunk => .send chunk
  | .sendError error => .sendError error
  | .setCapacity newCap => .setCapacity newCap
  | .close => .close
  | .pollRecv _ => .pollRecv
  | .recv _ => .pollRecv

/-- A channel, the waker of the consumer that was told to wait and was not woken since, and the
wakers that were woken. -/
structure WakerRun (W : Type) where
  channel : WakerChannel W
  waiting : Option W
  woken : List W

namespace WakerRun

variable {W : Type} [DecidableEq W]

def new (capacity : ℕ) : WakerRun W := ⟨.new capacity, none, []⟩

/-- After an operation that took and woke `waker`. -/
def wake (r : WakerRun W) : WakerChannel W × Option W → WakerRun W
  | (channel, waker) =>
    { channel := channel
      waiting := if waker = r.waiting then none else r.waiting
      woken := r.woken ++ waker.toList }

/-- After a receive of `w`, which `wait`s or has its answer. -/
def polled (r : WakerRun W) (w : W) (wait : Bool) (channel : WakerChannel W) : WakerRun W :=
  { r with
    channel := channel
    waiting := if wait then some w else none }

/-- One operation. -/
def step (r : WakerRun W) : WakerOp W → WakerRun W
  | .send chunk => r.wake (r.channel.send chunk)
  | .sendError error => r.wake (r.channel.sendError error)
  | .setCapacity newCap => { r with channel := r.channel.setCapacity newCap }
  | .close => r.wake r.channel.close
  | .pollRecv w =>
      let (answer, channel) := r.channel.pollRecv w
      r.polled w (SniffChannel.mustWait answer) channel
  | .recv w =>
      let (answer, channel) := r.channel.recv w
      r.polled w (answer = .pending) channel

/-- A sequence of operations. -/
def run (r : WakerRun W) (ops : List (WakerOp W)) : WakerRun W := ops.foldl step r

/-- Who waits is registered, and there is nothing for who is registered. -/
structure KeepsWakers (r : WakerRun W) : Prop where
  waiting : r.waiting = r.channel.waker
  idle : r.channel.waker ≠ none → ¬ r.channel.channel.Available

omit [DecidableEq W] in
theorem new_keepsWakers (capacity : ℕ) : (new capacity : WakerRun W).KeepsWakers :=
  ⟨rfl, fun h => absurd rfl h⟩

/-- The two receives differ in their answers only. -/
theorem step_recv (r : WakerRun W) (w : W) : r.step (.recv w) = r.step (.pollRecv w) := by
  have hwait : decide ((r.channel.recv w).1 = .pending)
      = SniffChannel.mustWait (r.channel.pollRecv w).1 := by
    rw [Bool.eq_iff_iff, decide_eq_true_iff]
    exact r.channel.recv_eq_pending w
  change r.polled w (decide ((r.channel.recv w).1 = .pending)) (r.channel.recv w).2 =
    r.polled w (SniffChannel.mustWait (r.channel.pollRecv w).1) (r.channel.pollRecv w).2
  rw [hwait, r.channel.recv_snd]

/-- Each operation does to the channel what it does without the wakers. -/
theorem step_channel (r : WakerRun W) (op : WakerOp W) (q : ChannelRun)
    (h : q.channel = r.channel.channel) :
    (q.step op.toChannelOp).channel = (r.step op).channel.channel := by
  have hpoll : ∀ w, (q.step .pollRecv).channel = (r.step (.pollRecv w)).channel.channel := by
    intro w
    change _ = r.channel.channel.pollRecv.2
    rw [ChannelRun.step, h]
    split <;> next heq => rw [heq]
  cases op with
  | send chunk =>
      change q.channel.send chunk = (r.channel.send chunk).1.channel
      rw [WakerChannel.send, h]
      split <;> rfl
  | sendError error =>
      change q.channel.sendError error = _
      rw [h]
      rfl
  | setCapacity newCap =>
      change q.channel.setCapacity newCap = _
      rw [h]
      rfl
  | close =>
      change q.channel.close = _
      rw [h]
      rfl
  | pollRecv w => exact hpoll w
  | recv w =>
      rw [step_recv]
      exact hpoll w

/-- Who is registered is the consumer that waits, so that taking the waker ends the wait. -/
theorem KeepsWakers.wake {r : WakerRun W} (h : r.KeepsWakers) {channel : WakerChannel W}
    (hwaker : channel.waker = none) : (r.wake (channel, r.channel.waker)).KeepsWakers := by
  refine ⟨?_, ?_⟩
  · change (if r.channel.waker = r.waiting then none else r.waiting) = channel.waker
    rw [if_pos h.waiting.symm, hwaker]
  · intro hne
    exact absurd hwaker hne

/-- A chunk that is dropped at once takes no waker. -/
theorem wake_none (r : WakerRun W) (channel : WakerChannel W) :
    r.wake (channel, none) = { r with channel := channel } := by
  rw [wake, Option.toList_none, List.append_nil]
  congr 1
  split
  · next heq => exact heq
  · rfl

/-- **What an operation does**: it takes the waker and wakes it, and something is available then; or
it leaves the waker, and where nothing was available, nothing is; or it is a receive. -/
theorem step_cases (r : WakerRun W) (op : WakerOp W) :
    (∃ channel : WakerChannel W, r.step op = r.wake (channel, r.channel.waker) ∧
      channel.waker = none ∧ channel.channel.Available) ∨
    (∃ channel : WakerChannel W, r.step op = { r with channel := channel } ∧
      channel.waker = r.channel.waker ∧
      (¬ r.channel.channel.Available → ¬ channel.channel.Available)) ∨
    ∃ w, r.step op = r.step (.pollRecv w) := by
  cases op with
  | send chunk =>
      rw [step, WakerChannel.send]
      by_cases haccepts : r.channel.channel.accepts chunk = true
      · rw [dif_pos haccepts]
        exact .inl ⟨_, rfl, rfl, .inl (SniffChannel.send_of_accepts haccepts).2⟩
      · rw [dif_neg haccepts, wake_none]
        refine .inr (.inl ⟨_, rfl, rfl, ?_⟩)
        intro hidle
        exact SniffChannel.not_available_send hidle (Bool.eq_false_iff.2 haccepts)
  | sendError error => exact .inl ⟨_, rfl, rfl, .inr (.inl (Option.some_ne_none error))⟩
  | setCapacity newCap =>
      refine .inr (.inl ⟨_, rfl, rfl, ?_⟩)
      intro hidle
      exact SniffChannel.not_available_setCapacity hidle newCap
  | close => exact .inl ⟨_, rfl, rfl, .inr (.inr rfl)⟩
  | pollRecv w => exact .inr (.inr ⟨w, rfl⟩)
  | recv w => exact .inr (.inr ⟨w, r.step_recv w⟩)

/-- A receive keeps the consumer that waits registered. -/
theorem KeepsWakers.pollRecv {r : WakerRun W} (h : r.KeepsWakers) (w : W) :
    (r.step (.pollRecv w)).KeepsWakers := by
  have hwaiting : (r.step (.pollRecv w)).waiting
      = if SniffChannel.mustWait r.channel.channel.pollRecv.1 then some w else none := rfl
  have hwaker : (r.step (.pollRecv w)).channel.waker
      = if SniffChannel.mustWait r.channel.channel.pollRecv.1 then some w
        else r.channel.waker := rfl
  by_cases hwait : SniffChannel.mustWait r.channel.channel.pollRecv.1 = true
  · rw [if_pos hwait] at hwaiting hwaker
    refine ⟨hwaiting.trans hwaker.symm, ?_⟩
    intro _
    exact SniffChannel.not_available_pollRecv ((SniffChannel.mustWait_iff _).1 hwait)
  · -- there was something to receive, so that nobody was registered
    have hnone : r.channel.waker = none := by
      by_contra hne
      exact hwait ((SniffChannel.mustWait_iff _).2 (h.idle hne))
    rw [if_neg hwait] at hwaiting hwaker
    refine ⟨hwaiting.trans (hnone.symm.trans hwaker.symm), ?_⟩
    intro hne
    exact absurd (hwaker.trans hnone) hne

/-- **Every operation keeps the wakers.** -/
theorem step_keepsWakers {r : WakerRun W} (h : r.KeepsWakers) (op : WakerOp W) :
    (r.step op).KeepsWakers := by
  rcases step_cases r op with ⟨channel, hstep, hwaker, -⟩ | ⟨channel, hstep, hwaker, hidle⟩ |
    ⟨w, hstep⟩
  · rw [hstep]
    exact h.wake hwaker
  · rw [hstep]
    refine ⟨h.waiting.trans hwaker.symm, ?_⟩
    intro hne
    exact hidle (h.idle (hwaker ▸ hne))
  · rw [hstep]
    exact h.pollRecv w

theorem run_keepsWakers {r : WakerRun W} (h : r.KeepsWakers) (ops : List (WakerOp W)) :
    (r.run ops).KeepsWakers := by
  induction ops generalizing r with
  | nil => exact h
  | cons op ops ih => exact ih (step_keepsWakers h op)

theorem run_channel (r : WakerRun W) (q : ChannelRun) (h : q.channel = r.channel.channel)
    (ops : List (WakerOp W)) :
    (q.run (ops.map WakerOp.toChannelOp)).channel = (r.run ops).channel.channel := by
  induction ops generalizing r q with
  | nil => exact h
  | cons op ops ih => exact ih (r.step op) (q.step op.toChannelOp) (step_channel r op q h)

/-- The consumer that waits is woken by the operation after which there is something for it, and by
no other. -/
theorem KeepsWakers.woken_iff {r : WakerRun W} (h : r.KeepsWakers) {w : W}
    (hwaiting : r.waiting = some w) (op : WakerOp W) :
    (r.step op).woken = r.woken ++ [w] ↔ (r.step op).channel.channel.Available := by
  have hwaker : r.channel.waker = some w := h.waiting.symm.trans hwaiting
  have hidle := h.idle (by rw [hwaker]; exact Option.some_ne_none w)
  have hself : ¬ r.woken = r.woken ++ [w] := by
    rw [List.self_eq_append_right]
    exact List.cons_ne_nil w []
  rcases step_cases r op with ⟨channel, hstep, -, havailable⟩ | ⟨channel, hstep, -, hkeeps⟩ |
    ⟨w', hstep⟩
  · rw [hstep, hwaker]
    exact ⟨fun _ => havailable, fun _ => rfl⟩
  · rw [hstep]
    exact ⟨fun hadded => absurd hadded hself, fun havailable => absurd havailable (hkeeps hidle)⟩
  · rw [hstep]
    have hstill : ¬ (r.step (.pollRecv w')).channel.channel.Available :=
      SniffChannel.not_available_pollRecv hidle
    exact ⟨fun hadded => absurd hadded hself, fun havailable => absurd havailable hstill⟩

end WakerRun

/-- **No wake-up is lost.**  After any operations of the producer and the consumer: a waker is
registered only while the queue is empty, no error is stored and the channel is not closed; it is
that of the consumer that was told to wait and was not woken since; and the next operation wakes
this consumer if and only if a chunk, an error or the end of the channel is there after it.  The
channel is that of the operations without their wakers. -/
theorem sniffChannel_noLostWakeup {W : Type} [DecidableEq W] (capacity : ℕ)
    (ops : List (WakerOp W)) :
    let r := (WakerRun.new capacity).run ops
    (r.channel.waker ≠ none → r.channel.channel.queue = [] ∧ r.channel.channel.error = none ∧
        r.channel.channel.closed = false) ∧
      r.waiting = r.channel.waker ∧
      (∀ op w, r.waiting = some w →
        ((r.step op).woken = r.woken ++ [w] ↔
          (r.step op).channel.channel.queue ≠ [] ∨ (r.step op).channel.channel.error ≠ none ∨
            (r.step op).channel.channel.closed = true)) ∧
      r.channel.channel
        = ((ChannelRun.new capacity).run (ops.map WakerOp.toChannelOp)).channel := by
  intro r
  have h : r.KeepsWakers := WakerRun.run_keepsWakers (WakerRun.new_keepsWakers capacity) ops
  refine ⟨?_, h.waiting, ?_, ?_⟩
  · intro hne
    exact (SniffChannel.not_available_iff _).1 (h.idle hne)
  · intro op w hwaiting
    exact h.woken_iff hwaiting op
  · exact (WakerRun.run_channel (WakerRun.new capacity) (ChannelRun.new capacity) rfl ops).symm

theorem sniffChannel_noLostWakeup_chunk :
    ((WakerRun.new 2).run [.pollRecv 'c', .send [1]]).woken = ['c'] :=
  ((sniffChannel_noLostWakeup 2 [.pollRecv 'c']).2.2.1 (.send [1]) 'c' rfl).2
    (.inl (List.cons_ne_nil _ _))

/-- Neither a chunk that is too large nor the capacity wakes the consumer; one that fits does. -/
example : ((WakerRun.new 2).run
    [.pollRecv 'c', .send [1, 2, 3], .setCapacity 0, .send [4], .send []]).woken = ['c'] := rfl

end OmsModbus
