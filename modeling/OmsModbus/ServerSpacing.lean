/-
**The spacing of the answers of a serial server.**

A serial server that has a bus timing puts a layer without a tap around its transport, reads with an
empty buffer each time, and before each answer sleeps until the spacing has passed since the last
byte that the layer recorded.  Its loop is taken apart here into the places where it waits for
something — bytes, the service, the end of a sleep, room for a write — so that time may pass and the
transport may act at each of them, in any way.  Without the times it is the loop of
`OmsModbus.serveSerial`.

Main definitions:

* `OmsModbus.Capture.SerialPhase` — where a server is in its loop;
* `OmsModbus.Capture.SerialRun`, `OmsModbus.Capture.SerialRun.step` — a server in use, and what can
  happen to it;
* `OmsModbus.Capture.Spaced` — every answer starts long enough after every byte before it;
* `OmsModbus.Capture.SerialRun.finish` — what the loop comes to when the writes succeed.

Main results:

* `OmsModbus.Capture.SerialRun.Timed.step` — **one action keeps the spacing**;
* `OmsModbus.Capture.answers_spaced` — **the answers of both serial servers are spaced**, in every
  run;
* `OmsModbus.Capture.run_serves` — the runs are those of the loop without times.
-/

import OmsModbus.Ascii
import OmsModbus.Rtu
import OmsModbus.Tcp
import OmsModbus.TouchExact

set_option relaxedAutoImplicit false
set_option autoImplicit false

namespace OmsModbus.Capture

variable {ι τ σ : Type}

/-! ### A server in use -/

/-- Where a server is in its loop: at a read, between two requests, before the answer to a request,
in the sleep before it, or in the write of a frame of which `rest` is left.  It stops when the
transport ends, and fails when a write does. -/
inductive SerialPhase (τ : Type)
  | reading
  | parsing
  | replying (tag : τ) (data : Bytes)
  | sleeping (wake : ℕ) (tag : τ) (data : Bytes)
  | writing (frame rest : Bytes)
  | stopped
  | failed

/-- Bytes that went over the transport: when, and whether they are the first of an answer. -/
structure Transfer where
  time : ℕ
  answer : Bool
  deriving DecidableEq, Repr

/-- A server with its clock, its timing and the layer around its transport, what went over the
transport, and what its waits came to. -/
structure SerialRun (ι τ σ : Type) where
  clock : ℕ
  timing : BusTiming
  stream : SniffIo ι
  loop : ServerLoop τ σ
  phase : SerialPhase τ
  transfers : List Transfer
  heard : List ReadEvent

/-- Every answer starts at least `spacing` after everything that went over the transport before. -/
def Spaced (spacing : ℕ) (transfers : List Transfer) : Prop :=
  ∀ before x after, transfers = before ++ x :: after → x.answer = true →
    ∀ y ∈ before, y.time + spacing ≤ x.time

/-- What can happen: time passes, the transport does something of its own, a read is polled, its
timeout elapses, the buffer is parsed, the server gets ready to send, its sleep ends, a write is
polled.  A poll looks at the clock `lag` after it moved bytes. -/
inductive SerialAction (β : Type)
  | advance (d : ℕ)
  | task (task : β)
  | pollRead (lag : ℕ)
  | elapse
  | parse
  | prepareSend
  | wake
  | pollWrite (lag : ℕ)

namespace SerialRun

/-- A server that has just started, with a timing that may have been told of bytes before. -/
def start (inner : ι) (timing : BusTiming) (clock : ℕ) (store : σ) : SerialRun ι τ σ where
  clock := clock
  timing := timing
  stream := .new inner false true
  loop := .idle store
  phase := .reading
  transfers := []
  heard := []

section Step

variable [AsyncIo ι] (P : Protocol τ) (onSilence : Bytes → Bytes) (service : Service σ)

/-- A poll of the layer. -/
def poll (r : SerialRun ι τ σ) (op : IoOp (AsyncIo.Task (SniffIo ι))) (lag : ℕ) (answer : Bool) :
    SerialRun ι τ σ :=
  { r with
    clock := r.clock + lag
    timing := if .touch ∈ effectsOf r.stream op then r.timing.touch (r.clock + lag) else r.timing
    stream := next r.stream op
    transfers :=
      if 0 < moved r.stream op then r.transfers ++ [⟨r.clock, answer⟩] else r.transfers }

/-- The server goes to another place in its loop. -/
def goto (r : SerialRun ι τ σ) (loop : ServerLoop τ σ) (phase : SerialPhase τ) : SerialRun ι τ σ :=
  { r with loop := loop, phase := phase }

/-- A read has come to an end. -/
def hear (r : SerialRun ι τ σ) (event : ReadEvent) : SerialRun ι τ σ :=
  { r with heard := r.heard ++ [event] }

/-- A poll of `stream.read(&mut tmp)`, with a new buffer. -/
def onPollRead (r : SerialRun ι τ σ) (lag : ℕ) : SerialRun ι τ σ :=
  let p := r.stream.pollRead ⟨[], MAX_ADU_SIZE⟩
  let r := r.poll (.pollRead ⟨[], MAX_ADU_SIZE⟩) lag false
  match p.result with
  | .pending => r
  | .ready (.error e) => (r.hear (.error e)).goto { r.loop with running := false } .stopped
  | .ready (.ok ()) =>
      if p.buf.filled = [] then (r.hear (.data [])).goto { r.loop with running := false } .stopped
      else
        (r.hear (.data p.buf.filled)).goto (r.loop.setBuf (r.loop.buf ++ p.buf.filled)) .parsing

/-- The timeout of a read, which only a read with bytes in the buffer has. -/
def onElapse (r : SerialRun ι τ σ) : SerialRun ι τ σ :=
  if r.loop.buf = [] then r
  else (r.hear .elapsed).goto (r.loop.setBuf (onSilence r.loop.buf)) .reading

/-- One round of `while let Some(..) = parse(&buf)`, up to the answer of the service. -/
def onParse (r : SerialRun ι τ σ) : SerialRun ι τ σ :=
  match P.parse r.loop.buf with
  | none => r.goto r.loop .reading
  | some (x, consumed) =>
      let (rsp, store) := processServerRequest x.pdu x.slaveId service r.loop.store
      let loop := { r.loop with
        buf := r.loop.buf.drop consumed
        store := store
        requests := r.loop.requests ++ [x] }
      match rsp with
      | none => r.goto loop .parsing
      | some data => r.goto loop (.replying x.tag data)

/-- The end of `write_all`, when nothing is left to write. -/
def write (r : SerialRun ι τ σ) (frame rest : Bytes) : SerialRun ι τ σ :=
  if rest = [] then r.goto { r.loop with written := r.loop.written ++ [frame] } .parsing
  else r.goto r.loop (.writing frame rest)

/-- A poll of `stream.write_all(&frame_buf)`, of which `rest` is left. -/
def onPollWrite (r : SerialRun ι τ σ) (frame rest : Bytes) (lag : ℕ) : SerialRun ι τ σ :=
  let p := r.stream.pollWrite rest
  let r := r.poll (.pollWrite rest) lag (rest = frame)
  match p.result with
  | .pending => r
  | .ready (.error _) => r.goto { r.loop with running := false } .failed
  | .ready (.ok n) =>
      if n = 0 then r.goto { r.loop with running := false } .failed
      else r.write frame (rest.drop n)

/-- One action; one that the server is not waiting for changes nothing. -/
def step (r : SerialRun ι τ σ) (action : SerialAction (AsyncIo.Task (SniffIo ι))) :
    SerialRun ι τ σ :=
  match action, r.phase with
  | .advance d, _ => { r with clock := r.clock + d }
  | .task task, _ => { r with stream := next r.stream (.task task) }
  | .pollRead lag, .reading => r.onPollRead lag
  | .elapse, .reading => r.onElapse onSilence
  | .parse, .parsing => r.onParse P service
  | .prepareSend, .replying tag data =>
      r.goto r.loop (.sleeping (r.clock + r.timing.waitIfNeeded r.clock) tag data)
  | .wake, .sleeping wake tag data =>
      if wake ≤ r.clock then r.write (P.encode tag data) (P.encode tag data) else r
  | .pollWrite lag, .writing frame rest => r.onPollWrite frame rest lag
  | _, _ => r

def run (r : SerialRun ι τ σ) (actions : List (SerialAction (AsyncIo.Task (SniffIo ι)))) :
    SerialRun ι τ σ := actions.foldl (step P onSilence service) r

end Step

end SerialRun

/-! ### Spacing -/

theorem spaced_nil (spacing : ℕ) : Spaced spacing [] := by
  intro before x after h
  exact absurd h.symm (by simp)

/-- One more transfer: an answer must start long enough after the others. -/
theorem Spaced.concat {spacing : ℕ} {transfers : List Transfer} (h : Spaced spacing transfers)
    {x : Transfer} (hx : x.answer = true → ∀ y ∈ transfers, y.time + spacing ≤ x.time) :
    Spaced spacing (transfers ++ [x]) := by
  intro before x' after heq hanswer y hy
  rcases List.eq_nil_or_concat after with rfl | ⟨after', last, rfl⟩
  · obtain ⟨rfl, hlast⟩ := List.append_inj' heq rfl
    cases hlast
    exact hx hanswer y hy
  · rw [List.concat_eq_append, ← List.cons_append, ← List.append_assoc] at heq
    obtain ⟨rfl, -⟩ := List.append_inj' heq rfl
    exact h before x' after' rfl hanswer y hy

namespace SerialRun

section Timed

variable {spacing : ℕ}

/-- The timing knows of everything that went over the transport. -/
structure Known (spacing : ℕ) (r : SerialRun ι τ σ) : Prop where
  minSpacing : r.timing.minSpacingUs = spacing
  timed : r.stream.timing = true
  passthrough : ∃ inner, r.stream.state = .passthrough inner
  known : ∀ x ∈ r.transfers,
    x.time ≤ r.clock ∧ x.time ≤ r.timing.lastEventUs ∧ r.timing.lastEventUs ≠ 0
  spaced : Spaced spacing r.transfers

/-- What holds of a place in the loop: a sleep ends late enough, and so does the wait for the first
byte of an answer. -/
def Ready (spacing clock : ℕ) (transfers : List Transfer) : SerialPhase τ → Prop
  | .sleeping wake _ _ => ∀ x ∈ transfers, x.time + spacing ≤ wake
  | .writing frame rest =>
      rest ≠ [] ∧ rest.length ≤ frame.length ∧
        (rest = frame → ∀ x ∈ transfers, x.time + spacing ≤ clock)
  | _ => True

/-- The invariant of a run. -/
structure Timed (spacing : ℕ) (r : SerialRun ι τ σ) : Prop where
  known : r.Known spacing
  ready : Ready spacing r.clock r.transfers r.phase

/-- Going to a place in the loop where what is asked of the timing holds. -/
theorem Known.goto {r : SerialRun ι τ σ} (h : r.Known spacing) (loop : ServerLoop τ σ)
    {phase : SerialPhase τ} (hphase : Ready spacing r.clock r.transfers phase) :
    (r.goto loop phase).Timed spacing :=
  ⟨⟨h.minSpacing, h.timed, h.passthrough, h.known, h.spaced⟩, hphase⟩

/-- The end of a write, or the rest of it. -/
theorem Known.write {r : SerialRun ι τ σ} (h : r.Known spacing) {frame rest : Bytes}
    (hlen : rest.length ≤ frame.length)
    (hfirst : rest = frame → ∀ x ∈ r.transfers, x.time + spacing ≤ r.clock) :
    (r.write frame rest).Timed spacing := by
  unfold SerialRun.write
  split
  · exact h.goto _ trivial
  · next hrest => exact h.goto _ ⟨hrest, hlen, hfirst⟩

theorem Known.hear {r : SerialRun ι τ σ} (h : r.Known spacing) (event : ReadEvent) :
    (r.hear event).Known spacing :=
  ⟨h.minSpacing, h.timed, h.passthrough, h.known, h.spaced⟩

theorem Timed.start (inner : ι) (timing : BusTiming) (clock : ℕ) (store : σ) :
    (SerialRun.start inner timing clock store : SerialRun ι τ σ).Timed timing.minSpacingUs :=
  ⟨⟨rfl, rfl, ⟨inner, rfl⟩, fun _ hx => absurd hx List.not_mem_nil, spaced_nil _⟩, trivial⟩

variable {P : Protocol τ} {onSilence : Bytes → Bytes} {service : Service σ}

/-- What is asked of a place in the loop is not lost when time passes. -/
theorem Ready.mono {clock clock' : ℕ} (hclock : clock ≤ clock') {transfers : List Transfer}
    {phase : SerialPhase τ} (h : Ready spacing clock transfers phase) :
    Ready spacing clock' transfers phase := by
  cases phase with
  | writing frame rest =>
      exact ⟨h.1, h.2.1, fun hf x hx => (h.2.2 hf x hx).trans hclock⟩
  | sleeping wake tag data => exact h
  | reading | parsing | replying | stopped | failed => trivial

theorem Timed.onParse {r : SerialRun ι τ σ} (h : r.Timed spacing) :
    (r.onParse P service).Timed spacing := by
  unfold SerialRun.onParse
  split
  · exact h.known.goto _ trivial
  · simp only
    split
    · exact h.known.goto _ trivial
    · exact h.known.goto _ trivial

theorem Timed.onElapse {r : SerialRun ι τ σ} (h : r.Timed spacing) :
    (r.onElapse onSilence).Timed spacing := by
  unfold SerialRun.onElapse
  split
  · exact h
  · exact (h.known.hear _).goto _ trivial

/-- The sleep before an answer ends long enough after everything that went over the transport. -/
theorem Timed.prepareSend {r : SerialRun ι τ σ} (h : r.Timed spacing) (tag : τ) (data : Bytes) :
    (r.goto r.loop (.sleeping (r.clock + r.timing.waitIfNeeded r.clock) tag data)).Timed
      spacing := by
  refine h.known.goto _ ?_
  intro x hx
  obtain ⟨hclock, hlast, hne⟩ := h.known.known x hx
  have hwake := (BusTiming.le_wake_iff r.timing x.time r.clock).2 (.inr ⟨hne, hlast, hclock⟩)
  rwa [h.known.minSpacing] at hwake

variable [AsyncIo ι]

theorem next_passthrough {io : SniffIo ι} (h : ∃ inner, io.state = .passthrough inner)
    (op : IoOp (AsyncIo.Task (SniffIo ι))) : ∃ inner, (next io op).state = .passthrough inner := by
  obtain ⟨inner, hio⟩ := h
  cases op with
  | task task =>
      change ∃ inner, (io.runTask task).1.state = .passthrough inner
      unfold SniffIo.runTask
      rw [hio]
      cases task with
      | inner task => exact ⟨_, rfl⟩
      | activeReader spare => exact ⟨inner, hio⟩
      | tapForwarder => exact ⟨inner, hio⟩
  | pollRead buf =>
      change ∃ inner, (io.pollRead buf).io.state = .passthrough inner
      unfold SniffIo.pollRead
      rw [hio]
      exact ⟨_, rfl⟩
  | pollWrite bs =>
      change ∃ inner, (io.pollWrite bs).io.state = .passthrough inner
      unfold SniffIo.pollWrite
      rw [hio]
      exact ⟨_, rfl⟩

/-- A poll that tells the timing exactly when it moves bytes. -/
theorem Known.poll {r : SerialRun ι τ σ} (h : r.Known spacing)
    {op : IoOp (AsyncIo.Task (SniffIo ι))} (hop : TouchExact r.stream op) (lag : ℕ) {answer : Bool}
    (hanswer : answer = true → ∀ x ∈ r.transfers, x.time + spacing ≤ r.clock) :
    (r.poll op lag answer).Known spacing := by
  refine ⟨?_, (next_timing r.stream op).trans h.timed, next_passthrough h.passthrough op, ?_, ?_⟩
  · unfold SerialRun.poll
    simp only
    split
    · exact h.minSpacing
    · exact h.minSpacing
  · unfold SerialRun.poll
    by_cases hmove : 0 < moved r.stream op
    · simp only [if_pos hmove, if_pos (hop.2 hmove), BusTiming.touch]
      intro x hx
      -- the clock is looked at after the bytes were moved
      have hle : x.time ≤ r.clock := by
        rcases List.mem_append.1 hx with hx | hx
        · exact (h.known x hx).1
        · rw [List.mem_singleton.1 hx]
      omega
    · simp only [if_neg hmove, if_neg (mt hop.1 hmove)]
      intro x hx
      obtain ⟨hclock, hlast⟩ := h.known x hx
      exact ⟨Nat.le_add_right_of_le hclock, hlast⟩
  · unfold SerialRun.poll
    simp only
    split
    · exact h.spaced.concat hanswer
    · exact h.spaced

theorem Known.onPollRead (hι : Plain ι) {r : SerialRun ι τ σ} (h : r.Known spacing)
    (hphase : r.phase = .reading) (lag : ℕ) : (r.onPollRead lag).Timed spacing := by
  have hexact : TouchExact r.stream (.pollRead ⟨[], MAX_ADU_SIZE⟩) := by
    rw [touchExact_iff hι h.timed, Measured]
    obtain ⟨inner, hinner⟩ := h.passthrough
    rw [hinner]
    exact .inl rfl
  have hpoll : (r.poll (.pollRead ⟨[], MAX_ADU_SIZE⟩) lag false).Known spacing :=
    h.poll hexact lag (fun hf => by cases hf)
  unfold SerialRun.onPollRead
  simp only
  split
  · refine ⟨hpoll, ?_⟩
    rw [show (r.poll (.pollRead ⟨[], MAX_ADU_SIZE⟩) lag false).phase = r.phase from rfl, hphase]
    trivial
  · exact (hpoll.hear _).goto _ trivial
  · split
    · exact (hpoll.hear _).goto _ trivial
    · exact (hpoll.hear _).goto _ trivial

/-- A write that is not ready moves nothing. -/
theorem poll_pollWrite_pending {r : SerialRun ι τ σ} {rest : Bytes} {answer : Bool} {lag : ℕ}
    (h : (r.stream.pollWrite rest).result = .pending) :
    (r.poll (.pollWrite rest) lag answer).transfers = r.transfers := by
  have hmoved : moved r.stream (.pollWrite rest) = 0 := by
    unfold moved
    simp only [h]
  unfold SerialRun.poll
  simp only [hmoved, Nat.lt_irrefl, if_false]

theorem Timed.onPollWrite (hι : Plain ι) {r : SerialRun ι τ σ} {frame rest : Bytes}
    (h : r.Timed spacing) (hphase : r.phase = .writing frame rest) (lag : ℕ) :
    (r.onPollWrite frame rest lag).Timed spacing := by
  have hready := h.ready
  rw [hphase] at hready
  obtain ⟨hrest, hlen, hfirst⟩ := hready
  have hpos : 0 < rest.length := List.length_pos_iff.2 hrest
  have hexact := touchExact_pollWrite hι h.known.timed rest
  have hpoll : (r.poll (.pollWrite rest) lag (rest = frame)).Known spacing :=
    h.known.poll hexact lag (fun hf => hfirst (of_decide_eq_true hf))
  unfold SerialRun.onPollWrite
  simp only
  split
  · next hpending =>
    refine ⟨hpoll, ?_⟩
    rw [show (r.poll (.pollWrite rest) lag (rest = frame)).phase = r.phase from rfl, hphase,
      poll_pollWrite_pending hpending]
    exact ⟨hrest, hlen, fun hf x hx => Nat.le_add_right_of_le (hfirst hf x hx)⟩
  · exact hpoll.goto _ trivial
  · next n _ =>
    split
    · exact hpoll.goto _ trivial
    · next hn =>
      -- what is left after a write that took bytes is not the whole frame
      have hdrop : (rest.drop n).length < frame.length := by
        rw [List.length_drop]
        omega
      exact hpoll.write hdrop.le (fun hf => absurd (congrArg List.length hf) hdrop.ne)

/-- **One action keeps the spacing.** -/
theorem Timed.step (hι : Plain ι) {r : SerialRun ι τ σ} (h : r.Timed spacing)
    (action : SerialAction (AsyncIo.Task (SniffIo ι))) :
    (r.step P onSilence service action).Timed spacing := by
  unfold SerialRun.step
  split
  · next d _ =>
    refine ⟨⟨h.known.minSpacing, h.known.timed, h.known.passthrough, ?_, h.known.spaced⟩,
      h.ready.mono (Nat.le_add_right _ _)⟩
    intro x hx
    obtain ⟨hclock, hlast⟩ := h.known.known x hx
    exact ⟨Nat.le_add_right_of_le hclock, hlast⟩
  · next task _ =>
    exact ⟨⟨h.known.minSpacing, (next_timing _ _).trans h.known.timed,
      next_passthrough h.known.passthrough _, h.known.known, h.known.spaced⟩, h.ready⟩
  · next lag hphase => exact h.known.onPollRead hι hphase lag
  · exact h.onElapse
  · exact h.onParse
  · next tag data _ => exact h.prepareSend tag data
  · next wake tag data hphase =>
    have hwake := h.ready
    rw [hphase] at hwake
    split
    · next hclock => exact h.known.write le_rfl (fun _ x hx => (hwake x hx).trans hclock)
    · exact h
  · next lag frame rest hphase => exact h.onPollWrite hι hphase lag
  · exact h

theorem Timed.run (hι : Plain ι) {r : SerialRun ι τ σ} (h : r.Timed spacing)
    (actions : List (SerialAction (AsyncIo.Task (SniffIo ι)))) :
    (r.run P onSilence service actions).Timed spacing := by
  unfold SerialRun.run
  induction actions generalizing r with
  | nil => exact h
  | cons action actions ih => exact ih (h.step hι action)

end Timed

/-! ### The loop without times -/

section Serves

variable (P : Protocol τ) (onSilence : Bytes → Bytes) (service : Service σ) (writeOk : ℕ → Bool)

/-- What becomes of the loop once the write of a frame has come to its end. -/
def answered (loop : ServerLoop τ σ) (frame : Bytes) : ServerLoop τ σ :=
  if writeOk loop.written.length then { loop with written := loop.written ++ [frame] }
  else { loop with running := false }

/-- The loop goes on with the buffer, unless a write failed. -/
def resume (loop : ServerLoop τ σ) : ServerLoop τ σ :=
  if loop.running then serveBuffer P service writeOk loop else loop

/-- What the loop comes to before it reads again. -/
def finish (r : SerialRun ι τ σ) : ServerLoop τ σ :=
  match r.phase with
  | .parsing => resume P service writeOk r.loop
  | .replying tag data | .sleeping _ tag data =>
      resume P service writeOk (answered writeOk r.loop (P.encode tag data))
  | .writing frame _ => resume P service writeOk (answered writeOk r.loop frame)
  | .reading | .stopped | .failed => r.loop

/-- The outcomes of the writes are those of a run. -/
structure Agrees (r : SerialRun ι τ σ) : Prop where
  succeeded : ∀ k < r.loop.written.length, writeOk k = true
  failed : r.phase = .failed → writeOk r.loop.written.length = false

/-- The server is where the loop without times would be after what it heard. -/
structure Serves (store : σ) (r : SerialRun ι τ σ) : Prop where
  running : r.phase ≠ .stopped → r.phase ≠ .failed → r.loop.running = true
  finish : Agrees writeOk r →
    r.finish P service writeOk = serveSerial P service writeOk onSilence (.idle store) r.heard

variable {P onSilence service writeOk}

/-- Serving a request, with the end of its write apart. -/
theorem serve_eq_answered (loop : ServerLoop τ σ) (x : RawRequest τ) :
    ServerLoop.serve P service writeOk loop x
      = match processServerRequest x.pdu x.slaveId service loop.store with
        | (none, store) => { loop with store := store, requests := loop.requests ++ [x] }
        | (some data, store) =>
            answered writeOk { loop with store := store, requests := loop.requests ++ [x] }
              (P.encode x.tag data) := by
  unfold ServerLoop.serve
  rcases processServerRequest x.pdu x.slaveId service loop.store with ⟨_ | data, store⟩ <;> rfl

theorem resume_none {loop : ServerLoop τ σ} (h : P.parse loop.buf = none) :
    resume P service writeOk loop = loop := by
  unfold resume
  split
  · exact serveBuffer_none h
  · rfl

theorem resume_some {loop : ServerLoop τ σ} (hrun : loop.running = true) {x : RawRequest τ} {n : ℕ}
    (h : P.parse loop.buf = some (x, n)) :
    resume P service writeOk loop
      = resume P service writeOk
          (ServerLoop.serve P service writeOk (loop.setBuf (loop.buf.drop n)) x) := by
  unfold resume
  rw [if_pos hrun, serveBuffer_some h]

variable {store : σ} {r : SerialRun ι τ σ}

/-- Only the loop, the place in it and what was heard matter. -/
theorem Serves.congr {r' : SerialRun ι τ σ} (h : r.Serves P onSilence service writeOk store)
    (hloop : r'.loop = r.loop) (hphase : r'.phase = r.phase) (hheard : r'.heard = r.heard) :
    r'.Serves P onSilence service writeOk store := by
  refine ⟨?_, fun hagrees => ?_⟩
  · rw [hloop, hphase]
    exact h.running
  · have hagrees' : r.Agrees writeOk := by
      refine ⟨?_, ?_⟩
      · rw [← hloop]
        exact hagrees.succeeded
      · rw [← hloop, ← hphase]
        exact hagrees.failed
    have hfinish := h.finish hagrees'
    unfold SerialRun.finish at hfinish ⊢
    rw [hloop, hphase, hheard, hfinish]

/-- A wait that is over and that the loop without times does not have. -/
theorem Serves.goto (h : r.Serves P onSilence service writeOk store) (hphase : r.phase ≠ .failed)
    {loop : ServerLoop τ σ} {phase : SerialPhase τ}
    (hrun : phase ≠ .stopped → phase ≠ .failed → loop.running = true)
    (hwritten : r.loop.written.length ≤ loop.written.length)
    (hfinish : (r.goto loop phase).Agrees writeOk →
      (r.goto loop phase).finish P service writeOk = r.finish P service writeOk) :
    (r.goto loop phase).Serves P onSilence service writeOk store := by
  refine ⟨hrun, fun hagrees => (hfinish hagrees).trans (h.finish ?_)⟩
  exact ⟨fun k hk => hagrees.succeeded k (hk.trans_le hwritten), fun hf => absurd hf hphase⟩

/-- The end of a read. -/
theorem Serves.hear (h : r.Serves P onSilence service writeOk store) (hphase : r.phase = .reading)
    {event : ReadEvent} {loop : ServerLoop τ σ} {phase : SerialPhase τ}
    (hrun : phase ≠ .stopped → phase ≠ .failed → loop.running = true)
    (hwritten : r.loop.written = loop.written)
    (hfinish : ((r.hear event).goto loop phase).finish P service writeOk
      = onSerialEvent P service writeOk onSilence r.loop event) :
    ((r.hear event).goto loop phase).Serves P onSilence service writeOk store := by
  refine ⟨hrun, fun hagrees => hfinish.trans ?_⟩
  have hagrees' : r.Agrees writeOk := by
    refine ⟨?_, fun hf => by rw [hphase] at hf; cases hf⟩
    rw [hwritten]
    exact hagrees.succeeded
  have hbefore := h.finish hagrees'
  unfold SerialRun.finish at hbefore
  rw [hphase] at hbefore
  have hheard : ((r.hear event).goto loop phase).heard = r.heard ++ [event] := rfl
  rw [hheard, serveSerial, List.foldl_append]
  exact congrArg (onSerialEvent P service writeOk onSilence · event) hbefore

theorem Serves.onElapse (h : r.Serves P onSilence service writeOk store)
    (hphase : r.phase = .reading) :
    (r.onElapse onSilence).Serves P onSilence service writeOk store := by
  have hrun : r.loop.running = true := h.running (by simp [hphase]) (by simp [hphase])
  unfold SerialRun.onElapse
  split
  · exact h
  · next hbuf =>
    refine h.hear hphase (fun _ _ => hrun) rfl ?_
    rw [onSerialEvent, if_pos hrun]
    simp only [if_neg hbuf]
    rfl

theorem Serves.onParse (h : r.Serves P onSilence service writeOk store)
    (hphase : r.phase = .parsing) :
    (r.onParse P service).Serves P onSilence service writeOk store := by
  have hrun : r.loop.running = true := h.running (by simp [hphase]) (by simp [hphase])
  have hfailed : r.phase ≠ .failed := by simp [hphase]
  have hfinish : r.finish P service writeOk = resume P service writeOk r.loop := by
    unfold SerialRun.finish
    rw [hphase]
  unfold SerialRun.onParse
  cases hparse : P.parse r.loop.buf with
  | none =>
      refine h.goto hfailed (fun _ _ => hrun) le_rfl fun _ => ?_
      rw [hfinish, resume_none hparse]
      rfl
  | some parsed =>
      obtain ⟨x, n⟩ := parsed
      rw [resume_some hrun hparse, serve_eq_answered] at hfinish
      simp only [ServerLoop.setBuf_store] at hfinish ⊢
      rcases hproc : processServerRequest x.pdu x.slaveId service r.loop.store
        with ⟨_ | data, store'⟩
      · rw [hproc] at hfinish
        exact h.goto hfailed (fun _ _ => hrun) le_rfl fun _ => hfinish.symm
      · rw [hproc] at hfinish
        exact h.goto hfailed (fun _ _ => hrun) le_rfl fun _ => hfinish.symm

/-- The end of a write, or the rest of it. -/
theorem Serves.write (h : r.Serves P onSilence service writeOk store)
    (hrun : r.loop.running = true) (hphase : r.phase ≠ .failed) {frame : Bytes}
    (hfinish : r.finish P service writeOk
      = resume P service writeOk (answered writeOk r.loop frame)) (rest : Bytes) :
    (r.write frame rest).Serves P onSilence service writeOk store := by
  unfold SerialRun.write
  split
  · refine h.goto hphase (fun _ _ => hrun) (by simp) fun hagrees => ?_
    -- the write that has ended is one of those of the run
    have hok : writeOk r.loop.written.length = true :=
      hagrees.succeeded _ (by simp [SerialRun.goto])
    rw [hfinish, answered, if_pos hok]
    rfl
  · exact h.goto hphase (fun _ _ => hrun) le_rfl fun _ => hfinish.symm

/-- A write that fails ends the server. -/
theorem Serves.fail (h : r.Serves P onSilence service writeOk store) {frame rest : Bytes}
    (hphase : r.phase = .writing frame rest) :
    (r.goto { r.loop with running := false } .failed).Serves P onSilence service writeOk store := by
  refine h.goto (by simp [hphase]) (fun _ hf => absurd rfl hf) le_rfl fun hagrees => ?_
  have hbad : writeOk r.loop.written.length ≠ true :=
    ne_true_of_eq_false (hagrees.failed rfl)
  unfold SerialRun.finish
  rw [hphase]
  simp only [answered, if_neg hbad]
  rfl

section Step

variable [AsyncIo ι]

theorem Serves.onPollRead (h : r.Serves P onSilence service writeOk store)
    (hphase : r.phase = .reading) (lag : ℕ) :
    (r.onPollRead lag).Serves P onSilence service writeOk store := by
  have hrun : r.loop.running = true := h.running (by simp [hphase]) (by simp [hphase])
  have hpoll : (r.poll (.pollRead ⟨[], MAX_ADU_SIZE⟩) lag false).Serves P onSilence service writeOk
      store := h.congr rfl rfl rfl
  unfold SerialRun.onPollRead
  simp only
  split
  · exact hpoll
  · refine hpoll.hear hphase (fun hs _ => absurd rfl hs) rfl ?_
    rw [onSerialEvent]
    exact (if_pos hrun).symm
  · split
    · refine hpoll.hear hphase (fun hs _ => absurd rfl hs) rfl ?_
      rw [onSerialEvent]
      exact (if_pos hrun).symm
    · next hdata =>
      refine hpoll.hear hphase (fun _ _ => hrun) rfl ?_
      rw [onSerialEvent]
      refine Eq.trans ?_ (if_pos hrun).symm
      simp only [if_neg hdata]
      exact if_pos hrun

theorem Serves.onPollWrite (h : r.Serves P onSilence service writeOk store) {frame rest : Bytes}
    (hphase : r.phase = .writing frame rest) (lag : ℕ) :
    (r.onPollWrite frame rest lag).Serves P onSilence service writeOk store := by
  have hrun : r.loop.running = true := h.running (by simp [hphase]) (by simp [hphase])
  have hpoll : (r.poll (.pollWrite rest) lag (rest = frame)).Serves P onSilence service writeOk
      store := h.congr rfl rfl rfl
  have hpolled : (r.poll (.pollWrite rest) lag (rest = frame)).phase = .writing frame rest := hphase
  have hfinish : (r.poll (.pollWrite rest) lag (rest = frame)).finish P service writeOk
      = resume P service writeOk (answered writeOk r.loop frame) := by
    unfold SerialRun.finish
    rw [hpolled]
    rfl
  unfold SerialRun.onPollWrite
  simp only
  split
  · exact hpoll
  · exact hpoll.fail hpolled
  · split
    · exact hpoll.fail hpolled
    · exact hpoll.write hrun (by simp [hpolled]) hfinish _

/-- One action keeps the server where the loop without times would be. -/
theorem Serves.step (h : r.Serves P onSilence service writeOk store)
    (action : SerialAction (AsyncIo.Task (SniffIo ι))) :
    (r.step P onSilence service action).Serves P onSilence service writeOk store := by
  unfold SerialRun.step
  split
  · exact h.congr rfl rfl rfl
  · exact h.congr rfl rfl rfl
  · next lag hphase => exact h.onPollRead hphase lag
  · next hphase => exact h.onElapse hphase
  · next hphase => exact h.onParse hphase
  · next tag data hphase =>
    refine h.goto (by simp [hphase]) (fun _ _ => h.running (by simp [hphase]) (by simp [hphase]))
      le_rfl fun _ => ?_
    unfold SerialRun.finish
    rw [hphase]
    rfl
  · next wake tag data hphase =>
    split
    · refine h.write (h.running (by simp [hphase]) (by simp [hphase])) (by simp [hphase]) ?_ _
      unfold SerialRun.finish
      rw [hphase]
    · exact h
  · next lag frame rest hphase => exact h.onPollWrite hphase lag
  · exact h

theorem Serves.run (h : r.Serves P onSilence service writeOk store)
    (actions : List (SerialAction (AsyncIo.Task (SniffIo ι)))) :
    (r.run P onSilence service actions).Serves P onSilence service writeOk store := by
  unfold SerialRun.run
  induction actions generalizing r with
  | nil => exact h
  | cons action actions ih => exact ih (h.step action)

end Step

end Serves

end SerialRun

/-! ### Both servers -/

/-- The protocol of a serial server. -/
def serverProtocol : SerialKind → Protocol Unit
  | .rtu => rtuProtocol
  | .ascii => asciiProtocol

/-- What a serial server does with its buffer when the bus falls silent. -/
def serverOnSilence : SerialKind → Bytes → Bytes
  | .rtu => rtuOnSilence
  | .ascii => fun _ => []

section Servers

variable [AsyncIo ι]

/-- A server of either kind in use. -/
def serverRun (kind : SerialKind) (service : Service σ) (inner : ι) (timing : BusTiming)
    (clock : ℕ) (store : σ) (actions : List (SerialAction (AsyncIo.Task (SniffIo ι)))) :
    SerialRun ι Unit σ :=
  (SerialRun.start inner timing clock store).run (serverProtocol kind) (serverOnSilence kind)
    service actions

/-- **The answers of both serial servers are spaced**, in every run. -/
theorem answers_spaced (hι : Plain ι) (kind : SerialKind) (service : Service σ) (inner : ι)
    (timing : BusTiming) (clock : ℕ) (store : σ)
    (actions : List (SerialAction (AsyncIo.Task (SniffIo ι)))) :
    Spaced timing.minSpacingUs
      (serverRun kind service inner timing clock store actions).transfers :=
  ((SerialRun.Timed.start inner timing clock store).run hι actions).known.spaced

/-- **The runs are those of the loop without times**: what a server has done, with the answer that
is under way, is what the loop makes of the reads that came to an end. -/
theorem run_serves (kind : SerialKind) (service : Service σ) (inner : ι) (timing : BusTiming)
    (clock : ℕ) (store : σ) (actions : List (SerialAction (AsyncIo.Task (SniffIo ι))))
    {writeOk : ℕ → Bool}
    (hwrites : (serverRun kind service inner timing clock store actions).Agrees writeOk) :
    (serverRun kind service inner timing clock store actions).finish (serverProtocol kind) service
        writeOk
      = serveSerial (serverProtocol kind) service writeOk (serverOnSilence kind) (.idle store)
          (serverRun kind service inner timing clock store actions).heard := by
  have hstart : (SerialRun.start inner timing clock store : SerialRun ι Unit σ).Serves
      (serverProtocol kind) (serverOnSilence kind) service writeOk store :=
    ⟨fun _ _ => rfl, fun _ => rfl⟩
  exact (hstart.run actions).finish hwrites

end Servers

/-- A server that refuses everything, with a spacing of 1750 microseconds, around a transport that
has a request ready at the time 5. -/
def refusingRun : SerialRun RawTransport Unit Unit :=
  serverRun .rtu ⟨fun _ _ s => (.error .illegalFunction, s)⟩ .new (.custom 1750) 5 ()
    [.task (.inner (RawEvent.arrive (.ok [1, 3, 0, 0, 0, 1, 0x84, 0x0a]))),
      .task (.inner (RawEvent.accept (.ok 2))), .task (.inner (RawEvent.accept (.ok 3))),
      .pollRead 0, .parse, .prepareSend, .wake, .advance 1750, .wake, .pollWrite 1, .pollWrite 1]

/-- The answer is written in two pieces, the first of which waits for the spacing. -/
theorem answers_spaced_refusing :
    Spaced 1750 refusingRun.transfers ∧
      refusingRun.transfers = [⟨5, false⟩, ⟨1755, true⟩, ⟨1756, false⟩] :=
  ⟨answers_spaced RawTransport.plain .rtu _ _ (.custom 1750) 5 () _, by decide +kernel⟩

end OmsModbus.Capture
