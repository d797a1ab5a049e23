/-
**Serial servers after a silence.**

Whatever a serial server has read, in whatever pieces and with whatever pauses, a silence puts it
back to where it started: its buffer is empty, and the next frame is taken for what it is.  The RTU
server throws its buffer away only when it holds no frame.  That it never does is an invariant: the
loop goes back to waiting only when the parser has found nothing, so nothing that parses is kept
from one wait to the next.

Main definitions:

* `OmsModbus.ServerLoop.Drained` — a loop that waits has no frame in its buffer;
* `OmsModbus.ReadOrSilence` — what a server meets on an open line;
* `OmsModbus.SerialRequest.asciiFrame` — the ASCII frame of a request.

Main results:

* `OmsModbus.serveSerial_drained` — the invariant, over any waits;
* `OmsModbus.serveSerial_running` — on an open line a server goes on, while its writes succeed;
* `OmsModbus.serveSerial_silence` — **after a silence the buffer is empty**, and nothing was handed
  on;
* `OmsModbus.serial_resync` — **a request behind a silence is handed on**, alone and once.
-/

import OmsModbus.AsciiStream
import OmsModbus.RtuFraming

set_option relaxedAutoImplicit false
set_option autoImplicit false

namespace OmsModbus

open StreamFraming

variable {σ τ : Type}

/-! ### The invariant -/

section Invariant

variable {P : Protocol τ} {service : Service σ} {writeOk : ℕ → Bool} {onSilence : Bytes → Bytes}

/-- A loop that waits has no frame in its buffer. -/
def ServerLoop.Drained (P : Protocol τ) (s : ServerLoop τ σ) : Prop :=
  s.running = true → P.parse s.buf = none

/-- The inner loop ends when there is no frame left. -/
theorem serveBuffer_drained {s : ServerLoop τ σ} (hs : s.running = true) :
    (serveBuffer P service writeOk s).Drained P := by
  intro hrun
  obtain ⟨b, hserve, hbuf⟩ := serveBuffer_eq_while P service writeOk hs
  have hb : (serveBuffer P service writeOk s).buf = (P.drain s.buf).2 := by
    rw [← hbuf hrun, hserve, ServerLoop.setBuf_buf]
  rw [hb, P.parse_drain]

/-- A wait keeps the invariant, when a silence does. -/
theorem onSerialEvent_drained (hsilence : ∀ b, P.parse b = none → P.parse (onSilence b) = none)
    {s : ServerLoop τ σ} (hs : s.Drained P) (event : ReadEvent) :
    (onSerialEvent P service writeOk onSilence s event).Drained P := by
  unfold onSerialEvent
  by_cases hrun : s.running = true
  · rw [if_pos hrun]
    cases event with
    | data bs =>
        simp only
        split
        · exact fun h => absurd h (by simp)
        · exact serveBuffer_drained hrun
    | error e => exact fun h => absurd h (by simp)
    | elapsed | expired =>
        simp only
        split
        · exact hs
        · exact fun _ => hsilence _ (hs hrun)
  · rw [if_neg hrun]
    exact hs

/-- **A loop that waits has no frame in its buffer**, whatever it has met. -/
theorem serveSerial_drained (hsilence : ∀ b, P.parse b = none → P.parse (onSilence b) = none)
    {s : ServerLoop τ σ} (hs : s.Drained P) (events : List ReadEvent) :
    (serveSerial P service writeOk onSilence s events).Drained P := by
  unfold serveSerial
  induction events generalizing s with
  | nil => exact hs
  | cons event events ih => exact ih (onSerialEvent_drained hsilence hs event)

/-- A read that brings bytes, or a silence. -/
def ReadOrSilence : ReadEvent → Prop
  | .data bs => bs ≠ []
  | .error _ => False
  | .elapsed | .expired => True

/-- A wait that brings bytes or a silence does not end the loop. -/
theorem onSerialEvent_running (hw : ∀ k, writeOk k = true) {s : ServerLoop τ σ}
    (hs : s.running = true) {event : ReadEvent} (h : ReadOrSilence event) :
    (onSerialEvent P service writeOk onSilence s event).running = true := by
  unfold onSerialEvent
  rw [if_pos hs]
  cases event with
  | data bs =>
      have hrun : (s.setBuf (s.buf ++ bs)).running = true := hs
      simp only [if_neg (show bs ≠ [] from h)]
      rw [serveBuffer_eq P service hw hrun, ServerLoop.setBuf_running]
      exact ServerLoop.serveAll_running P service hw hrun _
  | error e => cases h
  | elapsed | expired =>
      simp only
      split
      · exact hs
      · exact hs

/-- On an open line a server goes on, while its writes succeed. -/
theorem serveSerial_running (hw : ∀ k, writeOk k = true) {s : ServerLoop τ σ}
    (hs : s.running = true) {events : List ReadEvent} (h : ∀ event ∈ events, ReadOrSilence event) :
    (serveSerial P service writeOk onSilence s events).running = true := by
  unfold serveSerial
  induction events generalizing s with
  | nil => exact hs
  | cons event events ih =>
      have hstep : (onSerialEvent P service writeOk onSilence s event).running = true :=
        onSerialEvent_running hw hs (h event (List.mem_cons_self ..))
      exact ih hstep fun event' hmem => h event' (List.mem_cons_of_mem _ hmem)

end Invariant

/-! ### A silence -/

section Silence

variable {P : Protocol τ} {service : Service σ} {writeOk : ℕ → Bool} {onSilence : Bytes → Bytes}

theorem serveSerial_append (s : ServerLoop τ σ) (events events' : List ReadEvent) :
    serveSerial P service writeOk onSilence s (events ++ events')
      = serveSerial P service writeOk onSilence
          (serveSerial P service writeOk onSilence s events) events' :=
  List.foldl_append

/-- **After a silence the buffer is empty**, and nothing else has changed. -/
theorem serveSerial_silence (hnil : P.parse [] = none)
    (hsilence : ∀ b, P.parse b = none → onSilence b = []) (s : σ) {history : List ReadEvent}
    (hrun : (serveSerial P service writeOk onSilence (.idle s) history).running = true) :
    serveSerial P service writeOk onSilence (.idle s) (history ++ [ReadEvent.elapsed])
      = (serveSerial P service writeOk onSilence (.idle s) history).setBuf [] := by
  have hdrained : (serveSerial P service writeOk onSilence (.idle s) history).Drained P := by
    refine serveSerial_drained ?_ (fun _ => hnil) history
    intro b hb
    rw [hsilence b hb, hnil]
  rw [serveSerial_append]
  generalize serveSerial P service writeOk onSilence (.idle s) history = t at hrun hdrained ⊢
  change onSerialEvent P service writeOk onSilence t .elapsed = t.setBuf []
  unfold onSerialEvent
  rw [if_pos hrun]
  simp only
  split
  · next hbuf => rw [← hbuf, ServerLoop.setBuf_self]
  · rw [hsilence _ (hdrained hrun)]

/-- A request that is found in the reads behind a silence is handed on, alone and once. -/
theorem serveSerial_resync (hnil : P.parse [] = none)
    (hsilence : ∀ b, P.parse b = none → onSilence b = []) (s : σ) {history : List ReadEvent}
    (hrun : (serveSerial P service writeOk onSilence (.idle s) history).running = true)
    (reads : List Bytes) (hne : ∀ bs ∈ reads, bs ≠ []) {x : RawRequest τ}
    (hx : (P.run (fun _ => false) [] reads).1 = [x]) :
    (serveSerial P service writeOk onSilence (.idle s)
        (history ++ ReadEvent.elapsed :: reads.map .data)).requests
      = (serveSerial P service writeOk onSilence (.idle s) history).requests ++ [x] := by
  have hsplit : history ++ ReadEvent.elapsed :: reads.map .data
      = (history ++ [ReadEvent.elapsed]) ++ reads.map .data := by simp
  rw [hsplit, serveSerial_append, serveSerial_silence hnil hsilence s hrun]
  generalize serveSerial P service writeOk onSilence (.idle s) history = t at hrun ⊢
  obtain ⟨b, hserve, -⟩ := serveSerial_data_while P service writeOk onSilence hne (t.setBuf [])
    hrun
  rw [ServerLoop.setBuf_buf, hx] at hserve
  obtain ⟨n, hn⟩ := ServerLoop.serveWhile_requests P service writeOk (t.setBuf []) hrun x []
  rw [hserve, ServerLoop.setBuf_requests, hn, List.take_nil]
  rfl

end Silence

/-! ### The two servers -/

/-- The ASCII frame of a request. -/
def SerialRequest.asciiFrame (r : SerialRequest) : Bytes :=
  encodeAsciiFrameInto (r.slaveId :: r.pdu) []

/-- A silence leaves nothing of a buffer that holds no RTU frame. -/
theorem rtuOnSilence_of_none {b : Bytes} (h : rtuProtocol.parse b = none) :
    rtuOnSilence b = [] := by
  change tryParseServerRtu b = none at h
  rw [rtuOnSilence, h]
  rfl

/-- A frame that comes in one read is found, and nothing else. -/
theorem rtuFramer_run_rtuFrame (r : SerialRequest) :
    (rtuProtocol.run (fun _ => false) [] [r.rtuFrame]).1 = [r.raw] := by
  have hnone : NoEarlyCrc [r.rtuFrame] := by
    intro k hk hlen
    obtain rfl : k = 0 := by simpa using hk
    cases hlen
  have hrun := rtuFramer_run_of_noEarlyCrc (r := r) (by simp [r.rtuFrame_ne_nil]) (by simp) hnone
  exact congrArg Prod.fst hrun

/-- An ASCII frame is found in any reads, and nothing else. -/
theorem asciiFramer_run_asciiFrame {r : SerialRequest} {reads : List Bytes}
    (hcut : reads.flatten = r.asciiFrame) :
    (asciiProtocol.run (fun _ => false) [] reads).1 = [r.raw] := by
  obtain ⟨fc, data, hpdu, -, -⟩ := r.exists_cons
  rw [SerialRequest.asciiFrame, hpdu] at hcut
  rw [SerialRequest.raw, hpdu]
  exact congrArg Prod.fst (asciiFramer_run hcut)

/-- **A request behind a silence is handed on**, alone and once, by a server that is still running,
whatever it has met before: by the RTU server when it comes in one read, by the ASCII server in any
reads.  The silence itself empties the buffer, and the RTU server never keeps a frame in it.  Both
are still running when they have met reads and silences only, and their writes succeed. -/
theorem serial_resync (service : Service σ) (writeOk : ℕ → Bool) (s : σ) (r : SerialRequest)
    (history : List ReadEvent) :
    ((serveRtu service writeOk (.idle s) history).running = true →
      tryParseServerRtu (serveRtu service writeOk (.idle s) history).buf = none ∧
      (serveRtu service writeOk (.idle s) (history ++ [ReadEvent.elapsed])).buf = [] ∧
      (serveRtu service writeOk (.idle s)
          (history ++ [ReadEvent.elapsed, .data r.rtuFrame])).requests
        = (serveRtu service writeOk (.idle s) history).requests ++ [r.raw]) ∧
    ((serveAscii service writeOk (.idle s) history).running = true →
      (serveAscii service writeOk (.idle s) (history ++ [ReadEvent.elapsed])).buf = [] ∧
      ∀ reads : List Bytes, (∀ bs ∈ reads, bs ≠ []) → reads.flatten = r.asciiFrame →
        (serveAscii service writeOk (.idle s)
            (history ++ ReadEvent.elapsed :: reads.map .data)).requests
          = (serveAscii service writeOk (.idle s) history).requests ++ [r.raw]) ∧
    ((∀ k, writeOk k = true) → (∀ event ∈ history, ReadOrSilence event) →
      (serveRtu service writeOk (.idle s) history).running = true ∧
      (serveAscii service writeOk (.idle s) history).running = true) := by
  refine ⟨?_, ?_, ?_⟩
  · intro hrun
    have hnil : rtuProtocol.parse [] = none := rfl
    have hsilence : ∀ b, rtuProtocol.parse b = none → rtuOnSilence b = [] :=
      fun _ => rtuOnSilence_of_none
    have hkeep : ∀ b, rtuProtocol.parse b = none → rtuProtocol.parse (rtuOnSilence b) = none := by
      intro b hb
      rw [hsilence b hb]
      rfl
    refine ⟨serveSerial_drained hkeep (fun _ => rfl) history hrun, ?_, ?_⟩
    · rw [serveRtu, serveSerial_silence hnil hsilence s hrun, ServerLoop.setBuf_buf]
    · exact serveSerial_resync hnil hsilence s hrun [r.rtuFrame]
        (by simp [r.rtuFrame_ne_nil]) (rtuFramer_run_rtuFrame r)
  · intro hrun
    have hnil : asciiProtocol.parse [] = none := rfl
    have hsilence : ∀ b, asciiProtocol.parse b = none → (fun _ : Bytes => ([] : Bytes)) b = [] :=
      fun _ _ => rfl
    refine ⟨?_, ?_⟩
    · rw [serveAscii, serveSerial_silence hnil hsilence s hrun, ServerLoop.setBuf_buf]
    · intro reads hne hcut
      exact serveSerial_resync hnil hsilence s hrun _ hne (asciiFramer_run_asciiFrame hcut)
  · intro hw hhistory
    exact ⟨serveSerial_running hw rfl hhistory, serveSerial_running hw rfl hhistory⟩

/-- A server that has met garbage, a silence, and half a frame. -/
theorem serial_resync_garbage :
    let history : List ReadEvent :=
      [.data [1, 2, 3, 4, 5, 6], .elapsed, .data [58, 48], .data (writeOne.rtuFrame.take 5)]
    let reads := [writeOne.asciiFrame.take 4, writeOne.asciiFrame.drop 4]
    (serveRtu storeService (fun _ => true) (.idle .new)
        (history ++ [ReadEvent.elapsed, .data writeOne.rtuFrame])).requests
      = (serveRtu storeService (fun _ => true) (.idle .new) history).requests ++ [writeOne.raw] ∧
    (serveAscii storeService (fun _ => true) (.idle .new)
        (history ++ ReadEvent.elapsed :: reads.map .data)).requests
      = (serveAscii storeService (fun _ => true) (.idle .new) history).requests
        ++ [writeOne.raw] :=
  have h := serial_resync storeService (fun _ => true) .new writeOne
    [.data [1, 2, 3, 4, 5, 6], .elapsed, .data [58, 48], .data (writeOne.rtuFrame.take 5)]
  ⟨(h.1 (by decide)).2.2, (h.2.1 (by decide)).2 [writeOne.asciiFrame.take 4,
    writeOne.asciiFrame.drop 4] (by decide) (by decide)⟩

end OmsModbus
