/-
**Bus timing.**

A `BusTiming` remembers when bytes last went over the bus, and tells a sender how long to sleep
before the next frame.  It is kept in a layer around the transport, a `SniffIo`, which records every
byte that is read or written through it; a layer with a tap reads ahead in the background, and what
it takes from the transport is recorded only when it is read through the layer.

A serial client puts a layer of its own around whatever it is given, and asks the outermost layer
alone when it may send.  Before it asks, it throws away what has come in meanwhile, until nothing
comes for a while; so a little spacing is kept even by a client that is never told to sleep.  The
layers are modelled as a list, outermost first; the transport lies below the last one.  A run is a
list of actions of the client, the background readers and the clock, with a record of every frame
that was sent.

Main definitions:

* `OmsModbus.BusTiming` — the time of the last byte, and the spacing;
* `OmsModbus.SniffLayer`, `OmsModbus.SniffIo.new` — one layer, and a stack with one more;
* `OmsModbus.SerialClient`, `OmsModbus.SerialKind.withOptions` — a client and its constructors;
* `OmsModbus.SendPhase`, `OmsModbus.SendPhase.drain` — where a client is in a call, and the drain;
* `OmsModbus.BusState.step`, `OmsModbus.BusState.run` — one action, and a run;
* `OmsModbus.BusState.Step` — the cases of an action, from which every invariant is read off;
* `OmsModbus.SendRecord.Spaced` — a frame starts long enough after the last byte;
* `OmsModbus.SendRecord.Ready` — the client had nothing to wait for, or knew for what.

Main results:

* `OmsModbus.BusTiming.le_wake_iff` — when a sleep ends long enough after a byte;
* `OmsModbus.drainStaleData_of_drains` — the phases of a call are those of the drain;
* `OmsModbus.prepareSend_of_not_rebuilt` — a client that was not rebuilt never sleeps;
* `OmsModbus.spaced_of_quiet` — without a tap, the drain keeps a spacing of what it waited for;
* `OmsModbus.spacing_enforced` — **a frame is spaced when the client was ready for it**, and if it
  is written as soon as it may be, only then.
-/

import OmsModbus.SendRecv

set_option relaxedAutoImplicit false
set_option autoImplicit false

namespace OmsModbus

/-! ### The timing -/

/-- The time of the last byte in microseconds, 0 when there was none, and the spacing. -/
structure BusTiming where
  lastEventUs : ℕ
  minSpacingUs : ℕ
  deriving DecidableEq, Repr

/-- A timing with a spacing. -/
def BusTiming.custom (minSpacing : ℕ) : BusTiming := ⟨0, minSpacing⟩

/-- A byte went over the bus. -/
def BusTiming.touch (t : BusTiming) (now : ℕ) : BusTiming := { t with lastEventUs := max now 1 }

/-- How long a sender has to sleep. -/
def BusTiming.waitIfNeeded (t : BusTiming) (now : ℕ) : ℕ :=
  let last := t.lastEventUs
  if last = 0 then 0
  else
    let elapsed := now - last
    if elapsed < t.minSpacingUs then t.minSpacingUs - elapsed else 0

@[simp] theorem BusTiming.touch_minSpacingUs (t : BusTiming) (now : ℕ) :
    (t.touch now).minSpacingUs = t.minSpacingUs := rfl

/-- **A sleep ends long enough after a byte** when the byte was over long enough before it, or was
recorded, and only then. -/
theorem BusTiming.le_wake_iff (t : BusTiming) (byte now : ℕ) :
    byte + t.minSpacingUs ≤ now + t.waitIfNeeded now ↔
      byte + t.minSpacingUs ≤ now ∨ t.lastEventUs ≠ 0 ∧ byte ≤ t.lastEventUs ∧ byte ≤ now := by
  rw [BusTiming.waitIfNeeded]
  by_cases hlast : t.lastEventUs = 0
  · simp [hlast]
  · simp only [if_neg hlast]
    split <;> omega

/-! ### Layers -/

/-- One `SniffIo` around a transport: whether it has a tap and a timing, how many chunks its
background reader has ready, and whether a part of a chunk is left over.  All layers of a client
share one timing. -/
structure SniffLayer where
  tap : Bool
  timing : Bool
  queued : ℕ
  pending : Bool
  deriving DecidableEq, Repr

/-- One more layer. -/
def SniffIo.new (inner : List SniffLayer) (tap timing : Bool) : List SniffLayer :=
  ⟨tap, timing, 0, false⟩ :: inner

/-- Whether the outermost layer has a timing. -/
def outerTiming : List SniffLayer → Bool
  | [] => false
  | l :: _ => l.timing

/-- Reading some bytes through a stack, with a part of the chunk left over if `more`: the stack
afterwards, whether a layer recorded it, and whether the transport was read.  What is left over of a
chunk is not recorded again. -/
def readLayers (more : Bool) : List SniffLayer → Option (List SniffLayer × Bool × Bool)
  | [] => some ([], false, true)
  | l :: ls =>
    if l.tap then
      if l.pending then some ({ l with pending := more } :: ls, false, false)
      else if l.queued = 0 then none
      else some ({ l with queued := l.queued - 1, pending := more } :: ls, l.timing, false)
    else
      match readLayers more ls with
      | none => none
      | some (ls, touched, raw) => some (l :: ls, touched || l.timing, raw)

/-- The background reader of the layer at `level` reads from the layers below it.  The channel drops
its oldest chunks when it is full, and keeps `kept` of them. -/
def pullLayers (more : Bool) (kept : ℕ) :
    ℕ → List SniffLayer → Option (List SniffLayer × Bool × Bool)
  | _, [] => none
  | 0, l :: ls =>
    if l.tap ∧ kept ≤ l.queued + 1 then
      match readLayers more ls with
      | none => none
      | some (ls, touched, raw) => some ({ l with queued := kept } :: ls, touched, raw)
    else none
  | level + 1, l :: ls =>
    match pullLayers more kept level ls with
    | none => none
    | some (ls, touched, raw) => some (l :: ls, touched, raw)

/-! ### Clients -/

/-- What of the options of a client bears on its layers. -/
structure ClientOptions where
  tap : Bool
  busTiming : Option ℕ

/-- A serial client: its layers, the tap and the timing it keeps for a rebuild, and what a rebuild
makes around a new transport before the client adds its own layer. -/
structure SerialClient where
  layers : List SniffLayer
  tap : Bool
  busTiming : Bool
  factory : Option (List SniffLayer)
  deriving DecidableEq, Repr

/-- A client around a transport that may have layers already. -/
def SerialClient.withTimeout (transport : List SniffLayer) : SerialClient :=
  ⟨SniffIo.new transport false false, false, false, none⟩

/-- A client with options. -/
def SerialClient.withOptions (opts : ClientOptions) : SerialClient :=
  let timing := opts.busTiming.isSome
  let stream := SniffIo.new [] opts.tap timing
  { SerialClient.withTimeout stream with busTiming := timing, tap := opts.tap }

/-- A client that can be rebuilt. -/
def SerialClient.withReconnectOn (c : SerialClient) : SerialClient :=
  { c with factory := some (SniffIo.new [] c.tap c.busTiming) }

/-- A client around a new transport. -/
def SerialClient.rebuild (c : SerialClient) (stream : List SniffLayer) : SerialClient :=
  { c with layers := SniffIo.new stream c.tap c.busTiming }

/-- The two serial transports, whose constructors are written twice. -/
inductive SerialKind
  | rtu
  | ascii
  deriving DecidableEq, Repr

/-- `rtu::with_options`. -/
def rtuWithOptions (opts : ClientOptions) : SerialClient := SerialClient.withOptions opts

/-- `ascii::with_options`. -/
def asciiWithOptions (opts : ClientOptions) : SerialClient := SerialClient.withOptions opts

def SerialKind.withOptions : SerialKind → ClientOptions → SerialClient
  | rtu => rtuWithOptions
  | ascii => asciiWithOptions

/-! ### The phases of a call -/

/-- A duration in milliseconds, in microseconds. -/
def Duration.fromMillis (ms : ℕ) : ℕ := 1000 * ms

def QUICK_POLL_MS : ℕ := 1

def DRAIN_QUIET_MS : ℕ := 10

def DRAIN_MAX_MS : ℕ := 200

/-- A client that is about to send: what the drain has waited for in vain, when the client looked at
the timing, the last event that was recorded then, and when its sleep ends. -/
structure Waiting where
  quiet : ℕ
  lookedAt : ℕ
  lastEvent : ℕ
  wake : ℕ
  deriving DecidableEq, Repr

/-- Where a client is: between two calls; in the quick poll of the drain, which began at `since`; at
the start of the loop, behind a poll that has brought bytes; at the top of the loop; in a read of
the loop; behind the drain, whose last read has waited for `quiet` and brought nothing; asleep; or
behind the first byte of its frame. -/
inductive SendPhase
  | idle
  | quickPoll (since : ℕ)
  | stale
  | drainLoop (deadline : ℕ)
  | drainRead (deadline since : ℕ)
  | drained (quiet : ℕ)
  | waiting (w : Waiting)
  | exchange
  deriving DecidableEq, Repr

/-- How long a read of the loop waits that began at `since`. -/
def drainWait (deadline since : ℕ) : ℕ :=
  min (deadline - since) (Duration.fromMillis DRAIN_QUIET_MS)

/-- What a client does next in its drain, when no bytes come: it begins a call with the quick poll,
and a timeout ends the drain; in the loop it first looks whether the bus is busy.  A timeout may
come after its time, and just before a background reader hands on a chunk. -/
def SendPhase.drain (clock : ℕ) : SendPhase → Option SendPhase
  | .idle => some (.quickPoll clock)
  | .quickPoll since =>
      let quiet := Duration.fromMillis QUICK_POLL_MS
      if since + quiet ≤ clock then some (.drained quiet) else none
  | .stale => some (.drainLoop (clock + Duration.fromMillis DRAIN_MAX_MS))
  | .drainLoop deadline =>
      -- the call ends with "bus busy" when the deadline has passed
      if deadline ≤ clock then some .idle else some (.drainRead deadline clock)
  | .drainRead deadline since =>
      let quiet := drainWait deadline since
      if since + quiet ≤ clock then some (.drained quiet) else none
  | _ => none

/-- Where a read that brings bytes takes a client: further in its drain, or on in its answer. -/
def SendPhase.read : SendPhase → Option SendPhase
  | .quickPoll _ => some .stale
  | .drainRead deadline _ => some (.drainLoop deadline)
  | .exchange => some .exchange
  | _ => none

/-- What a read of the drain sees when no bytes come. -/
def SendPhase.silence (clock : ℕ) : SendPhase → List ReadEvent
  | .quickPoll _ | .drainRead _ _ => [.elapsed]
  | .drainLoop deadline => if deadline ≤ clock then [.expired] else []
  | _ => []

/-- A drain from a phase on, with the events that its reads see and the phase that it ends in: it
has found the bus quiet, or busy. -/
inductive SendPhase.Drains : SendPhase → List ReadEvent → SendPhase → Prop
  | quiet (waited : ℕ) : Drains (.drained waited) [] (.drained waited)
  | busy : Drains .idle [] .idle
  | read {p p' last : SendPhase} {bs : Bytes} {events : List ReadEvent} (hbs : bs ≠ [])
      (hread : p.read = some p') (hrest : Drains p' events last) :
      Drains p (.data bs :: events) last
  | drain {p p' last : SendPhase} {clock : ℕ} {events : List ReadEvent} (hp : p ≠ .idle)
      (hdrain : p.drain clock = some p') (hrest : Drains p' events last) :
      Drains p (p.silence clock ++ events) last

/-- How a drain ends that ends in a phase. -/
def SendPhase.drainResult : SendPhase → Except ModbusError Unit
  | .drained _ => .ok ()
  | _ => .error (.connection "bus busy: data received during quiet period")

/-- **The phases of the drain are those of `drain_stale_data`.** -/
theorem drainStaleData_of_drains {p last : SendPhase} {events : List ReadEvent}
    (h : p.Drains events last) :
    match p with
    | .quickPoll _ => drainStaleData events = (last.drainResult, [])
    | .stale | .drainLoop _ | .drainRead _ _ => drainLoop events = (last.drainResult, [])
    | .drained _ | .idle => events = [] ∧ last = p
    | _ => True := by
  induction h with
  | quiet waited => exact ⟨rfl, rfl⟩
  | busy => exact ⟨rfl, rfl⟩
  | @read p p' last bs events hbs hread hrest ih =>
      cases p <;> cases hread
      · exact (if_neg hbs).trans ih
      · exact (if_neg hbs).trans ih
      · trivial
  | @drain p p' last clock events hp hdrain hrest ih =>
      cases p with
      | idle => exact absurd rfl hp
      | quickPoll since =>
          rw [SendPhase.drain] at hdrain
          split at hdrain
          · cases hdrain
            obtain ⟨rfl, rfl⟩ := ih
            rfl
          · cases hdrain
      | stale =>
          cases hdrain
          exact ih
      | drainLoop deadline =>
          rw [SendPhase.drain] at hdrain
          split at hdrain
          · next hbusy =>
            cases hdrain
            obtain ⟨rfl, rfl⟩ := ih
            simp only [SendPhase.silence, if_pos hbusy]
            rfl
          · next hbusy =>
            cases hdrain
            simp only [SendPhase.silence, if_neg hbusy]
            exact ih
      | drainRead deadline since =>
          rw [SendPhase.drain] at hdrain
          split at hdrain
          · cases hdrain
            obtain ⟨rfl, rfl⟩ := ih
            rfl
          · cases hdrain
      | drained waited => cases hdrain
      | waiting w => cases hdrain
      | exchange => cases hdrain

/-! ### Runs -/

/-- A frame that was sent: when its first byte was written, when the last byte before it went over
the transport, how often the client had been rebuilt, and how it had waited. -/
structure SendRecord where
  sentAt : ℕ
  lastByte : Option ℕ
  rebuilds : ℕ
  waited : Waiting
  deriving DecidableEq, Repr

/-- The frame starts long enough after the last byte. -/
def SendRecord.Spaced (r : SendRecord) (spacing : ℕ) : Prop :=
  ∀ t, r.lastByte = some t → t + spacing ≤ r.sentAt

/-- A byte was recorded when the client looked at the timing. -/
def Waiting.Knew (w : Waiting) (byte : ℕ) : Prop :=
  w.lastEvent ≠ 0 ∧ byte ≤ w.lastEvent ∧ byte ≤ w.lookedAt

/-- When the client looked at the timing, the last byte was over long enough; or the client had been
rebuilt, and that byte was recorded, if there is a tap. -/
def SendRecord.Ready (r : SendRecord) (tap : Bool) (spacing : ℕ) : Prop :=
  ∀ t, r.lastByte = some t →
    t + spacing ≤ r.waited.lookedAt ∨ r.rebuilds ≠ 0 ∧ (tap = true → r.waited.Knew t)

/-- The state of a run.  `lastByte` is the time of the last byte on the transport, recorded or
not. -/
structure BusState where
  clock : ℕ
  client : SerialClient
  timing : BusTiming
  phase : SendPhase
  lastByte : Option ℕ
  rebuilds : ℕ
  sends : List SendRecord
  deriving DecidableEq, Repr

/-- What can happen: time passes, a background reader reads, the client begins a call or goes on in
its drain, reads some bytes, gets ready to send, writes the first bytes of a frame or further ones,
is through with a call, or is rebuilt. -/
inductive BusAction
  | advance (d : ℕ)
  | pull (level : ℕ) (more : Bool) (kept : ℕ)
  | drain
  | read (more : Bool)
  | prepareSend
  | write
  | writeMore
  | finish
  | rebuild (ok : Bool)
  deriving DecidableEq, Repr

/-- Bytes went through the layers. -/
def BusState.moved (s : BusState) (layers : List SniffLayer) (touched raw : Bool) : BusState :=
  { s with
    client := { s.client with layers := layers }
    timing := if touched then s.timing.touch s.clock else s.timing
    lastByte := if raw then some s.clock else s.lastByte }

/-- How a client waits that is about to send, behind a drain that has waited for `quiet`. -/
def BusState.prepareSend (s : BusState) (quiet : ℕ) : Waiting where
  quiet := quiet
  lookedAt := s.clock
  lastEvent := s.timing.lastEventUs
  wake :=
    s.clock + if outerTiming s.client.layers then s.timing.waitIfNeeded s.clock else 0

/-- One action, if it can happen.  A call may end at any time, with an answer or an error, or
because its caller drops it. -/
def BusState.step (s : BusState) : BusAction → Option BusState
  | .advance d => some { s with clock := s.clock + d }
  | .pull level more kept =>
    match pullLayers more kept level s.client.layers with
    | none => none
    | some (layers, touched, raw) => some (s.moved layers touched raw)
  | .drain =>
    match s.phase.drain s.clock with
    | none => none
    | some phase => some { s with phase := phase }
  | .read more =>
    match s.phase.read, readLayers more s.client.layers with
    | some phase, some (layers, touched, raw) =>
      some { s.moved layers touched raw with phase := phase }
    | _, _ => none
  | .prepareSend =>
    match s.phase with
    | .drained quiet => some { s with phase := .waiting (s.prepareSend quiet) }
    | _ => none
  | .write =>
    match s.phase with
    | .waiting w =>
      if w.wake ≤ s.clock then
        let r : SendRecord := ⟨s.clock, s.lastByte, s.rebuilds, w⟩
        let s := s.moved s.client.layers (s.client.layers.any SniffLayer.timing) true
        some { s with phase := .exchange, sends := s.sends ++ [r] }
      else none
    | _ => none
  | .writeMore =>
    match s.phase with
    | .exchange => some (s.moved s.client.layers (s.client.layers.any SniffLayer.timing) true)
    | _ => none
  | .finish => some { s with phase := .idle }
  | .rebuild ok =>
    -- `run_with_reconnect` rebuilds between two attempts
    match s.phase, s.client.factory with
    | .idle, some stream =>
      if ok then some { s with client := s.client.rebuild stream, rebuilds := s.rebuilds + 1 }
      else some s
    | _, _ => none

/-- What an action does when it can happen: one case for each action, two for a rebuild. -/
inductive BusState.Step (s : BusState) : BusAction → BusState → Prop
  | advance (d : ℕ) : Step s (.advance d) { s with clock := s.clock + d }
  | pull {level kept : ℕ} {more touched raw : Bool} {layers : List SniffLayer}
      (h : pullLayers more kept level s.client.layers = some (layers, touched, raw)) :
      Step s (.pull level more kept) (s.moved layers touched raw)
  | drain {phase : SendPhase} (h : s.phase.drain s.clock = some phase) :
      Step s .drain { s with phase := phase }
  | read {more touched raw : Bool} {phase : SendPhase} {layers : List SniffLayer}
      (hphase : s.phase.read = some phase)
      (h : readLayers more s.client.layers = some (layers, touched, raw)) :
      Step s (.read more) { s.moved layers touched raw with phase := phase }
  | prepareSend {quiet : ℕ} (hphase : s.phase = .drained quiet) :
      Step s .prepareSend { s with phase := .waiting (s.prepareSend quiet) }
  | write {w : Waiting} (hphase : s.phase = .waiting w) (hwake : w.wake ≤ s.clock) :
      Step s .write
        { s.moved s.client.layers (s.client.layers.any SniffLayer.timing) true with
          phase := .exchange
          sends := s.sends ++ [⟨s.clock, s.lastByte, s.rebuilds, w⟩] }
  | writeMore (hphase : s.phase = .exchange) :
      Step s .writeMore (s.moved s.client.layers (s.client.layers.any SniffLayer.timing) true)
  | finish : Step s .finish { s with phase := .idle }
  | rebuild {stream : List SniffLayer} (hphase : s.phase = .idle)
      (h : s.client.factory = some stream) :
      Step s (.rebuild true)
        { s with client := s.client.rebuild stream, rebuilds := s.rebuilds + 1 }
  | rebuildFailed : Step s (.rebuild false) s

theorem BusState.step_cases {s s' : BusState} {a : BusAction} (h : s.step a = some s') :
    s.Step a s' := by
  cases a with
  | advance d =>
      cases h
      exact .advance d
  | pull level more kept =>
      rw [BusState.step] at h
      split at h
      · cases h
      · next hpull =>
        cases h
        exact .pull hpull
  | drain =>
      rw [BusState.step] at h
      split at h
      · cases h
      · next hdrain =>
        cases h
        exact .drain hdrain
  | read more =>
      rw [BusState.step] at h
      split at h
      · next hphase hread =>
        cases h
        exact .read hphase hread
      · cases h
  | prepareSend =>
      rw [BusState.step] at h
      split at h
      · next hphase =>
        cases h
        exact .prepareSend hphase
      · cases h
  | write =>
      rw [BusState.step] at h
      split at h
      · next w hphase =>
        split at h
        · next hwake =>
          cases h
          exact .write hphase hwake
        · cases h
      · cases h
  | writeMore =>
      rw [BusState.step] at h
      split at h
      · next hphase =>
        cases h
        exact .writeMore hphase
      · cases h
  | finish =>
      cases h
      exact .finish
  | rebuild ok =>
      rw [BusState.step] at h
      split at h
      · next stream hphase hstream =>
        cases ok with
        | true =>
            cases h
            exact .rebuild hphase hstream
        | false =>
            cases h
            exact .rebuildFailed
      · cases h

/-- A run. -/
def BusState.run : BusState → List BusAction → Option BusState
  | s, [] => some s
  | s, a :: actions =>
    match s.step a with
    | none => none
    | some s => BusState.run s actions

/-- A client that has done nothing yet. -/
def BusState.start (c : SerialClient) (spacing clock : ℕ) : BusState :=
  ⟨clock, c, .custom spacing, .idle, none, 0, []⟩

/-- What every action keeps holds at the end of a run. -/
theorem BusState.run_induction {P : BusState → Prop}
    (hstep : ∀ {s s' : BusState} {a : BusAction}, P s → s.step a = some s' → P s')
    {s s' : BusState} {actions : List BusAction} (hs : P s) (h : s.run actions = some s') :
    P s' := by
  induction actions generalizing s with
  | nil =>
      cases h
      exact hs
  | cons a actions ih =>
      rw [BusState.run] at h
      split at h
      · cases h
      · next t ht => exact ih (hstep hs ht) h

/-! ### What the layers keep -/

theorem readLayers_outer {more touched raw : Bool} {ls ls' : List SniffLayer}
    (h : readLayers more ls = some (ls', touched, raw)) : outerTiming ls' = outerTiming ls := by
  cases ls with
  | nil =>
      cases h
      rfl
  | cons l ls =>
      rw [readLayers] at h
      split at h
      · split at h
        · cases h
          rfl
        · split at h
          · cases h
          · cases h
            rfl
      · split at h
        · cases h
        · cases h
          rfl

theorem pullLayers_outer {more touched raw : Bool} {kept level : ℕ} {ls ls' : List SniffLayer}
    (h : pullLayers more kept level ls = some (ls', touched, raw)) :
    outerTiming ls' = outerTiming ls := by
  cases ls with
  | nil =>
      rw [pullLayers] at h
      cases h
  | cons l ls =>
      cases level with
      | zero =>
          rw [pullLayers] at h
          split at h
          · split at h
            · cases h
            · cases h
              rfl
          · cases h
      | succ level =>
          rw [pullLayers] at h
          split at h
          · cases h
          · cases h
            rfl

/-- Without taps a read goes through to the transport, and every layer with a timing records it. -/
theorem readLayers_untapped (more : Bool) {ls : List SniffLayer} (h : ∀ l ∈ ls, l.tap = false) :
    readLayers more ls = some (ls, ls.any SniffLayer.timing, true) := by
  induction ls with
  | nil => rfl
  | cons l ls ih =>
      rw [readLayers, h l (by simp), ih fun l' hl' => h l' (by simp [hl'])]
      simp [Bool.or_comm]

/-- Without taps nothing is read in the background. -/
theorem pullLayers_untapped (more : Bool) (kept level : ℕ) {ls : List SniffLayer}
    (h : ∀ l ∈ ls, l.tap = false) : pullLayers more kept level ls = none := by
  induction ls generalizing level with
  | nil => rw [pullLayers]
  | cons l ls ih =>
      cases level with
      | zero => rw [pullLayers, if_neg (by simp [h l (by simp)])]
      | succ level => rw [pullLayers, ih level fun l' hl' => h l' (by simp [hl'])]

/-! ### Sleeping -/

/-- The sleep of a client: as long as the timing says, if its outermost layer has one. -/
def Waiting.Slept (w : Waiting) (timed : Bool) (spacing : ℕ) : Prop :=
  w.wake =
    w.lookedAt + if timed then BusTiming.waitIfNeeded ⟨w.lastEvent, spacing⟩ w.lookedAt else 0

/-- **When a client sleeps long enough.** -/
theorem Waiting.Slept.le_wake_iff {w : Waiting} {timed : Bool} {spacing : ℕ}
    (h : w.Slept timed spacing) (byte : ℕ) :
    byte + spacing ≤ w.wake ↔ byte + spacing ≤ w.lookedAt ∨ timed = true ∧ w.Knew byte := by
  rw [h]
  cases timed with
  | true => simpa [Waiting.Knew] using BusTiming.le_wake_iff ⟨w.lastEvent, spacing⟩ byte w.lookedAt
  | false => simp

theorem Waiting.Slept.lookedAt_le {w : Waiting} {timed : Bool} {spacing : ℕ}
    (h : w.Slept timed spacing) : w.lookedAt ≤ w.wake := by
  rw [h]
  exact Nat.le_add_right _ _

theorem SendPhase.drain_ne_waiting {p p' : SendPhase} {clock : ℕ} (h : p.drain clock = some p')
    (w : Waiting) : p' ≠ .waiting w := by
  rintro rfl
  cases p with
  | drainLoop deadline =>
      rw [SendPhase.drain] at h
      split at h <;> cases h
  | _ => simp [SendPhase.drain] at h

theorem SendPhase.read_ne_waiting {p p' : SendPhase} (h : p.read = some p') (w : Waiting) :
    p' ≠ .waiting w := by
  rintro rfl
  cases p <;> simp [SendPhase.read] at h

/-- The outermost layer has a timing exactly when the client has one and was rebuilt, and so has
slept behind each drain. -/
structure BusState.Timed (timing : Bool) (spacing : ℕ) (s : BusState) : Prop where
  minSpacing : s.timing.minSpacingUs = spacing
  keeps : s.client.busTiming = timing
  outer : outerTiming s.client.layers = (timing && decide (s.rebuilds ≠ 0))
  waiting : ∀ w, s.phase = .waiting w → w.Slept (timing && decide (s.rebuilds ≠ 0)) spacing
  sends : ∀ r ∈ s.sends,
    r.waited.Slept (timing && decide (r.rebuilds ≠ 0)) spacing ∧ r.waited.wake ≤ r.sentAt

section Timed

variable {timing : Bool} {spacing : ℕ} {s s' : BusState} {a : BusAction}

theorem BusState.Timed.moved (h : s.Timed timing spacing) {layers : List SniffLayer}
    (hl : outerTiming layers = outerTiming s.client.layers) (touched raw : Bool) :
    (s.moved layers touched raw).Timed timing spacing where
  minSpacing := by cases touched <;> exact h.minSpacing
  keeps := h.keeps
  outer := hl.trans h.outer
  waiting := h.waiting
  sends := h.sends

/-- A client that goes on to anything but a sleep. -/
theorem BusState.Timed.goto (h : s.Timed timing spacing) {phase : SendPhase}
    (hphase : ∀ w, phase ≠ .waiting w) : { s with phase := phase }.Timed timing spacing where
  minSpacing := h.minSpacing
  keeps := h.keeps
  outer := h.outer
  waiting := by
    intro w hw
    exact absurd hw (hphase w)
  sends := h.sends

/-- **One action keeps what is known of the sleeps.** -/
theorem BusState.Timed.step (h : s.Timed timing spacing) (hstep : s.step a = some s') :
    s'.Timed timing spacing := by
  cases BusState.step_cases hstep with
  | advance d => exact ⟨h.minSpacing, h.keeps, h.outer, h.waiting, h.sends⟩
  | pull hpull => exact h.moved (pullLayers_outer hpull) _ _
  | drain hdrain =>
      -- the sleep begins behind the drain, with `prepareSend` alone
      exact h.goto (SendPhase.drain_ne_waiting hdrain)
  | read hphase hread =>
      exact (h.moved (readLayers_outer hread) _ _).goto (SendPhase.read_ne_waiting hphase)
  | prepareSend _ =>
      refine ⟨h.minSpacing, h.keeps, h.outer, ?_, h.sends⟩
      intro w hw
      cases hw
      -- the sleep is computed from what the timing knows now
      simp only [Waiting.Slept, BusState.prepareSend, h.outer, ← h.minSpacing]
  | @write w hphase hwake =>
      have hmoved : (s.moved s.client.layers (s.client.layers.any SniffLayer.timing) true).Timed
          timing spacing := h.moved rfl _ _
      refine ⟨hmoved.minSpacing, hmoved.keeps, hmoved.outer, ?_, ?_⟩
      · intro w' hw'
        cases hw'
      · intro r hr
        rcases List.mem_append.1 hr with hr | hr
        · exact h.sends r hr
        · obtain rfl := List.mem_singleton.1 hr
          exact ⟨h.waiting w hphase, hwake⟩
  | writeMore _ => exact h.moved rfl _ _
  | finish =>
      refine h.goto ?_
      intro w hw
      cases hw
  | rebuild hphase _ =>
      refine ⟨h.minSpacing, h.keeps, ?_, ?_, h.sends⟩
      · simpa [SerialClient.rebuild, SniffIo.new, outerTiming] using h.keeps
      · intro w hw
        rw [hphase] at hw
        cases hw
  | rebuildFailed => exact h

end Timed

/-! ### Quiet -/

/-- The byte was recorded, and the drain has waited behind it. -/
structure Waiting.Quiet (w : Waiting) (byte : ℕ) : Prop where
  knew : w.Knew byte
  quiet : byte + w.quiet ≤ w.lookedAt

/-- A byte was over before the read of the drain that brings nothing began. -/
def SendPhase.Quiet (clock byte : ℕ) : SendPhase → Prop
  | .quickPoll since | .drainRead _ since => byte ≤ since
  | .drained quiet => byte + quiet ≤ clock
  | .waiting w => w.Quiet byte
  | _ => True

theorem SendPhase.Quiet.mono {p : SendPhase} {clock clock' byte : ℕ} (h : p.Quiet clock byte)
    (hclock : clock ≤ clock') : p.Quiet clock' byte := by
  cases p with
  | drained quiet => exact Nat.le_trans h hclock
  | _ => exact h

/-- **A drain that ends has waited.** -/
theorem SendPhase.Quiet.drain {p p' : SendPhase} {clock byte : ℕ} (h : p.Quiet clock byte)
    (hbyte : byte ≤ clock) (hdrain : p.drain clock = some p') : p'.Quiet clock byte := by
  cases p with
  | idle =>
      cases hdrain
      exact hbyte
  | quickPoll since =>
      rw [SendPhase.drain] at hdrain
      split at hdrain
      · next hover =>
        cases hdrain
        exact (Nat.add_le_add_right h _).trans hover
      · cases hdrain
  | stale =>
      cases hdrain
      trivial
  | drainLoop deadline =>
      rw [SendPhase.drain] at hdrain
      split at hdrain
      · cases hdrain
        trivial
      · cases hdrain
        exact hbyte
  | drainRead deadline since =>
      rw [SendPhase.drain] at hdrain
      split at hdrain
      · next hover =>
        cases hdrain
        exact (Nat.add_le_add_right h _).trans hover
      · cases hdrain
  | drained quiet => cases hdrain
  | waiting w => cases hdrain
  | exchange => cases hdrain

theorem SendPhase.quiet_read {p p' : SendPhase} (h : p.read = some p') (clock byte : ℕ) :
    p'.Quiet clock byte := by
  cases p <;> cases h <;> trivial

/-- A client without a tap: its layers record every byte, and no byte comes in behind a drain. -/
structure BusState.Untapped (s : BusState) : Prop where
  keeps : s.client.busTiming = true ∧ s.client.tap = false
  factory : ∀ stream, s.client.factory = some stream → ∀ l ∈ stream, l.tap = false
  layers : ∀ l ∈ s.client.layers, l.tap = false
  timing : s.client.layers.any SniffLayer.timing = true
  lastByte_le : ∀ t, s.lastByte = some t → t ≤ s.clock
  known : ∀ t, s.lastByte = some t → s.timing.lastEventUs ≠ 0 ∧ t ≤ s.timing.lastEventUs
  phase : ∀ t, s.lastByte = some t → s.phase.Quiet s.clock t
  sends : ∀ r ∈ s.sends, ∀ t, r.lastByte = some t → r.waited.Quiet t

namespace BusState.Untapped

variable {s s' : BusState} {a : BusAction}

/-- A byte that goes through the layers is recorded. -/
theorem moved (h : s.Untapped) {phase : SendPhase} (hphase : ∀ byte, phase.Quiet s.clock byte) :
    { s.moved s.client.layers true true with phase := phase }.Untapped where
  keeps := h.keeps
  factory := h.factory
  layers := h.layers
  timing := h.timing
  lastByte_le := by
    rintro t ⟨⟩
    exact le_rfl
  known := by
    rintro t ⟨⟩
    refine ⟨?_, le_max_left _ _⟩
    change max s.clock 1 ≠ 0
    omega
  phase := by
    intro t _
    exact hphase t
  sends := h.sends

theorem goto (h : s.Untapped) {phase : SendPhase}
    (hphase : ∀ t, s.lastByte = some t → phase.Quiet s.clock t) :
    { s with phase := phase }.Untapped :=
  ⟨h.keeps, h.factory, h.layers, h.timing, h.lastByte_le, h.known, hphase, h.sends⟩

theorem step (h : s.Untapped) (hstep : s.step a = some s') : s'.Untapped := by
  cases BusState.step_cases hstep with
  | advance d =>
      refine ⟨h.keeps, h.factory, h.layers, h.timing, ?_, h.known, ?_, h.sends⟩
      · intro t ht
        exact (h.lastByte_le t ht).trans (Nat.le_add_right _ _)
      · intro t ht
        exact (h.phase t ht).mono (Nat.le_add_right _ _)
  | pull hpull =>
      -- there is no background reader
      rw [pullLayers_untapped _ _ _ h.layers] at hpull
      cases hpull
  | drain hdrain =>
      refine h.goto ?_
      intro t ht
      exact (h.phase t ht).drain (h.lastByte_le t ht) hdrain
  | read hphase hread =>
      rw [readLayers_untapped _ h.layers, h.timing] at hread
      cases hread
      exact h.moved (SendPhase.quiet_read hphase s.clock)
  | prepareSend hphase =>
      refine h.goto ?_
      intro t ht
      obtain ⟨hne, hle⟩ := h.known t ht
      have hquiet := h.phase t ht
      rw [hphase] at hquiet
      exact ⟨⟨hne, hle, h.lastByte_le t ht⟩, hquiet⟩
  | @write w hphase _ =>
      have hmoved : { s.moved s.client.layers true true with phase := .exchange }.Untapped :=
        h.moved fun _ => trivial
      rw [h.timing]
      refine { hmoved with sends := ?_ }
      intro r hr
      rcases List.mem_append.1 hr with hr | hr
      · exact h.sends r hr
      · obtain rfl := List.mem_singleton.1 hr
        intro t ht
        have hquiet := h.phase t ht
        rw [hphase] at hquiet
        exact hquiet
  | writeMore hphase =>
      rw [h.timing]
      refine @moved s h s.phase ?_
      intro byte
      rw [hphase]
      trivial
  | finish =>
      refine h.goto ?_
      intro t _
      trivial
  | @rebuild stream _ hstream =>
      refine ⟨h.keeps, h.factory, ?_, ?_, h.lastByte_le, h.known, h.phase, h.sends⟩
      · intro l hl
        rcases List.mem_cons.1 hl with rfl | hl
        · exact h.keeps.2
        · exact h.factory stream hstream l hl
      · simp [SerialClient.rebuild, SniffIo.new, h.keeps.1]
  | rebuildFailed => exact h

end BusState.Untapped

/-! ### Clients with options -/

/-- A client built with options, with or without reconnects. -/
def SerialKind.client (kind : SerialKind) (opts : ClientOptions) (reconnect : Bool) :
    SerialClient :=
  if reconnect then (kind.withOptions opts).withReconnectOn else kind.withOptions opts

section Options

variable (kind : SerialKind) (opts : ClientOptions) (reconnect : Bool) (spacing clock : ℕ)

theorem BusState.Timed.start : (BusState.start (kind.client opts reconnect) spacing clock).Timed
    opts.busTiming.isSome spacing := by
  cases kind <;> cases reconnect <;>
  · refine ⟨rfl, rfl, (Bool.and_false _).symm, ?_, ?_⟩
    · intro w hw
      cases hw
    · intro r hr
      cases hr

variable {opts} in
theorem BusState.Untapped.start (htiming : opts.busTiming.isSome = true)
    (htap : opts.tap = false) :
    (BusState.start (kind.client opts reconnect) spacing clock).Untapped := by
  have hclient : kind.client opts reconnect
      = ⟨[⟨false, false, 0, false⟩, ⟨false, true, 0, false⟩], false, true,
          if reconnect then some [⟨false, true, 0, false⟩] else none⟩ := by
    cases kind <;> cases reconnect <;>
      simp [SerialKind.client, SerialKind.withOptions, rtuWithOptions, asciiWithOptions,
        SerialClient.withOptions, SerialClient.withTimeout, SerialClient.withReconnectOn,
        SniffIo.new, htiming, htap]
  have hnone : ∀ {P : ℕ → Prop} (t : ℕ), (none : Option ℕ) = some t → P t := by
    intro P t ht
    cases ht
  rw [hclient]
  refine ⟨⟨rfl, rfl⟩, ?_, ?_, rfl, hnone, hnone, hnone, ?_⟩
  · intro stream hstream l hl
    cases reconnect with
    | true =>
        cases hstream
        rw [List.mem_singleton.1 hl]
    | false => cases hstream
  · intro l hl
    rcases List.mem_cons.1 hl with rfl | hl
    · rfl
    · rw [List.mem_singleton.1 hl]
  · intro r hr
    cases hr

variable {actions : List BusAction} {s : BusState}
  (hrun : (BusState.start (kind.client opts reconnect) spacing clock).run actions = some s)
include hrun

/-- **A client that was not rebuilt never sleeps**: its own layer has no timing. -/
theorem prepareSend_of_not_rebuilt (hs : s.rebuilds = 0) {s' : BusState}
    (hstep : s.step .prepareSend = some s') :
    ∃ w, s'.phase = .waiting w ∧ w.wake = s.clock := by
  have htimed := BusState.run_induction BusState.Timed.step
    (BusState.Timed.start kind opts reconnect spacing clock) hrun
  cases BusState.step_cases hstep with
  | prepareSend _ =>
      refine ⟨_, rfl, ?_⟩
      simp [BusState.prepareSend, htimed.outer, hs]

/-- What is known of a frame: how the client slept, and that it wrote behind its sleep. -/
theorem slept_of_mem (hopts : opts.busTiming = some spacing) {r : SendRecord} (hr : r ∈ s.sends) :
    r.waited.Slept (decide (r.rebuilds ≠ 0)) spacing ∧ r.waited.wake ≤ r.sentAt := by
  have htimed := BusState.run_induction BusState.Timed.step
    (BusState.Timed.start kind opts reconnect spacing clock) hrun
  simpa [hopts] using htimed.sends r hr

/-- What is known of a frame of a client without a tap. -/
theorem quiet_of_mem (hopts : opts.busTiming = some spacing) (htap : opts.tap = false)
    {r : SendRecord} (hr : r ∈ s.sends) {t : ℕ} (ht : r.lastByte = some t) : r.waited.Quiet t := by
  have htiming : opts.busTiming.isSome = true := by rw [hopts]; rfl
  have huntapped := BusState.run_induction BusState.Untapped.step
    (BusState.Untapped.start kind reconnect spacing clock htiming htap) hrun
  exact huntapped.sends r hr t ht

/-- **Without a tap, the drain keeps a spacing of what it waited for**, a millisecond when there was
nothing to drain, whether the client was rebuilt or not. -/
theorem spaced_of_quiet (hopts : opts.busTiming = some spacing) (htap : opts.tap = false) :
    ∀ r ∈ s.sends, r.Spaced r.waited.quiet := by
  intro r hr t ht
  obtain ⟨hslept, hwake⟩ := slept_of_mem kind opts reconnect spacing clock hrun hopts hr
  have hquiet := quiet_of_mem kind opts reconnect spacing clock hrun hopts htap hr ht
  exact (hquiet.quiet.trans hslept.lookedAt_le).trans hwake

end Options

/-- **A frame is spaced when the client was ready for it**: when the last byte was over long enough,
or the client had been rebuilt and knew of that byte, as it always does without a tap.  A frame that
is written as soon as the client may write it is spaced only then. -/
theorem spacing_enforced (kind : SerialKind) (opts : ClientOptions) (reconnect : Bool)
    (spacing clock : ℕ) (actions : List BusAction) (s : BusState)
    (hopts : opts.busTiming = some spacing)
    (hrun : (BusState.start (kind.client opts reconnect) spacing clock).run actions = some s) :
    ∀ r ∈ s.sends, (r.Ready opts.tap spacing → r.Spaced spacing) ∧
      (r.sentAt = r.waited.wake → r.Spaced spacing → r.Ready opts.tap spacing) := by
  intro r hr
  obtain ⟨hslept, hwake⟩ := slept_of_mem kind opts reconnect spacing clock hrun hopts hr
  refine ⟨?_, ?_⟩
  · intro hready t ht
    refine ((hslept.le_wake_iff t).2 ?_).trans hwake
    refine (hready t ht).imp_right ?_
    rintro ⟨hrebuilt, hknew⟩
    refine ⟨decide_eq_true hrebuilt, ?_⟩
    -- without a tap there is no byte that the timing was not told of
    cases htap : opts.tap with
    | true => exact hknew htap
    | false => exact (quiet_of_mem kind opts reconnect spacing clock hrun hopts htap hr ht).knew
  · intro hat hspaced t ht
    have hle := hspaced t ht
    rw [hat] at hle
    refine ((hslept.le_wake_iff t).1 hle).imp_right ?_
    rintro ⟨hrebuilt, hknew⟩
    refine ⟨of_decide_eq_true hrebuilt, ?_⟩
    intro _
    exact hknew

/-- The actions of a call, a drain that waits for a millisecond and a frame after `sleep`, before
others. -/
def BusAction.call (sleep : ℕ) (rest : List BusAction) : List BusAction :=
  .drain :: .advance 1000 :: .drain :: .prepareSend :: .advance sleep :: .write :: rest

/-- A client that sends a frame, is answered and rebuilt, and sleeps before it sends again. -/
theorem spacing_enforced_rebuilt :
    SendRecord.Spaced ⟨51004, some 1004, 1, ⟨1000, 2004, 1004, 51004⟩⟩ 50000 := by
  have hsends : ((BusState.start (SerialKind.rtu.client ⟨false, some 50000⟩ true) 50000 0).run
      (BusAction.call 0 (.advance 4 :: .read false :: .finish :: .rebuild true ::
        BusAction.call 49000 []))).map BusState.sends
      = some [⟨1000, none, 0, ⟨1000, 1000, 0, 1000⟩⟩,
          ⟨51004, some 1004, 1, ⟨1000, 2004, 1004, 51004⟩⟩] := by decide +kernel
  obtain ⟨s, hrun, hs⟩ := Option.map_eq_some_iff.1 hsends
  refine (spacing_enforced .rtu ⟨false, some 50000⟩ true 50000 0 _ s rfl hrun _ ?_).1 ?_
  · rw [hs]
    exact .tail _ (.head _)
  · intro t _
    exact .inr ⟨by decide, fun h => by cases h⟩

/-- A client of either kind that sends a frame, is answered after ten microseconds, and is called
again at once, with a spacing of fifty milliseconds: it waits for the millisecond of the drain. -/
theorem spacing_ignored :
    (∃ s r, (BusState.start (SerialKind.rtu.client ⟨false, some 50000⟩ true) 50000 0).run
          (BusAction.call 0 (.advance 10 :: .read false :: .finish :: BusAction.call 0 []))
            = some s ∧
        s.sends[1]? = some r ∧ r.lastByte = some 1010 ∧ r.sentAt = 2010 ∧ ¬ r.Spaced 50000) ∧
      ∃ s r, (BusState.start (SerialKind.ascii.client ⟨false, some 50000⟩ true) 50000 0).run
          (BusAction.call 0 (.advance 10 :: .read false :: .finish :: BusAction.call 0 []))
            = some s ∧
        s.sends[1]? = some r ∧ r.lastByte = some 1010 ∧ r.sentAt = 2010 ∧ ¬ r.Spaced 50000 := by
  have hsends : ∀ kind : SerialKind,
      ((BusState.start (kind.client ⟨false, some 50000⟩ true) 50000 0).run
        (BusAction.call 0 (.advance 10 :: .read false :: .finish :: BusAction.call 0 []))).map
          BusState.sends
        = some [⟨1000, none, 0, ⟨1000, 1000, 0, 1000⟩⟩,
            ⟨2010, some 1010, 0, ⟨1000, 2010, 1010, 2010⟩⟩] := by
    intro kind
    cases kind <;> decide +kernel
  have hkind : ∀ kind : SerialKind, ∃ s r,
      (BusState.start (kind.client ⟨false, some 50000⟩ true) 50000 0).run
          (BusAction.call 0 (.advance 10 :: .read false :: .finish :: BusAction.call 0 []))
            = some s ∧
        s.sends[1]? = some r ∧ r.lastByte = some 1010 ∧ r.sentAt = 2010 ∧ ¬ r.Spaced 50000 := by
    intro kind
    obtain ⟨s, hrun, hs⟩ := Option.map_eq_some_iff.1 (hsends kind)
    refine ⟨s, _, hrun, by rw [hs]; rfl, rfl, rfl, ?_⟩
    intro h
    exact absurd (h 1010 rfl) (by decide)
  exact ⟨hkind .rtu, hkind .ascii⟩

end OmsModbus
