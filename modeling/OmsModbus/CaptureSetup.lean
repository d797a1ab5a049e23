/-
**The capture set-up of a client, and its rebuilds.**

A client that captures keeps its tap and its timing, so that it can wrap a new transport when the
old one is lost.  The stream it starts with is built by one function, and the stream it goes on with
by another, once for each kind of client.  A serial client puts a layer of its own around the stream
that was built from the options; that layer has no tap at first, but it gets one when the client is
rebuilt, and then every byte is reported by two layers.  And a rebuilt layer has the default
capacities, whatever the options said.

Main definitions:

* `OmsModbus.Capture.ClientOptions` — the options;
* `OmsModbus.Capture.SerialClient`, `OmsModbus.Capture.TcpClient` — the clients, and how they are
  built and rebuilt;
* `OmsModbus.Capture.Session` — a client in use, with its rebuilds;
* `OmsModbus.Capture.Captured` — every byte is reported once, and the channels have the configured
  capacities.

Main results:

* `OmsModbus.Capture.SniffIo.replaceInner_eq` — a new transport under a layer keeps its set-up;
* `OmsModbus.Capture.IoRun.Balances.captured` — what one capturing layer reports is captured once;
* `OmsModbus.Capture.keepsCapture_iff` — **a rebuild keeps the capture set-up** of a TCP client with
  the default capacities only.
-/

import OmsModbus.BusTiming
import OmsModbus.SniffBooks

set_option relaxedAutoImplicit false
set_option autoImplicit false

namespace OmsModbus.Capture

/-! ### Building clients -/

/-- What of the options of a client bears on its capture. -/
structure ClientOptions extends OmsModbus.ClientOptions where
  reconnect : Option ReconnectConfig
  dataChannelCapacity : Option ℕ
  tapChannelCapacity : Option ℕ

def ClientOptions.dataCapacity (opts : ClientOptions) : ℕ :=
  opts.dataChannelCapacity.getD DEFAULT_DATA_CHANNEL_CAPACITY

def ClientOptions.tapCapacity (opts : ClientOptions) : ℕ :=
  opts.tapChannelCapacity.getD DEFAULT_TAP_CHANNEL_CAPACITY

section Clients

variable {ρ τ : Type}

/-- The layer that the options ask for, which all three `with_options` build in the same way. -/
def SniffIo.withOptions (transport : ρ) (opts : ClientOptions) : SniffIo ρ :=
  let stream := SniffIo.new transport opts.tap opts.busTiming.isSome
  let stream :=
    match opts.dataChannelCapacity with
    | some cap => stream.withChannelCapacity cap
    | none => stream
  match opts.tapChannelCapacity with
  | some cap => stream.withTapChannelCapacity cap
  | none => stream

/-- An RTU or ASCII client over streams of type `τ`: its stream, how a new stream is made from what
the factory of the user opens, and the timing and the tap it keeps for a rebuild. -/
structure SerialClient (ρ τ : Type) where
  stream : SniffIo τ
  reconnect : Option (ReconnectConfig × (Except IoError ρ → Except IoError τ))
  busTiming : Bool
  tap : Bool

namespace SerialClient

def withTimeout (transport : τ) : SerialClient ρ τ where
  stream := .new transport false false
  reconnect := none
  busTiming := false
  tap := false

def withOptions (transport : ρ) (opts : ClientOptions) : SerialClient ρ (SniffIo ρ) :=
  let raw := withTimeout (SniffIo.withOptions transport opts)
  { raw with busTiming := opts.busTiming.isSome, tap := opts.tap }

def withReconnectOn (c : SerialClient ρ (SniffIo ρ)) (cfg : ReconnectConfig) :
    SerialClient ρ (SniffIo ρ) :=
  { c with
    reconnect := some (cfg, fun opened => opened.map fun raw => .new raw c.tap c.busTiming) }

/-- The rebuild of a call, when the factory opens `opened`. -/
def rebuild (c : SerialClient ρ τ) (opened : Except IoError ρ) : Bool × SerialClient ρ τ :=
  match c.reconnect with
  | some (_, factory) =>
    match factory opened with
    | .ok new => (true, { c with stream := .new new c.tap c.busTiming })
    | .error _ => (false, c)
  | none => (false, c)

end SerialClient

/-- `rtu::with_options`. -/
def rtuWithOptions (transport : ρ) (opts : ClientOptions) : SerialClient ρ (SniffIo ρ) :=
  SerialClient.withOptions transport opts

/-- `ascii::with_options`. -/
def asciiWithOptions (transport : ρ) (opts : ClientOptions) : SerialClient ρ (SniffIo ρ) :=
  SerialClient.withOptions transport opts

/-- A TCP client. -/
structure TcpClient (ρ : Type) where
  stream : SniffIo ρ
  reconnect : Option ReconnectConfig
  busTiming : Bool
  tap : Bool

namespace TcpClient

/-- `tcp::with_options`, once it has connected. -/
def withOptions (transport : ρ) (opts : ClientOptions) : TcpClient ρ where
  stream := SniffIo.withOptions transport opts
  reconnect := opts.reconnect
  busTiming := opts.busTiming.isSome
  tap := opts.tap

def withReconnect (c : TcpClient ρ) (cfg : ReconnectConfig) : TcpClient ρ :=
  { c with reconnect := some cfg }

/-- The rebuild of a call, when connecting again gives `opened`. -/
def rebuild (c : TcpClient ρ) (opened : Except IoError ρ) : Bool × TcpClient ρ :=
  match opened with
  | .ok stream => (true, { c with stream := .new stream c.tap c.busTiming })
  | .error _ => (false, c)

end TcpClient

end Clients

/-! ### Clients in use -/

/-- A client whose streams are stacks on a raw transport: its stream, and its rebuild. -/
class Client (γ : Type) (τ : outParam Type) where
  stream : γ → SniffIo τ
  withStream : γ → SniffIo τ → γ
  rebuild : γ → Except IoError RawTransport → Bool × γ

instance : Client (SerialClient RawTransport (SniffIo RawTransport)) (SniffIo RawTransport) where
  stream := SerialClient.stream
  withStream c stream := { c with stream := stream }
  rebuild := SerialClient.rebuild

instance : Client (TcpClient RawTransport) RawTransport where
  stream := TcpClient.stream
  withStream c stream := { c with stream := stream }
  rebuild := TcpClient.rebuild

/-- What happens to a client: something happens to its stream, or a call rebuilds the stream, with a
new raw transport if one can be opened. -/
inductive ClientOp (β : Type)
  | io (op : IoOp β)
  | rebuild (opened : Except IoError Unit)

/-- A client in use, with what its stream did and what was read from it since the last rebuild, and
the number of rebuilds. -/
structure Session (γ : Type) where
  client : γ
  effects : List Effect
  seen : List ReadEvent
  rebuilds : ℕ

namespace Session

variable {γ τ : Type} [Client γ τ]

/-- A client that was just built. -/
def start (client : γ) : Session γ := ⟨client, [], [], 0⟩

/-- The stream in use. -/
def io (s : Session γ) : IoRun (SniffIo τ) := ⟨Client.stream s.client, s.effects, s.seen⟩

variable [AsyncIo τ]

/-- The tasks of the old stream end with the rebuild. -/
def step (s : Session γ) : ClientOp (SniffIo.Task (AsyncIo.Task τ)) → Session γ
  | .io op =>
      let r := s.io.step op
      { s with client := Client.withStream s.client r.io, effects := r.effects, seen := r.seen }
  | .rebuild opened =>
    match Client.rebuild s.client (opened.map fun _ => RawTransport.new) with
    | (true, client) => ⟨client, [], [], s.rebuilds + 1⟩
    | (false, client) => { s with client := client }

def run (s : Session γ) (ops : List (ClientOp (SniffIo.Task (AsyncIo.Task τ)))) : Session γ :=
  ops.foldl step s

theorem run_append (s : Session γ) (ops ops' : List (ClientOp (SniffIo.Task (AsyncIo.Task τ)))) :
    s.run (ops ++ ops') = (s.run ops).run ops' := List.foldl_append

end Session

/-! ### What it means to capture -/

/-- A stack: its raw transport, the data and the tap channels of its capturing layers, outermost
first, and what the bus timing sees of its layers. -/
class Layered (τ : Type) where
  raw : τ → RawTransport
  channels : τ → List (SniffChannel × SniffChannel)
  layers : τ → List SniffLayer

instance : Layered RawTransport where
  raw := id
  channels _ := []
  layers _ := []

instance {τ : Type} [Layered τ] : Layered (SniffIo τ) where
  raw io :=
    match io.state with
    | .passthrough inner => Layered.raw inner
    | .sniffing s => Layered.raw s.inner
  channels io :=
    match io.state with
    | .passthrough inner => Layered.channels inner
    | .sniffing s => (s.dataChannel, s.tapChannel) :: Layered.channels s.inner
  layers io :=
    match io.state with
    | .passthrough inner => ⟨io.tap, io.timing, 0, false⟩ :: Layered.layers inner
    | .sniffing s =>
        ⟨io.tap, io.timing, s.dataChannel.queue.length, s.pending.isSome⟩ :: Layered.layers s.inner

section Captured

variable {τ : Type} [Layered τ]

/-- The bytes that wait in the tap channels. -/
def waiting (io : τ) : Bytes :=
  (Layered.channels io).flatMap fun channels => channels.2.queue.flatten

/-- The number of bytes that the tap channels have dropped. -/
def dropped (io : τ) : ℕ := ((Layered.channels io).map fun channels => channels.2.droppedBytes).sum

/-- **The capture is set up as it was configured**: every byte written to the raw transport is
reported once; every byte read from it is reported once, or waits to be, unless a tap channel
dropped it; and the channels have the configured capacities. -/
structure Captured (dataCapacity tapCapacity : ℕ) (r : IoRun τ) : Prop where
  written : (onWrites r.effects).flatten = (Layered.raw r.io).written
  read : dropped r.io = 0 →
    (onReads r.effects).flatten ++ waiting r.io = (Layered.raw r.io).read
  accounted : (onReads r.effects).flatten.length + (waiting r.io).length + dropped r.io
    = (Layered.raw r.io).read.length
  tapped : Layered.channels r.io ≠ []
  capacities : ∀ channels ∈ Layered.channels r.io,
    channels.1.capacity = dataCapacity ∧ channels.2.capacity = tapCapacity

end Captured

/-- What one capturing layer reports is captured. -/
theorem IoRun.Balances.captured {dataCapacity tapCapacity : ℕ}
    {r : IoRun (SniffIo RawTransport)} (h : r.Balances dataCapacity tapCapacity) :
    Captured dataCapacity tapCapacity r := by
  obtain ⟨-, s, sent, received, hstate, hbooks⟩ := h
  have hchannels : Layered.channels r.io = [(s.dataChannel, s.tapChannel)] := by
    simp only [Layered.channels, hstate]
  have hraw : Layered.raw r.io = s.inner := by
    simp only [Layered.raw, hstate, id]
  have hwaiting : waiting r.io = s.tapChannel.queue.flatten := by
    rw [waiting, hchannels]
    simp
  have hdropped : dropped r.io = s.tapChannel.droppedBytes := by
    rw [dropped, hchannels]
    simp
  refine ⟨?_, ?_, ?_, ?_, ?_⟩
  · rw [hraw, hbooks.written]
  · intro hzero
    rw [hdropped] at hzero
    rw [hwaiting, hraw, ← hbooks.read]
    exact hbooks.tap.flatten_eq hzero
  · rw [hwaiting, hdropped, hraw, ← hbooks.read]
    exact hbooks.tap.length_flatten
  · rw [hchannels]
    exact List.cons_ne_nil _ _
  · intro channels hmem
    rw [hchannels, List.mem_singleton] at hmem
    rw [hmem]
    exact ⟨hbooks.dataCap, hbooks.tapCap⟩

/-! ### The stream a client starts with -/

theorem SniffIo.new_tap {ρ : Type} (transport : ρ) (timing : Bool) :
    SniffIo.new transport true timing = startSniffing transport timing DEFAULT_BUF_SIZE
      DEFAULT_DATA_CHANNEL_CAPACITY DEFAULT_TAP_CHANNEL_CAPACITY := rfl

/-- The layer that the options ask for, when they have a tap. -/
theorem SniffIo.withOptions_eq {ρ : Type} (transport : ρ) {opts : ClientOptions}
    (htap : opts.tap = true) :
    SniffIo.withOptions transport opts = startSniffing transport opts.busTiming.isSome
      DEFAULT_BUF_SIZE opts.dataCapacity opts.tapCapacity := by
  rw [withOptions, ClientOptions.dataCapacity, ClientOptions.tapCapacity, htap, new_tap]
  cases opts.dataChannelCapacity <;> cases opts.tapChannelCapacity <;> rfl

/-- A new transport under a layer with a tap keeps the set-up of the layer. -/
theorem SniffIo.replaceInner_eq {ρ : Type} (transport new : ρ) {opts : ClientOptions}
    (htap : opts.tap = true) :
    (SniffIo.withOptions transport opts).replaceInner new = SniffIo.withOptions new opts := by
  rw [withOptions_eq transport htap, withOptions_eq new htap]
  rfl

/-- The stream of a TCP client captures. -/
theorem SniffIo.withOptions_balances {opts : ClientOptions} (htap : opts.tap = true) :
    (IoRun.start (SniffIo.withOptions .new opts)).Balances opts.dataCapacity opts.tapCapacity := by
  rw [SniffIo.withOptions_eq _ htap]
  exact IoRun.balances_start _ _ _ _

/-- The stream of a serial client captures: its outer layer is invisible. -/
theorem IoRun.Balances.captured_through {dataCapacity tapCapacity : ℕ}
    {r : IoRun (SniffIo RawTransport)} (h : r.Balances dataCapacity tapCapacity) :
    Captured dataCapacity tapCapacity r.through := by
  obtain ⟨hwritten, hread, haccounted, htapped, hcapacities⟩ := h.captured
  exact ⟨hwritten, hread, haccounted, htapped, hcapacities⟩

/-! ### Sessions -/

/-- A rebuild that fails leaves a serial client as it was. -/
theorem SerialClient.rebuild_false {ρ τ : Type} {c c' : SerialClient ρ τ}
    {opened : Except IoError ρ} (h : c.rebuild opened = (false, c')) : c' = c := by
  rw [rebuild] at h
  split at h
  · split at h
    · cases h
    · cases h
      rfl
  · cases h
    rfl

/-- A serial client that was not rebuilt: its stream is a capturing layer in an invisible one. -/
def Session.Unrebuilt (dataCapacity tapCapacity : ℕ)
    (s : Session (SerialClient RawTransport (SniffIo RawTransport))) : Prop :=
  s.rebuilds = 0 → ∃ r : IoRun (SniffIo RawTransport),
    s.io = r.through ∧ r.Balances dataCapacity tapCapacity

theorem Session.Unrebuilt.step {dataCapacity tapCapacity : ℕ}
    {s : Session (SerialClient RawTransport (SniffIo RawTransport))}
    (h : s.Unrebuilt dataCapacity tapCapacity)
    (op : ClientOp (SniffIo.Task (SniffIo.Task RawEvent))) :
    (s.step op).Unrebuilt dataCapacity tapCapacity := by
  intro hzero
  cases op with
  | io op =>
      obtain ⟨r, hio, hbalances⟩ := h hzero
      -- the outer layer hands on what is done to it
      refine ⟨r.run op.below, ?_, ioRun_balances hbalances _⟩
      change s.io.step op = _
      rw [hio]
      exact IoRun.step_through r op
  | rebuild opened =>
      rw [Session.step] at hzero ⊢
      cases hrebuild : Client.rebuild s.client (opened.map fun _ => RawTransport.new) with
      | mk done client =>
          rw [hrebuild] at hzero
          cases done with
          | true => cases hzero
          | false =>
              have hclient : client = s.client := SerialClient.rebuild_false hrebuild
              subst hclient
              exact h hzero

theorem Session.Unrebuilt.run {dataCapacity tapCapacity : ℕ}
    {s : Session (SerialClient RawTransport (SniffIo RawTransport))}
    (h : s.Unrebuilt dataCapacity tapCapacity)
    (ops : List (ClientOp (SniffIo.Task (SniffIo.Task RawEvent)))) :
    (s.run ops).Unrebuilt dataCapacity tapCapacity := by
  induction ops generalizing s with
  | nil => exact h
  | cons op ops ih => exact ih (h.step op)

/-- A TCP client with a tap, whose stream is a capturing layer; a rebuilt one has the default
capacities. -/
structure Session.Captures (dataCapacity tapCapacity : ℕ) (s : Session (TcpClient RawTransport)) :
    Prop where
  tap : s.client.tap = true
  first : s.rebuilds = 0 → s.io.Balances dataCapacity tapCapacity
  rebuilt : s.rebuilds ≠ 0 →
    s.io.Balances DEFAULT_DATA_CHANNEL_CAPACITY DEFAULT_TAP_CHANNEL_CAPACITY

theorem Session.Captures.step {dataCapacity tapCapacity : ℕ} {s : Session (TcpClient RawTransport)}
    (h : s.Captures dataCapacity tapCapacity) (op : ClientOp (SniffIo.Task RawEvent)) :
    (s.step op).Captures dataCapacity tapCapacity := by
  cases op with
  | io op => exact ⟨h.tap, fun hzero => (h.first hzero).step op, fun hne => (h.rebuilt hne).step op⟩
  | rebuild opened =>
      cases opened with
      | error e => exact ⟨h.tap, h.first, h.rebuilt⟩
      | ok u =>
          refine ⟨h.tap, fun hzero => absurd hzero (Nat.succ_ne_zero _), fun _ => ?_⟩
          change (IoRun.start (SniffIo.new .new s.client.tap s.client.busTiming)).Balances _ _
          rw [h.tap, SniffIo.new_tap]
          exact IoRun.balances_start _ _ _ _

theorem Session.Captures.run {dataCapacity tapCapacity : ℕ} {s : Session (TcpClient RawTransport)}
    (h : s.Captures dataCapacity tapCapacity) (ops : List (ClientOp (SniffIo.Task RawEvent))) :
    (s.run ops).Captures dataCapacity tapCapacity := by
  induction ops generalizing s with
  | nil => exact h
  | cons op ops ih => exact ih (h.step op)

/-! ### Rebuilt clients -/

/-- A serial client that was rebuilt has two capturing layers. -/
theorem SerialClient.run_rebuild {c : SerialClient RawTransport (SniffIo RawTransport)}
    (cfg : ReconnectConfig) (k : ℕ) :
    (Session.start (c.withReconnectOn cfg)).run (List.replicate (k + 1) (.rebuild (.ok ())))
      = ⟨{ c.withReconnectOn cfg with
          stream := .new (.new .new c.tap c.busTiming) c.tap c.busTiming }, [], [], k + 1⟩ := by
  induction k with
  | zero => rfl
  | succ k ih =>
      rw [List.replicate_succ', Session.run_append, ih]
      rfl

/-- A session without rebuilds is a run of the stream. -/
theorem SerialClient.run_io (s : Session (SerialClient RawTransport (SniffIo RawTransport)))
    (ops : List (IoOp (SniffIo.Task (SniffIo.Task RawEvent)))) :
    (s.run (ops.map .io)).io = s.io.run ops ∧ (s.run (ops.map .io)).rebuilds = s.rebuilds := by
  induction ops generalizing s with
  | nil => exact ⟨rfl, rfl⟩
  | cons op ops ih => exact ih (s.step (.io op))

/-- Two capturing layers report a byte twice. -/
theorem SniffIo.not_captured_twice (timing : Bool) (dataCapacity tapCapacity : ℕ) :
    ¬ ∀ ops, Captured dataCapacity tapCapacity ((IoRun.start (SniffIo.new
      (SniffIo.new RawTransport.new true timing) true timing)).run ops) := by
  intro h
  have hwritten := (h [.task (.inner (.inner (.accept (.ok 1)))), .pollWrite [0]]).written
  revert hwritten
  cases timing with
  | true => decide
  | false => decide

/-- A TCP client that was rebuilt has the default capacities. -/
theorem TcpClient.run_rebuild {c : TcpClient RawTransport} (k : ℕ) :
    (Session.start c).run (List.replicate (k + 1) (.rebuild (.ok ())))
      = ⟨{ c with stream := .new .new c.tap c.busTiming }, [], [], k + 1⟩ := by
  induction k with
  | zero => rfl
  | succ k ih =>
      rw [List.replicate_succ', Session.run_append, ih]
      rfl

/-- A new layer, as the bus timing sees it. -/
theorem layers_new {τ : Type} [Layered τ] (inner : τ) (tap timing : Bool) :
    Layered.layers (SniffIo.new inner tap timing)
      = OmsModbus.SniffIo.new (Layered.layers inner) tap timing := by
  cases tap <;> rfl

theorem layers_withOptions (opts : ClientOptions) :
    Layered.layers (SniffIo.withOptions RawTransport.new opts)
      = OmsModbus.SniffIo.new [] opts.tap opts.busTiming.isSome := by
  rw [SniffIo.withOptions]
  cases opts.tap <;> cases opts.dataChannelCapacity <;> cases opts.tapChannelCapacity <;> rfl

/-- A serial client has the layers that the bus timing assumes, when it is built and after a
rebuild. -/
theorem serial_layers (opts : ClientOptions) (cfg : ReconnectConfig) (k : ℕ) :
    Layered.layers (SerialClient.withOptions RawTransport.new opts).stream
        = (OmsModbus.SerialClient.withOptions opts.toClientOptions).layers ∧
      Layered.layers ((Session.start ((SerialClient.withOptions RawTransport.new
            opts).withReconnectOn cfg)).run
          (List.replicate (k + 1) (.rebuild (.ok ())))).client.stream
        = ((OmsModbus.SerialClient.withOptions opts.toClientOptions).rebuild
            (OmsModbus.SniffIo.new [] opts.tap opts.busTiming.isSome)).layers := by
  rw [SerialClient.run_rebuild]
  refine ⟨?_, ?_⟩
  · rw [SerialClient.withOptions, SerialClient.withTimeout, layers_new, layers_withOptions]
    rfl
  · rw [layers_new, layers_new]
    rfl

/-! ### Which clients keep their set-up -/

inductive ClientKind
  | rtu
  | ascii
  | tcp

section KeepsCapture

variable {γ τ : Type} [Client γ τ] [AsyncIo τ] [Layered τ]

/-- In every session of a client, the capture is set up as configured after `k` rebuilds. -/
def KeepsCapture (client : γ) (opts : ClientOptions) (k : ℕ) : Prop :=
  ∀ ops, ((Session.start client).run ops).rebuilds = k →
    Captured opts.dataCapacity opts.tapCapacity ((Session.start client).run ops).io

end KeepsCapture

/-- The clients that are built with options and can be rebuilt. -/
def ClientKind.KeepsCapture (opts : ClientOptions) (cfg : ReconnectConfig) (k : ℕ) :
    ClientKind → Prop
  | rtu => Capture.KeepsCapture ((rtuWithOptions RawTransport.new opts).withReconnectOn cfg) opts k
  | ascii =>
      Capture.KeepsCapture ((asciiWithOptions RawTransport.new opts).withReconnectOn cfg) opts k
  | tcp => Capture.KeepsCapture ((TcpClient.withOptions RawTransport.new opts).withReconnect cfg)
      opts k

/-- A serial client keeps the capture set-up until it is rebuilt. -/
theorem serial_keepsCapture_iff (opts : ClientOptions) (htap : opts.tap = true)
    (cfg : ReconnectConfig) (k : ℕ) :
    KeepsCapture ((SerialClient.withOptions RawTransport.new opts).withReconnectOn cfg) opts k ↔
      k = 0 := by
  constructor
  · intro h
    cases k with
    | zero => rfl
    | succ k =>
        have hrun := SerialClient.run_rebuild (c := SerialClient.withOptions RawTransport.new opts)
          cfg k
        exfalso
        -- after the rebuilds the two layers would have to capture whatever is done to them
        refine SniffIo.not_captured_twice opts.busTiming.isSome opts.dataCapacity opts.tapCapacity
          fun ops => ?_
        have hcaptured := h (List.replicate (k + 1) (.rebuild (.ok ())) ++ ops.map .io)
        rw [Session.run_append, hrun] at hcaptured
        obtain ⟨hio, hrebuilds⟩ := SerialClient.run_io _ ops
        have hkeeps := hcaptured hrebuilds
        rw [hio] at hkeeps
        simpa only [Session.io, Client.stream, SerialClient.withOptions, htap, IoRun.start]
          using hkeeps
  · rintro rfl ops hzero
    have hstart : (Session.start ((SerialClient.withOptions RawTransport.new opts).withReconnectOn
        cfg)).Unrebuilt opts.dataCapacity opts.tapCapacity :=
      fun _ => ⟨_, rfl, SniffIo.withOptions_balances htap⟩
    obtain ⟨r, hio, hbalances⟩ := hstart.run ops hzero
    rw [hio]
    exact hbalances.captured_through

/-- A TCP client keeps the capture set-up until it is rebuilt, and afterwards if it was the default
one. -/
theorem tcp_keepsCapture_iff (opts : ClientOptions) (htap : opts.tap = true)
    (cfg : ReconnectConfig) (k : ℕ) :
    KeepsCapture ((TcpClient.withOptions RawTransport.new opts).withReconnect cfg) opts k ↔
      k = 0 ∨ opts.dataCapacity = DEFAULT_DATA_CHANNEL_CAPACITY ∧
        opts.tapCapacity = DEFAULT_TAP_CHANNEL_CAPACITY := by
  constructor
  · intro h
    cases k with
    | zero => exact .inl rfl
    | succ k =>
        right
        have hrun := TcpClient.run_rebuild
          (c := (TcpClient.withOptions RawTransport.new opts).withReconnect cfg) k
        have hcaptured := h (List.replicate (k + 1) (.rebuild (.ok ())))
        rw [hrun] at hcaptured
        have hcapacities := (hcaptured rfl).capacities
        simp only [Session.io, Client.stream, TcpClient.withReconnect, TcpClient.withOptions, htap,
          SniffIo.new_tap] at hcapacities
        obtain ⟨hdata, htapch⟩ := hcapacities _ (List.mem_cons_self ..)
        exact ⟨hdata.symm, htapch.symm⟩
  · intro hk ops hrebuilds
    have hstart : (Session.start ((TcpClient.withOptions RawTransport.new opts).withReconnect
        cfg)).Captures opts.dataCapacity opts.tapCapacity :=
      ⟨htap, fun _ => SniffIo.withOptions_balances htap, fun hne => absurd rfl hne⟩
    have hrun := hstart.run ops
    rcases Nat.eq_zero_or_pos k with rfl | hpos
    · exact (hrun.first hrebuilds).captured
    · obtain ⟨hdata, htapch⟩ := hk.resolve_left (by omega)
      rw [hdata, htapch]
      exact (hrun.rebuilt (by omega)).captured

/-- **A rebuild keeps the capture set-up** of a TCP client with the default capacities only. -/
theorem keepsCapture_iff (kind : ClientKind) (opts : ClientOptions) (cfg : ReconnectConfig) (k : ℕ)
    (htap : opts.tap = true) :
    kind.KeepsCapture opts cfg k ↔
      k = 0 ∨ kind = .tcp ∧ opts.dataCapacity = DEFAULT_DATA_CHANNEL_CAPACITY ∧
        opts.tapCapacity = DEFAULT_TAP_CHANNEL_CAPACITY := by
  cases kind with
  | rtu => exact (serial_keepsCapture_iff opts htap cfg k).trans (by simp)
  | ascii => exact (serial_keepsCapture_iff opts htap cfg k).trans (by simp)
  | tcp => exact (tcp_keepsCapture_iff opts htap cfg k).trans (by simp)

/-- A TCP client with the default capacities, after three rebuilds. -/
theorem keepsCapture_iff_tcp :
    ClientKind.tcp.KeepsCapture ⟨⟨true, none⟩, none, none, none⟩ ⟨0⟩ 3 ↔
      3 = 0 ∨ ClientKind.tcp = .tcp ∧
        (⟨⟨true, none⟩, none, none, none⟩ : ClientOptions).dataCapacity
          = DEFAULT_DATA_CHANNEL_CAPACITY ∧
        (⟨⟨true, none⟩, none, none, none⟩ : ClientOptions).tapCapacity
          = DEFAULT_TAP_CHANNEL_CAPACITY :=
  keepsCapture_iff .tcp ⟨⟨true, none⟩, none, none, none⟩ ⟨0⟩ 3 rfl

/-- An RTU client with a tap is rebuilt once, and one byte is written: the tap gets it twice.  A TCP
client with its own capacities is rebuilt once: the capacities are the default ones. -/
theorem rebuilt_capture_differs :
    (let s := (Session.start ((rtuWithOptions RawTransport.new
        ⟨⟨true, none⟩, none, none, none⟩).withReconnectOn ⟨0⟩)).run
        [.rebuild (.ok ()), .io (.task (.inner (.inner (.accept (.ok 1))))), .io (.pollWrite [7])];
      s.rebuilds = 1 ∧ onWrites s.effects = [[7], [7]] ∧ (Layered.raw s.io.io).written = [7] ∧
        ¬ ClientKind.rtu.KeepsCapture ⟨⟨true, none⟩, none, none, none⟩ ⟨0⟩ 1) ∧
    (let s := (Session.start ((TcpClient.withOptions RawTransport.new
        ⟨⟨true, none⟩, none, some 8192, some 8192⟩).withReconnect ⟨0⟩)).run [.rebuild (.ok ())];
      s.rebuilds = 1 ∧ (Layered.channels s.io.io).map (fun c => (c.1.capacity, c.2.capacity))
          = [(1048576, 262144)] ∧
        ¬ ClientKind.tcp.KeepsCapture ⟨⟨true, none⟩, none, some 8192, some 8192⟩ ⟨0⟩ 1) := by
  have hrtu := serial_keepsCapture_iff ⟨⟨true, none⟩, none, none, none⟩ rfl ⟨0⟩ 1
  have htcp := tcp_keepsCapture_iff ⟨⟨true, none⟩, none, some 8192, some 8192⟩ rfl ⟨0⟩ 1
  refine ⟨⟨rfl, rfl, rfl, ?_⟩, rfl, rfl, ?_⟩
  · intro h
    exact absurd (hrtu.1 h) one_ne_zero
  · intro h
    obtain h | ⟨h, -⟩ := htcp.1 h
    · exact absurd h one_ne_zero
    · exact absurd h (by decide)

end OmsModbus.Capture
