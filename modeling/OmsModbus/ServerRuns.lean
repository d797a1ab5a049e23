/-
**Whole runs of the servers.**

The three servers read from different lines and frame in different ways, but what they do to a
service is the same: they call it with the requests that decode and are not broadcasts, one after
the other.  Two rules follow from that for whole runs of any of them.  What every call keeps, a run
keeps.  And where one service stands for another, the servers behave alike.

Main definitions:

* `OmsModbus.ServerInput` — one of the servers, and what comes in over its line;
* `OmsModbus.Served`, `OmsModbus.ServerInput.serve` — what there is to see of a run;
* `OmsModbus.Service.Simulates` — a service stands for another.

Main results:

* `OmsModbus.serve_induction` — **what every call keeps, a run keeps**;
* `OmsModbus.serve_of_simulates` — **services that stand for each other are served alike**.
-/

import OmsModbus.Ascii
import OmsModbus.Rtu
import OmsModbus.Tcp

set_option relaxedAutoImplicit false
set_option autoImplicit false

namespace OmsModbus

variable {σ σ' τ : Type}

/-! ### Runs -/

/-- One of the servers, with what comes in over its line. -/
inductive ServerInput
  | tcp (cfg : TcpConfig) (reads : List (Except IoError Bytes))
  | rtu (events : List ReadEvent)
  | ascii (events : List ReadEvent)

/-- What there is to see of a run: the calls of the service, the frames that were sent, the bytes
that are left, and where the service is. -/
structure Served (σ : Type) where
  calls : List (UInt8 × Request)
  written : List Bytes
  buf : Bytes
  running : Bool
  store : σ

/-- What there is to see of a server loop. -/
def ServerLoop.served (s : ServerLoop τ σ) : Served σ :=
  ⟨s.requests.filterMap RawRequest.dispatch, s.written, s.buf, s.running, s.store⟩

/-- A server that has just started, over all that comes in. -/
def ServerInput.serve (service : Service σ) (writeOk : ℕ → Bool) (s : σ) : ServerInput → Served σ
  | .tcp cfg reads => (handleTcpConnection service cfg writeOk (.idle s) reads).served
  | .rtu events => (serveRtu service writeOk (.idle s) events).served
  | .ascii events => (serveAscii service writeOk (.idle s) events).served

/-- The same run, with a service that is looked at through `f`. -/
def Served.map (f : σ' → σ) (s : Served σ') : Served σ :=
  ⟨s.calls, s.written, s.buf, s.running, f s.store⟩

/-! ### What a run keeps -/

section Keeps

variable {P : Protocol τ} {service : Service σ} {writeOk : ℕ → Bool}
  {I : List (UInt8 × Request) → σ → Prop}

/-- The loop is where `I` says. -/
def ServerLoop.Keeps (I : List (UInt8 × Request) → σ → Prop) (s : ServerLoop τ σ) : Prop :=
  I (s.requests.filterMap RawRequest.dispatch) s.store

variable (hcall : ∀ calls s slave q, slave ≠ 0 → I calls s →
  I (calls ++ [(slave, q)]) (service.call slave q s).2)
include hcall

theorem ServerLoop.Keeps.serve {s : ServerLoop τ σ} (h : s.Keeps I) (x : RawRequest τ) :
    (ServerLoop.serve P service writeOk s x).Keeps I := by
  obtain ⟨written, running, hserve, -⟩ := serve_cases P service writeOk s x
  rw [hserve, ServerLoop.Keeps]
  simp only [List.filterMap_append, processServerRequest_of_dispatch]
  cases hx : x.dispatch with
  | none =>
      have hs : I (s.requests.filterMap RawRequest.dispatch) s.store := h
      simpa [hx] using hs
  | some p =>
      obtain ⟨slave, q⟩ := p
      have hslave : slave ≠ 0 := by
        unfold RawRequest.dispatch at hx
        split at hx
        · cases hx
        · next hne =>
          split at hx
          · cases hx
          · cases hx
            exact hne
      simpa [hx] using hcall _ _ slave q hslave h

theorem ServerLoop.Keeps.serveFrames (fuel : ℕ) {s : ServerLoop τ σ} (h : s.Keeps I) :
    (OmsModbus.serveFrames P service writeOk fuel s).Keeps I := by
  induction fuel generalizing s with
  | zero => exact h
  | succ fuel ih =>
      rw [OmsModbus.serveFrames]
      cases P.parse s.buf with
      | none => exact h
      | some r =>
          obtain ⟨x, n⟩ := r
          have hserve : (ServerLoop.serve P service writeOk (s.setBuf (s.buf.drop n)) x).Keeps I :=
            ServerLoop.Keeps.serve hcall (s := s.setBuf (s.buf.drop n)) h x
          simp only
          split
          · exact ih hserve
          · exact hserve

theorem ServerLoop.Keeps.onTcpRead {cfg : TcpConfig} {s : ServerLoop UInt16 σ} (h : s.Keeps I)
    (read : Except IoError Bytes) : (OmsModbus.onTcpRead service cfg writeOk s read).Keeps I := by
  unfold OmsModbus.onTcpRead
  split
  · cases read with
    | error e => exact h
    | ok bs =>
        simp only
        split
        · exact h
        · have hserve : (serveBuffer (tcpProtocol cfg) service writeOk
              (s.setBuf (s.buf ++ bs))).Keeps I :=
            ServerLoop.Keeps.serveFrames hcall _ (s := s.setBuf (s.buf ++ bs)) h
          split
          · exact hserve
          · exact hserve
  · exact h

theorem ServerLoop.Keeps.onSerialEvent {onSilence : Bytes → Bytes} {s : ServerLoop τ σ}
    (h : s.Keeps I) (event : ReadEvent) :
    (OmsModbus.onSerialEvent P service writeOk onSilence s event).Keeps I := by
  unfold OmsModbus.onSerialEvent
  split
  · cases event with
    | error e => exact h
    | data bs =>
        simp only
        split
        · exact h
        · exact ServerLoop.Keeps.serveFrames hcall _ (s := s.setBuf (s.buf ++ bs)) h
    | elapsed | expired =>
        simp only
        split
        · exact h
        · exact h
  · exact h

/-- **What every call keeps, a run keeps**: what holds of no calls and is kept by the call of a
request for a slave holds of the calls of any run and of where they leave the service. -/
theorem serve_induction {s : σ} (hnil : I [] s) (input : ServerInput) :
    I (input.serve service writeOk s).calls (input.serve service writeOk s).store := by
  have hidle : ∀ {τ : Type}, (ServerLoop.idle s : ServerLoop τ σ).Keeps I := hnil
  cases input with
  | tcp cfg reads =>
      refine List.foldlRecOn (motive := ServerLoop.Keeps I) reads _ hidle ?_
      intro l hl read _
      exact hl.onTcpRead hcall read
  | rtu events =>
      refine List.foldlRecOn (motive := ServerLoop.Keeps I) events _ hidle ?_
      intro l hl event _
      exact hl.onSerialEvent hcall event
  | ascii events =>
      refine List.foldlRecOn (motive := ServerLoop.Keeps I) events _ hidle ?_
      intro l hl event _
      exact hl.onSerialEvent hcall event

end Keeps

/-! ### Services that stand for each other -/

/-- `service'` stands for `service`: looked at through `f`, it gives the same answers. -/
def Service.Simulates (service' : Service σ') (service : Service σ) (f : σ' → σ) : Prop :=
  ∀ slave q s, (service.call slave q (f s)).1 = (service'.call slave q s).1 ∧
    (service.call slave q (f s)).2 = f (service'.call slave q s).2

/-- The loop, with its service looked at through `f`. -/
def ServerLoop.map (f : σ' → σ) (s : ServerLoop τ σ') : ServerLoop τ σ :=
  ⟨s.buf, f s.store, s.requests, s.written, s.running⟩

section Simulation

variable {P : Protocol τ} {service : Service σ} {service' : Service σ'} {writeOk : ℕ → Bool}
  {f : σ' → σ}

theorem ServerLoop.map_setBuf (s : ServerLoop τ σ') (b : Bytes) :
    (s.map f).setBuf b = (s.setBuf b).map f := rfl

@[simp] theorem ServerLoop.map_buf (s : ServerLoop τ σ') : (s.map f).buf = s.buf := rfl

@[simp] theorem ServerLoop.map_running (s : ServerLoop τ σ') : (s.map f).running = s.running := rfl

variable (h : service'.Simulates service f)
include h

theorem ServerLoop.serve_map (s : ServerLoop τ σ') (x : RawRequest τ) :
    ServerLoop.serve P service writeOk (s.map f) x
      = (ServerLoop.serve P service' writeOk s x).map f := by
  unfold ServerLoop.serve
  rw [processServerRequest_eq_dispatch, processServerRequest_eq_dispatch]
  cases x.dispatch with
  | none => rfl
  | some p =>
      obtain ⟨slave, q⟩ := p
      obtain ⟨hres, hstore⟩ := h slave q s.store
      simp only [ServerLoop.map] at hres hstore ⊢
      rw [hres, hstore]
      cases encodedAnswer slave q (service'.call slave q s.store).1 with
      | none => rfl
      | some data =>
          by_cases hk : writeOk s.written.length = true <;> simp [hk]

theorem serveFrames_map (fuel : ℕ) (s : ServerLoop τ σ') :
    serveFrames P service writeOk fuel (s.map f)
      = (serveFrames P service' writeOk fuel s).map f := by
  induction fuel generalizing s with
  | zero => rfl
  | succ fuel ih =>
      rw [serveFrames, serveFrames, ServerLoop.map_buf]
      cases P.parse s.buf with
      | none => rfl
      | some r =>
          obtain ⟨x, n⟩ := r
          simp only [ServerLoop.map_setBuf, ServerLoop.serve_map h, ServerLoop.map_running]
          split
          · exact ih _
          · rfl

theorem onTcpRead_map {cfg : TcpConfig} (s : ServerLoop UInt16 σ') (read : Except IoError Bytes) :
    onTcpRead service cfg writeOk (s.map f) read
      = (onTcpRead service' cfg writeOk s read).map f := by
  unfold onTcpRead
  rw [ServerLoop.map_running]
  split
  · cases read with
    | error e => rfl
    | ok bs =>
        by_cases hbs : bs = []
        · simp only [hbs, if_true]
          rfl
        · simp only [if_neg hbs, serveBuffer, ServerLoop.map_setBuf, ServerLoop.map_buf,
            serveFrames_map h, ServerLoop.map_running]
          exact (apply_ite (ServerLoop.map f) _ _ _).symm
  · rfl

theorem onSerialEvent_map {onSilence : Bytes → Bytes} (s : ServerLoop τ σ') (event : ReadEvent) :
    onSerialEvent P service writeOk onSilence (s.map f) event
      = (onSerialEvent P service' writeOk onSilence s event).map f := by
  unfold onSerialEvent
  rw [ServerLoop.map_running]
  split
  · cases event with
    | error e => rfl
    | data bs =>
        by_cases hbs : bs = []
        · simp only [hbs, if_true]
          rfl
        · simp only [if_neg hbs, serveBuffer, ServerLoop.map_setBuf, ServerLoop.map_buf,
            serveFrames_map h]
    | elapsed | expired =>
        simp only [ServerLoop.map_buf, ServerLoop.map_setBuf]
        exact (apply_ite (ServerLoop.map f) _ _ _).symm
  · rfl

/-- **Services that stand for each other are served alike**: over whatever comes in, the same
requests are served, the same frames are sent, and the services end where they stand for each
other. -/
theorem serve_of_simulates (s : σ') (input : ServerInput) :
    input.serve service writeOk (f s) = (input.serve service' writeOk s).map f := by
  have htcp : ∀ cfg reads (l : ServerLoop UInt16 σ'),
      handleTcpConnection service cfg writeOk (l.map f) reads
        = (handleTcpConnection service' cfg writeOk l reads).map f := by
    intro cfg reads l
    unfold handleTcpConnection
    induction reads generalizing l with
    | nil => rfl
    | cons read reads ih => rw [List.foldl_cons, List.foldl_cons, onTcpRead_map h, ih]
  have hserial : ∀ (P : Protocol Unit) onSilence events (l : ServerLoop Unit σ'),
      serveSerial P service writeOk onSilence (l.map f) events
        = (serveSerial P service' writeOk onSilence l events).map f := by
    intro P onSilence events l
    unfold serveSerial
    induction events generalizing l with
    | nil => rfl
    | cons event events ih => rw [List.foldl_cons, List.foldl_cons, onSerialEvent_map h, ih]
  cases input with
  | tcp cfg reads => exact congrArg ServerLoop.served (htcp cfg reads (.idle s))
  | rtu events =>
      exact congrArg ServerLoop.served (hserial rtuProtocol rtuOnSilence events (.idle s))
  | ascii events =>
      exact congrArg ServerLoop.served (hserial asciiProtocol (fun _ => []) events (.idle s))

end Simulation

end OmsModbus
