/-
**The recorder behind a tap.**

A tap is told of every write, of every read and of every error of the transport it is clipped onto.
`BusCapture` counts these calls and keeps a record of each, all of them, the youngest ones, or none.
The library calls the tap from the capturing layer only, so the calls of a run are the effects of the
layer, as far as they are meant for the tap.

Main definitions:

* `OmsModbus.Capture.TapCall` — a call of a tap;
* `OmsModbus.Capture.tapCalls` — the calls among the effects of a run;
* `OmsModbus.Capture.BusCapture` — the recorder, with `BusCapture.onWrite`, `BusCapture.onRead` and
  `BusCapture.onError`.

Main results:

* `OmsModbus.Capture.readCalls_tapCalls`, `OmsModbus.Capture.writeCalls_tapCalls`,
  `OmsModbus.Capture.errorCalls_tapCalls` — what a layer tells its tap, and what it never tells it;
* `OmsModbus.Capture.BusCapture.hearAll_counters` — **the counters count the calls**.
-/

import OmsModbus.SniffIo

set_option relaxedAutoImplicit false
set_option autoImplicit false

namespace OmsModbus.Capture

/-! ### The calls of a tap -/

/-- A call of a tap. -/
inductive TapCall
  | onWrite (bs : Bytes)
  | onRead (bs : Bytes)
  | onError (bs : Bytes) (error : String)
  deriving DecidableEq, Repr

/-- The call that an effect is, if it is one.  No effect of a layer is a call of `onError`. -/
def Effect.tapCall : Effect → Option TapCall
  | .onRead bs => some (.onRead bs)
  | .onWrite bs => some (.onWrite bs)
  | .touch => none

/-- The calls of the tap in a run. -/
def tapCalls (effects : List Effect) : List TapCall := effects.filterMap Effect.tapCall

/-- The bytes of the calls of `onRead`. -/
def readCalls (calls : List TapCall) : List Bytes :=
  calls.filterMap fun
    | .onRead bs => some bs
    | _ => none

/-- The bytes of the calls of `onWrite`. -/
def writeCalls (calls : List TapCall) : List Bytes :=
  calls.filterMap fun
    | .onWrite bs => some bs
    | _ => none

/-- The calls of `onError`. -/
def errorCalls (calls : List TapCall) : List (Bytes × String) :=
  calls.filterMap fun
    | .onError bs error => some (bs, error)
    | _ => none

theorem readCalls_tapCalls (effects : List Effect) :
    readCalls (tapCalls effects) = onReads effects := by
  induction effects with
  | nil => rfl
  | cons effect effects ih =>
      cases effect with
      | onRead bs => exact congrArg (bs :: ·) ih
      | onWrite bs => exact ih
      | touch => exact ih

theorem writeCalls_tapCalls (effects : List Effect) :
    writeCalls (tapCalls effects) = onWrites effects := by
  induction effects with
  | nil => rfl
  | cons effect effects ih =>
      cases effect with
      | onRead bs => exact ih
      | onWrite bs => exact congrArg (bs :: ·) ih
      | touch => exact ih

/-- **The tap is never told of an error.** -/
theorem errorCalls_tapCalls (effects : List Effect) : errorCalls (tapCalls effects) = [] := by
  induction effects with
  | nil => rfl
  | cons effect effects ih => cases effect <;> exact ih

/-! ### The recorder -/

/-- What was recorded of a call. -/
inductive PacketData
  | rawTx (bs : Bytes)
  | rawRx (bs : Bytes)
  | rawError (bs : Bytes) (error : String)
  deriving DecidableEq, Repr

structure PacketRecord where
  timestampUs : UInt64
  data : PacketData
  deriving DecidableEq, Repr

/-- Where the records go. -/
inductive Store
  | statsOnly
  | unbounded (v : List PacketRecord)
  | bounded (buf : List PacketRecord) (cap : ℕ)
  deriving DecidableEq, Repr

/-- The recorder.  Its counters are unbounded here. -/
structure BusCapture where
  requests : ℕ
  responses : ℕ
  errors : ℕ
  dropped : ℕ
  store : Store
  deriving DecidableEq, Repr

namespace BusCapture

def statsOnly : BusCapture := ⟨0, 0, 0, 0, .statsOnly⟩

def unbounded : BusCapture := ⟨0, 0, 0, 0, .unbounded []⟩

def bounded (capacity : ℕ) : BusCapture := ⟨0, 0, 0, 0, .bounded [] (max capacity 1)⟩

def record (c : BusCapture) (ts : UInt64) (data : PacketData) : BusCapture :=
  let record : PacketRecord := ⟨ts, data⟩
  match c.store with
  | .statsOnly => c
  | .unbounded v => { c with store := .unbounded (v ++ [record]) }
  | .bounded buf cap =>
      if buf.length < cap then { c with store := .bounded (buf ++ [record]) cap }
      else { c with store := .bounded (buf.tail ++ [record]) cap, dropped := c.dropped + 1 }

def onWrite (c : BusCapture) (bs : Bytes) (ts : UInt64) : BusCapture :=
  { c with requests := c.requests + 1 }.record ts (.rawTx bs)

def onRead (c : BusCapture) (bs : Bytes) (ts : UInt64) : BusCapture :=
  { c with responses := c.responses + 1 }.record ts (.rawRx bs)

def onError (c : BusCapture) (bs : Bytes) (error : String) (ts : UInt64) : BusCapture :=
  { c with errors := c.errors + 1 }.record ts (.rawError bs error)

/-- The records, oldest first. -/
def snapshot (c : BusCapture) : List PacketRecord :=
  match c.store with
  | .statsOnly => []
  | .unbounded v => v
  | .bounded buf _ => buf

/-- Handing the records out.  The counters stay. -/
def drain (c : BusCapture) : List PacketRecord × BusCapture :=
  match c.store with
  | .statsOnly => ([], c)
  | .unbounded v => (v, { c with store := .unbounded [] })
  | .bounded buf cap => (buf, { c with store := .bounded [] cap })

/-- A call at some time. -/
def hear (c : BusCapture) : UInt64 × TapCall → BusCapture
  | (ts, .onWrite bs) => c.onWrite bs ts
  | (ts, .onRead bs) => c.onRead bs ts
  | (ts, .onError bs error) => c.onError bs error ts

/-- A sequence of calls. -/
def hearAll (c : BusCapture) (calls : List (UInt64 × TapCall)) : BusCapture := calls.foldl hear c

/-- Recording leaves the three counters alone. -/
theorem record_counters (c : BusCapture) (ts : UInt64) (data : PacketData) :
    (c.record ts data).requests = c.requests ∧ (c.record ts data).responses = c.responses ∧
      (c.record ts data).errors = c.errors := by
  unfold record
  cases c.store with
  | statsOnly => exact ⟨rfl, rfl, rfl⟩
  | unbounded v => exact ⟨rfl, rfl, rfl⟩
  | bounded buf cap =>
      simp only
      split <;> exact ⟨rfl, rfl, rfl⟩

/-- **The counters count the calls**, whenever they come. -/
theorem hearAll_counters (c : BusCapture) (calls : List (UInt64 × TapCall)) :
    (c.hearAll calls).requests = c.requests + (writeCalls (calls.map Prod.snd)).length ∧
      (c.hearAll calls).responses = c.responses + (readCalls (calls.map Prod.snd)).length ∧
      (c.hearAll calls).errors = c.errors + (errorCalls (calls.map Prod.snd)).length := by
  unfold hearAll
  induction calls generalizing c with
  | nil => exact ⟨rfl, rfl, rfl⟩
  | cons call calls ih =>
      obtain ⟨ts, call⟩ := call
      obtain ⟨hrequests, hresponses, herrors⟩ := ih (c.hear (ts, call))
      rw [List.foldl_cons, hrequests, hresponses, herrors]
      cases call with
      | onWrite bs =>
          obtain ⟨hreq, hrsp, herr⟩ :=
            { c with requests := c.requests + 1 }.record_counters ts (.rawTx bs)
          rw [hear, onWrite, hreq, hrsp, herr]
          simp only [List.map_cons, writeCalls, readCalls, errorCalls, List.filterMap_cons,
            List.length_cons, and_self, and_true]
          omega
      | onRead bs =>
          obtain ⟨hreq, hrsp, herr⟩ :=
            { c with responses := c.responses + 1 }.record_counters ts (.rawRx bs)
          rw [hear, onRead, hreq, hrsp, herr]
          simp only [List.map_cons, writeCalls, readCalls, errorCalls, List.filterMap_cons,
            List.length_cons, true_and, and_true]
          omega
      | onError bs error =>
          obtain ⟨hreq, hrsp, herr⟩ :=
            { c with errors := c.errors + 1 }.record_counters ts (.rawError bs error)
          rw [hear, onError, hreq, hrsp, herr]
          simp only [List.map_cons, writeCalls, readCalls, errorCalls, List.filterMap_cons,
            List.length_cons, true_and]
          omega

end BusCapture

end OmsModbus.Capture
