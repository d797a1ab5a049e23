/-
**Hooks around a service.**

A hook sees every request before the service does, and may answer in its place; it sees every result
after the service, and may change it.  A service with a hook is a service again, so hooks can be put
around each other in any number.  What matters to those who write them is in which order they are
called, what a hook that answers by itself keeps away from the service, and what the client notices
of a hook that only looks on.  All this is about whole runs of a server, over whatever comes in.

Hooks and services work on one state `ω` here, the parts of which they may share or keep to
themselves.

Main definitions:

* `OmsModbus.ServerHook`, `OmsModbus.HookedService` — a hook, and a service with a hook;
* `OmsModbus.hooked` — a service with hooks around it, the outermost first;
* `OmsModbus.loggedStack`, `OmsModbus.passage` — the same with a log, and the log of one request;
* `OmsModbus.passed` — how many hooks a request passes;
* `OmsModbus.ServerHook.Spares`, `OmsModbus.ServerHook.Observes` — a hook that leaves a part of the
  state alone, and one that changes nothing for the client.

Main results:

* `OmsModbus.hooked_run` — **the hooks are called in order on the way in and in reverse on the way
  out**, for each request once;
* `OmsModbus.hooked_guard` — **what one hook answers by itself does not get to the service**;
* `OmsModbus.hooked_observers` — **hooks that look on are not noticed**.
-/

import OmsModbus.ServerRuns
import OmsModbus.SlaveStore

set_option relaxedAutoImplicit false
set_option autoImplicit false

namespace OmsModbus

variable {ω σ : Type}

/-! ### Hooks -/

/-- A hook that intercepts server requests. -/
structure ServerHook (ω : Type) where
  beforeCall : UInt8 → Request → ω → Option Response × ω
  afterCall : UInt8 → Except Exception Response → ω → Except Exception Response × ω

/-- The methods a hook has when it does not define its own. -/
def ServerHook.default : ServerHook ω where
  beforeCall _ _ w := (none, w)
  afterCall _ result w := (result, w)

/-- A service wrapper that applies a hook around another service. -/
structure HookedService (ω : Type) where
  inner : Service ω
  hook : ServerHook ω

/-- The slave id that hooks see: `0xFF` when the request does not come from a server loop. -/
def contextSlave (slaveId : Option UInt8) : UInt8 := slaveId.getD 0xFF

def HookedService.call (h : HookedService ω) (context : Option UInt8) (request : Request) (w : ω) :
    Except Exception Response × ω :=
  let slave := contextSlave context
  -- 1. `before_call` may short-circuit the inner service
  match h.hook.beforeCall slave request w with
  | (some rsp, w) => (.ok rsp, w)
  | (none, w) =>
    -- 2. the inner service
    let (result, w) := h.inner.call slave request w
    -- 3. `after_call` transforms the result or passes it through
    h.hook.afterCall slave result w

/-- The service in a server loop, which sets the slave id. -/
def HookedService.service (h : HookedService ω) : Service ω where
  call slave request w := h.call (some slave) request w

/-- A service with hooks around it, the outermost first. -/
def hooked (hooks : List (ServerHook ω)) (inner : Service ω) : Service ω :=
  hooks.foldr (fun hook inner => (HookedService.mk inner hook).service) inner

section Call

variable (hook : ServerHook ω) (hooks : List (ServerHook ω)) (inner : Service ω) (slave : UInt8)
  (q : Request) (w : ω)

@[simp] theorem hooked_nil : hooked [] inner = inner := rfl

/-- A hook that answers by itself. -/
theorem hooked_cons_some {rsp : Response} {w' : ω}
    (h : hook.beforeCall slave q w = (some rsp, w')) :
    (hooked (hook :: hooks) inner).call slave q w = (.ok rsp, w') := by
  show HookedService.call _ (some slave) q w = _
  simp only [HookedService.call, contextSlave, Option.getD_some, h]

/-- A hook that lets the request pass. -/
theorem hooked_cons_none {w' : ω} (h : hook.beforeCall slave q w = (none, w')) :
    (hooked (hook :: hooks) inner).call slave q w
      = hook.afterCall slave ((hooked hooks inner).call slave q w').1
          ((hooked hooks inner).call slave q w').2 := by
  show HookedService.call _ (some slave) q w = _
  simp only [HookedService.call, contextSlave, Option.getD_some, h]
  rfl

end Call

/-! ### The order of the calls -/

/-- What is called, and by which hook; hook 0 is the outermost. -/
inductive HookEvent
  | before (level : ℕ) (slave : UInt8) (request : Request)
  | call (slave : UInt8) (request : Request)
  | after (level : ℕ) (slave : UInt8)
  deriving DecidableEq, Repr

/-- The hook with a log. -/
def ServerHook.logged (level : ℕ) (hook : ServerHook ω) : ServerHook (ω × List HookEvent) where
  beforeCall slave q w :=
    let (rsp, w') := hook.beforeCall slave q w.1
    (rsp, (w', w.2 ++ [.before level slave q]))
  afterCall slave result w :=
    let (result, w') := hook.afterCall slave result w.1
    (result, (w', w.2 ++ [.after level slave]))

/-- The service with a log. -/
def Service.logged (service : Service ω) : Service (ω × List HookEvent) where
  call slave q w :=
    let (result, w') := service.call slave q w.1
    (result, (w', w.2 ++ [.call slave q]))

/-- The service with its hooks, all with a log. -/
def loggedStack (service : Service ω) : ℕ → List (ServerHook ω) → Service (ω × List HookEvent)
  | _, [] => service.logged
  | level, hook :: hooks =>
      (HookedService.mk (loggedStack service (level + 1) hooks) (hook.logged level)).service

/-- How many hooks let a request pass before one of them answers; all of them when it gets to the
service. -/
def passed (slave : UInt8) (q : Request) : List (ServerHook ω) → ω → ℕ
  | [], _ => 0
  | hook :: hooks, w =>
    match hook.beforeCall slave q w with
    | (some _, _) => 0
    | (none, w') => passed slave q hooks w' + 1

/-- The log of a request that `depth` of `n` hooks let pass: in through these hooks, to the hook
behind them, which answers, or to the service when there is none, and out through the same hooks. -/
def passage (slave : UInt8) (q : Request) : ℕ → ℕ → ℕ → List HookEvent
  | _, 0, _ => [.call slave q]
  | level, _ + 1, 0 => [.before level slave q]
  | level, n + 1, depth + 1 =>
      .before level slave q :: passage slave q (level + 1) n depth ++ [.after level slave]

/-- **One request goes in up to the hook that answers, or to the service, and comes out again**, and
the log changes nothing else. -/
theorem loggedStack_call (service : Service ω) (hooks : List (ServerHook ω)) (level : ℕ)
    (slave : UInt8) (q : Request) (w : ω) (log : List HookEvent) :
    (loggedStack service level hooks).call slave q (w, log)
      = (((hooked hooks service).call slave q w).1, ((hooked hooks service).call slave q w).2,
          log ++ passage slave q level hooks.length (passed slave q hooks w)) := by
  induction hooks generalizing level w log with
  | nil => rfl
  | cons hook hooks ih =>
      have hcall : (loggedStack service level (hook :: hooks)).call slave q (w, log)
          = (HookedService.mk (loggedStack service (level + 1) hooks) (hook.logged level)).call
              (some slave) q (w, log) := rfl
      rw [hcall, HookedService.call]
      simp only [contextSlave, Option.getD_some]
      cases hbefore : hook.beforeCall slave q w with
      | mk rsp w' =>
          have hlog : (hook.logged level).beforeCall slave q (w, log)
              = (rsp, (w', log ++ [.before level slave q])) := by
            simp only [ServerHook.logged, hbefore]
          rw [hlog]
          cases rsp with
          | some rsp =>
              rw [hooked_cons_some hook hooks service slave q w hbefore]
              simp only [passed, hbefore, List.length_cons, passage]
          | none =>
              rw [hooked_cons_none hook hooks service slave q w hbefore]
              simp only [ih, ServerHook.logged, passed, hbefore, List.length_cons, passage,
                List.append_assoc, List.cons_append, List.nil_append]

/-- The log does not change what the service does. -/
theorem loggedStack_simulates (service : Service ω) (hooks : List (ServerHook ω)) :
    (loggedStack service 0 hooks).Simulates (hooked hooks service) Prod.fst := by
  rintro slave q ⟨w, log⟩
  rw [loggedStack_call service hooks 0 slave q w log]
  exact ⟨rfl, rfl⟩

/-- The state behind some calls. -/
def Service.after (service : Service ω) (calls : List (UInt8 × Request)) (w : ω) : ω :=
  calls.foldl (fun w c => (service.call c.1 c.2 w).2) w

/-- The log of requests that are served one after the other, each in the state that those before it
have left. -/
def passages (hooks : List (ServerHook ω)) (service : Service ω) :
    ω → List (UInt8 × Request) → List HookEvent
  | _, [] => []
  | w, (slave, q) :: calls =>
      passage slave q 0 hooks.length (passed slave q hooks w)
        ++ passages hooks service ((hooked hooks service).call slave q w).2 calls

theorem passages_snoc (hooks : List (ServerHook ω)) (service : Service ω) (w : ω)
    (calls : List (UInt8 × Request)) (slave : UInt8) (q : Request) :
    passages hooks service w (calls ++ [(slave, q)])
      = passages hooks service w calls
        ++ passage slave q 0 hooks.length
            (passed slave q hooks ((hooked hooks service).after calls w)) := by
  induction calls generalizing w with
  | nil => exact List.append_nil _
  | cons c calls ih =>
      obtain ⟨slave', q'⟩ := c
      rw [List.cons_append, passages, passages, ih, List.append_assoc]
      rfl

/-- **The hooks are called in order on the way in and in reverse on the way out**: over any run of
any server, with any hooks, the log is that of the requests that were served, one after the other,
each of which went in up to the first hook that answered it, or to the service when none did, and
came out through the hooks it had passed.  No hook sees a broadcast, and that there is a log changes
nothing. -/
theorem hooked_run (service : Service ω) (hooks : List (ServerHook ω)) (writeOk : ℕ → Bool) (w : ω)
    (input : ServerInput) :
    let run := input.serve (loggedStack service 0 hooks) writeOk (w, [])
    input.serve (hooked hooks service) writeOk w = run.map Prod.fst ∧
      (∀ c ∈ run.calls, c.1 ≠ 0) ∧
      run.store = ((hooked hooks service).after run.calls w,
        passages hooks service w run.calls) := by
  intro run
  refine ⟨serve_of_simulates (loggedStack_simulates service hooks) (w, []) input, ?_⟩
  refine @serve_induction _ (loggedStack service 0 hooks) writeOk
    (fun calls s => (∀ c ∈ calls, c.1 ≠ 0) ∧
      s = ((hooked hooks service).after calls w, passages hooks service w calls))
    ?_ (w, []) ⟨by simp, rfl⟩ input
  rintro calls s slave q hslave ⟨hcalls, rfl⟩
  refine ⟨?_, ?_⟩
  · intro c hc
    rcases List.mem_append.1 hc with hold | hnew
    · exact hcalls c hold
    · obtain rfl := List.mem_singleton.1 hnew
      exact hslave
  · -- the state that this request meets is that behind the requests before it
    rw [loggedStack_call, passages_snoc, Service.after, Service.after, List.foldl_append]
    rfl

/-! ### Hooks that answer by themselves -/

/-- The hook leaves the part of the state that `part` shows alone. -/
structure ServerHook.Spares (hook : ServerHook ω) (part : ω → σ) : Prop where
  before : ∀ slave q w, part (hook.beforeCall slave q w).2 = part w
  after : ∀ slave result w, part (hook.afterCall slave result w).2 = part w

section Guard

variable {part : ω → σ} {hooks : List (ServerHook ω)} {service : Service ω}
  {slave : UInt8} {q : Request}

/-- Only the service changes what the hooks leave alone. -/
theorem hooked_call_spares (hspares : ∀ hook ∈ hooks, hook.Spares part) {I : σ → Prop}
    (hservice : ∀ w, I (part w) → I (part (service.call slave q w).2)) {w : ω}
    (hw : I (part w)) : I (part ((hooked hooks service).call slave q w).2) := by
  induction hooks generalizing w with
  | nil => exact hservice w hw
  | cons hook hooks ih =>
      obtain ⟨hbefore, hafter⟩ := hspares hook List.mem_cons_self
      have hkeep := hbefore slave q w
      cases hb : hook.beforeCall slave q w with
      | mk rsp w' =>
          rw [hb] at hkeep
          have hw' : I (part w') := by
            rw [hkeep]
            exact hw
          cases rsp with
          | some rsp => rw [hooked_cons_some hook hooks service slave q w hb]; exact hw'
          | none =>
              rw [hooked_cons_none hook hooks service slave q w hb, hafter]
              exact ih (fun hook' h => hspares hook' (List.mem_cons_of_mem _ h)) hw'

/-- A request that one of the hooks answers does not get to the service. -/
theorem hooked_call_blocked (hspares : ∀ hook ∈ hooks, hook.Spares part) {guard : ServerHook ω}
    (hmem : guard ∈ hooks) (hblock : ∀ w, (guard.beforeCall slave q w).1 ≠ none) (w : ω) :
    part ((hooked hooks service).call slave q w).2 = part w := by
  induction hooks generalizing w with
  | nil => cases hmem
  | cons hook hooks ih =>
      obtain ⟨hbefore, hafter⟩ := hspares hook List.mem_cons_self
      have hkeep := hbefore slave q w
      cases hb : hook.beforeCall slave q w with
      | mk rsp w' =>
          rw [hb] at hkeep
          cases rsp with
          | some rsp => rw [hooked_cons_some hook hooks service slave q w hb]; exact hkeep
          | none =>
              rw [hooked_cons_none hook hooks service slave q w hb, hafter, ← hkeep]
              refine ih (fun hook' h => hspares hook' (List.mem_cons_of_mem _ h)) ?_ w'
              rcases List.mem_cons.1 hmem with rfl | htail
              · exact absurd (congrArg Prod.fst hb) (hblock w)
              · exact htail

end Guard

/-- **What one hook answers by itself does not get to the service**: whatever else is around the
service, what all requests but the blocked ones keep holds after any run of any server. -/
theorem hooked_guard (part : ω → σ) (hooks : List (ServerHook ω)) (service : Service ω)
    (hspares : ∀ hook ∈ hooks, hook.Spares part) (guard : ServerHook ω) (hmem : guard ∈ hooks)
    (Blocked : UInt8 → Request → Prop)
    (hblock : ∀ slave q, Blocked slave q → ∀ w, (guard.beforeCall slave q w).1 ≠ none)
    (I : σ → Prop)
    (hkeep : ∀ slave q, ¬ Blocked slave q →
      ∀ w, I (part w) → I (part (service.call slave q w).2))
    (writeOk : ℕ → Bool) (w : ω) (hw : I (part w)) (input : ServerInput) :
    I (part (input.serve (hooked hooks service) writeOk w).store) := by
  refine @serve_induction _ (hooked hooks service) writeOk (fun _ s => I (part s)) ?_ w hw input
  intro calls s slave q _ hs
  by_cases hb : Blocked slave q
  · show I (part ((hooked hooks service).call slave q s).2)
    rw [hooked_call_blocked hspares hmem (hblock slave q hb)]
    exact hs
  · exact hooked_call_spares hspares (hkeep slave q hb) hs

/-- A hook that lets only reads of holding registers pass. -/
def readOnlyHook : ServerHook SlaveStore where
  beforeCall _ q s :=
    match q with
    | .readHoldingRegisters _ _ => (none, s)
    | q => (some (.exception q.functionCode.value .illegalFunction), s)
  afterCall _ result s := (result, s)

/-- A write of a register does not get to a store behind it. -/
theorem hooked_guard_readOnly :
    ((ServerInput.tcp .standard [.ok (encodeTcpFrame (1 :: (Request.writeSingleRegister 0 7).pdu) []
      .standard 5)]).serve (hooked [.default, readOnlyHook] storeService) (fun _ => true)
        ⟨[], [], [3], []⟩).store = ⟨[], [], [3], []⟩ := by
  refine hooked_guard id [.default, readOnlyHook] storeService ?_ readOnlyHook (by simp)
    (fun _ q => ∀ addr qty, q ≠ .readHoldingRegisters addr qty) ?_ (· = ⟨[], [], [3], []⟩) ?_
    (fun _ => true) ⟨[], [], [3], []⟩ rfl _
  · intro hook hmem
    obtain rfl | rfl : hook = .default ∨ hook = readOnlyHook := by simpa using hmem
    · exact ⟨fun _ _ _ => rfl, fun _ _ _ => rfl⟩
    · refine ⟨?_, fun _ _ _ => rfl⟩
      intro slave q s
      cases q <;> rfl
  · intro slave q hq s
    cases q with
    | readHoldingRegisters addr qty => exact absurd rfl (hq addr qty)
    | _ => exact Option.some_ne_none _
  · intro slave q hq s hs
    have hread : ∃ addr qty, q = .readHoldingRegisters addr qty := by
      by_contra hcon
      refine hq ?_
      intro addr qty h
      exact hcon ⟨addr, qty, h⟩
    obtain ⟨addr, qty, rfl⟩ := hread
    exact hs

/-! ### Hooks that look on -/

/-- The hook lets everything pass as it is. -/
structure ServerHook.Observes (hook : ServerHook ω) (part : ω → σ) : Prop extends
    hook.Spares part where
  passes : ∀ slave q w, (hook.beforeCall slave q w).1 = none
  keeps : ∀ slave result w, (hook.afterCall slave result w).1 = result

/-- A service with hooks that look on stands for what the service stands for. -/
theorem hooked_simulates {part : ω → σ} {hooks : List (ServerHook ω)} {service : Service ω}
    {service' : Service σ} (hobs : ∀ hook ∈ hooks, hook.Observes part)
    (hsim : service.Simulates service' part) : (hooked hooks service).Simulates service' part := by
  induction hooks with
  | nil => exact hsim
  | cons hook hooks ih =>
      intro slave q w
      obtain ⟨hspares, hpass, hres⟩ := hobs hook List.mem_cons_self
      have hkeep := hspares.before slave q w
      have hnone := hpass slave q w
      cases hb : hook.beforeCall slave q w with
      | mk rsp w' =>
          rw [hb] at hkeep hnone
          obtain rfl : rsp = none := hnone
          rw [hooked_cons_none hook hooks service slave q w hb, hres, hspares.after, ← hkeep]
          exact ih (fun hook' h => hobs hook' (List.mem_cons_of_mem _ h)) slave q w'

/-- A service beside the states of its hooks. -/
def Service.beside {η : Type} (service : Service σ) : Service (η × σ) where
  call slave q w := ((service.call slave q w.2).1, (w.1, (service.call slave q w.2).2))

/-- **Hooks that look on are not noticed**: over any run of any server the same requests are served,
the same frames are sent, the same bytes are left, and the service ends in the same state. -/
theorem hooked_observers {η : Type} (hooks : List (ServerHook (η × σ))) (service : Service σ)
    (hobs : ∀ hook ∈ hooks, hook.Observes Prod.snd) (writeOk : ℕ → Bool) (e : η) (s : σ)
    (input : ServerInput) :
    input.serve service writeOk s
      = (input.serve (hooked hooks service.beside) writeOk (e, s)).map Prod.snd := by
  have hsim : (hooked hooks (Service.beside service)).Simulates service
      (Prod.snd : η × σ → σ) := hooked_simulates hobs fun _ _ _ => ⟨rfl, rfl⟩
  exact serve_of_simulates hsim (e, s) input

/-- A hook that counts the requests. -/
def countingHook : ServerHook (ℕ × SlaveStore) where
  beforeCall _ _ w := (none, (w.1 + 1, w.2))
  afterCall _ result w := (result, w)

/-- Two of them, around a store that is asked for a register over RTU. -/
theorem hooked_observers_counting :
    let input : ServerInput := .rtu
      [.data (encodeRtuFrame (1 :: (Request.readHoldingRegisters 0 1).pdu) [])]
    let run := input.serve (hooked [countingHook, countingHook] storeService.beside)
      (fun _ => true) (0, ⟨[], [], [3], []⟩)
    input.serve storeService (fun _ => true) ⟨[], [], [3], []⟩ = run.map Prod.snd ∧
      run.store.1 = 2 := by
  refine ⟨hooked_observers [countingHook, countingHook] storeService ?_ (fun _ => true) 0
    ⟨[], [], [3], []⟩ _, by decide⟩
  intro hook hmem
  obtain rfl : hook = countingHook := by simpa using hmem
  exact ⟨⟨fun _ _ _ => rfl, fun _ _ _ => rfl⟩, fun _ _ _ => rfl, fun _ _ _ => rfl⟩

end OmsModbus
