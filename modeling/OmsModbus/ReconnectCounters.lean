/-
**The counters of the reconnect loop.**

The two counters of the loop are words of 32 bits.  The counter of the rebuilds starts again when a
rebuild succeeds, and ends the loop when it is at three.  The counter of the failures is never
reset, and without a number of retries nothing ends the loop before it is full: the failure after
that overflows, although the count is of no use to such a loop.  A number of retries ends the loop
in time, except for the greatest word, which the counter would have to exceed.

Main definitions:

* `OmsModbus.Guarded.reconnectLoop`, `OmsModbus.Guarded.runWithReconnect` — the loop with the checks
  of its counters;
* `OmsModbus.ReconnectScript.guardedRun` — a call over a script.

Main results:

* `OmsModbus.ReconnectScript.guardedRun_overflow_iff` — **when a counter overflows**;
* `OmsModbus.ReconnectScript.guardedRun_eq` — otherwise the checks change nothing;
* `OmsModbus.infiniteRetry_noOverflow_iff` — how long a loop without a number of retries is safe.
-/

import OmsModbus.PanicChecks
import OmsModbus.ReconnectContract

set_option relaxedAutoImplicit false
set_option autoImplicit false

namespace OmsModbus

open PanicChecks

namespace Guarded

/-! ### The loop -/

section Reconnect

variable {ς : Type} (cfg : ReconnectConfig) (send : ς → Except ModbusError Response × ς)
  (rebuild : ς → Bool × ς) (exceededErr : String → ModbusError)

/-- The reconnect loop, whose counters are words of 32 bits. -/
def reconnectLoop : ℕ → ℕ → ℕ → ς → Checked (Option (Except ModbusError Response × ς))
  | 0, _, _, _ => .ok none
  | fuel + 1, failures, rebuildFailures, s =>
    match send s with
    | (.ok rsp, s) => .ok (some (.ok rsp, s))
    | (.error e, s) =>
      if ¬ isRetryable e then .ok (some (.error e, s))
      else do
        let failures ← add 32 failures 1
        if cfg.maxRetries > 0 ∧ failures > cfg.maxRetries then
          .ok (some (.error (exceededErr
            s!"reconnect max_retries({cfg.maxRetries}) exceeded: {e.detail}"), s))
        else
          match rebuild s with
          | (false, s) => do
            let rebuildFailures ← add 32 rebuildFailures 1
            if rebuildFailures ≥ 3 then
              .ok (some (.error (exceededErr
                "reconnect: transport rebuild failed 3 consecutive times"), s))
            else reconnectLoop fuel failures rebuildFailures s
          | (true, s) => reconnectLoop fuel failures 0 s

/-- A call with the reconnect loop, or a single attempt without one. -/
def runWithReconnect (reconnect : Option ReconnectConfig) (fuel : ℕ) (s : ς) :
    Checked (Option (Except ModbusError Response × ς)) :=
  match reconnect with
  | none => .ok (some (send s))
  | some cfg => reconnectLoop cfg send rebuild exceededErr fuel 0 0 s

end Reconnect

end Guarded

namespace ReconnectScript

/-- A call over the script, with the checks of the counters. -/
def guardedRun (S : ReconnectScript) (exceededErr : String → ModbusError)
    (reconnect : Option ReconnectConfig) (fuel : ℕ) :
    Checked (Option (Except ModbusError Response × List ReconnectCall)) :=
  Guarded.runWithReconnect S.send S.rebuild exceededErr reconnect fuel []

/-- A counter overflows in one of `fuel` rounds from round `k` on: the last of these that the
counter of the failures has room for fails, and so does the one after it. -/
structure Overflows (S : ReconnectScript) (n k fuel : ℕ) : Prop where
  long : 2 ^ 32 ≤ k + fuel
  goesOn : ∀ i, k ≤ i → i + 1 < 2 ^ 32 → S.GoesOn n i
  fails : ∃ e, S.Fails (2 ^ 32 - 1) e

/-! ### One round -/

section Loop

variable {S : ReconnectScript} {exceededErr : String → ModbusError} {cfg : ReconnectConfig}

/-- The counter of the failures is full. -/
theorem guardedLoop_full {k r : ℕ} {e : ModbusError} (h : S.Fails k e) (hk : 2 ^ 32 ≤ k + 1)
    (fuel : ℕ) :
    Guarded.reconnectLoop cfg S.send S.rebuild exceededErr (fuel + 1) k r (rounds k)
      = .error .overflow := by
  have hadd : add 32 k 1 = .error .overflow := if_neg (Nat.not_lt.2 hk)
  rw [Guarded.reconnectLoop, send_rounds, h.1]
  simp only [h.2, not_true_eq_false, if_false, hadd]
  rfl

/-- A round that fails, up to the rebuild. -/
theorem guardedLoop_fails {k : ℕ} {e : ModbusError} (h : S.Fails k e) (hk : k + 1 < 2 ^ 32)
    (hrow : S.failedInARow k < 3) (fuel : ℕ) :
    Guarded.reconnectLoop cfg S.send S.rebuild exceededErr (fuel + 1) k (S.failedInARow k)
        (rounds k)
      = if cfg.maxRetries > 0 ∧ k + 1 > cfg.maxRetries then
          .ok (some (.error (exceededErr
            s!"reconnect max_retries({cfg.maxRetries}) exceeded: {e.detail}"), rounds k ++ [.send]))
        else if 3 ≤ S.failedInARow (k + 1) then
          .ok (some (.error (exceededErr "reconnect: transport rebuild failed 3 consecutive times"),
            rounds (k + 1)))
        else
          Guarded.reconnectLoop cfg S.send S.rebuild exceededErr fuel (k + 1)
            (S.failedInARow (k + 1)) (rounds (k + 1)) := by
  rw [Guarded.reconnectLoop, send_rounds, h.1]
  simp only [h.2, not_true_eq_false, if_false, rebuild_rounds]
  refine bind_eq (add_eq hk) ?_
  split
  · rfl
  · cases hr : S.rebuilds k with
    | true => simp [S.failedInARow_of_rebuilt hr]
    | false =>
        simp only [S.failedInARow_of_failed hr, ge_iff_le]
        exact bind_eq (add_eq (by omega)) rfl

/-- An attempt that succeeds, or fails for good, touches no counter. -/
theorem guardedLoop_outcome {k : ℕ} (h : ∀ e, ¬ S.Fails k e) (fuel r : ℕ) :
    Guarded.reconnectLoop cfg S.send S.rebuild exceededErr (fuel + 1) k r (rounds k)
      = .ok (some (S.sends k, rounds k ++ [.send])) := by
  rw [Guarded.reconnectLoop, send_rounds]
  cases hs : S.sends k with
  | ok rsp => rfl
  | error e =>
      have he : ¬ isRetryable e = true := fun he => h e ⟨hs, he⟩
      simp only [if_pos he]

theorem guardedLoop_ends {k : ℕ} {res : Except ModbusError Response} {log : List ReconnectCall}
    (h : S.Ends exceededErr cfg.maxRetries k res log) (hk : k + 1 < 2 ^ 32)
    (hrow : S.failedInARow k < 3) (fuel : ℕ) :
    Guarded.reconnectLoop cfg S.send S.rebuild exceededErr (fuel + 1) k (S.failedInARow k)
        (rounds k) = .ok (some (res, log)) := by
  cases h with
  | outcome h => exact guardedLoop_outcome h fuel _
  | limit e h hn => rw [guardedLoop_fails h hk hrow, if_pos ⟨hn.1, Nat.lt_succ_of_le hn.2⟩]
  | down e h hn hdown =>
      have hlimit : ¬ (cfg.maxRetries > 0 ∧ k + 1 > cfg.maxRetries) :=
        fun hc => hn ⟨hc.1, Nat.le_of_lt_succ hc.2⟩
      rw [guardedLoop_fails h hk hrow, if_neg hlimit, if_pos ((S.three_le_failedInARow k).2 hdown)]

theorem guardedLoop_goesOn {k : ℕ} (h : S.GoesOn cfg.maxRetries k) (hk : k + 1 < 2 ^ 32)
    (hrow : S.failedInARow k < 3) (fuel : ℕ) :
    S.failedInARow (k + 1) < 3 ∧
      Guarded.reconnectLoop cfg S.send S.rebuild exceededErr (fuel + 1) k (S.failedInARow k)
          (rounds k)
        = Guarded.reconnectLoop cfg S.send S.rebuild exceededErr fuel (k + 1)
            (S.failedInARow (k + 1)) (rounds (k + 1)) := by
  obtain ⟨⟨e, he⟩, hn, hdown⟩ := h
  have hlimit : ¬ (cfg.maxRetries > 0 ∧ k + 1 > cfg.maxRetries) :=
    fun hc => hn ⟨hc.1, Nat.le_of_lt_succ hc.2⟩
  have hthree : ¬ 3 ≤ S.failedInARow (k + 1) := fun h => hdown ((S.three_le_failedInARow k).1 h)
  refine ⟨Nat.lt_of_not_le hthree, ?_⟩
  rw [guardedLoop_fails he hk hrow, if_neg hlimit, if_neg hthree]

/-! ### The loop overflows -/

theorem Overflows.succ_iff {n k fuel : ℕ} (h : S.GoesOn n k) :
    S.Overflows n k (fuel + 1) ↔ S.Overflows n (k + 1) fuel := by
  constructor
  · intro hover
    refine ⟨by have := hover.long; omega, ?_, hover.fails⟩
    intro i hi
    exact hover.goesOn i (by omega)
  · intro hover
    refine ⟨by have := hover.long; omega, ?_, hover.fails⟩
    intro i hi hlt
    rcases Nat.eq_or_lt_of_le hi with rfl | hki
    · exact h
    · exact hover.goesOn i hki hlt

/-- **The loop with the checks** overflows, or is the loop without them. -/
theorem guardedLoop_eq {fuel k : ℕ} (hk : k < 2 ^ 32) (hrow : S.failedInARow k < 3) :
    (S.Overflows cfg.maxRetries k fuel →
      Guarded.reconnectLoop cfg S.send S.rebuild exceededErr fuel k (S.failedInARow k) (rounds k)
        = .error .overflow) ∧
    (¬ S.Overflows cfg.maxRetries k fuel →
      Guarded.reconnectLoop cfg S.send S.rebuild exceededErr fuel k (S.failedInARow k) (rounds k)
        = .ok (reconnectLoop cfg S.send S.rebuild exceededErr fuel k (S.failedInARow k)
            (rounds k))) := by
  induction fuel generalizing k with
  | zero =>
      refine ⟨?_, fun _ => rfl⟩
      intro hover
      have := hover.long
      omega
  | succ fuel ih =>
      rcases Nat.lt_or_ge (k + 1) (2 ^ 32) with hroom | hfull
      · rcases ends_or_goesOn S exceededErr cfg.maxRetries k with ⟨res, log, hends⟩ | hgo
        · -- the loop ends here
          refine ⟨fun hover => absurd (hover.goesOn k le_rfl hroom) hends.not_goesOn, ?_⟩
          intro _
          rw [guardedLoop_ends hends hroom hrow, reconnectLoop_ends hends]
        · obtain ⟨hrow', hloop⟩ := @guardedLoop_goesOn S exceededErr cfg k hgo hroom hrow fuel
          rw [hloop, reconnectLoop_goesOn hgo, Overflows.succ_iff hgo]
          exact ih hroom hrow'
      · -- the counter of the failures is full
        have hlast : k = 2 ^ 32 - 1 := by omega
        by_cases hfails : ∃ e, S.Fails k e
        · obtain ⟨e, he⟩ := hfails
          refine ⟨fun _ => guardedLoop_full he hfull fuel, ?_⟩
          intro hnot
          refine absurd ⟨by omega, ?_, e, hlast ▸ he⟩ hnot
          intro i hi hlt
          omega
        · have houtcome : ∀ e, ¬ S.Fails k e := fun e he => hfails ⟨e, he⟩
          refine ⟨fun hover => absurd (hlast ▸ hover.fails) hfails, ?_⟩
          intro _
          rw [guardedLoop_outcome houtcome, reconnectLoop_ends (.outcome houtcome)]

/-! ### Calls -/

theorem guardedRun_cases (fuel : ℕ) :
    (S.Overflows cfg.maxRetries 0 fuel →
      S.guardedRun exceededErr (some cfg) fuel = .error .overflow) ∧
    (¬ S.Overflows cfg.maxRetries 0 fuel →
      S.guardedRun exceededErr (some cfg) fuel = .ok (S.run exceededErr (some cfg) fuel)) :=
  guardedLoop_eq (k := 0) (by decide) (show 0 < 3 by decide)

/-- **When a counter overflows.** -/
theorem guardedRun_overflow_iff {fuel : ℕ} :
    S.guardedRun exceededErr (some cfg) fuel = .error .overflow ↔
      S.Overflows cfg.maxRetries 0 fuel := by
  obtain ⟨hover, hnot⟩ := @guardedRun_cases S exceededErr cfg fuel
  refine ⟨?_, hover⟩
  intro herror
  by_contra h
  rw [hnot h] at herror
  cases herror

/-- Otherwise the checks change nothing. -/
theorem guardedRun_eq {fuel : ℕ} (h : ¬ S.Overflows cfg.maxRetries 0 fuel) :
    S.guardedRun exceededErr (some cfg) fuel = .ok (S.run exceededErr (some cfg) fuel) :=
  (guardedRun_cases fuel).2 h

/-- A number of retries below the greatest word ends the loop before a counter is full. -/
theorem not_overflows_of_maxRetries {n fuel : ℕ} (hpos : 0 < n) (hn : n + 1 < 2 ^ 32) :
    ¬ S.Overflows n 0 fuel := by
  intro hover
  exact (hover.goesOn n (Nat.zero_le n) hn).2.1 ⟨hpos, le_rfl⟩

/-- Without a number of retries, or with the greatest word for it, only the script ends the loop. -/
theorem overflows_iff {n fuel : ℕ} (hn : n = 0 ∨ 2 ^ 32 ≤ n + 1) :
    S.Overflows n 0 fuel ↔ 2 ^ 32 ≤ fuel ∧
      (∀ k, k + 1 < 2 ^ 32 → (∃ e, S.Fails k e) ∧ ¬ S.ThreeDown k) ∧
      ∃ e, S.Fails (2 ^ 32 - 1) e := by
  constructor
  · intro hover
    refine ⟨by have := hover.long; omega, ?_, hover.fails⟩
    intro k hk
    obtain ⟨hfails, -, hup⟩ := hover.goesOn k (Nat.zero_le k) hk
    exact ⟨hfails, hup⟩
  · rintro ⟨hlong, hgo, hfails⟩
    refine ⟨by omega, ?_, hfails⟩
    intro k _ hk
    obtain ⟨hfail, hup⟩ := hgo k hk
    refine ⟨hfail, ?_, hup⟩
    rintro ⟨hpos, hle⟩
    omega

end Loop

end ReconnectScript

/-- **How long a loop without a number of retries is safe.**  In a run of `n` rounds in which every
attempt fails with an error that is worth a retry, and no three rebuilds in a row fail, no counter
overflows if and only if there are less than `2 ^ 32` rounds. -/
theorem infiniteRetry_noOverflow_iff (S : ReconnectScript) (exceededErr : String → ModbusError)
    (cfg : ReconnectConfig) (n : ℕ) (hretries : cfg.maxRetries = 0)
    (hfails : ∀ k < n, ∃ e, S.Fails k e) (hup : ∀ k < n, ¬ S.ThreeDown k) :
    S.guardedRun exceededErr (some cfg) n ≠ .error .overflow ↔ n < 2 ^ 32 := by
  rw [Ne, ReconnectScript.guardedRun_overflow_iff, ReconnectScript.overflows_iff (.inl hretries)]
  constructor
  · intro hnot
    by_contra hlong
    refine hnot ⟨Nat.le_of_not_lt hlong, ?_, hfails _ (by omega)⟩
    intro k hk
    exact ⟨hfails k (by omega), hup k (by omega)⟩
  · rintro hn ⟨hlong, -⟩
    omega

/-- Every attempt is refused, and every rebuild succeeds. -/
def refusedScript : ReconnectScript := ⟨fun _ => .error (.connection "refused"), fun _ => true⟩

theorem refusedScript_fails (k : ℕ) : ∃ e, refusedScript.Fails k e := ⟨_, rfl, rfl⟩

theorem refusedScript_up (k : ℕ) : ¬ refusedScript.ThreeDown k := by
  rintro ⟨-, -, -, hdown⟩
  cases hdown

/-- A run of three rounds is safe. -/
theorem infiniteRetry_noOverflow_refused :
    refusedScript.guardedRun .connection (some ⟨0⟩) 3 ≠ .error .overflow :=
  (infiniteRetry_noOverflow_iff refusedScript .connection ⟨0⟩ 3 rfl
    (fun k _ => refusedScript_fails k) (fun k _ => refusedScript_up k)).2 (by decide)

/-- The round that overflows the counter of the failures. -/
theorem infiniteRetry_overflow :
    (∀ k < 2 ^ 32, ∃ e, refusedScript.Fails k e) ∧
      (∀ k < 2 ^ 32, ¬ refusedScript.ThreeDown k) ∧
      refusedScript.guardedRun .connection (some ⟨0⟩) (2 ^ 32) = .error .overflow := by
  refine ⟨fun k _ => refusedScript_fails k, fun k _ => refusedScript_up k, ?_⟩
  rw [ReconnectScript.guardedRun_overflow_iff, ReconnectScript.overflows_iff (.inl rfl)]
  exact ⟨le_rfl, fun k _ => ⟨refusedScript_fails k, refusedScript_up k⟩, refusedScript_fails _⟩

end OmsModbus
