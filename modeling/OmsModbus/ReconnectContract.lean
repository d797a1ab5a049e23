/-
**The contract of the reconnect loop.**

The loop around a call keeps two counters: the failures so far, against the number of retries, and
the rebuilds that have failed in a row.  Both may end it, and a rebuild that fails leads to another
attempt all the same.  Here the attempts and the rebuilds follow a script, and the loop keeps a log
of them.  What it does is then said without the counters: in which round it ends, with what result,
and which calls it has made.

Main definitions:

* `OmsModbus.ReconnectScript` — the outcomes of the attempts and of the rebuilds;
* `OmsModbus.ReconnectScript.GoesOn` — a round that leads to another one;
* `OmsModbus.ReconnectScript.Ends` — a round that ends the loop, with its result and the calls.

Main results:

* `OmsModbus.ReconnectScript.reconnectLoop_eq_some_iff` — **the loop ends in the first round that
  ends it**;
* `OmsModbus.runWithReconnect_contract` — the contract.
-/

import OmsModbus.SendRecv

set_option relaxedAutoImplicit false
set_option autoImplicit false

namespace OmsModbus

/-! ### Scripts -/

/-- A call that the loop makes. -/
inductive ReconnectCall
  | send
  | rebuild
  deriving DecidableEq, Repr

/-- What the attempts lead to, and whether the rebuilds succeed. -/
structure ReconnectScript where
  sends : ℕ → Except ModbusError Response
  rebuilds : ℕ → Bool

namespace ReconnectScript

variable (S : ReconnectScript)

/-- The next attempt, logged. -/
def send (log : List ReconnectCall) : Except ModbusError Response × List ReconnectCall :=
  (S.sends (log.count .send), log ++ [.send])

/-- The next rebuild, logged. -/
def rebuild (log : List ReconnectCall) : Bool × List ReconnectCall :=
  (S.rebuilds (log.count .rebuild), log ++ [.rebuild])

/-- A call over the script, with its log. -/
def run (exceededErr : String → ModbusError) (reconnect : Option ReconnectConfig) (fuel : ℕ) :
    Option (Except ModbusError Response × List ReconnectCall) :=
  runWithReconnect S.send S.rebuild exceededErr reconnect fuel []

/-- Attempt `k` fails with an error that is worth a retry. -/
def Fails (k : ℕ) (e : ModbusError) : Prop := S.sends k = .error e ∧ isRetryable e = true

/-- Rebuild `k` is the last of three in a row that have failed. -/
def ThreeDown (k : ℕ) : Prop :=
  2 ≤ k ∧ S.rebuilds (k - 2) = false ∧ S.rebuilds (k - 1) = false ∧ S.rebuilds k = false

/-- Failure `k` exceeds the number of retries, of which 0 is no number. -/
def Exceeds (n k : ℕ) : Prop := 0 < n ∧ n ≤ k

/-- Round `k` leads to another one. -/
def GoesOn (n k : ℕ) : Prop := (∃ e, S.Fails k e) ∧ ¬ Exceeds n k ∧ ¬ S.ThreeDown k

/-- The calls of `k` rounds that lead to another one. -/
def rounds (k : ℕ) : List ReconnectCall := (List.replicate k [.send, .rebuild]).flatten

/-- Round `k` ends the loop: with an attempt that succeeds or fails for good, with a failure too
many, or with the third rebuild in a row that fails. -/
inductive Ends (exceededErr : String → ModbusError) (n k : ℕ) :
    Except ModbusError Response → List ReconnectCall → Prop
  | outcome (h : ∀ e, ¬ S.Fails k e) : Ends exceededErr n k (S.sends k) (rounds k ++ [.send])
  | limit (e : ModbusError) (h : S.Fails k e) (hn : Exceeds n k) :
      Ends exceededErr n k
        (.error (exceededErr s!"reconnect max_retries({n}) exceeded: {e.detail}"))
        (rounds k ++ [.send])
  | down (e : ModbusError) (h : S.Fails k e) (hn : ¬ Exceeds n k) (hdown : S.ThreeDown k) :
      Ends exceededErr n k
        (.error (exceededErr "reconnect: transport rebuild failed 3 consecutive times"))
        (rounds (k + 1))

/-! ### The calls -/

theorem rounds_succ (k : ℕ) : rounds (k + 1) = rounds k ++ [.send, .rebuild] := by
  simp [rounds, List.replicate_succ']

theorem count_send_rounds (k : ℕ) : (rounds k).count .send = k := by
  induction k with
  | zero => rfl
  | succ k ih => rw [rounds_succ, List.count_append, ih]; rfl

theorem count_rebuild_rounds (k : ℕ) : (rounds k).count .rebuild = k := by
  induction k with
  | zero => rfl
  | succ k ih => rw [rounds_succ, List.count_append, ih]; rfl

/-- The next attempt behind `k` rounds. -/
theorem send_rounds (k : ℕ) : S.send (rounds k) = (S.sends k, rounds k ++ [.send]) := by
  rw [send, count_send_rounds]

/-- The next rebuild behind `k` rounds and an attempt. -/
theorem rebuild_rounds (k : ℕ) :
    S.rebuild (rounds k ++ [.send]) = (S.rebuilds k, rounds (k + 1)) := by
  have hcount : (rounds k ++ [ReconnectCall.send]).count .rebuild = k := by
    rw [List.count_append, count_rebuild_rounds]
    rfl
  rw [rebuild, hcount, rounds_succ, List.append_assoc]
  rfl

/-! ### The counter of the rebuilds -/

/-- How many of the last of `k` rebuilds have failed in a row. -/
def failedInARow : ℕ → ℕ
  | 0 => 0
  | k + 1 => if S.rebuilds k then 0 else failedInARow k + 1

theorem failedInARow_of_rebuilt {k : ℕ} (h : S.rebuilds k = true) : S.failedInARow (k + 1) = 0 :=
  if_pos h

theorem failedInARow_of_failed {k : ℕ} (h : S.rebuilds k = false) :
    S.failedInARow (k + 1) = S.failedInARow k + 1 := if_neg (Bool.eq_false_iff.1 h)

/-- The counter reaches three with the third failure in a row. -/
theorem three_le_failedInARow (k : ℕ) : 3 ≤ S.failedInARow (k + 1) ↔ S.ThreeDown k := by
  cases k with
  | zero =>
      simp only [failedInARow, ThreeDown]
      split <;> simp
  | succ k =>
      cases k with
      | zero =>
          simp only [failedInARow, ThreeDown]
          split
          · simp
          · split <;> simp
      | succ k =>
          simp only [failedInARow, ThreeDown, Nat.add_sub_cancel, show k + 1 + 1 - 2 = k by omega]
          cases h₂ : S.rebuilds (k + 1 + 1) with
          | true => simp
          | false =>
              cases h₁ : S.rebuilds (k + 1) with
              | true => simp
              | false => cases h₀ : S.rebuilds k <;> simp

/-! ### The loop -/

section Loop

variable {S} {exceededErr : String → ModbusError} {cfg : ReconnectConfig}

/-- Every round ends the loop or leads to another one. -/
theorem ends_or_goesOn (S : ReconnectScript) (exceededErr : String → ModbusError) (n k : ℕ) :
    (∃ res log, S.Ends exceededErr n k res log) ∨ S.GoesOn n k := by
  by_cases hfails : ∃ e, S.Fails k e
  · obtain ⟨e, he⟩ := hfails
    by_cases hn : Exceeds n k
    · exact .inl ⟨_, _, .limit e he hn⟩
    · by_cases hdown : S.ThreeDown k
      · exact .inl ⟨_, _, .down e he hn hdown⟩
      · exact .inr ⟨⟨e, he⟩, hn, hdown⟩
  · exact .inl ⟨_, _, .outcome fun e he => hfails ⟨e, he⟩⟩

theorem Ends.not_goesOn {n k : ℕ} {res : Except ModbusError Response} {log : List ReconnectCall}
    (h : S.Ends exceededErr n k res log) : ¬ S.GoesOn n k := by
  intro hgo
  cases h with
  | outcome h => exact hgo.1.elim h
  | limit e h hn => exact hgo.2.1 hn
  | down e h hn hdown => exact hgo.2.2 hdown

/-- A round that fails, up to the rebuild. -/
theorem reconnectLoop_fails {k : ℕ} {e : ModbusError} (h : S.Fails k e) (fuel : ℕ) :
    reconnectLoop cfg S.send S.rebuild exceededErr (fuel + 1) k (S.failedInARow k) (rounds k)
      = if cfg.maxRetries > 0 ∧ k + 1 > cfg.maxRetries then
          some (.error (exceededErr
            s!"reconnect max_retries({cfg.maxRetries}) exceeded: {e.detail}"), rounds k ++ [.send])
        else if 3 ≤ S.failedInARow (k + 1) then
          some (.error (exceededErr "reconnect: transport rebuild failed 3 consecutive times"),
            rounds (k + 1))
        else
          reconnectLoop cfg S.send S.rebuild exceededErr fuel (k + 1) (S.failedInARow (k + 1))
            (rounds (k + 1)) := by
  rw [reconnectLoop, send_rounds, h.1]
  simp only [h.2, not_true_eq_false, if_false, rebuild_rounds]
  split
  · rfl
  · cases hr : S.rebuilds k with
    | true => simp [S.failedInARow_of_rebuilt hr]
    | false => simp only [S.failedInARow_of_failed hr, ge_iff_le]

theorem reconnectLoop_ends {k : ℕ} {res : Except ModbusError Response} {log : List ReconnectCall}
    (h : S.Ends exceededErr cfg.maxRetries k res log) (fuel : ℕ) :
    reconnectLoop cfg S.send S.rebuild exceededErr (fuel + 1) k (S.failedInARow k) (rounds k)
      = some (res, log) := by
  cases h with
  | outcome h =>
      rw [reconnectLoop, send_rounds]
      cases hs : S.sends k with
      | ok rsp => rfl
      | error e =>
          have he : ¬ isRetryable e = true := fun he => h e ⟨hs, he⟩
          simp only [if_pos he]
  | limit e h hn => rw [reconnectLoop_fails h, if_pos ⟨hn.1, Nat.lt_succ_of_le hn.2⟩]
  | down e h hn hdown =>
      have hlimit : ¬ (cfg.maxRetries > 0 ∧ k + 1 > cfg.maxRetries) :=
        fun hc => hn ⟨hc.1, Nat.le_of_lt_succ hc.2⟩
      rw [reconnectLoop_fails h, if_neg hlimit, if_pos ((S.three_le_failedInARow k).2 hdown)]

theorem reconnectLoop_goesOn {k : ℕ} (h : S.GoesOn cfg.maxRetries k) (fuel : ℕ) :
    reconnectLoop cfg S.send S.rebuild exceededErr (fuel + 1) k (S.failedInARow k) (rounds k)
      = reconnectLoop cfg S.send S.rebuild exceededErr fuel (k + 1) (S.failedInARow (k + 1))
          (rounds (k + 1)) := by
  obtain ⟨⟨e, he⟩, hn, hdown⟩ := h
  have hlimit : ¬ (cfg.maxRetries > 0 ∧ k + 1 > cfg.maxRetries) :=
    fun hc => hn ⟨hc.1, Nat.le_of_lt_succ hc.2⟩
  rw [reconnectLoop_fails he, if_neg hlimit,
    if_neg fun hthree => hdown ((S.three_le_failedInARow k).1 hthree)]

/-- **The loop ends in the first round that ends it.** -/
theorem reconnectLoop_eq_some_iff {fuel k : ℕ} {res : Except ModbusError Response}
    {log : List ReconnectCall} :
    reconnectLoop cfg S.send S.rebuild exceededErr fuel k (S.failedInARow k) (rounds k)
        = some (res, log) ↔
      ∃ j, k ≤ j ∧ j < k + fuel ∧ (∀ i, k ≤ i → i < j → S.GoesOn cfg.maxRetries i) ∧
        S.Ends exceededErr cfg.maxRetries j res log := by
  induction fuel generalizing k with
  | zero =>
      constructor
      · intro h
        cases h
      · intro h
        obtain ⟨j, hk, hj, -⟩ := h
        omega
  | succ fuel ih =>
      rcases ends_or_goesOn S exceededErr cfg.maxRetries k with ⟨res', log', hends⟩ | hgo
      · -- the loop ends here, and no later round is reached
        rw [reconnectLoop_ends hends]
        constructor
        · intro h
          cases h
          exact ⟨k, le_rfl, by omega, fun i hk hi => absurd hi (by omega), hends⟩
        · intro h
          obtain ⟨j, hk, -, hbefore, hj⟩ := h
          obtain rfl : k = j := by
            by_contra hne
            exact hends.not_goesOn (hbefore k le_rfl (by omega))
          have hsame := reconnectLoop_ends hj 0
          rw [reconnectLoop_ends hends] at hsame
          exact hsame
      · rw [reconnectLoop_goesOn hgo, ih]
        constructor
        · intro h
          obtain ⟨j, hk, hj, hbefore, hends⟩ := h
          refine ⟨j, by omega, by omega, ?_, hends⟩
          intro i hi hij
          rcases Nat.eq_or_lt_of_le hi with rfl | hlt
          · exact hgo
          · exact hbefore i hlt hij
        · intro h
          obtain ⟨j, hk, hj, hbefore, hends⟩ := h
          have hne : k ≠ j := by
            rintro rfl
            exact hends.not_goesOn hgo
          exact ⟨j, by omega, by omega, fun i hi hij => hbefore i (by omega) hij, hends⟩

theorem run_eq_some_iff {fuel : ℕ} {res : Except ModbusError Response}
    {log : List ReconnectCall} :
    S.run exceededErr (some cfg) fuel = some (res, log) ↔
      ∃ k < fuel, (∀ j < k, S.GoesOn cfg.maxRetries j) ∧
        S.Ends exceededErr cfg.maxRetries k res log := by
  have hloop := @reconnectLoop_eq_some_iff S exceededErr cfg fuel 0 res log
  rw [run, runWithReconnect]
  simpa [failedInARow, rounds] using hloop

/-- The loop is not through exactly when every round so far leads to another one. -/
theorem run_eq_none_iff {fuel : ℕ} :
    S.run exceededErr (some cfg) fuel = none ↔ ∀ k < fuel, S.GoesOn cfg.maxRetries k := by
  constructor
  · intro hnone k
    induction k using Nat.strong_induction_on with
    | _ k ih =>
        intro hk
        rcases ends_or_goesOn S exceededErr cfg.maxRetries k with ⟨res, log, hends⟩ | hgo
        · have hsome : S.run exceededErr (some cfg) fuel = some (res, log) :=
            run_eq_some_iff.2 ⟨k, hk, fun j hj => ih j hj (hj.trans hk), hends⟩
          rw [hnone] at hsome
          cases hsome
        · exact hgo
  · intro hall
    cases hrun : S.run exceededErr (some cfg) fuel with
    | none => rfl
    | some found =>
        obtain ⟨res, log⟩ := found
        obtain ⟨k, hk, -, hends⟩ := run_eq_some_iff.1 hrun
        exact absurd (hall k hk) hends.not_goesOn

/-- The calls up to the end of round `k`. -/
theorem Ends.count {n k : ℕ} {res : Except ModbusError Response} {log : List ReconnectCall}
    (h : S.Ends exceededErr n k res log) :
    log.count .send = k + 1 ∧ log.count .rebuild ≤ k + 1 ∧
      (Exceeds n k → log.count .rebuild = k) := by
  have hsend : (rounds k ++ [ReconnectCall.send]).count .send = k + 1 := by
    rw [List.count_append, count_send_rounds]
    rfl
  have hrebuild : (rounds k ++ [ReconnectCall.send]).count .rebuild = k := by
    rw [List.count_append, count_rebuild_rounds]
    rfl
  cases h with
  | outcome h => exact ⟨hsend, by omega, fun _ => hrebuild⟩
  | limit e h hn => exact ⟨hsend, by omega, fun _ => hrebuild⟩
  | down e h hn hdown =>
      exact ⟨count_send_rounds _, (count_rebuild_rounds _).le, fun hc => absurd hc hn⟩

/-- With `n > 0` retries there are at most `n + 1` attempts and `n` rebuilds. -/
theorem run_count_le {fuel : ℕ} {res : Except ModbusError Response} {log : List ReconnectCall}
    (h : S.run exceededErr (some cfg) fuel = some (res, log)) (hn : 0 < cfg.maxRetries) :
    log.count .send ≤ cfg.maxRetries + 1 ∧ log.count .rebuild ≤ cfg.maxRetries := by
  obtain ⟨k, -, hbefore, hends⟩ := run_eq_some_iff.1 h
  have hle : k ≤ cfg.maxRetries := by
    by_contra hgt
    exact (hbefore cfg.maxRetries (by omega)).2.1 ⟨hn, le_rfl⟩
  obtain ⟨hsend, hrebuild, hexceeds⟩ := hends.count
  refine ⟨by omega, ?_⟩
  rcases Nat.lt_or_eq_of_le hle with hlt | heq
  · omega
  · rw [hexceeds ⟨hn, heq.ge⟩, heq]

end Loop

end ReconnectScript

/-- **The contract of the reconnect loop.**  Without a configuration there is one attempt, and its
outcome is the result.  With one, the loop ends in the first round that ends it, with the result and
the calls of that round, and is not through before; with `n > 0` retries it makes at most `n + 1`
attempts and `n` rebuilds, and is through after that many. -/
theorem runWithReconnect_contract (S : ReconnectScript) (exceededErr : String → ModbusError) :
    (∀ fuel, S.run exceededErr none fuel = some (S.sends 0, [.send])) ∧
      ∀ (cfg : ReconnectConfig) (fuel : ℕ),
        (∀ res log, S.run exceededErr (some cfg) fuel = some (res, log) ↔
          ∃ k < fuel, (∀ j < k, S.GoesOn cfg.maxRetries j) ∧
            S.Ends exceededErr cfg.maxRetries k res log) ∧
        (S.run exceededErr (some cfg) fuel = none ↔ ∀ k < fuel, S.GoesOn cfg.maxRetries k) ∧
        (0 < cfg.maxRetries →
          (∀ res log, S.run exceededErr (some cfg) fuel = some (res, log) →
            log.count .send ≤ cfg.maxRetries + 1 ∧ log.count .rebuild ≤ cfg.maxRetries) ∧
          (cfg.maxRetries < fuel → S.run exceededErr (some cfg) fuel ≠ none)) := by
  refine ⟨fun _ => rfl, ?_⟩
  intro cfg fuel
  refine ⟨fun _ _ => ReconnectScript.run_eq_some_iff, ReconnectScript.run_eq_none_iff, ?_⟩
  intro hn
  refine ⟨fun _ _ hrun => ReconnectScript.run_count_le hrun hn, ?_⟩
  intro hfuel hnone
  exact (ReconnectScript.run_eq_none_iff.1 hnone cfg.maxRetries hfuel).2.1 ⟨hn, le_rfl⟩

/-- Every attempt fails, and every other rebuild. -/
def flakyScript : ReconnectScript :=
  ⟨fun _ => .error (.connection "reset"), fun k => k % 2 = 0⟩

/-- Two retries: three attempts and two rebuilds. -/
theorem runWithReconnect_contract_flaky :
    (∀ res log, flakyScript.run .connection (some ⟨2⟩) 3 = some (res, log) →
        log.count .send ≤ 2 + 1 ∧ log.count .rebuild ≤ 2) ∧
      flakyScript.run .connection (some ⟨2⟩) 3 ≠ none :=
  have h := ((runWithReconnect_contract flakyScript .connection).2 ⟨2⟩ 3).2.2 (by decide)
  ⟨h.1, h.2 (by decide)⟩

end OmsModbus
