import Mathlib.Data.Nat.Find
import ResonanceAgent.Retry.Config
import ResonanceAgent.Retry.Number

/-! # The retry loop and its runs

`retryWithExponentialBackoff(fn, config)` as a run over a sequence of outcomes:

* `fn n` is what the `n`-th call of `fn` (counting from `0`) returns (`.ok`) or throws
  (`.error`). Every behaviour of the callback, stateful or not, is such a sequence.
* A run (`RetryRun`) is the list of observable events, the calls of `fn`, the `console.log`
  line and the `sleep`s, and how the promise settles: `.ok v`, or `.error r` for a rejection
  (`Rejection`) with `undefined` (the initial `lastError`), with an error a call threw, or with
  the `TypeError` that `isRetryableError` throws when the codes are `undefined`.
* `delayMs` is a JavaScript number, or `undefined` when `initialDelayMs` is; `nextDelay` is
  `Math.min(delayMs * backoffMultiplier, maxDelayMs)` with the product rounded to a double.
* `retryLoop` is the `for` loop from a given iteration, once `maxRetries` is known to be a
  number. It terminates on every rational `maxRetries`: each iteration that goes on has
  `attempt ≤ ⌊maxRetries⌋`.

The second half says once what a run can do (`retryLoop_run`): some attempts fail with a
retryable error before the last one (`Retried`), each leaving a call, a log line and a
sleep (`retryRound`), and then the loop either leaves its condition or stops at one more
call that settles the promise (`Settles`).
-/

namespace ResonanceAgent.Retry
set_option autoImplicit false

variable {α : Type}

/-! ## Runs -/

/-- Why the promise of a run rejects. -/
inductive Rejection where
  /-- `throw lastError` with the initial `lastError`, `undefined`. -/
  | undefined
  /-- An error that a call of `fn` threw. -/
  | thrown (error : JsError)
  /-- The `TypeError` of `retryableStatusCodes.includes` on an `undefined` list. -/
  | typeError
  deriving DecidableEq

/-- What a run of `retryWithExponentialBackoff` does that can be observed. -/
inductive RetryEvent where
  /-- `await fn()`. -/
  | call
  /-- The `console.log` before a sleep, with the values it prints: `attempt + 1`,
  `maxRetries + 1` and `delayMs` (`none` is `undefined`). -/
  | log (attempt : ℕ) (total : JsNumber) (delayMs : Option JsNumber)
  /-- `await sleep(delayMs)`. -/
  | sleep (delayMs : Option JsNumber)
  deriving DecidableEq

/-- The events of a run and how its promise settles. -/
structure RetryRun (α : Type) where
  events : List RetryEvent
  result : Except Rejection α

/-- A run preceded by the events `pre`. -/
def RetryRun.after (pre : List RetryEvent) (run : RetryRun α) : RetryRun α :=
  ⟨pre ++ run.events, run.result⟩

@[simp] theorem RetryRun.after_events (pre : List RetryEvent) (run : RetryRun α) :
    (run.after pre).events = pre ++ run.events := rfl

@[simp] theorem RetryRun.after_result (pre : List RetryEvent) (run : RetryRun α) :
    (run.after pre).result = run.result := rfl

/-- `Math.min(delayMs * backoffMultiplier, maxDelayMs)`, where an `undefined` operand is `NaN`. -/
def RequiredRetryConfig.nextDelay (c : RequiredRetryConfig) (delayMs : Option JsNumber) :
    Option JsNumber :=
  some (((JsNumber.ofOption delayMs).mul (JsNumber.ofOption (c.backoffMultiplier.map .finite))).min
    (JsNumber.ofOption (c.maxDelayMs.map .finite)))

/-- The events of an attempt that fails with a retryable error before the last one. -/
def retryRound (maxRetries : ℚ) (attempt : ℕ) (delayMs : Option JsNumber) : List RetryEvent :=
  [.call, .log (attempt + 1) (roundToDouble (maxRetries + 1)) delayMs, .sleep delayMs]

/-! ## The loop -/

/-- The `for` loop of `retryWithExponentialBackoff` from iteration `attempt`, with the loop
variables `delayMs` and `lastError`. A `break` leaves the loop for `throw lastError`, which
here is the rejection with the error just caught. -/
def retryLoop (fn : ℕ → Except JsError α) (c : RequiredRetryConfig) (maxRetries : ℚ) (attempt : ℕ)
    (delayMs : Option JsNumber) (lastError : Rejection) : RetryRun α :=
  if h : (attempt : ℚ) ≤ maxRetries then
    match fn attempt with
    | .ok value => ⟨[.call], .ok value⟩
    | .error error =>
      if (attempt : ℚ) = maxRetries then ⟨[.call], .error (.thrown error)⟩
      else match isRetryableError error c.retryableStatusCodes with
        | none => ⟨[.call], .error .typeError⟩
        | some false => ⟨[.call], .error (.thrown error)⟩
        | some true =>
          (retryLoop fn c maxRetries (attempt + 1) (c.nextDelay delayMs) (.thrown error)).after
            (retryRound maxRetries attempt delayMs)
  else ⟨[], .error lastError⟩
termination_by ⌊maxRetries⌋₊ + 1 - attempt
decreasing_by have := Nat.le_floor h; omega

/-- `retryWithExponentialBackoff(fn, config)`. With `maxRetries` `undefined` the first test
`attempt <= maxRetries` is false, so the loop body never runs and `undefined` is thrown. -/
def retryWithExponentialBackoff (fn : ℕ → Except JsError α) (config : RetryConfig) :
    RetryRun α :=
  match config.withDefaults.maxRetries with
  | none => ⟨[], .error .undefined⟩
  | some maxRetries =>
    retryLoop fn config.withDefaults maxRetries 0 (config.withDefaults.initialDelayMs.map .finite)
      .undefined

section Steps
variable (fn : ℕ → Except JsError α) (c : RequiredRetryConfig) (q : ℚ) (attempt : ℕ)
  (delayMs : Option JsNumber) (lastError : Rejection)

theorem retryLoop_of_lt (h : q < attempt) :
    retryLoop fn c q attempt delayMs lastError = ⟨[], .error lastError⟩ := by
  rw [retryLoop, dif_neg (not_le.mpr h)]

theorem retryLoop_of_ok {value : α} (h : (attempt : ℚ) ≤ q) (hv : fn attempt = .ok value) :
    retryLoop fn c q attempt delayMs lastError = ⟨[.call], .ok value⟩ := by
  rw [retryLoop, dif_pos h]
  split <;> simp_all

theorem retryLoop_of_last {error : JsError} (h : (attempt : ℚ) = q)
    (he : fn attempt = .error error) :
    retryLoop fn c q attempt delayMs lastError = ⟨[.call], .error (.thrown error)⟩ := by
  rw [retryLoop, dif_pos h.le]
  split <;> simp_all

theorem retryLoop_of_fatal {error : JsError} (h : (attempt : ℚ) ≤ q)
    (he : fn attempt = .error error)
    (hr : isRetryableError error c.retryableStatusCodes = some false) :
    retryLoop fn c q attempt delayMs lastError = ⟨[.call], .error (.thrown error)⟩ := by
  rw [retryLoop, dif_pos h]
  split <;> simp_all

theorem retryLoop_of_typeError {error : JsError} (h : (attempt : ℚ) < q)
    (he : fn attempt = .error error) (hr : isRetryableError error c.retryableStatusCodes = none) :
    retryLoop fn c q attempt delayMs lastError = ⟨[.call], .error .typeError⟩ := by
  rw [retryLoop, dif_pos h.le]
  split <;> simp_all [h.ne]

theorem retryLoop_of_retry {error : JsError} (h : (attempt : ℚ) < q)
    (he : fn attempt = .error error)
    (hr : isRetryableError error c.retryableStatusCodes = some true) :
    retryLoop fn c q attempt delayMs lastError =
      (retryLoop fn c q (attempt + 1) (c.nextDelay delayMs) (.thrown error)).after
        (retryRound q attempt delayMs) := by
  rw [retryLoop, dif_pos h.le]
  split <;> simp_all [h.ne]

end Steps

/-! ## What a run can do -/

/-- Attempt `attempt` fails with a retryable error before the last one, so the loop logs, sleeps
and goes on. -/
def Retried (fn : ℕ → Except JsError α) (c : RequiredRetryConfig) (q : ℚ) (attempt : ℕ) : Prop :=
  (attempt : ℚ) < q ∧
    ∃ error, fn attempt = .error error ∧ isRetryableError error c.retryableStatusCodes = some true

/-- How an attempt that the loop reaches and does not retry settles the promise: with its own
outcome, or, before the last attempt, with the `TypeError` that `isRetryableError` throws on its
error. -/
def Settles (fn : ℕ → Except JsError α) (c : RequiredRetryConfig) (q : ℚ) (attempt : ℕ)
    (result : Except Rejection α) : Prop :=
  result = (fn attempt).mapError .thrown ∨
    ((attempt : ℚ) < q ∧ result = .error .typeError ∧
      ∃ error, fn attempt = .error error ∧ isRetryableError error c.retryableStatusCodes = none)

/-- The events of `m` retried attempts from `attempt`, the first of them sleeping `delayMs`. -/
def retryRounds (c : RequiredRetryConfig) (q : ℚ) : ℕ → Option JsNumber → ℕ → List RetryEvent
  | _, _, 0 => []
  | attempt, delayMs, m + 1 =>
    retryRound q attempt delayMs ++ retryRounds c q (attempt + 1) (c.nextDelay delayMs) m

variable {fn : ℕ → Except JsError α} {c : RequiredRetryConfig} {q : ℚ}

/-- `m` retried attempts in a row: the run is their rounds followed by the loop from the
attempt after them, whose `lastError` is the last one caught (or the one given, if `m = 0`). -/
theorem retryLoop_retried (m : ℕ) : ∀ (attempt : ℕ) (delayMs : Option JsNumber) (lastError : Rejection),
    (∀ i < m, Retried fn c q (attempt + i)) →
    ∃ lastError', ((m = 0 ∧ lastError' = lastError) ∨
        ∃ i < m, ∃ error, fn (attempt + i) = .error error ∧ lastError' = .thrown error) ∧
      retryLoop fn c q attempt delayMs lastError =
        (retryLoop fn c q (attempt + m) (c.nextDelay^[m] delayMs) lastError').after
          (retryRounds c q attempt delayMs m) := by
  induction m with
  | zero =>
    intro attempt delayMs lastError _
    exact ⟨lastError, .inl ⟨rfl, rfl⟩, by simp [retryRounds, RetryRun.after]⟩
  | succ m ih =>
    intro attempt delayMs lastError hr
    obtain ⟨hlt, error, he, hre⟩ := hr 0 (Nat.succ_pos m)
    obtain ⟨l', hl', heq⟩ := ih (attempt + 1) (c.nextDelay delayMs) (.thrown error)
      (fun i hi => by simpa [Nat.add_right_comm, Nat.add_assoc] using hr (i + 1) (by omega))
    refine ⟨l', .inr ?_, ?_⟩
    · rcases hl' with ⟨rfl, rfl⟩ | ⟨i, hi, e, hfe, rfl⟩
      · exact ⟨0, Nat.succ_pos _, error, he, rfl⟩
      · exact ⟨i + 1, by omega, e, by simpa [Nat.add_right_comm, Nat.add_assoc] using hfe, rfl⟩
    · rw [retryLoop_of_retry fn c q attempt delayMs lastError hlt he hre, heq]
      simp [retryRounds, RetryRun.after, Nat.add_right_comm, Nat.add_assoc,
        Function.iterate_succ_apply]

/-- An attempt that is not retried ends the run: either the loop condition already fails,
or `fn` is called once more and the attempt settles the promise. -/
theorem retryLoop_stop {attempt : ℕ} (delayMs : Option JsNumber) (lastError : Rejection)
    (h : ¬ Retried fn c q attempt) :
    (q < attempt ∧ retryLoop fn c q attempt delayMs lastError = ⟨[], .error lastError⟩) ∨
      ((attempt : ℚ) ≤ q ∧ ∃ result, Settles fn c q attempt result ∧
        retryLoop fn c q attempt delayMs lastError = ⟨[.call], result⟩) := by
  rcases lt_or_le q attempt with hq | hq
  · exact .inl ⟨hq, retryLoop_of_lt fn c q attempt delayMs lastError hq⟩
  refine .inr ⟨hq, ?_⟩
  cases hfa : fn attempt with
  | ok value => exact ⟨_, .inl (by simp [hfa, Except.mapError]), retryLoop_of_ok fn c q attempt delayMs lastError hq hfa⟩
  | error error =>
    rcases hq.lt_or_eq with hlt | heq
    · rcases hr : isRetryableError error c.retryableStatusCodes with _ | _ | _
      · exact ⟨_, .inr ⟨hlt, rfl, error, hfa, hr⟩,
          retryLoop_of_typeError fn c q attempt delayMs lastError hlt hfa hr⟩
      · exact ⟨_, .inl (by simp [hfa, Except.mapError]),
          retryLoop_of_fatal fn c q attempt delayMs lastError hq hfa hr⟩
      · exact absurd ⟨hlt, error, hfa, hr⟩ h
    · exact ⟨_, .inl (by simp [hfa, Except.mapError]),
        retryLoop_of_last fn c q attempt delayMs lastError heq hfa⟩

/-- Every run: `m` retried attempts, then the loop condition fails (rejecting with the last
error caught) or one more call settles the promise. -/
theorem retryLoop_run (fn : ℕ → Except JsError α) (c : RequiredRetryConfig) (q : ℚ) (attempt : ℕ)
    (delayMs : Option JsNumber) (lastError : Rejection) :
    ∃ m, (∀ i < m, Retried fn c q (attempt + i)) ∧ ∃ lastError',
      ((m = 0 ∧ lastError' = lastError) ∨
        ∃ i < m, ∃ error, fn (attempt + i) = .error error ∧ lastError' = .thrown error) ∧
      ((q < ↑(attempt + m) ∧
          retryLoop fn c q attempt delayMs lastError =
            ⟨retryRounds c q attempt delayMs m, .error lastError'⟩) ∨
        (↑(attempt + m) ≤ q ∧ ∃ result, Settles fn c q (attempt + m) result ∧
          retryLoop fn c q attempt delayMs lastError =
            ⟨retryRounds c q attempt delayMs m ++ [.call], result⟩)) := by
  classical
  have hex : ∃ m, ¬ Retried fn c q (attempt + m) := ⟨⌊q⌋₊ + 1, fun h => by
    have := h.1
    push_cast at this
    linarith [Nat.lt_floor_add_one q, (Nat.cast_nonneg attempt : (0 : ℚ) ≤ attempt)]⟩
  refine ⟨Nat.find hex, fun i hi => not_not.mp (Nat.find_min hex hi), ?_⟩
  obtain ⟨l', hl', heq⟩ := retryLoop_retried (Nat.find hex) attempt delayMs lastError
    (fun i hi => not_not.mp (Nat.find_min hex hi))
  refine ⟨l', hl', ?_⟩
  rw [heq]
  rcases retryLoop_stop (c.nextDelay^[Nat.find hex] delayMs) l' (Nat.find_spec hex) with
    ⟨hq, hs⟩ | ⟨hq, result, hset, hs⟩
  · exact .inl ⟨hq, by simp [hs, RetryRun.after]⟩
  · exact .inr ⟨hq, result, hset, by simp [hs, RetryRun.after]⟩

end ResonanceAgent.Retry
