import Mathlib.Algebra.Order.Field.Rat
import Mathlib.Algebra.Order.GroupWithZero.Unbundled
import Mathlib.Algebra.Order.Ring.Unbundled.Basic
import Mathlib.Algebra.BigOperators.Group.List
import Mathlib.Tactic.Linarith
import ResonanceAgent.Retry.Backoff

/-! # When `fn` is called and how long the loop sleeps

What the rounds of a run consist of, read off as counts and lists, and the delays they sleep:

* the `j`-th sleep of a run is given `backoffDelay c j`, the `delayMs` of iteration `j`:
  `initialDelayMs` as configured, then `Math.min(delayMs * backoffMultiplier, maxDelayMs)`
  with the product rounded to a double;
* with non-negative numbers configured, every delay after the first is a finite number between
  `0` and `maxDelayMs` (`backoffDelay_succ_of_nonneg`);
* with whole numbers configured and `maxDelayMs ≤ 2^53`, no product is ever rounded: the delays
  are those of the same recurrence on whole numbers (`backoffDelay_natDelay`), in closed form
  `min(initialDelayMs * m^(j+1), maxDelayMs * min(1, m^j))` (`natDelay_succ_eq`).
-/

namespace ResonanceAgent.Retry
set_option autoImplicit false

/-! ## Reading a run -/

/-- The number of calls of `fn` in a run. -/
def callCount (events : List RetryEvent) : ℕ := events.count .call

/-- What the sleeps of a run are given, in order. -/
def sleeps : List RetryEvent → List (Option JsNumber)
  | [] => []
  | .sleep delayMs :: events => delayMs :: sleeps events
  | _ :: events => sleeps events

/-- What the sleeps before the `n`-th call of `fn` (counting from `0`) are given. -/
def sleepsBeforeCall : List RetryEvent → ℕ → List (Option JsNumber)
  | [], _ => []
  | .call :: _, 0 => []
  | .call :: events, n + 1 => sleepsBeforeCall events n
  | .sleep delayMs :: events, n => delayMs :: sleepsBeforeCall events n
  | .log .. :: events, n => sleepsBeforeCall events n

/-- The `delayMs` of iteration `j`: `initialDelayMs`, then `nextDelay` after each retry. -/
def backoffDelay (c : RequiredRetryConfig) (j : ℕ) : Option JsNumber :=
  c.nextDelay^[j] (c.initialDelayMs.map .finite)

@[simp] theorem sleeps_append (l₁ l₂ : List RetryEvent) :
    sleeps (l₁ ++ l₂) = sleeps l₁ ++ sleeps l₂ := by
  induction l₁ with
  | nil => rfl
  | cons e l₁ ih => cases e <;> simp [sleeps, ih]

@[simp] theorem callCount_append (l₁ l₂ : List RetryEvent) :
    callCount (l₁ ++ l₂) = callCount l₁ + callCount l₂ := List.count_append _ _ _

@[simp] theorem callCount_singleton_call : callCount [.call] = 1 := rfl

variable (c : RequiredRetryConfig) (q : ℚ)

theorem callCount_retryRounds (m : ℕ) :
    ∀ attempt delayMs, callCount (retryRounds c q attempt delayMs m) = m := by
  induction m with
  | zero => intro _ _; rfl
  | succ m ih =>
    intro attempt delayMs
    rw [retryRounds, callCount_append, ih, Nat.add_comm]
    simp [callCount, retryRound, List.count_cons]

theorem sleeps_retryRounds (m : ℕ) : ∀ attempt delayMs,
    sleeps (retryRounds c q attempt delayMs m) = (List.range m).map (c.nextDelay^[·] delayMs) := by
  induction m with
  | zero => intro _ _; rfl
  | succ m ih =>
    intro attempt delayMs
    rw [retryRounds, sleeps_append, ih, List.range_succ_eq_map, List.map_cons, List.map_map]
    rfl

/-- A round ends with its sleep, so rounds end with a sleep. -/
theorem getLast?_retryRounds (m : ℕ) : ∀ attempt delayMs,
    ∃ d, (retryRounds c q attempt delayMs (m + 1)).getLast? = some (.sleep d) := by
  induction m with
  | zero => intro attempt delayMs; exact ⟨delayMs, rfl⟩
  | succ m ih =>
    intro attempt delayMs
    obtain ⟨d, hd⟩ := ih (attempt + 1) (c.nextDelay delayMs)
    exact ⟨d, by rw [retryRounds, List.getLast?_append, hd, Option.or_some]⟩

/-- Before the `n`-th call, for `n` up to the number of rounds, a run has slept the first `n`
delays, whatever follows the rounds (nothing, or a call). -/
theorem sleepsBeforeCall_retryRounds (tail : List RetryEvent) (htail : tail.head? ≠ some .call → tail = [])
    (m : ℕ) : ∀ attempt delayMs n, n ≤ m →
    sleepsBeforeCall (retryRounds c q attempt delayMs m ++ tail) n =
      (List.range n).map (c.nextDelay^[·] delayMs) := by
  induction m with
  | zero =>
    intro attempt delayMs n hn
    obtain rfl : n = 0 := by omega
    by_cases h : tail.head? = some .call
    · obtain ⟨rest, rfl⟩ := List.head?_eq_some_iff.mp h
      simp [retryRounds, sleepsBeforeCall]
    · simp [retryRounds, htail h, sleepsBeforeCall]
  | succ m ih =>
    intro attempt delayMs n hn
    cases n with
    | zero => simp [retryRounds, retryRound, sleepsBeforeCall]
    | succ n =>
      rw [List.range_succ_eq_map, List.map_cons, List.map_map]
      show delayMs :: sleepsBeforeCall (retryRounds c q (attempt + 1) (c.nextDelay delayMs) m ++ tail) n = _
      rw [ih (attempt + 1) (c.nextDelay delayMs) n (by omega)]
      rfl

/-! ## The delays -/

@[simp] theorem backoffDelay_zero : backoffDelay c 0 = c.initialDelayMs.map .finite := rfl

theorem backoffDelay_succ (j : ℕ) : backoffDelay c (j + 1) = c.nextDelay (backoffDelay c j) :=
  Function.iterate_succ_apply' _ _ _

/-- With a multiplier and a cap configured, a step from a finite delay rounds the product and
caps it. -/
theorem nextDelay_finite {b M : ℚ} (hb : c.backoffMultiplier = some b) (hM : c.maxDelayMs = some M)
    (d : ℚ) : c.nextDelay (some (.finite d)) = some ((roundToDouble (d * b)).min (.finite M)) := by
  rw [RequiredRetryConfig.nextDelay, hb, hM]
  rfl

section Nonneg
variable {c} {a b M : ℚ} (ha : c.initialDelayMs = some a) (hb : c.backoffMultiplier = some b)
  (hM : c.maxDelayMs = some M) (ha0 : 0 ≤ a) (hb0 : 0 ≤ b) (hM0 : 0 ≤ M)
include hb hM hb0 hM0

/-- One step from a non-negative finite delay: the product is non-negative or `Infinity`, and
`Math.min` brings it between `0` and the cap. -/
theorem nextDelay_of_nonneg {d : ℚ} (hd : 0 ≤ d) :
    ∃ d', c.nextDelay (some (.finite d)) = some (.finite d') ∧ 0 ≤ d' ∧ d' ≤ M := by
  rw [nextDelay_finite c hb hM]
  rcases roundToDouble_of_nonneg (mul_nonneg hd hb0) with h | ⟨r, hr, h⟩ <;> rw [h]
  · exact ⟨M, rfl, hM0, le_rfl⟩
  · exact ⟨min r M, rfl, le_min hr hM0, min_le_right _ _⟩

include ha ha0

/-- With non-negative numbers configured, every delay after the first is a finite number
between `0` and `maxDelayMs`. -/
theorem backoffDelay_succ_of_nonneg (j : ℕ) :
    ∃ d, backoffDelay c (j + 1) = some (.finite d) ∧ 0 ≤ d ∧ d ≤ M := by
  induction j with
  | zero =>
    rw [backoffDelay_succ, backoffDelay_zero, ha]
    exact nextDelay_of_nonneg hb hM hb0 hM0 ha0
  | succ j ih =>
    obtain ⟨d, hd, hd0, -⟩ := ih
    rw [backoffDelay_succ, hd]
    exact nextDelay_of_nonneg hb hM hb0 hM0 hd0

/-- The first `m` delays are finite and add up to at most `initialDelayMs` and one `maxDelayMs`
per later one. -/
theorem sum_backoffDelay_le (m : ℕ) : ∃ ds : List ℚ,
    (List.range m).map (backoffDelay c) = ds.map (fun d => some (.finite d)) ∧
      ds.sum ≤ a + ((m - 1 : ℕ) : ℚ) * M := by
  induction m with
  | zero => exact ⟨[], rfl, by simpa using ha0⟩
  | succ m ih =>
    cases m with
    | zero => exact ⟨[a], by rw [show List.range 1 = [0] from rfl]; simp [ha], by simp⟩
    | succ k =>
      obtain ⟨ds, hds, hsum⟩ := ih
      rw [List.range_succ, List.map_append, hds, List.map_singleton]
      obtain ⟨d, hd, -, hdM⟩ := backoffDelay_succ_of_nonneg ha hb hM ha0 hb0 hM0 k
      refine ⟨ds ++ [d], by simp [hd], ?_⟩
      simp only [List.sum_append, List.sum_singleton, Nat.add_sub_cancel, Nat.cast_add, Nat.cast_one] at hsum ⊢
      linarith

end Nonneg

/-! ## Whole numbers -/

/-- The backoff on whole numbers, without rounding. -/
def natDelay (a b M : ℕ) : ℕ → ℕ
  | 0 => a
  | j + 1 => min (natDelay a b M j * b) M

section Whole
variable {c} {a b M : ℕ} (ha : c.initialDelayMs = some (a : ℚ)) (hb : c.backoffMultiplier = some (b : ℚ))
  (hM : c.maxDelayMs = some (M : ℚ)) (hM53 : M ≤ 2 ^ 53)
include hb hM hM53

/-- One step from a whole-number delay: a product up to `2^53` is a double, and a larger one is
rounded to `2^53` or more, or overflows, and then capped by `maxDelayMs ≤ 2^53` all the same. -/
theorem nextDelay_natCast (n : ℕ) :
    c.nextDelay (some (.finite n)) = some (.finite (min (n * b) M : ℕ)) := by
  have hcast : (n : ℚ) * b = ((n * b : ℕ) : ℚ) := (Nat.cast_mul n b).symm
  rw [nextDelay_finite c hb hM, hcast]
  rcases le_or_lt (n * b) (2 ^ 53) with hle | hgt
  · rw [roundToDouble_natCast hle, JsNumber.min_finite, Nat.cast_min]
  · have hcap : min (n * b) M = M := min_eq_right (hM53.trans hgt.le)
    rw [hcap]
    have hbig : (2 : ℚ) ^ 53 ≤ ((n * b : ℕ) : ℚ) := by exact_mod_cast hgt.le
    rcases roundToDouble_of_two_pow_le hbig with h | ⟨r, hr, h⟩ <;> rw [h]
    · rfl
    · rw [JsNumber.min_finite, min_eq_right ((Nat.cast_le.mpr hM53).trans (by exact_mod_cast hr))]

include ha

/-- With whole numbers configured and `maxDelayMs ≤ 2^53`, the delays are those of `natDelay`. -/
theorem backoffDelay_natDelay (j : ℕ) : backoffDelay c j = some (.finite (natDelay a b M j)) := by
  induction j with
  | zero => simp [ha, natDelay]
  | succ j ih => rw [backoffDelay_succ, ih, nextDelay_natCast hb hM hM53]; rfl

end Whole

private theorem min_min_pow_one {m : ℚ} (hm : 0 ≤ m) (j : ℕ) :
    min (min m (m ^ (j + 1))) 1 = min 1 (m ^ (j + 1)) := by
  rcases le_total m 1 with h | h
  · have h1 : m ^ (j + 1) ≤ m := pow_le_of_le_one hm h (Nat.succ_ne_zero j)
    rw [min_eq_right h1, min_eq_left (h1.trans h), min_eq_right (h1.trans h)]
  · have h1 : m ≤ m ^ (j + 1) := le_self_pow₀ h (Nat.succ_ne_zero j)
    rw [min_eq_left h1, min_eq_right h, min_eq_left (h.trans h1)]

/-- The whole-number delays in closed form: the cap enters once per retry, so with a multiplier of
zero it drops out with the delay. -/
theorem natDelay_succ_eq (a b M j : ℕ) :
    (natDelay a b M (j + 1) : ℚ) = min ((a : ℚ) * b ^ (j + 1)) (M * min 1 ((b : ℚ) ^ j)) := by
  have hM : (0 : ℚ) ≤ M := Nat.cast_nonneg M
  have hm : (0 : ℚ) ≤ b := Nat.cast_nonneg b
  induction j with
  | zero => simp [natDelay]
  | succ j ih =>
    rw [natDelay, Nat.cast_min, Nat.cast_mul, ih, min_mul_of_nonneg _ _ hm, min_assoc]
    congr 1
    · ring
    · calc min ((M : ℚ) * min 1 ((b : ℚ) ^ j) * b) M
          = M * min (min 1 ((b : ℚ) ^ j) * b) 1 := by
            rw [mul_assoc, mul_min_of_nonneg _ _ hM, mul_one]
        _ = M * min 1 ((b : ℚ) ^ (j + 1)) := by
            rw [min_mul_of_nonneg _ _ hm, one_mul, ← pow_succ, min_min_pow_one hm]

end ResonanceAgent.Retry
