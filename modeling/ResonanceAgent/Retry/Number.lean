import Mathlib.Data.Int.Log
import Mathlib.Data.Rat.Floor
import Mathlib.Tactic.NormNum

/-! # JavaScript numbers

The arithmetic that `retryWithExponentialBackoff` does on its delays, with the meaning ECMAScript
gives it (§6.1.6.1):

* `JsNumber`: a finite double, by its value, an infinity, or `NaN`;
* `roundToDouble x`: the Number value for a rational `x`, the double nearest it, on a tie the one
  whose significand is even, and an infinity from `2^1024 - 2^970` on;
* `JsNumber.mul` is `*` and `JsNumber.min` is `Math.min`.

What the delays need of the rounding is proved once here: a whole number up to `2^53` is a double
(`roundToDouble_natCast`), a value from `2^53` on stays there or overflows
(`roundToDouble_of_two_pow_le`), a non-negative value stays non-negative
(`roundToDouble_of_nonneg`), and away from a tie the result is the nearest point of the grid
(`roundToDouble_eq_of_near`).

The two zeros of IEEE 754 are one value here: nothing modelled tells them apart.
-/

namespace ResonanceAgent.Retry
set_option autoImplicit false

/-- A JavaScript number. -/
inductive JsNumber where
  | finite (value : ℚ)
  | infinity
  | negInfinity
  | NaN
  deriving DecidableEq, Repr

/-! ## Rounding -/

/-- A non-negative rational to the nearest whole number, on a tie to the even one. -/
def roundHalfEven (r : ℚ) : ℕ :=
  if r - ⌊r⌋₊ < 1 / 2 then ⌊r⌋₊
  else if 1 / 2 < r - ⌊r⌋₊ then ⌊r⌋₊ + 1
  else if ⌊r⌋₊ % 2 = 0 then ⌊r⌋₊ else ⌊r⌋₊ + 1

/-- The exponent of the last significand bit of the double nearest a magnitude `a > 0`: 52 bits
below its leading bit, and never below `-1074`, the least subnormal. -/
def ulpExponent (a : ℚ) : ℤ := max (Int.log 2 a) (-1022) - 52

/-- The Number value for `x`: the double nearest `x`, on a tie the one whose significand is even;
a magnitude that rounds to `2^1024` or more is an infinity. -/
def roundToDouble (x : ℚ) : JsNumber :=
  if x = 0 then .finite 0 else
  let magnitude : ℚ := roundHalfEven (|x| / 2 ^ ulpExponent |x|) * 2 ^ ulpExponent |x|
  if magnitude < 2 ^ 1024 then .finite (if 0 < x then magnitude else -magnitude)
  else if 0 < x then .infinity else .negInfinity

theorem roundHalfEven_natCast (n : ℕ) : roundHalfEven n = n := by
  simp [roundHalfEven]

theorem floor_le_roundHalfEven (r : ℚ) : ⌊r⌋₊ ≤ roundHalfEven r := by
  unfold roundHalfEven
  split_ifs <;> omega

/-- Less than half away from a whole number, a rational rounds to it. -/
theorem roundHalfEven_eq_of_near {r : ℚ} {n : ℕ} (h : |r - n| < 1 / 2) : roundHalfEven r = n := by
  obtain ⟨h₁, h₂⟩ := abs_lt.mp h
  rcases le_or_lt (n : ℚ) r with hle | hlt
  · have hfloor : ⌊r⌋₊ = n := Nat.floor_eq_iff ((Nat.cast_nonneg n).trans hle) |>.mpr ⟨hle, by linarith⟩
    rw [roundHalfEven, hfloor, if_pos (by linarith)]
  · cases n with
    | zero =>
      have hfloor : ⌊r⌋₊ = 0 := Nat.floor_eq_zero.mpr (by push_cast at hlt; linarith)
      rw [roundHalfEven, hfloor, if_pos (by push_cast at hlt ⊢; linarith)]
    | succ k =>
      push_cast at h₁ hlt
      have hfloor : ⌊r⌋₊ = k :=
        Nat.floor_eq_iff (by linarith [(Nat.cast_nonneg k : (0 : ℚ) ≤ k)]) |>.mpr ⟨by linarith, hlt⟩
      rw [roundHalfEven, hfloor, if_neg (by linarith), if_pos (by linarith)]

theorem two_zpow_pos (e : ℤ) : (0 : ℚ) < 2 ^ e := zpow_pos two_pos e

/-- Where `2^E ≤ a < 2^(E+1)`, the floor of the binary logarithm is `E`. -/
theorem log_two_eq_of_bounds {a : ℚ} {E : ℤ} (h₁ : (2 : ℚ) ^ E ≤ a) (h₂ : a < 2 ^ (E + 1)) :
    Int.log 2 a = E := by
  have ha : 0 < a := (two_zpow_pos E).trans_le h₁
  refine le_antisymm ?_ ((Int.zpow_le_iff_le_log one_lt_two ha).mp (by exact_mod_cast h₁))
  exact Int.lt_add_one_iff.mp ((Int.lt_zpow_iff_log_lt one_lt_two ha).mp (by exact_mod_cast h₂))

/-- A positive rational on the grid of its binade, below `2^1024`, is a double. -/
theorem roundToDouble_of_grid {x : ℚ} (hx : 0 < x) {k : ℕ} (hk : x / 2 ^ ulpExponent x = k)
    (hmax : x < 2 ^ 1024) : roundToDouble x = .finite x := by
  have hmag : (roundHalfEven (x / 2 ^ ulpExponent x) : ℚ) * 2 ^ ulpExponent x = x := by
    rw [hk, roundHalfEven_natCast, ← hk, div_mul_cancel₀ _ (two_zpow_pos _).ne']
  simp only [roundToDouble, hx.ne', abs_of_pos hx, hmag, if_pos hmax, if_pos hx, if_false]

/-- A whole number up to `2^53` is a double. -/
theorem roundToDouble_natCast {n : ℕ} (hn : n ≤ 2 ^ 53) : roundToDouble n = .finite n := by
  rcases Nat.eq_zero_or_pos n with rfl | hpos
  · simp [roundToDouble]
  have hL : Nat.log 2 n ≤ 53 := by
    exact (Nat.log_mono_right hn).trans_eq (Nat.log_pow one_lt_two 53)
  have hexp : ulpExponent n = (Nat.log 2 n : ℤ) - 52 := by
    rw [ulpExponent, Int.log_natCast, max_eq_left (by omega)]
  obtain ⟨k, hk⟩ : ∃ k : ℕ, (n : ℚ) / 2 ^ ulpExponent n = k := by
    rcases Nat.lt_or_ge (Nat.log 2 n) 53 with hlt | hge
    · refine ⟨n * 2 ^ (52 - Nat.log 2 n), ?_⟩
      rw [hexp, show (Nat.log 2 n : ℤ) - 52 = -((52 - Nat.log 2 n : ℕ) : ℤ) by omega, zpow_neg,
        zpow_natCast, div_inv_eq_mul]
      push_cast
      rfl
    · have hn53 : n = 2 ^ 53 := le_antisymm hn
        ((Nat.pow_le_pow_right two_pos hge).trans (Nat.pow_log_le_self 2 hpos.ne'))
      refine ⟨2 ^ 52, ?_⟩
      rw [hexp, hn53, show Nat.log 2 (2 ^ 53) = 53 from Nat.log_pow one_lt_two 53]
      norm_num
  exact roundToDouble_of_grid (Nat.cast_pos.mpr hpos) hk
    ((Nat.cast_le.mpr hn).trans_lt (by norm_num))

/-- From `2^53` on, rounding stays at `2^53` or more, or overflows. -/
theorem roundToDouble_of_two_pow_le {x : ℚ} (hx : 2 ^ 53 ≤ x) :
    roundToDouble x = .infinity ∨ ∃ r, 2 ^ 53 ≤ r ∧ roundToDouble x = .finite r := by
  have hpos : 0 < x := lt_of_lt_of_le (by norm_num) hx
  have hL : 53 ≤ Int.log 2 x :=
    (Int.zpow_le_iff_le_log one_lt_two hpos).mp (by exact_mod_cast hx)
  have hexp : ulpExponent x = Int.log 2 x - 52 := by rw [ulpExponent, max_eq_left (by omega)]
  have hscaled : (2 ^ 52 : ℕ) ≤ x / 2 ^ ulpExponent x := by
    rw [le_div_iff₀ (two_zpow_pos _), hexp, Nat.cast_pow, Nat.cast_ofNat, ← zpow_natCast,
      ← zpow_add₀ two_ne_zero, Nat.cast_ofNat, add_sub_cancel]
    exact_mod_cast Int.zpow_log_le_self one_lt_two hpos
  have hround : (2 ^ 52 : ℕ) ≤ roundHalfEven (x / 2 ^ ulpExponent x) :=
    (Nat.le_floor hscaled).trans (floor_le_roundHalfEven _)
  have hmag : (2 : ℚ) ^ 53 ≤ roundHalfEven (x / 2 ^ ulpExponent x) * 2 ^ ulpExponent x :=
    calc (2 : ℚ) ^ 53 = (2 : ℚ) ^ (53 : ℤ) := (zpow_natCast 2 53).symm
      _ ≤ 2 ^ (Int.log 2 x) := zpow_le_zpow_right₀ one_le_two hL
      _ = (2 ^ 52 : ℕ) * 2 ^ ulpExponent x := by
        rw [hexp, Nat.cast_pow, Nat.cast_ofNat, ← zpow_natCast, ← zpow_add₀ two_ne_zero]
        congr 1
        omega
      _ ≤ roundHalfEven (x / 2 ^ ulpExponent x) * 2 ^ ulpExponent x :=
        mul_le_mul_of_nonneg_right (Nat.cast_le.mpr hround) (two_zpow_pos _).le
  unfold roundToDouble
  simp only [hpos.ne', abs_of_pos hpos, if_pos hpos, if_false]
  split_ifs
  · exact .inr ⟨_, hmag, rfl⟩
  · exact .inl rfl

/-- A non-negative rational rounds to a non-negative double or to `Infinity`. -/
theorem roundToDouble_of_nonneg {x : ℚ} (hx : 0 ≤ x) :
    roundToDouble x = .infinity ∨ ∃ r, 0 ≤ r ∧ roundToDouble x = .finite r := by
  rcases hx.lt_or_eq with hpos | rfl
  · unfold roundToDouble
    simp only [hpos.ne', abs_of_pos hpos, if_pos hpos, if_false]
    split_ifs
    · exact .inr ⟨_, mul_nonneg (Nat.cast_nonneg _) (two_zpow_pos _).le, rfl⟩
    · exact .inl rfl
  · exact .inr ⟨0, le_rfl, if_pos rfl⟩

/-- Away from a tie, a positive rational of the normal range rounds to the nearest point of its
binade's grid. -/
theorem roundToDouble_eq_of_near {x : ℚ} {E : ℤ} (h₁ : (2 : ℚ) ^ E ≤ x) (h₂ : x < 2 ^ (E + 1))
    (hE : -1022 ≤ E) {n : ℕ} (hn : |x / 2 ^ (E - 52) - n| < 1 / 2)
    (hmax : (n : ℚ) * 2 ^ (E - 52) < 2 ^ 1024) :
    roundToDouble x = .finite (n * 2 ^ (E - 52)) := by
  have hpos : 0 < x := (two_zpow_pos E).trans_le h₁
  have hexp : ulpExponent x = E - 52 := by
    rw [ulpExponent, log_two_eq_of_bounds h₁ h₂, max_eq_left hE]
  simp only [roundToDouble, hpos.ne', abs_of_pos hpos, hexp, roundHalfEven_eq_of_near hn, if_pos hmax,
    if_pos hpos, if_false]

/-! ## Operations -/

/-- The sign of a number other than `NaN`: `1`, `-1`, or `0` for a zero. -/
def JsNumber.sign : JsNumber → ℤ
  | .finite x => if 0 < x then 1 else if x < 0 then -1 else 0
  | .infinity => 1
  | .negInfinity => -1
  | .NaN => 0

/-- `a * b`: the product rounded; with an infinity, an infinity of the product's sign, or `NaN`
for zero times an infinity. -/
def JsNumber.mul : JsNumber → JsNumber → JsNumber
  | .finite x, .finite y => roundToDouble (x * y)
  | .NaN, _ => .NaN
  | _, .NaN => .NaN
  | a, b =>
    if a.sign * b.sign = 0 then .NaN else if 0 < a.sign * b.sign then .infinity else .negInfinity

/-- `Math.min(a, b)`: `NaN` if either is, else the smaller. -/
def JsNumber.min : JsNumber → JsNumber → JsNumber
  | .NaN, _ => .NaN
  | _, .NaN => .NaN
  | .negInfinity, _ => .negInfinity
  | _, .negInfinity => .negInfinity
  | .infinity, b => b
  | a, .infinity => a
  | .finite x, .finite y => .finite (Min.min x y)

/-- `ToNumber` of a value that is a number or `undefined` (`none`), which is `NaN`. -/
def JsNumber.ofOption : Option JsNumber → JsNumber
  | some n => n
  | none => .NaN

@[simp] theorem JsNumber.min_finite (x y : ℚ) : (JsNumber.finite x).min (.finite y) = .finite (Min.min x y) :=
  rfl

end ResonanceAgent.Retry
