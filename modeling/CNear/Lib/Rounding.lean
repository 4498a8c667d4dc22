import Mathlib.Data.Int.Log
import Mathlib.Algebra.Order.Round
import Mathlib.Tactic.Linarith
import Mathlib.Tactic.Ring
import Mathlib.Tactic.FieldSimp
import Mathlib.Tactic.Positivity

/-! Rounding to the numbers of so many digits in a base, to the closer one and with ties to
the even last digit. Such a number is recovered from everything that is closer to it,
relative to its size, than half of its last digit. -/

namespace CNear.Rounding
variable {K : Type} [Field K] [LinearOrder K] [IsStrictOrderedRing K] [FloorRing K]

/-- The closest integer, the even one of two. -/
def roundHalfEven (x : K) : Int :=
  if x - ⌊x⌋ < 1 / 2 ∨ (x - ⌊x⌋ = 1 / 2 ∧ ⌊x⌋ % 2 = 0) then ⌊x⌋ else ⌊x⌋ + 1

theorem roundHalfEven_close (x : K) : |(roundHalfEven x : K) - x| ≤ 1 / 2 := by
  have low := Int.floor_le x
  have high := Int.lt_floor_add_one x
  unfold roundHalfEven
  rw [abs_le]
  split_ifs with down
  · have half : x - ⌊x⌋ ≤ 1 / 2 := by
      rcases down with less | ⟨same, -⟩
      · exact less.le
      · exact same.le
    constructor <;> linarith
  · have half : 1 / 2 ≤ x - ⌊x⌋ := by
      by_contra less
      exact down (Or.inl (lt_of_not_ge less))
    push_cast
    constructor <;> linarith

/-- Two integers that are less than one apart are the same. -/
theorem eq_of_close {m n : Int} (close : |(m : K) - n| < 1) : m = n := by
  have whole : |m - n| < 1 := by
    have cast : ((|m - n| : Int) : K) < ((1 : Int) : K) := by
      push_cast
      exact close
    exact_mod_cast cast
  rw [Int.abs_lt_one_iff] at whole
  omega

theorem roundHalfEven_eq_of_close {x : K} {n : Int} (close : |x - n| < 1 / 2) :
    roundHalfEven x = n := by
  apply eq_of_close (K := K)
  calc
    |(roundHalfEven x : K) - n| ≤ |(roundHalfEven x : K) - x| + |x - n| := abs_sub_le _ _ _
    _ < 1 / 2 + 1 / 2 := add_lt_add_of_le_of_lt (roundHalfEven_close x) close
    _ = 1 := add_halves 1

@[simp] theorem roundHalfEven_intCast (n : Int) : roundHalfEven (n : K) = n := by
  apply roundHalfEven_eq_of_close
  rw [sub_self, abs_zero]
  exact half_pos one_pos

theorem roundHalfEven_neg (x : K) : roundHalfEven (-x) = -roundHalfEven x := by
  have low := Int.floor_le x
  have high := Int.lt_floor_add_one x
  rcases lt_trichotomy (x - ⌊x⌋) (1 / 2) with less | tie | more
  · have rounded : roundHalfEven x = ⌊x⌋ := if_pos (Or.inl less)
    apply roundHalfEven_eq_of_close
    rw [rounded, Int.cast_neg, abs_lt]
    constructor <;> linarith
  · have negated : ⌊-x⌋ = -⌊x⌋ - 1 := by
      rw [Int.floor_eq_iff]
      push_cast
      constructor <;> linarith
    have gap : -x - ((-⌊x⌋ - 1 : Int) : K) = 1 / 2 := by
      push_cast
      linarith
    unfold roundHalfEven
    rw [negated, gap, tie]
    simp only [lt_irrefl, true_and, false_or]
    split_ifs <;> omega
  · have rounded : roundHalfEven x = ⌊x⌋ + 1 := by
      apply if_neg
      intro down
      rcases down with less | ⟨same, -⟩
      · exact absurd more less.le.not_gt
      · exact absurd same more.ne'
    apply roundHalfEven_eq_of_close
    rw [rounded, abs_lt]
    push_cast
    constructor <;> linarith

/-- What rounds lies within the integers around it. -/
theorem roundHalfEven_le {x : K} {n : Int} (le : x ≤ n) : roundHalfEven x ≤ n := by
  have close := (abs_le.mp (roundHalfEven_close x)).2
  by_contra more
  have next : ((n + 1 : Int) : K) ≤ roundHalfEven x := Int.cast_le.mpr (by omega)
  push_cast at next
  linarith

theorem le_roundHalfEven {x : K} {n : Int} (le : (n : K) ≤ x) : n ≤ roundHalfEven x := by
  have negated : roundHalfEven (-x) ≤ -n := roundHalfEven_le (by
    push_cast
    linarith)
  rw [roundHalfEven_neg] at negated
  omega

/-! ## The multiples of a unit -/

/-- The multiple of `unit` closest to `x`. -/
def roundTo (unit x : K) : K := roundHalfEven (x / unit) * unit

theorem roundTo_close {unit : K} (positive : 0 < unit) (x : K) :
    |roundTo unit x - x| ≤ unit / 2 := by
  have scaled : roundTo unit x - x = (roundHalfEven (x / unit) - x / unit) * unit := by
    rw [roundTo, sub_mul, div_mul_cancel₀ _ positive.ne']
  calc
    |roundTo unit x - x| = |roundHalfEven (x / unit) - x / unit| * unit := by
      rw [scaled, abs_mul, abs_of_pos positive]
    _ ≤ 1 / 2 * unit := mul_le_mul_of_nonneg_right (roundHalfEven_close _) positive.le
    _ = unit / 2 := by ring

theorem roundTo_neg (unit x : K) : roundTo unit (-x) = -roundTo unit x := by
  unfold roundTo
  rw [neg_div, roundHalfEven_neg]
  push_cast
  ring

/-- Only one multiple of the unit is less than half a unit away. -/
theorem roundTo_eq_of_close {unit x : K} {n : Int} (close : |x - n * unit| < unit / 2) :
    roundTo unit x = n * unit := by
  have positive : 0 < unit := by
    have bound := (abs_nonneg (x - n * unit)).trans_lt close
    linarith
  have whole : roundHalfEven (x / unit) = n := by
    apply roundHalfEven_eq_of_close
    have scaled : x / unit - n = (x - n * unit) / unit := by
      field_simp
    rw [scaled, abs_div, abs_of_pos positive, div_lt_iff₀ positive]
    linarith
  rw [roundTo, whole]

/-- A whole number of units. -/
def Multiple (unit x : K) : Prop := ∃ n : Int, x = n * unit

theorem roundTo_of_multiple {unit x : K} (positive : 0 < unit) (multiple : Multiple unit x) :
    roundTo unit x = x := by
  obtain ⟨n, rfl⟩ := multiple
  apply roundTo_eq_of_close
  rw [sub_self, abs_zero]
  exact half_pos positive

/-- A multiple of a unit below another one is at least a unit below. -/
theorem Multiple.add_unit_le {unit x y : K} (positive : 0 < unit) (left : Multiple unit x)
    (right : Multiple unit y) (less : x < y) : x + unit ≤ y := by
  obtain ⟨m, rfl⟩ := left
  obtain ⟨n, rfl⟩ := right
  have whole : m < n := Int.cast_lt.mp (lt_of_mul_lt_mul_right less positive.le)
  have next : ((m + 1 : Int) : K) ≤ n := Int.cast_le.mpr whole
  push_cast at next
  have scaled := mul_le_mul_of_nonneg_right next positive.le
  linarith

/-! ## A number of digits -/

section Digits
variable {base : Nat} {digits : Nat} {least : Int}

/-- The place of the last of `digits` digits; no place is below `least`. -/
def place (base digits : Nat) (least : Int) (x : K) : Int :=
  max (Int.log base |x| + 1 - digits) least

/-- `x` to `digits` digits. -/
def roundDigits (base digits : Nat) (least : Int) (x : K) : K :=
  roundTo ((base : K) ^ place base digits least x) x

/-- The numbers of at most `digits` digits, none of them below the place `least`. -/
def Representable (base digits : Nat) (least : Int) (x : K) : Prop :=
  ∃ (significand : Int) (exponent : Int), |significand| < (base : Int) ^ digits ∧
    least ≤ exponent ∧ x = significand * (base : K) ^ exponent

omit [IsStrictOrderedRing K] in
theorem place_neg (x : K) : place base digits least (-x) = place base digits least x := by
  rw [place, abs_neg, place]

theorem roundDigits_neg (x : K) : roundDigits base digits least (-x) = -roundDigits base digits least x := by
  rw [roundDigits, place_neg, roundTo_neg, roundDigits]

omit [LinearOrder K] [IsStrictOrderedRing K] [FloorRing K] in
theorem Representable.neg {x : K} (short : Representable base digits least x) :
    Representable base digits least (-x) := by
  obtain ⟨significand, exponent, few, above, rfl⟩ := short
  refine ⟨-significand, exponent, by rwa [abs_neg], above, ?_⟩
  push_cast
  ring

theorem base_pow_pos (wide : 1 < base) (exponent : Int) : 0 < (base : K) ^ exponent := by
  apply zpow_pos
  exact_mod_cast (by omega : 0 < base)

theorem one_lt_base (wide : 1 < base) : (1 : K) < base := by exact_mod_cast wide

/-- A power of the base is a multiple of a lower one. -/
theorem multiple_pow (wide : 1 < base) {low high : Int} (le : low ≤ high) :
    Multiple ((base : K) ^ low) ((base : K) ^ high) := by
  have nonzero : (base : K) ≠ 0 := (zero_lt_one.trans (one_lt_base wide)).ne'
  refine ⟨(base : Int) ^ (high - low).toNat, ?_⟩
  push_cast
  rw [← zpow_natCast, Int.toNat_of_nonneg (by omega), ← zpow_add₀ nonzero]
  congr 1
  omega

omit [LinearOrder K] [IsStrictOrderedRing K] [FloorRing K] in
theorem Multiple.trans {small unit x : K} (fine : Multiple small unit) (multiple : Multiple unit x) :
    Multiple small x := by
  obtain ⟨m, rfl⟩ := fine
  obtain ⟨n, rfl⟩ := multiple
  refine ⟨n * m, ?_⟩
  push_cast
  ring

theorem log_lt_of_representable (wide : 1 < base) {significand exponent : Int}
    (few : |significand| < (base : Int) ^ digits) (nonzero : significand ≠ 0) :
    Int.log base |significand * (base : K) ^ exponent| < digits + exponent := by
  have unit := base_pow_pos (K := K) wide exponent
  have bound : |(significand : K)| < (base : K) ^ digits := by
    have cast : ((|significand| : Int) : K) < (((base : Int) ^ digits : Int) : K) :=
      Int.cast_lt.mpr few
    push_cast at cast
    exact cast
  have positive : 0 < |significand * (base : K) ^ exponent| :=
    abs_pos.mpr (mul_ne_zero (Int.cast_ne_zero.mpr nonzero) unit.ne')
  rw [← Int.lt_zpow_iff_log_lt wide positive]
  rw [abs_mul, abs_of_pos unit, zpow_add₀ (zero_lt_one.trans (one_lt_base wide)).ne',
    zpow_natCast]
  exact mul_lt_mul_of_pos_right bound unit

/-- A number of so many digits is a multiple of its last place. -/
theorem Representable.multiple (wide : 1 < base) {x : K}
    (short : Representable base digits least x) :
    Multiple ((base : K) ^ place base digits least x) x := by
  obtain ⟨significand, exponent, few, above, rfl⟩ := short
  by_cases zero : significand = 0
  · exact ⟨0, by rw [zero, Int.cast_zero, zero_mul, zero_mul]⟩
  · have low : place base digits least (significand * (base : K) ^ exponent) ≤ exponent := by
      have log : Int.log base |(significand : K) * (base : K) ^ exponent| < digits + exponent :=
        log_lt_of_representable wide few zero
      apply max_le _ above
      omega
    exact (multiple_pow wide low).trans ⟨significand, rfl⟩

theorem roundDigits_of_representable (wide : 1 < base) {x : K}
    (short : Representable base digits least x) : roundDigits base digits least x = x := by
  unfold roundDigits
  exact roundTo_of_multiple (base_pow_pos wide _) (short.multiple wide)

/-- A rounded number has the digits, also where rounding has carried into a new one. -/
theorem representable_roundDigits (wide : 1 < base) (positive : 0 < digits) (x : K) :
    Representable base digits least (roundDigits base digits least x) := by
  have unit := base_pow_pos (K := K) wide (place base digits least x)
  have bound : |x / (base : K) ^ place base digits least x| ≤ ((base : Int) ^ digits : Int) := by
    rw [abs_div, abs_of_pos unit, div_le_iff₀ unit]
    have high := (Int.lt_zpow_succ_log_self wide |x|).le
    apply high.trans
    have place_le : Int.log base |x| + 1 ≤ digits + place base digits least x := by
      have le := le_max_left (Int.log base |x| + 1 - digits) least
      rw [place]
      omega
    apply (zpow_le_zpow_right₀ (one_lt_base wide).le place_le).trans_eq
    push_cast
    rw [zpow_add₀ (zero_lt_one.trans (one_lt_base wide)).ne', zpow_natCast]
  obtain ⟨low, high⟩ := abs_le.mp bound
  have above := roundHalfEven_le high
  have below : -((base : Int) ^ digits) ≤ roundHalfEven (x / (base : K) ^ place base digits least x) := by
    apply le_roundHalfEven
    push_cast at low ⊢
    exact low
  unfold roundDigits roundTo
  generalize roundHalfEven (x / (base : K) ^ place base digits least x) = n at above below ⊢
  have least_le : least ≤ place base digits least x := le_max_right _ _
  generalize place base digits least x = at_place at least_le ⊢
  by_cases carried : |n| < (base : Int) ^ digits
  · exact ⟨n, at_place, carried, least_le, rfl⟩
  · have one_lt : (1 : Int) < (base : Int) ^ digits :=
      one_lt_pow₀ (by exact_mod_cast wide) positive.ne'
    have power : ((base : Int) ^ digits : Int) * (base : K) ^ at_place =
        (base : K) ^ (at_place + digits) := by
      rw [zpow_add₀ (zero_lt_one.trans (one_lt_base wide)).ne', zpow_natCast]
      push_cast
      ring
    have edge : n = (base : Int) ^ digits ∨ n = -(base : Int) ^ digits := by
      rcases abs_cases n with ⟨same, -⟩ | ⟨same, -⟩ <;> omega
    rcases edge with rfl | rfl
    · refine ⟨1, at_place + digits, by simpa using one_lt, by omega, ?_⟩
      rw [power, Int.cast_one, one_mul]
    · refine ⟨-1, at_place + digits, by simpa using one_lt, by omega, ?_⟩
      rw [Int.cast_neg, neg_mul, power, Int.cast_neg, Int.cast_one, neg_one_mul]

/-! ## Recovery -/

/-- The bound of the distance, in half units of the place where the log of the number puts its
last digit. -/
theorem close_unit (wide : 1 < base) {gap size : K} {top : Int}
    (close : 2 * (base : K) ^ digits * gap < size) (bound : size ≤ (base : K) ^ top) :
    gap < (base : K) ^ (top - digits) / 2 := by
  have power : (0 : K) < (base : K) ^ digits := by
    rw [← zpow_natCast]
    exact base_pow_pos wide _
  have split : (base : K) ^ top = (base : K) ^ digits * (base : K) ^ (top - digits) := by
    rw [← zpow_natCast, ← zpow_add₀ (zero_lt_one.trans (one_lt_base wide)).ne']
    congr 1
    omega
  have scaled : (base : K) ^ digits * (2 * gap) < (base : K) ^ digits * (base : K) ^ (top - digits) := by
    rw [← split]
    linarith
  have less := lt_of_mul_lt_mul_left scaled power.le
  linarith

section Positive
variable {x y : K}

theorem zpow_log_le (wide : 1 < base) (positive : 0 < x) : (base : K) ^ Int.log base |x| ≤ x := by
  rw [abs_of_pos positive]
  exact Int.zpow_log_le_self wide positive

theorem lt_zpow_log (wide : 1 < base) (positive : 0 < x) :
    x < (base : K) ^ (Int.log base |x| + 1) := by
  rw [abs_of_pos positive]
  exact Int.lt_zpow_succ_log_self wide x

omit [LinearOrder K] [IsStrictOrderedRing K] [FloorRing K] in
theorem multiple_zero (unit : K) : Multiple unit 0 := ⟨0, by rw [Int.cast_zero, zero_mul]⟩

/-- The last place of a number is not above its first. -/
theorem place_le_log (wide : 1 < base) (positive : 0 < x)
    (short : Representable base digits least x) :
    place base digits least x ≤ Int.log base |x| := by
  have unit := base_pow_pos (K := K) wide (place base digits least x)
  have reach := (multiple_zero _).add_unit_le unit (short.multiple wide) positive
  rw [← Int.zpow_le_iff_le_log wide (abs_pos.mpr positive.ne'), abs_of_pos positive]
  rwa [zero_add] at reach

/-- Nothing this close lies past the next power of the base. -/
theorem log_le_of_close (wide : 1 < base) (positive : 0 < x)
    (short : Representable base digits least x) (same_sign : 0 < y)
    (above : y - x < (base : K) ^ place base digits least x / 2) :
    Int.log base |y| ≤ Int.log base |x| := by
  by_contra up
  have unit := base_pow_pos (K := K) wide (place base digits least x)
  have inside := place_le_log wide positive short
  have edge := multiple_pow (K := K) wide (inside.trans (Int.le_add_one le_rfl))
  have gap := (short.multiple wide).add_unit_le unit edge (lt_zpow_log wide positive)
  have reached : (base : K) ^ (Int.log base |x| + 1) ≤ y :=
    (zpow_le_zpow_right₀ (one_lt_base wide).le (by omega)).trans (zpow_log_le wide same_sign)
  linarith

/-- Only a power of the base has numbers of fewer digits this close to it. -/
theorem eq_pow_of_close (wide : 1 < base) (positive : 0 < x)
    (short : Representable base digits least x) (same_sign : 0 < y)
    (below : x - y < (base : K) ^ place base digits least x / 2)
    (down : Int.log base |y| < Int.log base |x|) : x = (base : K) ^ Int.log base |x| := by
  have unit := base_pow_pos (K := K) wide (place base digits least x)
  have edge := multiple_pow (K := K) wide (place_le_log wide positive short)
  have under : y < (base : K) ^ Int.log base |x| :=
    (lt_zpow_log wide same_sign).trans_le (zpow_le_zpow_right₀ (one_lt_base wide).le (by omega))
  apply le_antisymm _ (zpow_log_le wide positive)
  by_contra more
  have gap := edge.add_unit_le unit (short.multiple wide) (lt_of_not_ge more)
  linarith

/-- A number of few digits is what everything closer than half of its last digit rounds to. -/
theorem roundDigits_eq_of_close_pos (wide : 1 < base) (some_digit : 0 < digits) (positive : 0 < x)
    (short : Representable base digits least x)
    (close : 2 * (base : K) ^ digits * |y - x| < x) : roundDigits base digits least y = x := by
  have base_pos : (0 : K) < base := zero_lt_one.trans (one_lt_base wide)
  have at_place : (base : K) ^ (Int.log base |x| + 1 - digits) ≤
      (base : K) ^ place base digits least x :=
    zpow_le_zpow_right₀ (one_lt_base wide).le (le_max_left _ _)
  have half : |y - x| < (base : K) ^ place base digits least x / 2 := by
    have gap := close_unit wide close (lt_zpow_log wide positive).le
    linarith
  obtain ⟨below, above⟩ := abs_lt.mp half
  have one_lt : (2 : K) ≤ (base : K) ^ digits := by
    have whole : 2 ≤ base ^ digits := Nat.one_lt_pow some_digit.ne' wide
    exact_mod_cast whole
  have quarter : 4 * |y - x| < x := by
    have grow := mul_le_mul_of_nonneg_right one_lt (abs_nonneg (y - x))
    linarith
  have near_below := neg_abs_le (y - x)
  have same_sign : 0 < y := by linarith
  rcases (log_le_of_close wide positive short same_sign above).lt_or_eq with down | level
  · have power := eq_pow_of_close wide positive short same_sign (by linarith) down
    have log : Int.log base |y| = Int.log base |x| - 1 := by
      apply le_antisymm (by omega)
      rw [← Int.zpow_le_iff_le_log wide (abs_pos.mpr same_sign.ne'), abs_of_pos same_sign,
        zpow_sub_one₀ base_pos.ne', ← power, ← div_eq_mul_inv, div_le_iff₀ base_pos]
      have two : (2 : K) ≤ base := by exact_mod_cast wide
      have grow := mul_le_mul_of_nonneg_left two same_sign.le
      linarith
    have lower : (base : K) ^ (Int.log base |x| - digits) ≤ (base : K) ^ place base digits least y := by
      apply zpow_le_zpow_right₀ (one_lt_base wide).le
      apply le_trans _ (le_max_left _ _)
      omega
    have fine : place base digits least y ≤ Int.log base |x| := by
      have inside := place_le_log wide positive short
      have descend : place base digits least y ≤ place base digits least x := by
        apply max_le_max_right
        omega
      exact descend.trans inside
    obtain ⟨n, shape⟩ := multiple_pow (K := K) wide fine
    rw [← power] at shape
    have gap := close_unit wide close power.le
    unfold roundDigits
    conv_rhs => rw [shape]
    apply roundTo_eq_of_close
    rw [← shape]
    linarith
  · obtain ⟨n, shape⟩ := short.multiple wide
    have same : place base digits least y = place base digits least x := by
      unfold place
      rw [level]
    unfold roundDigits
    rw [same]
    conv_rhs => rw [shape]
    apply roundTo_eq_of_close
    rw [← shape]
    exact half

end Positive

/-- A number of few digits is recovered from what is close to it. -/
theorem roundDigits_eq_of_close (wide : 1 < base) (some_digit : 0 < digits) {x y : K} (nonzero : x ≠ 0)
    (short : Representable base digits least x)
    (close : 2 * (base : K) ^ digits * |y - x| < |x|) : roundDigits base digits least y = x := by
  rcases lt_or_gt_of_ne nonzero with negative | positive
  · have mirrored : roundDigits base digits least (-y) = -x := by
      apply roundDigits_eq_of_close_pos wide some_digit (neg_pos.mpr negative) short.neg
      rw [← neg_sub', abs_neg, ← abs_of_neg negative]
      exact close
    rw [roundDigits_neg] at mirrored
    exact neg_injective mirrored
  · rw [abs_of_pos positive] at close
    exact roundDigits_eq_of_close_pos wide some_digit positive short close

/-- Rounding to the digits, with no least place in the way, moves a number by at most half of
its last digit. -/
theorem roundDigits_close (wide : 1 < base) {x : K} (nonzero : x ≠ 0)
    (free : least ≤ Int.log base |x| + 1 - digits) :
    2 * (base : K) ^ digits * |roundDigits base digits least x - x| ≤ base * |x| := by
  have base_pos : (0 : K) < base := zero_lt_one.trans (one_lt_base wide)
  have at_place : place base digits least x = Int.log base |x| + 1 - digits := max_eq_left free
  have close := roundTo_close (base_pow_pos (K := K) wide (place base digits least x)) x
  rw [← roundDigits] at close
  have split : (base : K) ^ digits * (base : K) ^ place base digits least x =
      base * (base : K) ^ Int.log base |x| := by
    rw [at_place, ← zpow_natCast, ← zpow_add₀ base_pos.ne', ← zpow_one_add₀ base_pos.ne']
    congr 1
    omega
  have power : (0 : K) < (base : K) ^ digits := pow_pos base_pos _
  calc
    2 * (base : K) ^ digits * |roundDigits base digits least x - x|
      ≤ 2 * (base : K) ^ digits * ((base : K) ^ place base digits least x / 2) :=
        mul_le_mul_of_nonneg_left close (by positivity)
    _ = base * (base : K) ^ Int.log base |x| := by rw [← split]; ring
    _ ≤ base * |x| :=
        mul_le_mul_of_nonneg_left (Int.zpow_log_le_self wide (abs_pos.mpr nonzero)) base_pos.le

end Digits
end CNear.Rounding
