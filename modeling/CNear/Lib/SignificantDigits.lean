import Mathlib.Algebra.Order.Ring.Nat
import Mathlib.Data.Nat.Log

/-! Rounding natural numbers to so many digits of a base, with ties to the even last digit:
a significand in base 2, and the printed digits in base 10. -/

namespace CNear.SignificantDigits

/-- The multiple of `unit` closest to `n`, the even one of two. -/
def roundTo (unit n : Nat) : Nat :=
  if 2 * (n % unit) < unit ∨ (2 * (n % unit) = unit ∧ n / unit % 2 = 0) then n / unit * unit
  else (n / unit + 1) * unit

theorem dvd_roundTo (unit n : Nat) : unit ∣ roundTo unit n := by
  unfold roundTo
  split <;> exact Nat.dvd_mul_left _ _

/-- A rounded number is at most half a unit away. -/
theorem roundTo_close {unit : Nat} (positive : 0 < unit) (n : Nat) :
    2 * roundTo unit n ≤ 2 * n + unit ∧ 2 * n ≤ 2 * roundTo unit n + unit := by
  have parts : n / unit * unit + n % unit = n := by
    rw [Nat.mul_comm]
    exact Nat.div_add_mod n unit
  have next : (n / unit + 1) * unit = n / unit * unit + unit := Nat.add_one_mul _ _
  have below := Nat.mod_lt n positive
  unfold roundTo
  split <;> omega

theorem roundTo_of_dvd {unit n : Nat} (exact : unit ∣ n) : roundTo unit n = n := by
  have rest := Nat.mod_eq_zero_of_dvd exact
  rcases Nat.eq_zero_or_pos unit with rfl | positive
  · rw [Nat.zero_dvd.mp exact]
    rfl
  · rw [roundTo, rest, if_pos (Or.inl positive), Nat.div_mul_cancel exact]

/-- A multiple of the unit below another one is at least a unit below. -/
theorem add_unit_le {unit n m : Nat} (left : unit ∣ n) (right : unit ∣ m) (less : n < m) :
    n + unit ≤ m := by
  obtain ⟨i, rfl⟩ := left
  obtain ⟨j, rfl⟩ := right
  rw [← Nat.mul_add_one]
  exact Nat.mul_le_mul_left unit (Nat.lt_of_mul_lt_mul_left less)

/-- Only one multiple of the unit is less than half a unit away. -/
theorem roundTo_eq_of_close {unit n m : Nat} (multiple : unit ∣ m) (above : 2 * m < 2 * n + unit)
    (below : 2 * n < 2 * m + unit) : roundTo unit n = m := by
  obtain ⟨upper, lower⟩ := roundTo_close (show 0 < unit by omega) n
  rcases Nat.lt_trichotomy (roundTo unit n) m with less | same | more
  · have next := add_unit_le (dvd_roundTo unit n) multiple less
    omega
  · exact same
  · have next := add_unit_le multiple (dvd_roundTo unit n) more
    omega

/-- Rounding does not pass a multiple of the unit. -/
theorem roundTo_le {unit n m : Nat} (positive : 0 < unit) (multiple : unit ∣ m) (le : n ≤ m) :
    roundTo unit n ≤ m := by
  obtain ⟨upper, -⟩ := roundTo_close positive n
  by_contra more
  have next := add_unit_le multiple (dvd_roundTo unit n) (Nat.lt_of_not_le more)
  omega

/-- `n` to `digits` digits. -/
def significant (base digits n : Nat) : Nat := roundTo (base ^ (Nat.log base n + 1 - digits)) n

/-- A number of no more digits stays. -/
theorem significant_of_lt {base digits n : Nat} (short : n < base ^ digits) :
    significant base digits n = n := by
  apply roundTo_of_dvd
  rcases Nat.eq_zero_or_pos n with rfl | positive
  · exact Nat.dvd_zero _
  · have count := Nat.log_lt_of_lt_pow positive.ne' short
    rw [Nat.sub_eq_zero_of_le count, pow_zero]
    exact one_dvd n

/-- A longer number ends in a zero. -/
theorem base_dvd_significant {base digits n : Nat} (wide : 1 < base) (long : base ^ digits ≤ n) :
    base ∣ significant base digits n := by
  have count := Nat.le_log_of_pow_le wide long
  have unit : base ∣ base ^ (Nat.log base n + 1 - digits) := dvd_pow_self base (by omega)
  exact unit.trans (dvd_roundTo _ n)

theorem significant_at {base digits n top place : Nat} (low : base ^ top ≤ n)
    (high : n < base ^ (top + 1)) (count : top + 1 = place + digits) :
    significant base digits n = roundTo (base ^ place) n := by
  have log : Nat.log base n = top := Nat.log_eq_of_pow_le_of_lt_pow low high
  rw [significant, log, count, Nat.add_sub_cancel]

theorem significant_eq {base digits n places : Nat} (low : base ^ (digits + places) ≤ n)
    (high : n < base ^ (digits + places + 1)) :
    significant base digits n = roundTo (base ^ (places + 1)) n :=
  significant_at low high (by omega)

section Bases
variable {base digits n : Nat}

/-- The place of the last digit of a long number. -/
theorem exists_place (wide : 1 < base) (long : base ^ digits ≤ n) :
    ∃ place, 0 < place ∧ Nat.log base n + 1 = place + digits ∧
      significant base digits n = roundTo (base ^ place) n := by
  have count := Nat.le_log_of_pow_le wide long
  exact ⟨Nat.log base n + 1 - digits, by omega, by omega, rfl⟩

/-- What has been rounded stays, also where rounding has carried into a new digit. -/
theorem significant_idem (wide : 1 < base) (positive : 0 < digits) (n : Nat) :
    significant base digits (significant base digits n) = significant base digits n := by
  have full : base ^ (Nat.log base n + 1 - digits) ∣ base ^ (Nat.log base n + 1) :=
    pow_dvd_pow base (Nat.sub_le _ _)
  have above : significant base digits n ≤ base ^ (Nat.log base n + 1) :=
    roundTo_le (Nat.pow_pos (by omega)) full (Nat.lt_pow_succ_log_self wide n).le
  have grid : base ^ (Nat.log base n + 1 - digits) ∣ significant base digits n := dvd_roundTo _ n
  generalize significant base digits n = x at above grid
  apply roundTo_of_dvd
  rcases Nat.lt_or_eq_of_le above with less | carried
  · have count : Nat.log base x ≤ Nat.log base n :=
      Nat.le_of_lt_succ (Nat.log_lt_of_lt_pow' (by omega) less)
    exact (pow_dvd_pow base (by omega)).trans grid
  · rw [carried, Nat.log_pow wide]
    exact pow_dvd_pow base (by omega)

/-- The numbers of so many digits, up to zeros behind them. -/
theorem significant_eq_self_iff (wide : 1 < base) (n : Nat) :
    significant base digits n = n ↔ ∃ m e, m < base ^ digits ∧ n = m * base ^ e := by
  constructor
  · intro kept
    rcases Nat.lt_or_ge n (base ^ digits) with short | long
    · exact ⟨n, 0, short, by rw [pow_zero, Nat.mul_one]⟩
    · obtain ⟨place, -, count, rounds⟩ := exists_place wide long
      obtain ⟨m, shape⟩ : base ^ place ∣ n := by
        rw [← kept, rounds]
        exact dvd_roundTo _ n
      refine ⟨m, place, ?_, by rw [shape, Nat.mul_comm]⟩
      have high : n < base ^ (Nat.log base n + 1) := Nat.lt_pow_succ_log_self wide n
      rw [count, pow_add] at high
      conv at high => lhs; rw [shape]
      exact Nat.lt_of_mul_lt_mul_left high
  · intro spelled
    obtain ⟨m, e, few, rfl⟩ := spelled
    apply roundTo_of_dvd
    rcases Nat.eq_zero_or_pos m with rfl | some_digit
    · rw [Nat.zero_mul]
      exact Nat.dvd_zero _
    · have unit_pos : 0 < base ^ e := Nat.pow_pos (by omega)
      have high : m * base ^ e < base ^ (digits + e) := by
        rw [pow_add]
        exact Nat.mul_lt_mul_of_pos_right few unit_pos
      have count := Nat.log_lt_of_lt_pow (Nat.mul_pos some_digit unit_pos).ne' high
      exact (pow_dvd_pow base (by omega)).trans (Nat.dvd_mul_left _ _)

/-- Enough digits of another base recover a number of so many digits: the grid of the other
base is the finer one. -/
theorem significant_recovers {other places : Nat} (wide : 1 < base) (otherWide : 1 < other)
    (positive : 0 < digits) (finer : base ^ digits < other ^ places)
    (short : significant base digits n = n) :
    significant base digits (significant other (places + 1) n) = n := by
  rcases Nat.lt_or_ge n (base ^ digits) with small | large
  · have kept : significant other (places + 1) n = n := by
      apply significant_of_lt
      calc
        n < base ^ digits := small
        _ < other ^ places := finer
        _ ≤ other ^ (places + 1) := Nat.pow_le_pow_right (by omega) (Nat.le_succ _)
    rw [kept, short]
  rcases Nat.lt_or_ge n (other ^ (places + 1)) with few | many
  · rw [significant_of_lt few, short]
  obtain ⟨place, placePos, count, rounds⟩ := exists_place wide large
  obtain ⟨gap, -, otherCount, printed⟩ := exists_place otherWide many
  have nonzero : n ≠ 0 := by
    have base_pos : 0 < base ^ digits := Nat.pow_pos (by omega)
    omega
  have low := Nat.pow_log_le_self base nonzero
  have high : n < base ^ (Nat.log base n + 1) := Nat.lt_pow_succ_log_self wide n
  generalize Nat.log base n = top at count low high
  have grid : base ^ place ∣ n := by
    rw [← short, rounds]
    exact dvd_roundTo _ n
  -- The unit of the other base, with all its digits, is below the number.
  have otherLow : other ^ gap * other ^ places ≤ n := by
    rw [← pow_add, show gap + places = Nat.log other n by omega]
    exact Nat.pow_log_le_self other nonzero
  obtain ⟨upper, lower⟩ := roundTo_close (show 0 < other ^ gap from Nat.pow_pos (by omega)) n
  rw [printed]
  generalize roundTo (other ^ gap) n = f at upper lower
  have narrow : other ^ gap < base ^ place := by
    apply Nat.lt_of_mul_lt_mul_right (a := other ^ places)
    calc
      other ^ gap * other ^ places ≤ n := otherLow
      _ < base ^ place * base ^ digits := by rwa [← pow_add, ← count]
      _ ≤ base ^ place * other ^ places := Nat.mul_le_mul_left _ finer.le
  rcases Nat.lt_or_ge f (base ^ top) with under | same
  · -- Only a power of the base has numbers of fewer digits so close to it.
    have gridTop : base ^ place ∣ base ^ top := pow_dvd_pow base (by omega)
    have power : n = base ^ top := by
      apply Nat.le_antisymm _ low
      by_contra more
      have next := add_unit_le gridTop grid (Nat.lt_of_not_le more)
      omega
    obtain ⟨less, rfl⟩ : ∃ less, place = less + 1 := ⟨place - 1, by omega⟩
    obtain ⟨below, rfl⟩ : ∃ below, top = below + 1 := ⟨top - 1, by omega⟩
    have narrower : other ^ gap < base ^ less := by
      apply Nat.lt_of_mul_lt_mul_right (a := other ^ places)
      calc
        other ^ gap * other ^ places ≤ n := otherLow
        _ = base ^ less * base ^ digits := by
          rw [power, ← pow_add]
          congr 1
          omega
        _ < base ^ less * other ^ places := Nat.mul_lt_mul_of_pos_left finer (Nat.pow_pos (by omega))
    have half : 2 * base ^ below ≤ base ^ (below + 1) := by
      rw [pow_succ, Nat.mul_comm]
      exact Nat.mul_le_mul_left _ wide
    have small : base ^ less ≤ base ^ below := Nat.pow_le_pow_right (by omega) (by omega)
    rw [significant_at (show base ^ below ≤ f by omega) under (by omega : below + 1 = less + digits)]
    exact roundTo_eq_of_close ((pow_dvd_pow base (by omega)).trans grid) (by omega) (by omega)
  · have gridNext : base ^ place ∣ base ^ (top + 1) := pow_dvd_pow base (by omega)
    have next := add_unit_le grid gridNext high
    rw [significant_at same (by omega) count]
    exact roundTo_eq_of_close grid (by omega) (by omega)

end Bases
end CNear.SignificantDigits
