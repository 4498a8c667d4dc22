import CNear.NumberFormat

/-! What a `double` comes to when it is printed and parsed. Whole numbers of an `int` and
numbers printed with 17 digits come back as they were; with 15 digits they come back as what
`compare_double` takes for the same, or as an infinity. Whatever comes back prints as before. -/

namespace CNear.NumberText
open CJson CallResult Rounding

/-- What the printed number is read as. -/
def reread (value : ℚ) : Double := toDouble (numberDecimal value).value

/-! ## Close numbers -/

section Close
variable {precision : Nat} {value : ℚ}

/-- The digits of a `double` do not meet the least place. -/
theorem toPrecision_eq {least : Int} (free : least ≤ Int.log 10 |value| + 1 - precision) :
    roundDigits 10 precision least value = toPrecision precision value := by
  rw [toPrecision, roundDigits, roundDigits, place, place, max_self, max_eq_left free]

theorem toPrecision_close (nonzero : value ≠ 0) :
    2 * 10 ^ precision * |toPrecision precision value - value| ≤ 10 * |value| := by
  have close : 2 * ((10 : Nat) : ℚ) ^ precision * |toPrecision precision value - value| ≤
      (10 : Nat) * |value| := roundDigits_close (by decide) nonzero le_rfl
  exact_mod_cast close

theorem toDouble_eq_of_close {shown : ℚ} (double : IsDouble (.finite value)) (nonzero : value ≠ 0)
    (close : 2 * 2 ^ 53 * |shown - value| < |value|) : toDouble shown = .finite value := by
  have rounded : roundDigits 2 53 (-1074) shown = value := by
    apply roundDigits_eq_of_close (by decide) (by decide) nonzero double.1
    exact_mod_cast close
  rw [toDouble, rounded, if_pos double.2]

/-- Seventeen digits recover a `double`. -/
theorem toDouble_seventeen (double : IsDouble (.finite value)) (nonzero : value ≠ 0) :
    toDouble (toPrecision 17 value) = .finite value := by
  have close := @toPrecision_close 17 value nonzero
  have positive := abs_pos.mpr nonzero
  apply toDouble_eq_of_close double nonzero
  norm_num at close ⊢
  linarith

theorem toPrecision_ne_zero (nonzero : value ≠ 0) (digits : 2 ≤ precision) :
    toPrecision precision value ≠ 0 := by
  intro zero
  have close := @toPrecision_close precision value nonzero
  have positive := abs_pos.mpr nonzero
  rw [zero, zero_sub, abs_neg] at close
  have power : (10 : ℚ) ^ 2 ≤ 10 ^ precision := pow_le_pow_right₀ (by norm_num) digits
  have less := le_of_mul_le_mul_right close positive
  norm_num at power
  linarith

/-- Numbers of which one is within its half of the other have one sign. -/
theorem lt_zero_iff_of_close {x y : ℚ} (close : 2 * |y - x| < |x|) : y < 0 ↔ x < 0 := by
  obtain ⟨low, high⟩ := abs_le.mp (le_refl |y - x|)
  rcases abs_cases x with ⟨same, sign⟩ | ⟨same, sign⟩ <;> constructor <;> intro less <;> linarith

end Close

/-! ## The comparison -/

theorem roundDigits_nonneg {value : ℚ} (sign : 0 ≤ value) : 0 ≤ roundDigits 2 53 (-1074) value := by
  have unit := base_pow_pos (K := ℚ) (show 1 < 2 by decide) (place 2 53 (-1074) value)
  have digits : 0 ≤ roundHalfEven (value / ((2 : Nat) : ℚ) ^ place 2 53 (-1074) value) := by
    apply le_roundHalfEven
    rw [Int.cast_zero]
    exact div_nonneg sign unit.le
  exact mul_nonneg (Int.cast_nonneg digits) unit.le

/-- The bound of `compare_double` is no negative number. -/
theorem atMost_epsilon {value : ℚ} (sign : 0 ≤ value) :
    atMost (.finite 0) (timesEpsilon (.finite value)) = true := by
  have scaled : 0 ≤ value / 2 ^ 52 := div_nonneg sign (by positivity)
  change atMost (.finite 0) (toDouble (value / 2 ^ 52)) = true
  unfold toDouble
  split_ifs
  · exact decide_eq_true (roundDigits_nonneg scaled)
  · rw [decide_eq_false (not_lt.mpr scaled)]
    rfl

theorem isDouble_zero : IsDouble (.finite 0) :=
  ⟨⟨0, 0, by decide, by decide, by norm_num⟩, by norm_num⟩

theorem compareDouble_self (value : ℚ) : compareDouble (.finite value) (.finite value) = true := by
  have none : fabs (subtract (.finite value) (.finite value)) = .finite 0 := by
    rw [subtract, sub_self, toDouble_of_isDouble isDouble_zero, fabs, abs_zero]
  unfold compareDouble
  rw [none, ite_self]
  exact atMost_epsilon (abs_nonneg value)

/-! ## One trip -/

/-- Only the fifteen digits that were taken for the number are another. -/
theorem reread_cases {value : ℚ} (double : IsDouble (.finite value)) :
    reread value = .finite value ∨
      (value ≠ valueInt (.finite value) ∧ numberDecimal value = generalDecimal 15 value ∧
        reread value = toDouble (toPrecision 15 value) ∧
        compareDouble (toDouble (toPrecision 15 value)) (.finite value) = true) := by
  unfold reread
  rcases numberDecimal_cases value with ⟨whole, shape⟩ | ⟨other, taken, shape⟩ | ⟨other, -, shape⟩
  · left
    rw [shape, intDecimal_value, ← whole]
    exact toDouble_of_isDouble double
  · right
    obtain ⟨top, n, shown⟩ := exists_shown (show 0 < 15 by decide) (ne_zero_of_valueInt_ne other)
    exact ⟨other, shape, by rw [shape, shown.decimal_value], taken⟩
  · left
    obtain ⟨top, n, shown⟩ := exists_shown (show 0 < 17 by decide) (ne_zero_of_valueInt_ne other)
    rw [shape, shown.decimal_value]
    exact toDouble_seventeen double (ne_zero_of_valueInt_ne other)

/-- What comes back is taken for the number. -/
theorem compareDouble_reread {value : ℚ} (double : IsDouble (.finite value)) :
    compareDouble (reread value) (.finite value) = true := by
  rcases reread_cases double with same | ⟨-, -, shape, taken⟩
  · rw [same]
    exact compareDouble_self value
  · rw [shape]
    exact taken

/-- A number comes back as itself unless fifteen digits of it are taken for it and are not. -/
theorem reread_eq_iff {value : ℚ} (double : IsDouble (.finite value)) :
    reread value = .finite value ↔
      value = valueInt (.finite value) ∨
      compareDouble (toDouble (toPrecision 15 value)) (.finite value) = false ∨
      toDouble (toPrecision 15 value) = .finite value := by
  constructor
  · intro same
    rcases numberDecimal_cases value with ⟨whole, -⟩ | ⟨other, taken, shape⟩ | ⟨-, refused, -⟩
    · exact Or.inl whole
    · obtain ⟨top, n, shown⟩ := exists_shown (show 0 < 15 by decide) (ne_zero_of_valueInt_ne other)
      rw [reread, shape, shown.decimal_value] at same
      exact Or.inr (Or.inr same)
    · exact Or.inr (Or.inl refused)
  · intro reason
    rcases reread_cases double with same | ⟨other, -, shape, taken⟩
    · exact same
    · rcases reason with whole | refused | fifteen
      · exact absurd whole other
      · rw [taken] at refused
        cases refused
      · rw [shape, fifteen]

/-! ## The next trip -/

/-- The log of a number of so many digits. -/
theorem log_digits {precision n : Nat} (top : Int) (some_digit : 0 < precision)
    (low : 10 ^ (precision - 1) ≤ n) (high : n < 10 ^ precision) :
    Int.log 10 ((n : ℚ) * 10 ^ (top + 1 - precision)) = top := by
  have unit : (0 : ℚ) < 10 ^ (top + 1 - precision) := zpow_pos (by norm_num) _
  have split : ∀ first : Int, (10 : ℚ) ^ (first + (top + 1 - precision)) =
      10 ^ first * 10 ^ (top + 1 - precision) := fun first => zpow_add₀ (by norm_num) first _
  have floor : (10 : ℚ) ^ ((precision - 1 : Nat) : Int) ≤ n := by exact_mod_cast low
  have ceil : (n : ℚ) < 10 ^ (precision : Int) := by exact_mod_cast high
  have positive : (0 : ℚ) < n * 10 ^ (top + 1 - precision) :=
    mul_pos (lt_of_lt_of_le (zpow_pos (by norm_num) _) floor) unit
  apply le_antisymm
  · apply Int.lt_add_one_iff.mp
    rw [← Int.lt_zpow_iff_log_lt (by decide) positive]
    rw [show top + 1 = precision + (top + 1 - precision) by omega, Nat.cast_ofNat, split]
    have same : (precision : Int) + (top + 1 - precision) - precision = top + 1 - precision := by omega
    rw [same]
    exact mul_lt_mul_of_pos_right ceil unit
  · rw [← Int.zpow_le_iff_le_log (by decide) positive, Nat.cast_ofNat,
      show (10 : ℚ) ^ top = 10 ^ (((precision - 1 : Nat) : Int) + (top + 1 - precision)) by
        congr 1
        omega, split]
    exact mul_le_mul_of_nonneg_right floor unit.le

/-- The digits of `%e` are told by the number they stand for. -/
theorem Shown.unique {precision : Nat} {value other : ℚ} {top top' : Int} {n n' : Nat}
    (shown : Shown precision value top n) (shown' : Shown precision other top' n')
    (same : toPrecision precision |value| = toPrecision precision |other|) :
    top = top' ∧ n = n' := by
  have first := log_digits top shown.some_digit shown.low shown.high
  have second := log_digits top' shown'.some_digit shown'.low shown'.high
  rw [shown.value] at first
  rw [shown'.value, ← same] at second
  obtain rfl : top = top' := first.symm.trans second
  refine ⟨rfl, ?_⟩
  have unit : (10 : ℚ) ^ (top + 1 - precision) ≠ 0 := zpow_ne_zero _ (by norm_num)
  have equal : (n : ℚ) * 10 ^ (top + 1 - precision) = n' * 10 ^ (top + 1 - precision) := by
    rw [shown.value, shown'.value, same]
  exact_mod_cast mul_right_cancel₀ unit equal

/-- The text of a number is the text of its rounded number. -/
theorem generalDecimal_congr {precision : Nat} {value other : ℚ} (some_digit : 0 < precision)
    (nonzero : value ≠ 0) (nonzero' : other ≠ 0) (sign : value < 0 ↔ other < 0)
    (same : toPrecision precision value = toPrecision precision other) :
    generalDecimal precision value = generalDecimal precision other := by
  obtain ⟨top, n, shown⟩ := exists_shown some_digit nonzero
  obtain ⟨top', n', shown'⟩ := exists_shown some_digit nonzero'
  have magnitude : toPrecision precision |value| = toPrecision precision |other| := by
    by_cases negative : value < 0
    · rw [abs_of_neg negative, abs_of_neg (sign.mp negative), toPrecision_neg, toPrecision_neg, same]
    · have negative' : ¬ other < 0 := fun less => negative (sign.mpr less)
      rw [abs_of_nonneg (not_lt.mp negative), abs_of_nonneg (not_lt.mp negative'), same]
  obtain ⟨rfl, rfl⟩ := shown.unique shown' magnitude
  have signs : decide (value < 0) = decide (other < 0) := decide_eq_decide.mpr sign
  unfold generalDecimal
  rw [shown.shape, shown'.shape, signs]

theorem natDigits_mul_pow {n : Nat} (nonzero : n ≠ 0) (count : Nat) :
    natDigits (n * 10 ^ count) = natDigits n ++ List.replicate count 48 := by
  have scaled : n * 10 ^ count ≠ 0 := Nat.mul_ne_zero nonzero (pow_ne_zero _ (by decide))
  rw [natDigits, natDigits, if_neg nonzero, if_neg scaled, Nat.mul_comm,
    Nat.digits_base_pow_mul (by decide) (Nat.pos_of_ne_zero nonzero), List.map_append,
    List.reverse_append, List.map_replicate, List.reverse_replicate]
  rfl

theorem trimZeros_zeros (count : Nat) : trimZeros (List.replicate count 48) = [] := by
  rw [trimZeros, List.rdropWhile_eq_nil_iff]
  intro c member
  rw [List.eq_of_mem_replicate member]
  rfl

/-- A whole number of few digits is written without a point. -/
theorem generalDecimal_int {m : Int} (nonzero : m ≠ 0) (few : m.natAbs < 10 ^ 15) :
    generalDecimal 15 m = intDecimal m := by
  obtain ⟨top, n, shown⟩ := exists_shown (show 0 < 15 by decide) (Int.cast_ne_zero.mpr nonzero : (m : ℚ) ≠ 0)
  have positive : m.natAbs ≠ 0 := Int.natAbs_ne_zero.mpr nonzero
  have magnitude : |(m : ℚ)| = m.natAbs := by
    rw [← Int.cast_abs, Int.abs_eq_natAbs]
    rfl
  have log : Int.log 10 ((m.natAbs : Nat) : ℚ) = Nat.log 10 m.natAbs := Int.log_natCast 10 _
  have count : Nat.log 10 m.natAbs < 15 := Nat.log_lt_of_lt_pow positive few
  have exactly : toPrecision 15 |(m : ℚ)| = m.natAbs := by
    rw [magnitude, toPrecision, Nat.abs_cast, log]
    apply roundDigits_of_representable (by decide)
    refine ⟨m.natAbs, 0, ?_, by omega, by simp⟩
    rw [Nat.abs_cast]
    exact_mod_cast few
  have digits := shown.value
  rw [exactly] at digits
  have place := log_digits top shown.some_digit shown.low shown.high
  rw [digits, log] at place
  generalize Nat.log 10 m.natAbs = k at place count
  have scaled : n = m.natAbs * 10 ^ (14 - k) := by
    have power : (10 : ℚ) ^ (top + 1 - (15 : Nat)) * 10 ^ (14 - k) = 1 := by
      rw [← zpow_natCast, ← zpow_add₀ (by norm_num), ← zpow_zero (10 : ℚ)]
      congr 1
      omega
    have equal : (n : ℚ) = m.natAbs * 10 ^ (14 - k) := by
      rw [← digits, mul_assoc, power, mul_one]
    exact_mod_cast equal
  have length : (natDigits m.natAbs).length = k + 1 := by
    have whole := shown.length
    rw [scaled, natDigits_mul_pow positive, List.length_append, List.length_replicate] at whole
    omega
  unfold generalDecimal
  rw [shown.shape]
  simp only [← place, scaled, natDigits_mul_pow positive]
  rw [if_pos (by omega), Int.toNat_natCast, ← length, List.take_left, List.drop_left,
    trimZeros_zeros]
  unfold intDecimal
  congr 1
  exact decide_eq_decide.mpr Int.cast_lt_zero

/-! ## Numbers too small for fifteen digits -/

theorem IsDouble.multiple {value : ℚ} (double : IsDouble (.finite value)) :
    Multiple ((2 : ℚ) ^ (-1074 : Int)) value := by
  obtain ⟨significand, exponent, -, least, shape⟩ := double.1
  have fine := multiple_pow (K := ℚ) (show 1 < 2 by decide) least
  rw [Nat.cast_ofNat] at fine shape
  exact fine.trans ⟨significand, shape⟩

/-- The difference of two small doubles is a double. -/
theorem isDouble_sub {a b : ℚ} (left : IsDouble (.finite a)) (right : IsDouble (.finite b))
    (small : |a| ≤ 2 ^ (-1023 : Int)) (small' : |b| ≤ 2 ^ (-1023 : Int)) :
    IsDouble (.finite (a - b)) := by
  obtain ⟨m, left_shape⟩ := left.multiple
  obtain ⟨n, right_shape⟩ := right.multiple
  have unit : (0 : ℚ) < 2 ^ (-1074 : Int) := zpow_pos (by norm_num) _
  have triangle : |a - b| ≤ |a| + |b| := abs_sub a b
  have difference : a - b = ((m - n : Int) : ℚ) * 2 ^ (-1074 : Int) := by
    rw [left_shape, right_shape, Int.cast_sub, sub_mul]
  have power : (2 : ℚ) ^ (52 : Nat) * 2 ^ (-1074 : Int) = 2 ^ (-1023 : Int) + 2 ^ (-1023 : Int) := by
    rw [← two_mul, ← zpow_natCast, ← zpow_add₀ (by norm_num), ← zpow_one_add₀ (by norm_num)]
    congr 1
  have few : |m - n| ≤ 2 ^ 52 := by
    have bound : |((m - n : Int) : ℚ)| * 2 ^ (-1074 : Int) ≤ 2 ^ (52 : Nat) * 2 ^ (-1074 : Int) := by
      rw [difference, abs_mul, abs_of_pos unit] at triangle
      linarith
    have scaled := le_of_mul_le_mul_right bound unit
    exact_mod_cast scaled
  refine ⟨⟨m - n, -1074, lt_of_le_of_lt few (by norm_num), le_rfl, ?_⟩, ?_⟩
  · rw [difference, Nat.cast_ofNat]
  · have tiny : (2 : ℚ) ^ (-1023 : Int) < 1 := zpow_lt_one_of_neg₀ (by norm_num) (by norm_num)
    apply lt_of_lt_of_le _ (le_self_pow₀ (by norm_num : (1 : ℚ) ≤ 2) (by decide : 1024 ≠ 0))
    linarith

/-- Half of the least double is rounded away. -/
theorem toDouble_tiny {value : ℚ} (sign : 0 ≤ value) (small : value ≤ 2 ^ (-1075 : Int)) :
    toDouble value = .finite 0 := by
  rcases sign.eq_or_lt with rfl | positive
  · exact toDouble_of_isDouble isDouble_zero
  have at_place : place 2 53 (-1074) value = -1074 := by
    apply max_eq_right
    have log : Int.log 2 |value| < -1074 := by
      rw [← Int.lt_zpow_iff_log_lt (by decide) (abs_pos.mpr positive.ne'), abs_of_pos positive]
      exact small.trans_lt (zpow_lt_zpow_right₀ (by norm_num) (by decide))
    push_cast
    omega
  have unit : (0 : ℚ) < ((2 : Nat) : ℚ) ^ (-1074 : Int) := zpow_pos (by norm_num) _
  have half : value / ((2 : Nat) : ℚ) ^ (-1074 : Int) ≤ 1 / 2 := by
    rw [div_le_iff₀ unit]
    apply small.trans_eq
    rw [show (-1075 : Int) = -1 + -1074 from rfl, zpow_add₀ (by norm_num)]
    norm_num
  have nonneg : 0 ≤ value / ((2 : Nat) : ℚ) ^ (-1074 : Int) := div_nonneg sign unit.le
  have floor : ⌊value / ((2 : Nat) : ℚ) ^ (-1074 : Int)⌋ = 0 := by
    rw [Int.floor_eq_zero_iff]
    exact ⟨nonneg, half.trans_lt (by norm_num)⟩
  have digits : roundHalfEven (value / ((2 : Nat) : ℚ) ^ (-1074 : Int)) = 0 := by
    unfold roundHalfEven
    rw [floor, Int.cast_zero, sub_zero]
    rcases half.lt_or_eq with less | same
    · rw [if_pos (Or.inl less)]
    · rw [if_pos (Or.inr ⟨same, by decide⟩)]
  have rounded : roundDigits 2 53 (-1074) value = 0 := by
    rw [roundDigits, at_place, roundTo, digits, Int.cast_zero, zero_mul]
  rw [toDouble, rounded, if_pos (by norm_num)]

/-- Small doubles are taken for each other only if they are the same. -/
theorem eq_of_compareDouble_tiny {a b : ℚ} (left : IsDouble (.finite a)) (right : IsDouble (.finite b))
    (small : |a| ≤ 2 ^ (-1023 : Int)) (small' : |b| ≤ 2 ^ (-1023 : Int))
    (taken : compareDouble (.finite a) (.finite b) = true) : a = b := by
  have scaled : ∀ {x : ℚ}, 0 ≤ x → x ≤ 2 ^ (-1023 : Int) → timesEpsilon (.finite x) = .finite 0 := by
    intro x sign bound
    change toDouble (x / 2 ^ 52) = .finite 0
    apply toDouble_tiny (div_nonneg sign (by positivity))
    rw [div_le_iff₀ (by positivity)]
    apply bound.trans_eq
    rw [← zpow_natCast, ← zpow_add₀ (by norm_num)]
    norm_num
  have maximum : timesEpsilon (if greater (fabs (.finite a)) (fabs (.finite b))
      then fabs (.finite a) else fabs (.finite b)) = .finite 0 := by
    split_ifs
    · exact scaled (abs_nonneg a) small
    · exact scaled (abs_nonneg b) small'
  have difference : fabs (subtract (.finite a) (.finite b)) = .finite |a - b| := by
    rw [subtract, toDouble_of_isDouble (isDouble_sub left right small small')]
    rfl
  simp only [compareDouble, maximum, difference] at taken
  have none : |a - b| ≤ 0 := of_decide_eq_true taken
  exact sub_eq_zero.mp (abs_nonpos_iff.mp none)

/-! ## The text stays -/

section Fifteen
variable {value shown back : ℚ}

theorem rounded_of_toDouble (read : toDouble shown = .finite back) :
    roundDigits 2 53 (-1074) shown = back := by
  unfold toDouble at read
  split at read
  · exact Double.finite.inj read
  · cases read

/-- The rounding at the least place. -/
theorem close_subnormal (read : toDouble shown = .finite back)
    (subnormal : Int.log 2 |shown| + 1 - (53 : Nat) ≤ -1074) :
    2 * |back - shown| ≤ 2 ^ (-1074 : Int) := by
  have at_place : place 2 53 (-1074) shown = -1074 := max_eq_right subnormal
  have unit : (0 : ℚ) < ((2 : Nat) : ℚ) ^ (-1074 : Int) := zpow_pos (by norm_num) _
  have close := roundTo_close unit shown
  have rounded := rounded_of_toDouble read
  rw [roundDigits, at_place] at rounded
  rw [rounded, Nat.cast_ofNat] at close
  linarith

theorem two_pow_split (low high : Int) : (2 : ℚ) ^ (low + high) = 2 ^ low * 2 ^ high :=
  zpow_add₀ (by norm_num) low high

/-- Fifteen digits that are not too small are the digits of the double closest to them. -/
theorem close_fifteen (large : 2 ^ (-1024 : Int) ≤ |shown|) (read : toDouble shown = .finite back) :
    2 * 10 ^ 15 * |back - shown| < |shown| := by
  have power : (0 : ℚ) < 2 ^ (-1024 : Int) := zpow_pos (by norm_num) _
  have positive : 0 < |shown| := power.trans_le large
  rcases le_total (-1074) (Int.log 2 |shown| + 1 - (53 : Nat)) with normal | subnormal
  · have close := roundDigits_close (by decide) (abs_pos.mp positive) normal
    rw [rounded_of_toDouble read, Nat.cast_ofNat] at close
    have gap := abs_nonneg (back - shown)
    norm_num at close ⊢
    linarith
  · have close := close_subnormal read subnormal
    have unit : (0 : ℚ) < 2 ^ (-1074 : Int) := zpow_pos (by norm_num) _
    rw [show (-1024 : Int) = 50 + -1074 from rfl, two_pow_split] at large
    generalize (2 : ℚ) ^ (-1074 : Int) = smallest at close unit large
    norm_num at large ⊢
    linarith

/-- The digits of what came back are the digits that were printed. -/
theorem toPrecision_back (double : IsDouble (.finite value)) (nonzero : value ≠ 0)
    (read : toDouble (toPrecision 15 value) = .finite back)
    (close : 2 * 10 ^ 15 * |back - toPrecision 15 value| < |toPrecision 15 value|) :
    toPrecision 15 back = toPrecision 15 value ∧ (back < 0 ↔ value < 0) ∧ back ≠ 0 := by
  have printed : toPrecision 15 value ≠ 0 := toPrecision_ne_zero nonzero (by decide)
  have gap := abs_nonneg (back - toPrecision 15 value)
  have sign : back < 0 ↔ toPrecision 15 value < 0 := lt_zero_iff_of_close (by linarith)
  have rounding := @toPrecision_close 15 value nonzero
  have sign' : toPrecision 15 value < 0 ↔ value < 0 := by
    have positive := abs_pos.mpr nonzero
    have distance := abs_nonneg (toPrecision 15 value - value)
    apply lt_zero_iff_of_close
    norm_num at rounding
    linarith
  have some_value : back ≠ 0 := by
    intro zero
    have positive := abs_pos.mpr printed
    rw [zero, zero_sub, abs_neg] at close
    linarith
  have free : ∀ {x : ℚ}, IsDouble (.finite x) → x ≠ 0 →
      (-1000 : Int) ≤ Int.log 10 |x| + 1 - (15 : Nat) := by
    intro x isDouble other
    have bounds := log_bounds isDouble other
    push_cast
    omega
  have back_double : IsDouble (.finite back) := by
    rw [← read]
    exact isDouble_toDouble _
  refine ⟨?_, sign.trans sign', some_value⟩
  rw [← toPrecision_eq (free back_double some_value)]
  apply roundDigits_eq_of_close (by decide) (by decide) printed
  · rw [← toPrecision_eq (free double nonzero)]
    exact representable_roundDigits (by decide) (by decide) value
  · exact_mod_cast close

/-- Where fifteen digits are too few for the double they are not taken for another one. -/
theorem back_eq_of_tiny (double : IsDouble (.finite value)) (nonzero : value ≠ 0)
    (tiny : |toPrecision 15 value| < 2 ^ (-1024 : Int))
    (read : toDouble (toPrecision 15 value) = .finite back)
    (taken : compareDouble (.finite back) (.finite value) = true) : back = value := by
  have printed := abs_pos.mpr (toPrecision_ne_zero nonzero (show 2 ≤ 15 by decide))
  have back_double : IsDouble (.finite back) := by
    rw [← read]
    exact isDouble_toDouble _
  have log : Int.log 2 |toPrecision 15 value| < -1024 := by
    rw [← Int.lt_zpow_iff_log_lt (by decide) printed]
    exact_mod_cast tiny
  have close := close_subnormal read (by
    push_cast
    omega)
  have rounding := @toPrecision_close 15 value nonzero
  have triangle := abs_sub_abs_le_abs_sub back (toPrecision 15 value)
  have triangle' := abs_sub_abs_le_abs_sub value (toPrecision 15 value)
  rw [abs_sub_comm] at triangle'
  have unit : (0 : ℚ) < 2 ^ (-1074 : Int) := zpow_pos (by norm_num) _
  rw [show (-1024 : Int) = 50 + -1074 from rfl, two_pow_split] at tiny
  apply eq_of_compareDouble_tiny back_double double _ _ taken
  · rw [show (-1023 : Int) = 51 + -1074 from rfl, two_pow_split]
    generalize (2 : ℚ) ^ (-1074 : Int) = smallest at close unit tiny
    norm_num at tiny ⊢
    linarith
  · rw [show (-1023 : Int) = 51 + -1074 from rfl, two_pow_split]
    generalize (2 : ℚ) ^ (-1074 : Int) = smallest at unit tiny
    norm_num at tiny rounding ⊢
    linarith

/-- Whatever number comes back is printed as the same text. -/
theorem numberDecimal_reread (double : IsDouble (.finite value))
    (same : reread value = .finite back) : numberDecimal back = numberDecimal value := by
  rcases reread_cases double with exactly | ⟨other, shape, read, taken⟩
  · rw [Double.finite.inj (same.symm.trans exactly)]
  rw [same] at read
  rw [← read] at taken
  have nonzero := ne_zero_of_valueInt_ne other
  rcases lt_or_ge |toPrecision 15 value| (2 ^ (-1024 : Int)) with tiny | large
  · rw [back_eq_of_tiny double nonzero tiny read.symm taken]
  obtain ⟨digits, sign, some_value⟩ :=
    toPrecision_back double nonzero read.symm (close_fifteen large read.symm)
  have text : generalDecimal 15 value = generalDecimal 15 back :=
    generalDecimal_congr (by decide) nonzero some_value sign.symm digits.symm
  rw [shape, text]
  rcases numberDecimal_cases back with ⟨whole, printed⟩ | ⟨-, -, printed⟩ | ⟨-, refused, -⟩
  · obtain ⟨low, high⟩ := valueInt_bounds (.finite back)
    have least : intMin = -2147483648 := rfl
    have most : intMax = 2147483647 := rfl
    have integer : valueInt (.finite back) ≠ 0 := by
      intro zero
      rw [zero] at whole
      exact some_value (whole.trans Int.cast_zero)
    rw [printed, ← generalDecimal_int integer (by omega), ← whole]
  · exact printed
  · rw [digits, ← read, compareDouble_self] at refused
    cases refused

end Fifteen

/-! ## The largest numbers -/

/-- From here on fifteen digits are rounded up past the largest double. -/
def overflowBound : ℚ := 1797693134862315 * 10 ^ 293

theorem overflow_numbers :
    10 ^ 308 ≤ 1797693134862315 * 10 ^ 293 ∧ 2 ^ 1024 + 2 ^ 971 < 179769313486232 * 10 ^ 294 ∧
      179769313486231 * 10 ^ 294 + 2 ^ 970 < 2 ^ 1024 ∧ 2 ^ 1024 < 1797693134862316 * 10 ^ 293 ∧
      179769313486232 * 10 ^ 294 < 2 ^ 1025 ∧ 2147483648 < 1797693134862315 * 10 ^ 293 := by
  decide +kernel

theorem ten_pow_succ : (10 : ℚ) ^ 294 = 10 ^ 293 * 10 := pow_succ 10 293

theorem abs_toPrecision (precision : Nat) (value : ℚ) :
    |toPrecision precision value| = toPrecision precision |value| := by
  have sign : 0 ≤ toPrecision precision |value| := by
    have unit := base_pow_pos (K := ℚ) (show 1 < 10 by decide)
      (place 10 precision (Int.log 10 |(|value|)| + 1 - precision) |value|)
    apply mul_nonneg (Int.cast_nonneg _) unit.le
    apply le_roundHalfEven
    rw [Int.cast_zero]
    exact div_nonneg (abs_nonneg value) unit.le
  rcases abs_choice value with same | same
  · rw [same] at sign ⊢
    exact abs_of_nonneg sign
  · rw [same, toPrecision_neg] at sign ⊢
    exact abs_of_nonpos (neg_nonneg.mp sign)

/-- The fifteen digits of a number above 10^308. -/
theorem toPrecision_top {value : ℚ} (low : 10 ^ 308 ≤ |value|) (high : |value| < 2 ^ 1024) :
    |toPrecision 15 value| = roundHalfEven (|value| / 10 ^ 294) * 10 ^ 294 := by
  have positive : 0 < |value| := lt_of_lt_of_le (by positivity) low
  have log : Int.log 10 |value| = 308 := by
    apply le_antisymm
    · apply Int.lt_add_one_iff.mp
      rw [← Int.lt_zpow_iff_log_lt (by decide) positive, show (308 : Int) + 1 = 309 from rfl]
      apply high.trans_le
      exact_mod_cast two_pow_le_ten_pow.2
    · rw [← Int.zpow_le_iff_le_log (by decide) positive]
      exact_mod_cast low
  have at_place : place 10 15 (Int.log 10 |(|value|)| + 1 - (15 : Nat)) |value| = (294 : Nat) := by
    rw [place, max_self, abs_abs, log]
    rfl
  rw [abs_toPrecision, toPrecision, roundDigits, at_place, roundTo, zpow_natCast, Nat.cast_ofNat]

theorem toDouble_infinite_iff (value : ℚ) :
    (∃ negative, toDouble value = .infinite negative) ↔
      2 ^ 1024 ≤ |roundDigits 2 53 (-1074) value| := by
  unfold toDouble
  split_ifs with small
  · constructor
    · intro infinite
      obtain ⟨negative, same⟩ := infinite
      cases same
    · intro large
      exact absurd small large.not_gt
  · exact ⟨fun _ => not_lt.mp small, fun _ => ⟨_, rfl⟩⟩

/-- The rounding of a number below a power of two. -/
theorem roundDigits_near {shown : ℚ} {top : Nat} (bound : |shown| < 2 ^ (top + 1)) :
    2 * |(|roundDigits 2 53 (-1074) shown| - |shown|)| ≤ 2 ^ ((top : Int) - 52) := by
  have unit := base_pow_pos (K := ℚ) (show 1 < 2 by decide) (place 2 53 (-1074) shown)
  have close := roundTo_close unit shown
  have triangle := abs_abs_sub_abs_le (roundDigits 2 53 (-1074) shown) shown
  have log : Int.log 2 |shown| ≤ top := by
    rcases (abs_nonneg shown).eq_or_lt with zero | positive
    · rw [← zero, Int.log_zero_right]
      exact Int.natCast_nonneg top
    · apply Int.lt_add_one_iff.mp
      rw [← Int.lt_zpow_iff_log_lt (by decide) positive]
      exact_mod_cast bound
  have at_place : place 2 53 (-1074) shown ≤ (top : Int) - 52 := by
    apply max_le
    · push_cast
      omega
    · omega
  have grow := zpow_le_zpow_right₀ (show (1 : ℚ) ≤ 2 by norm_num) at_place
  rw [← roundDigits, Nat.cast_ofNat] at close
  linarith

/-- Fifteen digits of a number below the bound are still read as a number. -/
theorem toPrecision_small {value : ℚ} (double : IsDouble (.finite value))
    (small : |value| < overflowBound) : |toPrecision 15 value| ≤ 179769313486231 * 10 ^ 294 := by
  rcases lt_or_ge |value| (10 ^ 308) with low | high
  · rcases eq_or_ne value 0 with rfl | nonzero
    · rw [toPrecision, roundDigits, roundTo, zero_div]
      norm_num [roundHalfEven]
    · have close := @toPrecision_close 15 value nonzero
      have triangle := abs_sub_abs_le_abs_sub (toPrecision 15 value) value
      have power : (10 : ℚ) ^ 308 = 10 ^ 14 * 10 ^ 294 := by rw [← pow_add]
      have sign := abs_nonneg value
      rw [power] at low
      generalize (10 : ℚ) ^ 294 = unit at low ⊢
      norm_num at close low ⊢
      linarith
  · rw [toPrecision_top high double.2]
    have unit : (0 : ℚ) < 10 ^ 294 := by positivity
    apply mul_le_mul_of_nonneg_right _ unit.le
    have quotient : |value| / 10 ^ 294 < 179769313486231 + 1 / 2 := by
      rw [div_lt_iff₀ unit]
      apply small.trans_le
      rw [overflowBound, ten_pow_succ]
      generalize (10 : ℚ) ^ 293 = smaller
      linarith
    generalize |value| / (10 : ℚ) ^ 294 = digits at quotient ⊢
    have close := (abs_le.mp (roundHalfEven_close digits)).2
    have below : roundHalfEven digits < 179769313486232 := by
      apply Int.cast_lt (R := ℚ).mp
      push_cast
      linarith
    have whole : roundHalfEven digits ≤ 179769313486231 := by omega
    have cast := Int.cast_le (R := ℚ).mpr whole
    rwa [Int.cast_ofNat] at cast

/-- From the bound on, the fifteen digits are those of a number above all doubles. -/
theorem toPrecision_large {value : ℚ} (double : IsDouble (.finite value))
    (large : overflowBound ≤ |value|) : |toPrecision 15 value| = 179769313486232 * 10 ^ 294 := by
  have unit : (0 : ℚ) < 10 ^ 294 := by positivity
  have low : (10 : ℚ) ^ 308 ≤ |value| := by
    apply le_trans _ large
    rw [overflowBound]
    exact_mod_cast overflow_numbers.1
  rw [toPrecision_top low double.2]
  congr 1
  have tie : 179769313486231 + 1 / 2 ≤ |value| / 10 ^ 294 := by
    rw [le_div_iff₀ unit]
    apply le_trans _ large
    rw [overflowBound, ten_pow_succ]
    generalize (10 : ℚ) ^ 293 = smaller
    linarith
  have above : |value| / 10 ^ 294 < 179769313486231 + 3 / 5 := by
    rw [div_lt_iff₀ unit]
    apply double.2.trans
    have bound : (2 : ℚ) ^ 1024 < 1797693134862316 * 10 ^ 293 := by
      exact_mod_cast overflow_numbers.2.2.2.1
    apply bound.trans_le
    rw [ten_pow_succ]
    generalize (10 : ℚ) ^ 293 = smaller
    linarith
  generalize |value| / (10 : ℚ) ^ 294 = digits at tie above ⊢
  have whole : roundHalfEven digits = 179769313486232 := by
    rcases tie.eq_or_lt with same | more
    · rw [← same]
      norm_num [roundHalfEven]
    · apply roundHalfEven_eq_of_close
      rw [abs_lt]
      push_cast
      constructor <;> linarith
  rw [whole, Int.cast_ofNat]

theorem compareDouble_infinite (negative : Bool) (value : ℚ) :
    compareDouble (.infinite negative) (.finite value) = true := rfl

/-- The largest doubles come back as infinities. -/
theorem reread_infinite_iff {value : ℚ} (double : IsDouble (.finite value)) :
    (∃ negative, reread value = .infinite negative) ↔ overflowBound ≤ |value| := by
  constructor
  · intro infinite
    by_contra small
    rcases reread_cases double with same | ⟨-, -, shape, -⟩
    · obtain ⟨negative, came⟩ := infinite
      rw [same] at came
      cases came
    · rw [shape, toDouble_infinite_iff] at infinite
      have digits := toPrecision_small double (lt_of_not_ge small)
      have room : (179769313486231 : ℚ) * 10 ^ 294 + 2 ^ 970 < 2 ^ 1024 := by
        exact_mod_cast overflow_numbers.2.2.1
      have positive : (0 : ℚ) < 2 ^ 970 := by positivity
      have below : |toPrecision 15 value| < 2 ^ 1024 := by
        apply digits.trans_lt
        exact (lt_add_of_pos_right _ positive).trans room
      have near := @roundDigits_near _ 1023 below
      have unit : (2 : ℚ) ^ (((1023 : Nat) : Int) - 52) = 2 * 2 ^ 970 := by
        rw [← zpow_natCast, ← zpow_one_add₀ (by norm_num)]
        rfl
      have above := le_abs_self (|roundDigits 2 53 (-1074) (toPrecision 15 value)| -
        |toPrecision 15 value|)
      rw [unit] at near
      generalize (2 : ℚ) ^ 970 = half at near room
      generalize (2 : ℚ) ^ 1024 = limit at infinite room
      generalize (10 : ℚ) ^ 294 = place at digits room
      linarith
  · intro large
    have digits := toPrecision_large double large
    have past : (2 : ℚ) ^ 1024 + 2 ^ 971 < 179769313486232 * 10 ^ 294 := by
      exact_mod_cast overflow_numbers.2.1
    have below : |toPrecision 15 value| < 2 ^ 1025 := by
      rw [digits]
      exact_mod_cast overflow_numbers.2.2.2.2.1
    have infinite : ∃ negative, toDouble (toPrecision 15 value) = .infinite negative := by
      rw [toDouble_infinite_iff]
      have near := @roundDigits_near _ 1024 below
      have unit : (2 : ℚ) ^ (((1024 : Nat) : Int) - 52) = 2 * 2 ^ 971 := by
        rw [← zpow_natCast, ← zpow_one_add₀ (by norm_num)]
        rfl
      have above := neg_abs_le (|roundDigits 2 53 (-1074) (toPrecision 15 value)| -
        |toPrecision 15 value|)
      rw [unit] at near
      generalize (2 : ℚ) ^ 971 = half at near past
      generalize (2 : ℚ) ^ 1024 = limit at past ⊢
      generalize (10 : ℚ) ^ 294 = place at digits past
      linarith
    obtain ⟨negative, came⟩ := infinite
    refine ⟨negative, ?_⟩
    rcases numberDecimal_cases value with ⟨whole, -⟩ | ⟨other, -, shape⟩ | ⟨-, refused, -⟩
    · obtain ⟨low, high⟩ := valueInt_bounds (.finite value)
      have least : intMin = -2147483648 := rfl
      have most : intMax = 2147483647 := rfl
      have few : |valueInt (.finite value)| ≤ 2147483648 := by
        rw [abs_le]
        omega
      have cast : |value| ≤ 2147483648 := by
        rw [whole]
        exact_mod_cast few
      have bound : (2147483648 : ℚ) < overflowBound := by
        rw [overflowBound]
        exact_mod_cast overflow_numbers.2.2.2.2.2
      linarith
    · obtain ⟨top, n, shown⟩ := exists_shown (show 0 < 15 by decide) (ne_zero_of_valueInt_ne other)
      rw [reread, shape, shown.decimal_value, came]
    · rw [came, compareDouble_infinite] at refused
      cases refused

/-- A printed number is read as one that `compare_double` takes for it and that prints the
same, or as an infinity if it is one of the largest. -/
theorem numberText_reread {value : ℚ} (double : IsDouble (.finite value)) :
    compareDouble (reread value) (.finite value) = true ∧
      (|value| < overflowBound →
        ∃ back, reread value = .finite back ∧ numberText (.finite back) = numberText (.finite value)) := by
  refine ⟨compareDouble_reread double, ?_⟩
  intro small
  cases came : reread value with
  | finite back =>
    refine ⟨back, rfl, ?_⟩
    rw [numberText, numberText, numberDecimal_reread double came]
  | infinite negative =>
    exact absurd ((reread_infinite_iff double).mp ⟨negative, came⟩) small.not_ge
  | nan =>
    unfold reread toDouble at came
    split at came <;> cases came

/-- `print_number` and `parse_number`, in any text that ends the number: all of it is read, as a
number that `compare_double` takes for the printed one. It is another one exactly if fifteen digits
were taken for the number and are not, and an infinity exactly if the number is too close to the
largest one; any other number is printed as before. -/
theorem parseNumber_numberText {value : ℚ} {content rest : List UInt8} {offset : Nat}
    (double : IsDouble (.finite value))
    (stands : content.drop offset = numberText (.finite value) ++ rest)
    (ends : ∀ c, rest.head? = some c → isNumberChar c = false) :
    ∃ back, parseNumber content offset =
        some (back, offset + (numberText (.finite value)).length) ∧
      (numberText (.finite value)).length ≤ 25 ∧
      compareDouble back (.finite value) = true ∧
      (back = .finite value ↔
        value = valueInt (.finite value) ∨
        compareDouble (toDouble (toPrecision 15 value)) (.finite value) = false ∨
        toDouble (toPrecision 15 value) = .finite value) ∧
      ((∃ negative, back = .infinite negative) ↔ overflowBound ≤ |value|) ∧
      (|value| < overflowBound →
        ∃ again, back = .finite again ∧ numberText (.finite again) = numberText (.finite value)) := by
  have length := numberDecimal_length double
  have parsed := parseNumber_text stands (numberDecimal_wellFormed value)
    (length.trans (by decide)) ends
  obtain ⟨close, same⟩ := numberText_reread double
  exact ⟨reread value, parsed, length, close, reread_eq_iff double, reread_infinite_iff double, same⟩

theorem isDouble_half : IsDouble (.finite (1 / 2)) := by
  refine ⟨⟨1, -1, by decide, by decide, by norm_num⟩, ?_⟩
  calc
    |(1 / 2 : ℚ)| < 1 := by norm_num
    _ ≤ 2 ^ 1024 := one_le_pow₀ (by norm_num)

theorem parseNumber_numberText_half :
    ∃ back, parseNumber (ascii "[0.5]") 1 = some (back, 4) ∧ compareDouble back (.finite (1 / 2)) = true := by
  have text : numberText (.finite (1 / 2)) = ascii "0.5" := by decide +kernel
  have stands : (ascii "[0.5]").drop 1 = numberText (.finite (1 / 2)) ++ [93] := by
    rw [text]
    decide
  have ends : ∀ c, [(93 : UInt8)].head? = some c → isNumberChar c = false := by
    intro c found
    cases found
    decide
  obtain ⟨back, parsed, -, close, -⟩ := parseNumber_numberText isDouble_half stands ends
  rw [text] at parsed
  exact ⟨back, parsed, close⟩

end CNear.NumberText
