import CNear.NumberText

/-! What `sprintf` and `print_number` write: a JSON number of at most 25 characters, whose value
is the given one rounded to the digits of the format. -/

namespace CNear.NumberText
open CJson CallResult Rounding

theorem intDecimal_wellFormed (n : Int) : (intDecimal n).WellFormed where
  whole := all_isDigit_natDigits _
  nonempty := natDigits_ne_nil _
  leading := natDigits_leading _
  fraction := rfl
  exponent := by
    intro exponent present
    cases present

theorem intDecimal_value (n : Int) : (intDecimal n).value = n := by
  have magnitude : (intDecimal n).magnitude = |(n : ℚ)| := by
    simp only [Decimal.magnitude, Decimal.exponentValue, intDecimal, List.append_nil,
      readDigits_natDigits, List.length_nil]
    rw [← Int.cast_abs, Int.abs_eq_natAbs]
    simp
  rw [Decimal.value, magnitude]
  by_cases negative : n < 0
  · have sign : ((n : Int) : ℚ) ≤ 0 := by exact_mod_cast negative.le
    rw [abs_of_nonpos sign, neg_neg]
    simp [intDecimal, negative]
  · have sign : (0 : ℚ) ≤ n := by exact_mod_cast Int.not_lt.mp negative
    rw [abs_of_nonneg sign]
    simp [intDecimal, negative]

theorem trimZeros_append (digits : List UInt8) :
    ∃ count, digits = trimZeros digits ++ List.replicate count 48 := by
  refine ⟨(digits.rtakeWhile (· = 48)).length, ?_⟩
  have zeros : digits.rtakeWhile (· = 48) =
      List.replicate (digits.rtakeWhile (· = 48)).length 48 := by
    rw [List.eq_replicate_iff]
    exact ⟨rfl, fun c member => by simpa using List.mem_rtakeWhile_imp member⟩
  rw [← zeros]
  exact List.rdropWhile_append_rtakeWhile.symm

theorem all_trimZeros {p : UInt8 → Bool} {digits : List UInt8} (all : digits.all p = true) :
    (trimZeros digits).all p = true := by
  obtain ⟨count, split⟩ := trimZeros_append digits
  rw [split, List.all_append, Bool.and_eq_true] at all
  exact all.1

theorem trimZeros_length (digits : List UInt8) : (trimZeros digits).length ≤ digits.length := by
  obtain ⟨count, split⟩ := trimZeros_append digits
  conv_rhs => rw [split, List.length_append]
  exact Nat.le_add_right _ _

/-- Zeros at the end of a fraction do not count. -/
theorem readDigits_trimZeros (whole fraction : List UInt8) (shift : Int) :
    (readDigits (whole ++ trimZeros fraction) : ℚ) * 10 ^ (shift - (trimZeros fraction).length) =
      readDigits (whole ++ fraction) * 10 ^ (shift - fraction.length) := by
  obtain ⟨count, split⟩ := trimZeros_append fraction
  generalize trimZeros fraction = short at split ⊢
  rw [split, ← List.append_assoc, readDigits_append (whole ++ short), readDigits_zeros,
    Nat.add_zero, List.length_append, List.length_replicate]
  push_cast
  rw [mul_assoc, ← zpow_natCast, ← zpow_add₀ (by norm_num)]
  congr 2
  omega

section Scientific
variable {precision : Nat} {magnitude : ℚ}

/-- The digits of `%e` are the rounded number, with as many digits as asked for. -/
theorem scientific_spec (some_digit : 0 < precision) (positive : 0 < magnitude) :
    let top := Int.log 10 magnitude
    let (shown, n) := scientific precision magnitude
    10 ^ (precision - 1) ≤ n ∧ n < 10 ^ precision ∧ top ≤ shown ∧ shown ≤ top + 1 ∧
      (n : ℚ) * 10 ^ (shown + 1 - precision) = roundDigits 10 precision (top + 1 - precision) magnitude := by
  have ten : (1 : ℚ) < 10 := by norm_num
  have at_place : place 10 precision (Int.log 10 magnitude + 1 - precision) magnitude =
      Int.log 10 magnitude + 1 - precision := by
    rw [place, abs_of_pos positive, max_self]
  have unit : (0 : ℚ) < 10 ^ (Int.log 10 magnitude + 1 - precision) := zpow_pos (by norm_num) _
  have low : ((10 ^ (precision - 1) : Int) : ℚ) ≤
      magnitude / 10 ^ (Int.log 10 magnitude + 1 - precision) := by
    rw [le_div_iff₀ unit]
    push_cast
    rw [← zpow_natCast, ← zpow_add₀ (by norm_num)]
    have log := Int.zpow_log_le_self (b := 10) (by decide) positive
    apply le_trans (le_of_eq _) log
    push_cast
    congr 1
    omega
  have high : magnitude / 10 ^ (Int.log 10 magnitude + 1 - precision) ≤
      ((10 ^ precision : Int) : ℚ) := by
    rw [div_le_iff₀ unit]
    push_cast
    rw [← zpow_natCast, ← zpow_add₀ (by norm_num)]
    have log := Int.lt_zpow_succ_log_self (b := 10) (by decide) magnitude
    apply log.le.trans (le_of_eq _)
    push_cast
    congr 1
    omega
  have below := le_roundHalfEven low
  have above := roundHalfEven_le high
  have rounded : roundDigits 10 precision (Int.log 10 magnitude + 1 - precision) magnitude =
      roundHalfEven (magnitude / 10 ^ (Int.log 10 magnitude + 1 - precision)) *
        10 ^ (Int.log 10 magnitude + 1 - precision) := by
    rw [roundDigits, at_place, roundTo]
    norm_num
  simp only [scientific]
  generalize roundHalfEven (magnitude / 10 ^ (Int.log 10 magnitude + 1 - precision)) = digits
    at below above rounded
  obtain ⟨n, rfl⟩ := Int.eq_ofNat_of_zero_le ((by positivity : (0 : Int) ≤ 10 ^ (precision - 1)).trans below)
  rw [Int.toNat_natCast]
  have floor : 10 ^ (precision - 1) ≤ n := by exact_mod_cast below
  have ceil : n ≤ 10 ^ precision := by exact_mod_cast above
  rw [rounded]
  push_cast
  split_ifs with carried
  · refine ⟨le_rfl, Nat.pow_lt_pow_right (by decide) (by omega), by omega, by omega, ?_⟩
    rw [carried]
    push_cast
    rw [← zpow_natCast, ← zpow_natCast, ← zpow_add₀ (by norm_num), ← zpow_add₀ (by norm_num)]
    congr 1
    omega
  · exact ⟨floor, by omega, by omega, by omega, rfl⟩

end Scientific

/-- The number that `%1.*g` writes: rounded to so many digits. -/
def toPrecision (precision : Nat) (value : ℚ) : ℚ :=
  roundDigits 10 precision (Int.log 10 |value| + 1 - precision) value

theorem toPrecision_neg (precision : Nat) (value : ℚ) :
    toPrecision precision (-value) = -toPrecision precision value := by
  rw [toPrecision, abs_neg, roundDigits_neg, toPrecision]

/-- What `generalDecimal` starts from: digits that begin with no zero, and their value. -/
structure Shown (precision : Nat) (value : ℚ) (top : Int) (n : Nat) : Prop where
  shape : scientific precision |value| = (top, n)
  low : 10 ^ (precision - 1) ≤ n
  high : n < 10 ^ precision
  near : Int.log 10 |value| ≤ top ∧ top ≤ Int.log 10 |value| + 1
  value : (n : ℚ) * 10 ^ (top + 1 - precision) = toPrecision precision |value|

theorem exists_shown {precision : Nat} {value : ℚ} (some_digit : 0 < precision) (nonzero : value ≠ 0) :
    ∃ top n, Shown precision value top n := by
  have spec := scientific_spec some_digit (abs_pos.mpr nonzero)
  rcases shape : scientific precision |value| with ⟨top, n⟩
  rw [shape] at spec
  obtain ⟨low, high, near_low, near_high, digits⟩ := spec
  refine ⟨top, n, shape, low, high, ⟨near_low, near_high⟩, ?_⟩
  rw [digits, toPrecision, abs_abs]

section General
variable {precision : Nat} {value : ℚ} {top : Int} {n : Nat}

theorem Shown.nonzero (shown : Shown precision value top n) : n ≠ 0 := by
  have power : 0 < 10 ^ (precision - 1) := Nat.pow_pos (by decide)
  have low := shown.low
  omega

theorem Shown.some_digit (shown : Shown precision value top n) : 0 < precision := by
  by_contra none
  have high := shown.high
  rw [Nat.eq_zero_of_not_pos none, pow_zero] at high
  exact shown.nonzero (by omega)

theorem Shown.length (shown : Shown precision value top n) : (natDigits n).length = precision := by
  have some_digit := shown.some_digit
  have high := shown.high
  rw [← Nat.sub_add_cancel some_digit] at high
  rw [natDigits_length shown.low high, Nat.sub_add_cancel some_digit]

/-- The three forms of `%g`. -/
theorem Shown.cases (shown : Shown precision value top n) :
    (∃ count : Nat, top = count ∧ count < precision ∧ generalDecimal precision value =
      { negative := decide (value < 0), whole := (natDigits n).take (count + 1),
        fraction := trimZeros ((natDigits n).drop (count + 1)), exponent := none }) ∨
    (∃ zeros : Nat, top = -(zeros + 1 : Nat) ∧ zeros < 4 ∧ generalDecimal precision value =
      { negative := decide (value < 0), whole := [48],
        fraction := List.replicate zeros 48 ++ trimZeros (natDigits n), exponent := none }) ∨
    generalDecimal precision value =
      { negative := decide (value < 0), whole := (natDigits n).take 1,
        fraction := trimZeros ((natDigits n).drop 1),
        exponent := some ⟨101, [if top < 0 then 45 else 43], exponentDigits top.natAbs⟩ } := by
  unfold generalDecimal
  rw [shown.shape]
  by_cases integral : 0 ≤ top ∧ top < precision
  · left
    obtain ⟨count, rfl⟩ := Int.eq_ofNat_of_zero_le integral.1
    refine ⟨count, rfl, by omega, ?_⟩
    simp only [if_pos integral, Int.toNat_natCast]
  · right
    by_cases small : -4 ≤ top ∧ top < 0
    · left
      obtain ⟨zeros, same⟩ := Int.eq_ofNat_of_zero_le (show 0 ≤ -top - 1 by omega)
      refine ⟨zeros, by omega, by omega, ?_⟩
      simp only [if_neg integral, if_pos small, same, Int.toNat_natCast]
    · right
      simp only [if_neg integral, if_neg small]

theorem all_isDigit_exponentDigits (n : Nat) : (exponentDigits n).all isDigit = true := by
  unfold exponentDigits
  split_ifs with small
  · rw [List.all_cons, List.all_cons, isDigit_digitOf small]
    decide
  · exact all_isDigit_natDigits n

theorem exponentDigits_ne_nil (n : Nat) : exponentDigits n ≠ [] := by
  unfold exponentDigits
  split_ifs
  · simp
  · exact natDigits_ne_nil n

theorem exponentDigits_wellFormed (n : Nat) (negative : Prop) [Decidable negative] :
    Exponent.WellFormed ⟨101, [if negative then 45 else 43], exponentDigits n⟩ where
  mark := Or.inl rfl
  sign := by
    by_cases sign : negative
    · exact Or.inr (Or.inr (by rw [if_pos sign]))
    · exact Or.inr (Or.inl (by rw [if_neg sign]))
  digits := all_isDigit_exponentDigits n
  nonempty := exponentDigits_ne_nil n

theorem readDigits_exponentDigits (n : Nat) : readDigits (exponentDigits n) = n := by
  unfold exponentDigits
  split_ifs with small
  · rw [show [48, digitOf n] = [48] ++ [digitOf n] from rfl, readDigits_append, readDigits_singleton,
      readDigits_singleton, toNat_digitOf small]
    simp
  · exact readDigits_natDigits n

theorem exponent_value (top : Int) :
    Exponent.value ⟨101, [if top < 0 then 45 else 43], exponentDigits top.natAbs⟩ = top := by
  unfold Exponent.value
  rw [readDigits_exponentDigits]
  by_cases negative : top < 0
  · simp only [negative, if_true]
    omega
  · simp only [negative, if_false]
    rw [if_neg (by decide)]
    omega

theorem Shown.wellFormed (shown : Shown precision value top n) :
    (generalDecimal precision value).WellFormed := by
  have digits := all_isDigit_natDigits n
  have head := natDigits_zero_or_head shown.nonzero
  have some_digit := natDigits_ne_nil n
  have whole : ∀ count, ((natDigits n).take (count + 1)).all isDigit = true ∧
      (natDigits n).take (count + 1) ≠ [] ∧ ((natDigits n).take (count + 1)).head? ≠ some 48 := by
    intro count
    refine ⟨?_, ?_, ?_⟩
    · rw [List.all_eq_true] at digits ⊢
      exact fun c member => digits c (List.mem_of_mem_take member)
    · simpa using some_digit
    · rw [List.head?_take, if_neg (Nat.succ_ne_zero count)]
      exact head
  have fraction : ∀ count, ((natDigits n).drop count).all isDigit = true := by
    intro count
    rw [List.all_eq_true] at digits ⊢
    exact fun c member => digits c (List.mem_of_mem_drop member)
  rcases shown.cases with ⟨count, -, -, shape⟩ | ⟨zeros, -, -, shape⟩ | shape
  · rw [shape]
    exact ⟨(whole count).1, (whole count).2.1, Or.inr (whole count).2.2,
      all_trimZeros (fraction _), by simp⟩
  · rw [shape]
    refine ⟨rfl, by simp, Or.inl rfl, ?_, by simp⟩
    rw [List.all_append, all_trimZeros digits, Bool.and_true, List.all_replicate]
    simp [show isDigit 48 = true by decide]
  · rw [shape]
    refine ⟨(whole 0).1, (whole 0).2.1, Or.inr (whole 0).2.2, all_trimZeros (fraction _), ?_⟩
    intro exponent present
    rw [← Option.some.inj present]
    exact exponentDigits_wellFormed _ _

/-- The text stands for the rounded number. -/
theorem Shown.magnitude (shown : Shown precision value top n) :
    (generalDecimal precision value).magnitude = toPrecision precision |value| := by
  rw [← shown.value]
  rcases shown.cases with ⟨count, height, few, shape⟩ | ⟨zeros, depth, -, shape⟩ | shape
  · rw [shape]
    simp only [Decimal.magnitude, Decimal.exponentValue]
    rw [readDigits_trimZeros, List.take_append_drop, readDigits_natDigits, List.length_drop,
      shown.length, height]
    congr 2
    omega
  · rw [shape]
    simp only [Decimal.magnitude, Decimal.exponentValue, ← List.append_assoc]
    have zero : ([48] ++ List.replicate zeros 48 : List UInt8) = List.replicate (zeros + 1) 48 := by
      rw [List.singleton_append, List.replicate_succ]
    have count : (0 : Int) - ((List.replicate zeros 48 ++ trimZeros (natDigits n)).length : Nat) =
        -zeros - ((trimZeros (natDigits n)).length : Nat) := by
      rw [List.length_append, List.length_replicate]
      push_cast
      omega
    rw [zero, count, readDigits_trimZeros, readDigits_append, readDigits_zeros, Nat.zero_mul,
      Nat.zero_add, readDigits_natDigits, shown.length, depth]
    congr 2
    push_cast
    omega
  · rw [shape]
    simp only [Decimal.magnitude, Decimal.exponentValue]
    have some_digit := shown.some_digit
    rw [readDigits_trimZeros, List.take_append_drop, readDigits_natDigits, List.length_drop,
      shown.length, exponent_value]
    congr 2
    omega

theorem Shown.decimal_value (shown : Shown precision value top n) :
    (generalDecimal precision value).value = toPrecision precision value := by
  have sign : (generalDecimal precision value).negative = decide (value < 0) := by
    rcases shown.cases with ⟨_, -, -, shape⟩ | ⟨_, -, -, shape⟩ | shape <;> rw [shape]
  rw [Decimal.value, sign, shown.magnitude]
  by_cases negative : value < 0
  · rw [decide_eq_true negative, if_pos rfl, abs_of_neg negative, toPrecision_neg, neg_neg]
  · rw [decide_eq_false negative, if_neg Bool.false_ne_true, abs_of_nonneg (not_lt.mp negative)]

theorem exponentDigits_length {n : Nat} (small : n < 1000) : (exponentDigits n).length ≤ 3 := by
  unfold exponentDigits
  split_ifs
  · simp
  · exact natDigits_length_le (by decide) small

theorem signText_length (decimal : Decimal) : decimal.signText.length ≤ 1 := by
  unfold Decimal.signText
  split_ifs
  · exact Nat.le_refl 1
  · exact Nat.zero_le 1

/-- A sign, a point, and an exponent of five characters at most. -/
theorem Shown.text_length (shown : Shown precision value top n) (bounded : top.natAbs < 1000) :
    (generalDecimal precision value).text.length ≤ precision + 7 := by
  have point : ∀ decimal : Decimal, decimal.fractionText.length ≤ 1 + decimal.fraction.length := by
    intro decimal
    unfold Decimal.fractionText
    split_ifs
    · simp
    · rw [List.length_cons]
      omega
  have sign_le := signText_length (generalDecimal precision value)
  have point_le := point (generalDecimal precision value)
  rw [Decimal.text, List.length_append, List.length_append, List.length_append]
  rcases shown.cases with ⟨count, -, few, shape⟩ | ⟨zeros, -, few, shape⟩ | shape
  · rw [shape] at sign_le point_le ⊢
    have fraction := trimZeros_length ((natDigits n).drop (count + 1))
    simp only [Decimal.exponentText, List.length_take, List.length_drop, shown.length,
      List.length_nil] at point_le fraction ⊢
    omega
  · rw [shape] at sign_le point_le ⊢
    have fraction := trimZeros_length (natDigits n)
    simp only [Decimal.exponentText, List.length_append, List.length_replicate, shown.length,
      List.length_nil, List.length_singleton] at point_le fraction ⊢
    omega
  · rw [shape] at sign_le point_le ⊢
    have fraction := trimZeros_length ((natDigits n).drop 1)
    have exponent := exponentDigits_length bounded
    simp only [Decimal.exponentText, Exponent.text, List.length_take, List.length_drop,
      shown.length, List.length_cons, List.length_append, List.length_nil] at point_le fraction ⊢
    omega

end General

/-! ## The decimal of a `double` -/

theorem valueInt_zero : valueInt (.finite 0) = 0 := by
  norm_num [valueInt, intMax, intMin]

theorem valueInt_bounds (number : Double) : intMin ≤ valueInt number ∧ valueInt number ≤ intMax := by
  cases number with
  | finite value =>
    simp only [valueInt]
    split_ifs with high low positive
    · decide
    · decide
    · have le : value ≤ ((intMax : Int) : ℚ) := (lt_of_not_ge high).le
      have floor : ⌊value⌋ ≤ intMax := Int.cast_le (R := ℚ).mp ((Int.floor_le value).trans le)
      have nonneg := Int.floor_nonneg.mpr positive
      have least : intMin ≤ 0 := by decide
      omega
    · have le : ((intMin : Int) : ℚ) ≤ value := (lt_of_not_ge low).le
      have ceil : intMin ≤ ⌈value⌉ := Int.cast_le (R := ℚ).mp (le.trans (Int.le_ceil value))
      have nonpos : ⌈value⌉ ≤ 0 := Int.ceil_le.mpr (by
        push_cast
        exact (lt_of_not_ge positive).le)
      have most : 0 ≤ intMax := by decide
      omega
  | infinite negative => cases negative <;> decide
  | nan => decide

theorem ne_zero_of_valueInt_ne {value : ℚ} (other : value ≠ valueInt (.finite value)) : value ≠ 0 := by
  intro zero
  rw [zero, valueInt_zero] at other
  exact other rfl

/-- The three decimals of a number. -/
theorem numberDecimal_cases (value : ℚ) :
    (value = valueInt (.finite value) ∧
      numberDecimal value = intDecimal (valueInt (.finite value))) ∨
    (value ≠ valueInt (.finite value) ∧
      compareDouble (toDouble (toPrecision 15 value)) (.finite value) = true ∧
      numberDecimal value = generalDecimal 15 value) ∨
    (value ≠ valueInt (.finite value) ∧
      compareDouble (toDouble (toPrecision 15 value)) (.finite value) = false ∧
      numberDecimal value = generalDecimal 17 value) := by
  unfold numberDecimal
  by_cases whole : value = valueInt (.finite value)
  · exact Or.inl ⟨whole, if_pos whole⟩
  · right
    obtain ⟨top, n, shown⟩ := exists_shown (show 0 < 15 by decide) (ne_zero_of_valueInt_ne whole)
    simp only [if_neg whole, shown.wellFormed.strtod, shown.decimal_value]
    cases recovered : compareDouble (toDouble (toPrecision 15 value)) (.finite value) with
    | true => exact Or.inl ⟨whole, rfl, if_pos rfl⟩
    | false => exact Or.inr ⟨whole, rfl, if_neg Bool.false_ne_true⟩

theorem numberDecimal_wellFormed (value : ℚ) : (numberDecimal value).WellFormed := by
  rcases numberDecimal_cases value with ⟨-, shape⟩ | ⟨other, -, shape⟩ | ⟨other, -, shape⟩
  · rw [shape]
    exact intDecimal_wellFormed _
  · obtain ⟨top, n, shown⟩ := exists_shown (show 0 < 15 by decide) (ne_zero_of_valueInt_ne other)
    rw [shape]
    exact shown.wellFormed
  · obtain ⟨top, n, shown⟩ := exists_shown (show 0 < 17 by decide) (ne_zero_of_valueInt_ne other)
    rw [shape]
    exact shown.wellFormed

theorem two_pow_le_ten_pow : 2 ^ 1074 ≤ 10 ^ 324 ∧ 2 ^ 1024 ≤ 10 ^ 309 := by decide +kernel

/-- The decimal exponents of a `double`. -/
theorem log_bounds {value : ℚ} (double : IsDouble (.finite value)) (nonzero : value ≠ 0) :
    -324 ≤ Int.log 10 |value| ∧ Int.log 10 |value| ≤ 308 := by
  obtain ⟨⟨significand, exponent, -, least, shape⟩, small⟩ := double
  have positive := abs_pos.mpr nonzero
  constructor
  · rw [← Int.zpow_le_iff_le_log (by decide) positive]
    have some_unit : 1 ≤ |significand| := by
      apply Int.one_le_abs
      intro zero
      rw [zero, Int.cast_zero, zero_mul] at shape
      exact nonzero shape
    have unit : (0 : ℚ) < 2 ^ exponent := zpow_pos (by norm_num) _
    calc
      ((10 : Nat) : ℚ) ^ (-324 : Int) ≤ 2 ^ (-1074 : Int) := by
        rw [zpow_neg, zpow_neg]
        apply inv_anti₀ (zpow_pos (by norm_num) _)
        exact_mod_cast two_pow_le_ten_pow.1
      _ ≤ 2 ^ exponent := zpow_le_zpow_right₀ (by norm_num) least
      _ = ((1 : Int) : ℚ) * 2 ^ exponent := by rw [Int.cast_one, one_mul]
      _ ≤ (|significand| : Int) * 2 ^ exponent :=
          mul_le_mul_of_nonneg_right (Int.cast_le.mpr some_unit) unit.le
      _ = |value| := by
          rw [shape, abs_mul, Int.cast_abs, Nat.cast_ofNat, abs_of_pos unit]
  · have below : Int.log 10 |value| < 309 := by
      rw [← Int.lt_zpow_iff_log_lt (by decide) positive]
      apply small.trans_le
      exact_mod_cast two_pow_le_ten_pow.2
    omega

/-- The text fits in `number_buffer`. -/
theorem numberDecimal_length {value : ℚ} (double : IsDouble (.finite value)) :
    (numberDecimal value).text.length ≤ 25 := by
  rcases numberDecimal_cases value with ⟨-, shape⟩ | ⟨other, -, shape⟩ | ⟨other, -, shape⟩
  · obtain ⟨low, high⟩ := valueInt_bounds (.finite value)
    have digits : (natDigits (valueInt (.finite value)).natAbs).length ≤ 10 := by
      apply natDigits_length_le (by decide)
      have least : intMin = -2147483648 := rfl
      have most : intMax = 2147483647 := rfl
      omega
    have sign := signText_length (intDecimal (valueInt (.finite value)))
    rw [shape]
    simp only [Decimal.text, Decimal.fractionText, Decimal.exponentText, intDecimal,
      List.length_append, if_true, List.length_nil] at sign ⊢
    omega
  · obtain ⟨top, n, shown⟩ := exists_shown (show 0 < 15 by decide) (ne_zero_of_valueInt_ne other)
    have bounds := log_bounds double (ne_zero_of_valueInt_ne other)
    have near := shown.near
    rw [shape]
    exact (shown.text_length (by omega)).trans (by decide)
  · obtain ⟨top, n, shown⟩ := exists_shown (show 0 < 17 by decide) (ne_zero_of_valueInt_ne other)
    have bounds := log_bounds double (ne_zero_of_valueInt_ne other)
    have near := shown.near
    rw [shape]
    exact (shown.text_length (by omega)).trans (by decide)

theorem numberText_length {number : Double} (double : IsDouble number) :
    (numberText number).length ≤ 25 := by
  cases number with
  | finite value => exact numberDecimal_length double
  | infinite _ => exact (by decide : (ascii "null").length ≤ 25)
  | nan => exact (by decide : (ascii "null").length ≤ 25)

end CNear.NumberText
