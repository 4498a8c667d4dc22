import CNear.NumberRecovery
import CNear.NumberTrip

/-! The trip of a whole number is what it is with all the roundings of `strtod`, `sprintf` and
`compare_double`: none of the differences that are compared is rounded. -/

namespace CNear.NumberTrip
open CJson NumberText SignificantDigits

/-! ## The two ways to round -/

/-- Rounding is that of rational numbers. -/
theorem roundTo_natCast {unit : Nat} (positive : 0 < unit) (n : Nat) :
    Rounding.roundTo (unit : ℚ) n = roundTo unit n := by
  have parts := Nat.div_add_mod n unit
  have below := Nat.mod_lt n positive
  have size : (0 : ℚ) < unit := Nat.cast_pos.mpr positive
  have floor : ⌊(n : ℚ) / unit⌋ = ((n / unit : Nat) : Int) := Rat.floor_natCast_div_natCast n unit
  have rest : (n : ℚ) / unit - ((n / unit : Nat) : ℚ) = (n % unit : Nat) / unit := by
    rw [eq_div_iff size.ne', sub_mul, div_mul_cancel₀ _ size.ne', sub_eq_iff_eq_add]
    have cast := congrArg (Nat.cast (R := ℚ)) parts
    push_cast at cast ⊢
    linarith
  have less : (n % unit : Nat) / (unit : ℚ) < 1 / 2 ↔ 2 * (n % unit) < unit := by
    rw [div_lt_iff₀ size, ← Nat.cast_lt (α := ℚ)]
    push_cast
    constructor <;> intro bound <;> linarith
  have tie : (n % unit : Nat) / (unit : ℚ) = 1 / 2 ↔ 2 * (n % unit) = unit := by
    rw [div_eq_iff size.ne', ← Nat.cast_inj (R := ℚ)]
    push_cast
    constructor <;> intro same <;> linarith
  have even : ((n / unit : Nat) : Int) % 2 = 0 ↔ n / unit % 2 = 0 := by omega
  unfold Rounding.roundTo Rounding.roundHalfEven roundTo
  rw [floor, Int.cast_natCast, rest]
  simp only [less, tie, even]
  split_ifs
  · rw [Int.cast_natCast, Nat.cast_mul]
  · rw [Int.cast_add, Int.cast_natCast, Int.cast_one, Nat.cast_mul, Nat.cast_add, Nat.cast_one]

/-- So many digits of a whole number, where no digit behind the point is cut off. -/
theorem roundDigits_natCast {base digits : Nat} {least : Int} (wide : 1 < base) (n : Nat)
    (low : least ≤ 0 ∨ least ≤ (Nat.log base n : Int) + 1 - digits) :
    Rounding.roundDigits base digits least (n : ℚ) = significant base digits n := by
  have log : Int.log base |(n : ℚ)| = Nat.log base n := by
    rw [Nat.abs_cast, Int.log_natCast]
  unfold Rounding.roundDigits Rounding.place
  rw [log]
  rcases Nat.lt_or_ge (Nat.log base n) digits with short | long
  · have kept : significant base digits n = n :=
      significant_of_lt (Nat.lt_pow_of_log_lt wide short)
    have negative : max ((Nat.log base n : Int) + 1 - digits) least ≤ 0 := by omega
    have multiple := Rounding.multiple_pow (K := ℚ) wide negative
    rw [kept]
    apply Rounding.roundTo_of_multiple (Rounding.base_pow_pos wide _)
    rw [zpow_zero] at multiple
    exact multiple.trans ⟨n, by rw [Int.cast_natCast, mul_one]⟩
  · have place : max ((Nat.log base n : Int) + 1 - digits) least =
        (Nat.log base n + 1 - digits : Nat) := by omega
    rw [place, zpow_natCast, ← Nat.cast_pow, roundTo_natCast (Nat.pow_pos (by omega))]
    rfl

/-! ## Bounds -/

/-- A few digits are already close. -/
theorem significant_near {base digits : Nat} (wide : 1 < base) (many : 5 ≤ digits) (n : Nat) :
    32 * significant base digits n ≤ 33 * n ∧ 31 * n ≤ 32 * significant base digits n := by
  rcases Nat.lt_or_ge n (base ^ digits) with short | long
  · rw [significant_of_lt short]
    omega
  · have count := Nat.le_log_of_pow_le wide long
    have nonzero : n ≠ 0 := by
      have some_unit : 0 < base ^ digits := Nat.pow_pos (by omega)
      omega
    have low := Nat.pow_log_le_self base nonzero
    have unit : 16 * base ^ (Nat.log base n + 1 - digits) ≤ n := by
      calc
        16 * base ^ (Nat.log base n + 1 - digits) = 2 ^ 4 * base ^ (Nat.log base n + 1 - digits) := rfl
        _ ≤ base ^ 4 * base ^ (Nat.log base n + 1 - digits) :=
            Nat.mul_le_mul_right _ (Nat.pow_le_pow_left wide 4)
        _ = base ^ (4 + (Nat.log base n + 1 - digits)) := (pow_add _ _ _).symm
        _ ≤ base ^ Nat.log base n := Nat.pow_le_pow_right (by omega) (by omega)
        _ ≤ n := low
    obtain ⟨above, below⟩ :=
      @roundTo_close (base ^ (Nat.log base n + 1 - digits)) (Nat.pow_pos (by omega)) n
    unfold significant
    omega

theorem two_pow_small : 2 * 2 ^ 66 < 2 ^ 1024 := by decide +kernel

theorem strtod_lt {n : Nat} (small : n < 2 ^ 66) : strtod n < 2 * 2 ^ 66 := by
  have near := (@significant_near 2 53 (by decide) (by decide) n).1
  unfold strtod
  omega

/-- `strtod` of a whole number. -/
theorem toDouble_natCast {n : Nat} (small : n < 2 ^ 66) : toDouble n = .finite (strtod n : Nat) := by
  have bound : |((strtod n : Nat) : ℚ)| < 2 ^ 1024 := by
    rw [Nat.abs_cast]
    exact_mod_cast (strtod_lt small).trans two_pow_small
  rw [toDouble, roundDigits_natCast (by decide) n (Or.inl (by decide))]
  exact if_pos bound

theorem toPrecision_natCast (precision n : Nat) :
    toPrecision precision n = significant 10 precision n := by
  have log : Int.log 10 |(n : ℚ)| = Nat.log 10 n := by
    rw [Nat.abs_cast, Int.log_natCast]
  rw [toPrecision, log]
  exact roundDigits_natCast (by decide) n (Or.inr le_rfl)

/-! ## The comparison -/

section Exact
variable {a b : Nat}

theorem isDouble_natCast (double : strtod a = a) (small : a < 2 ^ 66) :
    IsDouble (.finite (a : ℚ)) := by
  have read := isDouble_toDouble (a : ℚ)
  rwa [toDouble_natCast small, double] at read

/-- A number that is near to a double is another one plus a double. -/
theorem strtod_sub (left : strtod a = a) (right : strtod b = b) (le : a ≤ b) (near : b ≤ 2 * a) :
    strtod (b - a) = b - a := by
  rw [strtod_eq_self_iff]
  rcases Nat.lt_or_ge a (2 ^ 53) with short | long
  · exact ⟨b - a, 0, by omega, by rw [pow_zero, Nat.mul_one]⟩
  · obtain ⟨place, -, count, rounds⟩ := exists_place (show 1 < 2 by decide) long
    obtain ⟨place', -, count', rounds'⟩ := exists_place (show 1 < 2 by decide) (long.trans le)
    have higher : place ≤ place' := by
      have logs := Nat.log_mono_right (b := 2) le
      omega
    have left_grid : 2 ^ place ∣ a := by
      rw [← left, strtod, rounds]
      exact dvd_roundTo _ a
    have right_grid : 2 ^ place ∣ b := by
      rw [← right, strtod, rounds']
      exact (pow_dvd_pow 2 higher).trans (dvd_roundTo _ b)
    obtain ⟨m, shape⟩ := Nat.dvd_sub right_grid left_grid
    refine ⟨m, place, ?_, by rw [shape, Nat.mul_comm]⟩
    have high : a < 2 ^ (Nat.log 2 a + 1) := Nat.lt_pow_succ_log_self (by decide) a
    rw [count, pow_add] at high
    have bound : 2 ^ place * m < 2 ^ place * 2 ^ 53 := by omega
    exact Nat.lt_of_mul_lt_mul_left bound

/-- The bound of the comparison is not rounded. -/
theorem timesEpsilon_natCast (double : strtod a = a) (small : a < 2 ^ 66) :
    timesEpsilon (.finite (a : ℚ)) = .finite ((a : ℚ) / 2 ^ 52) := by
  obtain ⟨m, e, few, shape⟩ := (strtod_eq_self_iff a).mp double
  have bound := (isDouble_natCast double small).2
  apply toDouble_of_isDouble
  refine ⟨⟨m, (e : Int) - 52, ?_, by omega, ?_⟩, ?_⟩
  · rw [Nat.abs_cast]
    exact_mod_cast few
  · have cast := congrArg (Nat.cast (R := ℚ)) shape
    push_cast at cast ⊢
    rw [cast, zpow_sub₀ (by norm_num), zpow_natCast, mul_div_assoc]
    norm_num
  · apply lt_of_le_of_lt _ bound
    rw [abs_div]
    exact div_le_self (abs_nonneg _) (by norm_num)

/-- Numbers that are near to each other are compared exactly. -/
theorem compareDouble_natCast (left : strtod a = a) (right : strtod b = b) (small : a < 2 ^ 66)
    (small' : b < 2 ^ 66) (near : a ≤ 2 * b) (near' : b ≤ 2 * a) :
    NumberText.compareDouble (.finite a) (.finite b) = compareDouble a b := by
  have difference : fabs (subtract (.finite (a : ℚ)) (.finite b)) =
      .finite ((max a b - min a b : Nat) : ℚ) := by
    rcases Nat.le_total a b with le | le
    · have exactly := isDouble_natCast (strtod_sub left right le near') (by omega)
      have negated : (a : ℚ) - b = -((b - a : Nat) : ℚ) := by
        rw [Nat.cast_sub le]
        ring
      have double : IsDouble (.finite ((a : ℚ) - b)) := by
        rw [negated]
        exact ⟨exactly.1.neg, by rw [abs_neg]; exact exactly.2⟩
      rw [subtract, toDouble_of_isDouble double, fabs, negated, abs_neg, Nat.abs_cast,
        max_eq_right le, min_eq_left le]
    · have exactly := isDouble_natCast (strtod_sub right left le near) (by omega)
      rw [Nat.cast_sub le] at exactly
      rw [subtract, toDouble_of_isDouble exactly, fabs, max_eq_left le, min_eq_right le,
        ← Nat.cast_sub le, Nat.abs_cast]
  have maximum : timesEpsilon (if greater (fabs (.finite (a : ℚ))) (fabs (.finite (b : ℚ)))
      then fabs (.finite (a : ℚ)) else fabs (.finite (b : ℚ))) =
      .finite (((max a b : Nat) : ℚ) / 2 ^ 52) := by
    simp only [fabs, Nat.abs_cast, greater, atMost, Nat.cast_le]
    rcases Nat.le_total a b with le | le
    · rw [max_eq_right le, if_neg (by simp [le])]
      exact timesEpsilon_natCast right small'
    · rcases le.eq_or_lt with rfl | less
      · rw [max_self, if_neg (by simp)]
        exact timesEpsilon_natCast right small'
      · rw [max_eq_left le, if_pos (by simp [less])]
        exact timesEpsilon_natCast left small
  have scaled : ((max a b - min a b : Nat) : ℚ) ≤ ((max a b : Nat) : ℚ) / 2 ^ 52 ↔
      (max a b - min a b) * 2 ^ 52 ≤ max a b := by
    rw [le_div_iff₀ (by norm_num), ← Nat.cast_le (α := ℚ)]
    push_cast
    exact Iff.rfl
  unfold NumberText.compareDouble
  simp only [maximum, difference]
  exact decide_eq_decide.mpr scaled

end Exact

/-! ## The trip -/

theorem valueInt_natCast (d : Nat) :
    (d : ℚ) = CallResult.valueInt (.finite d) ↔ d ≤ intMax := by
  have least : (CallResult.intMax : ℚ) ≤ d ↔ intMax ≤ d := by
    rw [← Nat.cast_le (α := ℚ)]
    rfl
  rw [CallResult.valueInt]
  by_cases large : intMax ≤ d
  · rw [if_pos (least.mpr large)]
    change (d : ℚ) = ((intMax : Nat) : ℚ) ↔ _
    rw [Nat.cast_inj]
    omega
  · have above : ¬ (d : ℚ) ≤ (CallResult.intMin : ℚ) := by
      rw [not_le]
      calc
        (CallResult.intMin : ℚ) < 0 := by norm_num [CallResult.intMin]
        _ ≤ (d : ℚ) := Nat.cast_nonneg _
    rw [if_neg (least.not.mpr large), if_neg above, if_pos (Nat.cast_nonneg _), Int.floor_natCast,
      Int.cast_natCast]
    exact ⟨fun _ => by omega, fun _ => rfl⟩

/-- The whole trip, with every rounding. -/
theorem reread_natCast {n : Nat} (small : n < 2 ^ 64) :
    reread (strtod n : Nat) = .finite (readBack n : Nat) := by
  have double := strtod_strtod n
  have first := (@significant_near 2 53 (by decide) (by decide) n).1
  change 32 * strtod n ≤ 33 * n at first
  unfold readBack
  generalize strtod n = d at double first ⊢
  have bound : d < 2 ^ 65 := by omega
  have short : ∀ digits, 5 ≤ digits → significant 10 digits d < 2 ^ 66 := by
    intro digits many
    have near := (@significant_near 10 digits (by decide) many d).1
    omega
  have read : ∀ digits, 5 ≤ digits →
      toDouble (toPrecision digits d) = .finite (strtod (significant 10 digits d) : Nat) := by
    intro digits many
    rw [toPrecision_natCast, toDouble_natCast (short digits many)]
  have compared : NumberText.compareDouble (toDouble (toPrecision 15 d)) (.finite d) =
      compareDouble (strtod (significant 10 15 d)) d := by
    obtain ⟨above, below⟩ := @significant_near 10 15 (by decide) (by decide) d
    obtain ⟨above', below'⟩ := @significant_near 2 53 (by decide) (by decide) (significant 10 15 d)
    change 32 * strtod (significant 10 15 d) ≤ _ at above'
    change _ ≤ 32 * strtod (significant 10 15 d) at below'
    rw [read 15 (by decide)]
    exact compareDouble_natCast (strtod_strtod _) double (by omega) (by omega) (by omega) (by omega)
  rw [printNumber, ← compared]
  rcases numberDecimal_cases (d : ℚ) with ⟨whole, shape⟩ | ⟨other, taken, shape⟩ |
    ⟨other, refused, shape⟩
  · rw [if_pos ((valueInt_natCast d).mp whole), reread, shape, intDecimal_value, ← whole,
      toDouble_natCast (by omega)]
  · obtain ⟨top, digits, shown⟩ := exists_shown (show 0 < 15 by decide) (ne_zero_of_valueInt_ne other)
    rw [if_neg (fun few => other ((valueInt_natCast d).mpr few)), if_pos taken, reread, shape,
      shown.decimal_value, read 15 (by decide)]
  · obtain ⟨top, digits, shown⟩ := exists_shown (show 0 < 17 by decide) (ne_zero_of_valueInt_ne other)
    rw [if_neg (fun few => other ((valueInt_natCast d).mpr few)), if_neg (by simp [refused]), reread,
      shape, shown.decimal_value, read 17 (by decide)]

/-- The digits of a `u64` in one text, and what `print_number` makes of their number in another:
`parse_number` reads both as the functions on natural numbers say, and the second as the number
of the first exactly if it survives. -/
theorem parseNumber_natDigits {n : Nat} {content rest content' rest' : List UInt8}
    {offset offset' : Nat} (small : n < 2 ^ 64) (stands : content.drop offset = natDigits n ++ rest)
    (ends : ∀ c, rest.head? = some c → isNumberChar c = false)
    (stands' : content'.drop offset' = numberText (.finite (strtod n : Nat)) ++ rest')
    (ends' : ∀ c, rest'.head? = some c → isNumberChar c = false) :
    parseNumber content offset = some (.finite (strtod n : Nat), offset + (natDigits n).length) ∧
      parseNumber content' offset' = some (.finite (readBack n : Nat),
        offset' + (numberText (.finite (strtod n : Nat))).length) ∧
      (readBack n = n ↔ Survives n) := by
  have digits : (intDecimal n).text = natDigits n := by
    have plain : ¬ (n : Int) < 0 := by omega
    simp [Decimal.text, Decimal.signText, Decimal.fractionText, Decimal.exponentText, intDecimal,
      plain]
  have short : (natDigits n).length ≤ 20 := natDigits_length_le (by decide) (by omega)
  have wide : n < 2 ^ 66 := by omega
  refine ⟨?_, ?_, readBack_eq_iff n⟩
  · have parsed := @parseNumber_text content offset (intDecimal n) rest
      (by rw [digits]; exact stands) (intDecimal_wellFormed n) (by rw [digits]; omega) ends
    rwa [digits, intDecimal_value, Int.cast_natCast, toDouble_natCast wide] at parsed
  · have near := (@significant_near 2 53 (by decide) (by decide) n).1
    change 32 * strtod n ≤ 33 * n at near
    have double := isDouble_natCast (strtod_strtod n) (by omega)
    have length := numberDecimal_length double
    have parsed := parseNumber_text stands' (numberDecimal_wellFormed _) (length.trans (by decide)) ends'
    rw [parsed]
    exact congrArg (fun back => some (back, _)) (reread_natCast small)

/-- The first whole number that is lost, in front of a comma. -/
theorem parseNumber_natDigits_lost :
    let printed := numberText (.finite (strtod 9007199254740993 : Nat))
    parseNumber (natDigits 9007199254740993 ++ [44]) 0 = some (.finite 9007199254740992, 16) ∧
      parseNumber (printed ++ [44]) 0 = some (.finite 9007199254740990, printed.length) := by
  intro printed
  have comma : ∀ c, [(44 : UInt8)].head? = some c → isNumberChar c = false := by
    intro c found
    cases found
    decide
  have digits : (natDigits 9007199254740993).length = 16 := natDigits_length (by decide) (by decide)
  have first : strtod 9007199254740993 = 9007199254740992 := by decide
  have second : readBack 9007199254740993 = 9007199254740990 := by decide
  have trip := @parseNumber_natDigits 9007199254740993 _ [44] (printed ++ [44]) [44] 0 0 (by decide)
    (List.drop_zero (l := natDigits 9007199254740993 ++ [44])) comma List.drop_zero comma
  rw [first, second, digits, Nat.zero_add, Nat.zero_add] at trip
  exact ⟨trip.1, trip.2.1⟩

end CNear.NumberTrip
