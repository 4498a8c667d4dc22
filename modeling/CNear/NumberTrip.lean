import CNear.Lib.SignificantDigits

/-! What a whole number of a JSON text comes to when `cJSON_Parse` has made a `double` of it,
and again when that has been printed and parsed once more. Below 2^52 nothing is lost. -/

namespace CNear.NumberTrip
open SignificantDigits

/-- `strtod` of the digits of `n`, exactly. -/
def strtod (n : Nat) : Nat := significant 2 53 n

def intMax : Nat := 2147483647

/-- `fabs(a - b) <= maxVal * DBL_EPSILON`, without rounding for numbers this close. -/
def compareDouble (a b : Nat) : Bool := (max a b - min a b) * 2 ^ 52 ≤ max a b

/-- The number that `print_number` prints: by `%d`, or to 15 digits where they are taken to
recover the double, or to 17. -/
def printNumber (d : Nat) : Nat :=
  if d ≤ intMax then d
  else if compareDouble (strtod (significant 10 15 d)) d = true then significant 10 15 d
  else significant 10 17 d

/-- Parsed, printed and parsed. -/
def readBack (n : Nat) : Nat := strtod (printNumber (strtod n))

theorem strtod_of_lt {n : Nat} (small : n < 2 ^ 53) : strtod n = n := significant_of_lt small

/-- From 2^53 on doubles are even. -/
theorem strtod_lt_or_even (n : Nat) : strtod n < 2 ^ 53 ∨ 2 ∣ strtod n := by
  rcases Nat.lt_or_ge n (2 ^ 53) with small | large
  · left
    rw [strtod_of_lt small]
    exact small
  · exact Or.inr (base_dvd_significant (by decide) large)

/-- Sixteen digits are not taken for fifteen: they would have to end in a zero. -/
theorem short_of_compareDouble {d : Nat} (small : d < 2 ^ 52)
    (close : compareDouble (strtod (significant 10 15 d)) d = true) :
    significant 10 15 d = d := by
  rcases Nat.lt_or_ge d (10 ^ 15) with few | many
  · exact significant_of_lt few
  · have digits : significant 10 15 d = roundTo (10 ^ (0 + 1)) d :=
      significant_eq many (small.trans (by decide))
    obtain ⟨above, below⟩ := @roundTo_close (10 ^ (0 + 1)) (by decide) d
    have ends := dvd_roundTo (10 ^ (0 + 1)) d
    rw [digits] at close ⊢
    have exactly : strtod (roundTo (10 ^ (0 + 1)) d) = roundTo (10 ^ (0 + 1)) d :=
      strtod_of_lt (by omega)
    rw [exactly, compareDouble, decide_eq_true_eq] at close
    omega

/-- Below 2^52 the trip is exact. -/
theorem readBack_of_lt {n : Nat} (small : n < 2 ^ 52) : readBack n = n := by
  have first : strtod n = n := strtod_of_lt (by omega)
  have printed : printNumber n = n := by
    unfold printNumber
    split
    · rfl
    · split
      · rename_i close
        exact short_of_compareDouble small close
      · exact significant_of_lt (small.trans (by decide))
  calc
    readBack n = strtod (printNumber (strtod n)) := rfl
    _ = strtod (printNumber n) := by rw [first]
    _ = strtod n := by rw [printed]
    _ = n := first

/-- A number that fits in 64 bits still fits when it is incremented. -/
theorem readBack_add_one_lt {n : Nat} (fits : readBack n < 2 ^ 64) : readBack n + 1 < 2 ^ 64 := by
  rcases strtod_lt_or_even (printNumber (strtod n)) with small | even
  · change readBack n < 2 ^ 53 at small
    omega
  · change 2 ∣ readBack n at even
    omega

/-! ## Which numbers survive -/

/-- The number is a double, and its fifteen digits, where the printer takes them for it, are
read as it. -/
structure Survives (n : Nat) : Prop where
  double : ∃ m e, m < 2 ^ 53 ∧ n = m * 2 ^ e
  fifteen : compareDouble (strtod (significant 10 15 n)) n = true →
    strtod (significant 10 15 n) = n

theorem strtod_strtod (n : Nat) : strtod (strtod n) = strtod n :=
  significant_idem (by decide) (by decide) n

theorem strtod_eq_self_iff (n : Nat) : strtod n = n ↔ ∃ m e, m < 2 ^ 53 ∧ n = m * 2 ^ e :=
  significant_eq_self_iff (by decide) n

/-- Seventeen digits recover a double. -/
theorem strtod_seventeen {d : Nat} (double : strtod d = d) : strtod (significant 10 17 d) = d :=
  significant_recovers (by decide) (by decide) (by decide) (by decide) double

/-- A number comes back as itself exactly if it survives. -/
theorem readBack_eq_iff (n : Nat) : readBack n = n ↔ Survives n := by
  constructor
  · intro same
    have double : strtod n = n := by
      calc
        strtod n = strtod (readBack n) := by rw [same]
        _ = readBack n := strtod_strtod _
        _ = n := same
    refine ⟨(strtod_eq_self_iff n).mp double, ?_⟩
    intro taken
    by_cases few : n ≤ intMax
    · have short : n < 10 ^ 15 := lt_of_le_of_lt few (by decide)
      rw [significant_of_lt short, double]
    · rw [readBack, double, printNumber, if_neg few, if_pos taken] at same
      exact same
  · intro survives
    have double := (strtod_eq_self_iff n).mpr survives.double
    rw [readBack, double, printNumber]
    by_cases few : n ≤ intMax
    · rw [if_pos few, double]
    · rw [if_neg few]
      by_cases taken : compareDouble (strtod (significant 10 15 n)) n = true
      · rw [if_pos taken]
        exact survives.fifteen taken
      · rw [if_neg taken]
        exact strtod_seventeen double

/-- Sixteen digits below 2^53 are lost next to a multiple of ten. -/
theorem survives_sixteen_iff {n : Nat} (low : 2 ^ 52 ≤ n) (high : n < 2 ^ 53) :
    Survives n ↔ n % 10 ≠ 1 ∧ n % 10 ≠ 9 := by
  have digits : significant 10 15 n = roundTo (10 ^ (0 + 1)) n :=
    significant_eq (low.trans' (by decide)) (high.trans (by decide))
  obtain ⟨above, below⟩ := @roundTo_close (10 ^ (0 + 1)) (by decide) n
  have ends := dvd_roundTo (10 ^ (0 + 1)) n
  rw [← digits] at above below ends
  have exactly : strtod (significant 10 15 n) = significant 10 15 n := strtod_of_lt (by omega)
  have double : ∃ m e, m < 2 ^ 53 ∧ n = m * 2 ^ e := ⟨n, 0, high, by rw [pow_zero, Nat.mul_one]⟩
  constructor
  · intro survives
    have fifteen := survives.fifteen
    rw [exactly, compareDouble, decide_eq_true_eq] at fifteen
    omega
  · intro lastDigit
    refine ⟨double, ?_⟩
    rw [exactly, compareDouble, decide_eq_true_eq]
    omega

end CNear.NumberTrip
