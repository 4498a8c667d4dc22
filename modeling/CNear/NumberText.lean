import CNear.CallResult
import CNear.Lib.Rounding
import Mathlib.Data.List.DropRight
import Mathlib.Data.Nat.Digits.Lemmas

/-! The decimal text of a `double`: `strtod` and the formats `%d`, `%1.15g` and `%1.17g` in the
C locale, and `parse_number` and `print_number` on them. A text is taken apart into a
`Decimal`, which both directions share. -/

namespace CNear.NumberText
open CJson CallResult Rounding

/-! ## Doubles -/

/-- The `double` closest to a number, the even one of two; there is no zero with a sign. -/
def toDouble (value : ℚ) : Double :=
  if |roundDigits 2 53 (-1074) value| < 2 ^ 1024 then .finite (roundDigits 2 53 (-1074) value)
  else .infinite (decide (value < 0))

/-- The values that a `double` has. -/
def IsDouble : Double → Prop
  | .finite value => Representable 2 53 (-1074) value ∧ |value| < 2 ^ 1024
  | _ => True

theorem isDouble_toDouble (value : ℚ) : IsDouble (toDouble value) := by
  unfold toDouble
  split
  · rename_i small
    exact ⟨representable_roundDigits (by decide) (by decide) value, small⟩
  · trivial

theorem toDouble_of_isDouble {value : ℚ} (double : IsDouble (.finite value)) :
    toDouble value = .finite value := by
  rw [toDouble, roundDigits_of_representable (by decide) double.1, if_pos double.2]

def fabs : Double → Double
  | .finite value => .finite |value|
  | .infinite _ => .infinite false
  | .nan => .nan

def subtract : Double → Double → Double
  | .finite a, .finite b => toDouble (a - b)
  | .infinite negative, .finite _ => .infinite negative
  | .finite _, .infinite negative => .infinite (!negative)
  | .infinite a, .infinite b => if a = b then .nan else .infinite a
  | _, _ => .nan

/-- The product with `DBL_EPSILON`. -/
def timesEpsilon : Double → Double
  | .finite value => toDouble (value / 2 ^ 52)
  | other => other

/-- `a <= b` -/
def atMost : Double → Double → Bool
  | .finite a, .finite b => a ≤ b
  | .infinite negative, .finite _ => negative
  | .finite _, .infinite negative => !negative
  | .infinite a, .infinite b => a || !b
  | _, _ => false

/-- `a > b` -/
def greater : Double → Double → Bool
  | .nan, _ => false
  | _, .nan => false
  | a, b => !atMost a b

def compareDouble (a b : Double) : Bool :=
  let maxVal := if greater (fabs a) (fabs b) then fabs a else fabs b
  atMost (fabs (subtract a b)) (timesEpsilon maxVal)

/-! ## Digits -/

def isDigit (c : UInt8) : Bool := 48 ≤ c && c ≤ 57

def digitOf (n : Nat) : UInt8 := UInt8.ofNat (48 + n)

def readDigits (digits : List UInt8) : Nat := digits.foldl (fun n c => 10 * n + (c.toNat - 48)) 0

/-- The digits of a number without zeros before them. -/
def natDigits (n : Nat) : List UInt8 :=
  if n = 0 then [48] else ((Nat.digits 10 n).map digitOf).reverse

/-! ## Decimal numbers -/

/-- `e`, a sign or none, and digits. -/
structure Exponent where
  mark : UInt8
  sign : List UInt8
  digits : List UInt8

def Exponent.text (exponent : Exponent) : List UInt8 :=
  exponent.mark :: (exponent.sign ++ exponent.digits)

def Exponent.value (exponent : Exponent) : Int :=
  if exponent.sign = [45] then -readDigits exponent.digits else readDigits exponent.digits

structure Decimal where
  negative : Bool
  whole : List UInt8
  fraction : List UInt8
  exponent : Option Exponent

namespace Decimal

def signText (decimal : Decimal) : List UInt8 := if decimal.negative then [45] else []

/-- A fraction without digits has no point. -/
def fractionText (decimal : Decimal) : List UInt8 :=
  if decimal.fraction = [] then [] else 46 :: decimal.fraction

def exponentText (decimal : Decimal) : List UInt8 :=
  match decimal.exponent with
  | none => []
  | some exponent => exponent.text

def text (decimal : Decimal) : List UInt8 :=
  decimal.signText ++ (decimal.whole ++ (decimal.fractionText ++ decimal.exponentText))

def exponentValue (decimal : Decimal) : Int :=
  match decimal.exponent with
  | none => 0
  | some exponent => exponent.value

def magnitude (decimal : Decimal) : ℚ :=
  readDigits (decimal.whole ++ decimal.fraction) *
    10 ^ (decimal.exponentValue - decimal.fraction.length)

def value (decimal : Decimal) : ℚ :=
  if decimal.negative then -decimal.magnitude else decimal.magnitude

end Decimal

/-- The exponents of a JSON number. -/
structure Exponent.WellFormed (exponent : Exponent) : Prop where
  mark : exponent.mark = 101 ∨ exponent.mark = 69
  sign : exponent.sign = [] ∨ exponent.sign = [43] ∨ exponent.sign = [45]
  digits : exponent.digits.all isDigit
  nonempty : exponent.digits ≠ []

/-- The numbers of JSON: no zero before other digits, and a digit on both sides of a point. -/
structure Decimal.WellFormed (decimal : Decimal) : Prop where
  whole : decimal.whole.all isDigit
  nonempty : decimal.whole ≠ []
  leading : decimal.whole = [48] ∨ decimal.whole.head? ≠ some 48
  fraction : decimal.fraction.all isDigit
  exponent : ∀ exponent, decimal.exponent = some exponent → exponent.WellFormed

/-! ## `strtod` -/

/-- The exponent at the start of a text and its length. A mark without digits is none. -/
def scanExponent : List UInt8 → Int × Nat
  | mark :: rest =>
      if mark = 101 ∨ mark = 69 then
        let sign := if rest.head? = some 43 ∨ rest.head? = some 45 then rest.take 1 else []
        let digits := (rest.drop sign.length).takeWhile isDigit
        if digits = [] then (0, 0)
        else (Exponent.value ⟨mark, sign, digits⟩, 1 + sign.length + digits.length)
      else (0, 0)
  | [] => (0, 0)

/-- The number at the start of a text of digits, signs, points and exponent marks, and the
length of what was converted. -/
def strtod (text : List UInt8) : Option (Double × Nat) :=
  let sign := if text.head? = some 43 ∨ text.head? = some 45 then text.take 1 else []
  let unsigned := text.drop sign.length
  let whole := unsigned.takeWhile isDigit
  let behind := unsigned.drop whole.length
  let point := if behind.head? = some 46 then behind.take 1 else []
  let fraction := if point = [] then [] else (behind.drop 1).takeWhile isDigit
  let (exponent, used) := scanExponent (behind.drop (point.length + fraction.length))
  let magnitude : ℚ := readDigits (whole ++ fraction) * 10 ^ (exponent - fraction.length)
  if whole = [] ∧ fraction = [] then none
  else some (toDouble (if sign = [45] then -magnitude else magnitude),
    sign.length + whole.length + point.length + fraction.length + used)

/-! ## `sprintf` -/

/-- `%d` -/
def intDecimal (n : Int) : Decimal :=
  { negative := decide (n < 0), whole := natDigits n.natAbs, fraction := [], exponent := none }

/-- The exponent and the digits of `%e` with `precision` digits, of a positive number. -/
def scientific (precision : Nat) (magnitude : ℚ) : Int × Nat :=
  let top := Int.log 10 magnitude
  let digits := (roundHalfEven (magnitude / 10 ^ (top + 1 - precision))).toNat
  if digits = 10 ^ precision then (top + 1, 10 ^ (precision - 1)) else (top, digits)

/-- Without the zeros at the end. -/
def trimZeros (digits : List UInt8) : List UInt8 := digits.rdropWhile (· = 48)

/-- At least two digits. -/
def exponentDigits (n : Nat) : List UInt8 := if n < 10 then [48, digitOf n] else natDigits n

/-- `%1.*g`: the style of `%f` for exponents from -4 up to the precision, else that of `%e`. -/
def generalDecimal (precision : Nat) (value : ℚ) : Decimal :=
  let (top, n) := scientific precision |value|
  let digits := natDigits n
  if 0 ≤ top ∧ top < precision then
    { negative := decide (value < 0), whole := digits.take (top.toNat + 1),
      fraction := trimZeros (digits.drop (top.toNat + 1)), exponent := none }
  else if -4 ≤ top ∧ top < 0 then
    { negative := decide (value < 0), whole := [48],
      fraction := List.replicate (-top - 1).toNat 48 ++ trimZeros digits, exponent := none }
  else
    { negative := decide (value < 0), whole := digits.take 1, fraction := trimZeros (digits.drop 1),
      exponent := some ⟨101, [if top < 0 then 45 else 43], exponentDigits top.natAbs⟩ }

/-! ## The functions of cJSON -/

/-- The decimal that `print_number` settles on for a finite number. -/
def numberDecimal (value : ℚ) : Decimal :=
  if value = valueInt (.finite value) then intDecimal (valueInt (.finite value))
  else
    let short := generalDecimal 15 value
    match strtod short.text with
    | some (test, _) =>
        if compareDouble test (.finite value) then short else generalDecimal 17 value
    | none => generalDecimal 17 value

/-- `number_buffer` of `print_number` -/
def numberText : Double → List UInt8
  | .finite value => (numberDecimal value).text
  | _ => ascii "null"

def isNumberChar (c : UInt8) : Bool := isDigit c || c == 43 || c == 45 || c == 101 || c == 69 || c == 46

/-- The number at `offset` and the offset behind it. No more than 63 characters are looked at. -/
def parseNumber (content : List UInt8) (offset : Nat) : Option (Double × Nat) :=
  match strtod (((content.drop offset).take 63).takeWhile isNumberChar) with
  | none => none
  | some (number, length) => some (number, offset + length)

/-! ## What digits say -/

theorem takeWhile_stop {p : UInt8 → Bool} {head tail : List UInt8} (inside : head.all p)
    (stops : ∀ c, tail.head? = some c → p c = false) : (head ++ tail).takeWhile p = head := by
  rw [List.takeWhile_append_of_pos (List.all_eq_true.mp inside)]
  cases tail with
  | nil => rw [List.takeWhile_nil, List.append_nil]
  | cons c rest =>
    have stop := stops c rfl
    rw [List.takeWhile_cons_of_neg (by simp [stop]), List.append_nil]

theorem isDigit_iff (c : UInt8) : isDigit c = true ↔ 48 ≤ c.toNat ∧ c.toNat ≤ 57 := by
  rw [isDigit, Bool.and_eq_true, decide_eq_true_eq, decide_eq_true_eq, UInt8.le_iff_toNat_le,
    UInt8.le_iff_toNat_le]
  rfl

theorem toNat_digitOf {n : Nat} (small : n < 10) : (digitOf n).toNat = 48 + n := by
  rw [digitOf, UInt8.toNat_ofNat']
  omega

theorem isDigit_digitOf {n : Nat} (small : n < 10) : isDigit (digitOf n) = true := by
  rw [isDigit_iff, toNat_digitOf small]
  omega

theorem digitOf_ne_zero {n : Nat} (small : n < 10) (nonzero : n ≠ 0) : digitOf n ≠ 48 := by
  intro same
  have value := congrArg UInt8.toNat same
  rw [toNat_digitOf small] at value
  change 48 + n = 48 at value
  omega

theorem foldl_digits (digits : List UInt8) (start : Nat) :
    digits.foldl (fun n c => 10 * n + (c.toNat - 48)) start =
      start * 10 ^ digits.length + readDigits digits := by
  induction digits generalizing start with
  | nil => simp [readDigits]
  | cons c rest ih =>
    have whole : readDigits (c :: rest) = (c.toNat - 48) * 10 ^ rest.length + readDigits rest := by
      rw [readDigits, List.foldl_cons, ih, Nat.mul_zero, Nat.zero_add]
    rw [List.foldl_cons, ih, whole, List.length_cons, pow_succ]
    ring

theorem readDigits_append (first second : List UInt8) :
    readDigits (first ++ second) = readDigits first * 10 ^ second.length + readDigits second := by
  rw [readDigits, List.foldl_append, foldl_digits second]
  rfl

@[simp] theorem readDigits_nil : readDigits [] = 0 := rfl

theorem readDigits_singleton (c : UInt8) : readDigits [c] = c.toNat - 48 := by
  simp [readDigits]

theorem readDigits_zeros (count : Nat) : readDigits (List.replicate count 48) = 0 := by
  induction count with
  | zero => rfl
  | succ count ih =>
    rw [List.replicate_succ', readDigits_append, ih]
    simp [readDigits_singleton]

theorem readDigits_natDigits (n : Nat) : readDigits (natDigits n) = n := by
  unfold natDigits
  split
  · rename_i zero
    rw [zero]
    decide
  · have read : ∀ digits : List Nat, (∀ d ∈ digits, d < 10) →
        readDigits (digits.map digitOf).reverse = Nat.ofDigits 10 digits := by
      intro digits small
      induction digits with
      | nil => rfl
      | cons d rest ih =>
        have head := small d List.mem_cons_self
        rw [List.map_cons, List.reverse_cons, readDigits_append, readDigits_singleton,
          toNat_digitOf head, ih fun d member => small d (List.mem_cons_of_mem _ member),
          Nat.ofDigits_cons]
        simp only [List.length_singleton, pow_one, Nat.add_sub_cancel_left]
        ring
    rw [read _ fun d member => Nat.digits_lt_base (by decide) member, Nat.ofDigits_digits]

theorem all_isDigit_natDigits (n : Nat) : (natDigits n).all isDigit = true := by
  unfold natDigits
  split
  · decide
  · rw [List.all_reverse, List.all_map, List.all_eq_true]
    intro d member
    exact isDigit_digitOf (Nat.digits_lt_base (by decide) member)

theorem natDigits_length {n count : Nat} (low : 10 ^ count ≤ n) (high : n < 10 ^ (count + 1)) :
    (natDigits n).length = count + 1 := by
  have nonzero : n ≠ 0 := by
    have positive : 0 < 10 ^ count := Nat.pow_pos (by decide)
    omega
  rw [natDigits, if_neg nonzero, List.length_reverse, List.length_map,
    Nat.length_digits _ _ (by decide) nonzero, Nat.log_eq_of_pow_le_of_lt_pow low high]

theorem natDigits_ne_nil (n : Nat) : natDigits n ≠ [] := by
  unfold natDigits
  split
  · simp
  · rename_i nonzero
    simpa [Nat.digits_eq_nil_iff_eq_zero] using nonzero

/-- Only zero starts with a zero. -/
theorem natDigits_leading (n : Nat) : natDigits n = [48] ∨ (natDigits n).head? ≠ some 48 := by
  unfold natDigits
  split
  · exact Or.inl rfl
  · rename_i nonzero
    right
    have some_digit : Nat.digits 10 n ≠ [] := Nat.digits_ne_nil_iff_ne_zero.mpr nonzero
    rw [List.head?_reverse, List.getLast?_map, List.getLast?_eq_some_getLast some_digit,
      Option.map_some, ne_eq, Option.some.injEq]
    exact digitOf_ne_zero (Nat.digits_lt_base (by decide) (List.getLast_mem some_digit))
      (Nat.getLast_digit_ne_zero 10 nonzero)

theorem natDigits_zero_or_head {n : Nat} (nonzero : n ≠ 0) : (natDigits n).head? ≠ some 48 := by
  rcases natDigits_leading n with zero | leading
  · have value := readDigits_natDigits n
    rw [zero] at value
    exact absurd value.symm nonzero
  · exact leading

theorem natDigits_length_le {n count : Nat} (positive : 0 < count) (small : n < 10 ^ count) :
    (natDigits n).length ≤ count := by
  unfold natDigits
  split
  · exact positive
  · rw [List.length_reverse, List.length_map]
    exact (Nat.digits_length_le_iff (by decide) n).mpr small

/-! ## Reading a decimal number -/

theorem Exponent.WellFormed.scan {exponent : Exponent} (formed : exponent.WellFormed) :
    scanExponent exponent.text = (exponent.value, exponent.text.length) := by
  obtain ⟨mark, sign, digits⟩ := exponent
  have whole : ∀ c, digits.head? = some c → c ≠ 43 ∧ c ≠ 45 := by
    intro c found
    have digit := List.all_eq_true.mp formed.digits c (List.mem_of_head? found)
    constructor <;> intro same <;> rw [same] at digit <;> exact absurd digit (by decide)
  have signed : (if (sign ++ digits).head? = some 43 ∨ (sign ++ digits).head? = some 45 then
      (sign ++ digits).take 1 else []) = sign := by
    rcases formed.sign with none | plus | minus
    · rw [show sign = [] from none, List.nil_append, if_neg]
      intro marked
      rcases marked with plus | minus
      · exact (whole _ plus).1 rfl
      · exact (whole _ minus).2 rfl
    · rw [show sign = [43] from plus]
      simp
    · rw [show sign = [45] from minus]
      simp
  have all : (digits ++ []).takeWhile isDigit = digits := takeWhile_stop formed.digits (by simp)
  rw [List.append_nil] at all
  have some_digit : digits ≠ [] := formed.nonempty
  simp only [Exponent.text, scanExponent, formed.mark, ↓reduceIte, signed, List.drop_left, all,
    some_digit, List.length_cons, List.length_append]
  congr 1
  omega

theorem Decimal.WellFormed.scanExponent {decimal : Decimal} (formed : decimal.WellFormed) :
    scanExponent decimal.exponentText = (decimal.exponentValue, decimal.exponentText.length) := by
  unfold Decimal.exponentText Decimal.exponentValue
  cases present : decimal.exponent with
  | none => rfl
  | some exponent => exact (formed.exponent exponent present).scan

theorem Decimal.WellFormed.exponent_head {decimal : Decimal} (formed : decimal.WellFormed) {c : UInt8}
    (found : decimal.exponentText.head? = some c) : c = 101 ∨ c = 69 := by
  unfold Decimal.exponentText at found
  cases present : decimal.exponent with
  | none =>
    rw [present] at found
    cases found
  | some exponent =>
    rw [present] at found
    rw [← Option.some.inj found]
    exact (formed.exponent exponent present).mark

/-- What ends the whole part and the fraction is no digit. -/
theorem mark_not_digit {c : UInt8} (mark : c = 101 ∨ c = 69) : isDigit c = false ∧ c ≠ 46 := by
  rcases mark with rfl | rfl <;> decide

theorem Decimal.WellFormed.fraction_head {decimal : Decimal} (formed : decimal.WellFormed) {c : UInt8}
    (found : (decimal.fractionText ++ decimal.exponentText).head? = some c) : isDigit c = false := by
  unfold Decimal.fractionText at found
  split_ifs at found
  · exact (mark_not_digit (formed.exponent_head found)).1
  · cases found
    decide

theorem Decimal.WellFormed.sign {decimal : Decimal} (formed : decimal.WellFormed) :
    (if decimal.text.head? = some 43 ∨ decimal.text.head? = some 45 then decimal.text.take 1
      else []) = decimal.signText := by
  unfold Decimal.text Decimal.signText
  cases decimal.negative with
  | true => simp
  | false =>
    obtain ⟨c, rest, shape⟩ := List.exists_cons_of_ne_nil formed.nonempty
    have digit := formed.whole
    rw [shape, List.all_cons, Bool.and_eq_true] at digit
    rw [shape]
    apply if_neg
    intro marked
    have same : c = 43 ∨ c = 45 := by simpa using marked
    rcases same with rfl | rfl <;> exact absurd digit.1 (by decide)

/-- Where there is a point, and what stands behind it. -/
theorem Decimal.WellFormed.point {decimal : Decimal} (formed : decimal.WellFormed) :
    let behind := decimal.fractionText ++ decimal.exponentText
    let point := if behind.head? = some 46 then behind.take 1 else []
    (if point = [] then [] else (behind.drop 1).takeWhile isDigit) = decimal.fraction ∧
      point.length + decimal.fraction.length = decimal.fractionText.length := by
  unfold Decimal.fractionText
  split_ifs with none
  · have no_point : decimal.exponentText.head? ≠ some 46 := by
      intro found
      exact (mark_not_digit (formed.exponent_head found)).2 rfl
    simp [no_point, none]
  · have stop : ∀ c, decimal.exponentText.head? = some c → isDigit c = false := by
      intro c found
      exact (mark_not_digit (formed.exponent_head found)).1
    simp [takeWhile_stop formed.fraction stop, Nat.add_comm]

/-- Of a JSON number everything is converted, to the closest `double`. -/
theorem Decimal.WellFormed.strtod {decimal : Decimal} (formed : decimal.WellFormed) :
    strtod decimal.text = some (toDouble decimal.value, decimal.text.length) := by
  have unsigned : decimal.text.drop decimal.signText.length =
      decimal.whole ++ (decimal.fractionText ++ decimal.exponentText) := List.drop_left
  have whole : (decimal.whole ++ (decimal.fractionText ++ decimal.exponentText)).takeWhile isDigit =
      decimal.whole := takeWhile_stop formed.whole fun c found => formed.fraction_head found
  obtain ⟨fraction, length⟩ := formed.point
  have exponent : (decimal.fractionText ++ decimal.exponentText).drop decimal.fractionText.length =
      decimal.exponentText := List.drop_left
  have some_digit : decimal.whole ≠ [] := formed.nonempty
  have sign : (decimal.signText = [45]) = (decimal.negative = true) := by
    unfold Decimal.signText
    cases decimal.negative <;> simp
  unfold NumberText.strtod
  simp only [formed.sign, unsigned, whole, List.drop_left, fraction, length, exponent,
    formed.scanExponent, some_digit, false_and, if_false, sign]
  rw [Decimal.value, Decimal.magnitude]
  congr 2
  simp only [Decimal.text, List.length_append, ← length]
  omega

theorem Decimal.WellFormed.numberChars {decimal : Decimal} (formed : decimal.WellFormed) :
    decimal.text.all isNumberChar = true := by
  have digits : ∀ {text : List UInt8}, text.all isDigit → text.all isNumberChar = true := by
    intro text all
    rw [List.all_eq_true] at all ⊢
    intro c member
    rw [isNumberChar, all c member]
    rfl
  have fraction : decimal.fractionText.all isNumberChar = true := by
    unfold Decimal.fractionText
    split_ifs
    · rfl
    · rw [List.all_cons, digits formed.fraction]
      decide
  have exponent : decimal.exponentText.all isNumberChar = true := by
    unfold Decimal.exponentText
    cases present : decimal.exponent with
    | none => rfl
    | some exponent =>
      have good := formed.exponent exponent present
      change (exponent.mark :: (exponent.sign ++ exponent.digits)).all isNumberChar = true
      rw [List.all_cons, List.all_append, digits good.digits]
      rcases good.mark with mark | mark <;> rcases good.sign with sign | sign | sign <;>
        rw [mark, sign] <;> decide
  have sign : decimal.signText.all isNumberChar = true := by
    unfold Decimal.signText
    split_ifs <;> decide
  rw [Decimal.text, List.all_append, List.all_append, List.all_append, sign, digits formed.whole,
    fraction, exponent]
  rfl

/-- What `parse_value` takes for the start of a number. -/
theorem Decimal.WellFormed.head {decimal : Decimal} (formed : decimal.WellFormed) :
    ∃ c rest, decimal.text = c :: rest ∧ (c = 45 ∨ isDigit c = true) := by
  unfold Decimal.text Decimal.signText
  cases decimal.negative with
  | true => exact ⟨45, _, rfl, Or.inl rfl⟩
  | false =>
    obtain ⟨c, rest, shape⟩ := List.exists_cons_of_ne_nil formed.nonempty
    have digit := formed.whole
    rw [shape, List.all_cons, Bool.and_eq_true] at digit
    rw [shape]
    exact ⟨c, _, rfl, Or.inr digit.1⟩

/-- A JSON number in a text is read as the closest `double`, if it fits in
`number_c_string` and something ends it. -/
theorem parseNumber_text {content : List UInt8} {offset : Nat} {decimal : Decimal} {rest : List UInt8}
    (stands : content.drop offset = decimal.text ++ rest) (formed : decimal.WellFormed)
    (fits : decimal.text.length ≤ 63) (ends : ∀ c, rest.head? = some c → isNumberChar c = false) :
    parseNumber content offset = some (toDouble decimal.value, offset + decimal.text.length) := by
  have copied : ((decimal.text ++ rest).take 63).takeWhile isNumberChar = decimal.text := by
    rw [List.take_append, List.take_of_length_le fits]
    apply takeWhile_stop formed.numberChars
    intro c found
    rw [List.head?_take] at found
    split_ifs at found
    exact ends c found
  unfold parseNumber
  rw [stands, copied, formed.strtod]

/-! ## How much is converted -/

theorem scanExponent_length (text : List UInt8) : (scanExponent text).2 ≤ text.length := by
  cases text with
  | nil => exact Nat.le_refl _
  | cons mark rest =>
    simp only [scanExponent]
    split_ifs with exponent signed none none
    · exact Nat.zero_le _
    · have digits := (List.takeWhile_prefix isDigit (l := (rest.drop (rest.take 1).length))).length_le
      rw [List.length_drop] at digits
      have sign := List.length_take_le 1 rest
      have some_sign := List.length_take_le' 1 rest
      rw [List.length_cons]
      omega
    · exact Nat.zero_le _
    · have digits := (List.takeWhile_prefix isDigit (l := (rest.drop ([] : List UInt8).length))).length_le
      rw [List.length_nil, List.drop_zero] at digits
      simp only [List.length_cons, List.length_nil, List.drop_zero]
      omega
    · exact Nat.zero_le _

/-- What is converted is not empty and lies in the text. -/
theorem strtod_bounds {text : List UInt8} {number : Double} {length : Nat}
    (converted : strtod text = some (number, length)) :
    IsDouble number ∧ 0 < length ∧ length ≤ text.length := by
  unfold strtod at converted
  simp only at converted
  generalize sign_eq : (if text.head? = some 43 ∨ text.head? = some 45 then text.take 1 else []) =
    sign at converted
  have sign_le : sign.length ≤ text.length := by
    rw [← sign_eq]
    split_ifs
    · exact List.length_take_le' 1 text
    · exact Nat.zero_le _
  have whole_le := (List.takeWhile_prefix isDigit (l := (text.drop sign.length))).length_le
  rw [List.length_drop] at whole_le
  generalize whole_eq : (text.drop sign.length).takeWhile isDigit = whole at converted whole_le
  generalize behind_eq : (text.drop sign.length).drop whole.length = behind at converted
  have behind_length : behind.length = text.length - sign.length - whole.length := by
    rw [← behind_eq, List.length_drop, List.length_drop]
  generalize point_eq : (if behind.head? = some 46 then behind.take 1 else []) = point at converted
  generalize fraction_eq :
    (if point = [] then [] else (behind.drop 1).takeWhile isDigit) = fraction at converted
  have fraction_le : point.length + fraction.length ≤ behind.length := by
    rw [← fraction_eq]
    split_ifs with none
    · rw [none]
      exact Nat.zero_le _
    · have digits := (List.takeWhile_prefix isDigit (l := (behind.drop 1))).length_le
      rw [List.length_drop] at digits
      have one : point.length ≤ 1 := by
        rw [← point_eq]
        split_ifs
        · exact List.length_take_le 1 behind
        · exact Nat.zero_le _
      have some_behind : behind ≠ [] := by
        intro empty
        rw [empty] at point_eq
        exact none point_eq.symm
      have positive := List.length_pos_iff.mpr some_behind
      omega
  have used := scanExponent_length (behind.drop (point.length + fraction.length))
  rw [List.length_drop] at used
  by_cases none : whole = [] ∧ fraction = []
  · rw [if_pos none] at converted
    cases converted
  rw [if_neg none] at converted
  cases converted
  refine ⟨isDouble_toDouble _, ?_, by omega⟩
  rcases not_and_or.mp none with digits | digits
  · have positive := List.length_pos_iff.mpr digits
    omega
  · have positive := List.length_pos_iff.mpr digits
    omega

theorem parseNumber_bounds {content : List UInt8} {offset behind : Nat} {number : Double}
    (parsed : parseNumber content offset = some (number, behind)) :
    IsDouble number ∧ offset < behind ∧ behind ≤ content.length := by
  unfold parseNumber at parsed
  split at parsed
  · cases parsed
  · rename_i number' length converted
    cases parsed
    obtain ⟨double, positive, bound⟩ := strtod_bounds converted
    have copied := (List.takeWhile_prefix isNumberChar (l := ((content.drop offset).take 63))).length_le
    rw [List.length_take, List.length_drop] at copied
    exact ⟨double, by omega, by omega⟩

end CNear.NumberText
