import CNear.Base58Array

/-! Which strings keep `base58_decode` inside its arrays. The table has no entry past 127, the
size `len * 137 / 100` is positive and an `int` only in a range of lengths, and it leaves three
bytes to spare from nine characters on. Where `char` is signed, a foreign character enters as
2^32 - 1 over a value whose low byte is zero, and its four bytes can exceed the spare ones. -/

namespace CNear.Base58Bounds
open Base58 Base58Array LittleEndian

/-- The characters from the first that is not a `1`. -/
def tail (s : List UInt8) : List UInt8 := s.drop (leadingOnes s)

/-- The string is long enough for what it holds. -/
structure Roomy (sign : CharSign) (s : List UInt8) : Prop where
  onesOnly : (∀ c ∈ s, c = '1'.toUInt8) → 3 ≤ s.length
  foreignFirst : ∀ c rest, sign = .signed → tail s = c :: rest → c ∉ alphabet →
    9 ≤ s.length ∨ (4 ≤ rest.length ∧ 6 ≤ s.length)
  foreignThird : ∀ c d x, sign = .signed → tail s = [c, d, x] → c ∈ alphabet → d ∈ alphabet →
    (58 * digit c + digit d) % 256 = 0 → x ∉ alphabet → 6 ≤ s.length

/-- The strings that are decoded within the table, the array and the `int` range. -/
structure StaysInside (sign : CharSign) (input : CString) : Prop where
  nonempty : input.bytes ≠ []
  noOverflow : 137 * input.strlen < 0x80000000
  inTable : ∀ c ∈ input.bytes, c.toNat < 128
  roomy : Roomy sign input.bytes

/-! ## Bounds on what is read -/

theorem entry_foreign {c : UInt8} (known : InTable c) (foreign : c ∉ alphabet) :
    entry .signed c = 0xffffffff ∧ entry .unsigned c = 255 := by
  have all : ∀ n < 128, UInt8.ofNat n ∉ alphabet →
      entry .signed (UInt8.ofNat n) = 0xffffffff ∧ entry .unsigned (UInt8.ofNat n) = 255 := by
    decide +kernel
  have here := all c.toNat known
  rw [UInt8.ofNat_toNat] at here
  exact here foreign

theorem stepValue_le (carry v : Nat) : stepValue carry v ≤ 58 * v + carry := by
  unfold stepValue
  split_ifs
  · omega
  · exact le_rfl

theorem le_succ_stepValue (carry v : Nat) : 58 * v + 1 ≤ stepValue carry (v + 1) := by
  unfold stepValue
  split_ifs
  · omega
  · omega

/-- Digits of at most `57 * slack` add at most `slack` at the first place. -/
theorem foldl_upper (sign : CharSign) (slack : Nat) {s : List UInt8} (v : Nat)
    (small : ∀ c ∈ s, entry sign c ≤ 57 * slack) :
    s.foldl (fun v c => stepValue (entry sign c) v) v + slack ≤ 58 ^ s.length * (v + slack) := by
  induction s generalizing v with
  | nil => simp
  | cons c s ih =>
    obtain ⟨first, later⟩ := List.forall_mem_cons.mp small
    have step := stepValue_le (entry sign c) v
    calc
      (c :: s).foldl (fun v c => stepValue (entry sign c) v) v + slack
          ≤ 58 ^ s.length * (stepValue (entry sign c) v + slack) := ih _ later
      _ ≤ 58 ^ s.length * (58 * (v + slack)) := Nat.mul_le_mul_left _ (by omega)
      _ = 58 ^ (c :: s).length * (v + slack) := by rw [List.length_cons, pow_succ, Nat.mul_assoc]

theorem foldl_lower (sign : CharSign) (s : List UInt8) (v : Nat) :
    58 ^ s.length * v + 1 ≤ s.foldl (fun v c => stepValue (entry sign c) v) (v + 1) := by
  induction s generalizing v with
  | nil => simp
  | cons c s ih =>
    obtain ⟨next, shape⟩ := Nat.exists_eq_add_of_le (le_succ_stepValue (entry sign c) v)
    rw [List.foldl_cons, shape, Nat.add_right_comm]
    calc
      58 ^ (c :: s).length * v + 1 = 58 ^ s.length * (58 * v) + 1 := by
        rw [List.length_cons, pow_succ, Nat.mul_assoc]
      _ ≤ 58 ^ s.length * (58 * v + next) + 1 :=
        Nat.succ_le_succ (Nat.mul_le_mul_left _ (Nat.le_add_right _ _))
      _ ≤ _ := ih _

/-! ## The ones and what follows them -/

theorem tail_cons_one (s : List UInt8) : tail ('1'.toUInt8 :: s) = tail s := by
  rw [tail, leadingOnes_cons_one, List.drop_succ_cons, tail]

theorem tail_cons_ne {c : UInt8} (other : c ≠ '1'.toUInt8) (s : List UInt8) :
    tail (c :: s) = c :: s := by
  rw [tail, leadingOnes_cons_ne other, List.drop_zero]

theorem length_eq_ones_add (s : List UInt8) : s.length = leadingOnes s + (tail s).length := by
  have count := leadingOnes_le s
  rw [tail, List.length_drop]
  omega

theorem mem_of_mem_tail {s : List UInt8} {c : UInt8} (member : c ∈ tail s) : c ∈ s :=
  List.mem_of_mem_drop member

theorem tail_eq_nil_iff (s : List UInt8) : tail s = [] ↔ ∀ c ∈ s, c = '1'.toUInt8 := by
  induction s with
  | nil => simp [tail]
  | cons c s ih =>
    by_cases one : c = '1'.toUInt8
    · subst one
      rw [tail_cons_one, ih, List.forall_mem_cons]
      simp
    · simp [tail_cons_ne one, one]

theorem head_ne_one {s rest : List UInt8} {c : UInt8} (shape : tail s = c :: rest) :
    c ≠ '1'.toUInt8 := by
  induction s with
  | nil => simp [tail] at shape
  | cons d s ih =>
    by_cases one : d = '1'.toUInt8
    · subst one
      rw [tail_cons_one] at shape
      exact ih shape
    · rw [tail_cons_ne one] at shape
      injection shape with same
      rwa [← same]

/-- Ones in front add nothing to the value. -/
theorem readValue_tail (sign : CharSign) (s : List UInt8) :
    readValue sign s = readValue sign (tail s) := by
  induction s with
  | nil => rfl
  | cons c s ih =>
    by_cases one : c = '1'.toUInt8
    · subst one
      have nothing : stepValue (entry sign '1'.toUInt8) 0 = 0 := by
        cases sign <;> decide +kernel
      rw [tail_cons_one, ← ih, readValue, List.foldl_cons, nothing]
      rfl
    · rw [tail_cons_ne one]

/-- The value that the rest is read into, after the first character. -/
theorem readValue_cons (sign : CharSign) (c : UInt8) (rest : List UInt8) :
    readValue sign (c :: rest) =
      rest.foldl (fun v c => stepValue (entry sign c) v) (entry sign c) := by
  have first : stepValue (entry sign c) 0 = entry sign c := by
    simp [stepValue]
  rw [readValue, List.foldl_cons, first]

theorem readLength_tail (sign : CharSign) (s : List UInt8) :
    readLength sign s = leadingOnes s + (canonical (readValue sign (tail s))).length := by
  rw [readLength, readValue_tail]

/-! ## How many bytes are read -/

theorem pow_growth (count base : Nat) : 58 ^ count * 256 ^ base ≤ 256 ^ (base + count) := by
  rw [pow_add, Nat.mul_comm]
  exact Nat.mul_le_mul_left _ (Nat.pow_le_pow_left (by decide) _)

/-- An unsigned `char` reads a foreign character as 255, which fits the spare room. -/
theorem unsigned_length {c : UInt8} {rest : List UInt8} (known : ∀ d ∈ c :: rest, InTable d) :
    (canonical (readValue .unsigned (c :: rest))).length ≤ rest.length + 1 := by
  have small : ∀ d ∈ c :: rest, entry .unsigned d ≤ 255 := by
    intro d member
    by_cases inside : d ∈ alphabet
    · have bound := digit_lt inside
      rw [entry_of_mem .unsigned inside]
      omega
    · rw [(entry_foreign (known d member) inside).2]
  have upper := foldl_upper .unsigned 5 (s := rest) (entry .unsigned c)
    (fun d member => (small d (List.mem_cons_of_mem _ member)).trans (by decide))
  have head := small c List.mem_cons_self
  have growth : ∀ count : Nat, 58 ^ count * 260 ≤ 256 ^ (count + 1) + 4 := by
    intro count
    induction count with
    | zero => decide
    | succ count ih =>
      have large : 256 ≤ 256 ^ (count + 1) := Nat.le_self_pow (Nat.succ_ne_zero count) 256
      calc
        58 ^ (count + 1) * 260 = 58 * (58 ^ count * 260) := by ring
        _ ≤ 58 * (256 ^ (count + 1) + 4) := Nat.mul_le_mul_left _ ih
        _ ≤ 256 * 256 ^ (count + 1) + 4 := by
          generalize 256 ^ (count + 1) = power at large
          omega
        _ = 256 ^ (count + 1 + 1) + 4 := by rw [pow_succ 256 (count + 1), Nat.mul_comm]
  have scaled : 58 ^ rest.length * (entry .unsigned c + 5) ≤ 58 ^ rest.length * 260 :=
    Nat.mul_le_mul_left _ (by omega)
  have whole := growth rest.length
  apply canonical_length_le (Nat.succ_pos _)
  rw [readValue_cons]
  omega

/-- Every entry of the table, as the digits of `foldl_upper`. -/
theorem entry_le (sign : CharSign) (c : UInt8) : entry sign c ≤ 57 * 75350304 := by
  have small := entry_small sign c
  omega

/-- A foreign character in front is four bytes, and each later character adds to them. -/
theorem foreign_upper (rest : List UInt8) {c : UInt8} (minusOne : entry .signed c = 0xffffffff) :
    readValue .signed (c :: rest) + 75350304 ≤ 58 ^ rest.length * 4370317599 := by
  have upper := foldl_upper .signed 75350304 (s := rest) (entry .signed c)
    (fun d _ => entry_le .signed d)
  rw [readValue_cons]
  rwa [minusOne] at upper ⊢

theorem foreign_lower (rest : List UInt8) {c : UInt8} (minusOne : entry .signed c = 0xffffffff) :
    58 ^ rest.length * 0xfffffffe < readValue .signed (c :: rest) := by
  have lower := foldl_lower .signed rest 0xfffffffe
  rw [readValue_cons, minusOne]
  exact lower

theorem foreign_length_short {c : UInt8} {rest : List UInt8}
    (minusOne : entry .signed c = 0xffffffff) (short : rest.length ≤ 3) :
    (canonical (readValue .signed (c :: rest))).length = rest.length + 4 := by
  have upper := foreign_upper rest minusOne
  have lower := foreign_lower rest minusOne
  have powers : ∀ count ≤ 3, 58 ^ count * 4370317599 < 256 ^ (count + 4) + 75350304 ∧
      256 ^ (count + 3) ≤ 58 ^ count * 0xfffffffe + 1 := by decide
  obtain ⟨above, below⟩ := powers rest.length short
  apply Nat.le_antisymm
  · exact canonical_length_le (Nat.succ_pos _) (by omega)
  · exact lt_canonical_length (below.trans lower)

theorem foreign_length_long {c : UInt8} {rest : List UInt8}
    (minusOne : entry .signed c = 0xffffffff) (long : 4 ≤ rest.length) :
    (canonical (readValue .signed (c :: rest))).length ≤ rest.length + 3 := by
  have upper := foreign_upper rest minusOne
  obtain ⟨more, count⟩ := Nat.exists_eq_add_of_le long
  apply canonical_length_le (Nat.succ_pos _)
  calc
    readValue .signed (c :: rest) < 58 ^ rest.length * 4370317599 := by omega
    _ = 58 ^ more * (58 ^ 4 * 4370317599) := by
      rw [count, pow_add]
      ring
    _ ≤ 58 ^ more * 256 ^ 7 := Nat.mul_le_mul_left _ (by decide)
    _ ≤ 256 ^ (7 + more) := pow_growth more 7
    _ = 256 ^ (rest.length + 3) := by
      rw [count]
      congr 1
      omega

theorem foreign_length_five {c : UInt8} {rest : List UInt8}
    (minusOne : entry .signed c = 0xffffffff) (five : rest.length = 4) :
    6 < (canonical (readValue .signed (c :: rest))).length := by
  have lower := foreign_lower rest minusOne
  rw [five] at lower
  exact lt_canonical_length ((show 256 ^ 6 ≤ 58 ^ 4 * 0xfffffffe by decide).trans lower.le)

/-- Two characters, the first a digit, are less than `58 ^ 2`, and never a foreign four bytes. -/
theorem second_step {c d : UInt8} (digits : c ∈ alphabet) (nonzero : c ≠ '1'.toUInt8)
    (known : InTable d) :
    0 < stepValue (entry .signed d) (digit c) ∧ stepValue (entry .signed d) (digit c) ≤ 3363 ∧
      (stepValue (entry .signed d) (digit c) % 256 = 0 ↔
        d ∈ alphabet ∧ (58 * digit c + digit d) % 256 = 0) := by
  have small := digit_lt digits
  have positive : digit c ≠ 0 := fun zero => nonzero (digit_eq_zero.mp zero)
  by_cases inside : d ∈ alphabet
  · have bound := digit_lt inside
    have plain : stepValue (digit d) (digit c) = 58 * digit c + digit d := by
      rw [stepValue, if_neg (by omega)]
    rw [entry_of_mem .signed inside, plain]
    exact ⟨by omega, by omega, by simp [inside]⟩
  · have wrapped : stepValue 0xffffffff (digit c) = 58 * digit c - 1 := by
      rw [stepValue, if_pos ⟨rfl, by omega⟩]
    rw [(entry_foreign known inside).1, wrapped]
    -- `58 * digit c - 1` is odd.
    exact ⟨by omega, by omega, by simp only [inside, false_and, iff_false]; omega⟩

theorem readValue_third {c d x : UInt8} (digits : c ∈ alphabet) :
    readValue .signed [c, d, x] =
      stepValue (entry .signed x) (stepValue (entry .signed d) (digit c)) := by
  rw [readValue_cons, entry_of_mem .signed digits]
  rfl

/-- A third character that is foreign over an aligned value makes five bytes. -/
theorem third_length_aligned {c d x : UInt8} (digits : c ∈ alphabet) (nonzero : c ≠ '1'.toUInt8)
    (second : d ∈ alphabet) (aligned : (58 * digit c + digit d) % 256 = 0) (known : InTable x)
    (foreign : x ∉ alphabet) : (canonical (readValue .signed [c, d, x])).length = 5 := by
  obtain ⟨positive, small, zero⟩ := second_step digits nonzero (inTable_of_mem second)
  rw [readValue_third digits, (entry_foreign known foreign).1]
  generalize stepValue (entry .signed d) (digit c) = v at positive small zero
  have residue := zero.mpr ⟨second, aligned⟩
  have injected : stepValue 0xffffffff v = 58 * v + 0xffffffff := by
    rw [stepValue, if_neg (by simp [residue])]
  rw [injected]
  apply Nat.le_antisymm
  · exact canonical_length_le (by decide) (by omega)
  · exact lt_canonical_length (by omega)

theorem third_length_other {c d x : UInt8} (digits : c ∈ alphabet) (nonzero : c ≠ '1'.toUInt8)
    (middle : InTable d) (known : InTable x)
    (other : ¬ (d ∈ alphabet ∧ (58 * digit c + digit d) % 256 = 0 ∧ x ∉ alphabet)) :
    (canonical (readValue .signed [c, d, x])).length ≤ 3 := by
  obtain ⟨positive, small, zero⟩ := second_step digits nonzero middle
  rw [readValue_third digits]
  apply canonical_length_le (by decide)
  by_cases inside : x ∈ alphabet
  · have bound := digit_lt inside
    have step := stepValue_le (entry .signed x) (stepValue (entry .signed d) (digit c))
    rw [entry_of_mem .signed inside] at step ⊢
    omega
  · have residue : stepValue (entry .signed d) (digit c) % 256 ≠ 0 := by
      intro aligned
      obtain ⟨second, sum⟩ := zero.mp aligned
      exact other ⟨second, sum, inside⟩
    rw [(entry_foreign known inside).1, stepValue, if_pos ⟨rfl, residue⟩]
    omega

/-- From four characters on, one spare byte is enough. -/
theorem later_length {c d : UInt8} {rest : List UInt8} (digits : c ∈ alphabet)
    (nonzero : c ≠ '1'.toUInt8) (known : InTable d) (long : 2 ≤ rest.length) :
    (canonical (readValue .signed (c :: d :: rest))).length ≤ rest.length + 3 := by
  obtain ⟨-, small, -⟩ := second_step digits nonzero known
  have upper := foldl_upper .signed 75350304 (s := rest) (stepValue (entry .signed d) (digit c))
    (fun x _ => entry_le .signed x)
  have scaled : 58 ^ rest.length * (stepValue (entry .signed d) (digit c) + 75350304) ≤
      58 ^ rest.length * 75353667 := Nat.mul_le_mul_left _ (by omega)
  obtain ⟨more, count⟩ := Nat.exists_eq_add_of_le long
  rw [readValue_cons, List.foldl_cons, entry_of_mem .signed digits]
  apply canonical_length_le (Nat.succ_pos _)
  calc
    rest.foldl (fun v c => stepValue (entry .signed c) v) (stepValue (entry .signed d) (digit c))
        < 58 ^ rest.length * 75353667 := by omega
    _ = 58 ^ more * (58 ^ 2 * 75353667) := by
      rw [count, pow_add]
      ring
    _ ≤ 58 ^ more * 256 ^ 5 := Nat.mul_le_mul_left _ (by decide)
    _ ≤ 256 ^ (5 + more) := pow_growth more 5
    _ = 256 ^ (rest.length + 3) := by
      rw [count]
      congr 1
      omega

/-! ## Which strings fit -/

/-- What is read from the string is no longer than the array for it. -/
def Fits (sign : CharSign) (s : List UInt8) : Prop := readLength sign s ≤ s.length * 137 / 100

theorem fits_ones_iff (sign : CharSign) {s : List UInt8} (ones : tail s = []) :
    Fits sign s ↔ Roomy sign s := by
  have all := (tail_eq_nil_iff s).mp ones
  have length := readLength_ones sign all
  constructor
  · intro fits
    rw [Fits, length] at fits
    exact {
      onesOnly := fun _ => by omega
      foreignFirst := fun c rest _ shape => by simp [ones] at shape
      foreignThird := fun c d x _ shape => by simp [ones] at shape }
  · intro roomy
    have three := roomy.onesOnly all
    rw [Fits, length]
    omega

theorem fits_unsigned {s rest : List UInt8} {c : UInt8} (shape : tail s = c :: rest)
    (known : ∀ d ∈ s, InTable d) : Fits .unsigned s := by
  have count := length_eq_ones_add s
  have table : ∀ d ∈ c :: rest, InTable d := by
    intro d member
    rw [← shape] at member
    exact known d (mem_of_mem_tail member)
  have bytes := unsigned_length table
  rw [Fits, readLength_tail, shape]
  rw [shape, List.length_cons] at count
  omega

theorem fits_foreign_iff {s rest : List UInt8} {c : UInt8} (shape : tail s = c :: rest)
    (known : InTable c) (foreign : c ∉ alphabet) :
    Fits .signed s ↔ 9 ≤ s.length ∨ (4 ≤ rest.length ∧ 6 ≤ s.length) := by
  have minusOne := (entry_foreign known foreign).1
  have count := length_eq_ones_add s
  rw [shape, List.length_cons] at count
  rw [Fits, readLength_tail, shape]
  rcases Nat.lt_or_ge rest.length 4 with short | long
  · have bytes := foreign_length_short minusOne (Nat.le_of_lt_succ short)
    rw [bytes]
    omega
  · have bytes := foreign_length_long minusOne long
    constructor
    · intro fits
      by_contra narrow
      have four : rest.length = 4 := by omega
      have wide := foreign_length_five minusOne four
      omega
    · omega

theorem fits_digit_iff {s rest : List UInt8} {c : UInt8} (shape : tail s = c :: rest)
    (known : ∀ d ∈ s, InTable d) (digits : c ∈ alphabet) :
    Fits .signed s ↔ ∀ d x, rest = [d, x] → d ∈ alphabet →
      (58 * digit c + digit d) % 256 = 0 → x ∉ alphabet → 6 ≤ s.length := by
  have nonzero := head_ne_one shape
  have count := length_eq_ones_add s
  have inTable : ∀ d ∈ c :: rest, InTable d :=
    fun d member => known d (mem_of_mem_tail (shape ▸ member))
  rw [shape, List.length_cons] at count
  rw [Fits, readLength_tail, shape]
  match rest with
  | [] =>
    have small := digit_lt digits
    have bytes : (canonical (readValue .signed [c])).length ≤ 1 := by
      rw [readValue_cons, List.foldl_nil, entry_of_mem .signed digits]
      exact canonical_length_le Nat.one_pos (by omega)
    simp only [List.length_nil] at count
    apply iff_of_true
    · omega
    · intro e y same
      cases same
  | [d] =>
    obtain ⟨-, small, -⟩ := second_step digits nonzero (inTable d (by simp))
    have bytes : (canonical (readValue .signed [c, d])).length ≤ 2 := by
      rw [readValue_cons, List.foldl_cons, List.foldl_nil, entry_of_mem .signed digits]
      exact canonical_length_le Nat.two_pos (by omega)
    simp only [List.length_singleton] at count
    apply iff_of_true
    · omega
    · intro e y same
      cases same
  | [d, x] =>
    have middle := inTable d (by simp)
    have last := inTable x (by simp)
    simp only [List.length_cons, List.length_nil] at count
    by_cases injects : d ∈ alphabet ∧ (58 * digit c + digit d) % 256 = 0 ∧ x ∉ alphabet
    · have bytes := third_length_aligned digits nonzero injects.1 injects.2.1 last injects.2.2
      rw [bytes]
      constructor
      · intro fits _ _ _ _ _ _
        omega
      · intro roomy
        have long := roomy d x rfl injects.1 injects.2.1 injects.2.2
        omega
    · have bytes := third_length_other digits nonzero middle last injects
      constructor
      · intro _ e y same second aligned foreign
        injection same with first others
        injection others with next
        subst first next
        exact absurd ⟨second, aligned, foreign⟩ injects
      · omega
  | d :: x :: y :: more =>
    have bytes := later_length digits nonzero (inTable d (by simp))
      (show 2 ≤ (x :: y :: more).length by simp)
    simp only [List.length_cons] at count bytes
    apply iff_of_true
    · omega
    · intro e z same
      cases same

/-- The array holds what is read exactly when the string is long enough for it. -/
theorem fits_iff (sign : CharSign) {s : List UInt8} (known : ∀ c ∈ s, InTable c) :
    Fits sign s ↔ Roomy sign s := by
  cases shape : tail s with
  | nil => exact fits_ones_iff sign shape
  | cons c rest =>
    have notOnes : ¬ ∀ d ∈ s, d = '1'.toUInt8 := by
      rw [← tail_eq_nil_iff, shape]
      simp
    cases sign with
    | unsigned =>
      constructor
      · intro _
        exact {
          onesOnly := fun ones => absurd ones notOnes
          foreignFirst := fun _ _ signed => by cases signed
          foreignThird := fun _ _ _ signed => by cases signed }
      · exact fun _ => fits_unsigned shape known
    | signed =>
      have head := known c (mem_of_mem_tail (by simp [shape]))
      by_cases digits : c ∈ alphabet
      · rw [fits_digit_iff shape known digits]
        constructor
        · intro third
          exact {
            onesOnly := fun ones => absurd ones notOnes
            foreignFirst := fun d others _ same foreign => by
              rw [shape] at same
              injection same with first
              exact absurd (first ▸ digits) foreign
            foreignThird := fun d e x _ same _ => by
              rw [shape] at same
              injection same with first others
              subst first
              exact third e x others }
        · intro roomy d x others
          exact roomy.foreignThird c d x rfl (by rw [shape, others]) digits
      · rw [fits_foreign_iff shape head digits]
        constructor
        · intro long
          exact {
            onesOnly := fun ones => absurd ones notOnes
            foreignFirst := fun d others _ same _ => by
              rw [shape] at same
              injection same with _ tails
              rwa [← tails]
            foreignThird := fun d e x _ same member => by
              rw [shape] at same
              injection same with first
              exact absurd (first ▸ member) digits }
        · exact fun roomy => roomy.foreignFirst c rest rfl shape digits

/-! ## The whole run -/

theorem defined_iff (sign : CharSign) {input : CString} (inRange : input.strlen < 0x80000000) :
    Defined sign input ↔ StaysInside sign input := by
  have length := intLength_of_lt inRange
  have whole := scanned_of_lt inRange
  constructor
  · intro defined
    have positive := defined.positive
    have noOverflow := defined.noOverflow
    have inTable := defined.inTable
    have room := defined.room
    rw [length] at positive noOverflow
    rw [whole] at inTable
    rw [whole, length, Int.toNat_natCast] at room
    exact {
      nonempty := List.length_pos_iff.mp (Int.natCast_pos.mp positive)
      noOverflow := by omega
      inTable := inTable
      roomy := (fits_iff sign inTable).mp room }
  · intro inside
    have positive : 0 < input.strlen := List.length_pos_iff.mpr inside.nonempty
    have noOverflow := inside.noOverflow
    exact {
      positive := by omega
      noOverflow := by omega
      inTable := by
        rw [whole]
        exact inside.inTable
      room := by
        rw [whole, length, Int.toNat_natCast]
        exact (fits_iff sign inside.inTable).mpr inside.roomy }

/-- `base58_decode` reads the table below 128, keeps every index of `result` below its size and
computes `len * 137` in an `int` exactly for these strings. -/
theorem base58DecodeAt_inside_iff (sign : CharSign) (uninit : (size : Nat) → Block size)
    (input : CString) {outsize : Nat} (output : Block outsize)
    (inRange : input.strlen < 0x80000000) :
    (∃ outcome, base58DecodeAt sign uninit input output = .ok outcome) ↔ StaysInside sign input := by
  rw [base58DecodeAt_eq, ← defined_iff sign inRange]
  constructor
  · intro succeeds
    by_contra undefined
    obtain ⟨outcome, ran⟩ := succeeds
    obtain ⟨fault, failed⟩ := base58Decode_undefined undefined output
    rw [failed] at ran
    cases ran
  · exact fun defined => ⟨_, base58Decode_defined defined output⟩

theorem base58DecodeAt_inside_hello :
    (∃ outcome, base58DecodeAt .signed (fun size => Block.replicate size 0xff)
        (.lit "112NEpo7TZRRrLZSi2U") (Block.replicate 8 0) = .ok outcome) ∧
      StaysInside .signed (.lit "112NEpo7TZRRrLZSi2U") := by
  have inside := base58DecodeAt_inside_iff .signed (fun size => Block.replicate size 0xff)
    (.lit "112NEpo7TZRRrLZSi2U") (Block.replicate 8 0) (by decide)
  have ran : ∃ outcome, base58DecodeAt .signed (fun size => Block.replicate size 0xff)
      (.lit "112NEpo7TZRRrLZSi2U") (Block.replicate 8 0) = .ok outcome :=
    ⟨(14, ⟨[0, 0] ++ ascii "Hello ", by decide⟩), by decide +kernel⟩
  exact ⟨ran, inside.mp ran⟩

/-- The array for a single `1` is one byte, and the pass over the ones writes a second. -/
theorem base58DecodeAt_one_outside :
    base58DecodeAt .signed (fun size => Block.replicate size 0) (.lit "1") (Block.replicate 32 0) =
      .error .arrayIndex := by
  decide +kernel

end CNear.Base58Bounds
