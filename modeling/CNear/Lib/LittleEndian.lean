import Mathlib.Data.Nat.Digits.Lemmas
import Mathlib.Tactic.Ring

/-! Little-endian base-256 numerals. `value` reads any byte string, `minimal` is the
shortest byte string of a value (empty at zero), and `fixed` pads or truncates to a
given width. -/

namespace LittleEndian

/-- The value of a byte string, least significant byte first. -/
def value : List UInt8 → Nat
  | [] => 0
  | byte :: rest => byte.toNat + 256 * value rest

/-- The shortest byte string of a value; zero has none. -/
def minimal (n : Nat) : List UInt8 := (Nat.digits 256 n).map UInt8.ofNat

/-- Exactly `width` bytes; what does not fit is lost. -/
def fixed : Nat → Nat → List UInt8
  | 0, _ => []
  | width + 1, n => UInt8.ofNat (n % 256) :: fixed width (n / 256)

@[simp] theorem value_nil : value [] = 0 := rfl

@[simp] theorem value_cons (byte : UInt8) (rest : List UInt8) :
    value (byte :: rest) = byte.toNat + 256 * value rest := rfl

theorem value_append (low high : List UInt8) :
    value (low ++ high) = value low + 256 ^ low.length * value high := by
  induction low with
  | nil => simp
  | cons byte low ih =>
    simp only [List.cons_append, value_cons, List.length_cons, ih, pow_succ]
    ring

theorem value_lt (bytes : List UInt8) : value bytes < 256 ^ bytes.length := by
  induction bytes with
  | nil => simp
  | cons byte rest ih =>
    have low := byte.toNat_lt
    simp only [value_cons, List.length_cons, pow_succ]
    omega

theorem value_eq_ofDigits (bytes : List UInt8) :
    value bytes = Nat.ofDigits 256 (bytes.map UInt8.toNat) := by
  induction bytes with
  | nil => simp
  | cons byte rest ih => simp [Nat.ofDigits_cons, ih]

theorem fixed_length (width n : Nat) : (fixed width n).length = width := by
  induction width generalizing n with
  | zero => rfl
  | succ width ih => simp [fixed, ih]

/-- A wide numeral is its low bytes and then its high bytes. -/
theorem fixed_add (low high n : Nat) :
    fixed (low + high) n = fixed low n ++ fixed high (n / 256 ^ low) := by
  induction low generalizing n with
  | zero => simp [fixed]
  | succ low ih =>
    have shift : n / 256 / 256 ^ low = n / 256 ^ (low + 1) := by
      rw [Nat.div_div_eq_div_mul, pow_succ, Nat.mul_comm]
    rw [Nat.succ_add, fixed, fixed, ih, shift]
    rfl

theorem value_fixed (width n : Nat) : value (fixed width n) = n % 256 ^ width := by
  induction width generalizing n with
  | zero => simp [fixed, Nat.mod_one]
  | succ width ih =>
    have split : n % 256 ^ (width + 1) = n % 256 + 256 * (n / 256 % 256 ^ width) := by
      rw [pow_succ, Nat.mul_comm, Nat.mod_mul]
    simp [fixed, ih, split]

theorem value_fixed_of_lt {width n : Nat} (fits : n < 256 ^ width) :
    value (fixed width n) = n := by
  rw [value_fixed, Nat.mod_eq_of_lt fits]

theorem fixed_value (bytes : List UInt8) : fixed bytes.length (value bytes) = bytes := by
  induction bytes with
  | nil => rfl
  | cons byte rest ih =>
    have low := byte.toNat_lt
    have remainder : (byte.toNat + 256 * value rest) % 256 = byte.toNat := by omega
    have quotient : (byte.toNat + 256 * value rest) / 256 = value rest := by omega
    simp only [value_cons, List.length_cons, fixed, remainder, quotient, ih, UInt8.ofNat_toNat]

/-- Two byte strings of one length are equal when their values are. -/
theorem value_injective {left right : List UInt8} (same : left.length = right.length)
    (values : value left = value right) : left = right := by
  rw [← fixed_value left, ← fixed_value right, same, values]

theorem testBit_value (bytes : List UInt8) (i : Nat) :
    (value bytes).testBit i = (bytes.getD (i / 8) 0).toNat.testBit (i % 8) := by
  induction bytes generalizing i with
  | nil => simp
  | cons byte rest ih =>
    have low : byte.toNat < 2 ^ 8 := byte.toNat_lt
    rw [value_cons, Nat.add_comm, Nat.testBit_two_pow_mul_add (value rest) low]
    split
    · rename_i first
      rw [Nat.div_eq_of_lt first, Nat.mod_eq_of_lt first, List.getD_cons_zero]
    · rename_i later
      have next : i / 8 = (i - 8) / 8 + 1 := by omega
      have same : i % 8 = (i - 8) % 8 := by omega
      rw [ih, next, List.getD_cons_succ, same]

@[simp] theorem minimal_zero : minimal 0 = [] := by simp [minimal]

private theorem digits_map_toNat (n : Nat) : (minimal n).map UInt8.toNat = Nat.digits 256 n := by
  rw [minimal, List.map_map]
  conv_rhs => rw [← List.map_id (Nat.digits 256 n)]
  apply List.map_congr_left
  intro digit member
  have small : digit < 256 := Nat.digits_lt_base (by decide) member
  simp only [Function.comp_apply, UInt8.toNat_ofNat', id_eq]
  exact Nat.mod_eq_of_lt small

theorem value_minimal (n : Nat) : value (minimal n) = n := by
  rw [value_eq_ofDigits, digits_map_toNat, Nat.ofDigits_digits]

theorem minimal_length (n : Nat) : (minimal n).length = (Nat.digits 256 n).length := by
  simp [minimal]

theorem minimal_length_le_iff (n width : Nat) :
    (minimal n).length ≤ width ↔ n < 256 ^ width := by
  rw [minimal_length]
  exact Nat.digits_length_le_iff (by decide) n

theorem minimal_length_mono {m n : Nat} (le : m ≤ n) :
    (minimal m).length ≤ (minimal n).length := by
  rw [minimal_length_le_iff]
  exact lt_of_le_of_lt le ((minimal_length_le_iff n _).mp le_rfl)

theorem minimal_of_pos {n : Nat} (positive : 0 < n) :
    minimal n = UInt8.ofNat (n % 256) :: minimal (n / 256) := by
  simp [minimal, Nat.digits_of_two_le_of_pos (by decide : 2 ≤ 256) positive]

/-- The top byte of a minimal byte string counts. -/
theorem pow_le_of_pos {n : Nat} (positive : 0 < n) : 256 ^ ((minimal n).length - 1) ≤ n := by
  have nonempty : 0 < (minimal n).length := by simp [minimal_of_pos positive]
  by_contra small
  have short := (minimal_length_le_iff n _).mpr (Nat.lt_of_not_le small)
  omega

/-- The top byte of a minimal byte string is not zero. -/
theorem minimal_getLast? {n : Nat} (positive : 0 < n) :
    ∃ top, (minimal n).getLast? = some top ∧ top ≠ 0 := by
  have nonempty : minimal n ≠ [] := by simp [minimal_of_pos positive]
  have front := List.dropLast_append_getLast nonempty
  refine ⟨(minimal n).getLast nonempty, List.getLast?_eq_some_getLast nonempty, ?_⟩
  intro zero
  have lower := pow_le_of_pos positive
  have upper := value_lt (minimal n).dropLast
  have low : value (minimal n).dropLast = n := by
    conv_rhs => rw [← value_minimal n, ← front, zero]
    simp [value_append]
  rw [low, List.length_dropLast] at upper
  omega

/-- A byte string that needs its whole length is the minimal one of its value. -/
theorem minimal_value {bytes : List UInt8} {width : Nat} (length : bytes.length = width + 1)
    (top : 256 ^ width ≤ value bytes) : minimal (value bytes) = bytes := by
  apply value_injective _ (value_minimal _)
  have upper : (minimal (value bytes)).length ≤ bytes.length :=
    (minimal_length_le_iff _ _).mpr (value_lt bytes)
  have lower : ¬ (minimal (value bytes)).length ≤ width := by
    rw [minimal_length_le_iff]
    omega
  omega

end LittleEndian
