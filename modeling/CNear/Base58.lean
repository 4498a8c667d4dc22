import CNear.Memory
import CNear.Lib.LittleEndian

/-! Base58 as it is specified: every leading `1` is a zero byte, and what follows is the
minimal big-endian representation of the base-58 value, which is empty for zero. -/

namespace CNear.Base58

def alphabet : List UInt8 := ascii "123456789ABCDEFGHJKLMNPQRSTUVWXYZabcdefghijkmnopqrstuvwxyz"

def digit (c : UInt8) : Nat := alphabet.idxOf c

/-- Every character is one of the fifty-eight. -/
def WellFormed (s : List UInt8) : Prop := ∀ c ∈ s, c ∈ alphabet

instance (s : List UInt8) : Decidable (WellFormed s) :=
  inferInstanceAs (Decidable (∀ c ∈ s, c ∈ alphabet))

def number (s : List UInt8) : Nat := s.foldl (fun v c => 58 * v + digit c) 0

def leadingOnes (s : List UInt8) : Nat := (s.takeWhile (· = '1'.toUInt8)).length

def decode (s : List UInt8) : List UInt8 :=
  List.replicate (leadingOnes s) 0 ++ (LittleEndian.minimal (number s)).reverse

theorem decode_length (s : List UInt8) :
    (decode s).length = leadingOnes s + (LittleEndian.minimal (number s)).length := by
  simp [decode]

private theorem alphabet_nodup : alphabet.Nodup := by decide

theorem digit_lt {c : UInt8} (member : c ∈ alphabet) : digit c < 58 :=
  List.idxOf_lt_length_of_mem member

theorem digit_eq_zero {c : UInt8} : digit c = 0 ↔ c = '1'.toUInt8 := by
  rw [digit, show alphabet = '1'.toUInt8 :: alphabet.tail by decide]
  by_cases same : c = '1'.toUInt8
  · simp [same]
  · simp [List.idxOf_cons_ne _ (Ne.symm same), same]

private theorem foldl_number (s : List UInt8) (v : Nat) :
    s.foldl (fun v c => 58 * v + digit c) v = 58 ^ s.length * v + number s := by
  induction s generalizing v with
  | nil => simp [number]
  | cons c s ih =>
    have first := ih (58 * v + digit c)
    have zero := ih (58 * 0 + digit c)
    simp only [number, List.foldl_cons, List.length_cons, pow_succ] at first zero ⊢
    rw [first, zero]
    ring

theorem number_cons (c : UInt8) (s : List UInt8) :
    number (c :: s) = 58 ^ s.length * digit c + number s := by
  have fold := foldl_number s (58 * 0 + digit c)
  simpa [number] using fold

theorem number_lt {s : List UInt8} (wellFormed : WellFormed s) : number s < 58 ^ s.length := by
  induction s with
  | nil => simp [number]
  | cons c s ih =>
    have tail := ih (fun d member => wellFormed d (List.mem_cons_of_mem _ member))
    have head : digit c ≤ 57 := Nat.le_of_lt_succ (digit_lt (wellFormed c List.mem_cons_self))
    have scaled := Nat.mul_le_mul_left (58 ^ s.length) head
    rw [number_cons, List.length_cons, pow_succ]
    omega

/-- The value is zero only for a string of ones. -/
theorem number_eq_zero_iff (s : List UInt8) : number s = 0 ↔ ∀ c ∈ s, c = '1'.toUInt8 := by
  induction s with
  | nil => simp [number]
  | cons c s ih =>
    rw [number_cons, Nat.add_eq_zero_iff, Nat.mul_eq_zero, ih, digit_eq_zero, List.forall_mem_cons]
    simp

theorem leadingOnes_le (s : List UInt8) : leadingOnes s ≤ s.length :=
  (List.takeWhile_sublist _).length_le

theorem leadingOnes_of_ones {s : List UInt8} (ones : ∀ c ∈ s, c = '1'.toUInt8) :
    leadingOnes s = s.length := by
  rw [leadingOnes, List.takeWhile_eq_self_iff.mpr]
  simpa using ones

/-- What follows the leading ones carries the whole value. -/
theorem number_lt_pow {s : List UInt8} (wellFormed : WellFormed s) :
    number s < 58 ^ (s.length - leadingOnes s) := by
  induction s with
  | nil => simp [number]
  | cons c s ih =>
    by_cases one : c = '1'.toUInt8
    · have tail := ih (fun d member => wellFormed d (List.mem_cons_of_mem _ member))
      have count : leadingOnes (c :: s) = leadingOnes s + 1 := by simp [leadingOnes, one]
      rw [number_cons, digit_eq_zero.mpr one, count, List.length_cons, Nat.add_sub_add_right]
      simpa using tail
    · have count : leadingOnes (c :: s) = 0 := by simp [leadingOnes, one]
      rw [count]
      exact number_lt wellFormed

/-- A decoding is never longer than its string. -/
theorem decode_length_le {s : List UInt8} (wellFormed : WellFormed s) :
    (decode s).length ≤ s.length := by
  have count := leadingOnes_le s
  have bytes : (LittleEndian.minimal (number s)).length ≤ s.length - leadingOnes s := by
    rw [LittleEndian.minimal_length_le_iff]
    exact lt_of_lt_of_le (number_lt_pow wellFormed) (Nat.pow_le_pow_left (by decide) _)
  rw [decode_length]
  omega

/-- The first character that is not a one is worth at least its place. -/
theorem pow_le_number {s : List UInt8} (more : leadingOnes s < s.length) :
    58 ^ (s.length - leadingOnes s - 1) ≤ number s := by
  induction s with
  | nil => simp at more
  | cons c s ih =>
    by_cases one : c = '1'.toUInt8
    · have count : leadingOnes (c :: s) = leadingOnes s + 1 := by simp [leadingOnes, one]
      rw [count, List.length_cons] at more ⊢
      rw [number_cons, digit_eq_zero.mpr one, Nat.add_sub_add_right]
      simpa using ih (by omega)
    · have count : leadingOnes (c :: s) = 0 := by simp [leadingOnes, one]
      have nonzero : 0 < digit c := Nat.pos_of_ne_zero fun zero => one (digit_eq_zero.mp zero)
      rw [count, List.length_cons, number_cons]
      calc
        58 ^ (s.length + 1 - 0 - 1) = 58 ^ s.length * 1 := by simp
        _ ≤ 58 ^ s.length * digit c := Nat.mul_le_mul_left _ nonzero
        _ ≤ 58 ^ s.length * digit c + number s := Nat.le_add_right _ _

/-- A string has at most two characters for each byte of its decoding. -/
theorem length_le_decode {s : List UInt8} : s.length ≤ 2 * (decode s).length := by
  rw [decode_length]
  by_cases more : leadingOnes s < s.length
  · have lower := pow_le_number more
    have upper : number s < 256 ^ (LittleEndian.minimal (number s)).length :=
      (LittleEndian.minimal_length_le_iff _ _).mp le_rfl
    have sixteen : 16 ^ (s.length - leadingOnes s - 1) <
        16 ^ (2 * (LittleEndian.minimal (number s)).length) := by
      calc
        16 ^ (s.length - leadingOnes s - 1) ≤ 58 ^ (s.length - leadingOnes s - 1) :=
          Nat.pow_le_pow_left (by decide) _
        _ ≤ number s := lower
        _ < 256 ^ (LittleEndian.minimal (number s)).length := upper
        _ = 16 ^ (2 * (LittleEndian.minimal (number s)).length) := by
          rw [show (256 : Nat) = 16 ^ 2 by decide, pow_mul]
    have places := (Nat.pow_lt_pow_iff_right (by decide)).mp sixteen
    omega
  · have count := leadingOnes_le s
    omega

end CNear.Base58
