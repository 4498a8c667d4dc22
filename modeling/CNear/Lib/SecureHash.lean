import CNear.Lib.BlockHash
import CNear.Lib.LittleEndian
import Mathlib.Analysis.SpecialFunctions.Pow.Real
import Mathlib.Data.Nat.Nth

/-! The secure hash functions with words of any width: padding, schedule, rounds and digest as the
standard defines them, with constants from the roots of the first primes. -/

namespace SecureHash

abbrev Word (wordBytes : Nat) := BitVec (8 * wordBytes)

/-- The first bits of the fractional part. -/
noncomputable def fractionBits (width : Nat) (x : ℝ) : BitVec width :=
  BitVec.ofNat width ⌊Int.fract x * (2 ^ width : Nat)⌋₊

/-- The constant of round `t`: from the cube root of a prime. -/
noncomputable def roundConstant (wordBytes t : Nat) : Word wordBytes :=
  fractionBits _ ((Nat.nth Nat.Prime t : ℝ) ^ (1 / 3 : ℝ))

/-- A word of the initial hash value: from the square root of a prime. -/
noncomputable def initialWord (wordBytes i : Nat) : Word wordBytes :=
  fractionBits _ (Real.sqrt (Nat.nth Nat.Prime i))

/-- The first byte is the most significant one. -/
def wordOf (wordBytes : Nat) (bytes : List UInt8) : Word wordBytes :=
  BitVec.ofNat _ (LittleEndian.value bytes.reverse)

def bytesOf (wordBytes : Nat) (n : Nat) : List UInt8 := (LittleEndian.fixed wordBytes n).reverse

/-- What two functions with words of one width differ in. -/
structure Variant (wordBytes : Nat) where
  rounds : Nat
  bigSigma0 : Word wordBytes → Word wordBytes
  bigSigma1 : Word wordBytes → Word wordBytes
  smallSigma0 : Word wordBytes → Word wordBytes
  smallSigma1 : Word wordBytes → Word wordBytes

/-- The eight working variables. -/
structure Variables (wordBytes : Nat) where
  a : Word wordBytes
  b : Word wordBytes
  c : Word wordBytes
  d : Word wordBytes
  e : Word wordBytes
  f : Word wordBytes
  g : Word wordBytes
  h : Word wordBytes

namespace Variables
variable {wordBytes : Nat}

def add (x y : Variables wordBytes) : Variables wordBytes :=
  ⟨x.a + y.a, x.b + y.b, x.c + y.c, x.d + y.d, x.e + y.e, x.f + y.f, x.g + y.g, x.h + y.h⟩

def toList (x : Variables wordBytes) : List (Word wordBytes) :=
  [x.a, x.b, x.c, x.d, x.e, x.f, x.g, x.h]

end Variables

section Hash
variable {wordBytes : Nat} (f : Variant wordBytes)

/-- The message schedule. -/
def schedule (block : Nat → Word wordBytes) (t : Nat) : Word wordBytes :=
  if t < 16 then block t
  else f.smallSigma1 (schedule block (t - 2)) + schedule block (t - 7) +
    f.smallSigma0 (schedule block (t - 15)) + schedule block (t - 16)

def choose (x y z : Word wordBytes) : Word wordBytes := (x &&& y) ^^^ (~~~x &&& z)

def majority (x y z : Word wordBytes) : Word wordBytes := (x &&& y) ^^^ (x &&& z) ^^^ (y &&& z)

noncomputable def round (t : Nat) (word : Word wordBytes) (s : Variables wordBytes) :
    Variables wordBytes :=
  let t1 := s.h + f.bigSigma1 s.e + choose s.e s.f s.g + roundConstant wordBytes t + word
  let t2 := f.bigSigma0 s.a + majority s.a s.b s.c
  ⟨t1 + t2, s.a, s.b, s.c, s.d + t1, s.e, s.f, s.g⟩

noncomputable def rounds (block : Nat → Word wordBytes) (s : Variables wordBytes) :
    (count : Nat) → Variables wordBytes
  | 0 => s
  | t + 1 => round f t (schedule f block t) (rounds block s t)

noncomputable def compress (state : Variables wordBytes) (block : List UInt8) :
    Variables wordBytes :=
  state.add (rounds f
    (fun j => wordOf wordBytes ((block.drop (wordBytes * j)).take wordBytes)) state f.rounds)

noncomputable def initial (wordBytes : Nat) : Variables wordBytes :=
  let word := initialWord wordBytes
  ⟨word 0, word 1, word 2, word 3, word 4, word 5, word 6, word 7⟩

/-- A one bit, as few zeros as fill the last block, and the length in bits. -/
def padded (wordBytes : Nat) (message : List UInt8) : List UInt8 :=
  message ++ BlockHash.padding (16 * wordBytes) 0x80 0
    (bytesOf (2 * wordBytes) (8 * message.length)) message.length

noncomputable def digest (message : List UInt8) : List UInt8 :=
  (BlockHash.consume (16 * wordBytes) (compress f) (initial wordBytes)
    (padded wordBytes message)).1.toList.flatMap fun word => bytesOf wordBytes word.toNat

end Hash

def sha256 : Variant 4 where
  rounds := 64
  bigSigma0 x := x.rotateRight 2 ^^^ x.rotateRight 13 ^^^ x.rotateRight 22
  bigSigma1 x := x.rotateRight 6 ^^^ x.rotateRight 11 ^^^ x.rotateRight 25
  smallSigma0 x := x.rotateRight 7 ^^^ x.rotateRight 18 ^^^ x >>> 3
  smallSigma1 x := x.rotateRight 17 ^^^ x.rotateRight 19 ^^^ x >>> 10

def sha512 : Variant 8 where
  rounds := 80
  bigSigma0 x := x.rotateRight 28 ^^^ x.rotateRight 34 ^^^ x.rotateRight 39
  bigSigma1 x := x.rotateRight 14 ^^^ x.rotateRight 18 ^^^ x.rotateRight 41
  smallSigma0 x := x.rotateRight 1 ^^^ x.rotateRight 8 ^^^ x >>> 7
  smallSigma1 x := x.rotateRight 19 ^^^ x.rotateRight 61 ^^^ x >>> 6

/-! ## Constants -/

theorem fractionBits_eq {width whole bits : Nat} {x : ℝ}
    (low : ((whole * 2 ^ width + bits : Nat) : ℝ) ≤ x * 2 ^ width)
    (high : x * 2 ^ width < ((whole * 2 ^ width + bits + 1 : Nat) : ℝ)) (small : bits < 2 ^ width) :
    fractionBits width x = BitVec.ofNat width bits := by
  have positive : (0 : ℝ) < 2 ^ width := by positivity
  have floor : ⌊x⌋ = whole := by
    rw [Int.floor_eq_iff]
    push_cast at low high
    have room : ((bits + 1 : Nat) : ℝ) ≤ 2 ^ width := by exact_mod_cast small
    push_cast at room
    constructor
    · have below : (whole : ℝ) * 2 ^ width ≤ x * 2 ^ width := by
        have natural : (0 : ℝ) ≤ bits := Nat.cast_nonneg _
        linarith
      exact_mod_cast le_of_mul_le_mul_right below positive
    · have above : x * 2 ^ width < ((whole : ℝ) + 1) * 2 ^ width := by linarith
      exact_mod_cast lt_of_mul_lt_mul_right above positive.le
  have part : Int.fract x * 2 ^ width = x * 2 ^ width - whole * 2 ^ width := by
    rw [Int.fract, floor, Int.cast_natCast, sub_mul]
  have found : ⌊Int.fract x * 2 ^ width⌋₊ = bits := by
    rw [Nat.floor_eq_iff (mul_nonneg (Int.fract_nonneg x) positive.le), part]
    push_cast at low high
    constructor <;> linarith
  rw [fractionBits, Nat.cast_pow, Nat.cast_ofNat, found]

/-- The numbers below a bound that have a property, in order, are the first ones that have it. -/
theorem nth_of_filter {p : Nat → Prop} [DecidablePred p] {bound t n : Nat} {found : List Nat}
    (filtered : (List.range bound).filter p = found) (place : found[t]? = some n) :
    Nat.nth p t = n := by
  obtain ⟨inside, same⟩ := List.getElem?_eq_some_iff.mp place
  have member : n ∈ (List.range bound).filter p := by
    rw [filtered, ← same]
    exact List.getElem_mem inside
  obtain ⟨below, holds⟩ := List.mem_filter.mp member
  have holds := of_decide_eq_true holds
  have small := List.mem_range.mp below
  have once : found.Nodup := by
    rw [← filtered]
    exact List.nodup_range.filter _
  have room : bound = n + (bound - n - 1 + 1) := by omega
  have next : ((List.range (bound - n - 1 + 1)).map (n + ·)).filter p =
      n :: ((List.range (bound - n - 1)).map fun i => n + (i + 1)).filter p := by
    rw [List.range_succ_eq_map, List.map_cons, Nat.add_zero,
      List.filter_cons_of_pos (by simpa using holds), List.map_map]
    rfl
  have split : found = (List.range n).filter p ++
      n :: ((List.range (bound - n - 1)).map fun i => n + (i + 1)).filter p := by
    rw [← next, ← List.filter_append, ← List.range_add, ← room, filtered]
  have other : found[((List.range n).filter p).length]? = some n := by
    rw [split, List.getElem?_append_right (Nat.le_refl _), Nat.sub_self]
    rfl
  have index : ((List.range n).filter p).length = t := by
    obtain ⟨bounded, again⟩ := List.getElem?_eq_some_iff.mp other
    exact (List.Nodup.getElem_inj_iff once).mp (again.trans same.symm)
  have count : Nat.count p n = t := by
    rw [Nat.count, List.countP_eq_length_filter]
    exact index
  calc
    Nat.nth p t = Nat.nth p (Nat.count p n) := by rw [count]
    _ = n := Nat.nth_count holds

/-- No divisor below `limit` whose square is not larger. -/
def trial (limit n : Nat) : Bool :=
  decide (2 ≤ n) && (List.range limit).all fun d => d < 2 || n < d * d || n % d != 0

theorem trial_iff {limit n : Nat} (small : n < limit * limit) :
    trial limit n = true ↔ Nat.Prime n := by
  simp only [trial, Bool.and_eq_true, decide_eq_true_eq, List.all_eq_true, List.mem_range,
    Bool.or_eq_true, bne_iff_ne, Nat.prime_def_le_sqrt, Nat.le_sqrt]
  refine and_congr_right fun _ => ⟨?_, ?_⟩
  · intro tried d two square divides
    have below : d < limit := by
      by_contra above
      have large := Nat.mul_self_le_mul_self (Nat.le_of_not_lt above)
      omega
    have zero := Nat.mod_eq_zero_of_dvd divides
    rcases tried d below with (one | past) | remainder
    · omega
    · omega
    · exact remainder zero
  · intro none d _
    by_cases one : d < 2
    · exact Or.inl (Or.inl one)
    · by_cases past : n < d * d
      · exact Or.inl (Or.inr past)
      · refine Or.inr fun zero => none d (by omega) (by omega) (Nat.dvd_of_mod_eq_zero zero)

/-- The primes below the square of `limit`. -/
def primesBelow (limit : Nat) : List Nat := (List.range (limit * limit)).filter (trial limit)

theorem nth_prime {limit t prime : Nat} (place : (primesBelow limit)[t]? = some prime) :
    Nat.nth Nat.Prime t = prime := by
  refine @nth_of_filter _ _ (limit * limit) _ _ (primesBelow limit) ?_ place
  refine List.filter_congr fun n member => ?_
  rw [Bool.eq_iff_iff, decide_eq_true_eq, trial_iff (List.mem_range.mp member)]

/-- Whether bits are the first ones behind the point of a root, for primes below `8 ^ power`. -/
def rootCheck (power wordBytes prime bits : Nat) : Bool :=
  let whole := (List.range 8).countP fun q => (q + 1) ^ power ≤ prime
  let scaled := whole * 2 ^ (8 * wordBytes) + bits
  decide (bits < 2 ^ (8 * wordBytes) ∧ scaled ^ power ≤ prime * (2 ^ (8 * wordBytes)) ^ power ∧
    prime * (2 ^ (8 * wordBytes)) ^ power < (scaled + 1) ^ power)

/-- The constant of a round from its prime: whole part and first bits of the cube root. -/
theorem roundConstant_eq {wordBytes t prime whole bits : Nat} (nth : Nat.nth Nat.Prime t = prime)
    (low : (whole * 2 ^ (8 * wordBytes) + bits) ^ 3 ≤ prime * (2 ^ (8 * wordBytes)) ^ 3)
    (high : prime * (2 ^ (8 * wordBytes)) ^ 3 < (whole * 2 ^ (8 * wordBytes) + bits + 1) ^ 3)
    (small : bits < 2 ^ (8 * wordBytes)) : roundConstant wordBytes t = BitVec.ofNat _ bits := by
  have root : (((prime : ℝ) ^ (1 / 3 : ℝ)) * 2 ^ (8 * wordBytes)) ^ 3 =
      ((prime * (2 ^ (8 * wordBytes)) ^ 3 : Nat) : ℝ) := by
    rw [mul_pow, ← Real.rpow_natCast ((prime : ℝ) ^ (1 / 3 : ℝ)), ← Real.rpow_mul (Nat.cast_nonneg _)]
    norm_num
  have nonneg : 0 ≤ ((prime : ℝ) ^ (1 / 3 : ℝ)) * 2 ^ (8 * wordBytes) := by positivity
  rw [roundConstant, nth]
  refine @fractionBits_eq _ whole bits _ ?_ ?_ small
  · rw [← pow_le_pow_iff_left₀ (Nat.cast_nonneg _) nonneg (by decide : 3 ≠ 0), root]
    exact_mod_cast low
  · rw [← pow_lt_pow_iff_left₀ nonneg (Nat.cast_nonneg _) (by decide : 3 ≠ 0), root]
    exact_mod_cast high

/-- A word of the initial hash value from its prime. -/
theorem initialWord_eq {wordBytes i prime whole bits : Nat} (nth : Nat.nth Nat.Prime i = prime)
    (low : (whole * 2 ^ (8 * wordBytes) + bits) ^ 2 ≤ prime * (2 ^ (8 * wordBytes)) ^ 2)
    (high : prime * (2 ^ (8 * wordBytes)) ^ 2 < (whole * 2 ^ (8 * wordBytes) + bits + 1) ^ 2)
    (small : bits < 2 ^ (8 * wordBytes)) : initialWord wordBytes i = BitVec.ofNat _ bits := by
  have root : (Real.sqrt prime * 2 ^ (8 * wordBytes)) ^ 2 =
      ((prime * (2 ^ (8 * wordBytes)) ^ 2 : Nat) : ℝ) := by
    rw [mul_pow, Real.sq_sqrt (Nat.cast_nonneg _)]
    norm_num
  have nonneg : 0 ≤ Real.sqrt prime * 2 ^ (8 * wordBytes) := by positivity
  rw [initialWord, nth]
  refine @fractionBits_eq _ whole bits _ ?_ ?_ small
  · rw [← pow_le_pow_iff_left₀ (Nat.cast_nonneg _) nonneg (by decide : 2 ≠ 0), root]
    exact_mod_cast low
  · rw [← pow_lt_pow_iff_left₀ nonneg (Nat.cast_nonneg _) (by decide : 2 ≠ 0), root]
    exact_mod_cast high

theorem roundConstant_of_check {wordBytes limit t prime bits : Nat}
    (place : (primesBelow limit)[t]? = some prime) (check : rootCheck 3 wordBytes prime bits = true) :
    roundConstant wordBytes t = BitVec.ofNat _ bits := by
  obtain ⟨small, low, high⟩ := of_decide_eq_true check
  exact roundConstant_eq (nth_prime place) low high small

theorem initialWord_of_check {wordBytes limit i prime bits : Nat}
    (place : (primesBelow limit)[i]? = some prime) (check : rootCheck 2 wordBytes prime bits = true) :
    initialWord wordBytes i = BitVec.ofNat _ bits := by
  obtain ⟨small, low, high⟩ := of_decide_eq_true check
  exact initialWord_eq (nth_prime place) low high small

end SecureHash
