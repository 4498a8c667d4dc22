import CNear.Sha2Transform

/-! The two algorithms conform to the standard: every constant of the tables is what the standard
takes from the roots of the primes, and the macros are its functions. -/

namespace CNear.Sha2

/-! ## Tables -/

/-- That words are the first bits of the roots of the first primes. -/
def tableCheck (power wordBytes : Nat) (table : List (BitVec (8 * wordBytes))) : Bool :=
  ((SecureHash.primesBelow 21).zip table).all fun entry =>
    SecureHash.rootCheck power wordBytes entry.1 entry.2.toNat

theorem tableCheck_entry {power wordBytes : Nat} {table : List (BitVec (8 * wordBytes))}
    (check : tableCheck power wordBytes table = true)
    (enough : table.length ≤ (SecureHash.primesBelow 21).length) {t : Nat} (bound : t < table.length) :
    ∃ prime, (SecureHash.primesBelow 21)[t]? = some prime ∧
      SecureHash.rootCheck power wordBytes prime table[t].toNat = true := by
  have inside : t < (SecureHash.primesBelow 21).length := by omega
  refine ⟨(SecureHash.primesBelow 21)[t], List.getElem?_eq_getElem inside, ?_⟩
  have entry : ((SecureHash.primesBelow 21)[t], table[t]) ∈ (SecureHash.primesBelow 21).zip table := by
    rw [List.mem_iff_getElem]
    exact ⟨t, by rw [List.length_zip]; omega, List.getElem_zip⟩
  exact List.all_eq_true.mp check _ entry

theorem k256_check : tableCheck 3 4 k256.toList = true := by decide +kernel
theorem k512_check : tableCheck 3 8 k512.toList = true := by decide +kernel
theorem sha256InitialHashValue_check : tableCheck 2 4 sha256InitialHashValue.toList = true := by
  decide +kernel
theorem sha512InitialHashValue_check : tableCheck 2 8 sha512InitialHashValue.toList = true := by
  decide +kernel
theorem primes_enough : 80 ≤ (SecureHash.primesBelow 21).length := by decide +kernel

/-! ## Byte reversal -/

/-- A byte reversal, told by its bits. -/
theorem reverse_of_bits {wordBytes : Nat} {reverse : BitVec (8 * wordBytes) → BitVec (8 * wordBytes)}
    (bits : ∀ word i, i < 8 * wordBytes →
      (reverse word).getLsbD i = word.getLsbD (8 * (wordBytes - 1 - i / 8) + i % 8))
    (bytes : List UInt8) (length : bytes.length = wordBytes) :
    reverse (BitVec.ofNat _ (LittleEndian.value bytes)) =
      BitVec.ofNat _ (LittleEndian.value bytes.reverse) := by
  apply BitVec.eq_of_getLsbD_eq
  intro i bound
  have place : 8 * (wordBytes - 1 - i / 8) + i % 8 < 8 * wordBytes := by omega
  have byte : (8 * (wordBytes - 1 - i / 8) + i % 8) / 8 = wordBytes - 1 - i / 8 := by omega
  have bit : (8 * (wordBytes - 1 - i / 8) + i % 8) % 8 = i % 8 := by omega
  rw [bits _ i bound, BitVec.getLsbD_ofNat, BitVec.getLsbD_ofNat, decide_eq_true place,
    decide_eq_true bound, LittleEndian.testBit_value, LittleEndian.testBit_value, byte, bit,
    List.getD_eq_getElem?_getD, List.getD_eq_getElem?_getD, List.getElem?_reverse (by omega), length]

theorem reverse32_bits (word : BitVec 32) (i : Nat) (bound : i < 8 * 4) :
    (reverse32 word).getLsbD i = word.getLsbD (8 * (4 - 1 - i / 8) + i % 8) := by
  interval_cases i <;> simp [reverse32]

theorem reverse64_bits (word : BitVec 64) (i : Nat) (bound : i < 8 * 8) :
    (reverse64 word).getLsbD i = word.getLsbD (8 * (8 - 1 - i / 8) + i % 8) := by
  interval_cases i <;> simp [reverse64]

/-! ## Conformance -/

section Sigma
variable {width i j k : Nat}

theorem rotr_rotateRight (small : i < width) (x : BitVec width) : rotr i x = x.rotateRight i := by
  rw [rotr, BitVec.rotateRight_def, Nat.mod_eq_of_lt small]

theorem bigSigma_rotateRight (first : i < width) (second : j < width) (third : k < width)
    (x : BitVec width) :
    bigSigma i j k x = x.rotateRight i ^^^ x.rotateRight j ^^^ x.rotateRight k := by
  rw [bigSigma, rotr_rotateRight first, rotr_rotateRight second, rotr_rotateRight third]

theorem smallSigma_rotateRight (first : i < width) (second : j < width) (x : BitVec width) :
    smallSigma i j k x = x.rotateRight i ^^^ x.rotateRight j ^^^ x >>> k := by
  rw [smallSigma, rotr_rotateRight first, rotr_rotateRight second, shr]

end Sigma

section Table
variable {wordBytes n : Nat} {table : Vector (BitVec (8 * wordBytes)) n}

/-- A table of cube roots. -/
theorem roundConstant_of_table (check : tableCheck 3 wordBytes table.toList = true) (few : n ≤ 80)
    (t : Nat) (bound : t < n) : table[t] = SecureHash.roundConstant wordBytes t := by
  have length : table.toList.length = n := Vector.length_toList
  have enough := primes_enough
  obtain ⟨prime, place, root⟩ := tableCheck_entry check (by omega) (by omega : t < table.toList.length)
  rw [SecureHash.roundConstant_of_check place root, BitVec.ofNat_toNat, BitVec.setWidth_eq]
  exact (Vector.getElem_toList _).symm

/-- A table of square roots. -/
theorem initialWord_of_table (check : tableCheck 2 wordBytes table.toList = true) (few : n ≤ 80)
    (i : Nat) (bound : i < n) : table[i] = SecureHash.initialWord wordBytes i := by
  have length : table.toList.length = n := Vector.length_toList
  have enough := primes_enough
  obtain ⟨prime, place, root⟩ := tableCheck_entry check (by omega) (by omega : i < table.toList.length)
  rw [SecureHash.initialWord_of_check place root, BitVec.ofNat_toNat, BitVec.setWidth_eq]
  exact (Vector.getElem_toList _).symm

end Table

/-- The counter of SHA-256 is one word of 64 bits. -/
theorem bitcount_words (bitcount : UInt64) :
    (BitVec.ofNat 32 (bitcount >>> 32).toNat, BitVec.ofNat 32 (bitcount &&& 0xffffffff).toNat) =
      (BitVec.ofNat 32 (bitcount.toNat / 2 ^ 32), BitVec.ofNat 32 bitcount.toNat) := by
  have high : (bitcount >>> 32).toNat = bitcount.toNat / 2 ^ 32 := by
    rw [UInt64.toNat_shiftRight, Nat.shiftRight_eq_div_pow]
    rfl
  have low : (bitcount &&& 0xffffffff).toNat = bitcount.toNat % 2 ^ 32 :=
    (UInt64.toNat_and _ _).trans (Nat.and_two_pow_sub_one_eq_mod _ 32)
  rw [high, low]
  congr 1
  apply BitVec.eq_of_toNat_eq
  simp only [BitVec.toNat_ofNat, Nat.mod_mod]

def sha256_conforms : Conforms sha256 SecureHash.sha256 where
  total := UInt64.toNat
  rounds := rfl
  bigSigma0 := bigSigma_rotateRight (by decide) (by decide) (by decide)
  bigSigma1 := bigSigma_rotateRight (by decide) (by decide) (by decide)
  smallSigma0 := smallSigma_rotateRight (by decide) (by decide)
  smallSigma1 := smallSigma_rotateRight (by decide) (by decide)
  k := roundConstant_of_table k256_check (by decide)
  initial := initialWord_of_table sha256InitialHashValue_check (by decide)
  reverse := reverse_of_bits reverse32_bits
  four_le := by decide
  wordBytes_dvd := by decide
  total_lt := UInt64.toNat_lt
  total_zero := rfl
  total_add := by
    intro count bits small
    exact (UInt64.toNat_add _ _).trans (by rw [UInt64.toNat_ofNat', Nat.mod_eq_of_lt small]; rfl)
  low := fun count => (Nat.mod_eq_of_lt count.toNat_lt).symm
  lengthWords := bitcount_words

/-- The number in the two words of the other counter. -/
def total512 (bitcount : UInt64 × UInt64) : Nat := bitcount.2.toNat * 2 ^ 64 + bitcount.1.toNat

theorem total512_lt (bitcount : UInt64 × UInt64) : total512 bitcount < 2 ^ 128 := by
  have low := bitcount.1.toNat_lt
  have high := bitcount.2.toNat_lt
  unfold total512
  omega

/-- The carry is seen in a low word that is smaller than what was added to it. -/
theorem total512_addinc128 (bitcount : UInt64 × UInt64) (n : Nat) (small : n < 2 ^ 64) :
    total512 (addinc128 bitcount n) = (total512 bitcount + n) % 2 ^ 128 := by
  have low := bitcount.1.toNat_lt
  have high := bitcount.2.toNat_lt
  have added : (UInt64.ofNat n).toNat = n := by
    rw [UInt64.toNat_ofNat', Nat.mod_eq_of_lt small]
  have sum : (bitcount.1 + UInt64.ofNat n).toNat = (bitcount.1.toNat + n) % 2 ^ 64 := by
    rw [UInt64.toNat_add, added]
  have next : (bitcount.2 + 1).toNat = (bitcount.2.toNat + 1) % 2 ^ 64 := UInt64.toNat_add _ _
  simp only [total512, addinc128]
  split
  · rename_i carry
    rw [UInt64.lt_iff_toNat_lt, added, sum] at carry
    rw [sum, next]
    omega
  · rename_i none
    rw [UInt64.lt_iff_toNat_lt, added, sum] at none
    rw [sum]
    omega

theorem total512_words (bitcount : UInt64 × UInt64) :
    (bitcount.2.toBitVec, bitcount.1.toBitVec) =
      (BitVec.ofNat 64 (total512 bitcount / 2 ^ 64), BitVec.ofNat 64 (total512 bitcount)) := by
  have low := bitcount.1.toNat_lt
  have high := bitcount.2.toNat_lt
  have quotient : total512 bitcount / 2 ^ 64 = bitcount.2.toNat := by
    unfold total512
    omega
  have remainder : total512 bitcount % 2 ^ 64 = bitcount.1.toNat := by
    unfold total512
    omega
  have second : BitVec.ofNat 64 (total512 bitcount) = bitcount.1.toBitVec := by
    apply BitVec.eq_of_toNat_eq
    rw [BitVec.toNat_ofNat, remainder, UInt64.toNat_toBitVec]
  rw [quotient, second, ← UInt64.toNat_toBitVec, BitVec.ofNat_toNat, BitVec.setWidth_eq]

def sha512_conforms : Conforms sha512 SecureHash.sha512 where
  total := total512
  rounds := rfl
  bigSigma0 := bigSigma_rotateRight (by decide) (by decide) (by decide)
  bigSigma1 := bigSigma_rotateRight (by decide) (by decide) (by decide)
  smallSigma0 := smallSigma_rotateRight (by decide) (by decide)
  smallSigma1 := smallSigma_rotateRight (by decide) (by decide)
  k := roundConstant_of_table k512_check (by decide)
  initial := initialWord_of_table sha512InitialHashValue_check (by decide)
  reverse := reverse_of_bits reverse64_bits
  four_le := by decide
  wordBytes_dvd := by decide
  total_lt := total512_lt
  total_zero := rfl
  total_add := total512_addinc128
  low := by
    intro count
    have low := count.1.toNat_lt
    change count.1.toNat = total512 count % 2 ^ 64
    unfold total512
    omega
  lengthWords := total512_words

end CNear.Sha2
