import CNear.Base58Decode

/-! What the loops of `base58_decode` compute. The bytes below `resultlen` are the shortest
little-endian ones of the value read so far, with a single zero byte for zero. A character
outside the alphabet enters as the digit `-1` modulo 2^32: over a value whose low byte is
not zero the carry wraps and the digit is `-1`, otherwise it is 2^32 - 1. -/

namespace CNear.Base58
open LittleEndian

/-- The value after one more digit, as the 32-bit carry computes it. -/
def stepValue (carry v : Nat) : Nat :=
  if carry = 0xffffffff ∧ v % 256 ≠ 0 then 58 * v - 1 else 58 * v + carry

/-- The value that the loop reads from any string of table characters. -/
def readValue (sign : CharSign) (s : List UInt8) : Nat :=
  s.foldl (fun v c => stepValue (entry sign c) v) 0

/-- The shortest non-empty little-endian bytes of a value. -/
def canonical (v : Nat) : List UInt8 := if v = 0 then [0] else minimal v

/-- What the loops read from a string, in the order of the output. -/
def readBytes (sign : CharSign) (s : List UInt8) : List UInt8 :=
  List.replicate (leadingOnes s) 0 ++ (canonical (readValue sign s)).reverse

def readLength (sign : CharSign) (s : List UInt8) : Nat :=
  leadingOnes s + (canonical (readValue sign s)).length

theorem readBytes_length (sign : CharSign) (s : List UInt8) :
    (readBytes sign s).length = readLength sign s := by
  simp [readBytes, readLength]

theorem le_stepValue (carry v : Nat) : v ≤ stepValue carry v := by
  unfold stepValue
  split_ifs with wraps
  · have positive : 0 < v := Nat.pos_of_ne_zero fun zero => wraps.2 (by simp [zero])
    omega
  · omega

theorem canonical_length_pos (v : Nat) : 0 < (canonical v).length := by
  unfold canonical
  split_ifs with zero
  · decide
  · simp [minimal_of_pos (Nat.pos_of_ne_zero zero)]

theorem value_canonical (v : Nat) : value (canonical v) = v := by
  unfold canonical
  split_ifs with zero
  · simp [zero]
  · exact value_minimal v

theorem canonical_length_mono {v w : Nat} (le : v ≤ w) :
    (canonical v).length ≤ (canonical w).length := by
  by_cases zero : v = 0
  · have single : (canonical v).length = 1 := by simp [canonical, zero]
    rw [single]
    exact canonical_length_pos w
  · have later : w ≠ 0 := by omega
    simpa [canonical, zero, later] using minimal_length_mono le

theorem canonical_length_le {v width : Nat} (positive : 0 < width) (small : v < 256 ^ width) :
    (canonical v).length ≤ width := by
  unfold canonical
  split_ifs with zero
  · exact positive
  · exact (minimal_length_le_iff v width).mpr small

theorem lt_canonical_length {v width : Nat} (large : 256 ^ width ≤ v) :
    width < (canonical v).length := by
  by_contra short
  have upper := value_lt (canonical v)
  rw [value_canonical] at upper
  have wide := Nat.pow_le_pow_right (show 0 < 256 by decide) (Nat.le_of_not_lt short)
  omega

/-- A canonical string of more than one byte needs its top byte. -/
theorem canonical_top (v : Nat) :
    (canonical v).length = 1 ∨ 256 ^ ((canonical v).length - 1) ≤ v := by
  by_cases zero : v = 0
  · exact Or.inl (by simp [canonical, zero])
  · have top := pow_le_of_pos (Nat.pos_of_ne_zero zero)
    simp only [canonical, if_neg zero]
    exact Or.inr top

theorem canonical_value {bytes : List UInt8} {width : Nat} (length : bytes.length = width + 1)
    (top : width = 0 ∨ 256 ^ width ≤ value bytes) : canonical (value bytes) = bytes := by
  by_cases zero : value bytes = 0
  · have single : width = 0 := by
      rcases top with single | large
      · exact single
      · have positive : 0 < 256 ^ width := Nat.pow_pos (by decide)
        omega
    rw [canonical, if_pos zero]
    exact value_injective (by simp [length, single]) (by simp [zero])
  · rw [canonical, if_neg zero]
    apply minimal_value length
    rcases top with rfl | large
    · rw [pow_zero]
      exact Nat.pos_of_ne_zero zero
    · exact large

/-! ## One character -/

private theorem pow_succ_mul (count out : Nat) :
    256 ^ (count + 1) * out = 256 * (256 ^ count * out) := by
  rw [pow_succ]
  ring

theorem mulAddLoop_length (carry : Nat) (result : List UInt8) :
    (mulAddLoop carry result).1.length = result.length := by
  induction result generalizing carry with
  | nil => rfl
  | cons byte result ih => simp [mulAddLoop, ih]

/-- Without a wrap the loop multiplies and adds exactly. -/
theorem mulAddLoop_value (carry : Nat) (result : List UInt8) (room : carry + 255 * 58 < 0x100000000) :
    value (mulAddLoop carry result).1 + 256 ^ result.length * (mulAddLoop carry result).2 =
      58 * value result + carry := by
  induction result generalizing carry with
  | nil => simp [mulAddLoop]
  | cons byte result ih =>
    have low := byte.toNat_lt
    have small : (carry + byte.toNat * 58) % 0x100000000 = carry + byte.toNat * 58 :=
      Nat.mod_eq_of_lt (by omega)
    have rest := ih ((carry + byte.toNat * 58) / 256) (by omega)
    simp only [mulAddLoop, small, value_cons, List.length_cons, pow_succ_mul, UInt8.toNat_ofNat']
    omega

theorem mulAddLoop_carry_lt (carry : Nat) (result : List UInt8) (bound : carry < 0x100000000) :
    (mulAddLoop carry result).2 < 0x100000000 := by
  induction result generalizing carry with
  | nil => exact bound
  | cons byte result ih =>
    simp only [mulAddLoop]
    apply ih
    have word : (carry + byte.toNat * 58) % 0x100000000 < 0x100000000 := Nat.mod_lt _ (by decide)
    omega

/-- Only the first addition of the loop can wrap. -/
theorem mulAddLoop_step (carry : Nat) (byte : UInt8) (result : List UInt8)
    (digit : carry < 256 ∨ carry = 0xffffffff) :
    value (mulAddLoop carry (byte :: result)).1 +
        256 ^ (byte :: result).length * (mulAddLoop carry (byte :: result)).2 =
      stepValue carry (value (byte :: result)) := by
  have low := byte.toNat_lt
  have lowByte : value (byte :: result) % 256 = byte.toNat := by
    simp only [value_cons]
    omega
  have head : 58 * value (byte :: result) = 256 * (58 * value result) + byte.toNat * 58 := by
    simp only [value_cons]
    ring
  have word : (carry + byte.toNat * 58) % 0x100000000 < 0x100000000 := Nat.mod_lt _ (by decide)
  have rest := mulAddLoop_value ((carry + byte.toNat * 58) % 0x100000000 / 256) result (by omega)
  have sum : value (mulAddLoop carry (byte :: result)).1 +
      256 ^ (byte :: result).length * (mulAddLoop carry (byte :: result)).2 =
        256 * (58 * value result) + (carry + byte.toNat * 58) % 0x100000000 := by
    simp only [mulAddLoop, value_cons, List.length_cons, pow_succ_mul, UInt8.toNat_ofNat']
    omega
  rw [sum, stepValue, lowByte, head]
  split_ifs with wraps
  · have positive : 0 < byte.toNat := Nat.pos_of_ne_zero wraps.2
    rw [wraps.1, Nat.mod_eq_sub_mod (by omega), Nat.mod_eq_of_lt (by omega)]
    omega
  · rcases digit with small | minusOne
    · rw [Nat.mod_eq_of_lt (by omega)]
      omega
    · have zero : byte.toNat = 0 := by
        by_contra nonzero
        exact wraps ⟨minusOne, nonzero⟩
      rw [Nat.mod_eq_of_lt (by omega)]
      omega

theorem flushCarry_eq (size shifts carry : Nat) (result : List UInt8) (bound : carry < 256 ^ shifts)
    (fits : result.length ≤ size) :
    flushCarry size shifts carry result =
      if result.length + (minimal carry).length ≤ size then .ok (result ++ minimal carry)
      else .error .arrayIndex := by
  induction shifts generalizing carry result with
  | zero =>
    obtain rfl : carry = 0 := by simpa using bound
    simp [flushCarry, fits]
  | succ shifts ih =>
    by_cases positive : 0 < carry
    · have shifted : carry / 256 < 256 ^ shifts := by
        rw [Nat.div_lt_iff_lt_mul (by decide)]
        simpa [pow_succ] using bound
      have bytes := minimal_of_pos positive
      simp only [flushCarry, if_pos positive]
      by_cases room : result.length < size
      · rw [if_pos room, ih _ _ shifted (by simpa using room), bytes]
        simp [Nat.add_assoc, Nat.add_comm]
      · rw [if_neg room, if_neg]
        rw [bytes, List.length_cons]
        omega
    · obtain rfl : carry = 0 := by omega
      simp [flushCarry, fits]

/-- One character keeps the array canonical, if there is room. -/
theorem decodeChar_canonical (sign : CharSign) (size v : Nat) {c : UInt8} (known : InTable c)
    (fits : (canonical v).length ≤ size) :
    decodeChar sign size (canonical v) c =
      if (canonical (stepValue (entry sign c) v)).length ≤ size then
        .ok (canonical (stepValue (entry sign c) v))
      else .error .arrayIndex := by
  obtain ⟨byte, rest, shape⟩ : ∃ byte rest, canonical v = byte :: rest :=
    List.exists_cons_of_length_pos (canonical_length_pos v)
  have digit := entry_small sign c
  have step := mulAddLoop_step (entry sign c) byte rest digit
  have length := mulAddLoop_length (entry sign c) (byte :: rest)
  have carryBound := mulAddLoop_carry_lt (entry sign c) (byte :: rest) (by omega)
  rw [← shape] at step length carryBound
  rw [value_canonical] at step
  generalize loop : mulAddLoop (entry sign c) (canonical v) = run at step length carryBound
  obtain ⟨result, out⟩ := run
  simp only at step length carryBound
  have whole : canonical (stepValue (entry sign c) v) = result ++ minimal out := by
    have sum : value (result ++ minimal out) = stepValue (entry sign c) v := by
      rw [value_append, value_minimal, length]
      exact step
    have full : (result ++ minimal out).length =
        ((canonical v).length - 1 + (minimal out).length) + 1 := by
      have positive := canonical_length_pos v
      rw [List.length_append, length]
      omega
    rw [← sum]
    apply canonical_value full
    by_cases carried : 0 < out
    · -- The last flushed byte is not zero.
      right
      have nonempty : 0 < (minimal out).length := by simp [minimal_of_pos carried]
      have positive := canonical_length_pos v
      rw [sum, ← step]
      calc
        256 ^ ((canonical v).length - 1 + (minimal out).length)
            = 256 ^ (canonical v).length * 256 ^ ((minimal out).length - 1) := by
          rw [← pow_add]
          congr 1
          omega
        _ ≤ 256 ^ (canonical v).length * out := Nat.mul_le_mul_left _ (pow_le_of_pos carried)
        _ ≤ value result + 256 ^ (canonical v).length * out := Nat.le_add_left _ _
    · -- No byte is added, and the value has not become smaller.
      obtain rfl : out = 0 := by omega
      rw [sum]
      rcases canonical_top v with single | top
      · left
        simp [single]
      · right
        simpa using top.trans (le_stepValue (entry sign c) v)
  have flushed := flushCarry_eq size 4 out result (by omega) (by omega)
  simp only [decodeChar, alphabetEntry_inTable sign known, bind, Except.bind, loop, flushed, whole,
    List.length_append]

/-! ## The whole string -/

theorem le_foldl_stepValue (sign : CharSign) (s : List UInt8) (v : Nat) :
    v ≤ s.foldl (fun v c => stepValue (entry sign c) v) v := by
  induction s generalizing v with
  | nil => exact le_rfl
  | cons c s ih => exact (le_stepValue _ v).trans (ih _)

/-- The array only grows, so the loop stays inside it when the final value does. -/
theorem decodeChars_canonical (sign : CharSign) (size : Nat) (s : List UInt8) (v : Nat)
    (known : ∀ c ∈ s, InTable c) (fits : (canonical v).length ≤ size) :
    s.foldlM (decodeChar sign size) (canonical v) =
      if (canonical (s.foldl (fun v c => stepValue (entry sign c) v) v)).length ≤ size then
        .ok (canonical (s.foldl (fun v c => stepValue (entry sign c) v) v))
      else .error .arrayIndex := by
  induction s generalizing v with
  | nil =>
    rw [List.foldlM_nil, List.foldl_nil, if_pos fits]
    rfl
  | cons c s ih =>
    obtain ⟨first, later⟩ := List.forall_mem_cons.mp known
    rw [List.foldlM_cons, decodeChar_canonical sign size v first fits, List.foldl_cons]
    by_cases room : (canonical (stepValue (entry sign c) v)).length ≤ size
    · rw [if_pos room]
      exact ih _ later room
    · have grows := canonical_length_mono
        (le_foldl_stepValue sign s (stepValue (entry sign c) v))
      rw [if_neg room, if_neg (by omega)]
      rfl

theorem decodeChars_inTable (sign : CharSign) (size : Nat) (s result final : List UInt8)
    (ran : s.foldlM (decodeChar sign size) result = .ok final) : ∀ c ∈ s, InTable c := by
  induction s generalizing result with
  | nil => simp
  | cons c s ih =>
    rw [List.foldlM_cons] at ran
    by_cases known : InTable c
    · cases step : decodeChar sign size result c with
      | error fault =>
        rw [step] at ran
        cases ran
      | ok next =>
        rw [step] at ran
        exact List.forall_mem_cons.mpr ⟨known, ih next ran⟩
    · have fault : decodeChar sign size result c = .error .tableIndex := by
        rw [decodeChar, alphabetEntry_outside sign known]
        rfl
      rw [fault] at ran
      cases ran

theorem leadingOnes_cons_one (s : List UInt8) :
    leadingOnes ('1'.toUInt8 :: s) = leadingOnes s + 1 := by
  simp [leadingOnes]

theorem leadingOnes_cons_ne {c : UInt8} (other : c ≠ '1'.toUInt8) (s : List UInt8) :
    leadingOnes (c :: s) = 0 := by
  simp [leadingOnes, other]

theorem appendZeros_eq (size : Nat) (s result : List UInt8) (fits : result.length ≤ size) :
    appendZeros size s result =
      if result.length + leadingOnes s ≤ size then
        .ok (result ++ List.replicate (leadingOnes s) 0)
      else .error .arrayIndex := by
  induction s generalizing result with
  | nil => simp [appendZeros, leadingOnes, fits]
  | cons c s ih =>
    by_cases one : c = '1'.toUInt8
    · subst one
      simp only [appendZeros, leadingOnes_cons_one, ↓reduceIte]
      by_cases room : result.length < size
      · rw [if_pos room, ih _ (by simpa using room)]
        simp only [List.length_append, List.length_singleton, List.append_assoc,
          List.singleton_append, List.replicate_succ, Nat.add_assoc, Nat.add_comm 1]
      · rw [if_neg room, if_neg (by omega)]
    · simp [appendZeros, one, leadingOnes_cons_ne one, fits]

/-- Both passes over the string: what they read is in the array if the array has the room. -/
theorem passes_eq (sign : CharSign) {size : Nat} (s : List UInt8) (one : 1 ≤ size)
    (known : ∀ c ∈ s, InTable c) :
    (s.foldlM (decodeChar sign size) [0] >>= appendZeros size s) =
      if readLength sign s ≤ size then
        .ok (canonical (readValue sign s) ++ List.replicate (leadingOnes s) 0)
      else .error .arrayIndex := by
  have loop : s.foldlM (decodeChar sign size) [0] =
      if (canonical (readValue sign s)).length ≤ size then .ok (canonical (readValue sign s))
      else .error .arrayIndex := decodeChars_canonical sign size s 0 known one
  rw [loop, readLength]
  by_cases room : (canonical (readValue sign s)).length ≤ size
  · rw [if_pos room, Nat.add_comm]
    exact appendZeros_eq size s _ room
  · rw [if_neg room, if_neg (by omega)]
    rfl

theorem swapAt_length (result : List UInt8) (i j : Nat) :
    (swapAt result i j).length = result.length := by
  simp [swapAt]

theorem swapAt_getElem? (result : List UInt8) {i j : Nat} (iBound : i < result.length)
    (jBound : j < result.length) (p : Nat) :
    (swapAt result i j)[p]? =
      if p = j then result[i]? else if p = i then result[j]? else result[p]? := by
  simp only [swapAt, List.getD_eq_getElem?_getD, List.getElem?_set, List.length_set]
  by_cases atJ : j = p
  · subst atJ
    simp [jBound, iBound]
  · by_cases atI : i = p
    · subst atI
      simp [atJ, Ne.symm atJ, jBound, iBound]
    · simp [atJ, atI, Ne.symm atJ, Ne.symm atI]

/-- With the swaps for the indices from `k` up done, the loop does the others. -/
theorem reverseLoop_eq (z k : Nat) (original result : List UInt8)
    (length : result.length = original.length) (start : k ≤ original.length)
    (half : original.length ≤ 2 * z) (middle : 2 * z ≤ original.length + 1) (left : z ≤ k)
    (done : ∀ p < original.length, result[p]? =
      if k ≤ p ∨ p < original.length - k then original[original.length - 1 - p]?
      else original[p]?) :
    reverseLoop z k result = original.reverse := by
  induction k generalizing result with
  | zero =>
    have empty : original = [] := List.eq_nil_of_length_eq_zero (by omega)
    have none : result = [] := List.eq_nil_of_length_eq_zero (by rw [length, empty]; rfl)
    simp [reverseLoop, empty, none]
  | succ i ih =>
    by_cases more : z ≤ i
    · rw [reverseLoop, if_pos more]
      have iBound : i < result.length := by omega
      have jBound : result.length - i - 1 < result.length := by omega
      apply ih _ (by rw [swapAt_length, length]) (by omega) more
      intro p bound
      rw [swapAt_getElem? result iBound jBound, length, done i (by omega),
        done (original.length - i - 1) (by omega), done p bound]
      have mirrorI : original.length - 1 - (original.length - i - 1) = i := by omega
      grind
    · rw [reverseLoop, if_neg more]
      apply List.ext_getElem?
      intro p
      by_cases bound : p < original.length
      · rw [List.getElem?_reverse bound, done p bound]
        by_cases swapped : i + 1 ≤ p ∨ p < original.length - (i + 1)
        · rw [if_pos swapped]
        · rw [if_neg swapped]
          congr 1
          omega
      · rw [List.getElem?_eq_none (by omega), List.getElem?_eq_none (by simpa using bound)]

theorem reverseLoop_reverse (result : List UInt8) :
    reverseLoop (result.length / 2 + result.length % 2) result.length result = result.reverse := by
  apply reverseLoop_eq _ _ _ _ rfl le_rfl (by omega) (by omega) (by omega)
  intro p bound
  rw [if_neg (by omega)]

end CNear.Base58
