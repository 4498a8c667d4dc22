import CNear.Base58Array

/-! The accumulation loop of `base58_decode` over the alphabet. After every character the array
holds the canonical bytes of the value read so far, each turn of the inner loop stays inside
32 bits, and the flush adds at most one byte, inside the array. -/

namespace CNear.Base58Array
open Base58 LittleEndian Simulation

variable {size : Nat}

/-- What turn `j` of the inner loop adds up, before the sum is cut to 32 bits. -/
def turnSum (sign : CharSign) (work : Work size) (c : UInt8) (j : Nat) : Except Fault Nat := do
  let carry ← alphabetEntry sign c
  let (carry, result) ← mulAddFrom j 0 carry work.result
  let byte ← result.load j
  .ok (carry + byte.toNat * 58)

/-- The array is the shortest little-endian form of a value, with one byte below 256. -/
structure Accumulated (work : Work size) (v : Nat) : Prop where
  value : LittleEndian.value work.bytes = v
  single : v < 256 → work.resultlen = 1
  minimal : 256 ≤ v → work.resultlen = (LittleEndian.minimal v).length
  top : 256 ≤ v → ∃ byte, work.bytes.getLast? = some byte ∧ byte ≠ 0

/-- One character is accumulated without a wrapped carry and without leaving the array. -/
structure CharStep (sign : CharSign) (work next : Work size) (c : UInt8) : Prop where
  ran : decodeCharAt sign work c = .ok next
  noWrap : ∀ j < work.resultlen, ∃ sum, turnSum sign work c j = .ok sum ∧ sum < 0x100000000
  once : next.resultlen ≤ work.resultlen + 1
  index : work.resultlen < next.resultlen → work.resultlen < size

/-! ## The carry -/

/-- A carry below 58 stays below 58. -/
theorem mulAddLoop_carry_small (carry : Nat) (result : List UInt8) (small : carry < 58) :
    (mulAddLoop carry result).2 < 58 := by
  induction result generalizing carry with
  | nil => exact small
  | cons byte result ih =>
    have low := byte.toNat_lt
    have exact_sum : (carry + byte.toNat * 58) % 0x100000000 = carry + byte.toNat * 58 :=
      Nat.mod_eq_of_lt (by omega)
    simp only [mulAddLoop, exact_sum]
    apply ih
    omega

theorem turnSum_lt (sign : CharSign) {work : Work size} {c : UInt8} (member : c ∈ alphabet)
    (inside : work.resultlen ≤ size) {j : Nat} (turn : j < work.resultlen) :
    ∃ sum, turnSum sign work c j = .ok sum ∧ sum < 0x100000000 := by
  obtain ⟨next, ran, -⟩ := mulAddFrom_eq j 0 (digit c) work.result (by omega)
  have carry := mulAddLoop_carry_small (digit c) ((work.result.bytes.drop 0).take j)
    (digit_lt member)
  have byte := (next.bytes.getD j 0).toNat_lt
  have computed : turnSum sign work c j =
      .ok ((mulAddLoop (digit c) ((work.result.bytes.drop 0).take j)).2 +
        (next.bytes.getD j 0).toNat * 58) := by
    rw [turnSum, alphabetEntry_inTable sign (inTable_of_mem member), ok_bind,
      entry_of_mem sign member, ran, ok_bind]
    simp only [Block.load_eq next (turn.trans_le inside), ok_bind]
  exact ⟨_, computed, by omega⟩

/-! ## The value -/

/-- One more digit needs at most one more byte. -/
theorem canonical_length_step {v next : Nat} (step : next ≤ 58 * v + 57) :
    (canonical next).length ≤ (canonical v).length + 1 := by
  apply canonical_length_le (Nat.succ_pos _)
  have upper : v < 256 ^ (canonical v).length := by
    have bound := value_lt (canonical v)
    rwa [value_canonical] at bound
  rw [pow_succ]
  omega

theorem accumulated {work : Work size} {v : Nat} (holds : Holds work (canonical v)) :
    Accumulated work v where
  value := by rw [Work.bytes, holds.bytes, value_canonical]
  single := by
    intro small
    have upper := canonical_length_le Nat.one_pos (by simpa using small)
    have positive := canonical_length_pos v
    rw [← holds.length]
    omega
  minimal := by
    intro large
    rw [← holds.length, canonical, if_neg (by omega)]
  top := by
    intro large
    rw [Work.bytes, holds.bytes, canonical, if_neg (by omega)]
    exact minimal_getLast? (by omega)

theorem accumulate (sign : CharSign) {s : List UInt8} (wellFormed : WellFormed s)
    (positive : 0 < size) (room : s.length ≤ size) {start : Work size} (held : Holds start [0]) :
    ∃ work, s.foldlM (decodeCharAt sign) start = .ok work ∧ Holds work (canonical (number s)) := by
  have known : ∀ c ∈ s, InTable c := fun c member => inTable_of_mem (wellFormed c member)
  have small : number s < 256 ^ max 1 s.length := by
    calc
      number s < 58 ^ s.length := number_lt wellFormed
      _ ≤ 256 ^ s.length := Nat.pow_le_pow_left (by decide) _
      _ ≤ 256 ^ max 1 s.length := Nat.pow_le_pow_right (by decide) (Nat.le_max_right _ _)
  have fits : (canonical (number s)).length ≤ size :=
    (canonical_length_le (by omega) small).trans (by omega)
  have loop := decodeChars_canonical sign size s 0 known positive
  have refines := Refines.foldlM s
    (fun c _ work list holds => decodeCharAt_refines sign c holds) held
  rw [show canonical 0 = [0] from rfl, ← readValue, readValue_wellFormed sign wellFormed,
    if_pos fits] at loop
  rw [loop] at refines
  exact refines.of_ok

theorem number_append_single (s : List UInt8) (c : UInt8) :
    number (s ++ [c]) = 58 * number s + digit c := by
  simp [number]

/-- The step over the character at index `i`. -/
theorem charStep (sign : CharSign) {s : List UInt8} (wellFormed : WellFormed s)
    (positive : 0 < size) (room : s.length ≤ size) {start work : Work size} (held : Holds start [0])
    {i : Nat} {c : UInt8} (here : s[i]? = some c)
    (before : (s.take i).foldlM (decodeCharAt sign) start = .ok work)
    (holds : Holds work (canonical (number (s.take i)))) :
    ∃ next, CharStep sign work next c := by
  have member : c ∈ s := List.mem_of_getElem? here
  have later : s.take (i + 1) = s.take i ++ [c] := by
    rw [List.take_add_one, here, Option.toList_some]
  obtain ⟨next, whole, grown⟩ := accumulate sign (s := s.take (i + 1))
    (fun d present => wellFormed d (List.mem_of_mem_take present)) positive
    ((List.length_take_le' _ _).trans room) held
  rw [later, List.foldlM_append, before, ok_bind, List.foldlM_cons] at whole
  obtain ⟨last, ran, done⟩ := bind_eq_ok.mp whole
  obtain rfl : last = next := by simpa [pure, Except.pure] using done
  have digit := digit_lt (wellFormed c member)
  rw [later, number_append_single] at grown
  have once := canonical_length_step
    (show 58 * number (s.take i) + Base58.digit c ≤ 58 * number (s.take i) + 57 by omega)
  exact ⟨last, {
    ran := ran
    noWrap := fun j turn => turnSum_lt sign (wellFormed c member) holds.inside turn
    once := by rwa [holds.length, grown.length] at once
    index := fun appended => appended.trans_le grown.inside }⟩

/-- The invariant of the accumulation loop, at every character of every string over the
alphabet, and the reversal of any number of bytes. -/
theorem accumulation_invariant (sign : CharSign) (input : CString)
    (uninit : (size : Nat) → Block size) (nonempty : input.bytes ≠ [])
    (wellFormed : WellFormed input.bytes) (short : 137 * input.strlen < 0x80000000) :
    (∃ start : Work (input.strlen * 137 / 100),
      resultSize (intLength input) = .ok (input.strlen * 137 / 100) ∧
      startWork (uninit (input.strlen * 137 / 100)) = .ok start ∧
      ∀ i ≤ input.strlen, ∃ work,
        (input.bytes.take i).foldlM (decodeCharAt sign) start = .ok work ∧
        Accumulated work (number (input.bytes.take i)) ∧
        ∀ c, input.bytes[i]? = some c → ∃ next, CharStep sign work next c) ∧
    ∀ (size : Nat) (work : Work size), work.resultlen ≤ size →
      ∃ next, reverseCells work = .ok next ∧ next.bytes = work.bytes.reverse := by
  have positive : 0 < input.strlen := List.length_pos_iff.mpr nonempty
  have room : input.bytes.length ≤ input.strlen * 137 / 100 := by
    rw [← CString.strlen]
    omega
  constructor
  · have length : intLength input = input.strlen := intLength_of_lt (by omega)
    have computed := resultSize_ok (show 0 < intLength input by omega) (by omega)
    rw [length, Int.toNat_natCast] at computed
    obtain ⟨start, started, held⟩ := startWork_holds (uninit (input.strlen * 137 / 100)) (by omega)
    refine ⟨start, by rw [length, computed], started, ?_⟩
    intro i _
    obtain ⟨work, ran, holds⟩ := accumulate sign (s := input.bytes.take i)
      (fun c member => wellFormed c (List.mem_of_mem_take member)) (by omega)
      ((List.length_take_le' _ _).trans room) held
    refine ⟨work, ran, accumulated holds, ?_⟩
    intro c here
    exact charStep sign wellFormed (by omega) room held here ran holds
  · intro size work inside
    have holds : Holds work work.bytes := ⟨rfl, inside⟩
    obtain ⟨next, ran, reversed⟩ := reverseCells_holds holds
    exact ⟨next, ran, reversed.bytes⟩

/-- The input is `21z`, in an array that holds `0xff` everywhere. -/
theorem accumulation_invariant_three_chars :
    (∃ start : Work ((CString.lit "21z").strlen * 137 / 100),
      resultSize (intLength (.lit "21z")) = .ok ((CString.lit "21z").strlen * 137 / 100) ∧
      startWork (Block.replicate _ 0xff) = .ok start ∧
      ∀ i ≤ (CString.lit "21z").strlen, ∃ work,
        ((CString.lit "21z").bytes.take i).foldlM (decodeCharAt .signed) start = .ok work ∧
        Accumulated work (number ((CString.lit "21z").bytes.take i)) ∧
        ∀ c, (CString.lit "21z").bytes[i]? = some c → ∃ next, CharStep .signed work next c) ∧
    ∀ (size : Nat) (work : Work size), work.resultlen ≤ size →
      ∃ next, reverseCells work = .ok next ∧ next.bytes = work.bytes.reverse :=
  accumulation_invariant .signed (.lit "21z") (fun size => Block.replicate size 0xff) (by decide)
    (by decide +kernel) (by decide)

end CNear.Base58Array
