import CNear.Base58Loop

/-! `base58_decode` as a whole against the specification. The run is defined exactly when the
array size is, and the array holds what the loops read. Over the alphabet it returns the
specified decoding exactly when some character is not a `1`: for a value of zero the array
keeps the zero byte it started with, behind the one zero byte of every leading `1`. -/

namespace CNear.Base58
open LittleEndian

/-- The run of `base58_decode` over the first `len` characters has defined behaviour: the
array size is computed without overflow, every character is in the table, and the array
holds what is read. -/
structure Defined (sign : CharSign) (input : CString) : Prop where
  positive : 0 < intLength input
  noOverflow : intLength input * 137 < 0x80000000
  inTable : ∀ c ∈ scanned input, InTable c
  room : readLength sign (scanned input) ≤
    (intLength input).toNat * 137 / 100

theorem resultSize_ok {len : Int} (positive : 0 < len) (noOverflow : len * 137 < 0x80000000) :
    resultSize len = .ok (len.toNat * 137 / 100) := by
  obtain ⟨count, rfl⟩ := Int.eq_ofNat_of_zero_le positive.le
  have quotient : Int.tdiv ((count : Int) * 137) 100 = ((count * 137 / 100 : Nat) : Int) := rfl
  have large : 1 ≤ count * 137 / 100 := by
    have one : 0 < count := by simpa using positive
    omega
  rw [resultSize, quotient, if_neg (by omega), if_neg (by omega)]
  rfl

theorem resultSize_error {len : Int} (undefined : ¬ (0 < len ∧ len * 137 < 0x80000000)) :
    ∃ fault, resultSize len = .error fault := by
  by_cases overflow : len * 137 < -0x80000000 ∨ 0x80000000 ≤ len * 137
  · exact ⟨.intOverflow, by rw [resultSize, if_pos overflow]⟩
  · have nonpositive : len ≤ 0 := by omega
    have mirrored : 0 ≤ Int.tdiv (-(len * 137)) 100 := Int.tdiv_nonneg (by omega) (by decide)
    have empty : Int.tdiv (len * 137) 100 ≤ 0 := by
      rw [Int.neg_tdiv] at mirrored
      omega
    exact ⟨.arraySize, by rw [resultSize, if_neg overflow, if_pos empty]⟩

theorem decodeInto_eq (sign : CharSign) {size : Nat} (str : List UInt8) {outsize : Nat}
    (output : Block outsize) (one : 1 ≤ size) (known : ∀ c ∈ str, InTable c) :
    decodeInto sign size str output =
      if readLength sign str ≤ size then
        .ok (readLength sign str, output.write (readBytes sign str))
      else .error .arrayIndex := by
  have passes := passes_eq sign str one known
  have split : decodeInto sign size str output =
      (str.foldlM (decodeChar sign size) [0] >>= appendZeros size str).map
        fun result => (result.length, output.write result.reverse) := by
    simp only [decodeInto, reverseLoop_reverse, List.length_reverse]
    cases str.foldlM (decodeChar sign size) [0] with
    | error fault => rfl
    | ok result =>
      simp only [bind, Except.bind]
      cases appendZeros size str result <;> rfl
  rw [split, passes]
  by_cases room : readLength sign str ≤ size
  · rw [if_pos room, if_pos room, Except.map, List.reverse_append, List.reverse_replicate,
      List.length_append, List.length_replicate, Nat.add_comm]
    rfl
  · rw [if_neg room, if_neg room]
    rfl

theorem decodeInto_outside (sign : CharSign) (size : Nat) {str : List UInt8} {outsize : Nat}
    (output : Block outsize) (unknown : ¬ ∀ c ∈ str, InTable c) :
    ∃ fault, decodeInto sign size str output = .error fault := by
  cases loop : str.foldlM (decodeChar sign size) [0] with
  | ok result => exact absurd (decodeChars_inTable sign size str [0] result loop) unknown
  | error fault => exact ⟨fault, by rw [decodeInto, loop]; rfl⟩

theorem base58Decode_sized (sign : CharSign) {input : CString} {size outsize : Nat}
    (output : Block outsize) (computed : resultSize (intLength input) = .ok size) :
    base58Decode sign input output = decodeInto sign size (scanned input) output := by
  rw [base58Decode, computed, ok_bind]

theorem base58Decode_defined {sign : CharSign} {input : CString} (defined : Defined sign input)
    {outsize : Nat} (output : Block outsize) :
    base58Decode sign input output =
      .ok (readLength sign (scanned input), output.write (readBytes sign (scanned input))) := by
  have positive := defined.positive
  have size := resultSize_ok positive defined.noOverflow
  rw [base58Decode_sized sign output size, decodeInto_eq sign _ output (by omega) defined.inTable,
    if_pos defined.room]

theorem base58Decode_undefined {sign : CharSign} {input : CString} (undefined : ¬ Defined sign input)
    {outsize : Nat} (output : Block outsize) :
    ∃ fault, base58Decode sign input output = .error fault := by
  by_cases bounds : 0 < intLength input ∧ intLength input * 137 < 0x80000000
  · have size := resultSize_ok bounds.1 bounds.2
    rw [base58Decode_sized sign output size]
    by_cases known : ∀ c ∈ scanned input, InTable c
    · have full : ¬ readLength sign (scanned input) ≤ (intLength input).toNat * 137 / 100 :=
        fun room => undefined ⟨bounds.1, bounds.2, known, room⟩
      exact ⟨.arrayIndex, by rw [decodeInto_eq sign _ output (by omega) known, if_neg full]⟩
    · exact decodeInto_outside sign _ output known
  · obtain ⟨fault, failed⟩ := resultSize_error bounds
    exact ⟨fault, by rw [base58Decode, failed, error_bind]⟩

theorem base58Decode_ok_iff (sign : CharSign) (input : CString) {outsize : Nat}
    (output : Block outsize) (length : Nat) (final : Block outsize) :
    base58Decode sign input output = .ok (length, final) ↔
      Defined sign input ∧ length = readLength sign (scanned input) ∧
        final = output.write (readBytes sign (scanned input)) := by
  by_cases defined : Defined sign input
  · rw [base58Decode_defined defined]
    simp [defined, eq_comm]
  · obtain ⟨fault, failed⟩ := base58Decode_undefined defined output
    simp [failed, defined]

/-! ## Strings over the alphabet -/

theorem readValue_wellFormed (sign : CharSign) {s : List UInt8} (wellFormed : WellFormed s) :
    readValue sign s = number s := by
  unfold readValue number
  apply List.foldl_ext
  intro v c member
  have small := digit_lt (wellFormed c member)
  have step : entry sign c = digit c := entry_of_mem sign (wellFormed c member)
  rw [step, stepValue, if_neg (by omega)]

/-- A value that is not zero is read as specified. -/
theorem readBytes_wellFormed (sign : CharSign) {s : List UInt8} (wellFormed : WellFormed s)
    (nonzero : number s ≠ 0) : readBytes sign s = decode s := by
  rw [readBytes, readValue_wellFormed sign wellFormed, canonical, if_neg nonzero, decode]

/-- Zero is read as one byte more than the ones account for. -/
theorem readLength_ones (sign : CharSign) {s : List UInt8} (ones : ∀ c ∈ s, c = '1'.toUInt8) :
    readLength sign s = s.length + 1 := by
  have wellFormed : WellFormed s := fun c member => by
    rw [ones c member]
    decide
  rw [readLength, readValue_wellFormed sign wellFormed, (number_eq_zero_iff s).mpr ones,
    leadingOnes_of_ones ones]
  rfl

theorem intLength_of_lt {input : CString} (inRange : input.strlen < 0x80000000) :
    intLength input = input.strlen := bmod_of_lt inRange

theorem scanned_of_lt {input : CString} (inRange : input.strlen < 0x80000000) :
    scanned input = input.bytes := by
  rw [scanned, intLength_of_lt inRange]
  exact List.take_of_length_le le_rfl

/-- Over the alphabet only a string of ones can leave the array, and only a short one. -/
theorem defined_wellFormed_iff (sign : CharSign) {input : CString} (nonempty : input.bytes ≠ [])
    (wellFormed : WellFormed input.bytes) (short : 137 * input.strlen < 0x80000000) :
    Defined sign input ↔ readLength sign input.bytes ≤ input.strlen * 137 / 100 := by
  have inRange : input.strlen < 0x80000000 := by omega
  have length := intLength_of_lt inRange
  have whole := scanned_of_lt inRange
  have positive : 0 < input.strlen := List.length_pos_iff.mpr nonempty
  constructor
  · intro defined
    have room := defined.room
    rwa [whole, length, Int.toNat_natCast] at room
  · intro room
    exact {
      positive := by omega
      noOverflow := by omega
      inTable := by
        rw [whole]
        exact fun c member => inTable_of_mem (wellFormed c member)
      room := by rwa [whole, length, Int.toNat_natCast] }

theorem defined_of_nonzero (sign : CharSign) {input : CString} (nonempty : input.bytes ≠ [])
    (wellFormed : WellFormed input.bytes) (short : 137 * input.strlen < 0x80000000)
    (nonzero : number input.bytes ≠ 0) : Defined sign input := by
  rw [defined_wellFormed_iff sign nonempty wellFormed short, ← readBytes_length,
    readBytes_wellFormed sign wellFormed nonzero]
  have bound : (decode input.bytes).length ≤ input.strlen := decode_length_le wellFormed
  omega

theorem number_ne_zero_iff (s : List UInt8) : number s ≠ 0 ↔ ∃ c ∈ s, c ≠ '1'.toUInt8 := by
  rw [ne_eq, number_eq_zero_iff]
  push Not
  rfl

/-- `base58_decode` of a string over the alphabet is the specified decoding, length and
bytes, exactly when some character is not a `1`. -/
theorem base58Decode_conforms_iff (sign : CharSign) (input : CString) {outsize : Nat}
    (output : Block outsize) (nonempty : input.bytes ≠ []) (wellFormed : WellFormed input.bytes)
    (short : 137 * input.strlen < 0x80000000) :
    (∃ final, base58Decode sign input output = .ok ((decode input.bytes).length, final) ∧
      final.bytes = (decode input.bytes).take outsize ++
        output.bytes.drop (decode input.bytes).length) ↔
      ∃ c ∈ input.bytes, c ≠ '1'.toUInt8 := by
  rw [← number_ne_zero_iff]
  have whole : scanned input = input.bytes := scanned_of_lt (by omega)
  constructor
  · rintro ⟨final, ran, -⟩ zero
    obtain ⟨-, length, -⟩ := (base58Decode_ok_iff sign input output _ final).mp ran
    have ones := (number_eq_zero_iff input.bytes).mp zero
    have specified := decode_length_le wellFormed
    rw [whole, readLength_ones sign ones] at length
    omega
  · intro nonzero
    have defined := defined_of_nonzero sign nonempty wellFormed short nonzero
    have bytes := readBytes_wellFormed sign wellFormed nonzero
    refine ⟨output.write (decode input.bytes), ?_, rfl⟩
    rw [base58Decode_defined defined output, whole, ← readBytes_length, bytes]

/-- Two ones and `Hello World!`, into eight bytes. -/
theorem base58Decode_conforms_hello :
    ∃ final, base58Decode .signed (.lit "112NEpo7TZRRrLZSi2U") (Block.replicate 8 0xff) =
        .ok (14, final) ∧
      final.bytes = [0, 0] ++ ascii "Hello " := by
  have decoded : decode (ascii "112NEpo7TZRRrLZSi2U") = [0, 0] ++ ascii "Hello World!" := by
    decide +kernel
  obtain ⟨final, ran, bytes⟩ := (base58Decode_conforms_iff .signed (.lit "112NEpo7TZRRrLZSi2U")
    (Block.replicate 8 0xff) (by decide) (by decide +kernel) (by decide)).mpr
      ⟨'2'.toUInt8, by decide +kernel, by decide⟩
  change _ = Except.ok ((decode (ascii "112NEpo7TZRRrLZSi2U")).length, final) at ran
  change final.bytes = (decode (ascii "112NEpo7TZRRrLZSi2U")).take 8 ++ _ at bytes
  rw [decoded] at ran bytes
  exact ⟨final, ran, bytes⟩

/-- Three ones are three zero bytes; the code returns four. -/
theorem base58Decode_three_ones :
    ¬ ∃ final, base58Decode .signed (.lit "111") (Block.replicate 4 0) =
        .ok ((decode (ascii "111")).length, final) ∧
      final.bytes = (decode (ascii "111")).take 4 ++
        (Block.replicate 4 0).bytes.drop (decode (ascii "111")).length := by
  rintro ⟨final, ran, -⟩
  have four : base58Decode .signed (.lit "111") (Block.replicate 4 0) =
      .ok (4, Block.replicate 4 0) := by decide +kernel
  have three : (decode (ascii "111")).length = 3 := by rfl
  rw [four, three] at ran
  cases ran

end CNear.Base58
