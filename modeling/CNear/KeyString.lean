import CNear.Base58Conformance

/-! `b58decode_ed25519_key`: a key string is the prefix `ed25519:` and the Base58 form of the
key. The code looks at the prefix and at the decoded length only, so it handles a string as
specified exactly when the loops of `base58_decode` read nothing else into that length. -/

namespace CNear.KeyString
open Base58

def keyPrefix : List UInt8 := ascii "ed25519:"

/-- `b58_key + 8` -/
def keyBody (b58Key : CString) : CString := b58Key.drop 8

def b58decodeEd25519Key (sign : CharSign) {klen : Nat} (binKey : Block klen) (b58Key : CString) :
    Except Fault (Bool × Block klen) :=
  if b58Key.bytes.take 8 ≠ keyPrefix then .ok (false, binKey)
  else do
    let (length, binKey) ← base58Decode sign (keyBody b58Key) binKey
    .ok (length == klen, binKey)

/-- A prefix and a non-empty Base58 string of exactly `klen` bytes. -/
def ValidKey (klen : Nat) (b58Key : CString) : Prop :=
  ∃ body, b58Key.bytes = keyPrefix ++ body ∧ body ≠ [] ∧ WellFormed body ∧
    (decode body).length = klen

theorem validKey_iff (klen : Nat) (b58Key : CString) :
    ValidKey klen b58Key ↔ b58Key.bytes.take 8 = keyPrefix ∧ (keyBody b58Key).bytes ≠ [] ∧
      WellFormed (keyBody b58Key).bytes ∧ (decode (keyBody b58Key).bytes).length = klen := by
  constructor
  · intro valid
    obtain ⟨body, split, nonempty, wellFormed, length⟩ := valid
    have head : b58Key.bytes.take 8 = keyPrefix := by
      rw [split]
      exact List.take_left' rfl
    have tail : (keyBody b58Key).bytes = body := by
      change b58Key.bytes.drop 8 = body
      rw [split]
      exact List.drop_left' rfl
    rw [tail]
    exact ⟨head, nonempty, wellFormed, length⟩
  · intro parts
    obtain ⟨head, rest⟩ := parts
    refine ⟨(keyBody b58Key).bytes, ?_, rest⟩
    rw [← head]
    exact (List.take_append_drop 8 b58Key.bytes).symm

theorem b58decode_no_prefix (sign : CharSign) {klen : Nat} (binKey : Block klen) {b58Key : CString}
    (missing : b58Key.bytes.take 8 ≠ keyPrefix) :
    b58decodeEd25519Key sign binKey b58Key = .ok (false, binKey) := by
  rw [b58decodeEd25519Key, if_pos missing]

theorem b58decode_defined {sign : CharSign} {klen : Nat} (binKey : Block klen) {b58Key : CString}
    (head : b58Key.bytes.take 8 = keyPrefix) (defined : Defined sign (keyBody b58Key)) :
    b58decodeEd25519Key sign binKey b58Key =
      .ok (readLength sign (scanned (keyBody b58Key)) == klen,
        binKey.write (readBytes sign (scanned (keyBody b58Key)))) := by
  rw [b58decodeEd25519Key, if_neg (not_not.mpr head), base58Decode_defined defined, ok_bind]

theorem b58decode_undefined {sign : CharSign} {klen : Nat} (binKey : Block klen) {b58Key : CString}
    (head : b58Key.bytes.take 8 = keyPrefix) (undefined : ¬ Defined sign (keyBody b58Key)) :
    ∃ fault, b58decodeEd25519Key sign binKey b58Key = .error fault := by
  obtain ⟨fault, failed⟩ := base58Decode_undefined undefined binKey
  exact ⟨fault, by rw [b58decodeEd25519Key, if_neg (not_not.mpr head), failed, error_bind]⟩

/-- A string that is accepted fills the key, so what was in it does not matter. -/
theorem b58decode_accepted {sign : CharSign} {klen : Nat} {binKey key : Block klen}
    {b58Key : CString} (accepted : b58decodeEd25519Key sign binKey b58Key = .ok (true, key))
    (other : Block klen) : b58decodeEd25519Key sign other b58Key = .ok (true, key) := by
  by_cases head : b58Key.bytes.take 8 = keyPrefix
  · by_cases defined : Defined sign (keyBody b58Key)
    · rw [b58decode_defined _ head defined] at accepted ⊢
      simp only [Except.ok.injEq, Prod.mk.injEq, beq_iff_eq] at accepted ⊢
      obtain ⟨length, final⟩ := accepted
      have full : (readBytes sign (scanned (keyBody b58Key))).length = klen := by
        rw [readBytes_length, length]
      refine ⟨length, ?_⟩
      rw [← final]
      apply Block.ext_bytes
      rw [Block.write_exact other full, Block.write_exact binKey full]
    · obtain ⟨fault, failed⟩ := b58decode_undefined binKey head defined
      rw [failed] at accepted
      cases accepted
  · have refused := b58decode_no_prefix sign binKey head
    rw [refused] at accepted
    cases accepted

/-- The code accepts exactly the valid keys and then holds exactly their bytes. -/
def HandlesKey (sign : CharSign) {klen : Nat} (binKey : Block klen) (b58Key : CString) : Prop :=
  ∃ accepted final, b58decodeEd25519Key sign binKey b58Key = .ok (accepted, final) ∧
    (accepted = true ↔ ValidKey klen b58Key) ∧
    (accepted = true → final.bytes = decode (keyBody b58Key).bytes)

/-- Base58 text of a length that the array size can be computed for, with some other
character than `1`. -/
def OrdinaryBody (body : CString) : Prop :=
  body.bytes ≠ [] ∧ WellFormed body.bytes ∧ 137 * body.strlen < 0x80000000 ∧
    ∃ c ∈ body.bytes, c ≠ '1'.toUInt8

/-- Any other text that the loops can read, to a length that is not the key's. -/
def RefusedBody (sign : CharSign) (klen : Nat) (body : CString) : Prop :=
  Defined sign body ∧ readLength sign (scanned body) ≠ klen ∧
    body.bytes ≠ List.replicate klen '1'.toUInt8

theorem ordinary_defined {body : CString} (ordinary : OrdinaryBody body) (sign : CharSign) :
    Defined sign body ∧ readLength sign (scanned body) = (decode body.bytes).length ∧
      readBytes sign (scanned body) = decode body.bytes := by
  obtain ⟨nonempty, wellFormed, short, other⟩ := ordinary
  have nonzero := (number_ne_zero_iff body.bytes).mpr other
  have bytes := readBytes_wellFormed sign wellFormed nonzero
  rw [scanned_of_lt (by omega)]
  exact ⟨defined_of_nonzero sign nonempty wellFormed short nonzero,
    by rw [← readBytes_length, bytes], bytes⟩

/-- A valid key of a length in use is ordinary text, unless it is all ones. -/
theorem valid_ordinary_or_ones {klen : Nat} (small : klen ≤ 64) {b58Key : CString}
    (valid : ValidKey klen b58Key) :
    OrdinaryBody (keyBody b58Key) ∨ (keyBody b58Key).bytes = List.replicate klen '1'.toUInt8 := by
  obtain ⟨-, nonempty, wellFormed, length⟩ := (validKey_iff klen b58Key).mp valid
  by_cases other : ∃ c ∈ (keyBody b58Key).bytes, c ≠ '1'.toUInt8
  · left
    have bound : (keyBody b58Key).bytes.length ≤ 2 * (decode (keyBody b58Key).bytes).length :=
      length_le_decode
    refine ⟨nonempty, wellFormed, ?_, other⟩
    change 137 * (keyBody b58Key).bytes.length < 0x80000000
    omega
  · right
    push Not at other
    have zero := (number_eq_zero_iff _).mpr other
    rw [decode_length, zero, leadingOnes_of_ones other] at length
    simp only [LittleEndian.minimal_zero, List.length_nil, Nat.add_zero] at length
    exact List.eq_replicate_iff.mpr ⟨length, other⟩

theorem replicate_ones_valid {klen : Nat} (positive : 0 < klen) {b58Key : CString}
    (head : b58Key.bytes.take 8 = keyPrefix)
    (ones : (keyBody b58Key).bytes = List.replicate klen '1'.toUInt8) : ValidKey klen b58Key := by
  have all : ∀ c ∈ (keyBody b58Key).bytes, c = '1'.toUInt8 := by
    rw [ones]
    exact fun c member => List.eq_of_mem_replicate member
  refine (validKey_iff klen b58Key).mpr ⟨head, ?_, ?_, ?_⟩
  · rw [ones]
    simp [positive.ne']
  · intro c member
    rw [all c member]
    decide
  · rw [decode_length, (number_eq_zero_iff _).mpr all, leadingOnes_of_ones all, ones]
    simp

theorem handlesKey_ordinary (sign : CharSign) {klen : Nat} (binKey : Block klen) {b58Key : CString}
    (head : b58Key.bytes.take 8 = keyPrefix) (ordinary : OrdinaryBody (keyBody b58Key)) :
    HandlesKey sign binKey b58Key := by
  obtain ⟨defined, length, bytes⟩ := ordinary_defined ordinary sign
  refine ⟨_, _, b58decode_defined binKey head defined, ?_, ?_⟩
  · rw [validKey_iff, beq_iff_eq, length]
    exact ⟨fun same => ⟨head, ordinary.1, ordinary.2.1, same⟩, fun valid => valid.2.2.2⟩
  · intro accepted
    rw [beq_iff_eq, length] at accepted
    rw [bytes, Block.write_exact binKey accepted]

theorem handlesKey_refused (sign : CharSign) {klen : Nat} (small : klen ≤ 64)
    (binKey : Block klen) {b58Key : CString} (head : b58Key.bytes.take 8 = keyPrefix)
    (refused : RefusedBody sign klen (keyBody b58Key)) : HandlesKey sign binKey b58Key := by
  obtain ⟨defined, other, notOnes⟩ := refused
  have rejected : ¬ (readLength sign (scanned (keyBody b58Key)) == klen) = true := by
    simpa using other
  refine ⟨_, _, b58decode_defined binKey head defined, ?_, fun accepted => absurd accepted rejected⟩
  refine ⟨fun accepted => absurd accepted rejected, fun valid => ?_⟩
  rcases valid_ordinary_or_ones small valid with ordinary | ones
  · obtain ⟨-, length, -⟩ := ordinary_defined ordinary sign
    rw [length] at other
    exact absurd ((validKey_iff klen b58Key).mp valid).2.2.2 other
  · exact absurd ones notOnes

/-- A string of ones of the key's length is refused for its extra zero byte. -/
theorem ones_not_accepted (sign : CharSign) {klen : Nat} (small : klen ≤ 64)
    (binKey : Block klen) {b58Key : CString} (head : b58Key.bytes.take 8 = keyPrefix)
    (ones : (keyBody b58Key).bytes = List.replicate klen '1'.toUInt8) (final : Block klen) :
    b58decodeEd25519Key sign binKey b58Key ≠ .ok (true, final) := by
  intro ran
  have all : ∀ c ∈ (keyBody b58Key).bytes, c = '1'.toUInt8 := by
    rw [ones]
    exact fun c member => List.eq_of_mem_replicate member
  have size : (keyBody b58Key).strlen = klen := by
    change (keyBody b58Key).bytes.length = klen
    rw [ones, List.length_replicate]
  have whole : scanned (keyBody b58Key) = (keyBody b58Key).bytes := scanned_of_lt (by omega)
  by_cases defined : Defined sign (keyBody b58Key)
  · rw [b58decode_defined binKey head defined, whole, readLength_ones sign all, ones,
      List.length_replicate] at ran
    simp at ran
  · obtain ⟨fault, failed⟩ := b58decode_undefined binKey head defined
    rw [failed] at ran
    cases ran

theorem not_handlesKey_ones (sign : CharSign) {klen : Nat} (positive : 0 < klen)
    (small : klen ≤ 64) (binKey : Block klen) {b58Key : CString}
    (head : b58Key.bytes.take 8 = keyPrefix)
    (ones : (keyBody b58Key).bytes = List.replicate klen '1'.toUInt8) :
    ¬ HandlesKey sign binKey b58Key := by
  intro handled
  obtain ⟨accepted, final, ran, specified, -⟩ := handled
  have yes := specified.mpr (replicate_ones_valid positive head ones)
  rw [yes] at ran
  exact ones_not_accepted sign small binKey head ones final ran

/-- A key string is handled as specified exactly when it lacks the prefix, or its body is
Base58 text with some character other than `1`, or its body is anything else that can be
read, does not come out at the key's length and is not the all-ones string of that length. -/
theorem handlesKey_iff (sign : CharSign) {klen : Nat} (inUse : klen = 32 ∨ klen = 64)
    (binKey : Block klen) (b58Key : CString) :
    HandlesKey sign binKey b58Key ↔
      b58Key.bytes.take 8 ≠ keyPrefix ∨ OrdinaryBody (keyBody b58Key) ∨
        RefusedBody sign klen (keyBody b58Key) := by
  have positive : 0 < klen := by omega
  have small : klen ≤ 64 := by omega
  by_cases head : b58Key.bytes.take 8 = keyPrefix
  · constructor
    · intro handled
      right
      have notOnes : (keyBody b58Key).bytes ≠ List.replicate klen '1'.toUInt8 := fun ones =>
        not_handlesKey_ones sign positive small binKey head ones handled
      obtain ⟨accepted, final, ran, specified, -⟩ := handled
      by_cases valid : ValidKey klen b58Key
      · exact Or.inl ((valid_ordinary_or_ones small valid).resolve_right notOnes)
      · right
        by_cases defined : Defined sign (keyBody b58Key)
        · rw [b58decode_defined binKey head defined] at ran
          simp only [Except.ok.injEq, Prod.mk.injEq] at ran
          refine ⟨defined, fun same => valid (specified.mp ?_), notOnes⟩
          rw [← ran.1, same]
          simp
        · obtain ⟨fault, failed⟩ := b58decode_undefined binKey head defined
          rw [failed] at ran
          cases ran
    · intro condition
      rcases condition with missing | ordinary | refused
      · exact absurd head missing
      · exact handlesKey_ordinary sign binKey head ordinary
      · exact handlesKey_refused sign small binKey head refused
  · refine ⟨fun _ => Or.inl head, fun _ => ?_⟩
    refine ⟨false, binKey, b58decode_no_prefix sign binKey head, ?_, by simp⟩
    rw [validKey_iff]
    simp [head]

/-- The test suite's public key. -/
theorem handlesKey_test_key :
    HandlesKey .signed (Block.replicate 32 0)
      (.lit "ed25519:FY835wAj7g8fRMncf4tqkyT3YdoW71t1ERnt3L78R28i") := by
  have ordinary :
      OrdinaryBody (keyBody (.lit "ed25519:FY835wAj7g8fRMncf4tqkyT3YdoW71t1ERnt3L78R28i")) := by
    unfold OrdinaryBody
    decide +kernel
  exact (handlesKey_iff .signed (Or.inl rfl) _ _).mpr (Or.inr (Or.inl ordinary))

/-- The test suite's public key with its last character mistyped as `0`, which is not a
Base58 character, is accepted. -/
theorem mistyped_key_accepted :
    ¬ HandlesKey .signed (Block.replicate 32 0)
      (.lit "ed25519:FY835wAj7g8fRMncf4tqkyT3YdoW71t1ERnt3L78R280") := by
  intro handled
  obtain ⟨accepted, final, ran, specified, -⟩ := handled
  have invalid : ¬ ValidKey 32 (.lit "ed25519:FY835wAj7g8fRMncf4tqkyT3YdoW71t1ERnt3L78R280") := by
    rw [validKey_iff]
    intro valid
    obtain ⟨-, -, wellFormed, -⟩ := valid
    exact absurd (wellFormed '0'.toUInt8 (by decide +kernel)) (by decide)
  have outcome : (b58decodeEd25519Key .signed (Block.replicate 32 0)
      (.lit "ed25519:FY835wAj7g8fRMncf4tqkyT3YdoW71t1ERnt3L78R280")).map Prod.fst = .ok true := by
    decide +kernel
  rw [ran] at outcome
  exact invalid (specified.mp (Except.ok.inj outcome))

end CNear.KeyString
