import CNear.Sha2Constants
import CNear.Sha2Stream
import CNear.TransactionFormat

/-! Both hash functions compute the digests of the standard, in any pieces and with either transform,
where the code was compiled for the byte order of the host, and only there. A node that hashes what
it reads checks the signature of a transaction against the digest that was signed. -/

namespace CNear.Sha2

/-! ## Transforms -/

theorem toVariables_injective {v : Algorithm} {left right : Vector v.Word 8}
    (same : toVariables left = toVariables right) : left = right := by
  simp only [toVariables, start, Registers.toVariables, SecureHash.Variables.mk.injEq] at same
  obtain ⟨a, b, c, d, e, f, g, h⟩ := same
  apply Vector.ext
  intro i bound
  interval_cases i <;> assumption

/-- The words of a block, by their places. -/
def blockWords {v : Algorithm} (data : Vector v.Word 16) (j : Nat) : v.Word := data.toList.getD j 0

theorem blockWords_get {v : Algorithm} (data : Vector v.Word 16) (j : Nat) (bound : j < 16) :
    data[j] = blockWords data j := by
  have inside : j < data.toList.length := by rwa [Vector.length_toList]
  rw [blockWords, List.getD_eq_getElem?_getD, List.getElem?_eq_getElem inside]
  exact (Vector.getElem_toList _).symm

section Transforms
variable {v : Algorithm} {f : SecureHash.Variant v.wordBytes}

theorem transforms_agree (conforms : Conforms v f) (whole : 8 ∣ v.rounds) (state : Vector v.Word 8)
    (data : Vector v.Word 16) :
    unrolledTransform v state data = transform v state data ∧
      toVariables (transform v state data) =
        (toVariables state).add
          (SecureHash.rounds f (blockWords data) (toVariables state) f.rounds) := by
  have plain := @transform_eq v f _ state conforms data (blockWords_get data)
  have unrolled := @unrolledTransform_eq v f _ state conforms whole data (blockWords_get data)
  exact ⟨toVariables_injective (unrolled.trans plain.symm), plain⟩

end Transforms

/-- Rolled or unrolled, the transforms are the compression functions of the standard. -/
theorem transforms_standard :
    (∀ (state : Vector (BitVec 32) 8) (data : Vector (BitVec 32) 16),
      unrolledTransform sha256 state data = sha256Transform state data ∧
        @toVariables sha256 (sha256Transform state data) =
          (@toVariables sha256 state).add (SecureHash.rounds SecureHash.sha256
            (@blockWords sha256 data) (@toVariables sha256 state) 64)) ∧
    ∀ (state : Vector (BitVec 64) 8) (data : Vector (BitVec 64) 16),
      unrolledTransform sha512 state data = sha512Transform state data ∧
        @toVariables sha512 (sha512Transform state data) =
          (@toVariables sha512 state).add (SecureHash.rounds SecureHash.sha512
            (@blockWords sha512 data) (@toVariables sha512 state) 80) :=
  ⟨transforms_agree sha256_conforms (by decide), transforms_agree sha512_conforms (by decide)⟩

/-! ## Pieces -/

/-- A message in any pieces has the digest of the standard, and nothing is written outside the
buffer. -/
theorem digest_of_pieces {platform : Platform} (agree : platform.host = platform.byteOrder)
    (pieces : List (List UInt8)) :
    (pieces.foldlM (sha256Update platform) sha256Init >>= sha256Final platform) =
        .ok (SecureHash.digest SecureHash.sha256 pieces.flatten) ∧
      (pieces.foldlM (sha512Update platform) sha512Init >>= sha512Final platform) =
        .ok (SecureHash.digest SecureHash.sha512 pieces.flatten) :=
  ⟨updates_final sha256_conforms agree pieces, updates_final sha512_conforms agree pieces⟩

/-- The second piece ends the first block of `sha256`, and the third one the first block of
`sha512`. -/
theorem digest_of_three_pieces :
    let pieces := [List.replicate 60 0x61, List.replicate 10 0x62, List.replicate 130 0x63]
    (pieces.foldlM (sha256Update ⟨.littleEndian, .littleEndian⟩) sha256Init >>=
        sha256Final ⟨.littleEndian, .littleEndian⟩) =
        .ok (SecureHash.digest SecureHash.sha256
          (List.replicate 60 0x61 ++ (List.replicate 10 0x62 ++ List.replicate 130 0x63))) ∧
      (pieces.foldlM (sha512Update ⟨.littleEndian, .littleEndian⟩) sha512Init >>=
        sha512Final ⟨.littleEndian, .littleEndian⟩) =
        .ok (SecureHash.digest SecureHash.sha512
          (List.replicate 60 0x61 ++ (List.replicate 10 0x62 ++ List.replicate 130 0x63))) := by
  intro pieces
  have joined : pieces.flatten =
      List.replicate 60 0x61 ++ (List.replicate 10 0x62 ++ List.replicate 130 0x63) := by
    rw [List.flatten_cons, List.flatten_cons, List.flatten_cons, List.flatten_nil, List.append_nil]
  have digests := @digest_of_pieces ⟨.littleEndian, .littleEndian⟩ rfl pieces
  rwa [joined] at digests

/-! ## Byte order -/

/-- Compiled for the other byte order, the digest of nothing is another. -/
theorem sha256Raw_mismatched {platform : Platform} (differ : platform.host ≠ platform.byteOrder) :
    sha256Raw platform [] ≠ sha256Raw ⟨.littleEndian, .littleEndian⟩ [] := by
  obtain ⟨host, byteOrder⟩ := platform
  cases host <;> cases byteOrder
  · exact absurd rfl differ
  · decide +kernel
  · decide +kernel
  · exact absurd rfl differ

theorem sha512Raw_mismatched {platform : Platform} (differ : platform.host ≠ platform.byteOrder) :
    sha512Raw platform [] ≠ sha512Raw ⟨.littleEndian, .littleEndian⟩ [] := by
  obtain ⟨host, byteOrder⟩ := platform
  cases host <;> cases byteOrder
  · exact absurd rfl differ
  · decide +kernel
  · decide +kernel
  · exact absurd rfl differ

/-- The digests are those of the standard exactly where `BYTE_ORDER` is the order of the host. -/
theorem standard_iff_byteOrder (platform : Platform) :
    ((∀ data, sha256Raw platform data = .ok (SecureHash.digest SecureHash.sha256 data)) ↔
        platform.host = platform.byteOrder) ∧
      ((∀ data, sha512Raw platform data = .ok (SecureHash.digest SecureHash.sha512 data)) ↔
        platform.host = platform.byteOrder) := by
  have little : (⟨.littleEndian, .littleEndian⟩ : Platform).host =
      (⟨.littleEndian, .littleEndian⟩ : Platform).byteOrder := rfl
  refine ⟨⟨?_, raw_eq sha256_conforms⟩, ⟨?_, raw_eq sha512_conforms⟩⟩
  · intro standard
    by_contra differ
    exact sha256Raw_mismatched differ
      ((standard []).trans (raw_eq sha256_conforms little []).symm)
  · intro standard
    by_contra differ
    exact sha512Raw_mismatched differ
      ((standard []).trans (raw_eq sha512_conforms little []).symm)

/-! ## Signatures -/

section Signatures
open Transaction TransactionFormat Exchange

/-- A node reads the transaction, hashes the encoding of it and checks the signature with the key in
it. -/
theorem node_verifies {platform : Platform} (agree : platform.host = platform.byteOrder)
    {lib : Library} (hashes : ∀ data, sha256Raw platform data = .ok (lib.sha256Raw data).bytes)
    {privateKey : Block 64} {publicKey : Block 32}
    {verify : (key digest signature : List UInt8) → Bool}
    (signs : ∀ digest : Block 32, verify publicKey.bytes digest.bytes
      (lib.ed25519Sign digest privateKey publicKey).bytes = true)
    {nearTx : NearTransaction} {signerId : CString} {answers : Answers} (malloced : UInt8)
    (signer : nearTx.signerId = some signerId) (ed25519 : nearTx.keyType = nearKeyTypeED25519)
    (own : nearTx.publicKey = publicKey) (short : Short signerId nearTx)
    (granted : Uninterrupted signerId nearTx answers) :
    ∃ serial read, serializeTransaction malloced answers nearTx = .ok serial ∧
      Borsh.signedTransaction.decode (signedBlob lib privateKey publicKey serial) =
        some (read, []) ∧
      read.transaction = plain signerId nearTx ∧
      verify read.transaction.publicKey
        (SecureHash.digest SecureHash.sha256 (Borsh.transaction.encode read.transaction))
        read.signature = true := by
  have complete := (signedBlob_complete_iff lib privateKey publicKey ed25519 malloced answers).mpr
    ⟨short, granted⟩
  have digest := (hashes (Borsh.transaction.encode (plain signerId nearTx))).symm.trans
    (raw_eq sha256_conforms agree _)
  refine ⟨unsignedSerial malloced answers signerId nearTx,
    signed lib privateKey publicKey signerId nearTx, ?_, complete, rfl, ?_⟩
  · rw [serializeTransaction, signer]
    rfl
  · have verified := signs (lib.sha256Raw (Borsh.transaction.encode (plain signerId nearTx)))
    rw [Except.ok.inj digest, ← own] at verified
    rw [← own]
    exact verified

theorem digest_length (message : List UInt8) :
    (SecureHash.digest SecureHash.sha256 message).length = 32 := by
  simp only [SecureHash.digest, SecureHash.Variables.toList, List.flatMap_cons, List.flatMap_nil,
    List.length_append, bytesOf_length, List.length_nil]

/-- A library with the hash of the standard, and signatures that repeat the digest. -/
noncomputable def repeatingLibrary : Library :=
  { idleLibrary with
    sha256Raw := fun data => ⟨SecureHash.digest SecureHash.sha256 data, digest_length data⟩
    ed25519Sign := fun digest _ _ => ⟨digest.bytes ++ digest.bytes, by
      rw [List.length_append, digest.length_eq]⟩ }

theorem node_verifies_greeting :
    ∃ serial read, serializeTransaction 0 (fun _ => true) greeting = .ok serial ∧
      Borsh.signedTransaction.decode
          (signedBlob repeatingLibrary (Block.replicate 64 3) (Block.replicate 32 7) serial) =
        some (read, []) ∧
      read.transaction = plain (.lit "alice.near") greeting ∧
      (read.signature == SecureHash.digest SecureHash.sha256
          (Borsh.transaction.encode read.transaction) ++
        SecureHash.digest SecureHash.sha256
          (Borsh.transaction.encode read.transaction)) = true :=
  @node_verifies ⟨.littleEndian, .littleEndian⟩ rfl repeatingLibrary
    (raw_eq sha256_conforms rfl) (Block.replicate 64 3) (Block.replicate 32 7)
    (fun _ digest signature => signature == digest ++ digest) (fun _ => beq_self_eq_true _)
    greeting (.lit "alice.near") (fun _ => true) 0 rfl rfl rfl
    ⟨by decide, by decide, by decide, by decide⟩
    (uninterrupted_of_granted (fun _ => rfl) _ _)

end Signatures

end CNear.Sha2
