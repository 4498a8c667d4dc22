import CNear.NonceRuns

/-! The nonce of a single call. The transaction that is signed has the successor of the access
key's nonce exactly where that number survives its two readings and the printing between them.
Every other nonce is repeated, skipped, or stops the call. -/

namespace CNear.NonceTrip
open AccessKeyReply Account Base58 CJson Exchange NonceRuns NumberTrip PostedBytes Requests SendTx
  Transaction

/-- The transaction that is signed has the nonce after this one. -/
def SignsSuccessor (lib : Library) (client : Client) (world : World) (nearTx : NearTransaction)
    (status : NearTxStatus) (nonce : UInt64) : Prop :=
  ∃ filled rpcReq, prepareTx lib client world nearTx status = .ok (filled, rpcReq) ∧
    filled.nonce.toNat = nonce.toNat + 1

/-- The call goes on with a value whose block hash can be decoded. -/
def GoesOn (lib : Library) (client : Client) (world : World) : Prop :=
  ∃ rpcRes hash, viewedKey lib client world = .ok (some rpcRes) ∧
    hashItem rpcRes = some (.string hash) ∧ Defined lib.charSign hash

theorem fillAccessKey_natCast (lib : Library) {rpcRes : Json} {hash : CString} {n : Nat}
    (hashString : hashItem rpcRes = some (.string hash)) (defined : Defined lib.charSign hash)
    (nonce : nonceItem rpcRes = some (.number (.finite (n : ℚ)))) (fits : n < 0x10000000000000000)
    (nearTx : NearTransaction) : ∃ filled, fillAccessKey lib rpcRes nearTx = .ok filled := by
  have decoded := base58Decode_defined defined nearTx.blockHash
  change getObjectItemCaseSensitive (some rpcRes) (.lit "block_hash") = _ at hashString
  change getObjectItemCaseSensitive (some rpcRes) (.lit "nonce") = _ at nonce
  refine ⟨{ nearTx with
    blockHash := nearTx.blockHash.write (readBytes lib.charSign (scanned hash))
    nonce := UInt64.ofNat n + 1 }, ?_⟩
  rw [fillAccessKey, hashString, nonce, getStringValue, getNumberValue, decodeHash, decoded,
    castU64_natCast fits]
  rfl

/-- The nonce survives the trip exactly if it is a double that its fifteen digits do not
distort. -/
theorem signsSuccessor_iff {lib : Library} {client : Client} {world : World} {nonce : UInt64}
    (reports : Reports lib client world nonce) (goesOn : GoesOn lib client world)
    (nearTx : NearTransaction) (status : NearTxStatus) :
    SignsSuccessor lib client world nearTx status nonce ↔ Survives nonce.toNat := by
  obtain ⟨rpcRes, hash, viewed, hashString, defined⟩ := goesOn
  have back := viewed_nonce reports viewed
  rw [← readBack_eq_iff]
  constructor
  · intro signs
    obtain ⟨filled, rpcReq, prepared, successor⟩ := signs
    rcases prepareTx_cases prepared with ⟨missing, -, -⟩ | ⟨found, again, fill, -⟩
    · rw [viewed] at missing
      cases missing
    · obtain rfl : rpcRes = found := Option.some.inj (Except.ok.inj (viewed.symm.trans again))
      have next := filled_nonce fill back
      omega
  · intro same
    have fits : readBack nonce.toNat < 0x10000000000000000 := by
      rw [same]
      exact nonce.toNat_lt
    obtain ⟨filled, fill⟩ := fillAccessKey_natCast lib hashString defined back fits
      (fillSigner client.signer nearTx)
    have next := filled_nonce fill back
    obtain ⟨account, pubKey, hasAccount, -⟩ := viewedKey_account viewed
    have signer : filled.signerId = some account := by
      rw [fillAccessKey_frame fill]
      exact hasAccount
    have prepared := prepareTx_filled viewed fill (signedRequest_eq lib client world status signer)
    exact ⟨filled, _, prepared, by rw [next, same]⟩

/-! ## Two nonces -/

theorem defined_of_hashText (sign : CharSign) {hash : CString} (text : HashText hash) :
    Defined sign hash := by
  obtain ⟨length, final, ran, -⟩ := base58Decode_hash sign text (Block.replicate 32 0)
  exact ((base58Decode_ok_iff sign hash _ length final).mp ran).1

theorem goesOn_granting {lib : Library} {body : CString} {v v' : Json}
    (delivers : Delivers lib someClient (grantingWorld (fun _ => true) body 200) 200 (some v))
    (tripped : (lib.cJSONPrint v).bind lib.cJSONParse = some v') (noError : hasError v' = false)
    (hash : hashItem v' = some (.string keyHash)) :
    GoesOn lib someClient (grantingWorld (fun _ => true) body 200) := by
  have built := buildRpcViewAccessKey_granted (.lit "") (.lit "")
    (grantingWorld_granting (fun _ => true) body 200).viewKey
  have viewed := viewedKey_delivered delivers built
  rw [Option.bind_some, tripped] at viewed
  dsimp only at viewed
  rw [if_neg (by simp [noError])] at viewed
  exact ⟨v', keyHash, viewed, hash, defined_of_hashText lib.charSign keyValue_wellTyped.hashText⟩

def evenBody : CString :=
  .lit "\x7b\"result\":\x7b\"nonce\":4503599627370502,\"block_hash\":\"11111111111111111111111111111111\"\x7d\x7d"

def evenText : CString :=
  .lit "\x7b\n\t\"nonce\":\t4503599627370502,\n\t\"block_hash\":\t\"11111111111111111111111111111111\"\n\x7d"

/-- The value is printed with seventeen digits. -/
def evenLibrary : Library :=
  libraryFor evenBody evenText (.object [(.lit "result", valueWithNonce 4503599627370502)])
    (valueWithNonce 4503599627370502)

def oddBody : CString :=
  .lit "\x7b\"result\":\x7b\"nonce\":4503599627370501,\"block_hash\":\"11111111111111111111111111111111\"\x7d\x7d"

def oddText : CString :=
  .lit "\x7b\n\t\"nonce\":\t4.5035996273705e+15,\n\t\"block_hash\":\t\"11111111111111111111111111111111\"\n\x7d"

/-- The value is printed with fifteen digits. -/
def oddLibrary : Library :=
  libraryFor oddBody oddText (.object [(.lit "result", valueWithNonce 4503599627370501)])
    (valueWithNonce 4503599627370500)

/-- A call that gets a nonce below 2^53, with what is read back of it. -/
theorem call_granting {body text : CString} {nonce : UInt64} {back : Nat} (apart : text ≠ body)
    (small : nonce.toNat < 2 ^ 53) (same : readBack nonce.toNat = back) :
    let lib := libraryFor body text (.object [(.lit "result", valueWithNonce nonce.toNat)])
      (valueWithNonce back)
    Reports lib someClient (grantingWorld (fun _ => true) body 200) nonce ∧
      GoesOn lib someClient (grantingWorld (fun _ => true) body 200) := by
  intro lib
  have arrives : resultOrError (lib.cJSONParse body) = some (valueWithNonce nonce.toNat) :=
    libraryFor_arrives _ rfl
  have tripped : (lib.cJSONPrint (valueWithNonce nonce.toNat)).bind lib.cJSONParse =
      some (valueWithNonce back) := libraryFor_tripped apart _ _ _
  have delivers := grantingWorld_delivers someClient_named.address arrives (fun _ => true) 200
  exact ⟨reports_granting arrives tripped rfl rfl small same,
    goesOn_granting delivers tripped (valueWithNonce_wellTyped back).noError rfl⟩

theorem even_call :
    Reports evenLibrary someClient (grantingWorld (fun _ => true) evenBody 200) 4503599627370502 ∧
      GoesOn evenLibrary someClient (grantingWorld (fun _ => true) evenBody 200) :=
  @call_granting evenBody evenText 4503599627370502 4503599627370502 (by decide +kernel) (by decide)
    (by decide +kernel)

theorem odd_call :
    Reports oddLibrary someClient (grantingWorld (fun _ => true) oddBody 200) 4503599627370501 ∧
      GoesOn oddLibrary someClient (grantingWorld (fun _ => true) oddBody 200) :=
  @call_granting oddBody oddText 4503599627370501 4503599627370500 (by decide +kernel) (by decide)
    (by decide +kernel)

/-- Of two nonces that are exact doubles, the one whose last digit is a 1 does not survive. -/
theorem signsSuccessor_sixteen :
    SignsSuccessor evenLibrary someClient (grantingWorld (fun _ => true) evenBody 200) emptyCall
        .none 4503599627370502 ∧
      ¬ SignsSuccessor oddLibrary someClient (grantingWorld (fun _ => true) oddBody 200) emptyCall
        .none 4503599627370501 := by
  obtain ⟨reports, goesOn⟩ := even_call
  obtain ⟨reports', goesOn'⟩ := odd_call
  constructor
  · rw [signsSuccessor_iff reports goesOn]
    exact (survives_sixteen_iff (by decide) (by decide)).mpr (by decide)
  · rw [signsSuccessor_iff reports' goesOn', survives_sixteen_iff (by decide) (by decide)]
    decide

/-- The nonce 2^52 + 5 is an exact double, and the transaction is signed with it again. -/
theorem signs_same_nonce :
    ¬ ∀ lib client world nearTx status nonce, nonce.toNat < 2 ^ 64 - 1 →
      Reports lib client world nonce → GoesOn lib client world →
        SignsSuccessor lib client world nearTx status nonce := by
  intro survives
  obtain ⟨reports, goesOn⟩ := odd_call
  have value : (4503599627370501 : UInt64).toNat = 4503599627370501 := by decide
  have back : readBack 4503599627370501 = 4503599627370500 := by decide +kernel
  obtain ⟨filled, rpcReq, prepared, successor⟩ := survives oddLibrary someClient _ emptyCall .none
    4503599627370501 (by rw [value]; decide) reports goesOn
  obtain ⟨rpcRes, -, viewed, -, -⟩ := goesOn
  rcases prepareTx_cases prepared with ⟨missing, -, -⟩ | ⟨found, again, fill, -⟩
  · rw [viewed] at missing
    cases missing
  · have next := filled_nonce fill (viewed_nonce reports again)
    rw [value, back] at next
    rw [value] at successor
    omega

end CNear.NonceTrip
