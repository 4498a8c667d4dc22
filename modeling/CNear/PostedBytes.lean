import CNear.AccessKeyReply

/-! The bytes that a node finds in a posted request. `near_rpc_send_tx` drops the reports of
the appends, so what it signs and posts is the complete transaction exactly when every
length fits in 32 bits and no growth for a byte is refused. -/

namespace CNear.PostedBytes
open Account CJson Exchange Requests SendTx Transaction TransactionFormat Buffer

/-- The decoded `signed_tx_base64` of a request. A request without it carries no transaction. -/
def signedBytes (rpcReq : Json) : Option (List UInt8) :=
  match getStringValue (getObjectItemCaseSensitive
      (getObjectItemCaseSensitive (some rpcReq) (.lit "params")) (.lit "signed_tx_base64")) with
  | none => none
  | some text => Rfc4648.decode text.bytes

theorem signedBytes_complete (status b64out : CString) :
    signedBytes (complete (.lit "send_tx")
      [(.lit "wait_until", status), (.lit "signed_tx_base64", b64out)]) =
        Rfc4648.decode b64out.bytes := rfl

theorem signedBytes_bare : signedBytes (bare (.lit "send_tx")) = none := rfl

/-- A built request that carries bytes carries those that were encoded. -/
theorem signedBytes_built {src bytes : List UInt8} {wrap : Nat} {granted : Bool}
    {status : CString} {answers : Answers} {rpcReq : Json}
    (built : (buildRpcSendTx (Base64.base64Encode wrap granted src) (some status) answers).1 =
      some rpcReq)
    (carried : signedBytes rpcReq = some bytes) : bytes = src := by
  cases encoded : Base64.base64Encode wrap granted src with
  | none =>
    rw [encoded, buildRpcSendTx, fails_buildRpc _ ⟨(.lit "signed_tx_base64", none), by simp, rfl⟩]
      at built
    cases built
  | some text =>
    have strings : buildRpcSendTx (some text) (some status) =
        buildRpc (.lit "send_tx") ([(.lit "wait_until", status), (.lit "signed_tx_base64", text)].map
          fun entry => (entry.1, some entry.2)) := rfl
    rw [encoded, strings] at built
    by_cases grants : answers.Grants (checkedCount
        ([(.lit "wait_until", status), (.lit "signed_tx_base64", text)].map
          fun entry => (entry.1, some entry.2)))
    · rw [buildRpc_granted _ _ grants, Option.some.injEq] at built
      split at built
      · rw [← built, signedBytes_complete, Base64.decode_base64Encode encoded] at carried
        exact (Option.some.inj carried).symm
      · rw [← built, signedBytes_bare] at carried
        cases carried
    · rw [buildRpc_refused _ _ grants] at built
      cases built

/-- The posted bytes are what `sign_transaction` left in the buffer. -/
theorem posted_blob {lib : Library} {client : Client} {world : World}
    {nearTx filled : NearTransaction} {status : NearTxStatus} {rpcReq : Json} {bytes : List UInt8}
    {account : CString} (posts : Posts lib client world nearTx status filled rpcReq)
    (carried : signedBytes rpcReq = some bytes) (signer : filled.signerId = some account) :
    bytes = signedBlob lib client.signer.privateKey client.signer.publicKey
      (unsignedSerial world.malloced world.reallocs account filled) := by
  rcases prepareTx_cases posts.prepared with ⟨-, -, none⟩ | ⟨rpcRes, -, -, request⟩
  · cases none
  · rw [signedRequest_eq lib client world status signer, Except.ok.injEq] at request
    exact signedBytes_built request carried

/-- The strings are the caller's, so their lengths are too. -/
theorem short_filled {account : CString} {signer : Signer} {nearTx filled : NearTransaction}
    (same : filled = { fillSigner signer nearTx with
      blockHash := filled.blockHash, nonce := filled.nonce }) :
    Short account filled ↔ Short account nearTx := by
  rw [same]
  exact ⟨fun ⟨a, b, c, d⟩ => ⟨a, b, c, d⟩, fun ⟨a, b, c, d⟩ => ⟨a, b, c, d⟩⟩

theorem uninterrupted_filled {account : CString} {signer : Signer}
    {nearTx filled : NearTransaction} {answers : Answers}
    (same : filled = { fillSigner signer nearTx with
      blockHash := filled.blockHash, nonce := filled.nonce }) :
    Uninterrupted account filled answers ↔ Uninterrupted account nearTx answers := by
  rw [same]
  exact ⟨fun ⟨a, b, c, d, e⟩ => ⟨a, b, c, d, e⟩, fun ⟨a, b, c, d, e⟩ => ⟨a, b, c, d, e⟩⟩

/-- A posted transaction is the complete signed transaction of the client's account exactly
when the four strings are shorter than 2^32 bytes and every growth during serialization and
signing is granted, but for those that take the body of an empty string. -/
theorem posted_complete_iff {lib : Library} {client : Client} {world : World}
    {nearTx filled : NearTransaction} {status : NearTxStatus} {rpcReq : Json} {bytes : List UInt8}
    (posts : Posts lib client world nearTx status filled rpcReq)
    (carried : signedBytes rpcReq = some bytes) :
    (∃ account, client.signer.accountId = some account ∧
        Complete lib client.signer.privateKey client.signer.publicKey account filled bytes) ↔
      ∃ account, client.signer.accountId = some account ∧ Short account nearTx ∧
        Uninterrupted account nearTx world.reallocs := by
  obtain ⟨account, -, -, hasAccount, -, -, -, same⟩ := posts_filled posts
  have signer : filled.signerId = some account := by
    rw [same]
    exact hasAccount
  have ed25519 : filled.keyType = nearKeyTypeED25519 := by rw [same]; rfl
  have blob := posted_blob posts carried signer
  have complete := @signedBlob_complete_iff lib client.signer.privateKey client.signer.publicKey
    account filled ed25519 world.malloced world.reallocs
  rw [← blob, short_filled same, uninterrupted_filled same] at complete
  constructor
  · intro complete
    obtain ⟨other, has, whole⟩ := complete
    obtain rfl : account = other := Option.some.inj (hasAccount.symm.trans has)
    exact ⟨account, hasAccount, complete.mp whole⟩
  · intro unbroken
    obtain ⟨other, has, condition⟩ := unbroken
    obtain rfl : account = other := Option.some.inj (hasAccount.symm.trans has)
    exact ⟨account, hasAccount, complete.mpr condition⟩

/-! ## A call whose growths are refused -/

open AccessKeyReply in
/-- A usable reply makes a call post, whichever growths are refused. -/
theorem posts_granting {lib : Library} {client : Client} {world : World}
    {nearTx : NearTransaction} {v : Json} {account pubKey hash : CString} {value : ℚ}
    (granting : Granting world) (named : Named client account pubKey)
    (delivers : Delivers lib client world 200 (some v)) (trips : RoundTrips lib v)
    (typed : WellTyped 200 v hash) (nonce : nonceItem v = some (.number (.finite value)))
    (low : -1 < value) (high : value < 0x10000000000000000) (moderate : Moderate account nearTx)
    (status : NearTxStatus) :
    ∃ filled rpcReq, fillAccessKey lib v (fillSigner client.signer nearTx) = .ok filled ∧
      Posts lib client world nearTx status filled rpcReq ∧
      signedBytes rpcReq = some (signedBlob lib client.signer.privateKey
        client.signer.publicKey (unsignedSerial world.malloced world.reallocs account filled)) := by
  have viewed := viewedKey_granting granting named delivers trips typed.noError
  obtain ⟨filled, fill, -⟩ := fillAccessKey_usable lib typed.hashString typed.hashText nonce low
    high (fillSigner client.signer nearTx)
  have same := fillAccessKey_frame fill
  have signer : filled.signerId = some account := by
    rw [same]
    exact named.account
  have size : Moderate account filled := by
    rw [same]
    exact moderate
  obtain ⟨text, decoded, request⟩ := signedRequest_granting lib granting signer size status
  have posts : Posts lib client world nearTx status filled _ := {
    prepared := prepareTx_filled viewed fill request
    address := named.address
    handle := granting.handle }
  exact ⟨filled, _, fill, posts, (signedBytes_complete _ text).trans decoded⟩

open AccessKeyReply in
theorem keyValue_wellTyped : WellTyped 200 keyValue keyHash where
  code := rfl
  isObject := ⟨_, rfl⟩
  noError := by decide +kernel
  nonce := ⟨_, rfl⟩
  hashString := rfl
  hashText := by
    constructor <;> decide +kernel

open AccessKeyReply in
theorem keyLibrary_sends (reallocs : Answers) :
    ∃ filled rpcReq, Posts keyLibrary someClient (grantingWorld reallocs keyBody 200) emptyCall
        .none filled rpcReq ∧
      signedBytes rpcReq = some (signedBlob keyLibrary someClient.signer.privateKey
        someClient.signer.publicKey (unsignedSerial 0 reallocs (.lit "") filled)) := by
  obtain ⟨filled, rpcReq, -, posts, carried⟩ := posts_granting
    (grantingWorld_granting reallocs keyBody 200) someClient_named
    (grantingWorld_delivers someClient_named.address keyLibrary_arrives reallocs 200)
    keyLibrary_trips keyValue_wellTyped rfl (by norm_num) (by norm_num)
    emptyCall_moderate .none
  exact ⟨filled, rpcReq, posts, carried⟩

open AccessKeyReply in
def namedClient : Client :=
  { someClient with
    signer :=
      { someClient.signer with
        accountId := some (.lit "alice.near")
        publicKey := Block.replicate 32 7
        privateKey := Block.replicate 64 3 } }

def messageCall : NearTransaction :=
  contractCall (.lit "guest-book.near") (.lit "add_message") (.lit "\x7b\"text\":\"hello\"\x7d")
    100000000000000 5

open AccessKeyReply in
theorem posted_complete_message :
    ∃ filled rpcReq bytes, Posts keyLibrary namedClient (grantingWorld (fun _ => true) keyBody 200)
        messageCall .none filled rpcReq ∧
      signedBytes rpcReq = some bytes ∧
      Complete keyLibrary (Block.replicate 64 3) (Block.replicate 32 7) (.lit "alice.near") filled
        bytes := by
  have named : Named namedClient (.lit "alice.near") (.lit "") :=
    ⟨by simp [namedClient, someClient], rfl, rfl⟩
  obtain ⟨filled, rpcReq, -, posts, carried⟩ := posts_granting
    (grantingWorld_granting (fun _ => true) keyBody 200) named
    (grantingWorld_delivers named.address keyLibrary_arrives (fun _ => true) 200)
    keyLibrary_trips keyValue_wellTyped rfl (by norm_num) (by norm_num)
    (show Moderate (.lit "alice.near") messageCall by unfold Moderate; decide) .none
  obtain ⟨account, has, complete⟩ := (posted_complete_iff posts carried).mpr
    ⟨.lit "alice.near", rfl, ⟨by decide, by decide, by decide, by decide⟩,
      uninterrupted_of_granted (fun _ => rfl) _ _⟩
  obtain rfl : CString.lit "alice.near" = account := Option.some.inj has
  exact ⟨filled, rpcReq, _, posts, carried, complete⟩

open AccessKeyReply in
/-- The growth for the public key is refused, and the transaction is posted without it. -/
theorem posted_without_key :
    ∃ filled rpcReq bytes, Posts keyLibrary someClient (grantingWorld (fun i => i != 3) keyBody 200)
        emptyCall .none filled rpcReq ∧ signedBytes rpcReq = some bytes ∧
      ¬ ∃ account, someClient.signer.accountId = some account ∧
        Complete keyLibrary someClient.signer.privateKey someClient.signer.publicKey account
          filled bytes := by
  obtain ⟨filled, rpcReq, posts, carried⟩ := keyLibrary_sends fun i => i != 3
  refine ⟨filled, rpcReq, _, posts, carried, ?_⟩
  intro whole
  obtain ⟨account, has, complete⟩ := whole
  obtain rfl : CString.lit "" = account := Option.some.inj has
  obtain ⟨-, -, -, -, -, -, -, same⟩ := posts_filled posts
  have ed25519 : filled.keyType = nearKeyTypeED25519 := by rw [same]; rfl
  have condition := (signedBlob_complete_iff keyLibrary someClient.signer.privateKey
    someClient.signer.publicKey ed25519 0 fun i => i != 3).mp complete
  exact absurd (condition.2.others 3 (by decide) (by decide)) (by decide)

end CNear.PostedBytes
