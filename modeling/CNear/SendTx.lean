import CNear.Account
import CNear.Queries
import CNear.TransactionFormat

/-! `near_rpc_send_tx`: ask for the access key, put its nonce and block hash into the
transaction, serialize, sign and post it. Everything up to the post is `prepareTx`. -/

namespace CNear.SendTx
open Account CJson Exchange Queries Requests Transaction TransactionFormat Buffer Base58

inductive NearTxStatus where
  | none
  | included
  | execOptimistic
  | includedFinal
  | executed
  | final
  deriving DecidableEq

/-- `TX_STATUS` -/
def txStatus : NearTxStatus → CString
  | .none => .lit "NONE"
  | .included => .lit "INCLUDED"
  | .execOptimistic => .lit "EXECUTED_OPTIMISTIC"
  | .includedFinal => .lit "INCLUDED_FINAL"
  | .executed => .lit "EXECUTED"
  | .final => .lit "FINAL"

/-- All static variables of the client. -/
structure Client where
  rpcUrl : Option CString
  signer : Signer
  deriving DecidableEq

/-- What allocators and network do in one call. -/
structure World where
  viewKeyAnswers : Answers
  viewKeyTransfer : Transfer
  malloced : UInt8
  reallocs : Answers
  base64Granted : Bool
  sendTxAnswers : Answers
  sendTxTransfer : Transfer

/-- The signer's part of the transaction. -/
def fillSigner (signer : Signer) (nearTx : NearTransaction) : NearTransaction :=
  { nearTx with
    signerId := signer.accountId
    keyType := nearKeyTypeED25519
    publicKey := signer.publicKey }

/-- The reply of the query, printed and read again, or nothing where the call gives up. -/
def viewedKey (lib : Library) (client : Client) (world : World) : Except Fault (Option Json) := do
  let vk ← nearRpcViewAccessKey lib client.rpcUrl client.signer.accountId client.signer.b58PubKey
    world.viewKeyAnswers world.viewKeyTransfer
  match vk.1.json.bind lib.cJSONParse with
  | none => .ok none
  | some rpcRes =>
      if vk.1.rpcCode ≠ 200 ∨ hasObjectItem (some rpcRes) (.lit "error") = true then .ok none
      else .ok (some rpcRes)

/-- `base58_decode` of a pointer; its result, the length, is not looked at. -/
def decodeHash (sign : CharSign) (string : Option CString) (blockHash : Block 32) :
    Except Fault (Block 32) :=
  match string with
  | none => .error .nullString
  | some s => do
      let decoded ← base58Decode sign s blockHash
      .ok decoded.2

/-- Block hash and nonce of the reply. -/
def fillAccessKey (lib : Library) (rpcRes : Json) (nearTx : NearTransaction) :
    Except Fault NearTransaction := do
  let blockHash ← decodeHash lib.charSign
    (getStringValue (getObjectItemCaseSensitive (some rpcRes) (.lit "block_hash"))) nearTx.blockHash
  let nonce ← castU64 (getNumberValue (getObjectItemCaseSensitive (some rpcRes) (.lit "nonce")))
  .ok { nearTx with blockHash := blockHash, nonce := nonce + 1 }

/-- Serialize, sign and build the request. -/
def signedRequest (lib : Library) (client : Client) (world : World) (nearTx : NearTransaction)
    (status : NearTxStatus) : Except Fault (Option Json) := do
  let borshTx ← serializeTransaction world.malloced world.reallocs nearTx
  let blob := signedBlob lib client.signer.privateKey client.signer.publicKey borshTx
  let b64out := Base64.base64Encode lib.sizeT.wrap world.base64Granted blob
  .ok (buildRpcSendTx b64out (some (txStatus status)) world.sendTxAnswers).1

/-- The transaction as it is left in the caller's variable, and the request to send. -/
def prepareTx (lib : Library) (client : Client) (world : World) (nearTx : NearTransaction)
    (status : NearTxStatus) : Except Fault (NearTransaction × Option Json) := do
  match ← viewedKey lib client world with
  | none => .ok (fillSigner client.signer nearTx, none)
  | some rpcRes => do
      let nearTx ← fillAccessKey lib rpcRes (fillSigner client.signer nearTx)
      let rpcReq ← signedRequest lib client world nearTx status
      .ok (nearTx, rpcReq)

structure Sent where
  response : CnearResponse
  nearTx : NearTransaction
  posted : Option Json

def nearRpcSendTx (lib : Library) (client : Client) (world : World) (nearTx : NearTransaction)
    (status : NearTxStatus) : Except Fault Sent := do
  let prepared ← prepareTx lib client world nearTx status
  let called ← callRpc lib client.rpcUrl prepared.2 world.sendTxTransfer
  .ok ⟨called.1, prepared.1, called.2⟩

/-- The fields that `near_contract_call` starts from; the rest is zero. -/
def contractCall (contract method args : CString) (gas deposit : UInt64) : NearTransaction :=
  { signerId := none
    keyType := 0
    publicKey := Block.replicate 32 0
    nonce := 0
    receiverId := contract
    blockHash := Block.replicate 32 0
    actions := { methodName := method, args := args, gas := gas, deposit := deposit } }

def nearContractCall (lib : Library) (client : Client) (world : World)
    (contract method args : CString) (gas deposit : UInt64) (status : NearTxStatus) :
    Except Fault Sent :=
  nearRpcSendTx lib client world (contractCall contract method args gas deposit) status

/-! ## What a call hands to libcurl -/

/-- The call gets as far as `curl_easy_perform` with a URL and the request `rpcReq`, whatever
becomes of it there. -/
structure Posts (lib : Library) (client : Client) (world : World) (nearTx : NearTransaction)
    (status : NearTxStatus) (filled : NearTransaction) (rpcReq : Json) : Prop where
  prepared : prepareTx lib client world nearTx status = .ok (filled, some rpcReq)
  address : client.rpcUrl ≠ none
  handle : world.sendTxTransfer.easyInit = true

theorem posts_of_sent {lib : Library} {client : Client} {world : World} {nearTx : NearTransaction}
    {status : NearTxStatus} {sent : Sent} {rpcReq : Json}
    (ran : nearRpcSendTx lib client world nearTx status = .ok sent)
    (posted : sent.posted = some rpcReq) :
    Posts lib client world nearTx status sent.nearTx rpcReq := by
  obtain ⟨prepared, first, rest⟩ := bind_eq_ok.mp ran
  obtain ⟨⟨response, request⟩, called, same⟩ := bind_eq_ok.mp rest
  cases same
  obtain rfl : request = some rpcReq := posted
  obtain ⟨built, address, handle⟩ := posted_request called
  exact {
    prepared := by rw [first, ← built]
    address := address
    handle := handle }

/-- Without a request nothing is posted and the response is empty. -/
theorem nearRpcSendTx_unprepared {lib : Library} {client : Client} {world : World}
    {nearTx filled : NearTransaction} {status : NearTxStatus}
    (prepared : prepareTx lib client world nearTx status = .ok (filled, none)) :
    nearRpcSendTx lib client world nearTx status = .ok ⟨noResponse, filled, none⟩ := by
  rw [nearRpcSendTx, prepared]
  rfl

theorem prepareTx_filled {lib : Library} {client : Client} {world : World}
    {nearTx filled : NearTransaction} {status : NearTxStatus} {rpcRes : Json}
    {rpcReq : Option Json} (viewed : viewedKey lib client world = .ok (some rpcRes))
    (fill : fillAccessKey lib rpcRes (fillSigner client.signer nearTx) = .ok filled)
    (request : signedRequest lib client world filled status = .ok rpcReq) :
    prepareTx lib client world nearTx status = .ok (filled, rpcReq) := by
  rw [prepareTx, viewed, ok_bind]
  simp only [fill, request, ok_bind]

theorem prepareTx_cases {lib : Library} {client : Client} {world : World}
    {nearTx filled : NearTransaction} {status : NearTxStatus} {rpcReq : Option Json}
    (prepared : prepareTx lib client world nearTx status = .ok (filled, rpcReq)) :
    (viewedKey lib client world = .ok none ∧ filled = fillSigner client.signer nearTx ∧
        rpcReq = none) ∨
      ∃ rpcRes, viewedKey lib client world = .ok (some rpcRes) ∧
        fillAccessKey lib rpcRes (fillSigner client.signer nearTx) = .ok filled ∧
        signedRequest lib client world filled status = .ok rpcReq := by
  obtain ⟨viewed, first, rest⟩ := bind_eq_ok.mp prepared
  cases viewed with
  | none =>
    cases rest
    exact Or.inl ⟨first, rfl, rfl⟩
  | some rpcRes =>
    obtain ⟨filled', fill, more⟩ := bind_eq_ok.mp rest
    obtain ⟨rpcReq', request, same⟩ := bind_eq_ok.mp more
    cases same
    exact Or.inr ⟨rpcRes, first, fill, request⟩

/-- The query is made only with an account and a key string. -/
theorem viewedKey_account {lib : Library} {client : Client} {world : World} {rpcRes : Json}
    (viewed : viewedKey lib client world = .ok (some rpcRes)) :
    ∃ account pubKey, client.signer.accountId = some account ∧
      client.signer.b58PubKey = some pubKey := by
  have silent : (buildRpcViewAccessKey client.signer.accountId client.signer.b58PubKey
      world.viewKeyAnswers).1 = none → viewedKey lib client world = .ok none := by
    intro none
    rw [viewedKey, nearRpcViewAccessKey, none]
    rfl
  cases account : client.signer.accountId with
  | none =>
    have failed := silent (by
      rw [account]
      exact fails_buildRpc _ ⟨(.lit "account_id", none), by simp, rfl⟩ _)
    rw [failed] at viewed
    cases viewed
  | some account' =>
    cases pubKey : client.signer.b58PubKey with
    | none =>
      have failed := silent (by
        rw [pubKey]
        exact fails_buildRpc _ ⟨(.lit "public_key", none), by simp, rfl⟩ _)
      rw [failed] at viewed
      cases viewed
    | some pubKey' => exact ⟨account', pubKey', rfl, rfl⟩

/-- Only block hash and nonce change. -/
theorem fillAccessKey_frame {lib : Library} {rpcRes : Json} {nearTx filled : NearTransaction}
    (fill : fillAccessKey lib rpcRes nearTx = .ok filled) :
    filled = { nearTx with blockHash := filled.blockHash, nonce := filled.nonce } := by
  obtain ⟨blockHash, -, rest⟩ := bind_eq_ok.mp fill
  obtain ⟨nonce, -, same⟩ := bind_eq_ok.mp rest
  cases same
  rfl

theorem signedRequest_eq (lib : Library) (client : Client) (world : World)
    {nearTx : NearTransaction} (status : NearTxStatus) {signerId : CString}
    (signer : nearTx.signerId = some signerId) :
    signedRequest lib client world nearTx status =
      .ok (buildRpcSendTx (Base64.base64Encode lib.sizeT.wrap world.base64Granted
        (signedBlob lib client.signer.privateKey client.signer.publicKey
          (unsignedSerial world.malloced world.reallocs signerId nearTx)))
        (some (txStatus status)) world.sendTxAnswers).1 := by
  rw [signedRequest, serializeTransaction, signer]
  rfl

/-- A posted transaction has the signer's account and keys, and otherwise what the caller and
the reply put into it. -/
theorem posts_filled {lib : Library} {client : Client} {world : World}
    {nearTx filled : NearTransaction} {status : NearTxStatus} {rpcReq : Json}
    (posts : Posts lib client world nearTx status filled rpcReq) :
    ∃ account pubKey rpcRes, client.signer.accountId = some account ∧
      client.signer.b58PubKey = some pubKey ∧ viewedKey lib client world = .ok (some rpcRes) ∧
      fillAccessKey lib rpcRes (fillSigner client.signer nearTx) = .ok filled ∧
      filled = { fillSigner client.signer nearTx with
        blockHash := filled.blockHash, nonce := filled.nonce } := by
  rcases prepareTx_cases posts.prepared with ⟨-, -, none⟩ | ⟨rpcRes, viewed, fill, -⟩
  · cases none
  · obtain ⟨account, pubKey, hasAccount, hasKey⟩ := viewedKey_account viewed
    exact ⟨account, pubKey, rpcRes, hasAccount, hasKey, viewed, fill, fillAccessKey_frame fill⟩

end CNear.SendTx
