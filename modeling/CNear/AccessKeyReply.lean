import CNear.SendTx

/-! The access-key reply and what may be posted on it. A reply is either refused before it
is used, or it has to be an object with a nonce that fits and the hash of a block; for any
other reply there is a call that takes a step without defined behaviour or posts. -/

namespace CNear.AccessKeyReply
open Account Base58 CJson Exchange Queries Requests SendTx Transaction TransactionFormat Buffer

/-! ## Block hashes -/

/-- Base58 text of a block hash. -/
def HashText (s : CString) : Prop := WellFormed s.bytes ∧ (decode s.bytes).length = 32

/-- A text of 32 bytes fills the hash with them. For ones the code reads one zero byte more,
which the copy cuts off. -/
theorem base58Decode_hash (sign : CharSign) {s : CString} (hash : HashText s)
    (blockHash : Block 32) :
    ∃ length final, base58Decode sign s blockHash = .ok (length, final) ∧
      final.bytes = decode s.bytes := by
  obtain ⟨wellFormed, length⟩ := hash
  have nonempty : s.bytes ≠ [] := by
    intro empty
    rw [empty] at length
    exact absurd length (by decide +kernel)
  have long : s.bytes.length ≤ 2 * (decode s.bytes).length := length_le_decode
  have short : 137 * s.strlen < 0x80000000 := by
    change 137 * s.bytes.length < 0x80000000
    omega
  have whole : scanned s = s.bytes := scanned_of_lt (by omega)
  by_cases zero : number s.bytes = 0
  · have ones := (number_eq_zero_iff s.bytes).mp zero
    have count : s.bytes.length = 32 := by
      rw [decode_length, zero, leadingOnes_of_ones ones] at length
      simpa using length
    have extra := readLength_ones sign ones
    have defined : Defined sign s := by
      rw [defined_wellFormed_iff sign nonempty wellFormed short, extra]
      change s.bytes.length + 1 ≤ s.bytes.length * 137 / 100
      omega
    have read : readBytes sign s.bytes = List.replicate 33 0 := by
      rw [readBytes, readValue_wellFormed sign wellFormed, zero, leadingOnes_of_ones ones, count]
      rfl
    refine ⟨_, _, base58Decode_defined defined blockHash, ?_⟩
    rw [whole, read, Block.write_full _ (by simp), decode, zero, leadingOnes_of_ones ones, count]
    simp [LittleEndian.minimal_zero]
  · have defined := defined_of_nonzero sign nonempty wellFormed short zero
    have read := readBytes_wellFormed sign wellFormed zero
    refine ⟨_, _, base58Decode_defined defined blockHash, ?_⟩
    rw [whole, read, Block.write_exact _ length]

/-! ## Replies -/

/-- `cJSON_Print` and `cJSON_Parse` round-trip the value. -/
def RoundTrips (lib : Library) (v : Json) : Prop :=
  ∃ text, lib.cJSONPrint v = some text ∧ lib.cJSONParse text = some v

/-- The query, if it is made, gets the HTTP code and the detached value, or no value. -/
def Delivers (lib : Library) (client : Client) (world : World) (code : Int) (res : Option Json) :
    Prop :=
  ∀ data, ∃ posted, execCurlRpcCall lib client.rpcUrl data world.viewKeyTransfer
    noResponse.rpcCode = .ok ⟨posted, code, res⟩

/-- The members that are looked up. -/
def nonceItem (v : Json) : Option Json := getObjectItemCaseSensitive (some v) (.lit "nonce")
def hashItem (v : Json) : Option Json := getObjectItemCaseSensitive (some v) (.lit "block_hash")
def hasError (v : Json) : Bool := hasObjectItem (some v) (.lit "error")

/-- An object with a numeric nonce, a block hash and no error. -/
structure WellTyped (code : Int) (v : Json) (hash : CString) : Prop where
  code : code = 200
  isObject : ∃ members, v = .object members
  noError : hasError v = false
  nonce : ∃ value, nonceItem v = some (.number value)
  hashString : hashItem v = some (.string hash)
  hashText : HashText hash

/-- Nothing is posted and the response is empty, or the reply was sound and its block hash
is the one in the transaction that is signed. -/
def SoundSend (lib : Library) (client : Client) (world : World) (nearTx : NearTransaction)
    (status : NearTxStatus) (code : Int) (res : Option Json) : Prop :=
  (∃ filled, nearRpcSendTx lib client world nearTx status = .ok ⟨noResponse, filled, none⟩) ∨
    ∃ v hash filled rpcReq, res = some v ∧ WellTyped code v hash ∧
      prepareTx lib client world nearTx status = .ok (filled, rpcReq) ∧
      filled.blockHash.bytes = decode hash.bytes

/-- No value, or one that is not looked into. -/
def Refused (code : Int) (res : Option Json) : Prop :=
  ∀ v, res = some v → code ≠ 200 ∨ hasError v = true

/-- A well-typed reply whose nonce can be converted. -/
def Usable (code : Int) (res : Option Json) : Prop :=
  ∃ v hash value, res = some v ∧ WellTyped code v hash ∧
    nonceItem v = some (.number (.finite value)) ∧ -1 < value ∧ value < 0x10000000000000000

theorem viewedKey_unbuilt {lib : Library} {client : Client} {world : World}
    (unbuilt : (buildRpcViewAccessKey client.signer.accountId client.signer.b58PubKey
      world.viewKeyAnswers).1 = none) : viewedKey lib client world = .ok none := by
  rw [viewedKey, nearRpcViewAccessKey, unbuilt]
  rfl

theorem viewedKey_delivered {lib : Library} {client : Client} {world : World} {code : Int}
    {res : Option Json} {req : Json} (delivers : Delivers lib client world code res)
    (built : (buildRpcViewAccessKey client.signer.accountId client.signer.b58PubKey
      world.viewKeyAnswers).1 = some req) :
    viewedKey lib client world =
      match (res.bind lib.cJSONPrint).bind lib.cJSONParse with
      | none => .ok none
      | some rpcRes => if code ≠ 200 ∨ hasError rpcRes = true then .ok none else .ok (some rpcRes) := by
  obtain ⟨posted, ran⟩ := delivers req
  rw [viewedKey, nearRpcViewAccessKey, built, callRpc, ran]
  rfl

theorem viewedKey_refused {lib : Library} {client : Client} {world : World} {code : Int}
    {res : Option Json} (delivers : Delivers lib client world code res)
    (trips : ∀ v, res = some v → RoundTrips lib v) (refused : Refused code res) :
    viewedKey lib client world = .ok none := by
  cases built : (buildRpcViewAccessKey client.signer.accountId client.signer.b58PubKey
      world.viewKeyAnswers).1 with
  | none => exact viewedKey_unbuilt built
  | some req =>
    rw [viewedKey_delivered delivers built]
    cases res with
    | none => rfl
    | some v =>
      obtain ⟨text, printed, parsed⟩ := trips v rfl
      have bad := refused v rfl
      simp only [Option.bind_some, printed, parsed, if_pos bad]

theorem viewedKey_used {lib : Library} {client : Client} {world : World} {code : Int} {v : Json}
    {req : Json} (delivers : Delivers lib client world code (some v)) (trips : RoundTrips lib v)
    (good : ¬ (code ≠ 200 ∨ hasError v = true))
    (built : (buildRpcViewAccessKey client.signer.accountId client.signer.b58PubKey
      world.viewKeyAnswers).1 = some req) :
    viewedKey lib client world = .ok (some v) := by
  obtain ⟨text, printed, parsed⟩ := trips
  rw [viewedKey_delivered delivers built]
  simp only [Option.bind_some, printed, parsed, if_neg good]

theorem fillAccessKey_usable (lib : Library) {v : Json} {hash : CString} {value : ℚ}
    (hashString : hashItem v = some (.string hash)) (text : HashText hash)
    (nonce : nonceItem v = some (.number (.finite value))) (low : -1 < value)
    (high : value < 0x10000000000000000) (nearTx : NearTransaction) :
    ∃ filled, fillAccessKey lib v nearTx = .ok filled ∧
      filled.blockHash.bytes = decode hash.bytes := by
  obtain ⟨length, final, ran, bytes⟩ := base58Decode_hash lib.charSign text nearTx.blockHash
  have cast : castU64 (.finite value) = .ok (UInt64.ofNat ⌊value⌋.toNat) := by
    rw [castU64, if_pos ⟨low, high⟩]
  change getObjectItemCaseSensitive (some v) (.lit "block_hash") = _ at hashString
  change getObjectItemCaseSensitive (some v) (.lit "nonce") = _ at nonce
  refine ⟨{ nearTx with blockHash := final, nonce := UInt64.ofNat ⌊value⌋.toNat + 1 }, ?_, bytes⟩
  rw [fillAccessKey, hashString, nonce, getStringValue, getNumberValue, decodeHash, ran, cast]
  rfl

/-- A transaction is filled in only from a nonce that can be converted. -/
theorem castable_of_fill {lib : Library} {v : Json} {nearTx filled : NearTransaction}
    (fill : fillAccessKey lib v nearTx = .ok filled) :
    ∃ value, nonceItem v = some (.number (.finite value)) ∧ -1 < value ∧
      value < 0x10000000000000000 := by
  obtain ⟨blockHash, -, rest⟩ := bind_eq_ok.mp fill
  obtain ⟨nonce, cast, -⟩ := bind_eq_ok.mp rest
  cases number : getNumberValue (getObjectItemCaseSensitive (some v) (.lit "nonce")) with
  | finite value =>
    rw [number, castU64] at cast
    split at cast
    · rename_i bounds
      exact ⟨value, getNumberValue_finite.mp number, bounds⟩
    · cases cast
  | infinite negative =>
    rw [number] at cast
    cases cast
  | nan =>
    rw [number] at cast
    cases cast

/-- A refused or usable reply makes every call a sound one. -/
theorem soundSend_of_harmless {lib : Library} {client : Client} {world : World} {code : Int}
    {res : Option Json} (delivers : Delivers lib client world code res)
    (trips : ∀ v, res = some v → RoundTrips lib v) (harmless : Refused code res ∨ Usable code res)
    (nearTx : NearTransaction) (status : NearTxStatus) :
    SoundSend lib client world nearTx status code res := by
  have silent : viewedKey lib client world = .ok none →
      SoundSend lib client world nearTx status code res := by
    intro viewed
    have prepared : prepareTx lib client world nearTx status =
        .ok (fillSigner client.signer nearTx, none) := by rw [prepareTx, viewed, ok_bind]
    exact Or.inl ⟨_, nearRpcSendTx_unprepared prepared⟩
  rcases harmless with refused | ⟨v, hash, value, rfl, typed, nonce, low, high⟩
  · exact silent (viewedKey_refused delivers trips refused)
  · cases built : (buildRpcViewAccessKey client.signer.accountId client.signer.b58PubKey
        world.viewKeyAnswers).1 with
    | none => exact silent (viewedKey_unbuilt built)
    | some req =>
      have good : ¬ (code ≠ 200 ∨ hasError v = true) := by
        rw [typed.noError]
        simp [typed.code]
      have viewed := viewedKey_used delivers (trips v rfl) good built
      obtain ⟨account, pubKey, hasAccount, -⟩ := viewedKey_account viewed
      obtain ⟨filled, fill, bytes⟩ := fillAccessKey_usable lib typed.hashString typed.hashText nonce
        low high (fillSigner client.signer nearTx)
      have signer : filled.signerId = some account := by
        rw [fillAccessKey_frame fill]
        exact hasAccount
      have prepared :=
        prepareTx_filled viewed fill (signedRequest_eq lib client world status signer)
      exact Or.inr ⟨v, hash, filled, _, rfl, typed, prepared, bytes⟩

/-! ## Calls with everything granted -/

/-- Nothing outside the serialization is refused. -/
structure Granting (world : World) : Prop where
  viewKey : ∀ i, world.viewKeyAnswers i = true
  base64 : world.base64Granted = true
  sendTx : ∀ i, world.sendTxAnswers i = true
  handle : world.sendTxTransfer.easyInit = true

/-- The client has a URL and a signer of this name. -/
structure Named (client : Client) (account pubKey : CString) : Prop where
  address : client.rpcUrl ≠ none
  account : client.signer.accountId = some account
  pubKey : client.signer.b58PubKey = some pubKey

/-- Far from the lengths where the size of the text would overflow. -/
def Moderate (account : CString) (nearTx : NearTransaction) : Prop :=
  account.strlen + nearTx.receiverId.strlen + nearTx.actions.methodName.strlen +
    nearTx.actions.args.strlen < 0x1000000

theorem viewedKey_granting {lib : Library} {client : Client} {world : World} {v : Json}
    {account pubKey : CString} (granting : Granting world) (named : Named client account pubKey)
    (delivers : Delivers lib client world 200 (some v)) (trips : RoundTrips lib v)
    (noError : hasError v = false) : viewedKey lib client world = .ok (some v) := by
  have built := buildRpcViewAccessKey_granted account pubKey granting.viewKey
  rw [← named.account, ← named.pubKey] at built
  exact viewedKey_used delivers trips (by simp [noError]) built

theorem signedRequest_granting (lib : Library) {client : Client} {world : World}
    {nearTx : NearTransaction} {account : CString} (granting : Granting world)
    (signer : nearTx.signerId = some account) (moderate : Moderate account nearTx)
    (status : NearTxStatus) :
    ∃ text, Rfc4648.decode text.bytes = some (signedBlob lib client.signer.privateKey
        client.signer.publicKey (unsignedSerial world.malloced world.reallocs account nearTx)) ∧
      signedRequest lib client world nearTx status =
        .ok (some (complete (.lit "send_tx")
          [(.lit "wait_until", txStatus status), (.lit "signed_tx_base64", text)])) := by
  have length := encode_signed_length lib client.signer.privateKey client.signer.publicKey
    account nearTx
  have bound := signedBlob_length_le lib client.signer.privateKey client.signer.publicKey
    world.malloced world.reallocs account nearTx
  have wide : 0x100000000 ≤ lib.sizeT.wrap := by cases lib.sizeT <;> decide
  have small : (signedBlob lib client.signer.privateKey client.signer.publicKey
      (unsignedSerial world.malloced world.reallocs account nearTx)).length < 0x10000000 := by
    unfold Moderate at moderate
    omega
  have encoded := Base64.base64Encode_granted wide small
  refine ⟨_, Base64.decode_base64Encode encoded, ?_⟩
  rw [signedRequest_eq lib client world status signer, granting.base64, encoded,
    buildRpcSendTx_granted _ _ granting.sendTx]

/-- The query gets `body` with the HTTP code. -/
def grantingWorld (reallocs : Answers) (body : CString) (code : Int) : World :=
  { viewKeyAnswers := fun _ => true
    viewKeyTransfer :=
      { easyInit := true
        malloced := 0
        chunks := [⟨body.bytes, true⟩]
        ended := curleOk
        responseCode := code }
    malloced := 0
    reallocs := reallocs
    base64Granted := true
    sendTxAnswers := fun _ => true
    sendTxTransfer :=
      { easyInit := true, malloced := 0, chunks := [], ended := curleOk, responseCode := 200 } }

theorem grantingWorld_granting (reallocs : Answers) (body : CString) (code : Int) :
    Granting (grantingWorld reallocs body code) where
  viewKey := fun _ => rfl
  base64 := rfl
  sendTx := fun _ => rfl
  handle := rfl

theorem grantingWorld_delivers {lib : Library} {client : Client} {body : CString}
    {res : Option Json} (address : client.rpcUrl ≠ none)
    (arrives : resultOrError (lib.cJSONParse body) = res) (reallocs : Answers) (code : Int) :
    Delivers lib client (grantingWorld reallocs body code) code res := by
  intro data
  have got : receive client.rpcUrl (grantingWorld reallocs body code).viewKeyTransfer =
      .reply (.holding body.bytes) :=
    receive_of_perform address rfl (by
      simp [grantingWorld, curlEasyPerform, writeChunks, curlWriteMemory_granted])
  have text : CString.ofBlock (CurlMemory.holding body.bytes).memory = .ok body :=
    CString.ofBlock_terminated body []
  refine ⟨client.rpcUrl.map fun _ => data, ?_⟩
  rw [execCurlRpcCall, got, ← arrives]
  simp only [text, ok_bind]
  rfl

/-- A client with a signer. -/
def someClient : Client :=
  { rpcUrl := some (.lit "http://localhost")
    signer := { Signer.start with accountId := some (.lit ""), b58PubKey := some (.lit "") } }

theorem someClient_named : Named someClient (.lit "") (.lit "") := ⟨by simp [someClient], rfl, rfl⟩

def emptyCall : NearTransaction := contractCall (.lit "") (.lit "") (.lit "") 0 0

theorem emptyCall_moderate : Moderate (.lit "") emptyCall := by
  unfold Moderate
  decide

/-- A value that is looked into is put into a transaction, which gets a request. -/
theorem grantingWorld_fills {lib : Library} {reallocs : Answers} {body : CString} {v : Json}
    (arrives : resultOrError (lib.cJSONParse body) = some v) (trips : RoundTrips lib v)
    (noError : hasError v = false) {filled : NearTransaction} {rpcReq : Option Json}
    (prepared : prepareTx lib someClient (grantingWorld reallocs body 200) emptyCall .none =
      .ok (filled, rpcReq)) :
    fillAccessKey lib v (fillSigner someClient.signer emptyCall) = .ok filled ∧
      rpcReq ≠ none := by
  have granting := grantingWorld_granting reallocs body 200
  have delivers := grantingWorld_delivers someClient_named.address arrives reallocs 200
  have viewed := viewedKey_granting granting someClient_named delivers trips noError
  rcases prepareTx_cases prepared with ⟨missing, -, -⟩ | ⟨rpcRes, found, fill, request⟩
  · rw [viewed] at missing
    cases missing
  · rw [viewed] at found
    obtain rfl : v = rpcRes := Option.some.inj (Except.ok.inj found)
    have same := fillAccessKey_frame fill
    have signer : filled.signerId = some (.lit "") := by rw [same]; rfl
    have moderate : Moderate (.lit "") filled := by
      rw [same]
      exact emptyCall_moderate
    obtain ⟨text, -, built⟩ := signedRequest_granting lib granting signer moderate .none
    rw [built] at request
    refine ⟨fill, ?_⟩
    rw [← Except.ok.inj request]
    simp

/-- Every call that gets a reply is sound exactly when the reply is refused, or is an object
with a numeric nonce from 0 to below 2^64, the hash of a block and no error. -/
theorem soundSend_iff (lib : Library) (code : Int) (res : Option Json)
    (trips : ∀ v, res = some v → RoundTrips lib v)
    (arrives : ∀ v, res = some v → ∃ body, resultOrError (lib.cJSONParse body) = some v) :
    (∀ client world nearTx status, Delivers lib client world code res →
        SoundSend lib client world nearTx status code res) ↔
      Refused code res ∨ Usable code res := by
  constructor
  · intro sound
    by_cases refused : Refused code res
    · exact Or.inl refused
    right
    simp only [Refused, not_forall] at refused
    obtain ⟨v, rfl, good⟩ := refused
    obtain rfl : code = 200 := not_not.mp (not_or.mp good).1
    have noError : hasError v = false := by simpa using (not_or.mp good).2
    obtain ⟨body, arrived⟩ := arrives v rfl
    have delivers :=
      grantingWorld_delivers someClient_named.address arrived (fun _ => true) 200
    rcases sound someClient (grantingWorld _ body 200) emptyCall .none delivers with
      ⟨filled, ran⟩ | ⟨v', hash, filled, rpcReq, same, typed, prepared, -⟩
    · obtain ⟨⟨filled', rpcReq⟩, prepared, rest⟩ := bind_eq_ok.mp ran
      obtain ⟨-, some_req⟩ := grantingWorld_fills arrived (trips v rfl) noError prepared
      obtain ⟨⟨response, posted⟩, called, sent⟩ := bind_eq_ok.mp rest
      have out := callRpc_posted called
      simp only [Except.ok.injEq, Sent.mk.injEq] at sent
      rw [sent.2.2, if_pos ⟨rfl, by simp [someClient]⟩] at out
      exact absurd out.symm some_req
    · obtain rfl : v = v' := Option.some.inj same
      obtain ⟨fill, -⟩ := grantingWorld_fills arrived (trips v rfl) noError prepared
      obtain ⟨value, nonce, bounds⟩ := castable_of_fill fill
      exact ⟨v, hash, value, rfl, typed, nonce, bounds⟩
  · intro harmless client world nearTx status delivers
    exact soundSend_of_harmless delivers trips harmless nearTx status

/-! ## Two replies -/

/-- A library that reads `body` as a reply with the value `v`, and `v` back from its print. -/
def libraryFor (body text : CString) (reply v : Json) : Library :=
  { idleLibrary with
    cJSONParse := fun s => if s = body then some reply else if s = text then some v else none
    cJSONPrint := fun _ => some text }

theorem libraryFor_parses (body text : CString) (reply v : Json) :
    (libraryFor body text reply v).cJSONParse body = some reply := if_pos rfl

theorem libraryFor_trips {body text : CString} (apart : text ≠ body) (reply v : Json) :
    RoundTrips (libraryFor body text reply v) v :=
  ⟨text, rfl, by simp [libraryFor, apart]⟩

theorem libraryFor_tripped {body text : CString} (apart : text ≠ body) (reply v w : Json) :
    ((libraryFor body text reply v).cJSONPrint w).bind (libraryFor body text reply v).cJSONParse =
      some v := by
  simp [libraryFor, apart]

theorem libraryFor_arrives {body : CString} (text : CString) {reply v w : Json}
    (detached : resultOrError (some reply) = some w) :
    resultOrError ((libraryFor body text reply v).cJSONParse body) = some w := by
  rw [libraryFor_parses, detached]

def keyHash : CString := .lit "11111111111111111111111111111111"

def keyValue : Json :=
  .object [(.lit "nonce", .number (.finite 7)), (.lit "block_hash", .string keyHash)]

def keyBody : CString :=
  .lit "\x7b\"result\":\x7b\"nonce\":7,\"block_hash\":\"11111111111111111111111111111111\"\x7d\x7d"

def keyText : CString :=
  .lit "\x7b\n\t\"nonce\":\t7,\n\t\"block_hash\":\t\"11111111111111111111111111111111\"\n\x7d"

def keyLibrary : Library :=
  libraryFor keyBody keyText (.object [(.lit "result", keyValue)]) keyValue

theorem keyLibrary_trips : RoundTrips keyLibrary keyValue :=
  libraryFor_trips (by decide +kernel) _ _

theorem keyLibrary_arrives : resultOrError (keyLibrary.cJSONParse keyBody) = some keyValue :=
  libraryFor_arrives _ rfl

theorem soundSend_key :
    (∀ client world nearTx status, Delivers keyLibrary client world 200 (some keyValue) →
        SoundSend keyLibrary client world nearTx status 200 (some keyValue)) ↔
      Refused 200 (some keyValue) ∨ Usable 200 (some keyValue) :=
  soundSend_iff keyLibrary 200 (some keyValue)
    (fun v same => by
      obtain rfl : keyValue = v := Option.some.inj same
      exact keyLibrary_trips)
    (fun v same => by
      obtain rfl : keyValue = v := Option.some.inj same
      exact ⟨keyBody, keyLibrary_arrives⟩)

/-- An error object of the server, which comes with the HTTP code 200. -/
def errorValue : Json := .object [(.lit "name", .string (.lit "HANDLER_ERROR"))]

def errorLibrary : Library :=
  libraryFor (.lit "\x7b\"error\":\x7b\"name\":\"HANDLER_ERROR\"\x7d\x7d")
    (.lit "\x7b\n\t\"name\":\t\"HANDLER_ERROR\"\n\x7d")
    (.object [(.lit "error", errorValue)]) errorValue

/-- Its missing block hash goes to `base58_decode` as `NULL`. -/
theorem error_reply_passes_null :
    ¬ ∀ client world nearTx status, Delivers errorLibrary client world 200 (some errorValue) →
      SoundSend errorLibrary client world nearTx status 200 (some errorValue) := by
  intro sound
  have trips : RoundTrips errorLibrary errorValue := libraryFor_trips (by decide +kernel) _ _
  have arrives : resultOrError (errorLibrary.cJSONParse
      (.lit "\x7b\"error\":\x7b\"name\":\"HANDLER_ERROR\"\x7d\x7d")) =
        some errorValue := libraryFor_arrives _ rfl
  have noError : hasError errorValue = false := by decide +kernel
  have delivers := grantingWorld_delivers someClient_named.address arrives (fun _ => true) 200
  rcases sound _ _ emptyCall .none delivers with ⟨filled, ran⟩ | ⟨v, hash, -, -, same, typed, -⟩
  · obtain ⟨prepared, first, -⟩ := bind_eq_ok.mp ran
    obtain ⟨fill, -⟩ := grantingWorld_fills arrives trips noError first
    have null : fillAccessKey errorLibrary errorValue (fillSigner someClient.signer emptyCall) =
        .error .nullString := rfl
    rw [null] at fill
    cases fill
  · obtain rfl : errorValue = v := Option.some.inj same
    have missing : hashItem errorValue = none := rfl
    rw [typed.hashString] at missing
    cases missing

end CNear.AccessKeyReply
