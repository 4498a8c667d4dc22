import CNear.Lib.Runs
import CNear.PostedBytes

/-! Whole runs of the client. A posted transaction has account and keys of one accepted
`near_account_init`, unless a refused one has put some of its arguments in place since. -/

namespace CNear.Session
open Account Base58 CJson Exchange PostedBytes Runs SendTx Transaction TransactionFormat

/-! ## Calls -/

/-- As the program starts. -/
def started : Client := ⟨none, .start⟩

def nearRpcInit (rpcUrl : Option CString) (curlInit globalInitOk granted : Bool) (client : Client) :
    Except Fault (Bool × Client) :=
  if curlInit = true ∧ globalInitOk = false then .ok (false, client)
  else do
    let url ← strdup granted rpcUrl
    .ok (true, { client with rpcUrl := url })

/-- The argument only decides whether libcurl is shut down as well. -/
def nearRpcCleanup (client : Client) : Client := ⟨none, client.signer.cleanup⟩

/-- A call with its arguments and with what it meets in allocators, libcurl and network. -/
inductive Call where
  | rpcInit (rpcUrl : Option CString) (curlInit globalInitOk granted : Bool)
  | rpcCleanup
  | accountInit (answers : Answers) (account b58Priv b58Pub : Option CString)
  | accountInitJson (answers : Answers) (credentialsJson : Option CString)
  | sendTx (world : World) (nearTx : NearTransaction) (status : NearTxStatus)

/-- The result of the calls that return no `bool` is put as `true`. -/
def performCall (lib : Library) (client : Client) : Call → Except Fault (Bool × Client)
  | .rpcInit rpcUrl curlInit globalInitOk granted =>
      nearRpcInit rpcUrl curlInit globalInitOk granted client
  | .rpcCleanup => .ok (true, nearRpcCleanup client)
  | .accountInit answers account b58Priv b58Pub => do
      let init ← nearAccountInit lib.charSign answers account b58Priv b58Pub client.signer
      .ok (init.1, { client with signer := init.2 })
  | .accountInitJson answers credentialsJson => do
      let init ← nearAccountInitJson lib answers credentialsJson client.signer
      .ok (init.1, { client with signer := init.2 })
  | .sendTx world nearTx status => do
      let _sent ← nearRpcSendTx lib client world nearTx status
      .ok (true, client)

structure Event where
  before : Client
  call : Call
  returned : Bool

def Step (lib : Library) (before : Client) (event : Event) (after : Client) : Prop :=
  event.before = before ∧ performCall lib before event.call = .ok (event.returned, after)

/-! ## What the signer comes from -/

/-- What `near_account_init` is called with, by the program or for the members of a JSON text. -/
structure Credentials where
  answers : Answers
  account : Option CString
  b58Priv : Option CString
  b58Pub : Option CString

def Call.credentials (lib : Library) : Call → Option Credentials
  | .accountInit answers account b58Priv b58Pub => some ⟨answers, account, b58Priv, b58Pub⟩
  | .accountInitJson answers credentialsJson =>
      (credentialsJson.bind lib.cJSONParse).map fun json =>
        ⟨answers, getStringValue (getObjectItemCaseSensitive (some json) (.lit "account_id")),
          getStringValue (getObjectItemCaseSensitive (some json) (.lit "private_key")),
          getStringValue (getObjectItemCaseSensitive (some json) (.lit "public_key"))⟩
  | _ => none

/-- All four variables are those given. -/
structure Holds (sign : CharSign) (given : Credentials) (signer : Signer) : Prop where
  accountId : signer.accountId = given.account
  b58PubKey : signer.b58PubKey = given.b58Pub
  publicKey : Loads sign given.b58Pub signer.publicKey
  privateKey : Loads sign given.b58Priv signer.privateKey

/-- Account, query, public key and signature of a posted transaction are those given. -/
structure SignedWith (lib : Library) (client : Client) (world : World) (filled : NearTransaction)
    (rpcReq : Json) (given : Credentials) : Prop where
  signerId : filled.signerId = given.account
  queried : client.signer.accountId = given.account ∧ client.signer.b58PubKey = given.b58Pub
  publicKey : Loads lib.charSign given.b58Pub filled.publicKey
  signed : ∃ account privateKey, given.account = some account ∧
    Loads lib.charSign given.b58Priv privateKey ∧
    ∀ bytes, signedBytes rpcReq = some bytes →
      bytes = signedBlob lib privateKey filled.publicKey
        (unsignedSerial world.malloced world.reallocs account filled)

/-- The transaction goes back to one accepted call, with no cleanup since. -/
def SignedAsGiven (lib : Library) (history : List Event) (client : Client) (world : World)
    (filled : NearTransaction) (rpcReq : Json) : Prop :=
  Since (fun event => event.returned = true ∧ ∃ given, event.call.credentials lib = some given ∧
      SignedWith lib client world filled rpcReq given)
    (fun event => event.call ≠ .rpcCleanup) history

/-! ## Refused calls -/

/-- Both key strings are accepted. -/
def Accepted (sign : CharSign) (given : Credentials) : Prop :=
  (∃ key : Block 32, Loads sign given.b58Pub key) ∧ ∃ key : Block 64, Loads sign given.b58Priv key

/-- The call is refused and finds in place whatever it writes on the way. -/
structure InPlace (sign : CharSign) (given : Credentials) (signer : Signer) : Prop where
  accountId : given.account = signer.accountId
  b58PubKey : given.b58Pub = signer.b58PubKey
  keys : decodeKey sign signer.publicKey given.b58Pub = .ok (false, signer.publicKey) ∨
    (decodeKey sign signer.publicKey given.b58Pub = .ok (true, signer.publicKey) ∧
      decodeKey sign signer.privateKey given.b58Priv = .ok (false, signer.privateKey))

/-- Account and key string are copied, one of the keys is refused, and something changes. -/
def Spoils (lib : Library) (signer : Signer) (call : Call) : Prop :=
  ∃ given, call.credentials lib = some given ∧ given.answers 0 = true ∧ given.answers 1 = true ∧
    ¬ Accepted lib.charSign given ∧ ¬ InPlace lib.charSign given signer

/-- The call loads a whole signer or leaves one that nothing can be sent for. -/
def Clears (lib : Library) (call : Call) : Prop :=
  call = .rpcCleanup ∨ ∃ given, call.credentials lib = some given ∧
    (Accepted lib.charSign given ∨ given.answers 0 = false ∨ given.answers 1 = false)

/-- Some call has spoiled the signer, and none has cleared it since. -/
def Spoiled (lib : Library) (history : List Event) : Prop :=
  Since (fun event => Spoils lib event.before.signer event.call)
    (fun event => ¬ Clears lib event.call) history

/-! ## One call -/

theorem accepted_init {sign : CharSign} {given : Credentials} {signer final : Signer} {ret : Bool}
    (copies : given.answers 0 = true ∧ given.answers 1 = true) (accepted : Accepted sign given)
    (ran : nearAccountInit sign given.answers given.account given.b58Priv given.b58Pub signer =
      .ok (ret, final)) : ret = true ∧ Holds sign given final := by
  obtain ⟨name, key, hasName, hasKey, accountId, b58PubKey, ways⟩ := init_ways _ _ _ ran
  obtain ⟨⟨publicKey, pub⟩, privateKey, priv⟩ := accepted
  rcases ways with ⟨-, -, refused⟩ | ⟨readPub, readPriv⟩
  · rw [pub signer.publicKey] at refused
    cases refused
  · have loadedPub := loads_of_accepted readPub
    rw [priv signer.privateKey] at readPriv
    cases readPriv
    exact ⟨rfl, {
      accountId := by rw [accountId, copied, if_pos copies.1, hasName]
      b58PubKey := by rw [b58PubKey, copied, if_pos copies.2, hasKey]
      publicKey := loadedPub
      privateKey := priv }⟩

theorem inPlace_init {sign : CharSign} {given : Credentials} {signer final : Signer} {ret : Bool}
    (copies : given.answers 0 = true ∧ given.answers 1 = true) (inPlace : InPlace sign given signer)
    (ran : nearAccountInit sign given.answers given.account given.b58Priv given.b58Pub signer =
      .ok (ret, final)) : final = signer := by
  obtain ⟨name, key, hasName, hasKey, accountId, b58PubKey, ways⟩ := init_ways _ _ _ ran
  rw [copied, if_pos copies.1, ← hasName, inPlace.accountId] at accountId
  rw [copied, if_pos copies.2, ← hasKey, inPlace.b58PubKey] at b58PubKey
  have keys : final.publicKey = signer.publicKey ∧ final.privateKey = signer.privateKey := by
    rcases inPlace.keys with refused | ⟨readPub, readPriv⟩
    · rcases ways with ⟨-, kept, same⟩ | ⟨other, -⟩
      · rw [refused] at same
        simp only [Except.ok.injEq, Prod.mk.injEq, true_and] at same
        exact ⟨same.symm, kept⟩
      · rw [refused] at other
        cases other
    · rcases ways with ⟨-, -, other⟩ | ⟨samePub, samePriv⟩
      · rw [readPub] at other
        cases other
      · rw [readPub] at samePub
        rw [readPriv] at samePriv
        simp only [Except.ok.injEq, Prod.mk.injEq, true_and] at samePub samePriv
        exact ⟨samePub.symm, samePriv.2.symm⟩
  cases final
  cases signer
  simp only [Signer.mk.injEq]
  exact ⟨accountId, b58PubKey, keys⟩

/-- Nothing can be sent: the query for the access key is not built. -/
def Mute (signer : Signer) : Prop := signer.accountId = none ∨ signer.b58PubKey = none

theorem uncopied_init {sign : CharSign} {given : Credentials} {signer final : Signer} {ret : Bool}
    (uncopied : given.answers 0 = false ∨ given.answers 1 = false)
    (ran : nearAccountInit sign given.answers given.account given.b58Priv given.b58Pub signer =
      .ok (ret, final)) : Mute final := by
  obtain ⟨name, key, -, -, accountId, b58PubKey, -⟩ := init_ways _ _ _ ran
  rcases uncopied with account | pub
  · left
    rw [accountId, copied, account]
    rfl
  · right
    rw [b58PubKey, copied, pub]
    rfl

/-- What a call can do to the signer. -/
theorem performCall_cases {lib : Library} {client after : Client} {call : Call} {returned : Bool}
    (ran : performCall lib client call = .ok (returned, after)) :
    (call ≠ .rpcCleanup ∧ call.credentials lib = none ∧ after.signer = client.signer) ∨
      (call = .rpcCleanup ∧ after.signer = client.signer.cleanup) ∨
      ∃ given, call.credentials lib = some given ∧
        nearAccountInit lib.charSign given.answers given.account given.b58Priv given.b58Pub
          client.signer = .ok (returned, after.signer) := by
  cases call with
  | rpcInit rpcUrl curlInit globalInitOk granted =>
    left
    refine ⟨by simp, rfl, ?_⟩
    simp only [performCall, nearRpcInit] at ran
    split at ran
    · cases ran
      rfl
    · obtain ⟨url, -, same⟩ := bind_eq_ok.mp ran
      cases same
      rfl
  | rpcCleanup =>
    cases ran
    exact Or.inr (Or.inl ⟨rfl, rfl⟩)
  | accountInit answers account b58Priv b58Pub =>
    obtain ⟨init, read, same⟩ := bind_eq_ok.mp ran
    cases same
    exact Or.inr (Or.inr ⟨_, rfl, read⟩)
  | accountInitJson answers credentialsJson =>
    obtain ⟨init, read, same⟩ := bind_eq_ok.mp ran
    cases same
    cases parsed : credentialsJson.bind lib.cJSONParse with
    | none =>
      rw [nearAccountInitJson, parsed] at read
      cases read
      exact Or.inl ⟨by simp, by rw [Call.credentials, parsed]; rfl, rfl⟩
    | some json =>
      rw [nearAccountInitJson, parsed] at read
      exact Or.inr (Or.inr ⟨_, by rw [Call.credentials, parsed]; rfl, read⟩)
  | sendTx world nearTx status =>
    obtain ⟨sent, -, same⟩ := bind_eq_ok.mp ran
    cases same
    exact Or.inl ⟨by simp, rfl, rfl⟩

/-! ## All runs -/

/-- All four variables are those of one accepted call, with no cleanup since. -/
def Owned (lib : Library) (history : List Event) (signer : Signer) : Prop :=
  Since (fun event => event.returned = true ∧ ∃ given, event.call.credentials lib = some given ∧
      Holds lib.charSign given signer)
    (fun event => event.call ≠ .rpcCleanup) history

/-- The signer is spoiled, or mute, or owned. -/
def Accounted (lib : Library) (history : List Event) (client : Client) : Prop :=
  Spoiled lib history ∨ Mute client.signer ∨ Owned lib history client.signer

/-- A call that leaves the signer as it is and does not clear it keeps all three. -/
theorem accounted_kept {lib : Library} {history : List Event} {before after : Client} {event : Event}
    (accounted : Accounted lib history before) (same : after.signer = before.signer)
    (quiet : ¬ Clears lib event.call) : Accounted lib (history ++ [event]) after := by
  have running : event.call ≠ .rpcCleanup := fun cleanup => quiet (Or.inl cleanup)
  unfold Accounted
  rw [same]
  rcases accounted with spoiled | mute | owned
  · exact Or.inl (since_concat.mpr (Or.inr ⟨spoiled, quiet⟩))
  · exact Or.inr (Or.inl mute)
  · exact Or.inr (Or.inr (since_concat.mpr (Or.inr ⟨owned, running⟩)))

theorem accounted_step {lib : Library} {history : List Event} {before after : Client} {event : Event}
    (accounted : Accounted lib history before) (step : Step lib before event after) :
    Accounted lib (history ++ [event]) after := by
  obtain ⟨here, ran⟩ := step
  rcases performCall_cases ran with ⟨running, nothing, same⟩ | ⟨-, cleaned⟩ | ⟨given, has, ran⟩
  · apply accounted_kept accounted same
    intro clears
    rcases clears with cleanup | ⟨given, has, -⟩
    · exact running cleanup
    · rw [nothing] at has
      cases has
  · right
    left
    rw [cleaned]
    exact Or.inl rfl
  · by_cases copies : given.answers 0 = true ∧ given.answers 1 = true
    · by_cases accepted : Accepted lib.charSign given
      · obtain ⟨returned, holds⟩ := accepted_init copies accepted ran
        exact Or.inr (Or.inr (since_concat.mpr (Or.inl ⟨returned, given, has, holds⟩)))
      · by_cases inPlace : InPlace lib.charSign given before.signer
        · apply accounted_kept accounted (inPlace_init copies inPlace ran)
          intro cleared
          rcases cleared with cleanup | ⟨other, hasOther, clears⟩
          · rw [cleanup] at has
            cases has
          · obtain rfl : given = other := Option.some.inj (has.symm.trans hasOther)
            rcases clears with yes | no | no
            · exact accepted yes
            · simp [copies.1] at no
            · simp [copies.2] at no
        · left
          refine since_concat.mpr (Or.inl ⟨given, has, copies.1, copies.2, accepted, ?_⟩)
          rw [here]
          exact inPlace
    · right
      left
      refine uncopied_init ?_ ran
      rw [not_and_or] at copies
      simpa using copies

theorem accounted {lib : Library} {history : List Event} {client : Client}
    (run : Reaches (Step lib) started history client) : Accounted lib history client :=
  run.invariant (Or.inr (Or.inl (Or.inl rfl))) fun _ _ _ _ => accounted_step

/-- What the four variables hold is what a posted transaction is made with. -/
theorem signedWith_of_holds {lib : Library} {client : Client} {world : World}
    {nearTx filled : NearTransaction} {status : NearTxStatus} {rpcReq : Json} {given : Credentials}
    (posts : Posts lib client world nearTx status filled rpcReq)
    (holds : Holds lib.charSign given client.signer) :
    SignedWith lib client world filled rpcReq given := by
  obtain ⟨account, -, -, hasAccount, -, -, -, same⟩ := posts_filled posts
  have signerId : filled.signerId = client.signer.accountId := by
    rw [same]
    rfl
  have publicKey : filled.publicKey = client.signer.publicKey := by
    rw [same]
    rfl
  refine {
    signerId := signerId.trans holds.accountId
    queried := ⟨holds.accountId, holds.b58PubKey⟩
    publicKey := by rw [publicKey]; exact holds.publicKey
    signed := ⟨account, client.signer.privateKey, holds.accountId.symm.trans hasAccount,
      holds.privateKey, ?_⟩ }
  intro bytes carried
  rw [publicKey]
  exact posted_blob posts carried (signerId.trans hasAccount)

/-- Whatever was called before: unless the signer is spoiled, a posted transaction goes back
to one accepted call with no cleanup since, in all of its account, query and keys. -/
theorem posted_signedAsGiven {lib : Library} {history : List Event} {client : Client}
    (run : Reaches (Step lib) started history client) (clean : ¬ Spoiled lib history)
    {world : World} {nearTx filled : NearTransaction} {status : NearTxStatus} {rpcReq : Json}
    (posts : Posts lib client world nearTx status filled rpcReq) :
    SignedAsGiven lib history client world filled rpcReq := by
  rcases accounted run with spoiled | mute | owned
  · exact absurd spoiled clean
  · obtain ⟨account, pubKey, -, hasAccount, hasKey, -⟩ := posts_filled posts
    rcases mute with missing | missing
    · rw [missing] at hasAccount
      cases hasAccount
    · rw [missing] at hasKey
      cases hasKey
  · refine owned.mono ?_ fun _ running => running
    rintro event ⟨returned, given, has, holds⟩
    exact ⟨returned, given, has, signedWith_of_holds posts holds⟩

/-! ## Two runs -/

open AccessKeyReply

def aliceKey : CString := .lit "ed25519:11111111111111111111111111111112"

def alicePrivateKey : CString :=
  .lit "ed25519:1111111111111111111111111111111111111111111111111111111111111112"

def urlInit : Call := .rpcInit (some (.lit "http://localhost")) false true true

def aliceInit : Call :=
  .accountInit (fun _ => true) (some (.lit "alice.near")) (some alicePrivateKey) (some aliceKey)

/-- With a key of a kind that the client does not know. -/
def bobInit : Call :=
  .accountInit (fun _ => true) (some (.lit "bob.near")) (some (.lit "secp256k1:"))
    (some (.lit "secp256k1:"))

def urlClient : Client := ⟨some (.lit "http://localhost"), .start⟩

def aliceClient : Client :=
  { urlClient with
    signer :=
      { accountId := some (.lit "alice.near")
        b58PubKey := some aliceKey
        publicKey := ⟨List.replicate 31 0 ++ [1], rfl⟩
        privateKey := ⟨List.replicate 63 0 ++ [1], rfl⟩ } }

def bobClient : Client :=
  { aliceClient with
    signer :=
      { aliceClient.signer with
        accountId := some (.lit "bob.near"), b58PubKey := some (.lit "secp256k1:") } }

def aliceHistory : List Event := [⟨started, urlInit, true⟩, ⟨urlClient, aliceInit, true⟩]

def bobHistory : List Event := aliceHistory ++ [⟨aliceClient, bobInit, false⟩]

theorem alice_run : Reaches (Step keyLibrary) started aliceHistory aliceClient :=
  (Reaches.start.next ⟨rfl, by decide +kernel⟩).next ⟨rfl, by decide +kernel⟩

theorem bob_run : Reaches (Step keyLibrary) started bobHistory bobClient :=
  alice_run.next ⟨rfl, by decide +kernel⟩

/-- A named client posts when everything is granted. -/
theorem posts_key {client : Client} {account pubKey : CString} (named : Named client account pubKey)
    (moderate : Moderate account emptyCall) :
    ∃ filled rpcReq, Posts keyLibrary client (grantingWorld (fun _ => true) keyBody 200) emptyCall
      .none filled rpcReq := by
  obtain ⟨filled, rpcReq, -, posts, -⟩ := posts_granting
    (grantingWorld_granting (fun _ => true) keyBody 200) named
    (grantingWorld_delivers named.address keyLibrary_arrives (fun _ => true) 200)
    keyLibrary_trips keyValue_wellTyped rfl (by norm_num) (by norm_num) moderate .none
  exact ⟨filled, rpcReq, posts⟩

theorem alice_clean : ¬ Spoiled keyLibrary aliceHistory := by
  rintro ⟨before, event, after, same, ⟨given, has, -, -, refused, -⟩, -⟩
  have member : event ∈ aliceHistory := by
    rw [same]
    simp
  simp only [aliceHistory, List.mem_cons, List.not_mem_nil, or_false] at member
  rcases member with rfl | rfl
  · cases has
  · obtain rfl := Option.some.inj has
    have pub : decodeKey keyLibrary.charSign (Block.replicate 32 0) (some aliceKey) =
        .ok (true, aliceClient.signer.publicKey) := by decide +kernel
    have priv : decodeKey keyLibrary.charSign (Block.replicate 64 0) (some alicePrivateKey) =
        .ok (true, aliceClient.signer.privateKey) := by decide +kernel
    exact refused ⟨⟨_, loads_of_accepted pub⟩, _, loads_of_accepted priv⟩

theorem posted_signedAsGiven_alice :
    ∃ filled rpcReq, Posts keyLibrary aliceClient (grantingWorld (fun _ => true) keyBody 200)
        emptyCall .none filled rpcReq ∧
      SignedAsGiven keyLibrary aliceHistory aliceClient (grantingWorld (fun _ => true) keyBody 200)
        filled rpcReq := by
  have named : Named aliceClient (.lit "alice.near") aliceKey :=
    ⟨by simp [aliceClient, urlClient], rfl, rfl⟩
  obtain ⟨filled, rpcReq, posts⟩ := posts_key named (by unfold Moderate; decide)
  exact ⟨filled, rpcReq, posts, posted_signedAsGiven alice_run alice_clean posts⟩

/-- Bob's credentials are refused, and then a transaction is posted in his name with Alice's
keys. -/
theorem refused_init_mixes_signers :
    ¬ ∀ lib history client, Reaches (Step lib) started history client →
      ∀ world nearTx status filled rpcReq, Posts lib client world nearTx status filled rpcReq →
        SignedAsGiven lib history client world filled rpcReq := by
  intro consistent
  have named : Named bobClient (.lit "bob.near") (.lit "secp256k1:") :=
    ⟨by simp [bobClient, aliceClient, urlClient], rfl, rfl⟩
  obtain ⟨filled, rpcReq, posts⟩ := posts_key named (by unfold Moderate; decide)
  obtain ⟨before, event, after, same, ⟨returned, given, has, signed⟩, -⟩ :=
    consistent _ _ _ bob_run _ _ _ _ _ posts
  have account : given.account = some (.lit "bob.near") := by
    rw [← signed.queried.1]
    rfl
  have member : event ∈ bobHistory := by
    rw [same]
    simp
  simp only [bobHistory, aliceHistory, List.cons_append, List.nil_append, List.mem_cons,
    List.not_mem_nil, or_false] at member
  rcases member with rfl | rfl | rfl
  · cases has
  · obtain rfl := Option.some.inj has
    exact absurd account (by decide)
  · cases returned

end CNear.Session
