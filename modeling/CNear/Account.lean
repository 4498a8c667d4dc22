import CNear.Exchange
import CNear.KeyString

/-! The signer: account, key string and the two keys, and the calls that set and reset it.
`near_account_init` writes each part before it checks the next, so it is atomic only where
it succeeds with valid keys or has nothing to change. -/

namespace CNear.Account
open Base58 KeyString CJson Exchange

/-- The static variables of the client, without the URL. -/
structure Signer where
  accountId : Option CString
  b58PubKey : Option CString
  publicKey : Block 32
  privateKey : Block 64
  deriving DecidableEq

/-- As the program starts. -/
def Signer.start : Signer := ⟨none, none, Block.replicate 32 0, Block.replicate 64 0⟩

def strdup (granted : Bool) (string : Option CString) : Except Fault (Option CString) :=
  match string with
  | none => .error .nullString
  | some s => .ok (if granted then some s else none)

/-- `strncmp` reads the string first. -/
def decodeKey (sign : CharSign) {klen : Nat} (binKey : Block klen) (b58Key : Option CString) :
    Except Fault (Bool × Block klen) :=
  match b58Key with
  | none => .error .nullString
  | some s => b58decodeEd25519Key sign binKey s

/-- The two answers are those to the copies of the account and of the public key string. -/
def nearAccountInit (sign : CharSign) (answers : Answers) (account b58Priv b58Pub : Option CString)
    (signer : Signer) : Except Fault (Bool × Signer) := do
  let accountId ← strdup (answers 0) account
  let b58PubKey ← strdup (answers 1) b58Pub
  let pub ← decodeKey sign signer.publicKey b58Pub
  if pub.1 = false then .ok (false, ⟨accountId, b58PubKey, pub.2, signer.privateKey⟩)
  else do
    let priv ← decodeKey sign signer.privateKey b58Priv
    .ok (priv.1, ⟨accountId, b58PubKey, pub.2, priv.2⟩)

/-- A text that is not JSON changes nothing; a member that is missing or not a string is
passed on as `NULL`. -/
def nearAccountInitJson (lib : Library) (answers : Answers) (credentialsJson : Option CString)
    (signer : Signer) : Except Fault (Bool × Signer) :=
  match credentialsJson.bind lib.cJSONParse with
  | none => .ok (false, signer)
  | some json =>
      nearAccountInit lib.charSign answers
        (getStringValue (getObjectItemCaseSensitive (some json) (.lit "account_id")))
        (getStringValue (getObjectItemCaseSensitive (some json) (.lit "private_key")))
        (getStringValue (getObjectItemCaseSensitive (some json) (.lit "public_key"))) signer

/-- `near_rpc_cleanup` leaves the keys where they are. -/
def Signer.cleanup (signer : Signer) : Signer := { signer with accountId := none, b58PubKey := none }

/-! ## Runs of `near_account_init` -/

/-- The copy of a string that is there. -/
def copied (granted : Bool) (s : CString) : Option CString := if granted then some s else none

section Strings
variable (sign : CharSign) (answers : Answers) (account priv pub : CString) (signer : Signer)

theorem init_pub_refused {publicKey : Block 32}
    (refused : b58decodeEd25519Key sign signer.publicKey pub = .ok (false, publicKey)) :
    nearAccountInit sign answers (some account) (some priv) (some pub) signer =
      .ok (false, ⟨copied (answers 0) account, copied (answers 1) pub, publicKey,
        signer.privateKey⟩) := by
  simp [nearAccountInit, strdup, decodeKey, copied, refused]

theorem init_pub_accepted {publicKey : Block 32}
    (accepted : b58decodeEd25519Key sign signer.publicKey pub = .ok (true, publicKey)) :
    nearAccountInit sign answers (some account) (some priv) (some pub) signer =
      (b58decodeEd25519Key sign signer.privateKey priv).map fun read =>
        (read.1, ⟨copied (answers 0) account, copied (answers 1) pub, publicKey, read.2⟩) := by
  simp only [nearAccountInit, strdup, decodeKey, copied, accepted, ok_bind]
  cases b58decodeEd25519Key sign signer.privateKey priv <;> rfl

/-- The four ways through the two key strings. The private one may be `NULL` where it is not
looked at. -/
theorem init_ways {account priv pub : Option CString} {ret : Bool} {final : Signer}
    (ran : nearAccountInit sign answers account priv pub signer = .ok (ret, final)) :
    ∃ name key, account = some name ∧ pub = some key ∧
      final.accountId = copied (answers 0) name ∧ final.b58PubKey = copied (answers 1) key ∧
      ((ret = false ∧ final.privateKey = signer.privateKey ∧
          decodeKey sign signer.publicKey pub = .ok (false, final.publicKey)) ∨
        (decodeKey sign signer.publicKey pub = .ok (true, final.publicKey) ∧
          decodeKey sign signer.privateKey priv = .ok (ret, final.privateKey))) := by
  obtain ⟨accountId, first, rest⟩ := bind_eq_ok.mp ran
  obtain ⟨b58PubKey, second, rest⟩ := bind_eq_ok.mp rest
  obtain ⟨⟨accepted, publicKey⟩, read, rest⟩ := bind_eq_ok.mp rest
  cases account with
  | none => cases first
  | some name =>
    cases pub with
    | none => cases second
    | some key =>
      cases first
      cases second
      cases accepted with
      | false =>
        cases rest
        exact ⟨name, key, rfl, rfl, rfl, rfl, Or.inl ⟨rfl, rfl, read⟩⟩
      | true =>
        obtain ⟨⟨accepted, privateKey⟩, readPriv, same⟩ := bind_eq_ok.mp rest
        cases same
        exact ⟨name, key, rfl, rfl, rfl, rfl, Or.inr ⟨read, readPriv⟩⟩

theorem init_cases {ret : Bool} {final : Signer}
    (ran : nearAccountInit sign answers (some account) (some priv) (some pub) signer =
      .ok (ret, final)) :
    final.accountId = copied (answers 0) account ∧ final.b58PubKey = copied (answers 1) pub ∧
      ((ret = false ∧ final.privateKey = signer.privateKey ∧
          b58decodeEd25519Key sign signer.publicKey pub = .ok (false, final.publicKey)) ∨
        (b58decodeEd25519Key sign signer.publicKey pub = .ok (true, final.publicKey) ∧
          b58decodeEd25519Key sign signer.privateKey priv = .ok (ret, final.privateKey))) := by
  obtain ⟨name, key, sameName, sameKey, accountId, b58PubKey, ways⟩ := init_ways sign answers signer ran
  obtain rfl := Option.some.inj sameName
  obtain rfl := Option.some.inj sameKey
  exact ⟨accountId, b58PubKey, ways⟩

end Strings

/-- The string is accepted as this key, whatever was there before. -/
def Loads (sign : CharSign) {klen : Nat} (b58Key : Option CString) (key : Block klen) : Prop :=
  ∀ binKey, decodeKey sign binKey b58Key = .ok (true, key)

theorem loads_of_accepted {sign : CharSign} {klen : Nat} {binKey key : Block klen}
    {b58Key : Option CString} (accepted : decodeKey sign binKey b58Key = .ok (true, key)) :
    Loads sign b58Key key := by
  intro other
  cases b58Key with
  | none => cases accepted
  | some s => exact b58decode_accepted accepted other

/-! ## Atomicity -/

/-- The key that a string stands for. -/
def KeyOf {klen : Nat} (b58Key : CString) (key : Block klen) : Prop :=
  ValidKey klen b58Key ∧ key.bytes = decode (keyBody b58Key).bytes

/-- All four parts are those given by the arguments. -/
structure Given (account priv pub : CString) (signer : Signer) : Prop where
  accountId : signer.accountId = some account
  b58PubKey : signer.b58PubKey = some pub
  publicKey : KeyOf pub signer.publicKey
  privateKey : KeyOf priv signer.privateKey

/-- A refused call leaves the signer as it was, an accepted one replaces all of it. -/
def Atomic (sign : CharSign) (answers : Answers) (account priv pub : CString) (signer : Signer) :
    Prop :=
  ∃ ret final,
    nearAccountInit sign answers (some account) (some priv) (some pub) signer = .ok (ret, final) ∧
      (ret = false → final = signer) ∧ (ret = true → Given account priv pub final)

/-- A valid key with some other character than `1`. -/
def Loadable (klen : Nat) (b58Key : CString) : Prop :=
  ValidKey klen b58Key ∧ ∃ c ∈ (keyBody b58Key).bytes, c ≠ '1'.toUInt8

/-- Both copies are made and both keys are loadable. -/
structure Replaces (answers : Answers) (priv pub : CString) : Prop where
  accountCopied : answers 0 = true
  pubCopied : answers 1 = true
  publicKey : Loadable 32 pub
  privateKey : Loadable 64 priv

/-- The call is refused, and all that it writes is there already. -/
structure ChangesNothing (sign : CharSign) (answers : Answers) (account priv pub : CString)
    (signer : Signer) : Prop where
  accountId : copied (answers 0) account = signer.accountId
  b58PubKey : copied (answers 1) pub = signer.b58PubKey
  keys : b58decodeEd25519Key sign signer.publicKey pub = .ok (false, signer.publicKey) ∨
    (b58decodeEd25519Key sign signer.publicKey pub = .ok (true, signer.publicKey) ∧
      b58decodeEd25519Key sign signer.privateKey priv = .ok (false, signer.privateKey))

theorem loadable_decodes (sign : CharSign) {klen : Nat} (small : klen ≤ 64) (binKey : Block klen)
    {b58Key : CString} (loadable : Loadable klen b58Key) :
    ∃ key : Block klen, b58decodeEd25519Key sign binKey b58Key = .ok (true, key) ∧
      KeyOf b58Key key := by
  obtain ⟨valid, c, member, other⟩ := loadable
  have head := ((validKey_iff klen b58Key).mp valid).1
  rcases valid_ordinary_or_ones small valid with ordinary | ones
  · obtain ⟨accepted, key, ran, specified, bytes⟩ := handlesKey_ordinary sign binKey head ordinary
    have yes := specified.mpr valid
    rw [yes] at ran
    exact ⟨key, ran, valid, bytes yes⟩
  · rw [ones] at member
    exact absurd (List.eq_of_mem_replicate member) other

/-- An accepted key that is valid is loadable: ones are refused. -/
theorem loadable_of_accepted (sign : CharSign) {klen : Nat} (small : klen ≤ 64)
    (binKey : Block klen) {b58Key : CString} {key : Block klen}
    (accepted : b58decodeEd25519Key sign binKey b58Key = .ok (true, key))
    (valid : ValidKey klen b58Key) : Loadable klen b58Key := by
  refine ⟨valid, ?_⟩
  have head := ((validKey_iff klen b58Key).mp valid).1
  rcases valid_ordinary_or_ones small valid with ordinary | ones
  · exact ordinary.2.2.2
  · exact absurd accepted (ones_not_accepted sign small binKey head ones key)

theorem atomic_of_replaces (sign : CharSign) {answers : Answers} (account : CString)
    {priv pub : CString} (signer : Signer) (replaces : Replaces answers priv pub) :
    Atomic sign answers account priv pub signer := by
  obtain ⟨publicKey, first, pubOf⟩ :=
    loadable_decodes sign (by decide) signer.publicKey replaces.publicKey
  obtain ⟨privateKey, second, privOf⟩ :=
    loadable_decodes sign (by decide) signer.privateKey replaces.privateKey
  have ran := init_pub_accepted sign answers account priv pub signer first
  rw [second, replaces.accountCopied, replaces.pubCopied] at ran
  refine ⟨true, _, ran, by simp, fun _ => ?_⟩
  exact { accountId := rfl, b58PubKey := rfl, publicKey := pubOf, privateKey := privOf }

theorem atomic_of_changesNothing {sign : CharSign} {answers : Answers} {account priv pub : CString}
    {signer : Signer} (nothing : ChangesNothing sign answers account priv pub signer) :
    Atomic sign answers account priv pub signer := by
  refine ⟨false, signer, ?_, fun _ => rfl, by simp⟩
  rcases nothing.keys with refused | ⟨accepted, refused⟩
  · rw [init_pub_refused sign answers account priv pub signer refused, nothing.accountId,
      nothing.b58PubKey]
  · rw [init_pub_accepted sign answers account priv pub signer accepted, refused,
      nothing.accountId, nothing.b58PubKey]
    rfl

/-- `near_account_init` is atomic exactly when it loads two valid keys and both copies are
made, or when it is refused and finds in place whatever it writes on the way. -/
theorem nearAccountInit_atomic_iff (sign : CharSign) (answers : Answers)
    (account priv pub : CString) (signer : Signer) :
    Atomic sign answers account priv pub signer ↔
      Replaces answers priv pub ∨ ChangesNothing sign answers account priv pub signer := by
  constructor
  · intro atomic
    obtain ⟨ret, final, ran, refused, accepted⟩ := atomic
    obtain ⟨accountId, b58PubKey, ways⟩ := init_cases sign answers account priv pub signer ran
    cases ret with
    | false =>
      right
      obtain rfl := refused rfl
      refine ⟨accountId.symm, b58PubKey.symm, ?_⟩
      rcases ways with ⟨-, -, pubRefused⟩ | ⟨pubAccepted, privRefused⟩
      · exact Or.inl pubRefused
      · exact Or.inr ⟨pubAccepted, privRefused⟩
    | true =>
      left
      have given := accepted rfl
      rcases ways with ⟨no, -⟩ | ⟨pubAccepted, privAccepted⟩
      · cases no
      · rw [given.accountId] at accountId
        rw [given.b58PubKey] at b58PubKey
        exact {
          accountCopied := by
            by_contra missing
            simp [copied, missing] at accountId
          pubCopied := by
            by_contra missing
            simp [copied, missing] at b58PubKey
          publicKey := loadable_of_accepted sign (by decide) _ pubAccepted given.publicKey.1
          privateKey := loadable_of_accepted sign (by decide) _ privAccepted given.privateKey.1 }
  · intro condition
    rcases condition with replaces | nothing
    · exact atomic_of_replaces sign account signer replaces
    · exact atomic_of_changesNothing nothing

/-- A public key without its prefix is refused after the account has been replaced. -/
theorem refused_init_replaces_account :
    ¬ Atomic .signed (fun _ => true) (.lit "bob.near") (.lit "ed25519:3") (.lit "3")
      { Signer.start with accountId := some (.lit "alice.near") } := by
  intro atomic
  obtain ⟨ret, final, ran, refused, -⟩ := atomic
  have outcome : nearAccountInit .signed (fun _ => true) (some (.lit "bob.near"))
      (some (.lit "ed25519:3")) (some (.lit "3"))
      { Signer.start with accountId := some (.lit "alice.near") } =
        .ok (false, { Signer.start with
          accountId := some (.lit "bob.near"), b58PubKey := some (.lit "3") }) := by
    decide +kernel
  rw [outcome] at ran
  simp only [Except.ok.injEq, Prod.mk.injEq] at ran
  have same := refused ran.1.symm
  rw [← ran.2] at same
  exact absurd same (by decide)

end CNear.Account
