import CNear.Session

/-! `near_account_init_json` against `near_account_init`. The two agree where the text is an
object with three string members, and a text that is not JSON is refused. Every other text
passes a `NULL` on: the accessor's result goes to `near_account_init` unchecked. -/

namespace CNear.AccountJson
open Account AccessKeyReply CJson Exchange Session

/-- The first member under the name is this string. -/
def HasString (json : Json) (name text : CString) : Prop := HasMember json name (.string text)

/-- The three strings that the credentials file of an account holds. -/
structure HasCredentials (json : Json) (account priv pub : CString) : Prop where
  accountId : HasString json (.lit "account_id") account
  privateKey : HasString json (.lit "private_key") priv
  publicKey : HasString json (.lit "public_key") pub

/-- The text is read as credentials. -/
def Credible (lib : Library) (credentialsJson : Option CString) : Prop :=
  ∃ json account priv pub, credentialsJson.bind lib.cJSONParse = some json ∧
    HasCredentials json account priv pub

/-- `near_account_init` is not called, or not with a `NULL`. -/
def PassesNoNull (lib : Library) (answers : Answers) (credentialsJson : Option CString) : Prop :=
  ∀ given, (Call.accountInitJson answers credentialsJson).credentials lib = some given →
    given.account ≠ none ∧ given.b58Priv ≠ none ∧ given.b58Pub ≠ none

/-- Credentials are loaded as `near_account_init` loads them; anything else is refused, with
the signer as it was and nothing passed on. -/
structure Agrees (lib : Library) (answers : Answers) (credentialsJson : Option CString)
    (signer : Signer) : Prop where
  loaded : ∀ json account priv pub, credentialsJson.bind lib.cJSONParse = some json →
    HasCredentials json account priv pub →
    nearAccountInitJson lib answers credentialsJson signer =
      nearAccountInit lib.charSign answers (some account) (some priv) (some pub) signer
  refused : ¬ Credible lib credentialsJson →
    nearAccountInitJson lib answers credentialsJson signer = .ok (false, signer) ∧
      PassesNoNull lib answers credentialsJson

theorem getString_eq_some_iff (json : Json) (name text : CString) :
    getStringValue (getObjectItemCaseSensitive (some json) name) = some text ↔
      HasString json name text := by
  rw [getStringValue_eq_some_iff, getObjectItemCaseSensitive_eq_some_iff]
  rfl

/-- What `near_account_init` is called with is what the call does. -/
theorem nearAccountInitJson_eq (lib : Library) (answers : Answers)
    (credentialsJson : Option CString) (signer : Signer) :
    nearAccountInitJson lib answers credentialsJson signer =
      match (Call.accountInitJson answers credentialsJson).credentials lib with
      | none => .ok (false, signer)
      | some given =>
          nearAccountInit lib.charSign given.answers given.account given.b58Priv given.b58Pub
            signer := by
  rw [nearAccountInitJson, Call.credentials]
  cases credentialsJson.bind lib.cJSONParse with
  | none => rfl
  | some json => rfl

theorem credible_of_passesNoNull {lib : Library} {answers : Answers}
    {credentialsJson : Option CString} {json : Json} (parsed : credentialsJson.bind lib.cJSONParse = some json)
    (passes : PassesNoNull lib answers credentialsJson) : Credible lib credentialsJson := by
  obtain ⟨account, priv, pub⟩ := passes _ (by rw [Call.credentials, parsed, Option.map_some])
  obtain ⟨name, first⟩ := Option.ne_none_iff_exists'.mp account
  obtain ⟨secret, second⟩ := Option.ne_none_iff_exists'.mp priv
  obtain ⟨key, third⟩ := Option.ne_none_iff_exists'.mp pub
  exact ⟨json, name, secret, key, parsed, {
    accountId := (getString_eq_some_iff json _ name).mp first
    privateKey := (getString_eq_some_iff json _ secret).mp second
    publicKey := (getString_eq_some_iff json _ key).mp third }⟩

theorem loaded_of_hasCredentials (lib : Library) (answers : Answers)
    {credentialsJson : Option CString} (signer : Signer) {json : Json} {account priv pub : CString}
    (parsed : credentialsJson.bind lib.cJSONParse = some json)
    (has : HasCredentials json account priv pub) :
    nearAccountInitJson lib answers credentialsJson signer =
      nearAccountInit lib.charSign answers (some account) (some priv) (some pub) signer := by
  rw [nearAccountInitJson, parsed]
  simp only [(getString_eq_some_iff json _ _).mpr has.accountId,
    (getString_eq_some_iff json _ _).mpr has.privateKey,
    (getString_eq_some_iff json _ _).mpr has.publicKey]

/-- Without an account or a public key the copy of `NULL` has no outcome. -/
theorem missing_string_faults (lib : Library) (answers : Answers) {credentialsJson : Option CString}
    (signer : Signer) {given : Credentials}
    (called : (Call.accountInitJson answers credentialsJson).credentials lib = some given)
    (missing : given.account = none ∨ given.b58Pub = none) :
    nearAccountInitJson lib answers credentialsJson signer = .error .nullString := by
  rw [nearAccountInitJson_eq, called]
  simp only [nearAccountInit]
  rcases missing with account | pub
  · rw [account]
    rfl
  · rw [pub]
    cases given.account with
    | none => rfl
    | some name => rfl

/-- The two ways to load an account agree, and bad credentials are refused, exactly for a text
that is not JSON and for an object with all three strings. -/
theorem nearAccountInitJson_agrees_iff (lib : Library) (answers : Answers)
    (credentialsJson : Option CString) (signer : Signer) :
    Agrees lib answers credentialsJson signer ↔
      credentialsJson.bind lib.cJSONParse = none ∨ Credible lib credentialsJson := by
  constructor
  · intro agrees
    cases parsed : credentialsJson.bind lib.cJSONParse with
    | none => exact Or.inl rfl
    | some json =>
      right
      by_contra bad
      exact bad (credible_of_passesNoNull parsed (agrees.refused bad).2)
  · intro condition
    refine ⟨fun json account priv pub parsed has =>
      loaded_of_hasCredentials lib answers signer parsed has, ?_⟩
    intro bad
    have unparsed : credentialsJson.bind lib.cJSONParse = none := condition.resolve_right bad
    have notCalled : (Call.accountInitJson answers credentialsJson).credentials lib = none := by
      rw [Call.credentials, unparsed, Option.map_none]
    constructor
    · rw [nearAccountInitJson_eq, notCalled]
    · intro given called
      rw [notCalled] at called
      cases called

def keylessText : CString :=
  .lit "\x7b\"account_id\":\"alice.near\",\"private_key\":\"ed25519:3\"\x7d"

def keylessJson : Json :=
  .object [(.lit "account_id", .string (.lit "alice.near")),
    (.lit "private_key", .string (.lit "ed25519:3"))]

/-- Credentials without a public key are neither loaded nor refused: a copy of `NULL` is made. -/
theorem keyless_credentials_fault :
    ¬ Agrees (libraryFor keylessText (.lit "") keylessJson .null) (fun _ => true)
      (some keylessText) Signer.start := by
  intro agrees
  have faults : nearAccountInitJson (libraryFor keylessText (.lit "") keylessJson .null)
      (fun _ => true) (some keylessText) Signer.start = .error .nullString :=
    missing_string_faults _ _ _ rfl (Or.inr (by decide +kernel))
  have parsed : (some keylessText).bind
      (libraryFor keylessText (.lit "") keylessJson .null).cJSONParse = some keylessJson := rfl
  have incredible : ¬ Credible (libraryFor keylessText (.lit "") keylessJson .null)
      (some keylessText) := by
    intro credible
    obtain ⟨json, account, priv, pub, read, has⟩ := credible
    rw [parsed] at read
    obtain rfl := Option.some.inj read
    have missing : getStringValue (getObjectItemCaseSensitive (some keylessJson)
        (.lit "public_key")) = none := by decide +kernel
    have found := (getString_eq_some_iff keylessJson _ pub).mpr has.publicKey
    rw [missing] at found
    cases found
  have refused := (agrees.refused incredible).1
  rw [faults] at refused
  cases refused

end CNear.AccountJson
