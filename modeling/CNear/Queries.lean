import CNear.Base64
import CNear.Exchange
import CNear.Requests

/-! The `near_rpc_*` calls that ask for one thing: build the request, send it, print the
result. What they post is what the builders return, so a request is complete or not sent,
except where only the copy of the name `params` was refused. -/

namespace CNear.Queries
open CJson Requests Exchange Buffer

structure CnearResponse where
  rpcCode : Int
  json : Option CString
  deriving DecidableEq

/-- `cnearResponse ret = {0}` -/
def noResponse : CnearResponse := ⟨0, none⟩

/-- The common end of the calls, from the built request on; with the response comes what
was posted. -/
def callRpc (lib : Library) (url : Option CString) (rpcReq : Option Json) (transfer : Transfer) :
    Except Fault (CnearResponse × Option Json) :=
  match rpcReq with
  | none => .ok (noResponse, none)
  | some req => do
      let outcome ← execCurlRpcCall lib url req transfer noResponse.rpcCode
      .ok (⟨outcome.retCode, outcome.res.bind lib.cJSONPrint⟩, outcome.posted)

def nearRpcViewAccount (lib : Library) (url account : Option CString) (answers : Answers)
    (transfer : Transfer) : Except Fault (CnearResponse × Option Json) :=
  callRpc lib url (buildRpcViewAccount account answers).1 transfer

def nearRpcViewAccessKey (lib : Library) (url account pubKey : Option CString) (answers : Answers)
    (transfer : Transfer) : Except Fault (CnearResponse × Option Json) :=
  callRpc lib url (buildRpcViewAccessKey account pubKey answers).1 transfer

/-- `base64_encode` of a C string, whose length is taken first. -/
def base64OfString (lib : Library) (granted : Bool) (string : Option CString) :
    Except Fault (Option CString) :=
  match string with
  | none => .error .nullString
  | some s => .ok (Base64.base64Encode lib.sizeT.wrap granted s.bytes)

def nearRpcViewState (lib : Library) (url account statePrefix : Option CString) (b64Granted : Bool)
    (answers : Answers) (transfer : Transfer) : Except Fault (CnearResponse × Option Json) := do
  match ← base64OfString lib b64Granted statePrefix with
  | none => .ok (noResponse, none)
  | some b64out => callRpc lib url (buildRpcViewState account (some b64out) answers).1 transfer

def nearRpcCallFunction (lib : Library) (url account method args : Option CString)
    (b64Granted : Bool) (answers : Answers) (transfer : Transfer) :
    Except Fault (CnearResponse × Option Json) := do
  match ← base64OfString lib b64Granted args with
  | none => .ok (noResponse, none)
  | some b64out =>
      callRpc lib url (buildRpcCallFunction account method (some b64out) answers).1 transfer

/-! ## All or nothing -/

inductive RpcRequest where
  | viewAccount (account : Option CString)
  | viewState (account b64Prefix : Option CString)
  | callFunction (account method b64args : Option CString)
  | viewAccessKey (account pubkey : Option CString)
  | sendTx (b64out status : Option CString)

namespace RpcRequest

def build : RpcRequest → Alloc Json
  | viewAccount account => buildRpcViewAccount account
  | viewState account b64Prefix => buildRpcViewState account b64Prefix
  | callFunction account method b64args => buildRpcCallFunction account method b64args
  | viewAccessKey account pubkey => buildRpcViewAccessKey account pubkey
  | sendTx b64out status => buildRpcSendTx b64out status

def method : RpcRequest → CString
  | sendTx _ _ => .lit "send_tx"
  | _ => .lit "query"

/-- The members of `params` that the request type calls for. -/
def parameters : RpcRequest → List (CString × Option CString)
  | viewAccount account =>
      [(.lit "request_type", some (.lit "view_account")), (.lit "finality", some (.lit "final")),
        (.lit "account_id", account)]
  | viewState account b64Prefix =>
      [(.lit "request_type", some (.lit "view_state")), (.lit "finality", some (.lit "final")),
        (.lit "account_id", account), (.lit "prefix_base64", b64Prefix)]
  | callFunction account method b64args =>
      [(.lit "request_type", some (.lit "call_function")), (.lit "finality", some (.lit "final")),
        (.lit "account_id", account), (.lit "method_name", method), (.lit "args_base64", b64args)]
  | viewAccessKey account pubkey =>
      [(.lit "request_type", some (.lit "view_access_key")),
        (.lit "finality", some (.lit "optimistic")), (.lit "account_id", account),
        (.lit "public_key", pubkey)]
  | sendTx b64out status => [(.lit "wait_until", status), (.lit "signed_tx_base64", b64out)]

theorem build_eq (request : RpcRequest) :
    request.build = buildRpc request.method request.parameters := by
  cases request <;> rfl

/-- No argument is `NULL`, and the object has the base members and all parameters. -/
def Whole (request : RpcRequest) (json : Json) : Prop :=
  ∃ strings : List (CString × CString),
    request.parameters = strings.map (fun entry => (entry.1, some entry.2)) ∧
      json = complete request.method strings

/-- Only the last allocation of the builder, the copy of the name `params`, is refused. -/
def NameRefused (request : RpcRequest) (answers : Answers) : Prop :=
  (∀ entry ∈ request.parameters, entry.2 ≠ none) ∧
    answers.Grants (checkedCount request.parameters) ∧
      answers (checkedCount request.parameters) = false

/-- The builder returns `NULL` or the whole request, and a call posts nothing else. -/
structure AllOrNothing (request : RpcRequest) (answers : Answers) : Prop where
  built : ∀ json, (request.build answers).1 = some json → request.Whole json
  posted : ∀ lib url transfer response json,
    callRpc lib url (request.build answers).1 transfer = .ok (response, some json) →
      request.Whole json

end RpcRequest

theorem callRpc_posted {lib : Library} {url : Option CString} {request : Option Json}
    {transfer : Transfer} {response : CnearResponse} {posted : Option Json}
    (called : callRpc lib url request transfer = .ok (response, posted)) :
    posted = if transfer.easyInit = true ∧ url ≠ none then request else none := by
  cases request with
  | none =>
    cases called
    simp
  | some req =>
    obtain ⟨outcome, ran, same⟩ := bind_eq_ok.mp called
    simp only [Except.ok.injEq, Prod.mk.injEq] at same
    rw [← same.2, exec_posted ran]
    cases transfer.easyInit <;> cases url <;> simp

theorem posted_request {lib : Library} {url : Option CString} {request : Option Json}
    {transfer : Transfer} {response : CnearResponse} {json : Json}
    (called : callRpc lib url request transfer = .ok (response, some json)) :
    request = some json ∧ url ≠ none ∧ transfer.easyInit = true := by
  have posted := callRpc_posted called
  split at posted
  · rename_i out
    exact ⟨posted.symm, out.2, out.1⟩
  · cases posted

/-- With the name `params` not the only copy refused, what is built is whole. -/
theorem whole_of_built {request : RpcRequest} {answers : Answers} {json : Json}
    (ordinary : ¬ request.NameRefused answers) (built : (request.build answers).1 = some json) :
    request.Whole json := by
  rcases strings_or_missing request.parameters with ⟨strings, same⟩ | missing
  · rw [RpcRequest.build_eq, same] at built
    by_cases grants : answers.Grants (checkedCount request.parameters)
    · have named : answers (checkedCount request.parameters) = true := by
        by_contra refused
        apply ordinary
        refine ⟨?_, grants, by simpa using refused⟩
        intro entry member missing
        rw [same, List.mem_map] at member
        obtain ⟨string, -, rfl⟩ := member
        cases missing
      rw [same] at grants named
      rw [buildRpc_granted request.method strings grants, named] at built
      exact ⟨strings, same, (Option.some.inj built).symm⟩
    · rw [same] at grants
      rw [buildRpc_refused request.method strings grants] at built
      cases built
  · rw [RpcRequest.build_eq, fails_buildRpc request.method missing answers] at built
    cases built

/-- With all arguments there and only that copy refused, the bare request is built. -/
theorem bare_of_nameRefused {request : RpcRequest} {answers : Answers}
    (nameRefused : request.NameRefused answers) :
    (request.build answers).1 = some (bare request.method) := by
  obtain ⟨present, grants, refused⟩ := nameRefused
  rcases strings_or_missing request.parameters with ⟨strings, same⟩ | ⟨entry, member, missing⟩
  · rw [same] at grants refused
    have result := buildRpc_granted request.method strings grants
    rw [refused, ← same, ← RpcRequest.build_eq] at result
    exact result
  · exact absurd missing (present entry member)

open RpcRequest in
/-- Whichever allocations are refused and whichever arguments are `NULL`, a builder is all
or nothing exactly when the copy of the name `params` is not the only one refused. -/
theorem allOrNothing_iff (request : RpcRequest) (answers : Answers) :
    AllOrNothing request answers ↔ ¬ NameRefused request answers := by
  constructor
  · intro whole nameRefused
    obtain ⟨strings, -, same⟩ := whole.built _ (bare_of_nameRefused nameRefused)
    exact bare_ne_complete _ _ same
  · intro ordinary
    exact {
      built := fun json built => whole_of_built ordinary built
      posted := fun lib url transfer response json called =>
        whole_of_built ordinary (posted_request called).1 }

/-- The last of the 21 allocations for an account query is refused, and the request comes out
without its parameters. -/
theorem viewAccount_without_params :
    ¬ RpcRequest.AllOrNothing (.viewAccount (some (.lit "alice.near"))) (fun i => i != 20) := by
  intro whole
  obtain ⟨built, -⟩ := whole
  obtain ⟨strings, -, whole⟩ := built (bare (.lit "query")) rfl
  exact bare_ne_complete _ _ whole

/-! ## The four queries -/

inductive Query where
  | viewAccount (account : Option CString)
  | viewAccessKey (account pubKey : Option CString)
  | viewState (account statePrefix : Option CString) (b64Granted : Bool)
  | callFunction (account method args : Option CString) (b64Granted : Bool)

def Query.call (lib : Library) (url : Option CString) (answers : Answers) (transfer : Transfer) :
    Query → Except Fault (CnearResponse × Option Json)
  | viewAccount account => nearRpcViewAccount lib url account answers transfer
  | viewAccessKey account pubKey => nearRpcViewAccessKey lib url account pubKey answers transfer
  | viewState account statePrefix b64Granted =>
      nearRpcViewState lib url account statePrefix b64Granted answers transfer
  | callFunction account method args b64Granted =>
      nearRpcCallFunction lib url account method args b64Granted answers transfer

/-- What is asked for, with the argument that goes out in base64 encoded. -/
def Query.request (lib : Library) : Query → Except Fault (Option RpcRequest)
  | viewAccount account => .ok (some (.viewAccount account))
  | viewAccessKey account pubKey => .ok (some (.viewAccessKey account pubKey))
  | viewState account statePrefix b64Granted => do
      let encoded ← base64OfString lib b64Granted statePrefix
      .ok (encoded.map fun b64out => .viewState account (some b64out))
  | callFunction account method args b64Granted => do
      let encoded ← base64OfString lib b64Granted args
      .ok (encoded.map fun b64out => .callFunction account method (some b64out))

/-- The queries differ in their requests only. -/
theorem call_eq (lib : Library) (url : Option CString) (answers : Answers) (transfer : Transfer)
    (query : Query) :
    query.call lib url answers transfer = (do
      let request ← query.request lib
      callRpc lib url (request.bind fun asked => (asked.build answers).1) transfer) := by
  cases query with
  | viewAccount account => rfl
  | viewAccessKey account pubKey => rfl
  | viewState account statePrefix b64Granted =>
    rw [Query.call, nearRpcViewState, Query.request]
    cases base64OfString lib b64Granted statePrefix with
    | error fault => rfl
    | ok encoded => cases encoded <;> rfl
  | callFunction account method args b64Granted =>
    rw [Query.call, nearRpcCallFunction, Query.request]
    cases base64OfString lib b64Granted args with
    | error fault => rfl
    | ok encoded => cases encoded <;> rfl

/-- A query posts the whole of its request, or the bare one where only the name is refused. -/
theorem query_posted {lib : Library} {url : Option CString} {answers : Answers}
    {transfer : Transfer} {response : CnearResponse} {json : Json} {query : Query}
    (called : query.call lib url answers transfer = .ok (response, some json)) :
    ∃ request, query.request lib = .ok (some request) ∧
      (request.Whole json ∨ (request.NameRefused answers ∧ json = bare request.method)) := by
  rw [call_eq] at called
  obtain ⟨asked, encoded, rest⟩ := bind_eq_ok.mp called
  have built := (posted_request rest).1
  cases asked with
  | none => cases built
  | some request =>
    refine ⟨request, encoded, ?_⟩
    by_cases nameRefused : request.NameRefused answers
    · right
      rw [Option.bind_some, bare_of_nameRefused nameRefused] at built
      exact ⟨nameRefused, (Option.some.inj built).symm⟩
    · exact Or.inl (whole_of_built nameRefused built)

end CNear.Queries
