import CNear.CJson

/-! The five JSON-RPC request builders. They are one construction: the base object with
its method, the parameters as strings, and at the end the parameters put into the base.
Every step but the last is checked, so a builder is all-or-nothing except where only the
copy of the name `params` cannot be allocated. -/

namespace CNear.Requests
open CJson Alloc

def baseMembers (method : CString) : List (CString × CString) :=
  [(.lit "jsonrpc", .lit "2.0"), (.lit "id", .lit "dontcare"), (.lit "method", method)]

def buildRpcJson (method : CString) : Alloc Json := do
  let base ← createObject
  addStrings base ((baseMembers method).map fun entry => (entry.1, some entry.2))

/-- The part of a builder that ends in `goto end` on a failure. -/
def checkedParts (method : CString) (parameters : List (CString × Option CString)) :
    Alloc (Json × Json) := do
  let req ← buildRpcJson method
  let params ← createObject
  let params ← addStrings params parameters
  return (req, params)

/-- The result of the last `cJSON_AddItemToObject` is not looked at. -/
def buildRpc (method : CString) (parameters : List (CString × Option CString)) : Alloc Json := do
  let parts ← checkedParts method parameters
  let added ← addItemToObject parts.1 (.lit "params") parts.2
  return added.2

def buildRpcViewAccount (account : Option CString) : Alloc Json :=
  buildRpc (.lit "query")
    [(.lit "request_type", some (.lit "view_account")), (.lit "finality", some (.lit "final")),
      (.lit "account_id", account)]

def buildRpcViewState (account b64Prefix : Option CString) : Alloc Json :=
  buildRpc (.lit "query")
    [(.lit "request_type", some (.lit "view_state")), (.lit "finality", some (.lit "final")),
      (.lit "account_id", account), (.lit "prefix_base64", b64Prefix)]

def buildRpcCallFunction (account method b64args : Option CString) : Alloc Json :=
  buildRpc (.lit "query")
    [(.lit "request_type", some (.lit "call_function")), (.lit "finality", some (.lit "final")),
      (.lit "account_id", account), (.lit "method_name", method), (.lit "args_base64", b64args)]

def buildRpcViewAccessKey (account pubkey : Option CString) : Alloc Json :=
  buildRpc (.lit "query")
    [(.lit "request_type", some (.lit "view_access_key")),
      (.lit "finality", some (.lit "optimistic")), (.lit "account_id", account),
      (.lit "public_key", pubkey)]

def buildRpcSendTx (b64out status : Option CString) : Alloc Json :=
  buildRpc (.lit "send_tx") [(.lit "wait_until", status), (.lit "signed_tx_base64", b64out)]

/-! ## What a builder returns -/

/-- The request with all its members. -/
def complete (method : CString) (strings : List (CString × CString)) : Json :=
  .object ((baseMembers method).map (fun entry => (entry.1, .string entry.2)) ++
    [(.lit "params", .object (strings.map fun entry => (entry.1, .string entry.2)))])

/-- The request without its parameters. -/
def bare (method : CString) : Json :=
  .object ((baseMembers method).map fun entry => (entry.1, .string entry.2))

/-- The checked allocations: the base object and its three members, the parameter object,
and three for each parameter. -/
def checkedCount (parameters : List (CString × Option CString)) : Nat := 11 + 3 * parameters.length

theorem needs_buildRpcJson (method : CString) : Needs (buildRpcJson method) 10 (bare method) := by
  have members := needs_addStrings [] (baseMembers method)
  change Needs (createObject >>= fun base => addStrings base _) (1 + 9) _
  exact needs_createObject.bind members

theorem needs_checkedParts (method : CString) (strings : List (CString × CString)) :
    Needs (checkedParts method (strings.map fun entry => (entry.1, some entry.2)))
      (checkedCount (strings.map fun entry => (entry.1, some entry.2)))
      (bare method, .object (strings.map fun entry => (entry.1, .string entry.2))) := by
  have parameters := needs_addStrings [] strings
  have count : checkedCount (strings.map fun entry => (entry.1, some entry.2)) =
      10 + (1 + (3 * strings.length + 0)) := by
    rw [checkedCount, List.length_map]
    omega
  rw [count]
  exact (needs_buildRpcJson method).bind
    (needs_createObject.bind (parameters.bind (needs_pure _)))

theorem fails_checkedParts (method : CString) {parameters : List (CString × Option CString)}
    (missing : ∃ entry ∈ parameters, entry.2 = none) : Fails (checkedParts method parameters) :=
  Fails.after (fun _ => Fails.after
    (fun params => (fails_addStrings params missing).bind _) createObject) (buildRpcJson method)

theorem fails_buildRpc (method : CString) {parameters : List (CString × Option CString)}
    (missing : ∃ entry ∈ parameters, entry.2 = none) : Fails (buildRpc method parameters) :=
  (fails_checkedParts method missing).bind _

/-- With the checked allocations granted the request is complete or, if the copy of its
name is refused, has no `params`. -/
theorem buildRpc_granted (method : CString) (strings : List (CString × CString))
    {answers : Answers}
    (grants : answers.Grants (checkedCount (strings.map fun entry => (entry.1, some entry.2)))) :
    (buildRpc method (strings.map fun entry => (entry.1, some entry.2)) answers).1 =
      some (if answers (checkedCount (strings.map fun entry => (entry.1, some entry.2))) then
        complete method strings else bare method) := by
  rw [buildRpc, (needs_checkedParts method strings).bind_granted _ grants]
  have last : ∀ left : Answers, ((addItemToObject (bare method) (.lit "params")
      (.object (strings.map fun entry => (entry.1, .string entry.2))) >>= fun added =>
        (pure added.2 : Alloc Json)) left).1 =
      some (if left 0 then complete method strings else bare method) := by
    intro left
    rw [bind_apply, addItemToObject]
    cases left 0 <;> rfl
  exact last _

theorem buildRpc_refused (method : CString) (strings : List (CString × CString))
    {answers : Answers}
    (refused : ¬ answers.Grants (checkedCount (strings.map fun entry => (entry.1, some entry.2)))) :
    (buildRpc method (strings.map fun entry => (entry.1, some entry.2)) answers).1 = none :=
  (needs_checkedParts method strings).bind_refused _ refused

theorem buildRpcViewAccessKey_granted (account pubkey : CString) {answers : Answers}
    (granted : ∀ i, answers i = true) :
    (buildRpcViewAccessKey (some account) (some pubkey) answers).1 =
      some (complete (.lit "query")
        [(.lit "request_type", .lit "view_access_key"), (.lit "finality", .lit "optimistic"),
          (.lit "account_id", account), (.lit "public_key", pubkey)]) := by
  have built := buildRpc_granted (.lit "query")
    [(.lit "request_type", .lit "view_access_key"), (.lit "finality", .lit "optimistic"),
      (.lit "account_id", account), (.lit "public_key", pubkey)] fun i _ => granted i
  rwa [if_pos (granted _)] at built

theorem buildRpcCallFunction_granted (account method b64args : CString) {answers : Answers}
    (granted : ∀ i, answers i = true) :
    (buildRpcCallFunction (some account) (some method) (some b64args) answers).1 =
      some (complete (.lit "query")
        [(.lit "request_type", .lit "call_function"), (.lit "finality", .lit "final"),
          (.lit "account_id", account), (.lit "method_name", method),
          (.lit "args_base64", b64args)]) := by
  have built := buildRpc_granted (.lit "query")
    [(.lit "request_type", .lit "call_function"), (.lit "finality", .lit "final"),
      (.lit "account_id", account), (.lit "method_name", method), (.lit "args_base64", b64args)]
    fun i _ => granted i
  rwa [if_pos (granted _)] at built

theorem buildRpcSendTx_granted (b64out status : CString) {answers : Answers}
    (granted : ∀ i, answers i = true) :
    (buildRpcSendTx (some b64out) (some status) answers).1 =
      some (complete (.lit "send_tx")
        [(.lit "wait_until", status), (.lit "signed_tx_base64", b64out)]) := by
  have built := buildRpc_granted (.lit "send_tx")
    [(.lit "wait_until", status), (.lit "signed_tx_base64", b64out)] fun i _ => granted i
  rwa [if_pos (granted _)] at built

theorem bare_ne_complete (method : CString) (strings : List (CString × CString)) :
    bare method ≠ complete method strings := by
  intro same
  have members := Json.object.inj same
  have lengths := congrArg List.length members
  rw [List.length_append] at lengths
  simp at lengths

/-- Strings that are all there, or one that is `NULL`. -/
theorem strings_or_missing (parameters : List (CString × Option CString)) :
    (∃ strings : List (CString × CString),
      parameters = strings.map fun entry => (entry.1, some entry.2)) ∨
      ∃ entry ∈ parameters, entry.2 = none := by
  induction parameters with
  | nil => exact Or.inl ⟨[], rfl⟩
  | cons entry rest ih =>
    obtain ⟨name, string⟩ := entry
    rcases ih with ⟨strings, same⟩ | ⟨other, member, missing⟩
    · cases string with
      | none => exact Or.inr ⟨(name, none), List.mem_cons_self, rfl⟩
      | some value => exact Or.inl ⟨(name, value) :: strings, by rw [same]; rfl⟩
    · exact Or.inr ⟨other, List.mem_cons_of_mem _ member, missing⟩

end CNear.Requests
