import CNear.Lib.Runs
import CNear.NumberTrip
import CNear.PostedBytes

/-! Runs of `near_rpc_send_tx` against a node. The client has no nonce of its own: every call
posts the successor of what the node answers, so the nonces rise exactly as long as no call
asks before the node has caught up with what was posted. -/

namespace CNear.NonceRuns
open AccessKeyReply Account CJson Exchange NumberTrip PostedBytes Requests Runs SendTx Transaction

/-- The access key's current nonce, and the nonces of transactions that were posted and are
not included yet. -/
structure Node where
  nonce : UInt64
  pool : List UInt64
  deriving DecidableEq

/-- The node, and how the query of the call that is under way has found it. -/
structure Network where
  node : Node
  asked : Option Node

inductive Event where
  | query
  | posts (asked : Node) (nonce : UInt64)
  | givesUp
  | includes (nonce : UInt64)
  deriving DecidableEq

/-- The reply has this nonce in decimal digits: the result is parsed, printed and parsed. -/
def Reports (lib : Library) (client : Client) (world : World) (nonce : UInt64) : Prop :=
  ∃ v v', Delivers lib client world 200 (some v) ∧
    nonceItem v = some (.number (.finite (strtod nonce.toNat : Nat))) ∧
    (lib.cJSONPrint v).bind lib.cJSONParse = some v' ∧
    nonceItem v' = some (.number (.finite (readBack nonce.toNat : Nat)))

/-- A call queries the node and then posts on the reply, or gives up; the node may include a
transaction at any time. -/
inductive Step (lib : Library) (client : Client) : Network → Event → Network → Prop
  | query {node : Node} : Step lib client ⟨node, none⟩ .query ⟨node, some node⟩
  | posts {node asked : Node} {world : World} {nearTx filled : NearTransaction}
      {status : NearTxStatus} {rpcReq : Json} {bytes : List UInt8}
      (reports : Reports lib client world asked.nonce)
      (posts : Posts lib client world nearTx status filled rpcReq)
      (carried : signedBytes rpcReq = some bytes) :
      Step lib client ⟨node, some asked⟩ (.posts asked filled.nonce)
        ⟨{ node with pool := node.pool ++ [filled.nonce] }, none⟩
  | givesUp {node asked : Node} : Step lib client ⟨node, some asked⟩ .givesUp ⟨node, none⟩
  | includes {node : Node} {asked : Option Node} {nonce : UInt64} (waiting : nonce ∈ node.pool)
      (above : node.nonce < nonce) :
      Step lib client ⟨node, asked⟩ (.includes nonce) ⟨⟨nonce, node.pool.erase nonce⟩, asked⟩

/-- Before the first call. -/
def started (nonce : UInt64) : Network := ⟨⟨nonce, []⟩, none⟩

def Event.posted : Event → List UInt64
  | .posts _ nonce => [nonce]
  | _ => []

/-- The nonces of the transactions posted, in order. -/
def posted (history : List Event) : List UInt64 := history.flatMap Event.posted

theorem posted_concat (history : List Event) (event : Event) :
    posted (history ++ [event]) = posted history ++ event.posted := by
  simp [posted]

/-- At the query of a call that posts, the nonce comes back as no less than all those posted
before. -/
def CaughtUp (earlier : List Event) : Event → Prop
  | .posts asked _ => ∀ nonce ∈ posted earlier, nonce.toNat ≤ readBack asked.nonce.toNat
  | _ => True

/-! ## One call -/

theorem fill_nonce {lib : Library} {v : Json} {nearTx filled : NearTransaction} {n : Nat}
    (fill : fillAccessKey lib v nearTx = .ok filled)
    (nonce : nonceItem v = some (.number (.finite (n : ℚ)))) :
    n < 2 ^ 64 ∧ filled.nonce = UInt64.ofNat n + 1 := by
  obtain ⟨value, found, -, high⟩ := castable_of_fill fill
  rw [nonce] at found
  cases found
  have fits : n < 0x10000000000000000 := by exact_mod_cast high
  obtain ⟨blockHash, -, rest⟩ := bind_eq_ok.mp fill
  obtain ⟨read, cast, same⟩ := bind_eq_ok.mp rest
  change castU64 (getNumberValue (nonceItem v)) = .ok read at cast
  rw [nonce, getNumberValue, castU64_natCast fits] at cast
  cases cast
  cases same
  exact ⟨fits, rfl⟩

/-- The value that is looked into has the nonce as it comes back. -/
theorem viewed_nonce {lib : Library} {client : Client} {world : World} {nonce : UInt64}
    {rpcRes : Json} (reports : Reports lib client world nonce)
    (viewed : viewedKey lib client world = .ok (some rpcRes)) :
    nonceItem rpcRes = some (.number (.finite (readBack nonce.toNat : Nat))) := by
  obtain ⟨v, v', delivers, -, tripped, nonceBack⟩ := reports
  cases built : (buildRpcViewAccessKey client.signer.accountId client.signer.b58PubKey
      world.viewKeyAnswers).1 with
  | none =>
    rw [viewedKey_unbuilt built] at viewed
    cases viewed
  | some req =>
    rw [viewedKey_delivered delivers built, Option.bind_some, tripped] at viewed
    dsimp only at viewed
    split at viewed
    · cases viewed
    · cases viewed
      exact nonceBack

/-- The nonce filled in is one more than what comes back, without a wrap. -/
theorem filled_nonce {lib : Library} {rpcRes : Json} {nearTx filled : NearTransaction} {n : Nat}
    (fill : fillAccessKey lib rpcRes nearTx = .ok filled)
    (nonce : nonceItem rpcRes = some (.number (.finite (readBack n : Nat)))) :
    filled.nonce.toNat = readBack n + 1 := by
  obtain ⟨fits, next⟩ := fill_nonce fill nonce
  have room := readBack_add_one_lt fits
  calc
    filled.nonce.toNat = (UInt64.ofNat (readBack n) + 1).toNat := by rw [next]
    _ = (readBack n + 1) % 2 ^ 64 := by
      rw [UInt64.toNat_add, UInt64.toNat_ofNat_of_lt' fits]
      rfl
    _ = readBack n + 1 := Nat.mod_eq_of_lt room

theorem posted_nonce {lib : Library} {client : Client} {world : World}
    {nearTx filled : NearTransaction} {status : NearTxStatus} {rpcReq : Json} {nonce : UInt64}
    (reports : Reports lib client world nonce)
    (posts : Posts lib client world nearTx status filled rpcReq) :
    filled.nonce.toNat = readBack nonce.toNat + 1 := by
  obtain ⟨account, pubKey, rpcRes, -, -, viewed, fill, -⟩ := posts_filled posts
  exact filled_nonce fill (viewed_nonce reports viewed)

/-! ## All runs -/

theorem step_posted {lib : Library} {client : Client} {before after : Network} {event : Event}
    (step : Step lib client before event after) (history : List Event) :
    (posted (history ++ [event])).Pairwise (· < ·) ↔
      (posted history).Pairwise (· < ·) ∧ CaughtUp history event := by
  rw [posted_concat]
  cases step with
  | query => simp [Event.posted, CaughtUp]
  | givesUp => simp [Event.posted, CaughtUp]
  | includes waiting above => simp [Event.posted, CaughtUp]
  | posts reports posts carried =>
    have next := posted_nonce reports posts
    simp only [Event.posted, CaughtUp, List.pairwise_append, List.pairwise_singleton, true_and,
      List.mem_singleton, forall_eq, UInt64.lt_iff_toNat_lt, next, Nat.lt_succ_iff]

/-- The nonces posted in a run are strictly increasing exactly when every query that leads to
a post finds the node caught up. -/
theorem posted_increasing_iff {lib : Library} {client : Client} {first : UInt64}
    {history : List Event} {network : Network}
    (run : Reaches (Step lib client) (started first) history network) :
    (posted history).Pairwise (· < ·) ↔ Each CaughtUp history := by
  refine @Reaches.invariant _ _ _ _
    (fun history _ => (posted history).Pairwise (· < ·) ↔ Each CaughtUp history) ?_ ?_ _ _ run
  · exact ⟨fun _ => each_nil _, fun _ => List.Pairwise.nil⟩
  · intro history before event after ih step
    rw [step_posted step, each_concat, ih]

/-! ## Waiting transactions -/

/-- Every posted transaction waits in the pool or has been overtaken, and nothing else waits. -/
structure Tracks (history : List Event) (node : Node) : Prop where
  waits : ∀ nonce ∈ posted history, nonce ≤ node.nonce ∨ nonce ∈ node.pool
  ours : ∀ nonce ∈ node.pool, nonce ∈ posted history

/-- So it is for the node, and for the node as the call under way has found it. -/
structure Tracked (history : List Event) (network : Network) : Prop where
  node : Tracks history network.node
  asked : ∀ asked, network.asked = some asked → Tracks history asked

theorem Tracks.quiet {history : List Event} {node : Node} (tracks : Tracks history node)
    {event : Event} (silent : event.posted = []) : Tracks (history ++ [event]) node := by
  have same : posted (history ++ [event]) = posted history := by
    rw [posted_concat, silent, List.append_nil]
  exact ⟨by rw [same]; exact tracks.waits, by rw [same]; exact tracks.ours⟩

theorem Tracks.posts {history : List Event} {node : Node} (tracks : Tracks history node)
    (asked : Node) (nonce : UInt64) :
    Tracks (history ++ [.posts asked nonce]) { node with pool := node.pool ++ [nonce] } := by
  constructor
  · intro other member
    rw [posted_concat] at member
    rcases List.mem_append.mp member with earlier | new
    · rcases tracks.waits other earlier with overtaken | waits
      · exact Or.inl overtaken
      · exact Or.inr (List.mem_append_left _ waits)
    · exact Or.inr (List.mem_append_right _ new)
  · intro other member
    rw [posted_concat]
    rcases List.mem_append.mp member with waits | new
    · exact List.mem_append_left _ (tracks.ours other waits)
    · exact List.mem_append_right _ new

theorem Tracks.includes {history : List Event} {node : Node} (tracks : Tracks history node)
    {nonce : UInt64} (above : node.nonce < nonce) :
    Tracks history ⟨nonce, node.pool.erase nonce⟩ := by
  constructor
  · intro other member
    rcases tracks.waits other member with overtaken | waits
    · exact Or.inl (UInt64.le_trans overtaken (UInt64.le_of_lt above))
    · by_cases same : other = nonce
      · exact Or.inl (by rw [same]; exact UInt64.le_refl nonce)
      · exact Or.inr ((List.mem_erase_of_ne same).mpr waits)
  · intro other member
    exact tracks.ours other (List.mem_of_mem_erase member)

theorem tracked_step {lib : Library} {client : Client} {history : List Event}
    {before after : Network} {event : Event} (tracked : Tracked history before)
    (step : Step lib client before event after) : Tracked (history ++ [event]) after := by
  obtain ⟨node, asked⟩ := tracked
  cases step with
  | query =>
    refine ⟨node.quiet rfl, ?_⟩
    intro found same
    cases same
    exact node.quiet rfl
  | posts reports posts carried =>
    refine ⟨node.posts _ _, ?_⟩
    intro found same
    cases same
  | givesUp =>
    refine ⟨node.quiet rfl, ?_⟩
    intro found same
    cases same
  | includes waiting above =>
    exact ⟨(node.includes above).quiet rfl, fun found same => (asked found same).quiet rfl⟩

theorem tracked_started (first : UInt64) : Tracked [] (started first) := by
  refine ⟨⟨?_, ?_⟩, ?_⟩
  · intro nonce member
    cases member
  · intro nonce member
    cases member
  · intro asked same
    cases same

/-- At the query of a call that posts, no transaction is waiting. -/
def Settled : Event → Prop
  | .posts asked _ => ∀ nonce ∈ asked.pool, nonce ≤ asked.nonce
  | _ => True

/-- The access key's nonce is in the range where JSON numbers are exact. -/
def InExactRange : Event → Prop
  | .posts asked _ => asked.nonce.toNat < 2 ^ 52
  | _ => True

theorem caughtUp_iff_settled {earlier : List Event} {asked : Node} (tracks : Tracks earlier asked)
    (nonce : UInt64) (moderate : asked.nonce.toNat < 2 ^ 52) :
    CaughtUp earlier (.posts asked nonce) ↔ Settled (.posts asked nonce) := by
  simp only [CaughtUp, Settled, readBack_of_lt moderate, ← UInt64.le_iff_toNat_le]
  constructor
  · intro caught other waits
    exact caught other (tracks.ours other waits)
  · intro settled other member
    rcases tracks.waits other member with overtaken | waits
    · exact overtaken
    · exact settled other waits

/-- Below 2^52 the condition is that no call which posts has asked while a transaction of an
earlier one was waiting. -/
theorem posted_increasing_iff_settled {lib : Library} {client : Client} {first : UInt64}
    {history : List Event} {network : Network}
    (run : Reaches (Step lib client) (started first) history network) :
    (∀ event ∈ history, InExactRange event) →
      ((posted history).Pairwise (· < ·) ↔ ∀ event ∈ history, Settled event) := by
  refine (@Reaches.invariant _ _ _ _ (fun history network => Tracked history network ∧
    ((∀ event ∈ history, InExactRange event) →
      ((posted history).Pairwise (· < ·) ↔ ∀ event ∈ history, Settled event))) ?_ ?_ _ _ run).2
  · exact ⟨tracked_started first, fun _ => by simp [posted]⟩
  · rintro history before event after ⟨known, ih⟩ step
    refine ⟨tracked_step known step, ?_⟩
    simp only [List.forall_mem_append, List.forall_mem_singleton]
    intro moderate
    obtain ⟨earlier, new⟩ := moderate
    rw [step_posted step, ih earlier]
    apply and_congr_right
    intro _
    cases step with
    | posts reports posts carried =>
      exact caughtUp_iff_settled (known.asked _ rfl) _ new
    | query => exact Iff.rfl
    | givesUp => exact Iff.rfl
    | includes waiting above => exact Iff.rfl

/-! ## Two runs of two calls -/

section Calls
variable {lib : Library} {body : CString} {v : Json}

theorem reports_granting {v' : Json} {nonce : UInt64} {back : Nat}
    (arrives : resultOrError (lib.cJSONParse body) = some v)
    (tripped : (lib.cJSONPrint v).bind lib.cJSONParse = some v')
    (item : nonceItem v = some (.number (.finite nonce.toNat)))
    (item' : nonceItem v' = some (.number (.finite back))) (small : nonce.toNat < 2 ^ 53)
    (same : readBack nonce.toNat = back) :
    Reports lib someClient (grantingWorld (fun _ => true) body 200) nonce := by
  have delivers := grantingWorld_delivers someClient_named.address arrives (fun _ => true) 200
  have once : strtod nonce.toNat = nonce.toNat := strtod_of_lt small
  refine ⟨v, v', delivers, ?_, tripped, ?_⟩
  · rw [once]
    exact item
  · rw [same]
    exact item'

/-- A call that gets the nonce posts the next one. -/
theorem posts_next {node asked : Node} (arrives : resultOrError (lib.cJSONParse body) = some v)
    (trips : RoundTrips lib v) (typed : WellTyped 200 v keyHash)
    (item : nonceItem v = some (.number (.finite asked.nonce.toNat)))
    (moderate : asked.nonce.toNat < 2 ^ 52) :
    Step lib someClient ⟨node, some asked⟩ (.posts asked (asked.nonce + 1))
      ⟨{ node with pool := node.pool ++ [asked.nonce + 1] }, none⟩ := by
  have low : (-1 : ℚ) < asked.nonce.toNat := lt_of_lt_of_le (by norm_num) (Nat.cast_nonneg _)
  have high : (asked.nonce.toNat : ℚ) < 0x10000000000000000 := by exact_mod_cast asked.nonce.toNat_lt
  have tripped : (lib.cJSONPrint v).bind lib.cJSONParse = some v := by
    obtain ⟨text, printed, parsed⟩ := trips
    rw [printed, Option.bind_some, parsed]
  have reports := reports_granting arrives tripped item item (by omega) (readBack_of_lt moderate)
  obtain ⟨filled, rpcReq, -, posts, carried⟩ := posts_granting
    (grantingWorld_granting (fun _ => true) body 200) someClient_named
    (grantingWorld_delivers someClient_named.address arrives (fun _ => true) 200) trips typed item
    low high emptyCall_moderate .none
  have next : filled.nonce = asked.nonce + 1 := by
    apply UInt64.toNat_inj.mp
    rw [posted_nonce reports posts, readBack_of_lt moderate, UInt64.toNat_add]
    change asked.nonce.toNat + 1 = (asked.nonce.toNat + 1) % 2 ^ 64
    omega
  have step := @Step.posts lib someClient node asked _ _ _ _ _ _ reports posts carried
  rw [next] at step
  exact step

end Calls

def valueWithNonce (n : Nat) : Json :=
  .object [(.lit "nonce", .number (.finite n)), (.lit "block_hash", .string keyHash)]

theorem valueWithNonce_wellTyped (n : Nat) : WellTyped 200 (valueWithNonce n) keyHash where
  code := rfl
  isObject := ⟨_, rfl⟩
  noError := rfl
  nonce := ⟨_, rfl⟩
  hashString := rfl
  hashText := keyValue_wellTyped.hashText

/-- The reply when the transaction with the nonce 8 is included. -/
def eightBody : CString :=
  .lit "\x7b\"result\":\x7b\"nonce\":8,\"block_hash\":\"11111111111111111111111111111111\"\x7d\x7d"

def eightText : CString :=
  .lit "\x7b\n\t\"nonce\":\t8,\n\t\"block_hash\":\t\"11111111111111111111111111111111\"\n\x7d"

/-- A library that reads and prints both replies. -/
def nodeLibrary : Library :=
  { keyLibrary with
    cJSONParse := fun s =>
      if s = eightBody then some (.object [(.lit "result", valueWithNonce 8)])
      else if s = eightText then some (valueWithNonce 8)
      else keyLibrary.cJSONParse s
    cJSONPrint := fun v =>
      if getNumberValue (nonceItem v) = .finite 8 then some eightText else some keyText }

theorem posts_eight (node : Node) (pool : List UInt64) :
    Step nodeLibrary someClient ⟨node, some ⟨7, pool⟩⟩ (.posts ⟨7, pool⟩ 8)
      ⟨{ node with pool := node.pool ++ [8] }, none⟩ :=
  @posts_next nodeLibrary keyBody keyValue node ⟨7, pool⟩ rfl ⟨keyText, rfl, rfl⟩
    keyValue_wellTyped rfl (show (7 : UInt64).toNat < 2 ^ 52 by decide)

theorem posts_nine (node : Node) (pool : List UInt64) :
    Step nodeLibrary someClient ⟨node, some ⟨8, pool⟩⟩ (.posts ⟨8, pool⟩ 9)
      ⟨{ node with pool := node.pool ++ [9] }, none⟩ :=
  @posts_next nodeLibrary eightBody (valueWithNonce 8) node ⟨8, pool⟩ rfl ⟨eightText, rfl, rfl⟩
    (valueWithNonce_wellTyped 8) rfl (show (8 : UInt64).toNat < 2 ^ 52 by decide)

theorem once_run : Reaches (Step nodeLibrary someClient) (started 7) [.query, .posts ⟨7, []⟩ 8]
    ⟨⟨7, [8]⟩, none⟩ :=
  (Reaches.start.next .query).next (posts_eight ⟨7, []⟩ [])

/-- The second call asks when the first transaction is included. -/
theorem posted_increasing_twice :
    let history : List Event :=
      [.query, .posts ⟨7, []⟩ 8, .includes 8, .query, .posts ⟨8, []⟩ 9]
    posted history = [8, 9] ∧ ((posted history).Pairwise (· < ·) ↔ Each CaughtUp history) := by
  intro history
  have run : Reaches (Step nodeLibrary someClient) (started 7) history ⟨⟨8, [9]⟩, none⟩ :=
    ((once_run.next (.includes (by decide) (by decide))).next .query).next (posts_nine ⟨8, []⟩ [])
  exact ⟨rfl, posted_increasing_iff run⟩

/-- The second call asks before the first transaction is included, and posts its nonce again. -/
theorem same_nonce_posted_twice :
    ¬ ∀ lib client first history network,
      Reaches (Step lib client) (started first) history network →
        (posted history).Pairwise (· < ·) := by
  intro increasing
  have run : Reaches (Step nodeLibrary someClient) (started 7)
      [.query, .posts ⟨7, []⟩ 8, .query, .posts ⟨7, [8]⟩ 8] ⟨⟨7, [8, 8]⟩, none⟩ :=
    (once_run.next .query).next (posts_eight ⟨7, [8]⟩ [8])
  exact absurd (increasing _ _ _ _ _ run) (by decide)

end CNear.NonceRuns
