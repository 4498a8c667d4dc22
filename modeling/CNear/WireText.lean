import CNear.JsonRoundTrip
import CNear.NonceRuns
import CNear.NumberTripExact
import CNear.PostedBytes

/-! The two texts on the wire. Whatever is posted is a JSON text that says the request and
nothing else; whatever a reply says is what the client goes on with, however the body is cut
into chunks and laid out, with the bytes of a contract and the digits of a nonce. -/

namespace CNear.WireText
open AccessKeyReply Buffer CallResult CJson Exchange JsonGrammar JsonParse JsonPrint JsonRoundTrip
  JsonText NonceRuns NumberTrip NumberText PostedBytes Queries Requests SendTx Transaction
  TransactionFormat

/-! ## Requests -/

/-- Any reader of JSON, told how deep a text may be nested, reads the text as this value. -/
structure Says (text : List UInt8) (json : Json) : Prop where
  spelled : Spells json text
  unique : ∀ other, Spells other text → nesting other ≤ nestingLimit → other = json

/-- What is spelled is read. -/
theorem parseText_of_spells {document : CString} {json : Json} (spelled : Spells json document.bytes)
    (shallow : nesting json ≤ nestingLimit) : parseText document = some json :=
  parseText_of_takes (takes_spelled spelled shallow)

/-- A value that printing and parsing keep. -/
structure Kept (json : Json) : Prop where
  doubles : Doubles json
  same : trip json = json
  shallow : nesting json ≤ nestingLimit

theorem Kept.said {json : Json} (kept : Kept json) (format : Bool) :
    Says (render format 0 json) json := by
  have spelled := spells_render format 0 json kept.doubles
  rw [kept.same] at spelled
  refine ⟨spelled, ?_⟩
  intro other spelled' bound
  have read := @parseText_of_spells (textOf format json) other spelled' bound
  have read' := @parseText_of_spells (textOf format json) json spelled kept.shallow
  exact Option.some.inj (read.symm.trans read')

/-- A list of strings under their names. -/
def stringMembers (strings : List (CString × CString)) : List (CString × Json) :=
  strings.map fun entry => (entry.1, .string entry.2)

theorem tripMembers_strings (strings : List (CString × CString)) :
    tripMembers (stringMembers strings) = stringMembers strings := by
  induction strings with
  | nil => rfl
  | cons entry strings ih => exact congrArg ((entry.1, Json.string entry.2) :: ·) ih

theorem doublesMembers_strings (strings : List (CString × CString)) :
    DoublesMembers (stringMembers strings) := by
  induction strings with
  | nil => trivial
  | cons entry strings ih => exact ⟨trivial, ih⟩

theorem nestingOfMembers_strings (strings : List (CString × CString)) :
    nestingOfMembers (stringMembers strings) = 0 := by
  induction strings with
  | nil => rfl
  | cons entry strings ih =>
    change max 0 (nestingOfMembers (stringMembers strings)) = 0
    rw [ih]
    rfl

theorem kept_bare (method : CString) : Kept (bare method) := by
  have shape : bare method = .object (stringMembers (baseMembers method)) := rfl
  rw [shape]
  constructor
  · exact doublesMembers_strings _
  · rw [trip, tripMembers_strings]
  · rw [nesting, nestingOfMembers_strings]
    decide

theorem tripMembers_append (first second : List (CString × Json)) :
    tripMembers (first ++ second) = tripMembers first ++ tripMembers second := by
  induction first with
  | nil => rfl
  | cons member first ih => exact congrArg ((member.1, trip member.2) :: ·) ih

theorem kept_complete (method : CString) (strings : List (CString × CString)) :
    Kept (complete method strings) := by
  have shape : complete method strings = .object (stringMembers (baseMembers method) ++
      [(.lit "params", .object (stringMembers strings))]) := rfl
  rw [shape]
  constructor
  · exact (doublesMembers_append _ _ _).mpr
      ⟨doublesMembers_strings _, doublesMembers_strings strings⟩
  · rw [trip, tripMembers_append, tripMembers_strings]
    change Json.object (_ ++ [(_, Json.object (tripMembers (stringMembers strings)))]) = _
    rw [tripMembers_strings]
  · rw [nesting, nestingOfMembers_append, nesting, nestingOfMembers_strings,
      nestingOfMembers_strings]
    decide

/-- What a builder returns is kept, whichever allocations were refused. -/
theorem kept_built {request : RpcRequest} {answers : Answers} {json : Json}
    (built : (request.build answers).1 = some json) : Kept json := by
  by_cases nameRefused : request.NameRefused answers
  · rw [bare_of_nameRefused nameRefused] at built
    cases built
    exact kept_bare request.method
  · obtain ⟨strings, -, same⟩ := whole_of_built nameRefused built
    rw [same]
    exact kept_complete request.method strings

/-- The request of a posted transaction is one that was built. -/
theorem kept_posted {lib : Library} {client : Client} {world : World}
    {nearTx filled : NearTransaction} {status : NearTxStatus} {rpcReq : Json}
    (posts : Posts lib client world nearTx status filled rpcReq) : Kept rpcReq := by
  rcases prepareTx_cases posts.prepared with ⟨-, -, none⟩ | ⟨rpcRes, viewed, fill, request⟩
  · cases none
  · obtain ⟨account, -, hasAccount, -⟩ := viewedKey_account viewed
    have signer : filled.signerId = some account := by
      rw [fillAccessKey_frame fill]
      exact hasAccount
    rw [signedRequest_eq lib client world status signer, Except.ok.injEq] at request
    exact @kept_built (.sendTx _ _) _ _ request

/-- What is printed of such a value says it and nothing else. -/
theorem Kept.printed {json : Json} {sizeT : SizeT} (kept : Kept json)
    (counted : (render false 0 json).length + 1 < sizeT.wrap) (heap : Heap) :
    ∃ result final, JsonPrint.printed sizeT json false heap = .ok (result, final) ∧
      final.live = heap.live + heldText result ∧
      (heap.answers.Plenty → (result.isSome = true ↔ Sizeable false json)) ∧
      ∀ text, result = some text → Says text json := by
  obtain ⟨result, final, ran, live, there, shape⟩ := printed_cases kept.doubles counted heap
  refine ⟨result, final, ran, live, there, ?_⟩
  intro text came
  rw [shape text came]
  exact kept.said false

/-! ## Replies -/

/-- The transfer ends, and its body is a text of the value. The body may be cut into any chunks,
begin with a byte order mark and have whitespace before the text and any bytes behind it; what
follows a number must not go on with it. -/
structure Replies (url : Option CString) (transfer : Transfer) (json : Json) : Prop where
  completes : Completes url transfer
  quiet : ∀ chunk ∈ transfer.chunks, ¬ Noticed chunk
  spelled : ∃ mark gap text rest, transfer.body = mark ++ (gap ++ (text ++ rest)) ∧
    (mark = [] ∨ mark = utf8Bom) ∧ Blank gap ∧ Spells json text ∧ Follows json rest
  shallow : nesting json ≤ nestingLimit

section Replies
variable {url : Option CString} {transfer : Transfer} {json v : Json}

/-- The value is what `cJSON_Parse` makes of the buffer. -/
theorem Replies.received (replies : Replies url transfer json) :
    ∃ buffer body, receive url transfer = .reply buffer ∧
      CString.ofBlock buffer.memory = .ok body ∧ parseText body = some json := by
  obtain ⟨mark, gap, text, rest, shape, marked, blank, spelled, follows⟩ := replies.spelled
  obtain ⟨c, tail, start, -⟩ := starts_value spelled
  have nonempty : transfer.body ≠ [] := by
    intro none
    rw [none, start] at shape
    have length := congrArg List.length shape
    simp only [List.length_nil, List.length_append, List.length_cons] at length
    omega
  have got := receive_unnoticed replies.completes replies.quiet
  rw [gathered_quiet replies.quiet nonempty, CurlMemory.data_malloc, List.nil_append] at got
  have bytes := @upToNul_spelled json mark gap text rest marked blank spelled
  rw [← shape] at bytes
  exact ⟨_, _, got, ofBlock_upToNul transfer.body,
    parseText_spelled bytes marked blank spelled follows.upToNul replies.shallow⟩

theorem doubles_of_member {name : CString} (member : HasMember json name v) (doubles : Doubles json)
    (shallow : nesting json ≤ nestingLimit) : Doubles v ∧ nesting v ≤ nestingLimit := by
  obtain ⟨before, behind, rfl, -⟩ := member
  rw [nesting] at shallow
  change DoublesMembers _ at doubles
  have inside : ∀ before, DoublesMembers (before ++ (name, v) :: behind) →
      nestingOfMembers (before ++ (name, v) :: behind) + 1 ≤ nestingLimit →
      Doubles v ∧ nesting v ≤ nestingLimit := by
    intro before
    induction before with
    | nil =>
      intro doubles shallow
      change max (nesting v) (nestingOfMembers behind) + 1 ≤ nestingLimit at shallow
      exact ⟨doubles.1, by omega⟩
    | cons first before ih =>
      intro doubles shallow
      change max (nesting first.2) (nestingOfMembers (before ++ (name, v) :: behind)) + 1 ≤
        nestingLimit at shallow
      exact ih doubles.2 (by omega)
  exact inside before doubles shallow

/-- The result of a reply is a value that printing and parsing keep. -/
theorem Replies.result (replies : Replies url transfer json)
    (member : HasMember json (.lit "result") v) : Doubles v ∧ nesting v ≤ nestingLimit := by
  obtain ⟨buffer, body, -, -, parsed⟩ := replies.received
  obtain ⟨shallow, doubles⟩ := parseText_sound parsed
  exact doubles_of_member member doubles shallow

/-- What a contract returns arrives, where memory is granted and an `int` counts the bytes and the
text of the result: any text of any reply that says these bytes is decoded to them. -/
theorem replied_bytes (lib : Library) (heap : (size : Nat) → Block size) {account method : CString}
    {args : CString} {answers : Answers} {bytes : List UInt8} (granted : ∀ i, answers i = true)
    (room : args.strlen ≤ Base64.allocationSize lib.sizeT.wrap args.strlen)
    (replies : Replies url transfer json) (outer : HasMember json (.lit "result") v)
    (inner : HasMember v (.lit "result") (.array (bytes.map byteNumber)))
    (sizeable : Sizeable true v) (short : bytes.length < 0x7fffffff) :
    ∃ response posted,
      nearRpcCallFunction (withCJson lib) url (some account) (some method) (some args) true answers
        transfer = .ok (response, some posted) ∧
      nearDecodeResult (withCJson lib) true heap response = .ok (some (bytes ++ [0], bytes.length)) := by
  obtain ⟨buffer, body, got, text, parsed⟩ := replies.received
  obtain ⟨doubles, shallow⟩ := replies.result outer
  exact bytesArrive (withCJson lib) heap url account method args answers transfer bytes granted room
    ⟨buffer, body, json, v, got, text, parsed, outer, inner, reprints lib doubles shallow sizeable⟩
    short

theorem kept_bytes (bytes : List UInt8) : Kept (.array (bytes.map byteNumber)) := by
  have double : ∀ byte : UInt8, IsDouble (.finite byte.toNat) := by
    intro byte
    have small := byte.toNat_lt
    exact isDouble_natCast (strtod_of_lt (by omega)) (by omega)
  have items : DoublesItems (bytes.map byteNumber) ∧
      tripItems (bytes.map byteNumber) = bytes.map byteNumber ∧
      nestingOfItems (bytes.map byteNumber) = 0 := by
    induction bytes with
    | nil => exact ⟨trivial, rfl, rfl⟩
    | cons byte bytes ih =>
      obtain ⟨doubles, same, flat⟩ := ih
      have whole : (byte.toNat : ℚ) = valueInt (.finite byte.toNat) := by
        rw [valueInt_small byte.toNat_lt, Int.cast_natCast]
      refine ⟨⟨double byte, doubles⟩, ?_, ?_⟩
      · change Json.number (reread byte.toNat) :: tripItems _ = _
        rw [reread_int (double byte) whole, same]
        rfl
      · change max 0 _ = 0
        rw [flat]
        rfl
  obtain ⟨doubles, same, flat⟩ := items
  refine ⟨doubles, ?_, ?_⟩
  · rw [trip, same]
  · rw [nesting, flat]
    decide

/-! ## Nonces -/

theorem getObjectItemBy_trip (same : CString → CString → Bool) (name : CString) (v : Json) :
    getObjectItemBy same name (some (trip v)) = (getObjectItemBy same name (some v)).map trip := by
  cases v with
  | number number => cases number <;> rfl
  | object members =>
    rw [trip, getObjectItemBy, getObjectItemBy]
    induction members with
    | nil => rfl
    | cons member members ih =>
      obtain ⟨key, item⟩ := member
      rw [tripMembers, List.find?_cons, List.find?_cons]
      simp only
      cases same name key with
      | true => rfl
      | false => exact ih
  | _ => rfl

/-- The query gets the result of the reply. -/
theorem delivers_of_replies {client : Client} {world : World} (lib : Library)
    (replies : Replies client.rpcUrl world.viewKeyTransfer json)
    (code : world.viewKeyTransfer.responseCode = 200) (member : HasMember json (.lit "result") v) :
    Delivers (withCJson lib) client world 200 (some v) := by
  obtain ⟨buffer, body, got, text, parsed⟩ := replies.received
  have detached : resultOrError (some json) = some v := by
    rw [resultOrError, detachItemFromObjectCaseSensitive,
      (getObjectItemCaseSensitive_eq_some_iff json _ v).mpr member]
  intro data
  refine ⟨client.rpcUrl.map fun _ => data, ?_⟩
  rw [execCurlRpcCall, got]
  simp only [text, ok_bind]
  change Except.ok (Outcome.mk _ world.viewKeyTransfer.responseCode
    (resultOrError (parseText body))) = _
  rw [parsed, detached, code]

/-- The response is printed and parsed once more. -/
theorem printed_result (lib : Library) (replies : Replies url transfer json)
    (member : HasMember json (.lit "result") v) (sizeable : Sizeable true v) :
    ((withCJson lib).cJSONPrint v).bind (withCJson lib).cJSONParse = some (trip v) := by
  obtain ⟨doubles, shallow⟩ := replies.result member
  change (printText lib.sizeT true v).bind parseText = some (trip v)
  rw [printText_eq lib.sizeT doubles sizeable]
  exact parseText_textOf doubles shallow

/-- A reply that says the nonce in any digits reports it. -/
theorem reports_of_replies {lib : Library} {client : Client} {world : World} {nonce : UInt64}
    (replies : Replies client.rpcUrl world.viewKeyTransfer json)
    (code : world.viewKeyTransfer.responseCode = 200) (member : HasMember json (.lit "result") v)
    (digits : nonceItem v = some (.number (toDouble nonce.toNat))) (sizeable : Sizeable true v) :
    Reports (withCJson lib) client world nonce := by
  have small : nonce.toNat < 2 ^ 66 := nonce.toNat_lt.trans (by decide)
  rw [toDouble_natCast small] at digits
  refine ⟨v, trip v, delivers_of_replies lib replies code member, digits,
    printed_result lib replies member sizeable, ?_⟩
  rw [nonceItem, getObjectItemCaseSensitive, getObjectItemBy_trip]
  change (nonceItem v).map trip = _
  rw [digits, Option.map_some, trip, reread_natCast nonce.toNat_lt]

/-- What the call looks into is the result as it comes back. -/
theorem viewed_of_replies {lib : Library} {client : Client} {world : World} {rpcRes : Json}
    (replies : Replies client.rpcUrl world.viewKeyTransfer json)
    (code : world.viewKeyTransfer.responseCode = 200) (member : HasMember json (.lit "result") v)
    (sizeable : Sizeable true v)
    (viewed : viewedKey (withCJson lib) client world = .ok (some rpcRes)) : rpcRes = trip v := by
  have delivers := delivers_of_replies lib replies code member
  cases built : (buildRpcViewAccessKey client.signer.accountId client.signer.b58PubKey
      world.viewKeyAnswers).1 with
  | none =>
    rw [viewedKey_unbuilt built] at viewed
    cases viewed
  | some req =>
    rw [viewedKey_delivered delivers built, Option.bind_some,
      printed_result lib replies member sizeable] at viewed
    dsimp only at viewed
    split at viewed
    · cases viewed
    · cases viewed
      rfl

/-- A block hash of 32 bytes is decoded into the transaction. -/
theorem posted_blockHash {lib : Library} {client : Client} {world : World}
    {nearTx filled : NearTransaction} {status : NearTxStatus} {rpcReq : Json} {hash : CString}
    (posts : Posts (withCJson lib) client world nearTx status filled rpcReq)
    (replies : Replies client.rpcUrl world.viewKeyTransfer json)
    (code : world.viewKeyTransfer.responseCode = 200) (member : HasMember json (.lit "result") v)
    (sizeable : Sizeable true v) (hashString : hashItem v = some (.string hash))
    (text : HashText hash) : filled.blockHash.bytes = Base58.decode hash.bytes := by
  obtain ⟨-, -, rpcRes, -, -, viewed, fill, -⟩ := posts_filled posts
  rw [viewed_of_replies replies code member sizeable viewed] at fill
  have found : hashItem (trip v) = some (.string hash) := by
    rw [hashItem, getObjectItemCaseSensitive, getObjectItemBy_trip]
    change (hashItem v).map trip = _
    rw [hashString]
    rfl
  change getObjectItemCaseSensitive (some (trip v)) (.lit "block_hash") = _ at found
  obtain ⟨blockHash, decoded, rest⟩ := bind_eq_ok.mp fill
  obtain ⟨nonce, -, same⟩ := bind_eq_ok.mp rest
  obtain ⟨length, final, ran, bytes⟩ := base58Decode_hash (withCJson lib).charSign text
    (fillSigner client.signer nearTx).blockHash
  rw [found, getStringValue, decodeHash, ran] at decoded
  cases decoded
  cases same
  exact bytes

end Replies

/-! ## From text to text -/

/-- A call from text to text. Whatever spelling of an access key the reply has and however it was cut
into chunks, any JSON reader takes from the posted text the signed bytes, which are the complete
transaction if no growth was refused; its nonce is the next one exactly if the nonce of the reply
survives, and its block hash is that of the reply. -/
theorem posted_text_of_replies {lib : Library} {client : Client} {world : World}
    {nearTx filled : NearTransaction} {status : NearTxStatus} {rpcReq json v : Json}
    {bytes : List UInt8} {nonce : UInt64} {hash : CString}
    (replies : Replies client.rpcUrl world.viewKeyTransfer json)
    (code : world.viewKeyTransfer.responseCode = 200) (member : HasMember json (.lit "result") v)
    (digits : nonceItem v = some (.number (toDouble nonce.toNat)))
    (hashString : hashItem v = some (.string hash)) (hashText : HashText hash)
    (sizeable : Sizeable true v)
    (posts : Posts (withCJson lib) client world nearTx status filled rpcReq)
    (carried : signedBytes rpcReq = some bytes)
    (counted : (render false 0 rpcReq).length + 1 < lib.sizeT.wrap) (heap : Heap) :
    (∃ result final, printed lib.sizeT rpcReq false heap = .ok (result, final) ∧
      final.live = heap.live + heldText result ∧
      (heap.answers.Plenty → (result.isSome = true ↔ Sizeable false rpcReq)) ∧
      ∀ text, result = some text → Spells rpcReq text ∧
        ∀ read, Spells read text → nesting read ≤ nestingLimit → signedBytes read = some bytes) ∧
    filled.nonce.toNat = readBack nonce.toNat + 1 ∧
    (filled.nonce.toNat = nonce.toNat + 1 ↔ Survives nonce.toNat) ∧
    filled.blockHash.bytes = Base58.decode hash.bytes ∧
    ∃ account, client.signer.accountId = some account ∧
      (Complete lib client.signer.privateKey client.signer.publicKey account filled bytes ↔
        Short account nearTx ∧ Uninterrupted account nearTx world.reallocs) := by
  have next := posted_nonce (reports_of_replies replies code member digits sizeable) posts
  obtain ⟨account, -, -, hasAccount, -, -, -, same⟩ := posts_filled posts
  have signer : filled.signerId = some account := by
    rw [same]
    exact hasAccount
  have ed25519 : filled.keyType = nearKeyTypeED25519 := by
    rw [same]
    rfl
  have complete := @signedBlob_complete_iff (withCJson lib) client.signer.privateKey
    client.signer.publicKey account filled ed25519 world.malloced world.reallocs
  rw [← posted_blob posts carried signer, short_filled same, uninterrupted_filled same] at complete
  refine ⟨?_, next, ?_, posted_blockHash posts replies code member sizeable hashString hashText,
    account, hasAccount, complete⟩
  · obtain ⟨result, final, ran, live, there, speaks⟩ := (kept_posted posts).printed counted heap
    refine ⟨result, final, ran, live, there, ?_⟩
    intro text came
    have said := speaks text came
    refine ⟨said.spelled, ?_⟩
    intro read spelled shallow
    rw [said.unique read spelled shallow]
    exact carried
  · rw [next, Nat.add_right_cancel_iff]
    exact readBack_eq_iff nonce.toNat

/-! ## Two replies -/

theorem Kept.trips {json : Json} (kept : Kept json) (lib : Library) (sizeable : Sizeable true json) :
    RoundTrips (withCJson lib) json := by
  have read := @parseText_textOf true json kept.doubles kept.shallow
  rw [kept.same] at read
  exact ⟨textOf true json, printText_eq lib.sizeT kept.doubles sizeable, read⟩

/-- An object with the result only. -/
def resultOf (v : Json) : Json := .object [(.lit "result", v)]

theorem resultOf_member (v : Json) : HasMember (resultOf v) (.lit "result") v := by
  refine ⟨[], [], rfl, ?_⟩
  intro member none
  cases none

theorem Kept.resultOf {v : Json} (kept : Kept v) (room : nesting v < nestingLimit) :
    Kept (resultOf v) where
  doubles := ⟨kept.doubles, trivial⟩
  same := by
    change Json.object [(_, trip v)] = _
    rw [kept.same]
    rfl
  shallow := by
    change max (nesting v) 0 + 1 ≤ nestingLimit
    omega

/-- The reply in one chunk. -/
theorem Kept.replies {json : Json} {url : Option CString} {transfer : Transfer} (kept : Kept json)
    (completes : Completes url transfer)
    (chunks : transfer.chunks = [⟨(textOf false json).bytes, true⟩]) : Replies url transfer json := by
  have body : transfer.body = (textOf false json).bytes := by
    rw [Transfer.body, chunks]
    exact List.append_nil _
  refine ⟨completes, ?_, ?_, kept.shallow⟩
  · apply quiet_of_granted
    intro chunk member
    rw [chunks] at member
    obtain rfl := List.mem_singleton.mp member
    rfl
  · rw [body]
    refine ⟨[], [], render false 0 json, [], (List.append_nil _).symm, Or.inl rfl, blank_nil,
      (kept.said false).spelled, ?_⟩
    intro number same c found
    cases found

theorem keyValue_kept : Kept keyValue where
  doubles := ⟨isDouble_seven, trivial, trivial⟩
  same := by
    change Json.object [(_, .number (reread 7)), _] = _
    rw [reread_seven]
    rfl
  shallow := by decide

theorem keyValue_sizeable : Sizeable true keyValue := by
  unfold Sizeable
  decide +kernel

def keyWorld : World := grantingWorld (fun _ => true) (textOf false (resultOf keyValue)) 200

def keyFilled : NearTransaction :=
  { fillSigner someClient.signer emptyCall with blockHash := Block.replicate 32 0, nonce := 8 }

theorem keyValue_filled :
    fillAccessKey (withCJson keyLibrary) keyValue (fillSigner someClient.signer emptyCall) =
      .ok keyFilled := by
  decide +kernel

theorem keyFilled_sizeable {rpcReq : Json}
    (request : signedRequest (withCJson keyLibrary) someClient keyWorld keyFilled .none =
      .ok (some rpcReq)) : Sizeable false rpcReq := by
  have sized : ((signedRequest (withCJson keyLibrary) someClient keyWorld keyFilled
      .none).toOption.join.all fun rpcReq => decide ((render false 0 rpcReq).length + 2 ≤ maxInt)) =
        true := by
    decide +kernel
  rw [request] at sized
  have room : (render false 0 rpcReq).length + 2 ≤ maxInt := of_decide_eq_true sized
  exact room

theorem posted_text_of_replies_key :
    ∃ filled rpcReq bytes text final,
      Posts (withCJson keyLibrary) someClient keyWorld emptyCall .none filled rpcReq ∧
      printed keyLibrary.sizeT rpcReq false plenty = .ok (some text, final) ∧
      (∀ read, Spells read text → nesting read ≤ nestingLimit → signedBytes read = some bytes) ∧
      filled.nonce.toNat = readBack 7 + 1 ∧ filled.blockHash.bytes = Base58.decode keyHash.bytes := by
  have replies : Replies someClient.rpcUrl keyWorld.viewKeyTransfer (resultOf keyValue) :=
    (keyValue_kept.resultOf (by decide)).replies ⟨someClient_named.address, rfl, rfl⟩ rfl
  have delivers := delivers_of_replies keyLibrary replies rfl (resultOf_member keyValue)
  obtain ⟨filled, rpcReq, fill, posts, carried⟩ := posts_granting
    (grantingWorld_granting _ _ 200) someClient_named delivers
    (keyValue_kept.trips keyLibrary keyValue_sizeable) keyValue_wellTyped rfl
    (by norm_num) (by norm_num) emptyCall_moderate .none
  rw [keyValue_filled] at fill
  obtain rfl := Except.ok.inj fill
  have sizeable : Sizeable false rpcReq := by
    rcases prepareTx_cases posts.prepared with ⟨-, -, none⟩ | ⟨rpcRes, -, -, request⟩
    · cases none
    · exact keyFilled_sizeable request
  have digits : nonceItem keyValue = some (.number (toDouble (7 : UInt64).toNat)) := by
    have exactly := toDouble_of_isDouble isDouble_seven
    change some (Json.number (.finite 7)) = some (.number (toDouble ((7 : Nat) : ℚ)))
    rw [Nat.cast_ofNat, exactly]
  obtain ⟨⟨result, final, ran, -, there, speaks⟩, next, -, hash, -⟩ :=
    posted_text_of_replies replies rfl (resultOf_member keyValue) digits rfl
      keyValue_wellTyped.hashText keyValue_sizeable posts carried (sizeable.counted _) plenty
  obtain ⟨text, rfl⟩ := Option.isSome_iff_exists.mp ((there fun _ => rfl).mpr sizeable)
  exact ⟨keyFilled, rpcReq, _, text, final, posts, ran, (speaks text rfl).2, next, hash⟩

/-- The reply begins with a byte order mark, the growth for an empty chunk is refused, and a NUL
and a digit are behind the text. -/
theorem replied_bytes_two :
    let v := resultOf (.array ([104, 105].map byteNumber))
    let transfer : Transfer :=
      { easyInit := true
        malloced := 0
        chunks := [⟨utf8Bom, true⟩, ⟨[], false⟩, ⟨32 :: (textOf false (resultOf v)).bytes, true⟩,
          ⟨[0, 49], true⟩]
        ended := curleOk
        responseCode := 200 }
    ∃ response posted,
      nearRpcCallFunction (withCJson keyLibrary) (some (.lit "http://localhost"))
        (some (.lit "contract.near")) (some (.lit "greet")) (some (.lit "{}")) true
        (fun _ => true) transfer = .ok (response, some posted) ∧
      nearDecodeResult (withCJson keyLibrary) true (Block.replicate · 0) response =
        .ok (some ([104, 105, 0], 2)) := by
  intro v transfer
  have inner : Kept v := (kept_bytes [104, 105]).resultOf (by decide)
  have outer : Kept (resultOf v) := inner.resultOf (by decide)
  have sizeable : Sizeable true v := by
    unfold Sizeable
    decide +kernel
  have replies : Replies (some (.lit "http://localhost")) transfer (resultOf v) := by
    refine ⟨⟨by simp, rfl, rfl⟩, ?_, ?_, outer.shallow⟩
    · simp [transfer, Noticed]
    · refine ⟨utf8Bom, [32], (textOf false (resultOf v)).bytes, [0, 49], ?_, Or.inr rfl, ?_,
        (outer.said false).spelled, ?_⟩
      · simp [transfer, Transfer.body]
      · exact fun c member => Or.inr (Or.inr (Or.inr (List.mem_singleton.mp member)))
      · intro number impossible
        cases impossible
  exact replied_bytes keyLibrary (Block.replicate · 0) (fun _ => rfl) (by decide +kernel) replies
    (resultOf_member v) (resultOf_member _) sizeable (by decide)

end CNear.WireText
