import CNear.AccessKeyReply
import CNear.Base64Buffer

/-! `near_decode_result`: the bytes that a contract returns, from the printed reply of
`near_rpc_call_function`. The size of the array is an `int`, and so is the index; the bytes
arrive for every array that an `int` can count with one more for the terminator. -/

namespace CNear.CallResult
open AccessKeyReply Buffer CJson Exchange Queries Requests

def intMax : Int := 2147483647
def intMin : Int := -2147483648

/-- `item->valueint`, which saturates. What is read of a text is never a NaN. -/
def valueInt : Double → Int
  | .finite value =>
      if (intMax : ℚ) ≤ value then intMax
      else if value ≤ (intMin : ℚ) then intMin
      else if 0 ≤ value then ⌊value⌋ else ⌈value⌉
  | .infinite negative => if negative then intMin else intMax
  | .nan => 0

/-- `cJSON_IsNumber(val) ? val->valueint : 0`, as it is stored in a byte. -/
def elementByte : Json → UInt8
  | .number valuedouble => UInt8.ofInt (valueInt valuedouble)
  | _ => 0

/-- The count is cast to `int`. -/
def getArraySize (items : List Json) : Int := Int.bmod items.length 0x100000000

/-- An `int` and one more. -/
def incrementInt (n : Int) : Except Fault Int :=
  if n < intMax then .ok (n + 1) else .error .intOverflow

/-- `cJSON_ArrayForEach`, with `result_data[i++]` for each element. -/
def decodeElements {size : Nat} : List Json → Int → Block size → Except Fault (Int × Block size)
  | [], i, data => .ok (i, data)
  | val :: items, i, data => do
      let data ← data.store i.toNat (elementByte val)
      let i ← incrementInt i
      decodeElements items i data

/-- The loop and the terminator behind it. -/
def fillResult {size : Nat} (data : Block size) (items : List Json) : Except Fault (List UInt8) := do
  let (i, data) ← decodeElements items 0 data
  let data ← data.store i.toNat 0
  .ok data.bytes

/-- The buffer and `*out_size`. `heap` is what a fresh block of each size holds; without memory
the loop writes through `NULL`, where there is no byte. -/
def nearDecodeResult (lib : Library) (granted : Bool) (heap : (size : Nat) → Block size)
    (response : CnearResponse) : Except Fault (Option (List UInt8 × Nat)) :=
  match response.json.bind lib.cJSONParse with
  | none => .ok none
  | some rpcRes =>
      match getObjectItemCaseSensitive (some rpcRes) (.lit "result") with
      | some (.array items) => do
          let outSize := (getArraySize items % lib.sizeT.wrap).toNat
          let size ← incrementInt (getArraySize items)
          let allocated := if granted then (size % lib.sizeT.wrap).toNat else 0
          let data ← fillResult (heap allocated) items
          .ok (some (data, outSize))
      | _ => .ok none

/-! ## The loop -/

theorem incrementInt_ok {n : Int} (small : n < intMax) : incrementInt n = .ok (n + 1) := if_pos small

/-- One byte for each element, behind those that are there. -/
theorem decodeElements_begins {size : Nat} (items : List Json) {i : Nat} {data : Block size}
    {list : List UInt8} (begins : data.Begins i list) (room : i + items.length ≤ size)
    (small : (i + items.length : Int) ≤ intMax) :
    ∃ next, decodeElements items i data = .ok ((i + items.length : Nat), next) ∧
      next.Begins (i + items.length) (list ++ items.map elementByte) := by
  induction items generalizing i data list with
  | nil => exact ⟨data, rfl, by simpa using begins⟩
  | cons val items ih =>
    rw [List.length_cons] at room small
    push_cast at small
    obtain ⟨stored, storing, longer⟩ := begins.append (by omega) (elementByte val)
    have next := incrementInt_ok (n := i) (by omega)
    obtain ⟨final, ran, written⟩ := ih longer (by omega) (by push_cast; omega)
    have count : i + (val :: items).length = i + 1 + items.length := by
      rw [List.length_cons]
      omega
    refine ⟨final, ?_, ?_⟩
    · rw [decodeElements, Int.toNat_natCast, storing, ok_bind, next, ok_bind, count]
      exact ran
    · rw [count, List.map_cons, List.append_cons]
      exact written

/-- The index of a long array overflows, if no store is out of bounds before. -/
theorem decodeElements_long {size : Nat} (items : List Json) {i : Nat} (data : Block size)
    (start : (i : Int) ≤ intMax) (long : intMax < (i + items.length : Int)) :
    ∃ fault, decodeElements items i data = .error fault := by
  induction items generalizing i data with
  | nil =>
    rw [List.length_nil] at long
    omega
  | cons val items ih =>
    rw [List.length_cons] at long
    push_cast at long
    rw [decodeElements]
    by_cases inside : (i : Int).toNat < size
    · obtain ⟨stored, storing, -⟩ := Block.store_eq data (elementByte val) inside
      rw [storing, ok_bind]
      by_cases small : (i : Int) < intMax
      · rw [incrementInt_ok small, ok_bind]
        exact ih (i := i + 1) stored (by push_cast; omega) (by push_cast; omega)
      · exact ⟨.intOverflow, by rw [incrementInt, if_neg small, error_bind]⟩
    · exact ⟨.arrayIndex, by rw [Block.store_outside _ _ inside, error_bind]⟩

theorem fillResult_short {items : List Json} (short : (items.length : Int) < intMax)
    (data : Block (items.length + 1)) :
    fillResult data items = .ok (items.map elementByte ++ [0]) := by
  obtain ⟨filled, ran, written⟩ := decodeElements_begins items (Block.Begins.empty data)
    (by omega) (by push_cast; omega)
  rw [Nat.zero_add, List.nil_append] at written
  obtain ⟨final, ended, whole⟩ := written.append (by omega) 0
  have bytes : final.bytes = items.map elementByte ++ [0] := by
    rw [← whole.bytes, List.take_of_length_le (by rw [final.length_eq])]
  change (decodeElements items ((0 : Nat) : Int) data >>= _) = _
  rw [ran, ok_bind]
  simp only [Nat.zero_add, Int.toNat_natCast, ended, ok_bind, bytes]

theorem fillResult_long {size : Nat} {items : List Json} (long : intMax < items.length)
    (data : Block size) : ∃ fault, fillResult data items = .error fault := by
  obtain ⟨fault, failed⟩ := decodeElements_long items (i := 0) data (by decide) (by omega)
  refine ⟨fault, ?_⟩
  change (decodeElements items ((0 : Nat) : Int) data >>= _) = _
  rw [failed, error_bind]

/-! ## Any response -/

/-- The text of the response has this array as its result. -/
def CarriesArray (lib : Library) (response : CnearResponse) (items : List Json) : Prop :=
  ∃ json, response.json.bind lib.cJSONParse = some json ∧
    HasMember json (.lit "result") (.array items)

theorem getArraySize_small {items : List Json} (small : (items.length : Int) ≤ intMax) :
    getArraySize items = items.length := by
  unfold intMax at small
  exact bmod_of_lt (by omega)

section Decoding
variable (lib : Library) (granted : Bool) (heap : (size : Nat) → Block size)
  {response : CnearResponse} {items : List Json}

theorem nearDecodeResult_absent (absent : ¬ ∃ items, CarriesArray lib response items) :
    nearDecodeResult lib granted heap response = .ok none := by
  unfold nearDecodeResult
  cases parsed : response.json.bind lib.cJSONParse with
  | none => rfl
  | some json =>
    dsimp only
    split
    · rename_i items found
      exact absurd ⟨items, json, parsed,
        (getObjectItemCaseSensitive_eq_some_iff json _ _).mp found⟩ absent
    · rfl

theorem nearDecodeResult_array (carries : CarriesArray lib response items) :
    nearDecodeResult lib granted heap response = (do
      let size ← incrementInt (getArraySize items)
      let data ← fillResult (heap (if granted then (size % lib.sizeT.wrap).toNat else 0)) items
      .ok (some (data, (getArraySize items % lib.sizeT.wrap).toNat))) := by
  obtain ⟨json, parsed, member⟩ := carries
  have found := (getObjectItemCaseSensitive_eq_some_iff json _ _).mpr member
  rw [nearDecodeResult, parsed]
  simp only [found]

theorem nearDecodeResult_short (carries : CarriesArray lib response items)
    (short : (items.length : Int) < intMax) :
    nearDecodeResult lib true heap response =
      .ok (some (items.map elementByte ++ [0], items.length)) := by
  have wide := Base64.wide_wrap lib.sizeT
  have count := getArraySize_small short.le
  have small : items.length < 0x7fffffff := by
    unfold intMax at short
    omega
  have outSize : ((items.length : Int) % lib.sizeT.wrap).toNat = items.length := by
    rw [Int.emod_eq_of_lt (by omega) (by omega), Int.toNat_natCast]
  have allocated : (((items.length : Int) + 1) % lib.sizeT.wrap).toNat = items.length + 1 := by
    rw [Int.emod_eq_of_lt (by omega) (by omega)]
    rfl
  rw [nearDecodeResult_array lib true heap carries, count, incrementInt_ok short, ok_bind, if_pos rfl,
    outSize, allocated, fillResult_short short, ok_bind]

theorem nearDecodeResult_long (carries : CarriesArray lib response items)
    (long : intMax ≤ items.length) :
    ∃ fault, nearDecodeResult lib granted heap response = .error fault := by
  rw [nearDecodeResult_array lib granted heap carries]
  by_cases counted : (items.length : Int) = intMax
  · have count := getArraySize_small counted.le
    exact ⟨.intOverflow, by rw [incrementInt, if_neg (by omega), error_bind]⟩
  · cases sized : incrementInt (getArraySize items) with
    | error fault => exact ⟨fault, error_bind _ _⟩
    | ok size =>
      obtain ⟨fault, failed⟩ := fillResult_long (show intMax < items.length by omega)
        (heap (if granted then (size % lib.sizeT.wrap).toNat else 0))
      exact ⟨fault, by rw [ok_bind, failed, error_bind]⟩

end Decoding

/-! ## The bytes of a contract -/

/-- What `cJSON_Print` and `cJSON_Parse` keep: strings, names, orders, and integers below 256. -/
inductive Reprinted : Json → Json → Prop
  | null : Reprinted .null .null
  | bool (value : Bool) : Reprinted (.bool value) (.bool value)
  | string (valuestring : CString) : Reprinted (.string valuestring) (.string valuestring)
  | byte (n : Nat) (small : n < 256) : Reprinted (.number (.finite n)) (.number (.finite n))
  | number (valuedouble : Double) (again : Json)
      (other : ∀ n : Nat, n < 256 → valuedouble ≠ .finite n) : Reprinted (.number valuedouble) again
  | array {items again : List Json} (each : List.Forall₂ Reprinted items again) :
      Reprinted (.array items) (.array again)
  | object {members again : List (CString × Json)}
      (names : members.map Prod.fst = again.map Prod.fst)
      (each : List.Forall₂ Reprinted (members.map Prod.snd) (again.map Prod.snd)) :
      Reprinted (.object members) (.object again)

/-- The value is printed, and read back as what printing keeps of it. -/
def Reprints (lib : Library) (v : Json) : Prop :=
  ∃ text v', lib.cJSONPrint v = some text ∧ lib.cJSONParse text = some v' ∧ Reprinted v v'

/-- The first member stays the first, with what is kept of its item. -/
theorem reprinted_member {v v' item : Json} {name : CString} (again : Reprinted v v')
    (member : HasMember v name item) : ∃ item', HasMember v' name item' ∧ Reprinted item item' := by
  obtain ⟨before, behind, rfl, others⟩ := member
  cases again with
  | object names each =>
    rename_i again
    induction before generalizing again with
    | nil =>
      cases again with
      | nil => cases names
      | cons first rest =>
        simp only [List.nil_append, List.map_cons, List.cons.injEq] at names
        obtain ⟨key, value⟩ := first
        obtain rfl : name = key := names.1
        cases each with
        | cons same later => exact ⟨value, ⟨[], rest, rfl, by simp⟩, same⟩
    | cons other before ih =>
      cases again with
      | nil => cases names
      | cons first rest =>
        simp only [List.cons_append, List.map_cons, List.cons.injEq] at names
        cases each with
        | cons same later =>
          obtain ⟨item', ⟨front, back, split, apart⟩, kept⟩ := ih
            (fun member present => others member (List.mem_cons_of_mem _ present)) names.2 later
          injection split with split
          refine ⟨item', ⟨first :: front, back, by rw [split, List.cons_append], ?_⟩, kept⟩
          intro member present
          rcases List.mem_cons.mp present with rfl | inside
          · rw [← names.1]
            exact others other List.mem_cons_self
          · exact apart member inside

/-- A byte as a decimal integer. -/
def byteNumber (byte : UInt8) : Json := .number (.finite byte.toNat)

theorem elementByte_byteNumber (byte : UInt8) : elementByte (byteNumber byte) = byte := by
  have low := byte.toNat_lt
  have small : ¬ (intMax : ℚ) ≤ (byte.toNat : ℚ) := by
    rw [not_le]
    calc
      (byte.toNat : ℚ) < 256 := by exact_mod_cast low
      _ ≤ (intMax : ℚ) := by norm_num [intMax]
  have above : ¬ (byte.toNat : ℚ) ≤ (intMin : ℚ) := by
    rw [not_le]
    calc
      (intMin : ℚ) < 0 := by norm_num [intMin]
      _ ≤ (byte.toNat : ℚ) := Nat.cast_nonneg _
  have value : valueInt (.finite byte.toNat) = byte.toNat := by
    rw [valueInt, if_neg small, if_neg above, if_pos (Nat.cast_nonneg _), Int.floor_natCast]
  rw [byteNumber, elementByte, value]
  rw [UInt8.ofInt, Int.emod_eq_of_lt (by omega) (by omega), Int.toNat_natCast, UInt8.ofNat_toNat]

theorem reprinted_small {item again : Json} (same : Reprinted item again) {n : Nat}
    (small : n < 256) (number : item = .number (.finite n)) : again = item := by
  cases same with
  | byte m _ => rfl
  | number valuedouble again other =>
    injection number with number
    exact absurd number (other n small)
  | _ => cases number

theorem reprinted_bytes {bytes : List UInt8} {v : Json}
    (again : Reprinted (.array (bytes.map byteNumber)) v) : v = .array (bytes.map byteNumber) := by
  cases again with
  | array each =>
    rename_i again
    congr 1
    induction bytes generalizing again with
    | nil =>
      cases each
      rfl
    | cons byte bytes ih =>
      cases each with
      | cons same later =>
        rw [List.map_cons, ih later, reprinted_small same byte.toNat_lt rfl]

/-- The reply is read as an object with a result object in which the result is the array of
these bytes. -/
def Returns (lib : Library) (url : Option CString) (transfer : Transfer) (bytes : List UInt8) :
    Prop :=
  ∃ buffer body json v, receive url transfer = .reply buffer ∧
    CString.ofBlock buffer.memory = .ok body ∧ lib.cJSONParse body = some json ∧
    HasMember json (.lit "result") v ∧
    HasMember v (.lit "result") (.array (bytes.map byteNumber)) ∧ Reprints lib v

/-- Whatever a contract returns is what the caller gets, with a zero byte behind it, where the
allocations are granted and the Base64 text of the arguments has a size. -/
def BytesArrive (lib : Library) (heap : (size : Nat) → Block size) : Prop :=
  ∀ url account method (args : CString) answers transfer bytes, (∀ i, answers i = true) →
    args.strlen ≤ Base64.allocationSize lib.sizeT.wrap args.strlen →
    Returns lib url transfer bytes → bytes.length < 0x7fffffff →
    ∃ response posted,
      nearRpcCallFunction lib url (some account) (some method) (some args) true answers transfer =
        .ok (response, some posted) ∧
      nearDecodeResult lib true heap response = .ok (some (bytes ++ [0], bytes.length))

/-- Without an array nothing is returned; with one, a byte for each element and a zero byte,
which is all that was allocated. -/
structure Decodes (lib : Library) (heap : (size : Nat) → Block size) (response : CnearResponse) :
    Prop where
  nothing : (¬ ∃ items, CarriesArray lib response items) →
    nearDecodeResult lib true heap response = .ok none
  bytes : ∀ items, CarriesArray lib response items →
    nearDecodeResult lib true heap response =
      .ok (some (items.map elementByte ++ [0], items.length))

/-- A call that gets a reply is posted, and its response is the print of what the reply holds. -/
theorem called_response (lib : Library) {url : Option CString} (account method : CString)
    {args : CString} {answers : Answers} (granted : ∀ i, answers i = true)
    (room : args.strlen ≤ Base64.allocationSize lib.sizeT.wrap args.strlen) {transfer : Transfer}
    {buffer : CurlMemory} {body : CString} (got : receive url transfer = .reply buffer)
    (text : CString.ofBlock buffer.memory = .ok body) :
    ∃ posted, nearRpcCallFunction lib url (some account) (some method) (some args) true answers
      transfer = .ok (⟨transfer.responseCode,
        (resultOrError (lib.cJSONParse body)).bind lib.cJSONPrint⟩, some posted) := by
  obtain ⟨address, hasAddress⟩ := Option.ne_none_iff_exists'.mp (receive_reply_completes got).1
  have encoded : base64OfString lib true (some args) =
      .ok (some ⟨Base64.encodeLoop args.bytes, Base64.zero_notMem_encodeLoop args.bytes⟩) := by
    rw [CString.strlen] at room
    rw [base64OfString, Base64.base64Encode, if_neg (Nat.not_lt.mpr room), if_pos rfl]
  have ran : ∀ data, execCurlRpcCall lib url data transfer noResponse.rpcCode =
      .ok ⟨some data, transfer.responseCode, resultOrError (lib.cJSONParse body)⟩ := by
    intro data
    rw [execCurlRpcCall, got]
    simp only [text, ok_bind, hasAddress, Option.map_some]
  rw [nearRpcCallFunction, encoded, ok_bind]
  simp only [buildRpcCallFunction_granted _ _ _ granted, callRpc, ran, ok_bind]
  exact ⟨_, rfl⟩

/-- The response to a call carries the array that the contract returned. -/
theorem carries_of_returns {lib : Library} {url : Option CString} {transfer : Transfer}
    {bytes : List UInt8} (returns : Returns lib url transfer bytes) :
    ∃ buffer body, receive url transfer = .reply buffer ∧
      CString.ofBlock buffer.memory = .ok body ∧
      CarriesArray lib ⟨transfer.responseCode,
        (resultOrError (lib.cJSONParse body)).bind lib.cJSONPrint⟩ (bytes.map byteNumber) := by
  obtain ⟨buffer, body, json, v, got, text, parsed, outer, inner, reprints⟩ := returns
  obtain ⟨printed, v', prints, reads, again⟩ := reprints
  have detached : resultOrError (some json) = some v := by
    rw [resultOrError, detachItemFromObjectCaseSensitive,
      (getObjectItemCaseSensitive_eq_some_iff json _ v).mpr outer]
  obtain ⟨item, member, same⟩ := reprinted_member again inner
  rw [reprinted_bytes same] at member
  refine ⟨buffer, body, got, text, v', ?_, member⟩
  rw [parsed, detached, Option.bind_some, prints, Option.bind_some, reads]

theorem bytesArrive (lib : Library) (heap : (size : Nat) → Block size) : BytesArrive lib heap := by
  intro url account method args answers transfer bytes granted room returns short
  obtain ⟨buffer, body, got, text, carries⟩ := carries_of_returns returns
  obtain ⟨posted, called⟩ := called_response lib account method granted room got text
  have decoded := nearDecodeResult_short lib heap carries (by
    rw [List.length_map]
    unfold intMax
    omega)
  have values : (bytes.map byteNumber).map elementByte = bytes := by
    rw [List.map_map]
    conv_rhs => rw [← List.map_id bytes]
    exact List.map_congr_left fun byte _ => elementByte_byteNumber byte
  rw [values, List.length_map] at decoded
  exact ⟨_, posted, called, decoded⟩

/-- The bytes of a contract arrive, and any other response is decoded as it should be exactly
if its array has fewer than 2^31 - 1 elements. -/
theorem nearDecodeResult_iff (lib : Library) (heap : (size : Nat) → Block size) :
    BytesArrive lib heap ∧
      ∀ response, Decodes lib heap response ↔
        ∀ items, CarriesArray lib response items → items.length < 0x7fffffff := by
  refine ⟨bytesArrive lib heap, ?_⟩
  intro response
  constructor
  · intro decodes items carries
    by_contra long
    obtain ⟨fault, failed⟩ := nearDecodeResult_long lib true heap carries (by
      unfold intMax
      omega)
    rw [decodes.bytes items carries] at failed
    cases failed
  · intro short
    refine ⟨nearDecodeResult_absent lib true heap, ?_⟩
    intro items carries
    have small := short items carries
    apply nearDecodeResult_short lib heap carries
    unfold intMax
    omega

/-! ## Two replies -/

/-- A contract's answer of a zero byte and a byte above 127. -/
def answerValue : Json :=
  .object [(.lit "logs", .array []), (.lit "result", .array ([0, 0xff].map byteNumber))]

def answerBody : CString :=
  .lit "\x7b\"id\":0,\"result\":\x7b\"logs\":[],\"result\":[0,255]\x7d\x7d"

def answerText : CString := .lit "\x7b\n\t\"logs\":\t[],\n\t\"result\":\t[0, 255]\n\x7d"

def answerLibrary : Library :=
  libraryFor answerBody answerText
    (.object [(.lit "id", .number (.finite 0)), (.lit "result", answerValue)]) answerValue

theorem answer_returns : Returns answerLibrary someClient.rpcUrl
    (grantingWorld (fun _ => true) answerBody 200).viewKeyTransfer [0, 0xff] := by
  have apart : answerText ≠ answerBody := by decide +kernel
  have text : CString.ofBlock (answerBody.bytes ++ [0]) = .ok answerBody :=
    CString.ofBlock_terminated answerBody []
  refine ⟨.holding answerBody.bytes, answerBody, _, answerValue, rfl, text,
    libraryFor_parses _ _ _ _, ⟨[(.lit "id", .number (.finite 0))], [], rfl, ?_⟩,
    ⟨[(.lit "logs", .array [])], [], rfl, ?_⟩, ?_⟩
  · simp only [List.forall_mem_singleton]
    decide
  · simp only [List.forall_mem_singleton]
    decide
  have again : Reprinted answerValue answerValue := by
    refine .object rfl (.cons (.array .nil) (.cons (.array ?_) .nil))
    exact .cons (.byte 0 (by decide)) (.cons (.byte 255 (by decide)) .nil)
  exact ⟨answerText, answerValue, rfl, by simp [answerLibrary, libraryFor, apart], again⟩

theorem answer_bytes_arrive : ∃ response posted,
    nearRpcCallFunction answerLibrary someClient.rpcUrl (some (.lit "bob.near")) (some (.lit "get"))
      (some (.lit "")) true (fun _ => true)
      (grantingWorld (fun _ => true) answerBody 200).viewKeyTransfer = .ok (response, some posted) ∧
    nearDecodeResult answerLibrary true (Block.replicate · 0xff) response =
      .ok (some ([0, 0xff, 0], 2)) :=
  (nearDecodeResult_iff answerLibrary (Block.replicate · 0xff)).1 someClient.rpcUrl
    (.lit "bob.near") (.lit "get") (.lit "") _ _ [0, 0xff] (fun _ => rfl) (by decide) answer_returns
    (by decide)

/-- The text of an object whose result is an array of `count + 1` zeros. -/
def zerosBody (count : Nat) : CString where
  bytes := ascii "\x7b\"result\":[0" ++ (List.replicate count (ascii ",0")).flatten ++ ascii "]\x7d"
  noNul := by
    have zeros : (0 : UInt8) ∉ (List.replicate count (ascii ",0")).flatten := by
      intro member
      obtain ⟨part, inside, zero⟩ := List.mem_flatten.mp member
      rw [List.eq_of_mem_replicate inside] at zero
      exact absurd zero (by decide)
    simp only [List.mem_append, not_or]
    exact ⟨⟨by decide, zeros⟩, by decide⟩

def zerosLibrary (count : Nat) : Library :=
  libraryFor (zerosBody count) (.lit "")
    (.object [(.lit "result", .array (List.replicate (count + 1) (byteNumber 0)))]) .null

theorem zeros_not_decoded {count : Nat} (long : 0x7ffffffe ≤ count) :
    ¬ Decodes (zerosLibrary count) (Block.replicate · 0) ⟨200, some (zerosBody count)⟩ := by
  intro decodes
  have carries : CarriesArray (zerosLibrary count) ⟨200, some (zerosBody count)⟩
      (List.replicate (count + 1) (byteNumber 0)) :=
    ⟨_, libraryFor_parses _ _ _ _, [], [], rfl, by simp⟩
  obtain ⟨fault, failed⟩ := nearDecodeResult_long (zerosLibrary count) true (Block.replicate · 0)
    carries (by
      rw [List.length_replicate]
      unfold intMax
      omega)
  rw [decodes.bytes _ carries] at failed
  cases failed

/-- The size of the buffer for 2^31 - 1 zeros overflows an `int`. -/
theorem int_max_zeros_not_decoded :
    ¬ Decodes (zerosLibrary 0x7ffffffe) (Block.replicate · 0) ⟨200, some (zerosBody 0x7ffffffe)⟩ :=
  zeros_not_decoded le_rfl

end CNear.CallResult
