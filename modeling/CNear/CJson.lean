import CNear.Memory
import CNear.Lib.Allocator
import Mathlib.Data.Rat.Floor

/-! The part of cJSON that the client uses: the item tree, the accessors on it, and the
constructors with each of their allocations. A `NULL` item or string is `none`. -/

namespace CNear.CJson

/-- A C `double`. Every finite one is a rational. -/
inductive Double where
  | finite (value : ℚ)
  | infinite (negative : Bool)
  | nan
  deriving DecidableEq

/-- The conversion to `uint64_t` truncates; the truncated value has to fit. -/
def castU64 : Double → Except Fault UInt64
  | .finite value =>
      if -1 < value ∧ value < 0x10000000000000000 then .ok (UInt64.ofNat ⌊value⌋.toNat)
      else .error .floatToInt
  | .infinite _ => .error .floatToInt
  | .nan => .error .floatToInt

theorem castU64_natCast {n : Nat} (fits : n < 0x10000000000000000) :
    castU64 (.finite n) = .ok (UInt64.ofNat n) := by
  have low : (-1 : ℚ) < n := lt_of_lt_of_le (by decide) (Nat.cast_nonneg n)
  have high : (n : ℚ) < 0x10000000000000000 := by exact_mod_cast fits
  have floor : ⌊(n : ℚ)⌋ = (n : Int) := Int.floor_natCast n
  rw [castU64, if_pos ⟨low, high⟩, floor, Int.toNat_natCast]

inductive Json where
  | null
  | bool (value : Bool)
  | number (valuedouble : Double)
  | string (valuestring : CString)
  | array (items : List Json)
  | object (members : List (CString × Json))

/-! ## Accessors -/

/-- `tolower` of the C locale. -/
def tolower (c : UInt8) : UInt8 := if 65 ≤ c ∧ c ≤ 90 then c + 32 else c

def caseInsensitiveStrcmp (string1 string2 : CString) : Bool :=
  string1.bytes.map tolower == string2.bytes.map tolower

/-- The first child under the name. The children of an array have no names. -/
def getObjectItemBy (same : CString → CString → Bool) (name : CString) : Option Json → Option Json
  | some (.object members) => (members.find? fun member => same name member.1).map Prod.snd
  | _ => none

def getObjectItem (object : Option Json) (name : CString) : Option Json :=
  getObjectItemBy caseInsensitiveStrcmp name object

def getObjectItemCaseSensitive (object : Option Json) (name : CString) : Option Json :=
  getObjectItemBy (fun left right => left.bytes == right.bytes) name object

def hasObjectItem (object : Option Json) (name : CString) : Bool := (getObjectItem object name).isSome

/-- The detached item; the caller deletes what is left of the object. -/
def detachItemFromObjectCaseSensitive (object : Option Json) (name : CString) : Option Json :=
  getObjectItemCaseSensitive object name

def getStringValue : Option Json → Option CString
  | some (.string valuestring) => some valuestring
  | _ => none

def getNumberValue : Option Json → Double
  | some (.number valuedouble) => valuedouble
  | _ => .nan

theorem getNumberValue_finite {item : Option Json} {value : ℚ} :
    getNumberValue item = .finite value ↔ item = some (.number (.finite value)) := by
  constructor
  · intro read
    unfold getNumberValue at read
    split at read
    · rw [read]
    · cases read
  · intro same
    rw [same, getNumberValue]

/-- The first member of the object under the name. -/
def HasMember (json : Json) (name : CString) (item : Json) : Prop :=
  ∃ before behind, json = .object (before ++ (name, item) :: behind) ∧
    ∀ member ∈ before, member.1 ≠ name

theorem bytes_beq_iff (left right : CString) : (left.bytes == right.bytes) = true ↔ right = left := by
  rw [beq_iff_eq]
  exact ⟨fun same => CString.ext_bytes same.symm, fun same => by rw [same]⟩

theorem getObjectItemCaseSensitive_eq_some_iff (json : Json) (name : CString) (item : Json) :
    getObjectItemCaseSensitive (some json) name = some item ↔ HasMember json name item := by
  constructor
  · intro read
    cases json with
    | object members =>
      obtain ⟨⟨key, value⟩, found, rfl⟩ := Option.map_eq_some_iff.mp read
      obtain ⟨same, before, behind, split, others⟩ := List.find?_eq_some_iff_append.mp found
      obtain rfl : key = name := (bytes_beq_iff name key).mp same
      refine ⟨before, behind, congrArg Json.object split, ?_⟩
      intro other member equal
      have different := others other member
      rw [equal] at different
      simp at different
    | _ => cases read
  · intro present
    obtain ⟨before, behind, rfl, others⟩ := present
    have found : (before ++ (name, item) :: behind).find?
        (fun member => name.bytes == member.1.bytes) = some (name, item) := by
      rw [List.find?_eq_some_iff_append]
      refine ⟨by simp, before, behind, rfl, ?_⟩
      intro other member
      rw [Bool.not_eq_true', Bool.eq_false_iff, ne_eq, bytes_beq_iff]
      exact others other member
    simp only [getObjectItemCaseSensitive, getObjectItemBy, found, Option.map_some]

theorem getStringValue_eq_some_iff (item : Option Json) (text : CString) :
    getStringValue item = some text ↔ item = some (.string text) := by
  constructor
  · intro read
    unfold getStringValue at read
    split at read
    · rw [Option.some.inj read]
    · cases read
  · intro same
    rw [same, getStringValue]

/-! ## Constructors -/

open Alloc

/-- `cJSON_New_Item` and `cJSON_CreateObject` -/
def createObject : Alloc Json := do
  request
  return .object []

/-- The item first, then the copy of its value; a `NULL` value has no copy. -/
def createString (string : Option CString) : Alloc Json := do
  request
  match string with
  | none => fail
  | some value =>
      request
      return .string value

/-- `add_item_to_array` on the children of an object. -/
def addMember (name : CString) (item : Json) : Json → Json
  | .object members => .object (members ++ [(name, item)])
  | other => other

/-- Stops where `cJSON_AddStringToObject` returns `NULL`. The last request is the copy of
the name. -/
def addStringToObject (object : Json) (name : CString) (string : Option CString) : Alloc Json := do
  let item ← createString string
  request
  return addMember name item object

/-- The result of `cJSON_AddItemToObject` is whether the copy of the name was made;
without it the object stays as it is. -/
def addItemToObject (object : Json) (name : CString) (item : Json) : Alloc (Bool × Json) :=
  fun answers =>
    (some (if answers 0 then (true, addMember name item object) else (false, object)),
      answers.drop 1)

theorem needs_createObject : Needs createObject 1 (.object []) := by
  change Needs (request >>= fun _ => pure (Json.object [])) (1 + 0) _
  exact needs_request.bind (needs_pure _)

theorem needs_createString (value : CString) :
    Needs (createString (some value)) 2 (.string value) := by
  change Needs (request >>= fun _ => request >>= fun _ => pure (Json.string value)) (1 + (1 + 0)) _
  exact needs_request.bind (needs_request.bind (needs_pure _))

theorem fails_createString : Fails (createString none) := Fails.after (fun _ => fails_fail) request

theorem needs_addStringToObject (object : Json) (name value : CString) :
    Needs (addStringToObject object name (some value)) 3
      (addMember name (.string value) object) := by
  change Needs (createString (some value) >>= fun item =>
    request >>= fun _ => pure (addMember name item object)) (2 + (1 + 0)) _
  exact (needs_createString value).bind (needs_request.bind (needs_pure _))

theorem fails_addStringToObject (object : Json) (name : CString) :
    Fails (addStringToObject object name none) := fails_createString.bind _

/-- Strings added one after the other, with the first failure ending it. -/
def addStrings (object : Json) : List (CString × Option CString) → Alloc Json
  | [] => return object
  | (name, string) :: rest => do
      let object ← addStringToObject object name string
      addStrings object rest

/-- With every string there, three requests a member lead to all members in order. -/
theorem needs_addStrings (members : List (CString × Json)) (strings : List (CString × CString)) :
    Needs (addStrings (.object members) (strings.map fun entry => (entry.1, some entry.2)))
      (3 * strings.length)
      (.object (members ++ strings.map fun entry => (entry.1, .string entry.2))) := by
  induction strings generalizing members with
  | nil =>
    rw [List.map_nil, List.map_nil, List.append_nil]
    exact needs_pure _
  | cons entry rest ih =>
    have first := needs_addStringToObject (.object members) entry.1 entry.2
    have later := ih (members ++ [(entry.1, .string entry.2)])
    have count : 3 * (entry :: rest).length = 3 + 3 * rest.length := by
      rw [List.length_cons]
      omega
    rw [count, List.map_cons, List.map_cons, List.append_cons]
    unfold addStrings
    exact Needs.bind first later

/-- One `NULL` string is enough to fail. -/
theorem fails_addStrings (object : Json) {strings : List (CString × Option CString)}
    (missing : ∃ entry ∈ strings, entry.2 = none) : Fails (addStrings object strings) := by
  induction strings generalizing object with
  | nil => simp at missing
  | cons entry rest ih =>
    obtain ⟨name, string⟩ := entry
    cases string with
    | none => exact (fails_addStringToObject object name).bind _
    | some value =>
      have later : ∃ entry ∈ rest, entry.2 = none := by simpa using missing
      exact Fails.after (fun next => ih next later) _

end CNear.CJson
