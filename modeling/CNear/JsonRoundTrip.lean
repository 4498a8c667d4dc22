import CNear.CallResult
import CNear.JsonComplete
import CNear.JsonPrintSafety

/-! What is printed is parsed to the value again, and the client's library as these functions
make it. -/

namespace CNear.JsonRoundTrip
open CJson CallResult Exchange JsonGrammar JsonParse JsonPrint JsonText NumberText

/-! ## The text as a C string -/

/-- The text that `cJSON_Print` or `cJSON_PrintUnformatted` should print. -/
def textOf (format : Bool) (value : Json) : CString := ⟨render format 0 value, noNul_render format 0 value⟩

/-- The text, with its terminator and one more byte, has a size that is an `int`. -/
def Sizeable (format : Bool) (value : Json) : Prop := (render format 0 value).length + 2 ≤ maxInt

theorem Sizeable.counted {format : Bool} {value : Json} (sizeable : Sizeable format value)
    (sizeT : SizeT) : (render format 0 value).length + 1 < sizeT.wrap := by
  have wide := Base64.wide_wrap sizeT
  unfold Sizeable maxInt at sizeable
  omega

/-- A text of a value with nothing around it. -/
theorem takes_spelled {document : CString} {value : Json} (spelled : Spells value document.bytes)
    (shallow : nesting value ≤ nestingLimit) :
    Run.Takes 0 (cJSONParse document) (blocks value + 1) (some value) none := by
  have whole : document.bytes = [] ++ ([] ++ (document.bytes ++ [])) := by
    rw [List.append_nil]
    rfl
  exact takes_cJSONParse whole (Or.inl rfl) blank_nil spelled
    (fun _ _ c found => absurd found (by simp)) shallow

theorem takes_textOf {format : Bool} {value : Json} (doubles : Doubles value)
    (shallow : nesting value ≤ nestingLimit) :
    Run.Takes 0 (cJSONParse (textOf format value)) (blocks value + 1) (some (trip value)) none := by
  have parsed := @takes_spelled (textOf format value) _ (spells_render format 0 value doubles)
    (by rwa [nesting_trip])
  rwa [blocks_trip] at parsed

/-! ## The library -/

/-- Every request is granted. -/
def plenty : Heap := ⟨fun _ => true, 0⟩

theorem plenty_grants (count : Nat) : plenty.answers.Grants count := fun _ _ => rfl

/-- `cJSON_Parse` with enough memory. -/
def parseText (text : CString) : Option Json :=
  match cJSONParse text plenty with
  | .ok (value, _) => value
  | .error _ => none

/-- `cJSON_Print` and `cJSON_PrintUnformatted` with enough memory. -/
def printText (sizeT : SizeT) (format : Bool) (value : Json) : Option CString :=
  match printed sizeT value format plenty with
  | .ok (text, _) => text.map CString.upToNul
  | .error _ => none

/-- The functions of cJSON in place of any others. -/
def withCJson (lib : Library) : Library :=
  { lib with cJSONParse := parseText, cJSONPrint := printText lib.sizeT true }

theorem parseText_of_takes {text : CString} {count : Nat} {value : Json}
    (takes : Run.Takes 0 (cJSONParse text) count (some value) none) : parseText text = some value := by
  obtain ⟨final, ran, -⟩ := takes.granted plenty (Nat.zero_le _) (plenty_grants count)
  rw [parseText, ran]

/-- Any spelling of a value is read as the value. -/
theorem parseText_spelled {document : CString} {value : Json} {mark gap text rest : List UInt8}
    (bytes : document.bytes = mark ++ (gap ++ (text ++ rest))) (marked : mark = [] ∨ mark = utf8Bom)
    (blank : Blank gap) (spelled : Spells value text) (follows : Follows value rest)
    (shallow : nesting value ≤ nestingLimit) : parseText document = some value :=
  parseText_of_takes (takes_cJSONParse bytes marked blank spelled follows shallow)

theorem parseText_textOf {format : Bool} {value : Json} (doubles : Doubles value)
    (shallow : nesting value ≤ nestingLimit) :
    parseText (textOf format value) = some (trip value) :=
  parseText_of_takes (takes_textOf doubles shallow)

/-- What is read is a value of doubles and not nested too deep. -/
theorem parseText_sound {text : CString} {value : Json} (parsed : parseText text = some value) :
    nesting value ≤ nestingLimit ∧ Doubles value := by
  obtain ⟨result, final, ran, sound, -⟩ := owns_cJSONParse text plenty (Nat.zero_le _)
  rw [parseText, ran] at parsed
  exact sound value parsed

theorem printText_eq {format : Bool} {value : Json} (sizeT : SizeT) (doubles : Doubles value)
    (sizeable : Sizeable format value) :
    printText sizeT format value = some (textOf format value) := by
  obtain ⟨result, final, ran, -, -, whole⟩ :=
    printed_eq doubles (sizeable.counted sizeT) plenty
  rw [printText, ran, whole (fun _ => rfl) sizeable]
  exact congrArg some (upToNul_bytes (textOf format value))

/-! ## Under any allocator -/

/-- Where a text comes out it is that of the value. With enough memory one does exactly if an `int`
counts it. -/
theorem printed_cases {sizeT : SizeT} {value : Json} {format : Bool} (doubles : Doubles value)
    (counted : (render format 0 value).length + 1 < sizeT.wrap) (heap : Heap) :
    ∃ result final, printed sizeT value format heap = .ok (result, final) ∧
      final.live = heap.live + heldText result ∧
      (heap.answers.Plenty → (result.isSome = true ↔ Sizeable format value)) ∧
      ∀ text, result = some text → text = render format 0 value := by
  obtain ⟨result, final, ran, live, shape, whole⟩ := printed_eq doubles counted heap
  refine ⟨result, final, ran, live, ?_, fun text came => (shape text came).1⟩
  intro plenty
  constructor
  · intro there
    obtain ⟨text, came⟩ := Option.isSome_iff_exists.mp there
    obtain ⟨same, room⟩ := shape text came
    rw [same] at room
    exact room
  · intro sizeable
    rw [whole plenty sizeable]
    rfl

/-- An integer that an `int` holds comes back. -/
theorem reread_int {value : ℚ} (double : IsDouble (.finite value))
    (whole : value = valueInt (.finite value)) : reread value = .finite value :=
  (reread_eq_iff double).mpr (Or.inl whole)

theorem valueInt_small {n : Nat} (small : n < 256) : valueInt (.finite n) = n := by
  have below : ¬ (intMax : ℚ) ≤ (n : ℚ) := by
    rw [not_le]
    calc
      (n : ℚ) < 256 := by exact_mod_cast small
      _ ≤ (intMax : ℚ) := by norm_num [intMax]
  have above : ¬ (n : ℚ) ≤ (intMin : ℚ) := by
    rw [not_le]
    calc
      (intMin : ℚ) < 0 := by norm_num [intMin]
      _ ≤ (n : ℚ) := Nat.cast_nonneg _
  rw [valueInt, if_neg below, if_neg above, if_pos (Nat.cast_nonneg _), Int.floor_natCast]

theorem reprinted_number {number : Double} (double : IsDouble number) :
    Reprinted (.number number) (trip (.number number)) := by
  by_cases byte : ∃ n : Nat, n < 256 ∧ number = .finite n
  · obtain ⟨n, small, rfl⟩ := byte
    have whole : (n : ℚ) = valueInt (.finite n) := by
      rw [valueInt_small small, Int.cast_natCast]
    rw [trip, reread_int double whole]
    exact .byte n small
  · refine .number number _ ?_
    intro n small same
    exact byte ⟨n, small, same⟩

mutual

theorem reprinted_trip : (value : Json) → Doubles value → Reprinted value (trip value)
  | .null, _ => .null
  | .bool value, _ => .bool value
  | .number _, double => reprinted_number double
  | .string valuestring, _ => .string valuestring
  | .array items, doubles => .array (reprinted_items items doubles)
  | .object members, doubles => .object (tripMembers_names members) (reprinted_members members doubles)

theorem reprinted_items : (items : List Json) → DoublesItems items →
    List.Forall₂ Reprinted items (tripItems items)
  | [], _ => .nil
  | item :: items, doubles => .cons (reprinted_trip item doubles.1) (reprinted_items items doubles.2)

theorem reprinted_members : (members : List (CString × Json)) → DoublesMembers members →
    List.Forall₂ Reprinted (members.map Prod.snd) ((tripMembers members).map Prod.snd)
  | [], _ => .nil
  | (_, item) :: members, doubles =>
      .cons (reprinted_trip item doubles.1) (reprinted_members members doubles.2)

theorem tripMembers_names : (members : List (CString × Json)) →
    members.map Prod.fst = (tripMembers members).map Prod.fst
  | [] => rfl
  | (name, _) :: members => congrArg (name :: ·) (tripMembers_names members)

end

/-- What the calls ask of printing and parsing holds of these functions. -/
theorem reprints (lib : Library) {value : Json} (doubles : Doubles value)
    (shallow : nesting value ≤ nestingLimit) (sizeable : Sizeable true value) :
    Reprints (withCJson lib) value :=
  ⟨textOf true value, trip value, printText_eq lib.sizeT doubles sizeable,
    parseText_textOf doubles shallow, reprinted_trip value doubles⟩

/-! ## A document that changes -/

theorem isDouble_seven : IsDouble (.finite 7) := by
  refine ⟨⟨7, 0, by decide, by decide, by norm_num⟩, ?_⟩
  calc
    |(7 : ℚ)| ≤ 2 ^ 3 := by norm_num
    _ < 2 ^ 1024 := pow_lt_pow_right₀ (by norm_num) (by decide)

theorem reread_seven : reread 7 = .finite 7 := by
  have whole : ((7 : Nat) : ℚ) = valueInt (.finite (7 : Nat)) := by
    rw [valueInt_small (by decide), Int.cast_natCast]
  exact reread_int isDouble_seven (by exact_mod_cast whole)

end CNear.JsonRoundTrip
