import CNear.JsonGrammar
import CNear.JsonSafety
import CNear.NumberRecovery

/-! The text of a value as it should be printed, in the two formats of cJSON, and what is left
of the value when the text is read again: all of it but the last digits of some numbers. -/

namespace CNear.JsonText
open CJson JsonGrammar JsonParse NumberText

/-! ## Strings -/

/-- The letter behind the backslash, for a character that has one. -/
def shortEscape (c : UInt8) : Option UInt8 :=
  if c = 92 then some 92 else if c = 34 then some 34 else if c = 8 then some 98
  else if c = 12 then some 102 else if c = 10 then some 110 else if c = 13 then some 114
  else if c = 9 then some 116 else none

/-- A character that is copied. -/
def isPlain (c : UInt8) : Bool := 31 < c && c != 34 && c != 92

def hexChar (digit : Nat) : UInt8 := UInt8.ofNat (if digit < 10 then 48 + digit else 87 + digit)

/-- `%04x` of a byte. -/
def hex4 (c : UInt8) : List UInt8 := [48, 48, hexChar (c.toNat / 16), hexChar (c.toNat % 16)]

def escapeByte (c : UInt8) : List UInt8 :=
  if isPlain c then [c]
  else
    match shortEscape c with
    | some letter => [92, letter]
    | none => 92 :: 117 :: hex4 c

def quote (text : List UInt8) : List UInt8 := 34 :: (text.flatMap escapeByte ++ [34])

theorem isHex_hexChar {digit : Nat} (small : digit < 16) : IsHex digit (hexChar digit) := by
  unfold IsHex hexChar
  by_cases decimal : digit < 10
  · left
    rw [if_pos decimal, UInt8.toNat_ofNat']
    omega
  · right
    rw [if_neg decimal, UInt8.toNat_ofNat']
    omega

theorem shortEscape_listed {c letter : UInt8} (found : shortEscape c = some letter) :
    (letter, c) ∈ shortEscapes := by
  unfold shortEscape at found
  split_ifs at found <;> rename_i same <;> cases found <;> rw [same] <;> decide

theorem spellsCode_hex4 (c : UInt8) : SpellsCode c.toNat (hex4 c) := by
  have bound := c.toNat_lt
  have value : 16 * (16 * (16 * 0 + 0) + c.toNat / 16) + c.toNat % 16 = c.toNat := by omega
  have spelled : SpellsCode (16 * (16 * (16 * 0 + 0) + c.toNat / 16) + c.toNat % 16) (hex4 c) :=
    SpellsCode.digits (Or.inl ⟨by decide, rfl⟩) (Or.inl ⟨by decide, rfl⟩)
      (isHex_hexChar (by omega)) (isHex_hexChar (by omega))
  rwa [value] at spelled

theorem spellsChar_escapeByte (c : UInt8) : SpellsChar [c] (escapeByte c) := by
  unfold escapeByte
  by_cases plain : isPlain c = true
  · rw [if_pos plain]
    simp only [isPlain, Bool.and_eq_true, decide_eq_true_eq, bne_iff_ne] at plain
    obtain ⟨⟨printable, quote⟩, backslash⟩ := plain
    refine SpellsChar.plain ?_ quote backslash
    rw [UInt8.le_iff_toNat_le]
    exact UInt8.lt_iff_toNat_lt.mp printable
  rw [if_neg plain]
  cases found : shortEscape c with
  | some letter => exact SpellsChar.short (shortEscape_listed found)
  | none =>
    have small : c.toNat < 32 := by
      by_contra large
      have printable : 31 < c := UInt8.lt_iff_toNat_lt.mpr (show 31 < c.toNat by omega)
      have quote : c ≠ 34 := by
        intro same
        rw [same] at found
        cases found
      have backslash : c ≠ 92 := by
        intro same
        rw [same] at found
        cases found
      apply plain
      simp [isPlain, printable, quote, backslash]
    have table : ∀ n < 32, (Char.ofNat n).toNat = n ∧
        String.utf8EncodeChar (Char.ofNat n) = [UInt8.ofNat n] := by decide
    obtain ⟨valid, bytes⟩ := table c.toNat small
    rw [UInt8.ofNat_toNat] at bytes
    rw [← bytes]
    apply SpellsChar.code
    rw [valid]
    exact spellsCode_hex4 c

theorem spellsString_quote (text : List UInt8) : SpellsString text (quote text) := by
  apply SpellsString.quoted
  induction text with
  | nil => exact SpellsChars.nil
  | cons c text ih => exact SpellsChars.cons (spellsChar_escapeByte c) ih

/-! ## Values -/

def newline (format : Bool) : List UInt8 := if format then [10] else []

def tabs (format : Bool) (count : Nat) : List UInt8 := if format then List.replicate count 9 else []

def comma (format : Bool) : List UInt8 := if format then [44, 32] else [44]

mutual

/-- The text of a value inside `depth` arrays and objects. -/
def render (format : Bool) : (depth : Nat) → Json → List UInt8
  | _, .null => ascii "null"
  | _, .bool false => ascii "false"
  | _, .bool true => ascii "true"
  | _, .number valuedouble => numberText valuedouble
  | _, .string valuestring => quote valuestring.bytes
  | depth, .array items => 91 :: (renderItems format (depth + 1) items ++ [93])
  | depth, .object members =>
      123 :: (newline format ++ renderMembers format (depth + 1) members ++ tabs format depth ++ [125])

def renderItems (format : Bool) : (depth : Nat) → List Json → List UInt8
  | _, [] => []
  | depth, item :: items =>
      render format depth item ++ (if items.isEmpty then [] else comma format) ++
        renderItems format depth items

def renderMembers (format : Bool) : (depth : Nat) → List (CString × Json) → List UInt8
  | _, [] => []
  | depth, (name, item) :: members =>
      tabs format depth ++ quote name.bytes ++ 58 :: tabs format 1 ++ render format depth item ++
        (if members.isEmpty then [] else [44]) ++ newline format ++ renderMembers format depth members

end

/-! ## What is read again -/

mutual

/-- What printing and parsing make of a value. Infinities and NaN are printed as null. -/
def trip : Json → Json
  | .number (.finite value) => .number (reread value)
  | .number _ => .null
  | .array items => .array (tripItems items)
  | .object members => .object (tripMembers members)
  | other => other

def tripItems : List Json → List Json
  | [] => []
  | item :: items => trip item :: tripItems items

def tripMembers : List (CString × Json) → List (CString × Json)
  | [] => []
  | (name, item) :: members => (name, trip item) :: tripMembers members

end

theorem upToNul_bytes (s : CString) : CString.upToNul s.bytes = s := by
  apply CString.ext_bytes
  change s.bytes.takeWhile (· ≠ 0) = s.bytes
  rw [List.takeWhile_eq_self_iff]
  intro byte member
  rw [decide_eq_true_eq]
  intro zero
  rw [zero] at member
  exact s.noNul member

theorem blank_newline (format : Bool) : Blank (newline format) := by
  cases format with
  | false => exact fun _ member => absurd member List.not_mem_nil
  | true =>
    intro c member
    rw [List.mem_singleton.mp member]
    decide

theorem blank_tabs (format : Bool) (count : Nat) : Blank (tabs format count) := by
  cases format with
  | false => exact fun _ member => absurd member List.not_mem_nil
  | true =>
    intro c member
    rw [List.eq_of_mem_replicate member]
    decide

theorem blank_append {first second : List UInt8} (left : Blank first) (right : Blank second) :
    Blank (first ++ second) := by
  intro c member
  exact (List.mem_append.mp member).elim (left c) (right c)

/-- The whitespace behind a comma. -/
def commaGap (format : Bool) : List UInt8 := if format then [32] else []

theorem comma_eq (format : Bool) : comma format = 44 :: commaGap format := by
  cases format <;> rfl

theorem blank_commaGap (format : Bool) : Blank (commaGap format) := by
  cases format with
  | false => exact fun _ member => absurd member List.not_mem_nil
  | true =>
    intro c member
    rw [List.mem_singleton.mp member]
    decide

theorem spells_number {number : Double} (double : IsDouble number) :
    Spells (trip (.number number)) (numberText number) := by
  cases number with
  | finite value =>
    exact Spells.number (numberDecimal_wellFormed value)
      ((numberDecimal_length double).trans (by decide))
  | infinite negative => exact Spells.null
  | nan => exact Spells.null

mutual

/-- The text is JSON, in both formats, and says the value as far as its numbers go. -/
theorem spells_render (format : Bool) (depth : Nat) :
    (value : Json) → Doubles value → Spells (trip value) (render format depth value)
  | .null, _ => Spells.null
  | .bool false, _ => Spells.false
  | .bool true, _ => Spells.true
  | .number _, double => spells_number double
  | .string valuestring, _ => by
      have spelled := Spells.string (spellsString_quote valuestring.bytes)
      rwa [upToNul_bytes] at spelled
  | .array [], _ => Spells.emptyArray (fun _ member => absurd member List.not_mem_nil)
  | .array (item :: items), doubles => by
      have spelled := spellsItems_render format (depth + 1) [] (item :: items) doubles
        (fun _ member => absurd member List.not_mem_nil) (List.cons_ne_nil _ _)
      exact Spells.array spelled
  | .object [], _ => by
      rw [render, renderMembers, List.append_nil]
      exact Spells.emptyObject (blank_append (blank_newline format) (blank_tabs format depth))
  | .object (member :: members), doubles => by
      have spelled := spellsMembers_render format (depth + 1) (newline format) (tabs format depth)
        (member :: members) doubles (blank_newline format) (blank_tabs format depth)
        (List.cons_ne_nil _ _)
      exact Spells.object spelled

theorem spellsItems_render (format : Bool) (depth : Nat) (lead : List UInt8) :
    (items : List Json) → DoublesItems items → Blank lead → items ≠ [] →
      SpellsItems (tripItems items) (lead ++ renderItems format depth items)
  | [], _, _, nonempty => absurd rfl nonempty
  | [item], doubles, blank, _ => by
      have spelled := spells_render format depth item doubles.1
      have last := SpellsItems.last blank spelled (fun _ member => absurd member List.not_mem_nil)
      simpa [renderItems, tripItems] using last
  | item :: next :: items, doubles, blank, _ => by
      have spelled := spells_render format depth item doubles.1
      have more := spellsItems_render format depth (commaGap format) (next :: items) doubles.2
        (blank_commaGap format) (List.cons_ne_nil _ _)
      have all := SpellsItems.cons blank spelled (fun _ member => absurd member List.not_mem_nil) more
      rw [renderItems, tripItems, comma_eq]
      simpa using all

theorem spellsMembers_render (format : Bool) (depth : Nat) (lead tail : List UInt8) :
    (members : List (CString × Json)) → DoublesMembers members → Blank lead → Blank tail →
      members ≠ [] →
      SpellsMembers (tripMembers members) (lead ++ renderMembers format depth members ++ tail)
  | [], _, _, _, nonempty => absurd rfl nonempty
  | [(name, item)], doubles, blank, blank', _ => by
      have spelled := spells_render format depth item doubles.1
      have last := SpellsMembers.last (blank_append blank (blank_tabs format depth))
        (spellsString_quote name.bytes) (fun _ member => absurd member List.not_mem_nil)
        (blank_tabs format 1) spelled (blank_append (blank_newline format) blank')
      rw [upToNul_bytes] at last
      simpa [renderMembers, tripMembers] using last
  | (name, item) :: next :: members, doubles, blank, blank', _ => by
      have spelled := spells_render format depth item doubles.1
      have more := spellsMembers_render format depth (newline format) tail (next :: members) doubles.2
        (blank_newline format) blank' (List.cons_ne_nil _ _)
      have all := SpellsMembers.cons (blank_append blank (blank_tabs format depth))
        (spellsString_quote name.bytes) (fun _ member => absurd member List.not_mem_nil)
        (blank_tabs format 1) spelled (fun _ member => absurd member List.not_mem_nil) more
      rw [upToNul_bytes] at all
      rw [renderMembers, tripMembers]
      simpa using all

end

/-! ## A second trip -/

mutual

theorem nesting_trip : (value : Json) → nesting (trip value) = nesting value
  | .null => rfl
  | .bool _ => rfl
  | .number (.finite _) => rfl
  | .number (.infinite _) => rfl
  | .number .nan => rfl
  | .string _ => rfl
  | .array items => by rw [trip, nesting, nesting, nestingOfItems_trip items]
  | .object members => by rw [trip, nesting, nesting, nestingOfMembers_trip members]

theorem nestingOfItems_trip :
    (items : List Json) → nestingOfItems (tripItems items) = nestingOfItems items
  | [] => rfl
  | item :: items => by
      rw [tripItems, nestingOfItems, nestingOfItems, nesting_trip item, nestingOfItems_trip items]

theorem nestingOfMembers_trip : (members : List (CString × Json)) →
    nestingOfMembers (tripMembers members) = nestingOfMembers members
  | [] => rfl
  | (_, item) :: members => by
      rw [tripMembers, nestingOfMembers, nestingOfMembers, nesting_trip item,
        nestingOfMembers_trip members]

end

mutual

theorem blocks_trip : (value : Json) → blocks (trip value) = blocks value
  | .null => rfl
  | .bool _ => rfl
  | .number (.finite _) => rfl
  | .number (.infinite _) => rfl
  | .number .nan => rfl
  | .string _ => rfl
  | .array items => by rw [trip, blocks, blocks, blocksOfItems_trip items]
  | .object members => by rw [trip, blocks, blocks, blocksOfMembers_trip members]

theorem blocksOfItems_trip :
    (items : List Json) → blocksOfItems (tripItems items) = blocksOfItems items
  | [] => rfl
  | item :: items => by
      rw [tripItems, blocksOfItems, blocksOfItems, blocks_trip item, blocksOfItems_trip items]

theorem blocksOfMembers_trip : (members : List (CString × Json)) →
    blocksOfMembers (tripMembers members) = blocksOfMembers members
  | [] => rfl
  | (_, item) :: members => by
      rw [tripMembers, blocksOfMembers, blocksOfMembers, blocks_trip item,
        blocksOfMembers_trip members]

end

mutual

/-- No number is one of those that come back as an infinity. -/
def Moderate : Json → Prop
  | .number (.finite value) => |value| < overflowBound
  | .array items => ModerateItems items
  | .object members => ModerateMembers members
  | _ => True

def ModerateItems : List Json → Prop
  | [] => True
  | item :: items => Moderate item ∧ ModerateItems items

def ModerateMembers : List (CString × Json) → Prop
  | [] => True
  | (_, item) :: members => Moderate item ∧ ModerateMembers members

end

theorem isEmpty_tripItems (items : List Json) : (tripItems items).isEmpty = items.isEmpty := by
  cases items <;> rfl

theorem isEmpty_tripMembers (members : List (CString × Json)) :
    (tripMembers members).isEmpty = members.isEmpty := by
  cases members <;> rfl

mutual

/-- What was read is printed as it was. -/
theorem render_trip (format : Bool) (depth : Nat) : (value : Json) → Doubles value →
    Moderate value → render format depth (trip value) = render format depth value
  | .null, _, _ => rfl
  | .bool _, _, _ => rfl
  | .number (.finite value), double, moderate => by
      obtain ⟨back, came, text⟩ := (numberText_reread double).2 moderate
      rw [trip, came, render, render, text]
  | .number (.infinite _), _, _ => rfl
  | .number .nan, _, _ => rfl
  | .string _, _, _ => rfl
  | .array items, doubles, moderate => by
      rw [trip, render, render, renderItems_trip format (depth + 1) items doubles moderate]
  | .object members, doubles, moderate => by
      rw [trip, render, render, renderMembers_trip format (depth + 1) members doubles moderate]

theorem renderItems_trip (format : Bool) (depth : Nat) : (items : List Json) → DoublesItems items →
    ModerateItems items → renderItems format depth (tripItems items) = renderItems format depth items
  | [], _, _ => rfl
  | item :: items, doubles, moderate => by
      rw [tripItems, renderItems, renderItems, render_trip format depth item doubles.1 moderate.1,
        renderItems_trip format depth items doubles.2 moderate.2, isEmpty_tripItems]

theorem renderMembers_trip (format : Bool) (depth : Nat) : (members : List (CString × Json)) →
    DoublesMembers members → ModerateMembers members →
      renderMembers format depth (tripMembers members) = renderMembers format depth members
  | [], _, _ => rfl
  | (_, item) :: members, doubles, moderate => by
      rw [tripMembers, renderMembers, renderMembers,
        render_trip format depth item doubles.1 moderate.1,
        renderMembers_trip format depth members doubles.2 moderate.2, isEmpty_tripMembers]

end

mutual

/-- A number that comes back as an infinity is lost on the next trip. -/
theorem moderate_of_trip_trip : (value : Json) → Doubles value → trip (trip value) = trip value →
    Moderate value
  | .null, _, _ => trivial
  | .bool _, _, _ => trivial
  | .number (.finite value), double, same => by
      rw [Moderate]
      by_contra large
      obtain ⟨negative, came⟩ := (reread_infinite_iff double).mpr (not_lt.mp large)
      rw [trip, came] at same
      change Json.null = _ at same
      cases same
  | .number (.infinite _), _, _ => trivial
  | .number .nan, _, _ => trivial
  | .string _, _, _ => trivial
  | .array items, doubles, same =>
      moderate_of_tripItems_tripItems items doubles (Json.array.inj same)
  | .object members, doubles, same =>
      moderate_of_tripMembers_tripMembers members doubles (Json.object.inj same)

theorem moderate_of_tripItems_tripItems : (items : List Json) → DoublesItems items →
    tripItems (tripItems items) = tripItems items → ModerateItems items
  | [], _, _ => trivial
  | item :: items, doubles, same => by
      obtain ⟨first, rest⟩ := List.cons.inj same
      exact ⟨moderate_of_trip_trip item doubles.1 first,
        moderate_of_tripItems_tripItems items doubles.2 rest⟩

theorem moderate_of_tripMembers_tripMembers : (members : List (CString × Json)) →
    DoublesMembers members → tripMembers (tripMembers members) = tripMembers members →
      ModerateMembers members
  | [], _, _ => trivial
  | (_, item) :: members, doubles, same => by
      obtain ⟨first, rest⟩ := List.cons.inj same
      exact ⟨moderate_of_trip_trip item doubles.1 (Prod.mk.inj first).2,
        moderate_of_tripMembers_tripMembers members doubles.2 rest⟩

end

end CNear.JsonText
