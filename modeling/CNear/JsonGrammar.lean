import CNear.JsonParse

/-! The JSON grammar as a relation between a text and what it says: whitespace around every
token, numbers, strings with their escapes, arrays and objects. A string says bytes; an escape
of a code point says its UTF-8 form. -/

namespace CNear.JsonGrammar
open CJson NumberText

/-- Whitespace. -/
def Blank (text : List UInt8) : Prop := ∀ c ∈ text, c = 9 ∨ c = 10 ∨ c = 13 ∨ c = 32

/-- A hexadecimal digit in upper or lower case. -/
def IsHex (digit : Nat) (c : UInt8) : Prop :=
  (digit < 10 ∧ c.toNat = 48 + digit) ∨
    (10 ≤ digit ∧ digit < 16 ∧ (c.toNat = 55 + digit ∨ c.toNat = 87 + digit))

/-- The four digits of a code. -/
inductive SpellsCode : Nat → List UInt8 → Prop where
  | digits {a b c d : Nat} {w x y z : UInt8} (first : IsHex a w) (second : IsHex b x)
      (third : IsHex c y) (fourth : IsHex d z) :
      SpellsCode (16 * (16 * (16 * a + b) + c) + d) [w, x, y, z]

/-- The escapes of two characters, and the byte each of them says. -/
def shortEscapes : List (UInt8 × UInt8) :=
  [(34, 34), (92, 92), (47, 47), (98, 8), (102, 12), (110, 10), (114, 13), (116, 9)]

/-- One character of a string: the bytes that it says, and its text. -/
inductive SpellsChar : List UInt8 → List UInt8 → Prop where
  | plain {c : UInt8} (printable : 32 ≤ c) (quote : c ≠ 34) (backslash : c ≠ 92) :
      SpellsChar [c] [c]
  | short {c byte : UInt8} (listed : (c, byte) ∈ shortEscapes) : SpellsChar [byte] [92, c]
  | code {char : Char} {digits : List UInt8} (spelled : SpellsCode char.toNat digits) :
      SpellsChar (String.utf8EncodeChar char) (92 :: 117 :: digits)
  | surrogates {char : Char} {high low : List UInt8} (large : 0x10000 ≤ char.toNat)
      (first : SpellsCode (0xD800 + (char.toNat - 0x10000) / 0x400) high)
      (second : SpellsCode (0xDC00 + (char.toNat - 0x10000) % 0x400) low) :
      SpellsChar (String.utf8EncodeChar char) (92 :: 117 :: high ++ 92 :: 117 :: low)

inductive SpellsChars : List UInt8 → List UInt8 → Prop where
  | nil : SpellsChars [] []
  | cons {byte bytes char chars : List UInt8} (head : SpellsChar byte char)
      (tail : SpellsChars bytes chars) : SpellsChars (byte ++ bytes) (char ++ chars)

/-- A string in its quotes. -/
inductive SpellsString : List UInt8 → List UInt8 → Prop where
  | quoted {bytes chars : List UInt8} (inner : SpellsChars bytes chars) :
      SpellsString bytes (34 :: (chars ++ [34]))

mutual

/-- A value and a text of it. A C string keeps what a JSON string says before the first NUL,
and `number_c_string` is no longer than 63 characters. -/
inductive Spells : Json → List UInt8 → Prop where
  | null : Spells .null (ascii "null")
  | false : Spells (.bool false) (ascii "false")
  | true : Spells (.bool true) (ascii "true")
  | number {decimal : Decimal} (formed : decimal.WellFormed) (fits : decimal.text.length ≤ 63) :
      Spells (.number (toDouble decimal.value)) decimal.text
  | string {bytes text : List UInt8} (spelled : SpellsString bytes text) :
      Spells (.string (CString.upToNul bytes)) text
  | emptyArray {gap : List UInt8} (blank : Blank gap) : Spells (.array []) (91 :: (gap ++ [93]))
  | array {items : List Json} {text : List UInt8} (spelled : SpellsItems items text) :
      Spells (.array items) (91 :: (text ++ [93]))
  | emptyObject {gap : List UInt8} (blank : Blank gap) : Spells (.object []) (123 :: (gap ++ [125]))
  | object {members : List (CString × Json)} {text : List UInt8}
      (spelled : SpellsMembers members text) : Spells (.object members) (123 :: (text ++ [125]))

/-- Values with commas between them. -/
inductive SpellsItems : List Json → List UInt8 → Prop where
  | last {item : Json} {before text behind : List UInt8} (first : Blank before)
      (spelled : Spells item text) (second : Blank behind) :
      SpellsItems [item] (before ++ (text ++ behind))
  | cons {item : Json} {items : List Json} {before text behind rest : List UInt8}
      (first : Blank before) (spelled : Spells item text) (second : Blank behind)
      (more : SpellsItems items rest) :
      SpellsItems (item :: items) (before ++ (text ++ (behind ++ 44 :: rest)))

/-- Names and values with colons, with commas between them. -/
inductive SpellsMembers : List (CString × Json) → List UInt8 → Prop where
  | last {bytes name : List UInt8} {item : Json} {before gap between text behind : List UInt8}
      (first : Blank before) (named : SpellsString bytes name) (second : Blank gap)
      (third : Blank between) (spelled : Spells item text) (fourth : Blank behind) :
      SpellsMembers [(CString.upToNul bytes, item)]
        (before ++ (name ++ (gap ++ 58 :: (between ++ (text ++ behind)))))
  | cons {bytes name : List UInt8} {item : Json} {members : List (CString × Json)}
      {before gap between text behind rest : List UInt8}
      (first : Blank before) (named : SpellsString bytes name) (second : Blank gap)
      (third : Blank between) (spelled : Spells item text) (fourth : Blank behind)
      (more : SpellsMembers members rest) :
      SpellsMembers ((CString.upToNul bytes, item) :: members)
        (before ++ (name ++ (gap ++ 58 :: (between ++ (text ++ (behind ++ 44 :: rest))))))

end

/-! ## No text has a NUL -/

theorem Blank.noNul {gap : List UInt8} (blank : Blank gap) : 0 ∉ gap := by
  intro member
  rcases blank 0 member with same | same | same | same <;> exact absurd same (by decide)

theorem IsHex.nonzero {digit : Nat} {c : UInt8} (hex : IsHex digit c) : 0 ≠ c := by
  intro same
  rw [← same, IsHex, UInt8.toNat_zero] at hex
  omega

theorem SpellsCode.noNul {code : Nat} {text : List UInt8} (spelled : SpellsCode code text) :
    0 ∉ text := by
  cases spelled with
  | digits first second third fourth =>
    simp [first.nonzero, second.nonzero, third.nonzero, fourth.nonzero]

theorem SpellsChar.noNul {bytes text : List UInt8} (spelled : SpellsChar bytes text) : 0 ∉ text := by
  cases spelled with
  | @plain c printable quote backslash =>
    rw [List.mem_singleton]
    intro zero
    rw [← zero] at printable
    exact absurd printable (by decide)
  | @short c byte listed =>
    have table : shortEscapes.all (fun pair => pair.1 != 0) = true := by decide
    have nonzero : c ≠ 0 := bne_iff_ne.mp (List.all_eq_true.mp table _ listed)
    simp [nonzero.symm]
  | code spelled => simp [spelled.noNul]
  | surrogates large first second => simp [first.noNul, second.noNul]

theorem SpellsChars.noNul {bytes text : List UInt8} (spelled : SpellsChars bytes text) :
    0 ∉ text := by
  induction spelled with
  | nil => exact List.not_mem_nil
  | cons head tail ih => exact List.not_mem_append head.noNul ih

theorem SpellsString.noNul {bytes text : List UInt8} (spelled : SpellsString bytes text) :
    0 ∉ text := by
  cases spelled with
  | quoted inner => simp [inner.noNul]

mutual

theorem Spells.noNul : {value : Json} → {text : List UInt8} → Spells value text → 0 ∉ text
  | _, _, .null => by decide
  | _, _, .false => by decide
  | _, _, .true => by decide
  | _, _, .number formed _ => fun member =>
      absurd (List.all_eq_true.mp formed.numberChars 0 member) (by decide)
  | _, _, .string spelled => spelled.noNul
  | _, _, .emptyArray blank => by simp [blank.noNul]
  | _, _, .array spelled => by simp [spelled.noNul]
  | _, _, .emptyObject blank => by simp [blank.noNul]
  | _, _, .object spelled => by simp [spelled.noNul]

theorem SpellsItems.noNul : {items : List Json} → {text : List UInt8} → SpellsItems items text →
    0 ∉ text
  | _, _, .last first spelled second => by simp [first.noNul, spelled.noNul, second.noNul]
  | _, _, .cons first spelled second more => by
      simp [first.noNul, spelled.noNul, second.noNul, more.noNul]

theorem SpellsMembers.noNul : {members : List (CString × Json)} → {text : List UInt8} →
    SpellsMembers members text → 0 ∉ text
  | _, _, .last first named second third spelled fourth => by
      simp [first.noNul, named.noNul, second.noNul, third.noNul, spelled.noNul, fourth.noNul]
  | _, _, .cons first named second third spelled fourth more => by
      simp [first.noNul, named.noNul, second.noNul, third.noNul, spelled.noNul, fourth.noNul,
        more.noNul]

end

end CNear.JsonGrammar
