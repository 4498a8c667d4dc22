import CNear.JsonGrammar
import CNear.JsonStringSafety

/-! Every JSON string is read as what it says: the scan finds its closing quote, and the loop
turns each character into its bytes. -/

namespace CNear.JsonParse
open JsonGrammar Run

/-! ## UTF-8 -/

/-- A byte that ends up in a mask depends on the low bits only. -/
theorem and_or_mask {mask mark : Nat} (low : mask < 256) (codepoint : Nat) :
    (codepoint ||| mark) &&& mask = (codepoint % 256 ||| mark % 256) &&& mask := by
  have reduce : ∀ n : Nat, n &&& mask = n % 256 &&& mask := by
    intro n
    apply Nat.eq_of_testBit_eq
    intro i
    rw [Nat.testBit_and, Nat.testBit_and, show (256 : Nat) = 2 ^ 8 from rfl, Nat.testBit_mod_two_pow]
    by_cases inside : i < 8
    · simp [inside]
    · have zero : mask.testBit i = false := by
        apply Nat.testBit_lt_two_pow
        have bound : mask < 2 ^ 8 := low
        exact bound.trans_le (Nat.pow_le_pow_right Nat.two_pos (not_lt.mp inside))
      simp [zero]
  rw [reduce, show (256 : Nat) = 2 ^ 8 from rfl, Nat.or_mod_two_pow]

theorem continuation_mask (codepoint : Nat) :
    (codepoint ||| 0x80) &&& 0xBF = codepoint % 64 + 0x80 := by
  have table : ∀ r < 256, (r ||| 0x80) &&& 0xBF = r % 64 + 0x80 := by decide +kernel
  rw [and_or_mask (by decide), table (codepoint % 256) (Nat.mod_lt _ (by decide))]
  omega

theorem encodeUtf8_char (char : Char) :
    encodeUtf8 char.toNat = some (String.utf8EncodeChar char) := by
  have two : ∀ r < 32, (r ||| 0xC0) &&& 0xFF = r + 0xC0 := by decide
  have three : ∀ r < 16, (r ||| 0xE0) &&& 0xFF = r + 0xE0 := by decide
  have four : ∀ r < 8, (r ||| 0xF0) &&& 0xFF = r + 0xF0 := by decide
  have valid := char.valid
  have bound : char.toNat ≤ 0x10FFFF := by
    rcases valid with low | ⟨-, high⟩
    · change char.toNat < 0xD800 at low
      omega
    · change char.toNat < 0x110000 at high
      omega
  have mask : ∀ n : Nat, n &&& 0x7F = n % 0x80 := fun n => Nat.and_two_pow_sub_one_eq_mod n 7
  unfold encodeUtf8 String.utf8EncodeChar
  simp only [continuationBytes, continuation_mask, mask, Nat.shiftRight_eq_div_pow, Nat.reducePow]
  have same : char.val.toNat = char.toNat := rfl
  rw [same]
  generalize char.toNat = n at bound ⊢
  have low : (n ≤ 0x7f) = (n < 128) := by rw [Nat.lt_succ_iff]
  have middle : (n ≤ 0x7ff) = (n < 2048) := by rw [Nat.lt_succ_iff]
  have high : (n ≤ 0xffff) = (n < 65536) := by rw [Nat.lt_succ_iff]
  simp only [low, middle, high, if_pos bound]
  split_ifs with one both all
  · rw [Nat.mod_eq_of_lt one]
  · rw [two _ (by omega), Nat.mod_eq_of_lt (show n / 64 < 32 by omega)]
  · rw [Nat.div_div_eq_div_mul, three _ (by omega), Nat.mod_eq_of_lt (show n / 4096 < 16 by omega)]
  · rw [four _ (by omega), Nat.mod_eq_of_lt (show n / 262144 < 8 by omega)]
    simp only [Nat.div_div_eq_div_mul, Nat.reduceMul]

/-! ## A text in the buffer -/

theorem halt_ok_bind {α β : Type} (value : α) (next : α → Except Halt β) :
    (Except.ok value >>= next) = next value := rfl

section Stands
variable {content text rest : List UInt8} {offset : Nat} {c : UInt8}

theorem stands_next (stands : content.drop offset = text ++ rest) :
    content.drop (offset + text.length) = rest := by
  rw [← List.drop_drop, stands, List.drop_left]

theorem stands_tail (stands : content.drop offset = c :: rest) : content.drop (offset + 1) = rest :=
  @stands_next content [c] rest offset stands

theorem getElem?_of_stands (stands : content.drop offset = c :: rest) : content[offset]? = some c := by
  have head := congrArg List.head? stands
  rwa [List.head?_drop] at head

theorem byteAt_of_stands (stands : content.drop offset = c :: rest) : byteAt content offset = .ok c := by
  rw [byteAt, getElem?_of_stands stands]

theorem stands_inside (stands : content.drop offset = c :: rest) : offset < content.length :=
  (List.getElem?_eq_some_iff.mp (getElem?_of_stands stands)).1

theorem hexDigit_of_isHex {digit : Nat} (hex : IsHex digit c) : hexDigit c = some digit := by
  unfold hexDigit
  simp only [UInt8.le_iff_toNat_le]
  change (if 48 ≤ c.toNat ∧ c.toNat ≤ 57 then some (c.toNat - 48)
    else if 65 ≤ c.toNat ∧ c.toNat ≤ 70 then some (10 + c.toNat - 65)
    else if 97 ≤ c.toNat ∧ c.toNat ≤ 102 then some (10 + c.toNat - 97) else none) = some digit
  rcases hex with ⟨small, decimal⟩ | ⟨large, bound, upper | lower⟩
  · rw [if_pos (by omega)]
    congr 1
    omega
  · rw [if_neg (by omega), if_pos (by omega)]
    congr 1
    omega
  · rw [if_neg (by omega), if_neg (by omega), if_pos (by omega)]
    congr 1
    omega

theorem hexDigits_step {digit count h : Nat} (stands : content.drop offset = c :: rest)
    (hex : IsHex digit c) :
    hexDigits content (count + 1) offset h = hexDigits content count (offset + 1) (16 * h + digit) := by
  rw [hexDigits, byteAt_of_stands stands, halt_ok_bind]
  simp only [hexDigit_of_isHex hex]

theorem parseHex4_spelled {value : Nat} (spelled : SpellsCode value text)
    (stands : content.drop offset = text ++ rest) : parseHex4 content offset = .ok value := by
  cases spelled with
  | digits first second third fourth =>
    have stands₁ := stands_tail stands
    have stands₂ := stands_tail stands₁
    have stands₃ := stands_tail stands₂
    rw [parseHex4, hexDigits_step stands first, hexDigits_step stands₁ second,
      hexDigits_step stands₂ third, hexDigits_step stands₃ fourth, hexDigits, Nat.mul_zero,
      Nat.zero_add]

theorem spellsCode_length {value : Nat} (spelled : SpellsCode value text) : text.length = 4 := by
  cases spelled with
  | digits first second third fourth => rfl

/-- The ten bits of each half of a surrogate pair. -/
theorem surrogates_bits {high low : Nat} (small : high < 0x400) (small' : low < 0x400) :
    surrogatePair (0xD800 + high) (0xDC00 + low) = 0x10000 + (high * 0x400 + low) := by
  have first : (0xD800 + high) &&& 0x3FF = high := by
    rw [Nat.and_two_pow_sub_one_eq_mod _ 10]
    omega
  have second : (0xDC00 + low) &&& 0x3FF = low := by
    rw [Nat.and_two_pow_sub_one_eq_mod _ 10]
    omega
  rw [surrogatePair, first, second, ← Nat.shiftLeft_add_eq_or_of_lt (show low < 2 ^ 10 from small'),
    Nat.shiftLeft_eq]

/-- A code point that is no surrogate. -/
theorem char_not_surrogate (char : Char) : ¬ (0xD800 ≤ char.toNat ∧ char.toNat ≤ 0xDFFF) ∧
    char.toNat ≤ 0x10FFFF := by
  rcases char.valid with low | ⟨above, high⟩
  · change char.toNat < 0xD800 at low
    omega
  · change 0xDFFF < char.toNat at above
    change char.toNat < 0x110000 at high
    omega

/-- A code by itself. -/
theorem utf16_code {char : Char} {digits : List UInt8} {inputEnd : Nat}
    (spelled : SpellsCode char.toNat digits)
    (stands : content.drop offset = 92 :: 117 :: (digits ++ rest)) (room : offset + 6 ≤ inputEnd) :
    utf16LiteralToUtf8 content offset inputEnd = .ok (some (String.utf8EncodeChar char, 6)) := by
  have first := parseHex4_spelled spelled (stands_tail (stands_tail stands))
  have single := (char_not_surrogate char).1
  unfold utf16LiteralToUtf8
  rw [if_neg (by omega), first]
  simp only [bind, Except.bind]
  rw [if_neg (by omega), if_neg (by omega), encodeUtf8_char]
  rfl

/-- Two halves that belong together. -/
theorem utf16_pair {bytes : List UInt8} {inputEnd first second : Nat} (room : offset + 12 ≤ inputEnd)
    (firstCode : parseHex4 content (offset + 2) = .ok first)
    (backslash : byteAt content (offset + 6) = .ok 92)
    (mark : byteAt content (offset + 7) = .ok 117)
    (secondCode : parseHex4 content (offset + 8) = .ok second)
    (high : 0xD800 ≤ first ∧ first ≤ 0xDBFF) (low : 0xDC00 ≤ second ∧ second ≤ 0xDFFF)
    (encoded : encodeUtf8 (surrogatePair first second) = some bytes) :
    utf16LiteralToUtf8 content offset inputEnd = .ok (some (bytes, 12)) := by
  have enough : ¬ inputEnd - offset < 6 := by omega
  have enough' : ¬ inputEnd - (offset + 6) < 6 := by omega
  have noLow : ¬ (0xDC00 ≤ first ∧ first ≤ 0xDFFF) := by omega
  have isLow : ¬ (second < 0xDC00 ∨ 0xDFFF < second) := by omega
  rw [utf16LiteralToUtf8, if_neg enough, firstCode, halt_ok_bind, if_neg noLow, if_pos high,
    if_neg enough', backslash, halt_ok_bind, mark, halt_ok_bind, if_neg (by decide), secondCode,
    halt_ok_bind, if_neg isLow, encoded]
  rfl

/-- A code point in two halves. -/
theorem utf16_surrogates {char : Char} {high low : List UInt8} {inputEnd : Nat}
    (large : 0x10000 ≤ char.toNat)
    (first : SpellsCode (0xD800 + (char.toNat - 0x10000) / 0x400) high)
    (second : SpellsCode (0xDC00 + (char.toNat - 0x10000) % 0x400) low)
    (stands : content.drop offset = 92 :: 117 :: (high ++ 92 :: 117 :: (low ++ rest)))
    (room : offset + 12 ≤ inputEnd) :
    utf16LiteralToUtf8 content offset inputEnd = .ok (some (String.utf8EncodeChar char, 12)) := by
  have stands₂ := stands_tail (stands_tail stands)
  have stands₆ := stands_next stands₂
  rw [spellsCode_length first] at stands₆
  have bound := (char_not_surrogate char).2
  have encoded := encodeUtf8_char char
  generalize bits_eq : char.toNat - 0x10000 = bits at first second
  have high_bits : bits / 0x400 < 0x400 := by omega
  have low_bits : bits % 0x400 < 0x400 := Nat.mod_lt _ (by decide)
  have whole : char.toNat = 0x10000 + (bits / 0x400 * 0x400 + bits % 0x400) := by omega
  rw [whole, ← surrogates_bits high_bits low_bits] at encoded
  exact utf16_pair room (parseHex4_spelled first stands₂) (byteAt_of_stands stands₆)
    (byteAt_of_stands (stands_tail stands₆))
    (parseHex4_spelled second (stands_tail (stands_tail stands₆)))
    ⟨Nat.le_add_right _ _, by omega⟩ ⟨Nat.le_add_right _ _, by omega⟩ encoded

/-- One character is one turn of the loop. -/
theorem unescapeOne_spelled {bytes : List UInt8} {inputEnd : Nat} (spelled : SpellsChar bytes text)
    (stands : content.drop offset = text ++ rest) (room : offset + text.length ≤ inputEnd) :
    unescapeOne content offset inputEnd = .ok (some (bytes, text.length)) := by
  unfold unescapeOne
  cases spelled with
  | plain printable quote backslash =>
    rw [byteAt_of_stands stands]
    exact if_pos backslash
  | @short c byte listed =>
    have next := byteAt_of_stands (stands_tail stands)
    rw [byteAt_of_stands stands]
    simp only [next, bind, Except.bind]
    simp only [List.length_cons, List.length_nil] at room
    rw [if_neg (by decide), if_neg (by omega)]
    have table : shortEscapes.all
        (fun pair => pair.1 != 117 && simpleEscape pair.1 == some pair.2) = true := by
      decide
    have entry := List.all_eq_true.mp table (c, byte) listed
    simp only [Bool.and_eq_true, bne_iff_ne, ne_eq, beq_iff_eq] at entry
    rw [if_neg entry.1, entry.2]
    rfl
  | @code char digits code =>
    have length := spellsCode_length code
    simp only [List.length_cons, length] at room
    rw [byteAt_of_stands stands]
    simp only [byteAt_of_stands (stands_tail stands), bind, Except.bind]
    rw [if_neg (by decide), if_neg (by omega), if_pos trivial, utf16_code code stands (by omega)]
    simp only [List.length_cons, length]
  | @surrogates char high low large first second =>
    have length := spellsCode_length first
    have length' := spellsCode_length second
    have split : content.drop offset = 92 :: 117 :: (high ++ 92 :: 117 :: (low ++ rest)) := by
      rw [stands]
      simp
    simp only [List.length_cons, List.length_append, length, length'] at room
    rw [byteAt_of_stands stands]
    simp only [byteAt_of_stands (stands_tail stands), bind, Except.bind]
    rw [if_neg (by decide), if_neg (by omega), if_pos trivial,
      utf16_surrogates large first second split (by omega)]
    simp only [List.length_cons, List.length_append, length, length']

/-- The loop turns the characters into their bytes. Nothing stops it, so it does not stop. -/
theorem unescape_spelled {bytes chars output : List UInt8} {inputEnd capacity turns : Nat}
    {final : Option (List UInt8)} (spelled : SpellsChars bytes chars)
    (stands : content.drop offset = chars ++ rest) (last : offset + chars.length = inputEnd)
    (ran : unescape content inputEnd capacity turns offset output = .ok final) :
    final = some (output ++ bytes) := by
  induction spelled generalizing offset output turns with
  | nil =>
    have done : ¬ offset < inputEnd := by
      rw [List.length_nil] at last
      omega
    rw [List.append_nil]
    cases turns with
    | zero =>
      rw [unescape, if_neg done] at ran
      exact (Except.ok.inj ran).symm
    | succ turns =>
      rw [unescape, if_neg done] at ran
      exact (Except.ok.inj ran).symm
  | @cons byte bytes char chars head tail ih =>
    have some_char : 0 < char.length := by
      cases head <;> simp
    rw [List.length_append] at last
    have more : offset < inputEnd := by omega
    rw [List.append_assoc] at stands
    cases turns with
    | zero =>
      rw [unescape, if_pos more] at ran
      cases ran
    | succ turns =>
      rw [unescape, if_pos more, unescapeOne_spelled head stands (by omega)] at ran
      change (emit capacity output byte >>= fun output =>
        unescape content inputEnd capacity turns (offset + char.length) output) = .ok final at ran
      unfold emit at ran
      split at ran
      · rw [← List.append_assoc]
        exact ih (stands_next stands) (by omega) ran
      · cases ran

end Stands

/-! ## Strings -/

theorem isHex_plain {digit : Nat} {c : UInt8} (hex : IsHex digit c) : c ≠ 34 ∧ c ≠ 92 := by
  constructor <;> intro same <;> rw [same] at hex <;>
    rcases hex with ⟨small, value⟩ | ⟨large, bound, value⟩ <;>
    simp only [UInt8.reduceToNat] at value <;> omega

theorem scanString_plain {c : UInt8} {text : List UInt8} {start skipped : Nat} (quote : c ≠ 34)
    (backslash : c ≠ 92) (nonempty : text ≠ []) :
    scanString (c :: text) start skipped = scanString text (start + 1) skipped := by
  obtain ⟨next, rest, rfl⟩ := List.exists_cons_of_ne_nil nonempty
  rw [scanString, if_neg quote, if_neg backslash]

theorem scanString_pair (next : UInt8) (text : List UInt8) (start skipped : Nat) :
    scanString (92 :: next :: text) start skipped = scanString text (start + 2) (skipped + 1) := by
  rw [scanString, if_neg (by decide), if_pos rfl]

theorem scanString_code {value : Nat} {digits text : List UInt8} {start skipped : Nat}
    (spelled : SpellsCode value digits) (nonempty : text ≠ []) :
    scanString (digits ++ text) start skipped = scanString text (start + 4) skipped := by
  cases spelled with
  | digits first second third fourth =>
    obtain ⟨quote₁, backslash₁⟩ := isHex_plain first
    obtain ⟨quote₂, backslash₂⟩ := isHex_plain second
    obtain ⟨quote₃, backslash₃⟩ := isHex_plain third
    obtain ⟨quote₄, backslash₄⟩ := isHex_plain fourth
    rw [List.cons_append, scanString_plain quote₁ backslash₁ (by simp), List.cons_append,
      scanString_plain quote₂ backslash₂ (by simp), List.cons_append,
      scanString_plain quote₃ backslash₃ (by simp), List.cons_append, List.nil_append,
      scanString_plain quote₄ backslash₄ nonempty]

/-- The scan passes the characters and stops at the quote. -/
theorem scanString_spelled {bytes chars rest : List UInt8} (spelled : SpellsChars bytes chars)
    (start skipped : Nat) :
    ∃ total, scanString (chars ++ 34 :: rest) start skipped = some (start + chars.length, total) := by
  induction spelled generalizing start skipped with
  | nil =>
    refine ⟨skipped, ?_⟩
    cases rest with
    | nil => rfl
    | cons next rest => rfl
  | @cons byte bytes char chars head tail ih =>
    have behind : chars ++ 34 :: rest ≠ [] := by simp
    rw [List.append_assoc, List.length_append]
    cases head with
    | plain printable quote backslash =>
      obtain ⟨total, scanned⟩ := ih (start + 1) skipped
      refine ⟨total, ?_⟩
      rw [List.singleton_append, scanString_plain quote backslash behind, scanned, Nat.add_assoc,
        List.length_singleton]
    | short listed =>
      obtain ⟨total, scanned⟩ := ih (start + 2) (skipped + 1)
      refine ⟨total, ?_⟩
      rw [List.cons_append, List.singleton_append, scanString_pair, scanned, Nat.add_assoc]
      rfl
    | @code char digits code =>
      obtain ⟨total, scanned⟩ := ih (start + 2 + 4) (skipped + 1)
      refine ⟨total, ?_⟩
      rw [List.cons_append, List.cons_append, scanString_pair, scanString_code code behind, scanned]
      simp only [List.length_cons, spellsCode_length code, Nat.add_assoc, Nat.reduceAdd]
    | @surrogates char high low large first second =>
      obtain ⟨total, scanned⟩ := ih (start + 2 + 4 + 2 + 4) (skipped + 1 + 1)
      refine ⟨total, ?_⟩
      have split : (92 :: 117 :: high ++ 92 :: 117 :: low) ++ (chars ++ 34 :: rest) =
          92 :: 117 :: (high ++ 92 :: 117 :: (low ++ (chars ++ 34 :: rest))) := by simp
      rw [split, scanString_pair, scanString_code first (by simp), scanString_pair,
        scanString_code second behind, scanned]
      simp only [List.length_append, List.length_cons, spellsCode_length first,
        spellsCode_length second, Nat.add_assoc, Nat.reduceAdd]

theorem upToNul_terminated (bytes : List UInt8) :
    CString.upToNul (bytes ++ [0]) = CString.upToNul bytes := by
  have same : (bytes ++ [0]).takeWhile (· ≠ 0) = bytes.takeWhile (· ≠ 0) := by
    induction bytes with
    | nil => rfl
    | cons byte bytes ih =>
      rw [List.cons_append, List.takeWhile_cons, List.takeWhile_cons, ih]
  unfold CString.upToNul
  simp only [same]

theorem ofBlock_upToNul (bytes : List UInt8) :
    CString.ofBlock (bytes ++ [0]) = .ok (CString.upToNul bytes) := by
  have member : (0 : UInt8) ∈ bytes ++ [0] := List.mem_append_right _ List.mem_cons_self
  rw [CString.ofBlock, if_pos member, upToNul_terminated]

/-- A string is read as the C string of its bytes, if its buffer was granted. -/
theorem takes_parseString {content bytes text rest : List UInt8} {offset : Nat}
    (spelled : SpellsString bytes text) (stands : content.drop offset = text ++ rest) :
    Takes 0 (parseString content offset) 1 (some (CString.upToNul bytes, offset + text.length))
      none := by
  cases spelled with
  | @quoted chars inner =>
    have body : content.drop (offset + 1) = chars ++ 34 :: rest := by
      rw [stands_tail stands]
      simp
    obtain ⟨skipped, scanned⟩ := @scanString_spelled _ _ rest inner (offset + 1) 0
    rw [← body] at scanned
    obtain ⟨output, ran⟩ := unescapeAll_ok scanned
    have value : output = some (bytes ++ [0]) := by
      have turned := ran
      rw [unescapeAll] at turned
      obtain ⟨final, looped⟩ : ∃ final, unescape content (offset + 1 + chars.length)
          (offset + 1 + chars.length - offset - skipped + 1) (offset + 1 + chars.length)
          (offset + 1) [] = .ok final := by
        cases loop : unescape content (offset + 1 + chars.length)
            (offset + 1 + chars.length - offset - skipped + 1) (offset + 1 + chars.length)
            (offset + 1) [] with
        | ok final => exact ⟨final, rfl⟩
        | error halt =>
          rw [loop] at turned
          cases turned
      rw [looped, unescape_spelled inner body rfl looped, halt_ok_bind] at turned
      simp only [List.nil_append] at turned
      unfold emit at turned
      split at turned
      · exact (Except.ok.inj turned).symm
      · cases turned
    unfold parseString
    rw [byteAt_of_stands stands, lift_bind, if_neg (by decide), scanned]
    simp only
    refine @Takes.bind _ _ 0 1 0 _ _ _ _ _ _ _ _ owns_allocate takes_allocate ?_ (ends_pure _ _)
    rw [if_pos rfl, ran, value, lift_bind]
    simp only [upToNul_terminated]
    have same : offset + 1 + chars.length + 1 = offset + (34 :: (chars ++ [34])).length := by
      rw [List.length_cons, List.length_append, List.length_singleton]
      omega
    rw [same]
    exact takes_pure _ _ _

end CNear.JsonParse
