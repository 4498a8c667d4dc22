import CNear.JsonParse

/-! The buffer of `parse_string` holds what the loop writes to it, for every text: each escape
that the scan skipped a byte for is written with a byte less, and what the loop makes of an
escape the scan saw otherwise is never longer. -/

namespace CNear.JsonParse
open Run

/-! ## The escapes that a scan sees -/

/-- The pairs that start with a backslash, from the start of a literal on. -/
def escapes : List UInt8 → Nat
  | [] => 0
  | [_] => 0
  | c :: next :: rest => if c = 92 then escapes rest + 1 else escapes (next :: rest)

theorem escapes_cons_of_ne {c : UInt8} (plain : c ≠ 92) (rest : List UInt8) :
    escapes (c :: rest) = escapes rest := by
  cases rest with
  | nil => rfl
  | cons next rest => rw [escapes, if_neg plain]

theorem escapes_pair (next : UInt8) (rest : List UInt8) :
    escapes (92 :: next :: rest) = escapes rest + 1 := by
  rw [escapes, if_pos rfl]

/-- A byte in front makes one pair more at most, wherever the pairs then start. -/
theorem escapes_cons (rest : List UInt8) (c : UInt8) :
    escapes rest ≤ escapes (c :: rest) ∧ escapes (c :: rest) ≤ escapes rest + 1 := by
  induction rest generalizing c with
  | nil => exact ⟨Nat.zero_le _, Nat.zero_le _⟩
  | cons next rest ih =>
    obtain ⟨grow, bound⟩ := ih next
    by_cases backslash : c = 92
    · rw [backslash, escapes_pair]
      exact ⟨bound, Nat.add_le_add_right grow 1⟩
    · rw [escapes_cons_of_ne backslash]
      exact ⟨Nat.le_refl _, Nat.le_succ _⟩

theorem escapes_drop (literal : List UInt8) (count : Nat) :
    escapes literal ≤ escapes (literal.drop count) + count := by
  induction count generalizing literal with
  | zero => exact Nat.le_refl _
  | succ count ih =>
    cases literal with
    | nil => exact Nat.zero_le _
    | cons c rest =>
      have head := (escapes_cons rest c).2
      have tail := ih rest
      rw [List.drop_succ_cons]
      omega

theorem escapes_le_length (literal : List UInt8) : escapes literal ≤ literal.length := by
  have all := escapes_drop literal literal.length
  rw [List.drop_length] at all
  exact all.trans_eq (Nat.zero_add _)

/-- Bytes without a backslash make no pair. -/
theorem escapes_drop_plain (literal : List UInt8) (count : Nat)
    (plain : ∀ i < count, ∀ c, literal[i]? = some c → c ≠ 92) :
    escapes literal = escapes (literal.drop count) := by
  induction count generalizing literal with
  | zero => rfl
  | succ count ih =>
    cases literal with
    | nil => rfl
    | cons c rest =>
      rw [escapes_cons_of_ne (plain 0 (by omega) c rfl), List.drop_succ_cons]
      apply ih
      intro i bound d found
      exact plain (i + 1) (by omega) d found

/-- The scan ends at a quote and has counted the pairs before it. -/
theorem scanString_spec {text : List UInt8} {start skipped inputEnd total : Nat}
    (scanned : scanString text start skipped = some (inputEnd, total)) :
    ∃ literal rest, text = literal ++ 34 :: rest ∧ inputEnd = start + literal.length ∧
      total = skipped + escapes literal := by
  induction text, start, skipped using scanString.induct with
  | case1 => cases scanned
  | case2 start skipped =>
    rw [scanString, if_pos rfl] at scanned
    cases scanned
    exact ⟨[], [], rfl, rfl, rfl⟩
  | case3 c start skipped other =>
    rw [scanString, if_neg other] at scanned
    cases scanned
  | case4 next rest start skipped =>
    rw [scanString, if_pos rfl] at scanned
    cases scanned
    exact ⟨[], next :: rest, rfl, rfl, rfl⟩
  | case5 next rest start skipped other ih =>
    rw [scanString, if_neg other, if_pos rfl] at scanned
    obtain ⟨literal, behind, shape, length, count⟩ := ih scanned
    refine ⟨92 :: next :: literal, behind, by rw [shape]; rfl, ?_, ?_⟩
    · rw [length, List.length_cons, List.length_cons]
      omega
    · rw [count, escapes_pair]
      omega
  | case6 c next rest start skipped other plain ih =>
    rw [scanString, if_neg other, if_neg plain] at scanned
    obtain ⟨literal, behind, shape, length, count⟩ := ih scanned
    refine ⟨c :: literal, behind, by rw [shape]; rfl, ?_, ?_⟩
    · rw [length, List.length_cons]
      omega
    · rw [count, escapes_cons_of_ne plain]

/-! ## One turn of the loop -/

section Turn
variable {content : List UInt8} {inputPointer inputEnd : Nat}

theorem byteAt_ok {i : Nat} (inside : i < content.length) : byteAt content i = .ok content[i] := by
  rw [byteAt, List.getElem?_eq_getElem inside]

/-- What is left of the literal. -/
def left (content : List UInt8) (inputPointer inputEnd : Nat) : List UInt8 :=
  (content.take inputEnd).drop inputPointer

theorem left_drop (count : Nat) :
    (left content inputPointer inputEnd).drop count = left content (inputPointer + count) inputEnd := by
  rw [left, left, List.drop_drop]

theorem left_getElem? {i : Nat} (inside : inputPointer + i < inputEnd) :
    (left content inputPointer inputEnd)[i]? = content[inputPointer + i]? := by
  rw [left, List.getElem?_drop, List.getElem?_take_of_lt inside]

theorem left_eq_cons (inside : inputPointer < inputEnd) (bound : inputEnd ≤ content.length) :
    left content inputPointer inputEnd =
      content[inputPointer] :: left content (inputPointer + 1) inputEnd := by
  have present : inputPointer < (content.take inputEnd).length := by
    rw [List.length_take]
    omega
  rw [left, left, List.drop_eq_getElem_cons present, List.getElem_take]

theorem left_nil (past : inputEnd ≤ inputPointer) : left content inputPointer inputEnd = [] := by
  apply List.drop_eq_nil_of_le
  rw [List.length_take]
  omega

theorem hexDigit_spec {c : UInt8} {digit : Nat} (found : hexDigit c = some digit) :
    digit < 16 ∧ c ≠ 92 := by
  unfold hexDigit at found
  simp only [UInt8.le_iff_toNat_le] at found
  have different : c.toNat ≠ 92 → c ≠ 92 := by
    intro other same
    rw [same] at other
    exact other rfl
  split_ifs at found with decimal upper lower
  · have bounds : 48 ≤ c.toNat ∧ c.toNat ≤ 57 := decimal
    cases found
    exact ⟨by omega, different (by omega)⟩
  · have bounds : 65 ≤ c.toNat ∧ c.toNat ≤ 70 := upper
    cases found
    exact ⟨by omega, different (by omega)⟩
  · have bounds : 97 ≤ c.toNat ∧ c.toNat ≤ 102 := lower
    cases found
    exact ⟨by omega, different (by omega)⟩

theorem hexDigits_succ (count h : Nat) (inside : inputPointer < content.length) :
    hexDigits content (count + 1) inputPointer h =
      match hexDigit content[inputPointer] with
      | none => .ok 0
      | some digit => hexDigits content count (inputPointer + 1) (16 * h + digit) := by
  rw [hexDigits, byteAt_ok inside]
  rfl

/-- Digits with a value are hexadecimal, and no backslash is. -/
theorem hexDigits_spec {count h : Nat} (bound : inputPointer + count ≤ content.length) :
    ∃ value, hexDigits content count inputPointer h = .ok value ∧ value < (h + 1) * 16 ^ count ∧
      (value ≠ 0 → ∀ i < count, ∀ c, content[inputPointer + i]? = some c → c ≠ 92) := by
  induction count generalizing inputPointer h with
  | zero => exact ⟨h, rfl, by omega, fun _ i bound => absurd bound (Nat.not_lt_zero i)⟩
  | succ count ih =>
    have inside : inputPointer < content.length := by omega
    rw [hexDigits_succ count h inside]
    cases digit : hexDigit content[inputPointer] with
    | none =>
      refine ⟨0, rfl, ?_, fun nonzero => absurd rfl nonzero⟩
      exact Nat.mul_pos (Nat.succ_pos h) (Nat.pow_pos (by decide))
    | some value =>
      obtain ⟨small, plain⟩ := hexDigit_spec digit
      obtain ⟨total, ran, less, digits⟩ := @ih (inputPointer + 1) (16 * h + value) (by omega)
      refine ⟨total, ran, ?_, ?_⟩
      · calc
          total < (16 * h + value + 1) * 16 ^ count := less
          _ ≤ (h + 1) * 16 * 16 ^ count := Nat.mul_le_mul_right _ (by omega)
          _ = (h + 1) * 16 ^ (count + 1) := by
            rw [pow_succ]
            ring
      · intro nonzero i few c found
        cases i with
        | zero =>
          rw [Nat.add_zero, List.getElem?_eq_getElem inside] at found
          rw [← Option.some.inj found]
          exact plain
        | succ i =>
          apply digits nonzero i (by omega) c
          rw [← found]
          congr 1
          omega

/-- Four digits with a value are one plain run of the literal. -/
theorem parseHex4_spec (bound : inputPointer + 4 ≤ inputEnd) (inside : inputEnd ≤ content.length) :
    ∃ value, parseHex4 content inputPointer = .ok value ∧ value < 0x10000 ∧ (value ≠ 0 →
      escapes (left content inputPointer inputEnd) =
        escapes (left content (inputPointer + 4) inputEnd)) := by
  obtain ⟨value, ran, less, digits⟩ := @hexDigits_spec content inputPointer 4 0 (by omega)
  refine ⟨value, ran, less, ?_⟩
  intro nonzero
  rw [← left_drop]
  apply escapes_drop_plain
  intro i few c found
  rw [left_getElem? (by omega)] at found
  exact digits nonzero i few c found

theorem continuationBytes_length (count codepoint : Nat) (tail : List UInt8) :
    (continuationBytes count codepoint tail).2.length = count + tail.length := by
  induction count generalizing codepoint tail with
  | zero => exact (Nat.zero_add _).symm
  | succ count ih =>
    rw [continuationBytes, ih, List.length_cons]
    omega

/-- A code point takes four bytes, below the surrogates three, and below 128 one. -/
theorem encodeUtf8_length {codepoint : Nat} {bytes : List UInt8}
    (encoded : encodeUtf8 codepoint = some bytes) :
    bytes.length ≤ 4 ∧ (codepoint < 0x10000 → bytes.length ≤ 3) ∧
      (codepoint < 0x80 → bytes.length = 1) := by
  unfold encodeUtf8 at encoded
  simp only at encoded
  split_ifs at encoded with one two three four <;> cases encoded
  · exact ⟨Nat.le_add_left 1 3, fun _ => Nat.le_add_left 1 2, fun _ => rfl⟩
  · simp only [List.length_cons, continuationBytes_length, List.length_nil]
    exact ⟨by decide, fun _ => by decide, fun small => absurd small one⟩
  · simp only [List.length_cons, continuationBytes_length, List.length_nil]
    exact ⟨by decide, fun _ => by decide, fun small => absurd small one⟩
  · simp only [List.length_cons, continuationBytes_length, List.length_nil]
    exact ⟨by decide, fun small => absurd small three, fun small => absurd small one⟩

/-- What one turn writes is paid for by what it takes from the literal: the turn stays in the
literal, or takes its last byte with the quote behind it. -/
def Paid (content : List UInt8) (inputPointer inputEnd : Nat) (bytes : List UInt8) (length : Nat) :
    Prop :=
  0 < length ∧ bytes.length ≤ length ∧
    ((inputPointer + length ≤ inputEnd ∧
      bytes.length + escapes (left content inputPointer inputEnd) ≤
        length + escapes (left content (inputPointer + length) inputEnd)) ∨
    (inputPointer + 1 = inputEnd ∧ length = 2 ∧ bytes.length = 1))

theorem escapes_left_pair (backslash : content[inputPointer]? = some 92)
    (room : inputPointer + 1 < inputEnd) (inside : inputEnd ≤ content.length) :
    escapes (left content inputPointer inputEnd) =
      escapes (left content (inputPointer + 2) inputEnd) + 1 := by
  have first : content[inputPointer] = 92 := by
    rw [List.getElem?_eq_getElem (by omega)] at backslash
    exact Option.some.inj backslash
  rw [left_eq_cons (by omega) inside, first, left_eq_cons room inside, escapes_pair]

theorem utf16_paid (inside : inputEnd ≤ content.length)
    (backslash : content[inputPointer]? = some 92) :
    ∃ written, utf16LiteralToUtf8 content inputPointer inputEnd = .ok written ∧
      ∀ bytes length, written = some (bytes, length) →
        Paid content inputPointer inputEnd bytes length := by
  unfold utf16LiteralToUtf8
  by_cases short : inputEnd - inputPointer < 6
  · exact ⟨none, if_pos short, fun bytes length impossible => by cases impossible⟩
  rw [if_neg short]
  have pair := escapes_left_pair backslash (by omega) inside
  obtain ⟨firstCode, first, small, digits⟩ :=
    @parseHex4_spec content (inputPointer + 2) inputEnd (by omega) inside
  have crude := escapes_drop (left content (inputPointer + 2) inputEnd) 4
  rw [left_drop] at crude
  simp only [first, bind, Except.bind]
  split_ifs with low high tail
  · exact ⟨none, rfl, fun bytes length impossible => by cases impossible⟩
  · exact ⟨none, rfl, fun bytes length impossible => by cases impossible⟩
  · -- A surrogate pair: both codes have a value, so neither hides an escape.
    have backslash_inside : inputPointer + 6 < content.length := by omega
    have mark_inside : inputPointer + 7 < content.length := by omega
    simp only [byteAt_ok backslash_inside, byteAt_ok mark_inside]
    split_ifs with other
    · exact ⟨none, rfl, fun bytes length impossible => by cases impossible⟩
    · obtain ⟨secondCode, second, -, digits'⟩ :=
        @parseHex4_spec content (inputPointer + 8) inputEnd (by omega) inside
      have second_pair := @escapes_left_pair content (inputPointer + 6) inputEnd
        (by rw [List.getElem?_eq_getElem backslash_inside, (not_not.mp (not_or.mp other).1)])
        (by omega) inside
      simp only [second]
      split_ifs with outside
      · exact ⟨none, rfl, fun bytes length impossible => by cases impossible⟩
      · refine ⟨_, rfl, ?_⟩
        intro bytes length written
        obtain ⟨encoded, found, same⟩ := Option.map_eq_some_iff.mp written
        cases same
        have bound := (encodeUtf8_length found).1
        have plain := digits (by omega)
        have plain' := digits' (by omega)
        simp only [Nat.add_assoc, Nat.reduceAdd] at plain plain' second_pair
        exact ⟨by omega, by omega, Or.inl ⟨by omega, by omega⟩⟩
  · refine ⟨_, rfl, ?_⟩
    intro bytes length written
    obtain ⟨encoded, found, same⟩ := Option.map_eq_some_iff.mp written
    cases same
    obtain ⟨-, three, one⟩ := encodeUtf8_length found
    have few := three small
    simp only [Nat.add_assoc, Nat.reduceAdd] at digits crude
    refine ⟨by omega, by omega, Or.inl ⟨by omega, ?_⟩⟩
    by_cases ascii_code : firstCode < 0x80
    · have single := one ascii_code
      omega
    · have plain := digits (by omega)
      omega

/-- A turn reads within the buffer and pays for what it writes. -/
theorem unescapeOne_paid (room : inputPointer < inputEnd) (inside : inputEnd < content.length) :
    ∃ written, unescapeOne content inputPointer inputEnd = .ok written ∧
      ∀ bytes length, written = some (bytes, length) →
        Paid content inputPointer inputEnd bytes length := by
  have here : inputPointer < content.length := room.trans inside
  have next : inputPointer + 1 < content.length := by omega
  unfold unescapeOne
  simp only [byteAt_ok here, byteAt_ok next, bind, Except.bind]
  have head := left_eq_cons room inside.le
  split_ifs with plain empty mark
  · refine ⟨_, rfl, ?_⟩
    intro bytes length written
    cases written
    refine ⟨Nat.one_pos, Nat.le_refl 1, Or.inl ⟨by omega, ?_⟩⟩
    rw [head, escapes_cons_of_ne plain]
    exact Nat.le_refl _
  · omega
  · apply utf16_paid inside.le
    rw [List.getElem?_eq_getElem here, not_not.mp plain]
  · refine ⟨_, rfl, ?_⟩
    intro bytes length written
    obtain ⟨byte, found, same⟩ := Option.map_eq_some_iff.mp written
    cases same
    refine ⟨Nat.two_pos, one_le_two, ?_⟩
    by_cases last : inputPointer + 1 = inputEnd
    · exact Or.inr ⟨last, rfl, rfl⟩
    · left
      have pair := @escapes_left_pair content inputPointer inputEnd
        (by rw [List.getElem?_eq_getElem here, not_not.mp plain]) (by omega) inside.le
      refine ⟨by omega, ?_⟩
      rw [pair, List.length_singleton]
      omega

end Turn

/-! ## The loop -/

section Loop
variable {content : List UInt8} {inputEnd : Nat}

theorem escapes_left_le (inputPointer : Nat) :
    escapes (left content inputPointer inputEnd) ≤ inputEnd - inputPointer := by
  apply (escapes_le_length _).trans
  rw [left, List.length_drop, List.length_take]
  omega

/-- With room for what is left of the literal less its escapes, every turn has room. -/
theorem unescape_fits {capacity bound : Nat} (inside : inputEnd < content.length)
    (fits : bound ≤ capacity) (turns inputPointer : Nat) (output : List UInt8) (enough : inputEnd ≤ inputPointer + turns)
    (room : output.length + (inputEnd - inputPointer) ≤
      bound + escapes (left content inputPointer inputEnd)) :
    ∃ final, unescape content inputEnd capacity turns inputPointer output = .ok final ∧
      ∀ bytes, final = some bytes → bytes.length ≤ bound := by
  have ended : ∀ {inputPointer : Nat} {output : List UInt8}, inputEnd ≤ inputPointer →
      output.length + (inputEnd - inputPointer) ≤
        bound + escapes (left content inputPointer inputEnd) →
      ∀ bytes, some output = some bytes → bytes.length ≤ bound := by
    intro inputPointer output past room bytes same
    have nothing : escapes (left content inputPointer inputEnd) = 0 := by
      rw [left_nil past]
      rfl
    cases same
    omega
  induction turns generalizing inputPointer output with
  | zero => exact ⟨some output, if_neg (by omega), ended (by omega) room⟩
  | succ turns ih =>
    rw [unescape]
    by_cases more : inputPointer < inputEnd
    · obtain ⟨written, ran, paid⟩ := unescapeOne_paid more inside
      rw [if_pos more, ran]
      cases written with
      | none => exact ⟨none, rfl, fun bytes impossible => by cases impossible⟩
      | some pair =>
        obtain ⟨bytes, length⟩ := pair
        obtain ⟨advance, -, account⟩ := paid bytes length rfl
        have here := @escapes_left_le content inputEnd inputPointer
        have rest := @escapes_left_le content inputEnd (inputPointer + length)
        have last : inputPointer + 1 = inputEnd →
            escapes (left content inputPointer inputEnd) = 0 := by
          intro one
          rw [left_eq_cons more inside.le, left_nil one.ge]
          rfl
        have written_fits : output.length + bytes.length ≤ capacity := by
          rcases account with ⟨stays, cost⟩ | ⟨one, two, single⟩
          · omega
          · have none := last one
            omega
        have emitted : emit capacity output bytes = .ok (output ++ bytes) := if_pos written_fits
        change ∃ final, (emit capacity output bytes >>= fun output =>
          unescape content inputEnd capacity turns (inputPointer + length) output) = .ok final ∧ _
        rw [emitted]
        apply ih
        · omega
        · rw [List.length_append]
          rcases account with ⟨stays, cost⟩ | ⟨one, two, single⟩
          · omega
          · have none := last one
            omega
    · rw [if_neg more]
      exact ⟨some output, rfl, ended (by omega) room⟩

end Loop

/-! ## `parse_string` -/

/-- Where the scan of a string ends. -/
theorem scanString_at {content : List UInt8} {offset inputEnd skippedBytes : Nat}
    (scanned : scanString (content.drop (offset + 1)) (offset + 1) 0 = some (inputEnd, skippedBytes)) :
    offset + 1 ≤ inputEnd ∧ inputEnd < content.length ∧ content[inputEnd]? = some 34 ∧
      skippedBytes = escapes (left content (offset + 1) inputEnd) := by
  obtain ⟨literal, rest, shape, length, count⟩ := scanString_spec scanned
  have some_left : content.drop (offset + 1) ≠ [] := by simp [shape]
  have before : offset + 1 < content.length := by
    by_contra none
    exact some_left (List.drop_eq_nil_of_le (not_lt.mp none))
  have split : content = content.take (offset + 1) ++ (literal ++ 34 :: rest) := by
    rw [← shape, List.take_append_drop]
  have head : (content.take (offset + 1)).length = offset + 1 := by
    rw [List.length_take]
    omega
  have quote : content[inputEnd]? = some 34 := by
    rw [split, List.getElem?_append_right (by omega), head, length, Nat.add_sub_cancel_left]
    simp
  refine ⟨by omega, ?_, quote, ?_⟩
  · exact (List.getElem?_eq_some_iff.mp quote).1
  · rw [count, Nat.zero_add, length]
    congr 1
    conv_rhs => rw [left, split]
    rw [← List.append_assoc, List.take_append_of_le_length, List.take_of_length_le]
    · exact (List.drop_left' head).symm
    · rw [List.length_append, head]
    · rw [List.length_append, head]

/-- The buffer is large enough for the string and its terminator, whatever the text is. -/
theorem unescapeAll_ok {content : List UInt8} {offset inputEnd skippedBytes : Nat}
    (scanned : scanString (content.drop (offset + 1)) (offset + 1) 0 = some (inputEnd, skippedBytes)) :
    ∃ output, unescapeAll content offset inputEnd (inputEnd - offset - skippedBytes + 1) =
      .ok output := by
  obtain ⟨start, inside, -, count⟩ := scanString_at scanned
  have few := @escapes_left_le content inputEnd (offset + 1)
  obtain ⟨final, ran, bound⟩ :=
    @unescape_fits content inputEnd (inputEnd - offset - skippedBytes + 1)
      (inputEnd - (offset + 1) - skippedBytes) inside (by omega) inputEnd (offset + 1) []
      (by omega) (by
        rw [List.length_nil]
        omega)
  unfold unescapeAll
  rw [ran]
  cases final with
  | none => exact ⟨none, rfl⟩
  | some bytes =>
    have room := bound bytes rfl
    refine ⟨some (bytes ++ [0]), ?_⟩
    change (emit (inputEnd - offset - skippedBytes + 1) bytes [0] >>= fun output => _) = _
    have emitted : emit (inputEnd - offset - skippedBytes + 1) bytes [0] = .ok (bytes ++ [0]) := by
      apply if_pos
      rw [List.length_singleton]
      omega
    rw [emitted]
    rfl

/-- The block of a string that was parsed. -/
def heldString : Option (CString × Nat) → Nat
  | none => 0
  | some _ => 1

/-- A string ends behind its start and in the buffer. -/
def StringEnds (content : List UInt8) (offset : Nat) (parsed : Option (CString × Nat)) : Prop :=
  ∀ text behind, parsed = some (text, behind) → offset + 2 ≤ behind ∧ behind ≤ content.length

theorem owns_parseString {content : List UInt8} {offset : Nat} (inside : offset < content.length) :
    Owns 0 (parseString content offset) heldString (StringEnds content offset) := by
  have ends_none : StringEnds content offset none := by
    intro text behind impossible
    cases impossible
  unfold parseString
  rw [byteAt_ok inside, lift_bind]
  split_ifs with other
  · exact owns_pure ends_none rfl
  cases scanned : scanString (content.drop (offset + 1)) (offset + 1) 0 with
  | none => exact owns_pure ends_none rfl
  | some pair =>
    obtain ⟨inputEnd, skippedBytes⟩ := pair
    obtain ⟨start, bound, -, -⟩ := scanString_at scanned
    obtain ⟨output, ran⟩ := unescapeAll_ok scanned
    apply owns_allocate.bind
    intro granted _
    cases granted with
    | false => exact owns_pure ends_none rfl
    | true =>
      simp only [if_true]
      rw [ran, lift_bind]
      cases output with
      | none => exact owns_release_then ends_none rfl
      | some output =>
        change Owns 1 (pure (some (CString.upToNul output, inputEnd + 1))) heldString _
        refine owns_pure ?_ rfl
        intro text behind same
        cases same
        omega

end CNear.JsonParse
