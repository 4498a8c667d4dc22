import CNear.JsonStringSafety

/-! Whatever the text and whatever the allocator answers, the parser reads within the buffer,
comes to an end, frees what it gave up and keeps exactly the blocks of the value it returns.
The value is nested no deeper than the limit. -/

namespace CNear.JsonParse
open CJson NumberText Run

/-! ## What is said of a value -/

mutual

/-- The arrays and objects around the innermost value. -/
def nesting : Json → Nat
  | .array items => nestingOfItems items + 1
  | .object members => nestingOfMembers members + 1
  | _ => 0

def nestingOfItems : List Json → Nat
  | [] => 0
  | item :: items => max (nesting item) (nestingOfItems items)

def nestingOfMembers : List (CString × Json) → Nat
  | [] => 0
  | (_, item) :: members => max (nesting item) (nestingOfMembers members)

end

mutual

/-- Every number is one that a `double` holds. -/
def Doubles : Json → Prop
  | .number valuedouble => IsDouble valuedouble
  | .array items => DoublesItems items
  | .object members => DoublesMembers members
  | _ => True

def DoublesItems : List Json → Prop
  | [] => True
  | item :: items => Doubles item ∧ DoublesItems items

def DoublesMembers : List (CString × Json) → Prop
  | [] => True
  | (_, item) :: members => Doubles item ∧ DoublesMembers members

end

section Append
variable (value : Json) (name : CString)

theorem blocksOfItems_append (head : List Json) :
    blocksOfItems (head ++ [value]) = blocksOfItems head + 1 + blocks value := by
  induction head with
  | nil => simp [blocksOfItems]
  | cons item items ih =>
    rw [List.cons_append, blocksOfItems, blocksOfItems, ih]
    omega

theorem blocksOfMembers_append (head : List (CString × Json)) :
    blocksOfMembers (head ++ [(name, value)]) = blocksOfMembers head + 2 + blocks value := by
  induction head with
  | nil => simp [blocksOfMembers]
  | cons member members ih =>
    rw [List.cons_append, blocksOfMembers, blocksOfMembers, ih]
    omega

theorem nestingOfItems_append (head : List Json) :
    nestingOfItems (head ++ [value]) = max (nestingOfItems head) (nesting value) := by
  induction head with
  | nil => simp [nestingOfItems]
  | cons item items ih => rw [List.cons_append, nestingOfItems, nestingOfItems, ih, max_assoc]

theorem nestingOfMembers_append (head : List (CString × Json)) :
    nestingOfMembers (head ++ [(name, value)]) = max (nestingOfMembers head) (nesting value) := by
  induction head with
  | nil => simp [nestingOfMembers]
  | cons member members ih => rw [List.cons_append, nestingOfMembers, nestingOfMembers, ih, max_assoc]

theorem doublesItems_append (head : List Json) :
    DoublesItems (head ++ [value]) ↔ DoublesItems head ∧ Doubles value := by
  induction head with
  | nil => simp [DoublesItems]
  | cons item items ih => rw [List.cons_append, DoublesItems, DoublesItems, ih, and_assoc]

theorem doublesMembers_append (head : List (CString × Json)) :
    DoublesMembers (head ++ [(name, value)]) ↔ DoublesMembers head ∧ Doubles value := by
  induction head with
  | nil => simp [DoublesMembers]
  | cons member members ih => rw [List.cons_append, DoublesMembers, DoublesMembers, ih, and_assoc]

end Append

/-! ## Offsets -/

section Offsets
variable {content : List UInt8} {offset : Nat}

theorem skipWhitespace_bounds (inside : offset ≤ content.length) :
    offset ≤ skipWhitespace content offset ∧ skipWhitespace content offset ≤ content.length ∧
      (offset < content.length → skipWhitespace content offset < content.length) := by
  have run : ((content.drop offset).takeWhile (· ≤ 32)).length ≤ content.length - offset := by
    rw [← List.length_drop]
    exact (List.takeWhile_prefix _).length_le
  unfold skipWhitespace
  simp only
  split_ifs <;> omega

theorem sees_inside {byte : UInt8} (seen : sees content offset byte = true) :
    offset < content.length := by
  rw [sees, beq_iff_eq] at seen
  exact (List.getElem?_eq_some_iff.mp seen).1

theorem reads_inside {text : List UInt8} (read : reads content offset text = true) :
    offset + text.length ≤ content.length ∨ text = [] := by
  rw [reads, beq_iff_eq] at read
  have length := congrArg List.length read
  rw [List.length_take, List.length_drop] at length
  rcases text with _ | ⟨c, rest⟩
  · exact Or.inr rfl
  · left
    rw [List.length_cons] at length ⊢
    omega

end Offsets

/-! ## The parser -/

/-- The blocks of a value that was parsed. -/
def heldValue : Option (Json × Nat) → Nat
  | none => 0
  | some (value, _) => blocks value

/-- A value ends behind its start and in the buffer, is not nested too deep, and its numbers
are doubles. -/
def ValueEnds (content : List UInt8) (depth offset : Nat) (parsed : Option (Json × Nat)) : Prop :=
  ∀ value behind, parsed = some (value, behind) → offset < behind ∧ behind ≤ content.length ∧
    nesting value + depth ≤ nestingLimit ∧ Doubles value

section Parser
variable {content : List UInt8}

theorem valueEnds_none (depth offset : Nat) : ValueEnds content depth offset none := by
  intro value behind impossible
  cases impossible

theorem valueEnds_some {depth offset behind : Nat} {value : Json} (advance : offset < behind)
    (inside : behind ≤ content.length) (shallow : nesting value + depth ≤ nestingLimit)
    (doubles : Doubles value) : ValueEnds content depth offset (some (value, behind)) := by
  intro value' behind' same
  cases same
  exact ⟨advance, inside, shallow, doubles⟩

theorem ValueEnds.earlier {depth offset later : Nat} {parsed : Option (Json × Nat)}
    (ends : ValueEnds content depth later parsed) (le : offset ≤ later) :
    ValueEnds content depth offset parsed := by
  intro value behind same
  obtain ⟨advance, rest⟩ := ends value behind same
  exact ⟨le.trans_lt advance, rest⟩

/-- What holds of `parse_value` with so many turns. -/
def ValueSafe (content : List UInt8) (turns : Nat) : Prop :=
  ∀ depth offset, depth ≤ nestingLimit → offset ≤ content.length →
    4 * (content.length - offset) + 1 ≤ turns →
    Owns 0 (parseValue content turns depth offset) heldValue (ValueEnds content depth offset)

/-- The loop of `parse_array` is handed the list so far and frees it where it fails. -/
def ElementsSafe (content : List UInt8) (turns : Nat) : Prop :=
  ∀ depth offset head, nestingOfItems head + (depth + 1) ≤ nestingLimit → DoublesItems head →
    offset < content.length → 4 * (content.length - offset) ≤ turns + 1 →
    Owns (blocksOfItems head) (parseElements content turns (depth + 1) offset head) heldValue
      (ValueEnds content depth offset)

def MembersSafe (content : List UInt8) (turns : Nat) : Prop :=
  ∀ depth offset head, nestingOfMembers head + (depth + 1) ≤ nestingLimit → DoublesMembers head →
    offset < content.length → 4 * (content.length - offset) ≤ turns + 1 →
    Owns (blocksOfMembers head) (parseMembers content turns (depth + 1) offset head) heldValue
      (ValueEnds content depth offset)

theorem elementsSafe_succ {turns : Nat} (value_safe : ValueSafe content turns)
    (elements_safe : ElementsSafe content turns) : ElementsSafe content (turns + 1) := by
  intro depth offset head shallow doubles inside enough
  obtain ⟨start, bound, -⟩ := @skipWhitespace_bounds content (offset + 1) inside
  rw [parseElements]
  apply (owns_allocate.beside (blocksOfItems head)).bind
  intro granted _
  cases granted with
  | false => exact owns_release_then (valueEnds_none _ _) rfl
  | true =>
    simp only [if_true]
    have parsed := value_safe (depth + 1) (skipWhitespace content (offset + 1)) (by omega) bound
      (by omega)
    apply (parsed.beside (blocksOfItems head + 1)).bind
    intro result ends
    cases result with
    | none => exact owns_release_then (valueEnds_none _ _) rfl
    | some pair =>
      obtain ⟨value, behind⟩ := pair
      obtain ⟨advance, within, deep, numbers⟩ := ends value behind rfl
      obtain ⟨later, stays, -⟩ := skipWhitespace_bounds within
      have shallow' : nestingOfItems (head ++ [value]) + (depth + 1) ≤ nestingLimit := by
        rw [nestingOfItems_append]
        omega
      have doubles' : DoublesItems (head ++ [value]) :=
        (doublesItems_append value head).mpr ⟨doubles, numbers⟩
      change Owns (blocksOfItems head + 1 + blocks value) _ _ _
      rw [← blocksOfItems_append]
      simp only
      split_ifs with comma closed
      · have next := sees_inside comma
        exact (elements_safe depth _ _ shallow' doubles' next (by omega)).weaken fun parsed ends =>
          ends.earlier (by omega)
      · have last := sees_inside closed
        refine owns_pure (valueEnds_some (by omega) (by omega) ?_ doubles') rfl
        rw [nesting]
        omega
      · exact owns_release_then (valueEnds_none _ _) rfl

theorem membersSafe_succ {turns : Nat} (value_safe : ValueSafe content turns)
    (members_safe : MembersSafe content turns) : MembersSafe content (turns + 1) := by
  intro depth offset head shallow doubles inside enough
  obtain ⟨start, bound, before⟩ := @skipWhitespace_bounds content (offset + 1) inside
  rw [parseMembers]
  apply (owns_allocate.beside (blocksOfMembers head)).bind
  intro granted _
  cases granted with
  | false => exact owns_release_then (valueEnds_none _ _) rfl
  | true =>
    simp only [if_true]
    split_ifs with nothing
    · exact owns_release_then (valueEnds_none _ _) rfl
    have named := owns_parseString (before (not_le.mp nothing))
    apply (named.beside (blocksOfMembers head + 1)).bind
    intro result ends
    cases result with
    | none => exact owns_release_then (valueEnds_none _ _) rfl
    | some pair =>
      obtain ⟨name, behind⟩ := pair
      obtain ⟨advance, within⟩ := ends name behind rfl
      obtain ⟨later, stays, -⟩ := skipWhitespace_bounds within
      change Owns (blocksOfMembers head + 2) _ _ _
      simp only
      split_ifs with colon
      · have next := sees_inside colon
        obtain ⟨value_start, value_bound, -⟩ :=
          @skipWhitespace_bounds content (skipWhitespace content behind + 1) next
        have parsed := value_safe (depth + 1)
          (skipWhitespace content (skipWhitespace content behind + 1)) (by omega) value_bound (by omega)
        apply (parsed.beside (blocksOfMembers head + 2)).bind
        intro result ends
        cases result with
        | none => exact owns_release_then (valueEnds_none _ _) rfl
        | some pair =>
          obtain ⟨value, last⟩ := pair
          obtain ⟨forward, room, deep, numbers⟩ := ends value last rfl
          obtain ⟨after, fits, -⟩ := skipWhitespace_bounds room
          have shallow' : nestingOfMembers (head ++ [(name, value)]) + (depth + 1) ≤ nestingLimit := by
            rw [nestingOfMembers_append]
            omega
          have doubles' : DoublesMembers (head ++ [(name, value)]) :=
            (doublesMembers_append value name head).mpr ⟨doubles, numbers⟩
          change Owns (blocksOfMembers head + 2 + blocks value) _ _ _
          rw [← blocksOfMembers_append value name]
          simp only
          split_ifs with comma closed
          · have another := sees_inside comma
            exact (members_safe depth _ _ shallow' doubles' another (by omega)).weaken
              fun parsed ends => ends.earlier (by omega)
          · have final := sees_inside closed
            refine owns_pure (valueEnds_some (by omega) (by omega) ?_ doubles') rfl
            rw [nesting]
            omega
          · exact owns_release_then (valueEnds_none _ _) rfl
      · exact owns_release_then (valueEnds_none _ _) rfl

/-- What holds of `parse_array` and of `parse_object` with so many turns. -/
def BracketSafe (content : List UInt8) (parse : (turns depth offset : Nat) → Run (Option (Json × Nat)))
    (turns : Nat) : Prop :=
  ∀ depth offset, depth ≤ nestingLimit → offset < content.length →
    4 * (content.length - offset) ≤ turns →
    Owns 0 (parse turns depth offset) heldValue (ValueEnds content depth offset)

theorem arraySafe_succ {turns : Nat} (elements_safe : ElementsSafe content turns) :
    BracketSafe content (parseArray content) (turns + 1) := by
  intro depth offset limit inside enough
  obtain ⟨start, bound, -⟩ := @skipWhitespace_bounds content (offset + 1) inside
  rw [parseArray]
  split_ifs with deep
  · exact owns_pure (valueEnds_none _ _) rfl
  rw [byteAt_ok inside, lift_bind]
  simp only
  split_ifs with other closed past
  · exact owns_pure (valueEnds_none _ _) rfl
  · have last := sees_inside closed
    exact owns_pure (valueEnds_some (by omega) (by omega) (by
      rw [nesting, nestingOfItems]
      omega) trivial) rfl
  · exact owns_pure (valueEnds_none _ _) rfl
  · have elements := elements_safe depth (skipWhitespace content (offset + 1) - 1) [] (by
      rw [nestingOfItems]
      omega) trivial (by omega) (by omega)
    exact elements.weaken fun parsed ends => ends.earlier (by omega)

theorem objectSafe_succ {turns : Nat} (members_safe : MembersSafe content turns) :
    BracketSafe content (parseObject content) (turns + 1) := by
  intro depth offset limit inside enough
  obtain ⟨start, bound, -⟩ := @skipWhitespace_bounds content (offset + 1) inside
  rw [parseObject]
  simp only
  split_ifs with deep brace closed past
  · exact owns_pure (valueEnds_none _ _) rfl
  · have last := sees_inside closed
    exact owns_pure (valueEnds_some (by omega) (by omega) (by
      rw [nesting, nestingOfMembers]
      omega) trivial) rfl
  · exact owns_pure (valueEnds_none _ _) rfl
  · have members := members_safe depth (skipWhitespace content (offset + 1) - 1) [] (by
      rw [nestingOfMembers]
      omega) trivial (by omega) (by omega)
    exact members.weaken fun parsed ends => ends.earlier (by omega)
  · exact owns_pure (valueEnds_none _ _) rfl

theorem valueSafe_succ {turns : Nat} (array_safe : BracketSafe content (parseArray content) turns)
    (object_safe : BracketSafe content (parseObject content) turns) :
    ValueSafe content (turns + 1) := by
  intro depth offset limit inside enough
  rw [parseValue]
  have shallow : 0 + depth ≤ nestingLimit := by omega
  have literal : ∀ {text : List UInt8}, reads content offset text = true → text ≠ [] →
      offset < offset + text.length ∧ offset + text.length ≤ content.length := by
    intro text read nonempty
    have positive := List.length_pos_iff.mpr nonempty
    exact ⟨by omega, (reads_inside read).resolve_right nonempty⟩
  split_ifs with null false true
  · obtain ⟨advance, bound⟩ := literal null (by decide)
    exact owns_pure (valueEnds_some advance bound shallow trivial) rfl
  · obtain ⟨advance, bound⟩ := literal false (by decide)
    exact owns_pure (valueEnds_some advance bound shallow trivial) rfl
  · obtain ⟨advance, bound⟩ := literal true (by decide)
    exact owns_pure (valueEnds_some advance bound shallow trivial) rfl
  cases here : content[offset]? with
  | none => exact owns_pure (valueEnds_none _ _) rfl
  | some c =>
    have present : offset < content.length := (List.getElem?_eq_some_iff.mp here).1
    simp only
    split_ifs with quote number bracket brace
    · apply (owns_parseString present).bind
      intro result ends
      cases result with
      | none => exact owns_pure (valueEnds_none _ _) rfl
      | some pair =>
        obtain ⟨text, behind⟩ := pair
        obtain ⟨advance, bound⟩ := ends text behind rfl
        exact owns_pure (valueEnds_some (by omega) bound shallow trivial) rfl
    · cases parsed : parseNumber content offset with
      | none => exact owns_pure (valueEnds_none _ _) rfl
      | some pair =>
        obtain ⟨double, advance, bound⟩ := parseNumber_bounds parsed
        exact owns_pure (valueEnds_some advance bound shallow double) rfl
    · exact array_safe depth offset limit present (by omega)
    · exact object_safe depth offset limit present (by omega)
    · exact owns_pure (valueEnds_none _ _) rfl

/-- By induction on the turns, for the five functions at once. -/
theorem parser_safe (turns : Nat) :
    ValueSafe content turns ∧ ElementsSafe content turns ∧ MembersSafe content turns ∧
      BracketSafe content (parseArray content) turns ∧
      BracketSafe content (parseObject content) turns := by
  induction turns with
  | zero =>
    refine ⟨?_, ?_, ?_, ?_, ?_⟩
    · intro depth offset _ _ enough
      omega
    · intro depth offset head _ _ inside enough
      omega
    · intro depth offset head _ _ inside enough
      omega
    · intro depth offset _ inside enough
      omega
    · intro depth offset _ inside enough
      omega
  | succ turns ih =>
    obtain ⟨value, elements, members, array, object⟩ := ih
    exact ⟨valueSafe_succ array object, elementsSafe_succ value elements,
      membersSafe_succ value members, arraySafe_succ elements, objectSafe_succ members⟩

theorem skipUtf8Bom_le (content : List UInt8) : skipUtf8Bom content ≤ content.length := by
  unfold skipUtf8Bom
  split_ifs
  · omega
  · exact Nat.zero_le _

/-- The block of the item itself and those of its value. -/
def heldItem : Option (Json × Nat) → Nat
  | none => 0
  | some (item, _) => blocks item + 1

theorem owns_parseWithLengthOpts (content : List UInt8) (requireNullTerminated : Bool) :
    Owns 0 (parseWithLengthOpts content requireNullTerminated) heldItem (ValueEnds content 0 0) := by
  unfold parseWithLengthOpts
  by_cases empty : content = []
  · rw [if_pos empty]
    exact owns_pure (valueEnds_none _ _) rfl
  rw [if_neg empty]
  obtain ⟨start, bound, -⟩ := skipWhitespace_bounds (skipUtf8Bom_le content)
  have safe := (@parser_safe content (enoughTurns content)).1 0
    (skipWhitespace content (skipUtf8Bom content)) (Nat.zero_le _) bound (by
      unfold enoughTurns
      omega)
  apply owns_allocate.bind
  intro granted _
  cases granted with
  | false => exact owns_pure (valueEnds_none _ _) rfl
  | true =>
    simp only [if_true]
    apply (safe.beside 1).bind
    intro result ends
    cases result with
    | none => exact owns_release_then (valueEnds_none _ _) rfl
    | some pair =>
      obtain ⟨item, behind⟩ := pair
      obtain ⟨advance, within, shallow, doubles⟩ := ends item behind rfl
      obtain ⟨later, stays, -⟩ := skipWhitespace_bounds within
      change Owns (1 + blocks item) _ _ _
      rw [Nat.add_comm]
      cases requireNullTerminated with
      | false => exact owns_pure (valueEnds_some (by omega) within shallow doubles) rfl
      | true =>
        simp only [if_true]
        split_ifs with nul
        · have last := sees_inside nul
          exact owns_pure (valueEnds_some (by omega) (by omega) shallow doubles) rfl
        · exact owns_release_then (valueEnds_none _ _) rfl

end Parser

/-- The blocks of the root and of what is below it. -/
def heldRoot : Option Json → Nat
  | none => 0
  | some item => blocks item + 1

/-- What `cJSON_Parse` hands on is nested no deeper than the limit. -/
theorem owns_cJSONParse (value : CString) :
    Owns 0 (cJSONParse value) heldRoot fun parsed => ∀ item, parsed = some item →
      nesting item ≤ nestingLimit ∧ Doubles item := by
  apply (owns_parseWithLengthOpts (value.bytes ++ [0]) false).bind
  intro result ends
  cases result with
  | none => exact owns_pure (fun item impossible => absurd impossible (by simp)) rfl
  | some pair =>
    obtain ⟨item, behind⟩ := pair
    obtain ⟨-, -, shallow, doubles⟩ := ends item behind rfl
    refine owns_pure ?_ rfl
    intro other same
    cases same
    exact ⟨shallow, doubles⟩

/-- Every parse of every text comes to an end, whatever the allocator answers. It frees all
blocks that it asked for or keeps those of the tree it returns, which is nested no deeper than
the limit. -/
theorem cJSONParse_safe (value : CString) (heap : Heap) :
    ∃ parsed final, cJSONParse value heap = .ok (parsed, final) ∧
      (parsed = none → final.live = heap.live) ∧
      ∀ item, parsed = some item → final.live = heap.live + blocks item + 1 ∧
        nesting item ≤ nestingLimit ∧ Doubles item := by
  obtain ⟨parsed, final, ran, sound, count⟩ := owns_cJSONParse value heap (Nat.zero_le _)
  refine ⟨parsed, final, ran, ?_, ?_⟩
  · intro failed
    rw [failed] at count
    exact count
  · intro item came
    rw [came] at count
    exact ⟨count, sound item came⟩

end CNear.JsonParse
