import CNear.JsonSafety
import CNear.JsonStringComplete

/-! Every text of the grammar is parsed to the value that it says. The parser asks for the
blocks of the value and for no other, and gives up at the first one that is refused. -/

namespace CNear.JsonParse
open CJson NumberText JsonGrammar Run

/-! ## What the parser sees -/

section Stands
variable {content text rest gap : List UInt8} {offset : Nat} {c : UInt8}

theorem sees_of_stands (stands : content.drop offset = c :: rest) (byte : UInt8) :
    sees content offset byte = (c == byte) := by
  rw [sees, getElem?_of_stands stands]
  rfl

theorem reads_of_stands (stands : content.drop offset = text ++ rest) :
    reads content offset text = true := by
  rw [reads, stands, List.take_left]
  exact beq_self_eq_true _

theorem not_reads {first : UInt8} {tail : List UInt8} (stands : content.drop offset = c :: rest)
    (other : c ≠ first) : reads content offset (first :: tail) = false := by
  rw [reads, stands, List.length_cons, List.take_succ_cons, beq_eq_false_iff_ne]
  intro same
  exact other (List.cons.inj same).1

/-- No character of a token is skipped. -/
theorem skipWhitespace_blank (stands : content.drop offset = gap ++ c :: rest) (blank : Blank gap)
    (visible : 32 < c) : skipWhitespace content offset = offset + gap.length := by
  have length := congrArg List.length stands
  rw [List.length_drop, List.length_append, List.length_cons] at length
  have spaces : (gap ++ c :: rest).takeWhile (· ≤ 32) = gap := by
    apply takeWhile_stop
    · rw [List.all_eq_true]
      intro space member
      rcases blank space member with same | same | same | same <;> rw [same] <;> decide
    · intro first found
      cases found
      rw [decide_eq_false_iff_not, UInt8.not_le]
      exact visible
  unfold skipWhitespace
  rw [if_pos (by omega), stands, spaces]
  exact if_neg (by omega)

/-- The gap is behind the offset, and what follows it is here. -/
theorem stands_skip (stands : content.drop offset = gap ++ c :: rest) (blank : Blank gap)
    (visible : 32 < c) : content.drop (skipWhitespace content offset) = c :: rest := by
  rw [skipWhitespace_blank stands blank visible]
  exact stands_next stands

end Stands

/-! ## How a text begins -/

/-- The first character is no whitespace, no closing bracket and not that of a byte order mark. -/
def Starts (text : List UInt8) : Prop :=
  ∃ c tail, text = c :: tail ∧ 32 < c ∧ c ≠ 93 ∧ c ≠ 125 ∧ c ≠ 0xEF

theorem starts_append {text : List UInt8} (starts : Starts text) (rest : List UInt8) :
    Starts (text ++ rest) := by
  obtain ⟨c, tail, rfl, visible⟩ := starts
  exact ⟨c, tail ++ rest, rfl, visible⟩

theorem starts_string {bytes text : List UInt8} (spelled : SpellsString bytes text) :
    Starts text := by
  cases spelled with
  | quoted inner => exact ⟨_, _, rfl, by decide, by decide, by decide, by decide⟩

theorem starts_number {decimal : Decimal} (formed : decimal.WellFormed) : Starts decimal.text := by
  obtain ⟨c, rest, shape, dash | digit⟩ := formed.head
  · rw [shape, dash]
    exact ⟨_, _, rfl, by decide, by decide, by decide, by decide⟩
  · refine ⟨c, rest, shape, ?_⟩
    unfold isDigit at digit
    simp only [Bool.and_eq_true, decide_eq_true_eq, UInt8.le_iff_toNat_le] at digit
    change 48 ≤ c.toNat ∧ c.toNat ≤ 57 at digit
    refine ⟨UInt8.lt_iff_toNat_lt.mpr ?_, ?_, ?_, ?_⟩
    · change 32 < c.toNat
      omega
    all_goals
      intro same
      rw [same] at digit
      exact absurd digit (by decide)

theorem starts_value {value : Json} {text : List UInt8} (spelled : Spells value text) :
    Starts text := by
  cases spelled with
  | null => exact ⟨_, _, rfl, by decide, by decide, by decide, by decide⟩
  | false => exact ⟨_, _, rfl, by decide, by decide, by decide, by decide⟩
  | true => exact ⟨_, _, rfl, by decide, by decide, by decide, by decide⟩
  | number formed fits => exact starts_number formed
  | string spelled => exact starts_string spelled
  | emptyArray blank => exact ⟨_, _, rfl, by decide, by decide, by decide, by decide⟩
  | array spelled => exact ⟨_, _, rfl, by decide, by decide, by decide, by decide⟩
  | emptyObject blank => exact ⟨_, _, rfl, by decide, by decide, by decide, by decide⟩
  | object spelled => exact ⟨_, _, rfl, by decide, by decide, by decide, by decide⟩

theorem blank_nil : Blank [] := fun _ member => absurd member List.not_mem_nil

/-- The whitespace in front of the elements. -/
theorem spellsItems_core {items : List Json} {text : List UInt8} (spelled : SpellsItems items text) :
    ∃ before core, text = before ++ core ∧ Blank before ∧ SpellsItems items core ∧ Starts core := by
  cases spelled with
  | @last item before text behind first value second =>
    exact ⟨before, _, rfl, first, SpellsItems.last blank_nil value second,
      starts_append (starts_value value) _⟩
  | @cons item items before text behind rest first value second more =>
    exact ⟨before, _, rfl, first, SpellsItems.cons blank_nil value second more,
      starts_append (starts_value value) _⟩

theorem spellsMembers_core {members : List (CString × Json)} {text : List UInt8}
    (spelled : SpellsMembers members text) :
    ∃ before core, text = before ++ core ∧ Blank before ∧ SpellsMembers members core ∧
      Starts core := by
  cases spelled with
  | @last bytes name item before gap between text behind first named second third value fourth =>
    exact ⟨before, _, rfl, first, SpellsMembers.last blank_nil named second third value fourth,
      starts_append (starts_string named) _⟩
  | @cons bytes name item members before gap between text behind rest first named second third
      value fourth more =>
    exact ⟨before, _, rfl, first,
      SpellsMembers.cons blank_nil named second third value fourth more,
      starts_append (starts_string named) _⟩

/-! ## The parser -/

/-- What follows does not belong to a number. -/
def Apart (rest : List UInt8) : Prop := ∀ c, rest.head? = some c → isNumberChar c = false

/-- What may stand behind a value: only a number could go on with it. -/
def Follows (value : Json) (rest : List UInt8) : Prop := ∀ number, value = .number number → Apart rest

/-- Nor does a NUL behind it make a difference. -/
theorem Follows.upToNul {value : Json} {rest : List UInt8} (follows : Follows value rest) :
    Follows value (CString.upToNul rest).bytes := by
  intro number same c found
  apply follows number same c
  cases rest with
  | nil => exact found
  | cons first rest =>
    change ((first :: rest).takeWhile (· ≠ 0)).head? = some c at found
    rw [List.takeWhile_cons] at found
    split at found
    · exact found
    · cases found

theorem apart_blank {gap rest : List UInt8} {c : UInt8} (blank : Blank gap)
    (other : isNumberChar c = false) : Apart (gap ++ c :: rest) := by
  intro first found
  cases gap with
  | nil =>
    cases found
    exact other
  | cons space gap =>
    cases found
    rcases blank first List.mem_cons_self with same | same | same | same <;> rw [same] <;> decide

section Parser
variable {content : List UInt8}

/-- What `parse_value` does with so many turns at a text of the grammar. -/
def ValueComplete (content : List UInt8) (turns : Nat) : Prop :=
  ∀ value text rest depth offset, Spells value text → content.drop offset = text ++ rest →
    Follows value rest → nesting value + depth ≤ nestingLimit → 4 * (content.length - offset) + 1 ≤ turns →
    Takes 0 (parseValue content turns depth offset) (blocks value)
      (some (value, offset + text.length)) none

/-- The loop of `parse_array` appends the elements that are left. -/
def ElementsComplete (content : List UInt8) (turns : Nat) : Prop :=
  ∀ items text rest depth offset head, SpellsItems items text →
    content.drop (offset + 1) = text ++ 93 :: rest →
    nestingOfItems items + (depth + 1) ≤ nestingLimit → 4 * (content.length - offset) ≤ turns + 1 →
    Takes (blocksOfItems head) (parseElements content turns (depth + 1) offset head)
      (blocksOfItems items) (some (.array (head ++ items), offset + text.length + 2)) none

def MembersComplete (content : List UInt8) (turns : Nat) : Prop :=
  ∀ members text rest depth offset head, SpellsMembers members text →
    content.drop (offset + 1) = text ++ 125 :: rest →
    nestingOfMembers members + (depth + 1) ≤ nestingLimit →
    4 * (content.length - offset) ≤ turns + 1 →
    Takes (blocksOfMembers head) (parseMembers content turns (depth + 1) offset head)
      (blocksOfMembers members) (some (.object (head ++ members), offset + text.length + 2)) none

/-- The first element and what is left of the list. -/
theorem spellsItems_uncons {items : List Json} {text : List UInt8} (spelled : SpellsItems items text) :
    ∃ item more before word behind tail, items = item :: more ∧
      text = before ++ (word ++ (behind ++ tail)) ∧ Blank before ∧ Spells item word ∧ Blank behind ∧
      ((more = [] ∧ tail = []) ∨ ∃ rest, tail = 44 :: rest ∧ SpellsItems more rest) := by
  cases spelled with
  | @last item before word behind first value second =>
    exact ⟨item, [], before, word, behind, [], rfl, by rw [List.append_nil], first, value, second,
      Or.inl ⟨rfl, rfl⟩⟩
  | @cons item items before word behind rest first value second more =>
    exact ⟨item, items, before, word, behind, 44 :: rest, rfl, rfl, first, value, second,
      Or.inr ⟨rest, rfl, more⟩⟩

theorem elementsComplete_succ {turns : Nat} (value_complete : ValueComplete content turns)
    (elements_complete : ElementsComplete content turns) :
    ElementsComplete content (turns + 1) := by
  intro items text rest depth offset head spelled stands shallow enough
  obtain ⟨item, more, before, word, behind, tail, rfl, rfl, first, value, second, last⟩ :=
    spellsItems_uncons spelled
  rw [nestingOfItems] at shallow
  obtain ⟨next, after, follows, visible, other, marks⟩ : ∃ next after,
      tail ++ 93 :: rest = next :: after ∧ 32 < next ∧ isNumberChar next = false ∧
        (next = 44 ∨ next = 93) := by
    rcases last with ⟨-, rfl⟩ | ⟨others, rfl, -⟩
    · exact ⟨93, rest, rfl, by decide, by decide, Or.inr rfl⟩
    · exact ⟨44, _, rfl, by decide, by decide, Or.inl rfl⟩
  obtain ⟨c, token, shape, seen, -⟩ := starts_value value
  have here : content.drop (offset + 1) = before ++ c :: (token ++ (behind ++ next :: after)) := by
    rw [stands, ← follows, shape]
    simp only [List.append_assoc, List.cons_append]
  have start := skipWhitespace_blank here first seen
  have standing : content.drop (offset + 1 + before.length) = word ++ (behind ++ next :: after) := by
    rw [shape]
    exact stands_next here
  have present : offset + 1 + before.length < content.length := by
    rw [shape] at standing
    exact stands_inside standing
  have behind_it := stands_next standing
  have stop := skipWhitespace_blank behind_it second visible
  have marked := stands_next behind_it
  have owns := (@parser_safe content turns).1 (depth + 1) (offset + 1 + before.length) (by omega)
    (by omega) (by omega)
  have parsed := value_complete item word _ (depth + 1) _ value standing
    (fun _ _ => apart_blank second other)
    (by omega) (by omega)
  rw [parseElements, blocksOfItems, Nat.add_assoc]
  refine Takes.bind (owns_allocate.beside (blocksOfItems head)) (takes_allocate.beside _) ?_
    (ends_release_then _ _)
  simp only [if_true]
  rw [start]
  refine Takes.bind (owns.beside (blocksOfItems head + 1)) (parsed.beside _) ?_
    (ends_release_then _ _)
  change Takes (blocksOfItems head + 1 + blocks item) _ _ _ _
  rw [← blocksOfItems_append]
  simp only [stop, sees_of_stands marked]
  rcases last with ⟨rfl, rfl⟩ | ⟨others, rfl, spelled_rest⟩
  · cases follows
    rw [if_neg (by decide), if_pos (by decide), blocksOfItems]
    have ends : offset + 1 + before.length + word.length + behind.length + 1 =
        offset + (before ++ (word ++ (behind ++ []))).length + 2 := by
      simp only [List.length_append, List.length_nil]
      omega
    rw [ends]
    exact takes_pure _ _ _
  · cases follows
    rw [if_pos (by decide)]
    have continued := elements_complete more others rest depth
      (offset + 1 + before.length + word.length + behind.length) (head ++ [item]) spelled_rest
      (stands_tail marked) (by omega) (by omega)
    have ends : offset + 1 + before.length + word.length + behind.length + others.length + 2 =
        offset + (before ++ (word ++ (behind ++ 44 :: others))).length + 2 := by
      simp only [List.length_append, List.length_cons]
      omega
    rw [ends, List.append_assoc] at continued
    exact continued

/-- The first member and what is left of the list. -/
theorem spellsMembers_uncons {members : List (CString × Json)} {text : List UInt8}
    (spelled : SpellsMembers members text) :
    ∃ bytes item more before name gap between word behind tail,
      members = (CString.upToNul bytes, item) :: more ∧
      text = before ++ (name ++ (gap ++ 58 :: (between ++ (word ++ (behind ++ tail))))) ∧
      Blank before ∧ SpellsString bytes name ∧ Blank gap ∧ Blank between ∧ Spells item word ∧
      Blank behind ∧
      ((more = [] ∧ tail = []) ∨ ∃ rest, tail = 44 :: rest ∧ SpellsMembers more rest) := by
  cases spelled with
  | @last bytes name item before gap between word behind first named second third value fourth =>
    exact ⟨bytes, item, [], before, name, gap, between, word, behind, [], rfl,
      by rw [List.append_nil], first, named, second, third, value, fourth, Or.inl ⟨rfl, rfl⟩⟩
  | @cons bytes name item members before gap between word behind rest first named second third
      value fourth more =>
    exact ⟨bytes, item, members, before, name, gap, between, word, behind, 44 :: rest, rfl, rfl,
      first, named, second, third, value, fourth, Or.inr ⟨rest, rfl, more⟩⟩

theorem membersComplete_succ {turns : Nat} (value_complete : ValueComplete content turns)
    (members_complete : MembersComplete content turns) :
    MembersComplete content (turns + 1) := by
  intro members text rest depth offset head spelled stands shallow enough
  obtain ⟨bytes, item, more, before, name, gap, between, word, behind, tail, rfl, rfl, first, named,
    second, third, value, fourth, last⟩ := spellsMembers_uncons spelled
  rw [nestingOfMembers] at shallow
  obtain ⟨next, after, follows, visible, other, marks⟩ : ∃ next after,
      tail ++ 125 :: rest = next :: after ∧ 32 < next ∧ isNumberChar next = false ∧
        (next = 44 ∨ next = 125) := by
    rcases last with ⟨-, rfl⟩ | ⟨others, rfl, -⟩
    · exact ⟨125, rest, rfl, by decide, by decide, Or.inr rfl⟩
    · exact ⟨44, _, rfl, by decide, by decide, Or.inl rfl⟩
  -- where the name, the colon, the value and the mark behind it stand
  obtain ⟨quote, letters, name_shape, name_seen, -⟩ := starts_string named
  obtain ⟨c, token, shape, seen, -⟩ := starts_value value
  have here : content.drop (offset + 1) = before ++ (name ++ (gap ++ 58 :: (between ++
      (word ++ (behind ++ next :: after))))) := by
    rw [stands, ← follows]
    simp only [List.append_assoc, List.cons_append]
  have naming := stands_next here
  have start : skipWhitespace content (offset + 1) = offset + 1 + before.length := by
    rw [name_shape] at here
    exact skipWhitespace_blank here first name_seen
  have present : offset + 1 + before.length < content.length := by
    rw [name_shape] at naming
    exact stands_inside naming
  have named_behind := stands_next naming
  have colon_at := skipWhitespace_blank named_behind second (by decide)
  have colon := stands_next named_behind
  have spaced := stands_tail colon
  have value_at : skipWhitespace content (offset + 1 + before.length + name.length + gap.length + 1) =
      offset + 1 + before.length + name.length + gap.length + 1 + between.length := by
    rw [shape] at spaced
    exact skipWhitespace_blank spaced third seen
  have standing := stands_next spaced
  have within := standing
  rw [shape] at within
  have valued := stands_inside within
  have behind_it := stands_next standing
  have stop := skipWhitespace_blank behind_it fourth visible
  have marked := stands_next behind_it
  -- what the two parsers do there
  have owns_name := owns_parseString present
  have name_parsed := takes_parseString named naming
  have owns := (@parser_safe content turns).1 (depth + 1) _ (by omega) valued.le (by omega)
  have parsed := value_complete item word _ (depth + 1) _ value standing
    (fun _ _ => apart_blank fourth other)
    (by omega) (by omega)
  have count : blocksOfMembers ((CString.upToNul bytes, item) :: more) =
      1 + (1 + (blocks item + blocksOfMembers more)) := by
    rw [blocksOfMembers]
    omega
  rw [parseMembers, count]
  refine Takes.bind (owns_allocate.beside (blocksOfMembers head)) (takes_allocate.beside _) ?_
    (ends_release_then _ _)
  simp only [if_true]
  rw [if_neg (by omega), start]
  refine Takes.bind (owns_name.beside (blocksOfMembers head + 1)) (name_parsed.beside _) ?_
    (ends_release_then _ _)
  change Takes (blocksOfMembers head + 2) _ _ _ _
  simp only [colon_at, sees_of_stands colon]
  rw [if_neg (by decide), value_at]
  refine Takes.bind (owns.beside (blocksOfMembers head + 2)) (parsed.beside _) ?_
    (ends_release_then _ _)
  change Takes (blocksOfMembers head + 2 + blocks item) _ _ _ _
  rw [← blocksOfMembers_append item (CString.upToNul bytes)]
  simp only [stop, sees_of_stands marked]
  rcases last with ⟨rfl, rfl⟩ | ⟨others, rfl, spelled_rest⟩
  · cases follows
    rw [if_neg (by decide), if_pos (by decide), blocksOfMembers]
    have ends : offset + 1 + before.length + name.length + gap.length + 1 + between.length +
        word.length + behind.length + 1 = offset +
        (before ++ (name ++ (gap ++ 58 :: (between ++ (word ++ (behind ++ [])))))).length + 2 := by
      simp only [List.length_append, List.length_cons, List.length_nil]
      omega
    rw [ends]
    exact takes_pure _ _ _
  · cases follows
    rw [if_pos (by decide)]
    have continued := members_complete more others rest depth _
      (head ++ [(CString.upToNul bytes, item)]) spelled_rest (stands_tail marked) (by omega) (by omega)
    have ends : offset + 1 + before.length + name.length + gap.length + 1 + between.length +
        word.length + behind.length + others.length + 2 = offset + (before ++ (name ++ (gap ++ 58 ::
        (between ++ (word ++ (behind ++ 44 :: others)))))).length + 2 := by
      simp only [List.length_append, List.length_cons]
      omega
    rw [ends, List.append_assoc] at continued
    exact continued

/-- What `parse_array` does with so many turns. -/
def ArrayComplete (content : List UInt8) (turns : Nat) : Prop :=
  ∀ value inner rest depth offset, content.drop offset = 91 :: (inner ++ 93 :: rest) →
    ((value = .array [] ∧ Blank inner) ∨ ∃ items, value = .array items ∧ SpellsItems items inner) →
    nesting value + depth ≤ nestingLimit → 4 * (content.length - offset) ≤ turns →
    Takes 0 (parseArray content turns depth offset) (blocks value)
      (some (value, offset + inner.length + 2)) none

def ObjectComplete (content : List UInt8) (turns : Nat) : Prop :=
  ∀ value inner rest depth offset, content.drop offset = 123 :: (inner ++ 125 :: rest) →
    ((value = .object [] ∧ Blank inner) ∨
      ∃ members, value = .object members ∧ SpellsMembers members inner) →
    nesting value + depth ≤ nestingLimit → 4 * (content.length - offset) ≤ turns →
    Takes 0 (parseObject content turns depth offset) (blocks value)
      (some (value, offset + inner.length + 2)) none

/-- The opening bracket and the whitespace behind it. -/
theorem arrayComplete_succ {turns : Nat} (elements_complete : ElementsComplete content turns) :
    ArrayComplete content (turns + 1) := by
  intro value inner rest depth offset stands spelled shallow enough
  have behind := stands_tail stands
  have deeper : ¬ nestingLimit ≤ depth := by
    rcases spelled with ⟨rfl, -⟩ | ⟨items, rfl, -⟩ <;> rw [nesting] at shallow <;> omega
  rw [parseArray, if_neg deeper, byteAt_of_stands stands, lift_bind, if_neg (by decide)]
  simp only
  rcases spelled with ⟨rfl, blank⟩ | ⟨items, rfl, spelled⟩
  · have closed := stands_skip behind blank (by decide)
    rw [skipWhitespace_blank behind blank (by decide)] at closed ⊢
    rw [sees_of_stands closed, if_pos (by decide), blocks, blocksOfItems]
    have ends : offset + 1 + inner.length + 1 = offset + inner.length + 2 := by omega
    rw [ends]
    exact takes_pure _ _ _
  · obtain ⟨before, core, rfl, blank, spelled, c, tail, shape, visible, other, -⟩ :=
      spellsItems_core spelled
    have here : content.drop (offset + 1) = before ++ c :: (tail ++ 93 :: rest) := by
      rw [behind, shape]
      simp only [List.append_assoc, List.cons_append]
    have start := skipWhitespace_blank here blank visible
    have first := stands_next here
    have inside := stands_inside first
    have back : offset + 1 + before.length - 1 = offset + before.length := by omega
    rw [nesting] at shallow
    rw [start, sees_of_stands first, if_neg (by simpa using other), if_neg (by omega), back, blocks]
    have again : content.drop (offset + before.length + 1) = core ++ 93 :: rest := by
      rw [Nat.add_right_comm, first, shape]
      rfl
    have elements := elements_complete items core rest depth (offset + before.length) [] spelled again
      (by omega) (by omega)
    rw [List.length_append, ← Nat.add_assoc]
    exact elements

theorem objectComplete_succ {turns : Nat} (members_complete : MembersComplete content turns) :
    ObjectComplete content (turns + 1) := by
  intro value inner rest depth offset stands spelled shallow enough
  have behind := stands_tail stands
  have deeper : ¬ nestingLimit ≤ depth := by
    rcases spelled with ⟨rfl, -⟩ | ⟨members, rfl, -⟩ <;> rw [nesting] at shallow <;> omega
  rw [parseObject, if_neg deeper, sees_of_stands stands, if_neg (by decide)]
  simp only
  rcases spelled with ⟨rfl, blank⟩ | ⟨members, rfl, spelled⟩
  · have closed := stands_skip behind blank (by decide)
    rw [skipWhitespace_blank behind blank (by decide)] at closed ⊢
    rw [sees_of_stands closed, if_pos (by decide), blocks, blocksOfMembers]
    have ends : offset + 1 + inner.length + 1 = offset + inner.length + 2 := by omega
    rw [ends]
    exact takes_pure _ _ _
  · obtain ⟨before, core, rfl, blank, spelled, c, tail, shape, visible, -, other, -⟩ :=
      spellsMembers_core spelled
    have here : content.drop (offset + 1) = before ++ c :: (tail ++ 125 :: rest) := by
      rw [behind, shape]
      simp only [List.append_assoc, List.cons_append]
    have start := skipWhitespace_blank here blank visible
    have first := stands_next here
    have inside := stands_inside first
    have back : offset + 1 + before.length - 1 = offset + before.length := by omega
    rw [nesting] at shallow
    rw [start, sees_of_stands first, if_neg (by simpa using other), if_neg (by omega), back, blocks]
    have again : content.drop (offset + before.length + 1) = core ++ 125 :: rest := by
      rw [Nat.add_right_comm, first, shape]
      rfl
    have members := members_complete members core rest depth (offset + before.length) [] spelled again
      (by omega) (by omega)
    rw [List.length_append, ← Nat.add_assoc]
    exact members

/-- Behind the three literals, the first character decides. -/
theorem parseValue_other {c : UInt8} {rest : List UInt8} {turns depth offset : Nat}
    (stands : content.drop offset = c :: rest) (n : c ≠ 110) (f : c ≠ 102) (t : c ≠ 116) :
    parseValue content (turns + 1) depth offset =
      if c = 34 then do
        match ← parseString content offset with
        | none => return none
        | some (text, offset) => return some (.string text, offset)
      else if c = 45 ∨ isDigit c then
        return (parseNumber content offset).map fun (number, offset) => (.number number, offset)
      else if c = 91 then parseArray content turns depth offset
      else if c = 123 then parseObject content turns depth offset
      else return none := by
  have null : ¬ reads content offset (ascii "null") = true :=
    Bool.eq_false_iff.mp (not_reads stands n)
  have false : ¬ reads content offset (ascii "false") = true :=
    Bool.eq_false_iff.mp (not_reads stands f)
  have true : ¬ reads content offset (ascii "true") = true :=
    Bool.eq_false_iff.mp (not_reads stands t)
  rw [parseValue, if_neg null, if_neg false, if_neg true]
  generalize next : content[offset]? = first
  obtain rfl : some c = first := (getElem?_of_stands stands).symm.trans next
  rfl

/-- The offset behind a bracket, its contents and the other bracket. -/
theorem bracket_length (offset : Nat) (opening closing : UInt8) (inner : List UInt8) :
    offset + (opening :: (inner ++ [closing])).length = offset + inner.length + 2 := by
  rw [List.length_cons, List.length_append, List.length_singleton]
  omega

theorem bracket_rest (opening closing : UInt8) (inner rest : List UInt8) :
    opening :: (inner ++ [closing]) ++ rest = opening :: (inner ++ closing :: rest) := by
  rw [List.cons_append, List.append_assoc, List.singleton_append]

theorem valueComplete_succ {turns : Nat} (array_complete : ArrayComplete content turns)
    (object_complete : ObjectComplete content turns) : ValueComplete content (turns + 1) := by
  intro value text rest depth offset spelled stands follows shallow enough
  have brackets : 4 * (content.length - offset) ≤ turns := by omega
  cases spelled with
  | null =>
    rw [parseValue, if_pos (reads_of_stands stands)]
    exact takes_pure _ _ _
  | false =>
    have null : ¬ reads content offset (ascii "null") = true :=
      Bool.eq_false_iff.mp (not_reads stands (by decide))
    rw [parseValue, if_neg null, if_pos (reads_of_stands stands)]
    exact takes_pure _ _ _
  | true =>
    have null : ¬ reads content offset (ascii "null") = true :=
      Bool.eq_false_iff.mp (not_reads stands (by decide))
    have false : ¬ reads content offset (ascii "false") = true :=
      Bool.eq_false_iff.mp (not_reads stands (by decide))
    rw [parseValue, if_neg null, if_neg false, if_pos (reads_of_stands stands)]
    exact takes_pure _ _ _
  | @number decimal formed fits =>
    obtain ⟨c, tail, shape, kind⟩ := formed.head
    have here : content.drop offset = c :: (tail ++ rest) := by
      rw [stands, shape, List.cons_append]
    have other : c ≠ 110 ∧ c ≠ 102 ∧ c ≠ 116 ∧ c ≠ 34 := by
      refine ⟨?_, ?_, ?_, ?_⟩ <;> intro same <;> rw [same] at kind <;> exact absurd kind (by decide)
    rw [parseValue_other here other.1 other.2.1 other.2.2.1, if_neg other.2.2.2, if_pos kind,
      parseNumber_text stands formed fits (follows _ rfl)]
    exact takes_pure _ _ _
  | @string bytes text spelled =>
    obtain ⟨tail, shape⟩ : ∃ tail, text = 34 :: tail := by
      cases spelled with
      | quoted inner => exact ⟨_, rfl⟩
    have here : content.drop offset = 34 :: (tail ++ rest) := by
      rw [stands, shape, List.cons_append]
    rw [parseValue_other here (by decide) (by decide) (by decide), if_pos rfl]
    exact @Takes.bind _ _ 0 1 0 _ _ _ _ _ _ _ _ (owns_parseString (stands_inside here))
      (takes_parseString spelled stands) (takes_pure _ _ _) (ends_pure _ _)
  | @emptyArray gap blank =>
    rw [bracket_rest] at stands
    rw [parseValue_other stands (by decide) (by decide) (by decide), if_neg (by decide),
      if_neg (by decide), if_pos rfl, bracket_length]
    exact array_complete _ gap rest depth offset stands (Or.inl ⟨rfl, blank⟩) shallow brackets
  | @array items text spelled =>
    rw [bracket_rest] at stands
    rw [parseValue_other stands (by decide) (by decide) (by decide), if_neg (by decide),
      if_neg (by decide), if_pos rfl, bracket_length]
    exact array_complete _ text rest depth offset stands (Or.inr ⟨items, rfl, spelled⟩) shallow
      brackets
  | @emptyObject gap blank =>
    rw [bracket_rest] at stands
    rw [parseValue_other stands (by decide) (by decide) (by decide), if_neg (by decide),
      if_neg (by decide), if_neg (by decide), if_pos rfl, bracket_length]
    exact object_complete _ gap rest depth offset stands (Or.inl ⟨rfl, blank⟩) shallow brackets
  | @object members text spelled =>
    rw [bracket_rest] at stands
    rw [parseValue_other stands (by decide) (by decide) (by decide), if_neg (by decide),
      if_neg (by decide), if_neg (by decide), if_pos rfl, bracket_length]
    exact object_complete _ text rest depth offset stands (Or.inr ⟨members, rfl, spelled⟩) shallow
      brackets

/-- By induction on the turns, for the five functions at once. -/
theorem parser_complete (turns : Nat) :
    ValueComplete content turns ∧ ElementsComplete content turns ∧ MembersComplete content turns ∧
      ArrayComplete content turns ∧ ObjectComplete content turns := by
  induction turns with
  | zero =>
    refine ⟨?_, ?_, ?_, ?_, ?_⟩
    · intro value text rest depth offset spelled stands follows shallow enough
      omega
    · intro items text rest depth offset head spelled stands shallow enough
      have inside := congrArg List.length stands
      rw [List.length_drop, List.length_append, List.length_cons] at inside
      omega
    · intro members text rest depth offset head spelled stands shallow enough
      have inside := congrArg List.length stands
      rw [List.length_drop, List.length_append, List.length_cons] at inside
      omega
    · intro value inner rest depth offset stands spelled shallow enough
      have inside := stands_inside stands
      omega
    · intro value inner rest depth offset stands spelled shallow enough
      have inside := stands_inside stands
      omega
  | succ turns ih =>
    obtain ⟨value, elements, members, array, object⟩ := ih
    exact ⟨valueComplete_succ array object, elementsComplete_succ value elements,
      membersComplete_succ value members, arrayComplete_succ elements, objectComplete_succ members⟩

/-- The byte order mark that a text may begin with. -/
def utf8Bom : List UInt8 := [0xEF, 0xBB, 0xBF]

/-- A text in the buffer, with whitespace in front of it and anything behind it. -/
theorem takes_parseWithLengthOpts {value : Json} {mark gap text rest : List UInt8}
    (buffer : content = mark ++ (gap ++ (text ++ rest))) (marked : mark = [] ∨ mark = utf8Bom)
    (blank : Blank gap) (spelled : Spells value text) (some_rest : rest ≠ [])
    (follows : Follows value rest)
    (shallow : nesting value ≤ nestingLimit) :
    Takes 0 (parseWithLengthOpts content false) (blocks value + 1)
      (some (value, mark.length + gap.length + text.length)) none := by
  obtain ⟨c, token, shape, visible, -, -, other⟩ := starts_value spelled
  obtain ⟨next, after, rest_shape⟩ := List.exists_cons_of_ne_nil some_rest
  have skipped : skipUtf8Bom content = mark.length := by
    unfold skipUtf8Bom
    rcases marked with rfl | rfl
    · have none : content.take 3 ≠ [0xEF, 0xBB, 0xBF] := by
        rw [buffer, shape]
        cases gap with
        | nil =>
          intro same
          exact other (List.cons.inj same).1
        | cons space gap =>
          intro same
          rcases blank space List.mem_cons_self with first | first | first | first <;>
            rw [(List.cons.inj same).1] at first <;> exact absurd first (by decide)
      exact if_neg fun both => none both.2
    · refine if_pos ⟨?_, ?_⟩
      · rw [buffer, shape, rest_shape]
        simp only [utf8Bom, List.length_append, List.length_cons, List.length_nil]
        omega
      · rw [buffer, utf8Bom]
        rfl
  have behind : content.drop mark.length = gap ++ c :: (token ++ rest) := by
    rw [buffer, List.drop_left, shape, List.cons_append]
  have start := skipWhitespace_blank behind blank visible
  have standing := stands_next behind
  have inside := stands_inside standing
  rw [← List.cons_append, ← shape] at standing
  have nonempty : content ≠ [] := by
    intro empty
    rw [empty] at inside
    exact absurd inside (Nat.not_lt_zero _)
  have turns : 4 * (content.length - (mark.length + gap.length)) + 1 ≤ enoughTurns content := by
    unfold enoughTurns
    omega
  have owns := (@parser_safe content (enoughTurns content)).1 0 (mark.length + gap.length)
    (Nat.zero_le _) inside.le turns
  have parsed := (@parser_complete content (enoughTurns content)).1 value text rest 0 _ spelled
    standing follows shallow turns
  unfold parseWithLengthOpts
  rw [if_neg nonempty, skipped, start, Nat.add_comm (blocks value)]
  refine Takes.bind owns_allocate takes_allocate ?_ (ends_pure _ _)
  simp only [if_true]
  refine @Takes.bind _ _ 1 (blocks value) 0 _ _ _ _ _ _ _ _ (owns.beside 1) (parsed.beside 1) ?_
    (ends_release_then _ _)
  exact takes_pure _ _ _

end Parser

/-- A JSON text, with whitespace in front of it and any NUL-free bytes behind it, which only have to
be apart from it if it is a number: the parser answers the value of the text if the allocator grants the blocks of
that value, and NULL if it does not. -/
theorem takes_cJSONParse {document : CString} {value : Json} {mark gap text rest : List UInt8}
    (bytes : document.bytes = mark ++ (gap ++ (text ++ rest))) (marked : mark = [] ∨ mark = utf8Bom)
    (blank : Blank gap) (spelled : Spells value text) (follows : Follows value rest)
    (shallow : nesting value ≤ nestingLimit) :
    Takes 0 (cJSONParse document) (blocks value + 1) (some value) none := by
  have buffer : document.bytes ++ [0] = mark ++ (gap ++ (text ++ (rest ++ [0]))) := by
    rw [bytes]
    simp only [List.append_assoc]
  have ended : Follows value (rest ++ [0]) := by
    intro number same
    cases rest with
    | nil =>
      intro c found
      cases found
      decide
    | cons c rest => exact follows number same
  have parsed := takes_parseWithLengthOpts buffer marked blank spelled (by simp) ended shallow
  exact @Takes.bind _ _ 0 (blocks value + 1) 0 _ _ _ _ _ _ _ _
    (owns_parseWithLengthOpts _ false) parsed (takes_pure _ _ _) (ends_pure _ _)

/-- Every JSON text is parsed to what it says, and a refused allocation loses no block. The text
may begin with a byte order mark and whitespace, and the rest of the document is not looked at. -/
theorem cJSONParse_complete {document : CString} {value : Json} {mark gap text rest : List UInt8}
    (bytes : document.bytes = mark ++ (gap ++ (text ++ rest))) (marked : mark = [] ∨ mark = utf8Bom)
    (blank : Blank gap) (spelled : Spells value text) (follows : Follows value rest)
    (shallow : nesting value ≤ nestingLimit) (heap : Heap) :
    ∃ parsed final, cJSONParse document heap = .ok (parsed, final) ∧
      (heap.answers.Grants (blocks value + 1) →
        parsed = some value ∧ final.live = heap.live + blocks value + 1) ∧
      (¬ heap.answers.Grants (blocks value + 1) → parsed = none ∧ final.live = heap.live) := by
  have takes := takes_cJSONParse bytes marked blank spelled follows shallow
  exact takes.outcome (owns_cJSONParse document) heap (Nat.zero_le _)

/-- A NUL ends the document behind the text, since there is none in the text. -/
theorem upToNul_spelled {value : Json} {mark gap text rest : List UInt8}
    (marked : mark = [] ∨ mark = utf8Bom) (blank : Blank gap) (spelled : Spells value text) :
    (CString.upToNul (mark ++ (gap ++ (text ++ rest)))).bytes =
      mark ++ (gap ++ (text ++ (CString.upToNul rest).bytes)) := by
  have visible : ∀ {front back : List UInt8}, 0 ∉ front →
      (front ++ back).takeWhile (· ≠ 0) = front ++ back.takeWhile (· ≠ 0) := by
    intro front back noNul
    apply List.takeWhile_append_of_pos
    intro c member
    rw [decide_eq_true_eq]
    intro zero
    rw [zero] at member
    exact noNul member
  have noMark : 0 ∉ mark := by
    rcases marked with rfl | rfl <;> decide
  calc
    (mark ++ (gap ++ (text ++ rest))).takeWhile (· ≠ 0) =
        mark ++ (gap ++ (text ++ rest)).takeWhile (· ≠ 0) := visible noMark
    _ = mark ++ (gap ++ (text ++ rest).takeWhile (· ≠ 0)) := by rw [visible blank.noNul]
    _ = mark ++ (gap ++ (text ++ rest.takeWhile (· ≠ 0))) := by rw [visible spelled.noNul]

/-- A document with all of these, and one allocation too few. -/
theorem cJSONParse_complete_array :
    let document : CString := ⟨utf8Bom ++ (32 :: 91 :: ascii "null" ++ [93, 49]), by decide⟩
    (∃ final, cJSONParse document ⟨fun _ => true, 0⟩ = .ok (some (.array [.null]), final) ∧
      final.live = 2) ∧
    ∃ final, cJSONParse document ⟨fun i => i = 0, 0⟩ = .ok (none, final) ∧ final.live = 0 := by
  have nothing : Blank [] := fun _ member => absurd member List.not_mem_nil
  have space : Blank [32] := fun c member => Or.inr (Or.inr (Or.inr (List.mem_singleton.mp member)))
  have spelled : Spells (.array [.null]) (91 :: (([] ++ (ascii "null" ++ [])) ++ [93])) :=
    .array (.last nothing .null nothing)
  have follows : Follows (.array [.null]) [49] := by
    intro number impossible
    cases impossible
  have complete := @cJSONParse_complete
    ⟨utf8Bom ++ (32 :: 91 :: ascii "null" ++ [93, 49]), by decide⟩ _ utf8Bom [32] _ [49] rfl
    (Or.inr rfl) space spelled follows (by decide)
  obtain ⟨parsed, final, ran, granted, -⟩ := complete ⟨fun _ => true, 0⟩
  obtain ⟨parsed', final', ran', -, refused⟩ := complete ⟨fun i => i = 0, 0⟩
  obtain ⟨rfl, live⟩ := granted fun _ _ => rfl
  obtain ⟨rfl, live'⟩ := refused fun grants => absurd (grants 1 (by decide)) (by decide)
  exact ⟨⟨final, ran, live⟩, final', ran', live'⟩

end CNear.JsonParse
