import CNear.JsonPrint

/-! The printer writes the text of the value and nothing else. It never leaves its buffer, never
measures a byte that was not written, and gives up only where the text is too long or memory was
refused; the buffer is then freed. -/

namespace CNear.JsonPrint
open CJson Exchange JsonText NumberText JsonParse Run

/-! ## What the buffer holds -/

/-- What stays the same while a value is printed: how long the buffer may get, whether it is a
fixed one, and the answers of the allocator, which only a buffer that grows asks for. -/
structure Setting where
  limit : Nat
  noalloc : Bool
  supply : Answers → Prop
  small : limit ≤ maxInt
  grows : noalloc = false → limit = maxInt ∧ Generous supply

/-- The blocks of the heap that the buffer is: one, or none where it is the caller's. -/
def Setting.blocks (setting : Setting) : Nat := if setting.noalloc then 0 else 1

structure Holds (setting : Setting) (format : Bool) (depth : Nat) (block : List (Option UInt8))
    (p : PrintBuffer) : Prop where
  buffer : p.buffer = some block
  length : p.length = block.length
  bound : block.length ≤ setting.limit
  fixed : setting.noalloc = true → block.length = setting.limit
  noalloc_eq : p.noalloc = setting.noalloc
  format_eq : p.format = format
  depth_eq : p.depth = depth

/-- The text was written, and the offset is behind it. -/
def Writing (setting : Setting) (format : Bool) (depth : Nat) (text : List UInt8) (p : PrintBuffer) : Prop :=
  ∃ rest, Holds setting format depth (text.map some ++ rest) p ∧ p.offset = text.length ∧ rest ≠ []

/-- The text was written with its terminator; the offset is where its last piece begins. -/
def Finished (setting : Setting) (format : Bool) (depth : Nat) (text : List UInt8) (p : PrintBuffer) :
    Prop :=
  ∃ shown piece rest, text = shown ++ piece ∧ 0 ∉ piece ∧
    Holds setting format depth ((text ++ [0]).map some ++ rest) p ∧ p.offset = shown.length ∧ rest ≠ []

section Writes
variable {setting : Setting} {depth : Nat} {format : Bool} {done bytes : List UInt8}
  {rest : List (Option UInt8)} {p : PrintBuffer}

theorem Holds.write {ahead : Nat} (holds : Holds setting format depth (done.map some ++ rest) p)
    (here : p.offset + ahead = done.length) (room : bytes.length ≤ rest.length) :
    ∃ q, p.write ahead bytes = .ok q ∧ q.offset = p.offset ∧
      Holds setting format depth ((done ++ bytes).map some ++ rest.drop bytes.length) q := by
  have block : store (done.map some ++ rest) (p.offset + ahead) bytes =
      .ok ((done ++ bytes).map some ++ rest.drop bytes.length) := by
    have front : (done.map some ++ rest).take done.length = done.map some := by
      rw [List.take_left' (by rw [List.length_map])]
    have back : (done.map some ++ rest).drop (done.length + bytes.length) =
        rest.drop bytes.length := by
      rw [← List.drop_drop, List.drop_left' (by rw [List.length_map])]
    rw [here, store, if_pos, front, back, List.map_append]
    rw [List.length_append, List.length_map]
    omega
  have same : ((done ++ bytes).map some ++ rest.drop bytes.length).length =
      (done.map some ++ rest).length := by
    simp only [List.length_append, List.length_map, List.length_drop]
    omega
  refine ⟨{ p with buffer := some ((done ++ bytes).map some ++ rest.drop bytes.length) }, ?_, rfl, ?_⟩
  · rw [PrintBuffer.write, holds.buffer]
    simp only [block]
    rfl
  · exact
      { buffer := rfl
        length := by rw [same]; exact holds.length
        bound := by rw [same]; exact holds.bound
        fixed := fun noalloc => by rw [same]; exact holds.fixed noalloc
        noalloc_eq := holds.noalloc_eq
        format_eq := holds.format_eq
        depth_eq := holds.depth_eq }

theorem Holds.advance {block : List (Option UInt8)} (holds : Holds setting format depth block p)
    (offset : Nat) : Holds setting format depth block { p with offset := offset } :=
  { holds with buffer := holds.buffer }

theorem Holds.deeper {block : List (Option UInt8)} (holds : Holds setting format depth block p)
    (depth' : Nat) : Holds setting format depth' block { p with depth := depth' } :=
  { holds with buffer := holds.buffer, depth_eq := rfl }

theorem Writing.deeper {text : List UInt8} (writing : Writing setting format depth text p)
    (depth' : Nat) : Writing setting format depth' text { p with depth := depth' } := by
  obtain ⟨rest, holds, offset, room⟩ := writing
  exact ⟨rest, holds.deeper depth', offset, room⟩

theorem Finished.deeper {text : List UInt8} (finished : Finished setting format depth text p)
    (depth' : Nat) : Finished setting format depth' text { p with depth := depth' } := by
  obtain ⟨shown, piece, rest, split, noNul, holds, offset, room⟩ := finished
  exact ⟨shown, piece, rest, split, noNul, holds.deeper depth', offset, room⟩

theorem Finished.length {text : List UInt8} (finished : Finished setting format depth text p) :
    text.length + 2 ≤ setting.limit := by
  obtain ⟨shown, piece, rest, -, -, holds, -, room⟩ := finished
  have bound := holds.bound
  have some_rest := List.length_pos_iff.mpr room
  rw [List.length_append, List.length_map, List.length_append, List.length_singleton] at bound
  omega

theorem characters_terminated {piece : List UInt8} (noNul : 0 ∉ piece) (rest : List (Option UInt8)) :
    characters ((piece ++ [0]).map some ++ rest) = .ok piece := by
  induction piece with
  | nil => rfl
  | cons c piece ih =>
    rw [List.mem_cons, not_or] at noNul
    have tail := ih noNul.2
    rw [List.cons_append, List.map_cons, List.cons_append, characters, if_neg (Ne.symm noNul.1), tail]
    rfl

/-- `strlen` finds the end of the last piece. -/
theorem updateOffset_eq {text : List UInt8} (finished : Finished setting format depth text p) :
    ∃ rest, updateOffset p = pure { p with offset := text.length } ∧
      Holds setting format depth ((text ++ [0]).map some ++ rest) p := by
  obtain ⟨shown, piece, rest, rfl, noNul, holds, offset, room⟩ := finished
  refine ⟨rest, ?_, holds⟩
  have behind : ((shown ++ piece ++ [0]).map some ++ rest).drop p.offset =
      (piece ++ [0]).map some ++ rest := by
    rw [List.append_assoc, List.map_append, List.append_assoc, offset,
      List.drop_left' (by rw [List.length_map])]
  rw [updateOffset, holds.buffer]
  simp only
  rw [behind, characters_terminated noNul, lift_bind, offset, List.length_append]

theorem updateOffset_finished {text : List UInt8} (finished : Finished setting format depth text p) :
    ∃ q, updateOffset p = pure q ∧ Writing setting format depth text q := by
  obtain ⟨rest, moved, holds⟩ := updateOffset_eq finished
  refine ⟨_, moved, some 0 :: rest, ?_, rfl, by simp⟩
  have same := holds.advance text.length
  simpa using same

end Writes

/-! ## The steps of the printer -/

/-- The blocks of a buffer that was not given up. -/
def held (setting : Setting) (result : Bool × PrintBuffer) : Nat :=
  if result.2.buffer.isSome then setting.blocks else 0

/-- A step that is handed the buffer. It goes well where memory is granted and the text fits. -/
structure Prints (setting : Setting) (fits : Prop) (program : Run (Bool × PrintBuffer))
    (after : PrintBuffer → Prop) : Prop where
  owns : Owns setting.blocks program (held setting) fun result =>
    result.1 = true → result.2.buffer.isSome = true ∧ after result.2
  thrives : fits → Thrives setting.supply setting.blocks program fun result => result.1 = true

section Prints
variable {setting : Setting} {fits : Prop} {program : Run (Bool × PrintBuffer)}
  {after goal : PrintBuffer → Prop} {p : PrintBuffer}

theorem held_some {result : Bool × PrintBuffer} (there : result.2.buffer.isSome = true) :
    held setting result = setting.blocks := if_pos there

theorem prints_pure (there : p.buffer.isSome = true) (holds : after p) :
    Prints setting fits (pure (true, p)) after where
  owns := owns_pure (fun _ => ⟨there, holds⟩) (held_some there)
  thrives := fun _ => thrives_pure rfl

theorem prints_fail (there : p.buffer.isSome = true) (not_fits : ¬ fits) :
    Prints setting fits (pure (false, p)) after where
  owns := owns_pure (fun impossible => absurd impossible Bool.false_ne_true) (held_some there)
  thrives := fun fitting => absurd fitting not_fits

theorem Prints.weaken (prints : Prints setting fits program after) (implies : ∀ q, after q → goal q) :
    Prints setting fits program goal where
  owns := prints.owns.weaken fun _ holds ok => ⟨(holds ok).1, implies _ (holds ok).2⟩
  thrives := prints.thrives

theorem Prints.andThen {next : PrintBuffer → Run (Bool × PrintBuffer)}
    (head : Prints setting fits program after) (tail : ∀ q, after q → Prints setting fits (next q) goal) :
    Prints setting fits (andThen program next) goal where
  owns := by
    apply head.owns.bind
    intro result holds
    obtain ⟨ok, q⟩ := result
    cases ok with
    | false => exact owns_pure (fun impossible => absurd impossible Bool.false_ne_true) rfl
    | true =>
      obtain ⟨there, fact⟩ := holds rfl
      rw [held_some there]
      exact (tail q fact).owns
  thrives := by
    intro fitting
    apply Thrives.bind head.owns (head.thrives fitting)
    intro result holds went
    obtain ⟨ok, q⟩ := result
    cases went
    obtain ⟨there, fact⟩ := holds rfl
    rw [held_some there]
    exact (tail q fact).thrives fitting

end Prints

section Steps
variable {setting : Setting} {depth : Nat} {format : Bool} {text : List UInt8} {p : PrintBuffer} {fits : Prop}

theorem resize_longer {size : Nat} {block : List (Option UInt8)} (longer : block.length ≤ size) :
    resize size block = block ++ List.replicate (size - block.length) none := by
  rw [resize, List.take_of_length_le longer]

/-- Behind the text there is room for what is needed and for one more. -/
theorem prints_ensure {needed : Nat} (writing : Writing setting format depth text p)
    (enough : fits → text.length + needed + 1 ≤ setting.limit) :
    Prints setting fits (ensure needed p) fun q => ∃ rest,
      Holds setting format depth (text.map some ++ rest) q ∧ q.offset = text.length ∧
        needed < rest.length := by
  obtain ⟨rest, holds, offset, room⟩ := writing
  have there : p.buffer.isSome = true := by rw [holds.buffer, Option.isSome_some]
  have some_rest := List.length_pos_iff.mpr room
  have length := holds.length
  have bound := holds.bound
  have small := setting.small
  rw [List.length_append, List.length_map] at length bound
  unfold ensure
  rw [holds.buffer]
  simp only
  rw [if_neg (by omega)]
  by_cases large : maxInt < needed
  · rw [if_pos large]
    refine prints_fail there fun fitting => ?_
    have short := enough fitting
    omega
  rw [if_neg large]
  by_cases ready : needed + (p.offset + 1) ≤ p.length
  · rw [if_pos ready]
    exact prints_pure there ⟨rest, holds, offset, by omega⟩
  rw [if_neg ready]
  by_cases noalloc : p.noalloc = true
  · rw [if_pos noalloc]
    refine prints_fail there fun fitting => ?_
    have whole := holds.fixed (holds.noalloc_eq.symm.trans noalloc)
    have short := enough fitting
    rw [List.length_append, List.length_map] at whole
    omega
  rw [if_neg noalloc]
  have may_grow : setting.noalloc = false := by
    rw [← holds.noalloc_eq]
    exact Bool.eq_false_iff.mpr noalloc
  obtain ⟨most, generous⟩ := setting.grows may_grow
  by_cases beyond : maxInt / 2 < needed + (p.offset + 1) ∧ maxInt < needed + (p.offset + 1)
  · rw [if_pos beyond]
    refine prints_fail there fun fitting => ?_
    have short := enough fitting
    omega
  rw [if_neg beyond]
  generalize size_eq : (if maxInt / 2 < needed + (p.offset + 1) then maxInt
    else (needed + (p.offset + 1)) * 2) = newsize
  have grown : needed + (p.offset + 1) ≤ newsize ∧ newsize ≤ maxInt := by
    rw [← size_eq]
    split_ifs <;> omega
  have longer : (text.map some ++ rest).length ≤ newsize := by
    rw [List.length_append, List.length_map]
    omega
  have block : resize newsize (text.map some ++ rest) = text.map some ++
      (rest ++ List.replicate (newsize - (text.map some ++ rest).length) none) := by
    rw [resize_longer longer, List.append_assoc]
  have whole : (text.map some ++ (rest ++
      List.replicate (newsize - (text.map some ++ rest).length) none)).length = newsize := by
    rw [← block, resize_longer longer, List.length_append, List.length_replicate]
    omega
  have after : Holds setting format depth (text.map some ++ (rest ++
      List.replicate (newsize - (text.map some ++ rest).length) none))
      { p with length := newsize, buffer := some (resize newsize (text.map some ++ rest)) } :=
    { buffer := by rw [block]
      length := whole.symm
      bound := by rw [whole]; omega
      fixed := fun impossible => absurd (may_grow.symm.trans impossible) Bool.false_ne_true
      noalloc_eq := holds.noalloc_eq
      format_eq := holds.format_eq
      depth_eq := holds.depth_eq }
  have behind : needed < (rest ++
      List.replicate (newsize - (text.map some ++ rest).length) none).length := by
    rw [List.length_append, List.length_map] at whole
    omega
  have one : setting.blocks = 1 := by
    rw [Setting.blocks, may_grow]
    rfl
  constructor
  · rw [one]
    apply owns_reallocate.bind
    intro granted _
    cases granted with
    | false =>
      exact (owns_release 1).bind fun _ _ =>
        owns_pure (fun impossible => absurd impossible Bool.false_ne_true) rfl
    | true => exact owns_pure (fun _ => ⟨rfl, _, after, offset, behind⟩) one
  · intro _
    rw [one]
    apply Thrives.bind owns_reallocate (thrives_reallocate generous)
    intro granted _ yes
    rw [yes]
    exact thrives_pure rfl

/-- What is placed is behind the text. -/
theorem prints_place {needed advance : Nat} {bytes : List UInt8}
    (writing : Writing setting format depth text p)
    (enough : fits → text.length + needed + 1 ≤ setting.limit) (room : bytes.length ≤ needed) :
    Prints setting fits (place needed bytes advance p) fun q => ∃ rest,
      Holds setting format depth ((text ++ bytes).map some ++ rest) q ∧
        q.offset = text.length + advance ∧ rest ≠ [] := by
  apply (prints_ensure writing enough).andThen
  intro q ensured
  obtain ⟨rest, holds, offset, behind⟩ := ensured
  obtain ⟨written, ran, stays, now⟩ := @Holds.write _ _ _ _ bytes _ _ 0 holds offset (by omega)
  rw [ran, lift_bind]
  refine prints_pure ?_ ⟨rest.drop bytes.length, now.advance _, ?_, ?_⟩
  · change written.buffer.isSome = true
    rw [now.buffer, Option.isSome_some]
  · change written.offset + advance = _
    rw [stays, offset]
  · apply List.ne_nil_of_length_pos
    rw [List.length_drop]
    omega

/-- A piece that the offset steps over; what is behind it does not matter. -/
theorem prints_advance {needed : Nat} {piece tail : List UInt8}
    (writing : Writing setting format depth text p)
    (enough : fits → text.length + needed + 1 ≤ setting.limit) (room : (piece ++ tail).length ≤ needed) :
    Prints setting fits (place needed (piece ++ tail) piece.length p)
      (Writing setting format depth (text ++ piece)) := by
  apply (prints_place writing enough room).weaken
  intro q placed
  obtain ⟨rest, holds, offset, behind⟩ := placed
  refine ⟨tail.map some ++ rest, ?_, by rw [offset, List.length_append], ?_⟩
  · simpa using holds
  · simp [behind]

theorem prints_step {needed : Nat} {piece : List UInt8} (writing : Writing setting format depth text p)
    (enough : fits → text.length + needed + 1 ≤ setting.limit) (room : piece.length ≤ needed) :
    Prints setting fits (place needed piece piece.length p)
      (Writing setting format depth (text ++ piece)) := by
  have step := @prints_advance _ _ _ _ _ fits needed piece [] writing enough
    (by rwa [List.append_nil])
  rwa [List.append_nil] at step

/-- A piece with its terminator. -/
theorem prints_finish {needed : Nat} {piece : List UInt8}
    (writing : Writing setting format depth text p)
    (enough : fits → text.length + needed + 1 ≤ setting.limit) (room : piece.length + 1 ≤ needed)
    (noNul : 0 ∉ piece) :
    Prints setting fits (place needed (piece ++ [0]) 0 p)
      (Finished setting format depth (text ++ piece)) := by
  apply (prints_place writing enough (by rwa [List.length_append])).weaken
  intro q placed
  obtain ⟨rest, holds, offset, behind⟩ := placed
  rw [← List.append_assoc] at holds
  exact ⟨text, piece, rest, rfl, noNul, holds, offset, behind⟩

/-! ## Numbers -/

theorem firstText_length {number : Double} (double : IsDouble number) :
    (firstText number).length ≤ 25 := by
  cases number with
  | finite value =>
    have length := numberDecimal_length double
    rw [firstText]
    by_cases whole : value = CallResult.valueInt (.finite value)
    · rw [if_pos whole]
      rwa [numberDecimal, if_pos whole] at length
    · rw [if_neg whole]
      have nonzero := ne_zero_of_valueInt_ne whole
      obtain ⟨top, n, shown⟩ := exists_shown (show 0 < 15 by decide) nonzero
      have bounds := log_bounds double nonzero
      have near := shown.near
      exact (shown.text_length (by omega)).trans (by decide)
  | infinite _ => exact (by decide : (ascii "null").length ≤ 25)
  | nan => exact (by decide : (ascii "null").length ≤ 25)

theorem prints_number {number : Double} (double : IsDouble number)
    (writing : Writing setting format depth text p)
    (enough : fits → (text ++ numberText number).length + 2 ≤ setting.limit) :
    Prints setting fits (printNumber number p)
      (Finished setting format depth (text ++ numberText number)) := by
  have first := firstText_length double
  have short := numberText_length double
  rw [List.length_append] at enough
  rw [printNumber, sprintf, if_pos (by omega), lift_bind, sprintf, if_pos (by omega), lift_bind]
  simp only
  rw [if_neg (by omega)]
  have room : (numberText number ++ [0]).length ≤ (numberText number).length + 1 := by
    rw [List.length_append, List.length_singleton]
  apply (prints_place writing (fun fitting => by have all := enough fitting; omega) room).weaken
  intro q placed
  obtain ⟨rest, holds, offset, behind⟩ := placed
  rw [← List.append_assoc] at holds
  exact ⟨text ++ numberText number, [], rest, by rw [List.append_nil], List.not_mem_nil, holds,
    by rw [offset, List.length_append], behind⟩

/-! ## Strings -/

theorem escapeByte_cases (c : UInt8) :
    (isPlain c = true ∧ shortEscape c = none ∧ ¬ c < 32) ∨
      (isPlain c = false ∧ (shortEscape c).isSome = true) ∨
      (isPlain c = false ∧ shortEscape c = none ∧ c < 32) := by
  have table : ∀ n < 256,
      (isPlain (UInt8.ofNat n) = true ∧ shortEscape (UInt8.ofNat n) = none ∧
          ¬ UInt8.ofNat n < 32) ∨
        (isPlain (UInt8.ofNat n) = false ∧ (shortEscape (UInt8.ofNat n)).isSome = true) ∨
        (isPlain (UInt8.ofNat n) = false ∧ shortEscape (UInt8.ofNat n) = none ∧
          UInt8.ofNat n < 32) := by
    decide +kernel
  have here := table c.toNat c.toNat_lt
  rwa [UInt8.ofNat_toNat] at here

/-- The first loop counts what the second one writes. -/
theorem escaped_length (input : List UInt8) :
    (input.flatMap escapeByte).length = input.length + escapeCharacters input := by
  induction input with
  | nil => rfl
  | cons c input ih =>
    rw [List.flatMap_cons, List.length_append, ih, escapeCharacters, List.length_cons, escapeByte]
    rcases escapeByte_cases c with ⟨plain, long, large⟩ | ⟨escaped, short⟩ | ⟨escaped, long, small⟩
    · rw [if_pos plain, long, if_neg (by decide), if_neg large, List.length_singleton]
      omega
    · obtain ⟨letter, found⟩ := Option.isSome_iff_exists.mp short
      rw [if_neg (by simp [escaped]), if_pos short, found]
      simp only [List.length_cons, List.length_nil]
      omega
    · rw [if_neg (by simp [escaped]), long, if_neg (by decide), if_pos small]
      simp only [hex4, List.length_cons, List.length_nil]
      omega

theorem escaped_plain {input : List UInt8} (none : escapeCharacters input = 0) :
    input.flatMap escapeByte = input := by
  induction input with
  | nil => rfl
  | cons c input ih =>
    rw [escapeCharacters] at none
    rw [List.flatMap_cons, ih (by omega), escapeByte]
    rcases escapeByte_cases c with ⟨plain, -⟩ | ⟨-, short⟩ | ⟨-, long, small⟩
    · rw [if_pos plain]
      rfl
    · rw [if_pos short] at none
      omega
    · rw [long, if_neg (by decide), if_pos small] at none
      omega

theorem hexChar_ne_zero {digit : Nat} (small : digit < 16) : hexChar digit ≠ 0 := by
  have table : ∀ digit < 16, hexChar digit ≠ 0 := by decide
  exact table digit small

theorem noNul_escapeByte {c : UInt8} (nonzero : c ≠ 0) : 0 ∉ escapeByte c := by
  have bound := c.toNat_lt
  have high := hexChar_ne_zero (show c.toNat / 16 < 16 by omega)
  have low := hexChar_ne_zero (show c.toNat % 16 < 16 by omega)
  unfold escapeByte
  split_ifs with plain
  · simpa using nonzero.symm
  cases found : shortEscape c with
  | some letter =>
    have other : letter ≠ 0 := by
      unfold shortEscape at found
      split_ifs at found <;> cases found <;> decide
    simpa using other.symm
  | none => simp [hex4, high.symm, low.symm]

theorem noNul_quote (input : CString) : 0 ∉ quote input.bytes := by
  unfold quote
  simp only [List.mem_cons, List.mem_append, List.mem_flatMap, List.not_mem_nil, or_false, not_or,
    not_exists, not_and]
  refine ⟨by decide, ?_, by decide⟩
  intro c member
  apply noNul_escapeByte
  intro zero
  rw [zero] at member
  exact input.noNul member

/-- One character, and perhaps a NUL behind it. -/
theorem copyEscaped_cons (c : UInt8) (input : List UInt8) (ahead : Nat) :
    ∃ tail : List UInt8, tail.length ≤ 1 ∧ ∀ p : PrintBuffer, copyEscaped p (c :: input) ahead =
      (p.write ahead (escapeByte c ++ tail) >>= fun p =>
        copyEscaped p input (ahead + (escapeByte c).length)) := by
  rcases escapeByte_cases c with ⟨plain, -⟩ | ⟨escaped, short⟩ | ⟨escaped, long, -⟩
  · refine ⟨[], by decide, fun p => ?_⟩
    rw [copyEscaped, escapeByte, if_pos plain, if_pos plain]
    rfl
  · obtain ⟨letter, found⟩ := Option.isSome_iff_exists.mp short
    refine ⟨[], by decide, fun p => ?_⟩
    rw [copyEscaped, escapeByte, if_neg (by simp [escaped]), if_neg (by simp [escaped]), found]
    rfl
  · refine ⟨[0], by decide, fun p => ?_⟩
    rw [copyEscaped, escapeByte, if_neg (by simp [escaped]), if_neg (by simp [escaped]), long]
    rfl

/-- The loop writes the escaped text. The NUL behind a code is overwritten. -/
theorem copyEscaped_holds {done : List UInt8} (input : List UInt8) {ahead : Nat}
    {rest : List (Option UInt8)} (holds : Holds setting format depth (done.map some ++ rest) p)
    (here : p.offset + ahead = done.length)
    (room : (input.flatMap escapeByte).length < rest.length) :
    ∃ q rest', copyEscaped p input ahead = .ok q ∧ q.offset = p.offset ∧
      Holds setting format depth ((done ++ input.flatMap escapeByte).map some ++ rest') q ∧
      rest'.length + (input.flatMap escapeByte).length = rest.length := by
  induction input generalizing p done ahead rest with
  | nil => exact ⟨p, rest, rfl, rfl, by simpa using holds, by simp⟩
  | cons c input ih =>
    obtain ⟨tail, few, step⟩ := copyEscaped_cons c input ahead
    rw [List.flatMap_cons, List.length_append] at room ⊢
    have whole : (escapeByte c ++ tail).length ≤ rest.length := by
      rw [List.length_append]
      omega
    obtain ⟨q, ran, offset, now⟩ := holds.write here whole
    have split : (done ++ (escapeByte c ++ tail)).map some ++
        rest.drop (escapeByte c ++ tail).length = (done ++ escapeByte c).map some ++
        (tail.map some ++ rest.drop (escapeByte c ++ tail).length) := by
      simp only [List.map_append, List.append_assoc]
    have count : (tail.map some ++ rest.drop (escapeByte c ++ tail).length).length +
        (escapeByte c).length = rest.length := by
      simp only [List.length_append, List.length_map, List.length_drop]
      omega
    rw [split] at now
    have next : q.offset + (ahead + (escapeByte c).length) = (done ++ escapeByte c).length := by
      rw [offset, List.length_append]
      omega
    obtain ⟨final, behind, ended, stays, all, total⟩ := ih now next (by omega)
    refine ⟨final, behind, ?_, by rw [stays, offset], ?_, by omega⟩
    · rw [step, ran]
      exact ended
    · rwa [List.append_assoc] at all

/-- A string in its quotes, if its size can be counted. -/
theorem prints_string {sizeT : SizeT} {input : CString} (writing : Writing setting format depth text p)
    (counted : (quote input.bytes).length + 1 < sizeT.wrap)
    (enough : fits → (text ++ quote input.bytes).length + 2 ≤ setting.limit) :
    Prints setting fits (printStringPtr sizeT input p)
      (Finished setting format depth (text ++ quote input.bytes)) := by
  have length := escaped_length input.bytes
  have quoted : (quote input.bytes).length = input.bytes.length + escapeCharacters input.bytes + 2 := by
    rw [quote, List.length_cons, List.length_append, List.length_singleton, length]
  rw [List.length_append, quoted] at enough
  rw [quoted] at counted
  have escapes : escapeCharacters input.bytes % sizeT.wrap = escapeCharacters input.bytes :=
    Nat.mod_eq_of_lt (by omega)
  have output : (input.strlen + escapeCharacters input.bytes) % sizeT.wrap =
      input.bytes.length + escapeCharacters input.bytes := Nat.mod_eq_of_lt (by
    rw [CString.strlen]
    omega)
  have needed : (input.bytes.length + escapeCharacters input.bytes + 3) % sizeT.wrap =
      input.bytes.length + escapeCharacters input.bytes + 3 := Nat.mod_eq_of_lt (by omega)
  unfold printStringPtr
  simp only [escapes, output, needed]
  apply (prints_ensure writing (fun fitting => by have all := enough fitting; omega)).andThen
  intro q ensured
  obtain ⟨rest, holds, offset, room⟩ := ensured
  obtain ⟨opened, ran, stays, now⟩ := @Holds.write _ _ _ _ [34] _ _ 0 holds offset (by
    rw [List.length_singleton]
    omega)
  have behind : (rest.drop ([34] : List UInt8).length).length = rest.length - 1 := List.length_drop
  rw [ran, lift_bind]
  obtain ⟨copied, rest', copy, stays', now', count⟩ : ∃ copied rest',
      (if escapeCharacters input.bytes = 0 then
        opened.write 1 (input.bytes.take (input.bytes.length + escapeCharacters input.bytes))
        else copyEscaped opened input.bytes 1) = .ok copied ∧ copied.offset = opened.offset ∧
      Holds setting format depth ((text ++ [34] ++ input.bytes.flatMap escapeByte).map some ++ rest')
        copied ∧ rest'.length + (input.bytes.flatMap escapeByte).length =
          (rest.drop ([34] : List UInt8).length).length := by
    have at_one : opened.offset + 1 = (text ++ [34]).length := by
      rw [stays, offset, List.length_append, List.length_singleton]
    by_cases none : escapeCharacters input.bytes = 0
    · have bound : input.bytes.length ≤ (rest.drop ([34] : List UInt8).length).length := by omega
      obtain ⟨copied, ran, stays', now'⟩ := now.write at_one bound
      refine ⟨copied, (rest.drop ([34] : List UInt8).length).drop input.bytes.length, ?_, stays', ?_,
        ?_⟩
      · rw [if_pos none, List.take_of_length_le (by omega), ran]
      · rw [escaped_plain none]
        exact now'
      · rw [escaped_plain none, List.length_drop]
        omega
    · obtain ⟨copied, rest', ran, stays', now', count⟩ :=
        copyEscaped_holds input.bytes now at_one (by omega)
      exact ⟨copied, rest', by rw [if_neg none, ran], stays', now', count⟩
  rw [copy, lift_bind]
  obtain ⟨closed, close, stays'', now''⟩ := @Holds.write _ _ _ _ [34, 0] _ _
    (input.bytes.length + escapeCharacters input.bytes + 1) now' (by
    rw [stays', stays, offset, List.length_append, List.length_append, List.length_singleton, length]
    omega) (by
    change 2 ≤ _
    omega)
  rw [close, lift_bind]
  refine prints_pure ?_ ⟨text, quote input.bytes, rest'.drop 2, rfl, noNul_quote input, ?_, ?_, ?_⟩
  · rw [now''.buffer, Option.isSome_some]
  · have shape : text ++ quote input.bytes ++ [0] =
        text ++ [34] ++ input.bytes.flatMap escapeByte ++ [34, 0] := by
      simp [quote]
    rw [shape]
    exact now''
  · rw [stays'', stays', stays, offset]
  · apply List.ne_nil_of_length_pos
    rw [List.length_drop]
    omega

end Steps

/-! ## Values -/

theorem Writing.format {setting : Setting} {depth : Nat} {format : Bool} {text : List UInt8} {p : PrintBuffer}
    (writing : Writing setting format depth text p) : p.format = format ∧ p.depth = depth := by
  obtain ⟨rest, holds, -⟩ := writing
  exact ⟨holds.format_eq, holds.depth_eq⟩

theorem Writing.there {setting : Setting} {depth : Nat} {format : Bool} {text : List UInt8} {p : PrintBuffer}
    (writing : Writing setting format depth text p) : p.buffer.isSome = true := by
  obtain ⟨rest, holds, -⟩ := writing
  rw [holds.buffer, Option.isSome_some]

theorem Finished.there {setting : Setting} {depth : Nat} {format : Bool} {text : List UInt8} {p : PrintBuffer}
    (finished : Finished setting format depth text p) : p.buffer.isSome = true := by
  obtain ⟨shown, piece, rest, -, -, holds, -⟩ := finished
  rw [holds.buffer, Option.isSome_some]

theorem Finished.depth {setting : Setting} {depth : Nat} {format : Bool} {text : List UInt8} {p : PrintBuffer}
    (finished : Finished setting format depth text p) : p.depth = depth := by
  obtain ⟨shown, piece, rest, -, -, holds, -⟩ := finished
  exact holds.depth_eq

/-- The end of an array or an object: the printer steps out of it. -/
theorem prints_leave {setting : Setting} {depth : Nat} {format : Bool} {fits : Prop} {text : List UInt8}
    {p : PrintBuffer} (finished : Finished setting format (depth + 1) text p) :
    Prints setting fits (pure (true, { p with depth := p.depth - 1 }))
      (Finished setting format depth text) := by
  have outside : p.depth - 1 = depth := by rw [finished.depth, Nat.add_sub_cancel]
  rw [outside]
  exact prints_pure finished.there (finished.deeper depth)

theorem colon_length (format : Bool) : (if format then 2 else 1) = (58 :: tabs format 1).length := by
  cases format <;> rfl

theorem comma_length (format : Bool) : (if format then 2 else 1) = (comma format).length := by
  cases format <;> rfl

theorem line_length (format last : Bool) :
    (if format then 1 else 0) + (if last then 0 else 1) =
      ((if last then ([] : List UInt8) else [44]) ++ newline format).length := by
  cases format <;> cases last <;> rfl

theorem noNul_ascii_number {number : Double} : 0 ∉ numberText number := by
  cases number with
  | finite value =>
    intro member
    have inside := List.all_eq_true.mp (numberDecimal_wellFormed value).numberChars 0 member
    exact absurd inside (by decide)
  | infinite negative => exact (by decide : 0 ∉ ascii "null")
  | nan => exact (by decide : 0 ∉ ascii "null")

mutual

/-- A text without the terminator. -/
theorem noNul_render (format : Bool) (depth : Nat) : (value : Json) → 0 ∉ render format depth value
  | .null => by rw [render]; decide
  | .bool false => by rw [render]; decide
  | .bool true => by rw [render]; decide
  | .number _ => by rw [render]; exact noNul_ascii_number
  | .string valuestring => by rw [render]; exact noNul_quote valuestring
  | .array items => by
      have inner := noNul_renderItems format (depth + 1) items
      rw [render]
      simp [inner]
  | .object members => by
      have inner := noNul_renderMembers format (depth + 1) members
      rw [render]
      cases format <;> simp [inner, newline, tabs]

theorem noNul_renderItems (format : Bool) (depth : Nat) :
    (items : List Json) → 0 ∉ renderItems format depth items
  | [] => List.not_mem_nil
  | item :: items => by
      have first := noNul_render format depth item
      have rest := noNul_renderItems format depth items
      rw [renderItems]
      cases format <;> cases items.isEmpty <;> simp [first, rest, comma]

theorem noNul_renderMembers (format : Bool) (depth : Nat) :
    (members : List (CString × Json)) → 0 ∉ renderMembers format depth members
  | [] => List.not_mem_nil
  | (name, item) :: members => by
      have first := noNul_render format depth item
      have rest := noNul_renderMembers format depth members
      have quoted := noNul_quote name
      rw [renderMembers]
      cases format <;> cases members.isEmpty <;> simp [first, rest, quoted, tabs, newline]

end

section Values
variable (sizeT : SizeT) (setting : Setting) (format : Bool) (fits : Prop)

mutual

/-- One case for each kind of value. -/
theorem prints_value : (value : Json) → ∀ (depth : Nat) (text : List UInt8) (p : PrintBuffer),
    Doubles value → Writing setting format depth text p →
    (render format depth value).length + 1 < sizeT.wrap →
    (fits → text.length + (render format depth value).length + 2 ≤ setting.limit) →
    Prints setting fits (printValue sizeT value p)
      (Finished setting format depth (text ++ render format depth value))
  | .null, _, _, _, _, writing, _, enough =>
      prints_finish writing (fun fitting => by have all := enough fitting; exact all) (by decide)
        (by decide)
  | .bool false, _, _, _, _, writing, _, enough =>
      prints_finish writing (fun fitting => by have all := enough fitting; exact all) (by decide)
        (by decide)
  | .bool true, _, _, _, _, writing, _, enough =>
      prints_finish writing (fun fitting => by have all := enough fitting; exact all) (by decide)
        (by decide)
  | .number _, _, _, _, double, writing, _, enough =>
      prints_number double writing (fun fitting => by rw [List.length_append]; exact enough fitting)
  | .string _, _, _, _, _, writing, counted, enough =>
      prints_string writing counted
        (fun fitting => by rw [List.length_append]; exact enough fitting)
  | .array items, depth, text, p, doubles, writing, counted, enough => by
      rw [render] at counted enough ⊢
      simp only [List.length_cons, List.length_append, List.length_nil] at counted enough
      rw [printValue]
      have opened := @prints_step _ _ _ _ _ fits 1 [91] writing
        (fun fitting => by have all := enough fitting; omega) (by decide)
      apply opened.andThen
      intro q writing
      have elements := prints_elements items (depth + 1) (text ++ [91]) { q with depth := q.depth + 1 }
        doubles (by rw [writing.format.2]; exact writing.deeper (depth + 1)) (by omega) (by
        intro fitting
        have all := enough fitting
        rw [List.length_append, List.length_singleton]
        omega)
      apply elements.andThen
      intro q writing
      have closed := @prints_finish _ _ _ _ _ fits 2 [93] writing (by
        intro fitting
        have all := enough fitting
        simp only [List.length_append, List.length_singleton]
        omega) (by decide) (by decide)
      apply closed.andThen
      intro q finished
      have shape : text ++ 91 :: (renderItems format (depth + 1) items ++ [93]) =
          text ++ [91] ++ renderItems format (depth + 1) items ++ [93] := by simp
      rw [shape]
      exact prints_leave finished
  | .object members, depth, text, p, doubles, writing, counted, enough => by
      rw [render] at counted enough ⊢
      simp only [List.length_cons, List.length_append, List.length_nil] at counted enough
      rw [printValue]
      have opened := @prints_step _ _ _ _ _ fits ((123 :: newline p.format).length + 1)
        (123 :: newline p.format) writing (by
        intro fitting
        have all := enough fitting
        rw [writing.format.1, List.length_cons]
        omega) (Nat.le_succ _)
      apply opened.andThen
      rw [writing.format.1]
      intro q writing
      have entries := prints_members members (depth + 1) (text ++ 123 :: newline format)
        { q with depth := q.depth + 1 } doubles
        (by rw [writing.format.2]; exact writing.deeper (depth + 1)) (by omega) (by
        intro fitting
        have all := enough fitting
        rw [List.length_append, List.length_cons]
        omega)
      apply entries.andThen
      intro q writing
      have outside : q.depth - 1 = depth := by rw [writing.format.2, Nat.add_sub_cancel]
      rw [writing.format.1, writing.format.2, Nat.add_sub_cancel]
      have indent : (tabs format depth).length = if format then depth else 0 := by
        cases format
        · rfl
        · exact List.length_replicate
      have closing : tabs format depth ++ [125, 0] = (tabs format depth ++ [125]) ++ [0] := by simp
      have noNul : 0 ∉ tabs format depth ++ [125] := by
        cases format <;> simp [tabs]
      have needed : (if format then depth + 1 + 1 else 2) = (tabs format depth ++ [125]).length + 1 := by
        rw [List.length_append, indent]
        cases format <;> rfl
      rw [closing, needed]
      have closed := @prints_finish _ _ _ _ _ fits _ (tabs format depth ++ [125]) writing (by
        intro fitting
        have all := enough fitting
        simp only [List.length_append, List.length_cons, List.length_nil]
        omega) le_rfl noNul
      apply closed.andThen
      intro q finished
      have shape : text ++ 123 :: (newline format ++ renderMembers format (depth + 1) members ++
          tabs format depth ++ [125]) = text ++ 123 :: newline format ++
          renderMembers format (depth + 1) members ++ (tabs format depth ++ [125]) := by simp
      rw [shape]
      exact prints_leave finished

/-- The loop of `print_array`. -/
theorem prints_elements : (items : List Json) → ∀ (depth : Nat) (text : List UInt8) (p : PrintBuffer),
    DoublesItems items → Writing setting format depth text p →
    (renderItems format depth items).length + 1 < sizeT.wrap →
    (fits → text.length + (renderItems format depth items).length + 2 ≤ setting.limit) →
    Prints setting fits (printElements sizeT items p)
      (Writing setting format depth (text ++ renderItems format depth items))
  | [], _, _, _, _, writing, _, _ => prints_pure writing.there (by rwa [renderItems, List.append_nil])
  | item :: items, depth, text, p, doubles, writing, counted, enough => by
      rw [renderItems] at counted enough ⊢
      simp only [List.length_append] at counted enough
      rw [printElements]
      have first := prints_value item depth text p doubles.1 writing (by omega)
        (fun fitting => by have all := enough fitting; omega)
      apply first.andThen
      intro q finished
      obtain ⟨behind, moved, writing⟩ := updateOffset_finished finished
      rw [moved, pure_bind]
      have separated : Prints setting fits
          (if items.isEmpty then return (true, behind)
            else
              let length := if behind.format then 2 else 1
              place (length + 1) (comma behind.format ++ [0]) length behind)
          (Writing setting format depth (text ++ render format depth item ++
            if items.isEmpty then [] else comma format)) := by
        cases last : items.isEmpty with
        | true =>
          rw [if_pos rfl, if_pos rfl, List.append_nil]
          exact prints_pure writing.there writing
        | false =>
          rw [last, if_neg Bool.false_ne_true] at enough
          rw [if_neg Bool.false_ne_true, if_neg Bool.false_ne_true]
          simp only [writing.format.1, comma_length]
          apply prints_advance writing
          · intro fitting
            have all := enough fitting
            rw [List.length_append]
            omega
          · rw [List.length_append, List.length_singleton]
      apply separated.andThen
      intro q writing
      have others := prints_elements items depth _ q doubles.2 writing (by omega) (by
        intro fitting
        have all := enough fitting
        simp only [List.length_append]
        omega)
      simpa only [List.append_assoc] using others

/-- The loop of `print_object`. -/
theorem prints_members : (members : List (CString × Json)) → ∀ (depth : Nat) (text : List UInt8)
    (p : PrintBuffer), DoublesMembers members → Writing setting format depth text p →
    (renderMembers format depth members).length + 1 < sizeT.wrap →
    (fits → text.length + (renderMembers format depth members).length + 2 ≤ setting.limit) →
    Prints setting fits (printMembers sizeT members p)
      (Writing setting format depth (text ++ renderMembers format depth members))
  | [], _, _, _, _, writing, _, _ =>
      prints_pure writing.there (by rwa [renderMembers, List.append_nil])
  | (name, item) :: members, depth, text, p, doubles, writing, counted, enough => by
      rw [renderMembers] at counted enough ⊢
      simp only [List.length_append] at counted enough
      rw [printMembers]
      have indented : Prints setting fits
          (if p.format then place p.depth (tabs true p.depth) p.depth p else return (true, p))
          (Writing setting format depth (text ++ tabs format depth)) := by
        rw [writing.format.1, writing.format.2]
        cases format with
        | false =>
          rw [if_neg Bool.false_ne_true, tabs, if_neg Bool.false_ne_true, List.append_nil]
          exact prints_pure writing.there writing
        | true =>
          have length : (tabs true depth).length = depth := List.length_replicate
          rw [length] at enough
          rw [if_pos rfl]
          have step := @prints_step _ _ _ _ _ fits depth (tabs true depth) writing
            (fun fitting => by have all := enough fitting; omega) length.le
          rwa [length] at step
      apply indented.andThen
      intro q writing
      have named := @prints_string _ _ _ _ _ fits sizeT name writing (by omega) (by
        intro fitting
        have all := enough fitting
        simp only [List.length_append]
        omega)
      apply named.andThen
      intro q finished
      obtain ⟨behind, moved, writing⟩ := updateOffset_finished finished
      rw [moved, pure_bind]
      simp only [writing.format.1, colon_length]
      have marked := @prints_step _ _ _ _ _ fits _ (58 :: tabs format 1) writing (by
        intro fitting
        have all := enough fitting
        simp only [List.length_append]
        omega) le_rfl
      apply marked.andThen
      intro q writing
      have valued := prints_value item depth _ q doubles.1 writing (by omega) (by
        intro fitting
        have all := enough fitting
        simp only [List.length_append]
        omega)
      apply valued.andThen
      intro q finished
      obtain ⟨behind, moved, writing⟩ := updateOffset_finished finished
      rw [moved, pure_bind]
      simp only [writing.format.1, line_length]
      have ended := @prints_advance _ _ _ _ _ fits
        (((if members.isEmpty then [] else [44]) ++ newline format).length + 1)
        ((if members.isEmpty then [] else [44]) ++ newline format) [0] writing (by
        intro fitting
        have all := enough fitting
        simp only [List.length_append]
        omega) (by rw [List.length_append, List.length_singleton])
      apply ended.andThen
      intro q writing
      have others := prints_members members depth _ q doubles.2 writing (by omega) (by
        intro fitting
        have all := enough fitting
        simp only [List.length_append]
        omega)
      simpa only [List.append_assoc] using others

end

end Values

/-! ## `cJSON_Print` -/

/-- A buffer that `realloc` lets grow. -/
def growing : Setting := ⟨maxInt, false, Answers.Plenty, le_rfl, fun _ => ⟨rfl, generous_plenty⟩⟩

/-- A buffer of the caller. Nothing is asked of the allocator. -/
def preallocated (length : Nat) (small : length ≤ maxInt) : Setting :=
  ⟨length, true, fun _ => True, small, fun impossible => absurd impossible.symm Bool.false_ne_true⟩

/-- The buffer that `print` begins with. -/
theorem writing_start (format : Bool) : Writing growing format 0 []
    ⟨some (List.replicate defaultBufferSize none), defaultBufferSize, 0, 0, false, format⟩ := by
  refine ⟨List.replicate defaultBufferSize none, ?_, rfl, by decide⟩
  exact
    { buffer := rfl
      length := by rw [List.map_nil, List.nil_append, List.length_replicate]
      bound := by
        rw [List.map_nil, List.nil_append, List.length_replicate]
        exact (by decide : defaultBufferSize ≤ maxInt)
      fixed := fun impossible => absurd impossible Bool.false_ne_true
      noalloc_eq := rfl
      format_eq := rfl
      depth_eq := rfl }

theorem writing_preallocated {buffer : List (Option UInt8)} (small : buffer.length ≤ maxInt)
    (room : buffer ≠ []) (format : Bool) :
    Writing (preallocated buffer.length small) format 0 []
      ⟨some buffer, buffer.length, 0, 0, true, format⟩ := by
  refine ⟨buffer, ?_, rfl, room⟩
  exact
    { buffer := rfl
      length := rfl
      bound := le_rfl
      fixed := fun _ => rfl
      noalloc_eq := rfl
      format_eq := rfl
      depth_eq := rfl }

/-- The block that was printed. -/
def heldText {α : Type} (result : Option α) : Nat := if result.isSome then 1 else 0

section Print
variable {sizeT : SizeT} {value : Json} {format : Bool}

/-- The value in a fresh buffer. -/
theorem prints_whole (doubles : Doubles value)
    (counted : (render format 0 value).length + 1 < sizeT.wrap) :
    Prints growing ((render format 0 value).length + 2 ≤ maxInt) (printValue sizeT value
      ⟨some (List.replicate defaultBufferSize none), defaultBufferSize, 0, 0, false, format⟩)
      (Finished growing format 0 (render format 0 value)) := by
  have prints := prints_value sizeT growing format ((render format 0 value).length + 2 ≤ maxInt)
    value 0 [] _ doubles (writing_start format) counted
    (fun fitting => by rwa [List.length_nil, Nat.zero_add])
  rwa [List.nil_append] at prints

/-- The last `realloc` keeps the text and its terminator. -/
theorem resize_finished {block rest : List (Option UInt8)} {text : List UInt8}
    (shape : block = (text ++ [0]).map some ++ rest) :
    resize (text.length + 1) block = (text ++ [0]).map some := by
  have length : ((text ++ [0]).map some).length = text.length + 1 := by
    rw [List.length_map, List.length_append, List.length_singleton]
  rw [shape, resize, ← length, List.take_left, List.length_append, Nat.sub_eq_zero_of_le (by omega)]
  exact List.append_nil _

/-- Whatever is granted, what was printed is the text of the value with its terminator. -/
theorem owns_print (doubles : Doubles value)
    (counted : (render format 0 value).length + 1 < sizeT.wrap) :
    Owns 0 (print sizeT value format) heldText fun result => ∀ block, result = some block →
      block = (render format 0 value ++ [0]).map some ∧
        (render format 0 value).length + 2 ≤ maxInt := by
  have nothing : ∀ block, (none : Option (List (Option UInt8))) = some block →
      block = (render format 0 value ++ [0]).map some ∧
        (render format 0 value).length + 2 ≤ maxInt := by
    intro block impossible
    cases impossible
  unfold print
  apply owns_allocate.bind
  intro granted _
  cases granted with
  | false => exact owns_pure nothing rfl
  | true =>
    simp only [if_true]
    apply (prints_whole doubles counted).owns.bind
    intro result holds
    obtain ⟨ok, p⟩ := result
    cases ok with
    | false =>
      simp only [held]
      cases there : p.buffer.isSome with
      | true => exact owns_release_then nothing rfl
      | false => exact owns_pure nothing rfl
    | true =>
      obtain ⟨there, finished⟩ := holds rfl
      obtain ⟨rest, moved, whole⟩ := updateOffset_eq finished
      rw [held_some there]
      simp only [if_true, moved, pure_bind]
      apply owns_reallocate.bind
      intro granted _
      cases granted with
      | false => exact owns_release_then nothing rfl
      | true =>
        simp only [if_true]
        rw [whole.buffer]
        refine owns_pure ?_ rfl
        intro block same
        cases same
        exact ⟨resize_finished rfl, finished.length⟩

/-- With enough memory every text that an `int` can count is printed. -/
theorem thrives_print (doubles : Doubles value)
    (counted : (render format 0 value).length + 1 < sizeT.wrap)
    (fits : (render format 0 value).length + 2 ≤ maxInt) :
    Thrives Answers.Plenty 0 (print sizeT value format) fun result => result.isSome = true := by
  have prints := prints_whole doubles counted
  unfold print
  apply Thrives.bind owns_allocate (thrives_allocate generous_plenty)
  intro granted _ yes
  rw [yes]
  simp only [if_true]
  apply Thrives.bind prints.owns (prints.thrives fits)
  intro result holds went
  obtain ⟨ok, p⟩ := result
  cases went
  obtain ⟨there, finished⟩ := holds rfl
  obtain ⟨rest, moved, whole⟩ := updateOffset_eq finished
  rw [held_some there]
  simp only [if_true, moved, pure_bind]
  apply Thrives.bind owns_reallocate (thrives_reallocate generous_plenty)
  intro granted _ yes
  rw [yes]
  simp only [if_true]
  rw [whole.buffer]
  exact thrives_pure rfl

/-- What the caller reads is the text of the value. -/
theorem printed_eq (doubles : Doubles value)
    (counted : (render format 0 value).length + 1 < sizeT.wrap) (heap : Heap) :
    ∃ result final, printed sizeT value format heap = .ok (result, final) ∧
      final.live = heap.live + heldText result ∧
      (∀ text, result = some text → text = render format 0 value ∧ text.length + 2 ≤ maxInt) ∧
      (heap.answers.Plenty → (render format 0 value).length + 2 ≤ maxInt →
        result = some (render format 0 value)) := by
  obtain ⟨result, final, ran, shape, live⟩ := owns_print doubles counted heap (Nat.zero_le _)
  have thrives := thrives_print doubles counted
  cases result with
  | none =>
    refine ⟨none, final, ?_, live, ?_, ?_⟩
    · rw [printed, bind_apply ran]
      rfl
    · intro text impossible
      cases impossible
    · intro plenty fits
      obtain ⟨result, final', ran', came, -⟩ := thrives fits heap (Nat.zero_le _) plenty
      rw [ran] at ran'
      cases ran'
      cases came
  | some block =>
    obtain ⟨same, bound⟩ := shape block rfl
    have noNul := noNul_render format 0 value
    have read : characters block = .ok (render format 0 value) := by
      have terminated := characters_terminated noNul []
      rwa [List.append_nil, ← same] at terminated
    refine ⟨some (render format 0 value), final, ?_, live, ?_, fun _ _ => rfl⟩
    · rw [printed, bind_apply ran]
      simp only [read, lift_bind]
      rfl
    · intro text came
      cases came
      exact ⟨rfl, bound⟩

/-! ## `cJSON_PrintPreallocated` -/

theorem ensure_nil (needed depth : Nat) (format : Bool) :
    ensure needed ⟨some [], 0, 0, depth, true, format⟩ =
      pure (false, ⟨some [], 0, 0, depth, true, format⟩) := by
  unfold ensure
  simp

theorem place_nil (needed advance depth : Nat) (format : Bool) (bytes : List UInt8) :
    place needed bytes advance ⟨some [], 0, 0, depth, true, format⟩ =
      pure (false, ⟨some [], 0, 0, depth, true, format⟩) := by
  rw [place, ensure_nil]
  rfl

/-- A buffer without a byte is refused by the first `ensure`. -/
theorem printPreallocated_nil (doubles : Doubles value) :
    printPreallocated sizeT value [] format = pure (false, ⟨some [], 0, 0, 0, true, format⟩) := by
  unfold printPreallocated
  cases value with
  | null => exact place_nil 5 0 0 format _
  | bool value => cases value <;> exact place_nil _ 0 0 format _
  | number number =>
    have first := firstText_length doubles
    have short := numberText_length doubles
    rw [printValue, printNumber, sprintf, if_pos (by omega), lift_bind, sprintf, if_pos (by omega),
      lift_bind]
    simp only
    rw [if_neg (by omega)]
    exact place_nil _ _ 0 format _
  | string text =>
    rw [printValue, printStringPtr]
    exact congrArg (fun head => andThen head _) (ensure_nil _ 0 format)
  | array items =>
    rw [printValue]
    exact congrArg (fun head => andThen head _) (place_nil 1 1 0 format [91])
  | object members =>
    rw [printValue]
    exact congrArg (fun head => andThen head _) (place_nil _ _ 0 format _)

/-- The text and its terminator do not fill the buffer of the caller: one byte more is needed,
whatever is printed. The heap keeps its blocks. -/
theorem printPreallocated_iff {buffer : List (Option UInt8)} (doubles : Doubles value)
    (counted : (render format 0 value).length + 1 < sizeT.wrap) (small : buffer.length ≤ maxInt)
    (heap : Heap) :
    ∃ ok p final, printPreallocated sizeT value buffer format heap = .ok ((ok, p), final) ∧
      final.live = heap.live ∧
      (ok = true ↔ (render format 0 value).length + 2 ≤ buffer.length) ∧
      (ok = true → ∃ rest,
        p.buffer = some ((render format 0 value ++ [0]).map some ++ rest) ∧
        (render format 0 value).length + 1 + rest.length = buffer.length) := by
  by_cases empty : buffer = []
  · rw [empty, printPreallocated_nil doubles]
    refine ⟨false, _, heap, rfl, rfl, ⟨?_, ?_⟩, ?_⟩
    · intro impossible
      cases impossible
    · intro fitting
      rw [List.length_nil] at fitting
      omega
    · intro impossible
      cases impossible
  have prints := prints_value sizeT (preallocated buffer.length small) format
    ((render format 0 value).length + 2 ≤ buffer.length) value 0 [] _ doubles
    (writing_preallocated small empty format) counted
    (fun fitting => by rwa [List.length_nil, Nat.zero_add])
  rw [List.nil_append] at prints
  obtain ⟨⟨ok, p⟩, final, ran, ended, live⟩ := prints.owns heap (Nat.zero_le _)
  have nothing : held (preallocated buffer.length small) (ok, p) = 0 := ite_self 0
  rw [nothing] at live
  refine ⟨ok, p, final, ran, live, ⟨?_, ?_⟩, ?_⟩
  · intro went
    exact (ended went).2.length
  · intro fitting
    obtain ⟨result, final', ran', went, -⟩ := prints.thrives fitting heap (Nat.zero_le _) trivial
    rw [ran] at ran'
    cases ran'
    exact went
  · intro went
    obtain ⟨-, shown, piece, rest, -, -, holds, -, -⟩ := ended went
    have full := holds.fixed rfl
    refine ⟨rest, holds.buffer, ?_⟩
    rw [List.length_append, List.length_map, List.length_append, List.length_singleton] at full
    exact full

end Print

/-- Twelve characters and a terminator are refused a buffer of thirteen bytes. -/
theorem printPreallocated_boundary :
    let printing := fun size => printPreallocated .bits32 (.array [.null, .bool true])
      (List.replicate size none) true ⟨fun _ => false, 0⟩
    (∃ p final, printing 14 = .ok ((true, p), final)) ∧
      ∃ p final, printing 13 = .ok ((false, p), final) := by
  have doubles : Doubles (.array [.null, .bool true]) := ⟨trivial, trivial, trivial⟩
  have boundary := fun size small => @printPreallocated_iff .bits32 (.array [.null, .bool true]) true
    (List.replicate size none) doubles (by decide) small ⟨fun _ => false, 0⟩
  obtain ⟨ok, p, final, ran, -, enough, -⟩ := boundary 14 (by decide)
  obtain ⟨ok', p', final', ran', -, short, -⟩ := boundary 13 (by decide)
  rw [enough.mpr (by decide)] at ran
  have refused : ok' = false := by
    rw [← Bool.not_eq_true, short]
    decide
  rw [refused] at ran'
  exact ⟨⟨p, final, ran⟩, p', final', ran'⟩

end CNear.JsonPrint
