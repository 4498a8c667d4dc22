import Mathlib.Data.List.Basic
import Mathlib.Tactic.Common

/-! Hash functions that work block by block. `consume` takes in the whole blocks of a message and
leaves the rest; what it has seen may come in any pieces. -/

namespace BlockHash
variable {State Symbol : Type}

/-- The state behind the whole blocks, and what is left of the message. -/
def consume (size : Nat) (compress : State → List Symbol → State) (state : State)
    (message : List Symbol) : State × List Symbol :=
  if 0 < size ∧ size ≤ message.length then
    consume size compress (compress state (message.take size)) (message.drop size)
  else (state, message)
termination_by message.length
decreasing_by
  rw [List.length_drop]
  omega

section Consume
variable {size : Nat} {compress : State → List Symbol → State} {state : State}
  {message : List Symbol}

theorem consume_short (short : message.length < size) :
    consume size compress state message = (state, message) := by
  rw [consume, if_neg (by omega)]

theorem consume_whole (positive : 0 < size) {block : List Symbol} (whole : block.length = size)
    (rest : List Symbol) :
    consume size compress state (block ++ rest) =
      consume size compress (compress state block) rest := by
  conv_lhs => rw [consume]
  rw [if_pos ⟨positive, by rw [List.length_append]; omega⟩, List.take_left' whole,
    List.drop_left' whole]

/-- The rest is shorter than a block. -/
theorem consume_length (positive : 0 < size) :
    (consume size compress state message).2.length = message.length % size := by
  induction state, message using consume.induct size compress with
  | case1 state message whole ih =>
    rw [consume, if_pos whole, ih, List.length_drop, ← Nat.mod_eq_sub_mod whole.2]
  | case2 state message short =>
    rw [consume, if_neg short, Nat.mod_eq_of_lt (by omega)]

/-- A message in two pieces. -/
theorem consume_append (positive : 0 < size) (more : List Symbol) :
    consume size compress state (message ++ more) =
      consume size compress (consume size compress state message).1
        ((consume size compress state message).2 ++ more) := by
  induction state, message using consume.induct size compress with
  | case1 state message whole ih =>
    have block : (message.take size).length = size := List.length_take_of_le whole.2
    have first : consume size compress state message =
        consume size compress (compress state (message.take size)) (message.drop size) := by
      rw [consume, if_pos whole]
    calc
      consume size compress state (message ++ more) =
          consume size compress state (message.take size ++ (message.drop size ++ more)) := by
        rw [← List.append_assoc, List.take_append_drop]
      _ = consume size compress (compress state (message.take size)) (message.drop size ++ more) :=
        consume_whole positive block _
      _ = _ := by rw [ih, first]
  | case2 state message short =>
    rw [consume_short (by omega : message.length < size)]

end Consume

/-! ## Pieces -/

/-- What is known of a message that was seen in pieces. -/
structure Seen (size : Nat) (compress : State → List Symbol → State) (start : State)
    (message : List Symbol) (state : State) (rest : List Symbol) : Prop where
  consumed : consume size compress start message = (state, rest)

namespace Seen
variable {size : Nat} {compress : State → List Symbol → State} {start state : State}
  {message rest : List Symbol}

theorem nothing (positive : 0 < size) (start : State) : Seen size compress start [] start [] where
  consumed := consume_short positive

theorem length (seen : Seen size compress start message state rest) (positive : 0 < size) :
    rest.length = message.length % size := by
  have length := @consume_length _ _ size compress start message positive
  rwa [seen.consumed] at length

/-- Too little to fill a block is kept. -/
theorem keep (seen : Seen size compress start message state rest) {piece : List Symbol}
    (short : rest.length + piece.length < size) :
    Seen size compress start (message ++ piece) state (rest ++ piece) where
  consumed := by
    rw [consume_append (by omega), seen.consumed]
    exact consume_short (by rwa [List.length_append])

/-- What fills the block is taken in. -/
theorem fill (seen : Seen size compress start message state rest) {piece : List Symbol}
    (positive : 0 < size) (full : rest.length + piece.length = size) :
    Seen size compress start (message ++ piece) (compress state (rest ++ piece)) [] where
  consumed := by
    have block := @consume_whole _ _ size compress state positive (rest ++ piece)
      (by rwa [List.length_append]) []
    rw [List.append_nil] at block
    rw [consume_append positive, seen.consumed, block]
    exact consume_short positive

end Seen

/-! ## Padding -/

/-- A mark, as few fillers as possible and the length field, so that blocks end with the field. -/
def padding (size : Nat) (mark filler : Symbol) (field : List Symbol) (length : Nat) : List Symbol :=
  mark :: (List.replicate ((size - (length + 1 + field.length) % size) % size) filler ++ field)

section Padding
variable {size : Nat} {compress : State → List Symbol → State} {start state : State}
  {message rest field : List Symbol} {mark filler : Symbol}

theorem fillers_one {length count : Nat} (room : length % size + 1 + count ≤ size) :
    (size - (length + 1 + count) % size) % size = size - (length % size + 1 + count) := by
  have split : (length + 1 + count) % size = (length % size + 1 + count) % size := by
    rw [Nat.add_assoc, ← Nat.mod_add_mod, ← Nat.add_assoc]
  rw [split]
  rcases Nat.lt_or_ge (length % size + 1 + count) size with less | full
  · rw [Nat.mod_eq_of_lt less, Nat.mod_eq_of_lt (by omega)]
  · have exactly : length % size + 1 + count = size := by omega
    rw [exactly, Nat.mod_self, Nat.sub_zero, Nat.mod_self, Nat.sub_self]

theorem fillers_two {length count : Nat} (positive : 0 < size) (short : count ≤ size)
    (crowded : size < length % size + 1 + count) :
    (size - (length + 1 + count) % size) % size = 2 * size - (length % size + 1 + count) := by
  have used := Nat.mod_lt length positive
  have split : (length + 1 + count) % size = (length % size + 1 + count - size) % size := by
    rw [← Nat.mod_eq_sub_mod (Nat.le_of_lt crowded), Nat.add_assoc, ← Nat.mod_add_mod,
      ← Nat.add_assoc]
  rw [split]
  rcases Nat.lt_or_ge (length % size + 1 + count) (2 * size) with less | full
  · rw [Nat.mod_eq_of_lt (by omega : length % size + 1 + count - size < size),
      Nat.mod_eq_of_lt (by omega)]
    omega
  · have exactly : length % size + 1 + count - size = size := by omega
    rw [exactly, Nat.mod_self, Nat.sub_zero, Nat.mod_self]
    omega

/-- With room for the field there is one more block. -/
theorem Seen.finish_one (seen : Seen size compress start message state rest) (positive : 0 < size)
    (room : rest.length + 1 + field.length ≤ size) :
    consume size compress start (message ++ padding size mark filler field message.length) =
      (compress state (rest ++ mark ::
        (List.replicate (size - (rest.length + 1 + field.length)) filler ++ field)), []) := by
  have length := seen.length positive
  rw [length] at room
  have fillers := fillers_one room
  rw [← length] at fillers room
  rw [padding, fillers]
  apply (seen.fill positive ?_).consumed
  simp only [List.length_cons, List.length_append, List.length_replicate]
  omega

/-- Without it there are two, and the mark is in the first of them. -/
theorem Seen.finish_two (seen : Seen size compress start message state rest) (positive : 0 < size)
    (short : field.length ≤ size) (crowded : size < rest.length + 1 + field.length) :
    consume size compress start (message ++ padding size mark filler field message.length) =
      (compress (compress state (rest ++ mark :: List.replicate (size - (rest.length + 1)) filler))
        (List.replicate (size - field.length) filler ++ field), []) := by
  have length := seen.length positive
  have used := Nat.mod_lt message.length positive
  rw [length] at crowded
  have fillers := fillers_two positive short crowded
  rw [← length] at fillers crowded used
  have count : 2 * size - (rest.length + 1 + field.length) =
      size - (rest.length + 1) + (size - field.length) := by omega
  have split : message ++ padding size mark filler field message.length =
      message ++ mark :: List.replicate (size - (rest.length + 1)) filler ++
        (List.replicate (size - field.length) filler ++ field) := by
    rw [padding, fillers, count, List.replicate_add]
    simp only [List.append_assoc, List.cons_append]
  have first : Seen size compress start _
      (compress state (rest ++ mark :: List.replicate (size - (rest.length + 1)) filler)) [] :=
    seen.fill positive (by
      simp only [List.length_cons, List.length_replicate]
      omega)
  have second : Seen size compress start _
      (compress _ ([] ++ (List.replicate (size - field.length) filler ++ field))) [] :=
    first.fill positive (by
      simp only [List.length_nil, List.length_append, List.length_replicate]
      omega)
  rw [split, second.consumed, List.nil_append]

end Padding

end BlockHash
