import CNear.Lib.LittleEndian
import Mathlib.Logic.Equiv.Defs

/-! Self-delimiting byte codecs. A codec carries both of its laws: decoding an encoding
followed by anything gives the value back and leaves what follows alone, and a decoder
accepts nothing but encodings. Formats are built from the combinators below, so both laws
hold of every format by construction. -/

structure ByteCodec (α : Type) where
  Fits : α → Prop
  encode : α → List UInt8
  decode : List UInt8 → Option (α × List UInt8)
  decode_encode : ∀ value rest, Fits value → decode (encode value ++ rest) = some (value, rest)
  encode_of_decode : ∀ {input value rest}, decode input = some (value, rest) →
    Fits value ∧ input = encode value ++ rest

namespace ByteCodec
variable {α β : Type}

theorem decode_encode_self (codec : ByteCodec α) (value : α) (fits : codec.Fits value) :
    codec.decode (codec.encode value) = some (value, []) := by
  simpa using codec.decode_encode value [] fits

/-- Input that decodes without a rest is the encoding of what it decodes to. -/
theorem eq_encode_of_decode_nil (codec : ByteCodec α) {input : List UInt8} {value : α}
    (decoded : codec.decode input = some (value, [])) :
    codec.Fits value ∧ input = codec.encode value := by
  simpa using codec.encode_of_decode decoded

/-- One fixed byte that carries no information. -/
def tag (mark : UInt8) : ByteCodec Unit where
  Fits := fun _ => True
  encode := fun _ => [mark]
  decode
    | [] => none
    | byte :: rest => if byte = mark then some ((), rest) else none
  decode_encode := by simp
  encode_of_decode := by
    intro input value rest decoded
    cases input with
    | nil => simp at decoded
    | cons byte tail =>
      by_cases same : byte = mark
      · simp_all
      · simp [same] at decoded

/-- Exactly `count` bytes, as they are. -/
def block (count : Nat) : ByteCodec (List UInt8) where
  Fits := fun bytes => bytes.length = count
  encode := id
  decode := fun input =>
    if count ≤ input.length then some (input.take count, input.drop count) else none
  decode_encode := by
    intro bytes rest length
    simp [← length]
  encode_of_decode := by
    intro input bytes rest decoded
    by_cases enough : count ≤ input.length
    · simp only [enough, ↓reduceIte, Option.some.injEq, Prod.mk.injEq] at decoded
      obtain ⟨rfl, rfl⟩ := decoded
      exact ⟨by simpa using enough, (List.take_append_drop count input).symm⟩
    · simp [enough] at decoded

/-- Both parts, one after the other. -/
def pair (first : ByteCodec α) (second : ByteCodec β) : ByteCodec (α × β) where
  Fits := fun value => first.Fits value.1 ∧ second.Fits value.2
  encode := fun value => first.encode value.1 ++ second.encode value.2
  decode := fun input =>
    (first.decode input).bind fun left =>
      (second.decode left.2).map fun right => ((left.1, right.1), right.2)
  decode_encode := by
    intro value rest fits
    rw [List.append_assoc, first.decode_encode _ _ fits.1]
    simp [second.decode_encode _ _ fits.2]
  encode_of_decode := by
    intro input value rest decoded
    obtain ⟨⟨left, middle⟩, leftDecoded, inner⟩ := Option.bind_eq_some_iff.mp decoded
    obtain ⟨⟨right, tail⟩, rightDecoded, same⟩ := Option.map_eq_some_iff.mp inner
    obtain ⟨leftFits, rfl⟩ := first.encode_of_decode leftDecoded
    obtain ⟨rightFits, rfl⟩ := second.encode_of_decode rightDecoded
    cases same
    exact ⟨⟨leftFits, rightFits⟩, (List.append_assoc _ _ _).symm⟩

/-- The same bytes, read as another type. -/
def through (codec : ByteCodec α) (view : α ≃ β) : ByteCodec β where
  Fits := fun value => codec.Fits (view.symm value)
  encode := fun value => codec.encode (view.symm value)
  decode := fun input => (codec.decode input).map fun read => (view read.1, read.2)
  decode_encode := by
    intro value rest fits
    simp [codec.decode_encode _ _ fits]
  encode_of_decode := by
    intro input value rest decoded
    obtain ⟨⟨read, tail⟩, readDecoded, same⟩ := Option.map_eq_some_iff.mp decoded
    cases same
    simpa using codec.encode_of_decode readDecoded

/-- A little-endian word of `width` bytes. -/
def word (width : Nat) : ByteCodec Nat where
  Fits := fun n => n < 256 ^ width
  encode := LittleEndian.fixed width
  decode := fun input =>
    ((block width).decode input).map fun read => (LittleEndian.value read.1, read.2)
  decode_encode := by
    intro n rest fits
    rw [show LittleEndian.fixed width n = (block width).encode (LittleEndian.fixed width n) from rfl,
      (block width).decode_encode _ _ (LittleEndian.fixed_length width n)]
    simp [LittleEndian.value_fixed_of_lt fits]
  encode_of_decode := by
    intro input n rest decoded
    obtain ⟨⟨bytes, tail⟩, read, same⟩ := Option.map_eq_some_iff.mp decoded
    obtain ⟨length, rfl⟩ := (block width).encode_of_decode read
    change bytes.length = width at length
    cases same
    subst length
    exact ⟨LittleEndian.value_lt bytes, by rw [LittleEndian.fixed_value]; rfl⟩

/-- A byte string behind its own length, a little-endian word of `width` bytes. -/
def sized (width : Nat) : ByteCodec (List UInt8) where
  Fits := fun bytes => bytes.length < 256 ^ width
  encode := fun bytes => (word width).encode bytes.length ++ bytes
  decode := fun input =>
    ((word width).decode input).bind fun read => (block read.1).decode read.2
  decode_encode := by
    intro bytes rest fits
    rw [List.append_assoc, (word width).decode_encode _ _ fits]
    exact (block bytes.length).decode_encode bytes rest rfl
  encode_of_decode := by
    intro input bytes rest decoded
    obtain ⟨⟨count, middle⟩, read, inner⟩ := Option.bind_eq_some_iff.mp decoded
    obtain ⟨fits, rfl⟩ := (word width).encode_of_decode read
    obtain ⟨length, rfl⟩ := (block count).encode_of_decode inner
    change bytes.length = count at length
    subst length
    exact ⟨fits, (List.append_assoc _ _ _).symm⟩

/-- `count` items, one after the other. -/
def decodeItems (item : ByteCodec α) : Nat → List UInt8 → Option (List α × List UInt8)
  | 0, input => some ([], input)
  | count + 1, input =>
      (item.decode input).bind fun first =>
        (decodeItems item count first.2).map fun others => (first.1 :: others.1, others.2)

theorem decodeItems_encode (item : ByteCodec α) (values : List α) (rest : List UInt8)
    (fits : ∀ value ∈ values, item.Fits value) :
    decodeItems item values.length (values.flatMap item.encode ++ rest) = some (values, rest) := by
  induction values with
  | nil => rfl
  | cons value values ih =>
    have tail := ih (fun other member => fits other (List.mem_cons_of_mem _ member))
    simp [decodeItems, item.decode_encode _ _ (fits value List.mem_cons_self), tail]

theorem encode_of_decodeItems (item : ByteCodec α) (count : Nat) (input rest : List UInt8)
    (values : List α) (decoded : decodeItems item count input = some (values, rest)) :
    values.length = count ∧ (∀ value ∈ values, item.Fits value) ∧
      input = values.flatMap item.encode ++ rest := by
  induction count generalizing input values with
  | zero =>
    simp only [decodeItems, Option.some.injEq, Prod.mk.injEq] at decoded
    obtain ⟨rfl, rfl⟩ := decoded
    simp
  | succ count ih =>
    obtain ⟨⟨first, middle⟩, read, inner⟩ := Option.bind_eq_some_iff.mp decoded
    obtain ⟨⟨others, tail⟩, more, same⟩ := Option.map_eq_some_iff.mp inner
    cases same
    obtain ⟨firstFits, rfl⟩ := item.encode_of_decode read
    obtain ⟨length, othersFit, rfl⟩ := ih _ _ more
    refine ⟨by simp [length], ?_, by simp⟩
    intro value member
    rcases List.mem_cons.mp member with rfl | later
    · exact firstFits
    · exact othersFit value later

/-- A list behind its number of items, a little-endian word of `width` bytes. -/
def vec (width : Nat) (item : ByteCodec α) : ByteCodec (List α) where
  Fits := fun values => values.length < 256 ^ width ∧ ∀ value ∈ values, item.Fits value
  encode := fun values => (word width).encode values.length ++ values.flatMap item.encode
  decode := fun input =>
    ((word width).decode input).bind fun read => decodeItems item read.1 read.2
  decode_encode := by
    intro values rest fits
    rw [List.append_assoc, (word width).decode_encode _ _ fits.1]
    exact decodeItems_encode item values rest fits.2
  encode_of_decode := by
    intro input values rest decoded
    obtain ⟨⟨count, middle⟩, read, inner⟩ := Option.bind_eq_some_iff.mp decoded
    obtain ⟨fits, rfl⟩ := (word width).encode_of_decode read
    obtain ⟨length, itemsFit, rfl⟩ := encode_of_decodeItems item count middle rest values inner
    subst length
    exact ⟨⟨fits, itemsFit⟩, (List.append_assoc _ _ _).symm⟩

/-- A codec behind a fixed byte. -/
def tagged (mark : UInt8) (codec : ByteCodec α) : ByteCodec α :=
  ((tag mark).pair codec).through (Equiv.punitProd α)

end ByteCodec
