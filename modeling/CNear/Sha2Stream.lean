import CNear.Sha2Transform

/-! A context that has seen a message in any pieces finishes with the digest of the message: the
buffer has what is left of it behind the whole blocks, and the count is its length. -/

namespace CNear.Sha2

/-! ## Words in memory -/

section Words
variable {v : Algorithm} {f : SecureHash.Variant v.wordBytes} {platform : Platform}

theorem storeWord_length (host : ByteOrder) (wordBytes : Nat) (word : BitVec (8 * wordBytes)) :
    (storeWord host wordBytes word).length = wordBytes := by
  cases host
  · exact LittleEndian.fixed_length _ _
  · exact List.length_reverse.trans (LittleEndian.fixed_length _ _)

theorem ofNat_value_fixed (wordBytes n : Nat) :
    BitVec.ofNat (8 * wordBytes) (LittleEndian.value (LittleEndian.fixed wordBytes n)) =
      BitVec.ofNat (8 * wordBytes) n := by
  have size : 256 ^ wordBytes = 2 ^ (8 * wordBytes) := by rw [Nat.pow_mul]
  apply BitVec.eq_of_toNat_eq
  rw [LittleEndian.value_fixed, BitVec.toNat_ofNat, BitVec.toNat_ofNat, size, Nat.mod_mod]

theorem loadWord_storeWord (host : ByteOrder) (wordBytes : Nat) (word : BitVec (8 * wordBytes)) :
    loadWord host wordBytes (storeWord host wordBytes word) = word := by
  have back : BitVec.ofNat (8 * wordBytes)
      (LittleEndian.value (LittleEndian.fixed wordBytes word.toNat)) = word := by
    rw [ofNat_value_fixed, BitVec.ofNat_toNat, BitVec.setWidth_eq]
  cases host
  · exact back
  · rw [storeWord, loadWord, List.reverse_reverse]
    exact back

theorem wordOf_bytesOf (wordBytes n : Nat) :
    SecureHash.wordOf wordBytes (SecureHash.bytesOf wordBytes n) = BitVec.ofNat _ n := by
  rw [SecureHash.wordOf, SecureHash.bytesOf, List.reverse_reverse, ofNat_value_fixed]

/-- Loaded and converted, a word has its first byte at the top. -/
theorem convert_loadWord (conforms : Conforms v f) (agree : platform.host = platform.byteOrder)
    {bytes : List UInt8} (length : bytes.length = v.wordBytes) :
    convert v platform (loadWord platform.host v.wordBytes bytes) =
      SecureHash.wordOf v.wordBytes bytes := by
  rw [agree, convert]
  cases platform.byteOrder
  · exact conforms.reverse bytes length
  · rfl

theorem storeWord_convert (conforms : Conforms v f) (agree : platform.host = platform.byteOrder)
    (word : v.Word) :
    storeWord platform.host v.wordBytes (convert v platform word) =
      SecureHash.bytesOf v.wordBytes word.toNat := by
  rw [agree, convert]
  cases platform.byteOrder
  · have bytes := LittleEndian.fixed_length v.wordBytes word.toNat
    have same : word =
        BitVec.ofNat _ (LittleEndian.value (LittleEndian.fixed v.wordBytes word.toNat)) := by
      rw [ofNat_value_fixed, BitVec.ofNat_toNat, BitVec.setWidth_eq]
    have reversed := conforms.reverse _ bytes
    rw [← same] at reversed
    have size : 256 ^ v.wordBytes = 2 ^ (8 * v.wordBytes) := by rw [Nat.pow_mul]
    apply LittleEndian.value_injective
    · rw [storeWord_length, SecureHash.bytesOf, List.length_reverse, bytes]
    · rw [storeWord, LittleEndian.value_fixed, SecureHash.bytesOf]
      dsimp only
      rw [reversed, BitVec.toNat_ofNat, size, Nat.mod_mod, ← size]
      have below := LittleEndian.value_lt (LittleEndian.fixed v.wordBytes word.toNat).reverse
      rw [List.length_reverse, bytes] at below
      exact Nat.mod_eq_of_lt below
  · rfl

theorem convertWords_length {count : Nat} {buffer : List UInt8}
    (enough : v.wordBytes * count ≤ buffer.length) :
    (convertWords v platform count buffer).length = buffer.length := by
  induction count generalizing buffer with
  | zero => rfl
  | succ count ih =>
    rw [Nat.mul_succ] at enough
    have rest : v.wordBytes * count ≤ (buffer.drop v.wordBytes).length := by
      rw [List.length_drop]
      omega
    rw [convertWords, List.length_append, storeWord_length, ih rest, List.length_drop]
    omega

/-- The words of a converted buffer are those of the block. -/
theorem convertWords_word (conforms : Conforms v f) (agree : platform.host = platform.byteOrder)
    {count j : Nat} {buffer : List UInt8} (enough : v.wordBytes * count ≤ buffer.length)
    (bound : j < count) :
    loadWord platform.host v.wordBytes
        (((convertWords v platform count buffer).drop (v.wordBytes * j)).take v.wordBytes) =
      SecureHash.wordOf v.wordBytes ((buffer.drop (v.wordBytes * j)).take v.wordBytes) := by
  induction count generalizing buffer j with
  | zero => omega
  | succ count ih =>
    rw [Nat.mul_succ] at enough
    have stored := storeWord_length platform.host v.wordBytes (convert v platform
      (loadWord platform.host v.wordBytes (buffer.take v.wordBytes)))
    rw [convertWords]
    cases j with
    | zero =>
      rw [Nat.mul_zero, List.drop_zero, List.drop_zero, List.take_left' stored, loadWord_storeWord]
      exact convert_loadWord conforms agree (List.length_take_of_le (by omega))
    | succ j =>
      have rest : v.wordBytes * count ≤ (buffer.drop v.wordBytes).length := by
        rw [List.length_drop]
        omega
      have next := ih rest (Nat.lt_of_succ_lt_succ bound)
      rw [List.drop_drop, Nat.add_comm, ← Nat.mul_succ] at next
      rw [← next, Nat.mul_succ, Nat.add_comm, ← List.drop_drop, List.drop_left' stored]

theorem words_get (buffer : List UInt8) (j : Nat) (bound : j < 16) :
    (words v platform buffer)[j] =
      loadWord platform.host v.wordBytes ((buffer.drop (v.wordBytes * j)).take v.wordBytes) := by
  rw [words, Vector.getElem_ofFn]

/-- A full buffer is compressed. -/
theorem processBuffer_state (conforms : Conforms v f) (agree : platform.host = platform.byteOrder)
    {context : Context v} (length : context.buffer.length = v.blockLength) :
    toVariables (processBuffer v platform context).state =
      SecureHash.compress f (toVariables context.state) context.buffer := by
  rw [Algorithm.blockLength, Nat.mul_comm] at length
  refine transform_eq conforms fun j bound => ?_
  rw [words_get]
  exact convertWords_word conforms agree (Nat.le_of_eq length.symm) bound

end Words

/-- Bytes that fit are written, and what was in front of them stays. -/
theorem patch_front {buffer bytes : List UInt8} {index : Nat}
    (inside : index + bytes.length ≤ buffer.length) :
    ∃ after, patch buffer index bytes = .ok after ∧ after.length = buffer.length ∧
      after.take (index + bytes.length) = buffer.take index ++ bytes := by
  refine ⟨_, if_pos inside, ?_, ?_⟩
  · simp only [List.length_append, List.length_take, List.length_drop]
    omega
  · rw [← List.append_assoc]
    apply List.take_left'
    rw [List.length_append, List.length_take]
    omega

/-! ## Pieces -/

section Pieces
variable {v : Algorithm} {f : SecureHash.Variant v.wordBytes} {platform : Platform}

theorem Conforms.blockLength_dvd (conforms : Conforms v f) : v.blockLength ∣ 2 ^ 60 :=
  Nat.mul_dvd_mul_left 16 conforms.wordBytes_dvd

theorem Conforms.blockLength_pos (conforms : Conforms v f) : 0 < v.blockLength :=
  Nat.pos_of_dvd_of_pos conforms.blockLength_dvd (by decide)

/-- The count grows by the bits of a piece. -/
theorem Conforms.count_append (conforms : Conforms v f) {count : v.Count} {message piece : List UInt8}
    (counted : conforms.total count = 8 * message.length % 2 ^ (16 * v.wordBytes))
    (short : piece.length ≤ v.blockLength) :
    conforms.total (v.add count (piece.length <<< 3)) =
      8 * (message ++ piece).length % 2 ^ (16 * v.wordBytes) := by
  have bits : piece.length <<< 3 = 8 * piece.length := by
    rw [Nat.shiftLeft_eq, Nat.mul_comm]
  have block := Nat.le_of_dvd (by decide) conforms.blockLength_dvd
  rw [bits, conforms.total_add count _ (by omega), counted, Nat.mod_add_mod, List.length_append,
    Nat.mul_add]

/-- What a context knows of the message that it has seen. -/
structure Taken (conforms : Conforms v f) (message : List UInt8) (context : Context v) : Prop where
  buffer : context.buffer.length = v.blockLength
  count : conforms.total context.bitcount = 8 * message.length % 2 ^ (16 * v.wordBytes)
  seen : BlockHash.Seen v.blockLength (SecureHash.compress f) (SecureHash.initial v.wordBytes) message
    (toVariables context.state) (context.buffer.take (message.length % v.blockLength))

theorem taken_init (conforms : Conforms v f) : Taken conforms [] (init v) where
  buffer := List.length_replicate
  count := by
    rw [init, conforms.total_zero, List.length_nil, Nat.mul_zero, Nat.zero_mod]
  seen := by
    have start : toVariables v.initial = SecureHash.initial v.wordBytes := by
      simp only [toVariables, start, Registers.toVariables, conforms.initial, SecureHash.initial]
    rw [init, start, List.length_nil, Nat.zero_mod, List.take_zero]
    exact BlockHash.Seen.nothing conforms.blockLength_pos _

namespace Taken
variable {conforms : Conforms v f} {message piece : List UInt8} {context : Context v}

/-- The used space is the length of what is left. -/
theorem usedspace_eq (taken : Taken conforms message context) :
    usedspace v context = message.length % v.blockLength := by
  have wide : 2 ^ 64 ∣ 2 ^ (16 * v.wordBytes) :=
    Nat.pow_dvd_pow 2 (by have := conforms.four_le; omega)
  have bytes : (8 * message.length % 2 ^ 64) >>> 3 = message.length % 2 ^ 61 := by
    rw [Nat.shiftRight_eq_div_pow]
    omega
  have block : v.blockLength ∣ 2 ^ 61 := conforms.blockLength_dvd.trans (by decide)
  rw [usedspace, conforms.low, taken.count, Nat.mod_mod_of_dvd _ wide, bytes,
    Nat.mod_mod_of_dvd _ block]

theorem left_length (taken : Taken conforms message context) :
    (context.buffer.take (message.length % v.blockLength)).length =
      message.length % v.blockLength := by
  have used := Nat.mod_lt message.length conforms.blockLength_pos
  rw [List.length_take, taken.buffer]
  omega

/-- Too little for a block. -/
theorem keep (taken : Taken conforms message context)
    (short : message.length % v.blockLength + piece.length < v.blockLength) :
    ∃ buffer, patch context.buffer (message.length % v.blockLength) piece = .ok buffer ∧
      Taken conforms (message ++ piece) { context with
        buffer := buffer
        bitcount := v.add context.bitcount (piece.length <<< 3) } := by
  have inside : message.length % v.blockLength + piece.length ≤ context.buffer.length := by
    rw [taken.buffer]
    omega
  have used : (message ++ piece).length % v.blockLength =
      message.length % v.blockLength + piece.length := by
    rw [List.length_append, ← Nat.mod_add_mod, Nat.mod_eq_of_lt short]
  obtain ⟨buffer, patched, length, front⟩ := patch_front inside
  refine ⟨buffer, patched, length.trans taken.buffer, conforms.count_append taken.count (by omega), ?_⟩
  rw [used, front]
  exact taken.seen.keep (by rwa [taken.left_length])

/-- Enough for a block. -/
theorem fill (taken : Taken conforms message context) (agree : platform.host = platform.byteOrder)
    (full : message.length % v.blockLength + piece.length = v.blockLength) :
    ∃ buffer, patch context.buffer (message.length % v.blockLength) piece = .ok buffer ∧
      Taken conforms (message ++ piece) (processBuffer v platform { context with
        buffer := buffer
        bitcount := v.add context.bitcount (piece.length <<< 3) }) := by
  have inside : message.length % v.blockLength + piece.length ≤ context.buffer.length := by
    rw [taken.buffer]
    exact Nat.le_of_eq full
  have none : (message ++ piece).length % v.blockLength = 0 := by
    rw [List.length_append, ← Nat.mod_add_mod, full, Nat.mod_self]
  obtain ⟨buffer, patched, length, front⟩ := patch_front inside
  have length := length.trans taken.buffer
  rw [List.take_of_length_le (by rw [length, full])] at front
  refine ⟨buffer, patched, ?_, conforms.count_append taken.count (by omega), ?_⟩
  · refine (convertWords_length ?_).trans length
    rw [length, Algorithm.blockLength, Nat.mul_comm]
  · rw [none, List.take_zero, processBuffer_state conforms agree length, front]
    exact taken.seen.fill conforms.blockLength_pos (by rwa [taken.left_length])

theorem updateBlocks (taken : Taken conforms message context)
    (agree : platform.host = platform.byteOrder) (whole : message.length % v.blockLength = 0)
    (data : List UInt8) :
    ∃ after, Sha2.updateBlocks v platform context data = .ok after ∧
      Taken conforms (message ++ data) after := by
  induction size : data.length using Nat.strong_induction_on generalizing message context data with
  | h bound ih =>
    have positive := conforms.blockLength_pos
    rw [Sha2.updateBlocks]
    split
    · rename_i block
      have length : (data.take v.blockLength).length = v.blockLength :=
        List.length_take_of_le block.2
      obtain ⟨buffer, patched, filled⟩ := taken.fill agree
        (by rw [whole, Nat.zero_add, length] : _ + (data.take v.blockLength).length = _)
      have shorter : (data.drop v.blockLength).length < bound := by
        rw [List.length_drop]
        omega
      have again : (message ++ data.take v.blockLength).length % v.blockLength = 0 := by
        rw [List.length_append, length, Nat.add_mod_right, whole]
      obtain ⟨after, updated, rest⟩ := ih _ shorter filled again _ rfl
      rw [whole] at patched
      rw [length] at updated
      rw [List.append_assoc, List.take_append_drop] at rest
      refine ⟨after, ?_, rest⟩
      rw [patched]
      exact updated
    · split
      · obtain ⟨buffer, patched, kept⟩ := taken.keep (by omega :
          message.length % v.blockLength + data.length < v.blockLength)
        rw [whole] at patched
        refine ⟨_, ?_, kept⟩
        rw [patched]
        rfl
      · have nothing : data = [] := List.length_eq_zero_iff.mp (by omega)
        rw [nothing, List.append_nil]
        exact ⟨context, rfl, taken⟩

theorem update (taken : Taken conforms message context)
    (agree : platform.host = platform.byteOrder) (data : List UInt8) :
    ∃ after, Sha2.update v platform context data = .ok after ∧
      Taken conforms (message ++ data) after := by
  have used := Nat.mod_lt message.length conforms.blockLength_pos
  rw [Sha2.update, taken.usedspace_eq]
  split
  · rename_i empty
    rw [List.length_eq_zero_iff.mp empty, List.append_nil]
    exact ⟨context, rfl, taken⟩
  · dsimp only
    split
    · split
      · rename_i enough
        have length : (data.take (v.blockLength - message.length % v.blockLength)).length =
            v.blockLength - message.length % v.blockLength := List.length_take_of_le enough
        have full : message.length % v.blockLength +
            (data.take (v.blockLength - message.length % v.blockLength)).length =
              v.blockLength := by omega
        obtain ⟨buffer, patched, filled⟩ := taken.fill agree full
        have none : (message ++
            data.take (v.blockLength - message.length % v.blockLength)).length % v.blockLength = 0 := by
          rw [List.length_append, ← Nat.mod_add_mod, full, Nat.mod_self]
        obtain ⟨after, updated, rest⟩ := filled.updateBlocks agree none
          (data.drop (v.blockLength - message.length % v.blockLength))
        rw [List.append_assoc, List.take_append_drop] at rest
        rw [length] at updated
        refine ⟨after, ?_, rest⟩
        rw [patched]
        exact updated
      · obtain ⟨buffer, patched, kept⟩ := taken.keep (by omega :
          message.length % v.blockLength + data.length < v.blockLength)
        refine ⟨_, ?_, kept⟩
        rw [patched]
        rfl
    · exact taken.updateBlocks agree (by omega) data

end Taken
end Pieces

/-! ## The last block -/

section Last
variable {v : Algorithm} {f : SecureHash.Variant v.wordBytes} {platform : Platform}

theorem chunk_front {xs ys : List UInt8} {n a b : Nat} (inside : a + b ≤ n) (enough : n ≤ xs.length) :
    ((xs.take n ++ ys).drop a).take b = (xs.drop a).take b := by
  have length : (xs.take n).length = n := List.length_take_of_le enough
  rw [List.drop_append_of_le_length (by omega), List.take_append_of_le_length
    (by rw [List.length_drop]; omega), List.drop_take, List.take_take, Nat.min_eq_left (by omega)]

theorem chunk_behind {xs first rest : List UInt8} {a b : Nat} (front : xs.length = a)
    (length : first.length = b) : ((xs ++ (first ++ rest)).drop a).take b = first := by
  rw [List.drop_left' front, List.take_left' length]

/-- The length field is two words. -/
theorem bytesOf_double (wordBytes n : Nat) :
    SecureHash.bytesOf (2 * wordBytes) n =
      SecureHash.bytesOf wordBytes (n / 256 ^ wordBytes) ++ SecureHash.bytesOf wordBytes n := by
  rw [SecureHash.bytesOf, Nat.two_mul, LittleEndian.fixed_add, List.reverse_append]
  rfl

theorem bytesOf_length (wordBytes n : Nat) : (SecureHash.bytesOf wordBytes n).length = wordBytes := by
  rw [SecureHash.bytesOf, List.length_reverse, LittleEndian.fixed_length]

/-- The words of the count are those of the length field. -/
theorem lengthWords_eq (conforms : Conforms v f) {count : v.Count} {bits : Nat}
    (counted : conforms.total count = bits % 2 ^ (16 * v.wordBytes)) :
    v.lengthWords count =
      (BitVec.ofNat _ (bits / 256 ^ v.wordBytes), BitVec.ofNat _ bits) := by
  have size : 256 ^ v.wordBytes = 2 ^ (8 * v.wordBytes) := by rw [Nat.pow_mul]
  have double : 2 ^ (16 * v.wordBytes) = 2 ^ (8 * v.wordBytes) * 2 ^ (8 * v.wordBytes) := by
    rw [← Nat.pow_add]
    congr 1
    omega
  rw [conforms.lengthWords, counted, size, double]
  apply Prod.ext <;> apply BitVec.eq_of_toNat_eq
  · rw [BitVec.toNat_ofNat, BitVec.toNat_ofNat, Nat.mod_mul_right_div_self, Nat.mod_mod]
  · rw [BitVec.toNat_ofNat, BitVec.toNat_ofNat, Nat.mod_mul_right_mod]

/-- The words are stored where the buffer was not converted. -/
theorem lastBlock_state (conforms : Conforms v f) (agree : platform.host = platform.byteOrder)
    {buffer : List UInt8} {state : Vector v.Word 8} {count : v.Count} {bits : Nat}
    (length : buffer.length = v.blockLength)
    (counted : conforms.total count = bits % 2 ^ (16 * v.wordBytes)) :
    ∃ after, patch (convertWords v platform 14 buffer) (14 * v.wordBytes)
        (storeWord platform.host v.wordBytes (v.lengthWords count).1 ++
          storeWord platform.host v.wordBytes (v.lengthWords count).2) = .ok after ∧
      toVariables (transform v state (words v platform after)) =
        SecureHash.compress f (toVariables state)
          (buffer.take (14 * v.wordBytes) ++ SecureHash.bytesOf (2 * v.wordBytes) bits) := by
  rw [Algorithm.blockLength] at length
  have enough : v.wordBytes * 14 ≤ buffer.length := by omega
  have converted := @convertWords_length v platform 14 buffer enough
  have front : ((convertWords v platform 14 buffer).take (14 * v.wordBytes)).length =
      14 * v.wordBytes := List.length_take_of_le (by omega)
  have frontField : (buffer.take (14 * v.wordBytes)).length = 14 * v.wordBytes :=
    List.length_take_of_le (by omega)
  have highLength := storeWord_length platform.host v.wordBytes (v.lengthWords count).1
  have lowLength := storeWord_length platform.host v.wordBytes (v.lengthWords count).2
  have inside : 14 * v.wordBytes + (storeWord platform.host v.wordBytes (v.lengthWords count).1 ++
      storeWord platform.host v.wordBytes (v.lengthWords count).2).length ≤
        (convertWords v platform 14 buffer).length := by
    rw [List.length_append]
    omega
  have field := lengthWords_eq conforms counted
  refine ⟨_, if_pos inside, transform_eq conforms fun j bound => ?_⟩
  rw [words_get]
  rcases (by omega : j < 14 ∨ j = 14 ∨ j = 15) with early | high | low
  · have bounds : v.wordBytes * j + v.wordBytes ≤ 14 * v.wordBytes := by
      rw [← Nat.mul_succ, Nat.mul_comm 14]
      exact Nat.mul_le_mul_left _ early
    rw [chunk_front bounds (by omega), chunk_front bounds (by omega)]
    exact convertWords_word conforms agree enough early
  · rw [high, List.append_assoc, chunk_behind (by omega) highLength, loadWord_storeWord, field,
      bytesOf_double, chunk_behind (by omega) (bytesOf_length _ _), wordOf_bytesOf]
  · have behind : ((convertWords v platform 14 buffer).take (14 * v.wordBytes) ++
        storeWord platform.host v.wordBytes (v.lengthWords count).1).length = v.wordBytes * 15 := by
      rw [List.length_append]
      omega
    have behindField : (buffer.take (14 * v.wordBytes) ++
        SecureHash.bytesOf v.wordBytes (bits / 256 ^ v.wordBytes)).length = v.wordBytes * 15 := by
      rw [List.length_append, bytesOf_length]
      omega
    rw [low, List.append_assoc, ← List.append_assoc, chunk_behind behind lowLength,
      loadWord_storeWord, field, bytesOf_double, ← List.append_assoc,
      ← List.append_nil (SecureHash.bytesOf v.wordBytes bits),
      chunk_behind behindField (bytesOf_length _ _), wordOf_bytesOf]

namespace Taken
variable {conforms : Conforms v f} {message : List UInt8} {context : Context v}

/-- The mark, and zeros up to a bound. -/
theorem pad (taken : Taken conforms message context) {bound : Nat}
    (above : message.length % v.blockLength + 1 ≤ bound) (within : bound ≤ v.blockLength) :
    ∃ marked filled,
      patch context.buffer (message.length % v.blockLength) [0x80] = .ok marked ∧
      patch marked (message.length % v.blockLength + 1)
        (List.replicate (bound - (message.length % v.blockLength + 1)) 0) = .ok filled ∧
      filled.length = v.blockLength ∧
      filled.take bound = context.buffer.take (message.length % v.blockLength) ++
        0x80 :: List.replicate (bound - (message.length % v.blockLength + 1)) 0 := by
  have size := taken.buffer
  obtain ⟨marked, markPatched, markLength, markFront⟩ := @patch_front context.buffer [0x80]
    (message.length % v.blockLength) (by rw [List.length_singleton]; omega)
  obtain ⟨filled, fillPatched, fillLength, fillFront⟩ := @patch_front marked
    (List.replicate (bound - (message.length % v.blockLength + 1)) 0)
    (message.length % v.blockLength + 1) (by rw [List.length_replicate]; omega)
  have reached : message.length % v.blockLength + 1 +
      (bound - (message.length % v.blockLength + 1)) = bound := by omega
  rw [List.length_singleton] at markFront
  rw [List.length_replicate, reached, markFront, List.append_assoc,
    List.singleton_append] at fillFront
  exact ⟨marked, filled, markPatched, fillPatched, by omega, fillFront⟩

/-- Without room for the length field the mark is in a block of its own. -/
theorem last_crowded (taken : Taken conforms message context)
    (agree : platform.host = platform.byteOrder)
    (crowded : v.shortBlockLength < message.length % v.blockLength + 1) :
    ∃ state, Sha2.last v platform context = .ok state ∧
      toVariables state = (BlockHash.consume v.blockLength (SecureHash.compress f)
        (SecureHash.initial v.wordBytes) (SecureHash.padded v.wordBytes message)).1 := by
  have used := Nat.mod_lt message.length conforms.blockLength_pos
  have left := taken.left_length
  have field := bytesOf_length (2 * v.wordBytes) (8 * message.length)
  have block : v.blockLength = 16 * v.wordBytes := rfl
  have shortBlock : v.shortBlockLength = 14 * v.wordBytes := rfl
  obtain ⟨marked, filled, markPatched, fillPatched, length, front⟩ := taken.pad used (Nat.le_refl _)
  rw [List.take_of_length_le (by omega)] at front
  have converted : (convertWords v platform 16 filled).length = filled.length :=
    convertWords_length (by omega)
  obtain ⟨cleared, clearPatched, clearLength, clearFront⟩ :=
    @patch_front (convertWords v platform 16 filled) (List.replicate (v.shortBlockLength - 0) 0) 0
      (by rw [List.length_replicate]; omega)
  rw [List.length_replicate, Nat.zero_add, Nat.sub_zero, List.take_zero, List.nil_append,
    shortBlock] at clearFront
  have first := @processBuffer_state v f platform conforms agree { context with buffer := filled }
    length
  obtain ⟨after, lastPatched, lastState⟩ := @lastBlock_state v f platform conforms agree cleared
    (transform v context.state (words v platform (convertWords v platform 16 filled)))
    context.bitcount (8 * message.length) (by omega) taken.count
  refine ⟨_, ?_, lastState.trans ?_⟩
  · simp only [Sha2.last, taken.usedspace_eq, markPatched, bind, Except.bind, if_pos crowded,
      fillPatched, processBuffer, clearPatched, lastPatched]
  · have finish := @BlockHash.Seen.finish_two _ _ _ _ _ _ _ _
      (SecureHash.bytesOf (2 * v.wordBytes) (8 * message.length)) (0x80 : UInt8) 0 taken.seen
      conforms.blockLength_pos (by omega) (by omega)
    have zeros : v.blockLength - 2 * v.wordBytes = 14 * v.wordBytes := by omega
    rw [left, field, zeros, ← front] at finish
    rw [SecureHash.padded, ← block, finish, clearFront]
    exact congrArg (SecureHash.compress f · _) first

/-- With room for it there is one more block. -/
theorem last_room (taken : Taken conforms message context)
    (agree : platform.host = platform.byteOrder)
    (room : ¬ v.shortBlockLength < message.length % v.blockLength + 1) :
    ∃ state, Sha2.last v platform context = .ok state ∧
      toVariables state = (BlockHash.consume v.blockLength (SecureHash.compress f)
        (SecureHash.initial v.wordBytes) (SecureHash.padded v.wordBytes message)).1 := by
  have left := taken.left_length
  have field := bytesOf_length (2 * v.wordBytes) (8 * message.length)
  have block : v.blockLength = 16 * v.wordBytes := rfl
  have shortBlock : v.shortBlockLength = 14 * v.wordBytes := rfl
  obtain ⟨marked, filled, markPatched, fillPatched, length, front⟩ :=
    taken.pad (Nat.le_of_not_lt room) (by omega)
  obtain ⟨after, lastPatched, lastState⟩ := @lastBlock_state v f platform conforms agree filled
    context.state context.bitcount (8 * message.length) length taken.count
  refine ⟨_, ?_, lastState.trans ?_⟩
  · simp only [Sha2.last, taken.usedspace_eq, markPatched, bind, Except.bind, if_neg room,
      fillPatched, lastPatched]
  · have finish := @BlockHash.Seen.finish_one _ _ _ _ _ _ _ _
      (SecureHash.bytesOf (2 * v.wordBytes) (8 * message.length)) (0x80 : UInt8) 0 taken.seen
      conforms.blockLength_pos (by omega)
    have zeros : v.blockLength - (message.length % v.blockLength + 1 + 2 * v.wordBytes) =
        v.shortBlockLength - (message.length % v.blockLength + 1) := by omega
    rw [left, field, zeros] at finish
    rw [← shortBlock, front, SecureHash.padded, ← block, finish, List.append_assoc, List.cons_append]

/-- The last words are those of the padded message. -/
theorem last (taken : Taken conforms message context) (agree : platform.host = platform.byteOrder) :
    ∃ state, Sha2.last v platform context = .ok state ∧
      toVariables state = (BlockHash.consume v.blockLength (SecureHash.compress f)
        (SecureHash.initial v.wordBytes) (SecureHash.padded v.wordBytes message)).1 := by
  by_cases crowded : v.shortBlockLength < message.length % v.blockLength + 1
  · exact taken.last_crowded agree crowded
  · exact taken.last_room agree crowded

end Taken

/-- The digest of a message that was seen in pieces is that of the message. -/
theorem Taken.final {conforms : Conforms v f} {message : List UInt8} {context : Context v}
    (taken : Taken conforms message context) (agree : platform.host = platform.byteOrder) :
    Sha2.final v platform context = .ok (SecureHash.digest f message) := by
  obtain ⟨state, last, hash⟩ := taken.last agree
  have words : (toVariables state).toList = state.toList := by
    apply List.ext_getElem
    · rw [Vector.length_toList]
      rfl
    · intro i bound _
      have small : i < 8 := bound
      rw [Vector.getElem_toList]
      interval_cases i <;> rfl
  rw [Sha2.final, last, SecureHash.digest, ← Algorithm.blockLength, ← hash, words]
  simp only [storeWord_convert conforms agree]
  rfl

end Last

/-! ## Runs -/

section Runs
variable {v : Algorithm} {f : SecureHash.Variant v.wordBytes} {platform : Platform}

/-- Any pieces, in any number. -/
theorem Taken.updates {conforms : Conforms v f} {message : List UInt8} {context : Context v}
    (taken : Taken conforms message context) (agree : platform.host = platform.byteOrder)
    (pieces : List (List UInt8)) :
    ∃ after, pieces.foldlM (Sha2.update v platform) context = .ok after ∧
      Taken conforms (message ++ pieces.flatten) after := by
  induction pieces generalizing message context with
  | nil => exact ⟨context, rfl, by rwa [List.flatten_nil, List.append_nil]⟩
  | cons piece pieces ih =>
    obtain ⟨next, updated, taken⟩ := taken.update agree piece
    obtain ⟨after, rest, taken⟩ := ih taken
    refine ⟨after, ?_, by rwa [List.flatten_cons, ← List.append_assoc]⟩
    rw [List.foldlM_cons, updated]
    exact rest

theorem updates_final (conforms : Conforms v f) (agree : platform.host = platform.byteOrder)
    (pieces : List (List UInt8)) :
    (pieces.foldlM (update v platform) (init v) >>= final v platform) =
      .ok (SecureHash.digest f pieces.flatten) := by
  obtain ⟨after, updated, taken⟩ := (taken_init conforms).updates agree pieces
  rw [updated]
  exact taken.final agree

theorem raw_eq (conforms : Conforms v f) (agree : platform.host = platform.byteOrder)
    (data : List UInt8) : raw v platform data = .ok (SecureHash.digest f data) := by
  obtain ⟨after, updated, taken⟩ := (taken_init conforms).update agree data
  rw [raw, updated]
  exact taken.final agree

end Runs

end CNear.Sha2
