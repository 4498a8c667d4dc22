import CNear.Base64
import CNear.Exchange

/-! `base64_encode` in the block that it allocates: every `*pos++` stores at its place, and a
store past the block is a fault. The size is computed in `size_t` arithmetic, and the one test
behind it catches every length whose computation wraps. -/

namespace CNear.Base64

open Exchange (SizeT)

variable {size : Nat}

/-- `out` and `pos - out` -/
structure Output (size : Nat) where
  out : Block size
  pos : Nat

/-- `*pos++ = byte;` -/
def put (output : Output size) (byte : UInt8) : Except Fault (Output size) := do
  let out ← output.out.store output.pos byte
  .ok ⟨out, output.pos + 1⟩

/-- The `while` loop over full groups and the tail after it. -/
def encodeInto : List UInt8 → Output size → Except Fault (Output size)
  | [], output => .ok output
  | [a], output => do
      let output ← put output (entry (a >>> 2))
      let output ← put output (entry ((a &&& 0x03) <<< 4))
      let output ← put output '='.toUInt8
      put output '='.toUInt8
  | [a, b], output => do
      let output ← put output (entry (a >>> 2))
      let output ← put output (entry (((a &&& 0x03) <<< 4) ||| (b >>> 4)))
      let output ← put output (entry ((b &&& 0x0f) <<< 2))
      put output '='.toUInt8
  | a :: b :: c :: rest, output => do
      let output ← put output (entry (a >>> 2))
      let output ← put output (entry (((a &&& 0x03) <<< 4) ||| (b >>> 4)))
      let output ← put output (entry (((b &&& 0x0f) <<< 2) ||| (c >>> 6)))
      let output ← put output (entry (c &&& 0x3f))
      encodeInto rest output

/-- The loop, the tail and `*pos = '\0'`, in a block that holds anything. -/
def encodeTerminated (uninit : Block size) (src : List UInt8) : Except Fault (Output size) := do
  let output ← encodeInto src ⟨uninit, 0⟩
  let out ← output.out.store output.pos 0
  .ok ⟨out, output.pos⟩

/-- The block and `*out_len`; `NULL` where the size overflows or `malloc` fails. `heap` is what
a fresh block of each size holds. -/
def base64EncodeAt (wrap : Nat) (granted : Bool) (heap : (size : Nat) → Block size)
    (src : List UInt8) : Except Fault (Option (List UInt8 × Nat)) :=
  if allocationSize wrap src.length < src.length then .ok none
  else if granted then do
    let output ← encodeTerminated (heap (allocationSize wrap src.length)) src
    .ok (some (output.out.bytes, output.pos))
  else .ok none

/-! ## What is written -/

/-- The bytes before `pos` are the list. -/
def Output.Holds (output : Output size) (list : List UInt8) : Prop :=
  output.out.Begins output.pos list

theorem put_holds {output : Output size} {list : List UInt8} (holds : output.Holds list)
    (room : output.pos < size) (byte : UInt8) :
    ∃ next, put output byte = .ok next ∧ next.Holds (list ++ [byte]) := by
  obtain ⟨out, stored, grown⟩ := Block.Begins.append holds room byte
  exact ⟨⟨out, output.pos + 1⟩, by rw [put, stored, ok_bind], grown⟩

theorem putAll_holds (bytes : List UInt8) {output : Output size} {list : List UInt8}
    (holds : output.Holds list) (room : list.length + bytes.length ≤ size) :
    ∃ next, bytes.foldlM put output = .ok next ∧ next.Holds (list ++ bytes) := by
  induction bytes generalizing output list with
  | nil => exact ⟨output, rfl, by rwa [List.append_nil]⟩
  | cons byte bytes ih =>
    have here := Block.Begins.length holds
    rw [List.length_cons] at room
    obtain ⟨middle, ran, longer⟩ := put_holds holds (by omega) byte
    obtain ⟨next, later, final⟩ := ih longer (by
      rw [List.length_append, List.length_singleton]
      omega)
    refine ⟨next, ?_, ?_⟩
    · rw [List.foldlM_cons, ran, ok_bind]
      exact later
    · rwa [List.append_assoc] at final

/-- The stores are those of the text, one behind the other. -/
theorem encodeInto_eq (src : List UInt8) (output : Output size) :
    encodeInto src output = (encodeLoop src).foldlM put output := by
  induction src, output using encodeInto.induct with
  | case1 output => rfl
  | case2 output a => simp [encodeInto, encodeLoop]
  | case3 output a b => simp [encodeInto, encodeLoop]
  | case4 output a b c rest ih => simp [encodeInto, encodeLoop, ih]

theorem encodeLoop_length (src : List UInt8) :
    (encodeLoop src).length = 4 * ((src.length + 2) / 3) := by
  rw [encodeLoop_eq]
  exact Rfc4648.encode_length src

/-- With room for the text and its terminator the whole text is written. -/
theorem encodeTerminated_holds (uninit : Block size) (src : List UInt8)
    (room : (encodeLoop src).length < size) :
    ∃ output, encodeTerminated uninit src = .ok output ∧
      output.pos = (encodeLoop src).length ∧
      output.out.Begins (output.pos + 1) (encodeLoop src ++ [0]) := by
  have start : Output.Holds ⟨uninit, 0⟩ [] := Block.Begins.empty uninit
  obtain ⟨written, ran, holds⟩ := putAll_holds (encodeLoop src) start (by simpa using room.le)
  have length := Block.Begins.length holds
  rw [List.nil_append] at holds length
  obtain ⟨out, stored, ended⟩ := Block.Begins.append holds (by omega) 0
  refine ⟨⟨out, written.pos⟩, ?_, length.symm, ended⟩
  rw [encodeTerminated, encodeInto_eq, ran, ok_bind, stored, ok_bind]

/-! ## The whole function -/

theorem wide_wrap (sizeT : SizeT) : 0x100000000 ≤ sizeT.wrap := by
  cases sizeT <;> decide

/-- The block holds the text that the encoder stands for, up to its terminator. -/
theorem base64EncodeAt_some (sizeT : SizeT) (heap : (size : Nat) → Block size) {src : List UInt8}
    (whole : src.length * 4 < sizeT.wrap) :
    ∃ block, base64EncodeAt sizeT.wrap true heap src =
        .ok (some (block, (encodeLoop src).length)) ∧
      block.take ((encodeLoop src).length + 1) = encodeLoop src ++ [0] := by
  have room := allocationSize_exact (wide_wrap sizeT) whole
  have length := encodeLoop_length src
  obtain ⟨output, ran, count, text⟩ :=
    encodeTerminated_holds (heap (allocationSize sizeT.wrap src.length)) src (by omega)
  refine ⟨output.out.bytes, ?_, ?_⟩
  · rw [base64EncodeAt, if_neg (by omega), if_pos rfl, ran, ok_bind, count]
  · rw [← count]
    exact text.bytes

/-- The block is the string that the encoder stands for, and `*out_len` its length. -/
theorem base64EncodeAt_refines (sizeT : SizeT) (granted : Bool)
    (heap : (size : Nat) → Block size) {src : List UInt8} (inRange : src.length < sizeT.wrap) :
    ∃ outcome, base64EncodeAt sizeT.wrap granted heap src = .ok outcome ∧
      (outcome = none ∧ base64Encode sizeT.wrap granted src = none ∨
        ∃ block text, outcome = some (block, text.strlen) ∧
          base64Encode sizeT.wrap granted src = some text ∧ CString.ofBlock block = .ok text) := by
  rcases Nat.lt_or_ge (src.length * 4) sizeT.wrap with whole | wrapped
  · have room := allocationSize_exact (wide_wrap sizeT) whole
    have enough : ¬ allocationSize sizeT.wrap src.length < src.length := by omega
    cases granted with
    | false =>
      refine ⟨none, ?_, Or.inl ⟨rfl, ?_⟩⟩
      · simp [base64EncodeAt]
      · simp [base64Encode]
    | true =>
      obtain ⟨block, encoded, text⟩ := base64EncodeAt_some sizeT heap whole
      refine ⟨_, encoded, Or.inr ⟨block, ⟨encodeLoop src, zero_notMem_encodeLoop src⟩, rfl, ?_, ?_⟩⟩
      · rw [base64Encode, if_neg enough, if_pos rfl]
      · rw [← List.take_append_drop ((encodeLoop src).length + 1) block, text, List.append_assoc]
        exact CString.ofBlock_terminated ⟨encodeLoop src, zero_notMem_encodeLoop src⟩ _
  · have small := allocationSize_wrapped (wide_wrap sizeT) inRange wrapped
    refine ⟨none, ?_, Or.inl ⟨rfl, ?_⟩⟩
    · rw [base64EncodeAt, if_pos small]
    · rw [base64Encode, if_pos small]

/-- `base64_encode` never writes past its buffer: it gives up before the block is there, or the
product has not wrapped and the characters and the terminator fit the block. -/
theorem base64EncodeAt_inside (sizeT : SizeT) (granted : Bool) (heap : (size : Nat) → Block size)
    (src : List UInt8) (inRange : src.length < sizeT.wrap) :
    (allocationSize sizeT.wrap src.length < src.length ∧
      base64EncodeAt sizeT.wrap granted heap src = .ok none) ∨
    (src.length * 4 < sizeT.wrap ∧
      (∃ output, encodeTerminated (heap (allocationSize sizeT.wrap src.length)) src = .ok output ∧
        output.pos + 1 = 4 * ((src.length + 2) / 3) + 1) ∧
      4 * ((src.length + 2) / 3) + 1 ≤ allocationSize sizeT.wrap src.length ∧
      ∃ outcome, base64EncodeAt sizeT.wrap granted heap src = .ok outcome) := by
  rcases Nat.lt_or_ge (src.length * 4) sizeT.wrap with whole | wrapped
  · right
    have room := allocationSize_exact (wide_wrap sizeT) whole
    have length := encodeLoop_length src
    obtain ⟨output, ran, count, -⟩ :=
      encodeTerminated_holds (heap (allocationSize sizeT.wrap src.length)) src (by omega)
    refine ⟨whole, ⟨output, ran, by omega⟩, room, ?_⟩
    cases granted with
    | false => exact ⟨none, by simp [base64EncodeAt]⟩
    | true =>
      obtain ⟨block, encoded, -⟩ := base64EncodeAt_some sizeT heap whole
      exact ⟨_, encoded⟩
  · left
    have small := allocationSize_wrapped (wide_wrap sizeT) inRange wrapped
    exact ⟨small, by rw [base64EncodeAt, if_pos small]⟩

theorem base64EncodeAt_inside_seven :
    (∃ output, encodeTerminated
          (Block.replicate (allocationSize SizeT.bits32.wrap 7) 0xff)
          [0xfb, 0xff, 0x00, 0x63, 0x4e, 0x45, 0x41] = .ok output ∧
        output.pos + 1 = 13) ∧
      13 ≤ allocationSize SizeT.bits32.wrap 7 ∧
      ∃ outcome, base64EncodeAt SizeT.bits32.wrap true (Block.replicate · 0xff)
        [0xfb, 0xff, 0x00, 0x63, 0x4e, 0x45, 0x41] = .ok outcome := by
  rcases base64EncodeAt_inside .bits32 true (Block.replicate · 0xff)
    [0xfb, 0xff, 0x00, 0x63, 0x4e, 0x45, 0x41] (by decide) with ⟨wrapped, -⟩ | ⟨-, inside⟩
  · exact absurd wrapped (by decide)
  · exact inside

end CNear.Base64
