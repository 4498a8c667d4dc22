import CNear.Base64Buffer

/-! `base64_decode`: the table that inverts the encoder's, a pass that counts the characters the
table knows, and a pass that gathers four of them into a block and writes three bytes. A block
with padding ends the text and takes one or two of the bytes back. -/

namespace CNear.Base64
open Exchange (SizeT)

variable {size : Nat}

/-- `dtable`: `0x80` for a foreign character, the place in the encoder's table for one of its
own, and zero for the padding. -/
def dtable : List UInt8 :=
  (base64Table.zipIdx.foldl (fun table place => table.set place.1.toNat (UInt8.ofNat place.2))
    (List.replicate 256 0x80)).set '='.toUInt8.toNat 0

/-- `dtable[c]` -/
def lookup (c : UInt8) : UInt8 := dtable.getD c.toNat 0x80

/-- `block`, `count`, `pad`, and the output so far. -/
structure Gathering (size : Nat) where
  block : Block 4
  count : Nat
  pad : Nat
  output : Output size

/-- Three bytes from a full block. -/
def writeGroup (block : Block 4) (output : Output size) : Except Fault (Output size) := do
  let b0 ← block.load 0
  let b1 ← block.load 1
  let b2 ← block.load 2
  let b3 ← block.load 3
  let output ← put output ((b0 <<< 2) ||| (b1 >>> 4))
  let output ← put output ((b1 <<< 4) ||| (b2 >>> 2))
  put output ((b2 <<< 6) ||| b3)

/-- The second pass; nothing comes out of a block with more than two characters of padding. -/
def decodeLoop : List UInt8 → Gathering size → Except Fault (Option (Output size))
  | [], state => .ok (some state.output)
  | c :: src, state =>
      if lookup c = 0x80 then decodeLoop src state
      else do
        let pad := if c = '='.toUInt8 then state.pad + 1 else state.pad
        let block ← state.block.store state.count (lookup c)
        if state.count + 1 = 4 then do
          let output ← writeGroup block state.output
          if pad = 0 then decodeLoop src ⟨block, 0, pad, output⟩
          else if pad = 1 then .ok (some ⟨output.out, output.pos - 1⟩)
          else if pad = 2 then .ok (some ⟨output.out, output.pos - 2⟩)
          else .ok none
        else decodeLoop src ⟨block, state.count + 1, pad, state.output⟩

/-- The characters that the table knows. -/
def countKnown (src : List UInt8) : Nat := src.countP fun c => lookup c ≠ 0x80

/-- The block and `*out_len`; `NULL` for a count that makes no groups, without memory, or for
padding that no encoder writes. -/
def base64Decode (granted : Bool) (heap : (size : Nat) → Block size) (block : Block 4)
    (src : List UInt8) : Except Fault (Option (List UInt8 × Nat)) :=
  let count := countKnown src
  if count = 0 ∨ count % 4 ≠ 0 then .ok none
  else if granted then do
    let decoded ← decodeLoop src ⟨block, 0, 0, ⟨heap (count / 4 * 3), 0⟩⟩
    .ok (decoded.map fun output => (output.out.bytes, output.pos))
  else .ok none

/-! ## The table -/

theorem lookup_symbol {n : Nat} (small : n < 64) : lookup (Rfc4648.symbol n) = UInt8.ofNat n := by
  have all : ∀ n < 64, lookup (Rfc4648.symbol n) = UInt8.ofNat n := by decide +kernel
  exact all n small

theorem lookup_pad : lookup Rfc4648.pad = 0 := by decide +kernel

theorem known_symbol {n : Nat} (small : n < 64) : lookup (Rfc4648.symbol n) ≠ 0x80 := by
  intro unknown
  have value := congrArg UInt8.toNat ((lookup_symbol small).symm.trans unknown)
  rw [UInt8.toNat_ofNat', Nat.mod_eq_of_lt (by omega)] at value
  exact absurd value (ne_of_lt (small.trans (by decide)))

/-! ## A block of four -/

/-- Three bytes as the four six-bit digits of their number. -/
def digits (n : Nat) : List UInt8 :=
  [UInt8.ofNat (n / 262144), UInt8.ofNat (n / 4096 % 64), UInt8.ofNat (n / 64 % 64),
    UInt8.ofNat (n % 64)]

theorem toNat_shl_mod (a : UInt8) (k : Nat) (small : k < 8) :
    (a <<< UInt8.ofNat k).toNat = a.toNat * 2 ^ k % 256 := by
  have shift : (UInt8.ofNat k).toNat % 8 = k := by
    rw [UInt8.toNat_ofNat']
    omega
  rw [UInt8.toNat_shiftLeft, shift, Nat.shiftLeft_eq]

theorem join_first (i j : UInt8) (left : i.toNat < 64) (right : j.toNat < 64) :
    ((i <<< 2) ||| (j >>> 4)).toNat = i.toNat * 4 + j.toNat / 16 := by
  have high : (i <<< 2).toNat = i.toNat * 4 % 256 := toNat_shl_mod i 2 (by decide)
  have low : (j >>> 4).toNat = j.toNat / 16 := toNat_shr j 4 (by decide)
  rw [toNat_or _ _ 2 ⟨i.toNat % 64, by omega⟩ (by omega), high, low]
  omega

theorem join_second (j k : UInt8) (right : k.toNat < 64) :
    ((j <<< 4) ||| (k >>> 2)).toNat = j.toNat % 16 * 16 + k.toNat / 4 := by
  have high : (j <<< 4).toNat = j.toNat * 16 % 256 := toNat_shl_mod j 4 (by decide)
  have low : (k >>> 2).toNat = k.toNat / 4 := toNat_shr k 2 (by decide)
  rw [toNat_or _ _ 4 ⟨j.toNat % 16, by omega⟩ (by omega), high, low]
  omega

theorem join_third (k l : UInt8) (right : l.toNat < 64) :
    ((k <<< 6) ||| l).toNat = k.toNat % 4 * 64 + l.toNat := by
  have high : (k <<< 6).toNat = k.toNat * 64 % 256 := toNat_shl_mod k 6 (by decide)
  rw [toNat_or _ _ 6 ⟨k.toNat % 4, by omega⟩ (by omega), high]
  omega

/-- Four digits are written as the three bytes that they came from. -/
theorem writeGroup_holds {block : Block 4} {n : Nat} (small : n < 0x1000000)
    (gathered : block.bytes = digits n) {output : Output size} {list : List UInt8}
    (holds : output.Holds list) (room : list.length + 3 ≤ size) :
    ∃ next, writeGroup block output = .ok next ∧
      next.Holds (list ++ [UInt8.ofNat (n / 65536), UInt8.ofNat (n / 256), UInt8.ofNat n]) := by
  have i : (UInt8.ofNat (n / 262144)).toNat = n / 262144 := by
    rw [UInt8.toNat_ofNat']
    omega
  have j : (UInt8.ofNat (n / 4096 % 64)).toNat = n / 4096 % 64 := by
    rw [UInt8.toNat_ofNat']
    omega
  have k : (UInt8.ofNat (n / 64 % 64)).toNat = n / 64 % 64 := by
    rw [UInt8.toNat_ofNat']
    omega
  have l : (UInt8.ofNat (n % 64)).toNat = n % 64 := by
    rw [UInt8.toNat_ofNat']
    omega
  have first := join_first (UInt8.ofNat (n / 262144)) (UInt8.ofNat (n / 4096 % 64)) (by omega)
    (by omega)
  have second := join_second (UInt8.ofNat (n / 4096 % 64)) (UInt8.ofNat (n / 64 % 64)) (by omega)
  have third := join_third (UInt8.ofNat (n / 64 % 64)) (UInt8.ofNat (n % 64)) (by omega)
  have writes : writeGroup block output =
      [UInt8.ofNat (n / 65536), UInt8.ofNat (n / 256), UInt8.ofNat n].foldlM put output := by
    have x : (UInt8.ofNat (n / 262144) <<< 2) ||| (UInt8.ofNat (n / 4096 % 64) >>> 4) =
        UInt8.ofNat (n / 65536) := by
      apply UInt8.toNat_inj.mp
      rw [first, i, j, UInt8.toNat_ofNat']
      omega
    have y : (UInt8.ofNat (n / 4096 % 64) <<< 4) ||| (UInt8.ofNat (n / 64 % 64) >>> 2) =
        UInt8.ofNat (n / 256) := by
      apply UInt8.toNat_inj.mp
      rw [second, j, k, UInt8.toNat_ofNat']
      omega
    have z : (UInt8.ofNat (n / 64 % 64) <<< 6) ||| UInt8.ofNat (n % 64) = UInt8.ofNat n := by
      apply UInt8.toNat_inj.mp
      rw [third, k, l, UInt8.toNat_ofNat']
      omega
    rw [writeGroup, Block.load_eq block (by decide), Block.load_eq block (by decide),
      Block.load_eq block (by decide), Block.load_eq block (by decide), gathered]
    simp [digits, x, y, z]
  obtain ⟨next, ran, final⟩ := putAll_holds
    [UInt8.ofNat (n / 65536), UInt8.ofNat (n / 256), UInt8.ofNat n] holds (by simpa using room)
  exact ⟨next, writes.trans ran, final⟩

/-- What is done with the output after a block with `pad` characters of padding. -/
def finishGroup (src : List UInt8) (block : Block 4) (pad : Nat) (output : Output size) :
    Except Fault (Option (Output size)) :=
  if pad = 0 then decodeLoop src ⟨block, 0, pad, output⟩
  else if pad = 1 then .ok (some ⟨output.out, output.pos - 1⟩)
  else if pad = 2 then .ok (some ⟨output.out, output.pos - 2⟩)
  else .ok none

/-- The padding after one more character. -/
def countPad (pad : Nat) (c : UInt8) : Nat := if c = '='.toUInt8 then pad + 1 else pad

theorem decodeLoop_gathers {c : UInt8} (known : lookup c ≠ 0x80) (src : List UInt8)
    {block : Block 4} {gathered : List UInt8} {count : Nat} (holds : block.Begins count gathered)
    (notFull : count < 3) (pad : Nat) (output : Output size) :
    ∃ next : Block 4, next.Begins (count + 1) (gathered ++ [lookup c]) ∧
      decodeLoop (c :: src) ⟨block, count, pad, output⟩ =
        decodeLoop src ⟨next, count + 1, countPad pad c, output⟩ := by
  obtain ⟨next, stored, longer⟩ := holds.append (by omega) (lookup c)
  refine ⟨next, longer, ?_⟩
  rw [decodeLoop, if_neg known]
  simp only [stored, ok_bind]
  rw [if_neg (by omega)]
  rfl

theorem decodeLoop_completes {c : UInt8} (known : lookup c ≠ 0x80) (src : List UInt8)
    {block : Block 4} {gathered : List UInt8} (holds : block.Begins 3 gathered)
    (pad : Nat) (output : Output size) :
    ∃ next : Block 4, next.bytes = gathered ++ [lookup c] ∧
      decodeLoop (c :: src) ⟨block, 3, pad, output⟩ =
        (writeGroup next output >>= finishGroup src next (countPad pad c)) := by
  obtain ⟨next, stored, full⟩ := holds.append (by decide) (lookup c)
  have whole : next.bytes.take 4 = next.bytes := List.take_of_length_le (by rw [next.length_eq])
  refine ⟨next, by rw [← whole, full.bytes], ?_⟩
  rw [decodeLoop, if_neg known]
  simp only [stored, ok_bind]
  rw [if_pos trivial]
  rfl

/-- Four known characters fill the block and write it out. -/
theorem decodeLoop_four {p q r s : UInt8} (known : ∀ c ∈ [p, q, r, s], lookup c ≠ 0x80)
    (src : List UInt8) (block : Block 4) (output : Output size) :
    ∃ next : Block 4, next.bytes = [lookup p, lookup q, lookup r, lookup s] ∧
      decodeLoop (p :: q :: r :: s :: src) ⟨block, 0, 0, output⟩ =
        (writeGroup next output >>=
          finishGroup src next ([p, q, r, s].foldl countPad 0)) := by
  obtain ⟨one, first, stepP⟩ := decodeLoop_gathers (known p (by simp)) (q :: r :: s :: src)
    (Block.Begins.empty block) (by decide) 0 output
  obtain ⟨two, second, stepQ⟩ := decodeLoop_gathers (known q (by simp)) (r :: s :: src)
    first (by decide) (countPad 0 p) output
  obtain ⟨three, third, stepR⟩ := decodeLoop_gathers (known r (by simp)) (s :: src)
    second (by decide) (countPad (countPad 0 p) q) output
  obtain ⟨next, full, stepS⟩ := decodeLoop_completes (known s (by simp)) src third
    (countPad (countPad (countPad 0 p) q) r) output
  exact ⟨next, full, ((stepP.trans stepQ).trans stepR).trans stepS⟩

/-! ## The encoder's text -/

theorem countPad_symbol {n : Nat} (small : n < 64) (pad : Nat) :
    countPad pad (Rfc4648.symbol n) = pad := if_neg (Rfc4648.symbol_ne_pad small)

theorem countPad_pad (pad : Nat) : countPad pad Rfc4648.pad = pad + 1 := rfl

/-- The three bytes of a number whose digits the four characters are. -/
theorem decodeLoop_group {p q r s : UInt8} (known : ∀ c ∈ [p, q, r, s], lookup c ≠ 0x80) {n : Nat}
    (small : n < 0x1000000) (values : [lookup p, lookup q, lookup r, lookup s] = digits n)
    (src : List UInt8) (block : Block 4) {output : Output size} {list : List UInt8}
    (holds : output.Holds list) (room : list.length + 3 ≤ size) :
    ∃ (next : Block 4) (written : Output size),
      written.Holds (list ++ [UInt8.ofNat (n / 65536), UInt8.ofNat (n / 256), UInt8.ofNat n]) ∧
      decodeLoop (p :: q :: r :: s :: src) ⟨block, 0, 0, output⟩ =
        finishGroup src next ([p, q, r, s].foldl countPad 0) written := by
  obtain ⟨next, full, ran⟩ := decodeLoop_four known src block output
  obtain ⟨written, writes, final⟩ := writeGroup_holds small (full.trans values) holds room
  refine ⟨next, written, final, ?_⟩
  rw [ran, writes, ok_bind]

/-- Bytes taken back from the end. -/
theorem Output.Holds.dropEnd {output : Output size} {list extra : List UInt8}
    (holds : output.Holds (list ++ extra)) :
    Output.Holds ⟨output.out, output.pos - extra.length⟩ list := by
  have length := Block.Begins.length holds
  have shorter := Block.Begins.take holds (Nat.sub_le output.pos extra.length)
  rw [← length, List.length_append, Nat.add_sub_cancel, List.take_left] at shorter
  rw [← length, List.length_append, Nat.add_sub_cancel]
  exact shorter

theorem ofNat_toNat_eq {n : Nat} {a : UInt8} (same : n % 256 = a.toNat) : UInt8.ofNat n = a := by
  apply UInt8.toNat_inj.mp
  rw [UInt8.toNat_ofNat', same]

/-- The second pass over an encoder's text writes the bytes behind what is there. -/
theorem decodeLoop_encode (src : List UInt8) (block : Block 4) {output : Output size}
    {list : List UInt8} (holds : output.Holds list)
    (room : list.length + (src.length + 2) / 3 * 3 ≤ size) :
    ∃ next, decodeLoop (Rfc4648.encode src) ⟨block, 0, 0, output⟩ = .ok (some next) ∧
      next.Holds (list ++ src) := by
  induction src using Rfc4648.encode.induct generalizing block output list with
  | case1 => exact ⟨output, rfl, by rwa [List.append_nil]⟩
  | case2 a =>
    have bound := a.toNat_lt
    have p : a.toNat * 16 / 64 < 64 := by omega
    have q : a.toNat * 16 % 64 < 64 := by omega
    have values : [lookup (Rfc4648.symbol (a.toNat * 16 / 64)),
        lookup (Rfc4648.symbol (a.toNat * 16 % 64)), lookup Rfc4648.pad, lookup Rfc4648.pad] =
          digits (a.toNat * 65536) := by
      have first : a.toNat * 65536 / 262144 = a.toNat * 16 / 64 := by omega
      have second : a.toNat * 65536 / 4096 % 64 = a.toNat * 16 % 64 := by omega
      have third : a.toNat * 65536 / 64 % 64 = 0 := by omega
      have fourth : a.toNat * 65536 % 64 = 0 := by omega
      rw [lookup_symbol p, lookup_symbol q, lookup_pad, digits, first, second, third, fourth]
      rfl
    obtain ⟨next, written, final, ran⟩ := decodeLoop_group
      (by simp [known_symbol p, known_symbol q, lookup_pad]) (n := a.toNat * 65536) (by omega)
      values [] block holds (by simpa using room)
    have first : UInt8.ofNat (a.toNat * 65536 / 65536) = a := ofNat_toNat_eq (by omega)
    rw [first, List.append_cons] at final
    refine ⟨⟨written.out, written.pos - 2⟩, ?_, final.dropEnd⟩
    rw [Rfc4648.encode, ran]
    simp [countPad_symbol p, countPad_symbol q, countPad_pad, finishGroup]
  | case3 a b =>
    have boundA := a.toNat_lt
    have boundB := b.toNat_lt
    generalize same : (a.toNat * 256 + b.toNat) * 4 = n
    have p : n / 4096 < 64 := by omega
    have q : n / 64 % 64 < 64 := by omega
    have r : n % 64 < 64 := by omega
    have values : [lookup (Rfc4648.symbol (n / 4096)), lookup (Rfc4648.symbol (n / 64 % 64)),
        lookup (Rfc4648.symbol (n % 64)), lookup Rfc4648.pad] = digits (n * 64) := by
      have first : n * 64 / 262144 = n / 4096 := by omega
      have second : n * 64 / 4096 % 64 = n / 64 % 64 := by omega
      have third : n * 64 / 64 % 64 = n % 64 := by omega
      have fourth : n * 64 % 64 = 0 := by omega
      rw [lookup_symbol p, lookup_symbol q, lookup_symbol r, lookup_pad, digits, first, second,
        third, fourth]
      rfl
    obtain ⟨next, written, final, ran⟩ := decodeLoop_group
      (by simp [known_symbol p, known_symbol q, known_symbol r, lookup_pad]) (n := n * 64)
      (by omega) values [] block holds (by simpa using room)
    have high : UInt8.ofNat (n * 64 / 65536) = a := ofNat_toNat_eq (by omega)
    have low : UInt8.ofNat (n * 64 / 256) = b := ofNat_toNat_eq (by omega)
    rw [high, low, List.append_cons, List.append_cons, List.append_assoc list] at final
    refine ⟨⟨written.out, written.pos - 1⟩, ?_, final.dropEnd⟩
    rw [Rfc4648.encode, same, ran]
    simp [countPad_symbol p, countPad_symbol q, countPad_symbol r, countPad_pad, finishGroup]
  | case4 a b c rest ih =>
    have boundA := a.toNat_lt
    have boundB := b.toNat_lt
    have boundC := c.toNat_lt
    simp only [List.length_cons] at room
    rw [Rfc4648.encode]
    generalize same : (a.toNat * 256 + b.toNat) * 256 + c.toNat = n
    have p : n / 262144 < 64 := by omega
    have q : n / 4096 % 64 < 64 := by omega
    have r : n / 64 % 64 < 64 := by omega
    have s : n % 64 < 64 := by omega
    have values : [lookup (Rfc4648.symbol (n / 262144)), lookup (Rfc4648.symbol (n / 4096 % 64)),
        lookup (Rfc4648.symbol (n / 64 % 64)), lookup (Rfc4648.symbol (n % 64))] = digits n := by
      rw [lookup_symbol p, lookup_symbol q, lookup_symbol r, lookup_symbol s, digits]
    obtain ⟨filled, written, grown, ran⟩ := decodeLoop_group
      (by simp [known_symbol p, known_symbol q, known_symbol r, known_symbol s]) (by omega) values
      (Rfc4648.encode rest) block holds (by omega)
    have high : UInt8.ofNat (n / 65536) = a := ofNat_toNat_eq (by omega)
    have middle : UInt8.ofNat (n / 256) = b := ofNat_toNat_eq (by omega)
    have low : UInt8.ofNat n = c := ofNat_toNat_eq (by omega)
    rw [high, middle, low] at grown
    obtain ⟨next, later, final⟩ := ih filled grown
      (by simp only [List.length_append, List.length_cons, List.length_nil]; omega)
    refine ⟨next, ?_, by simpa using final⟩
    rw [ran]
    simp only [List.foldl_cons, List.foldl_nil, countPad_symbol p, countPad_symbol q,
      countPad_symbol r, countPad_symbol s]
    exact later

/-! ## The round trip -/

theorem known_encode (src : List UInt8) : ∀ c ∈ Rfc4648.encode src, lookup c ≠ 0x80 := by
  intro c member
  rcases Rfc4648.mem_encode member with digit | rfl
  · obtain ⟨n, small, rfl⟩ := Rfc4648.exists_symbol digit
    exact known_symbol small
  · rw [lookup_pad]
    decide

theorem countKnown_encode (src : List UInt8) :
    countKnown (Rfc4648.encode src) = 4 * ((src.length + 2) / 3) := by
  rw [countKnown, List.countP_eq_length.mpr, Rfc4648.encode_length]
  intro c member
  simpa using known_encode src c member

/-- `base64_decode` of an encoder's text. -/
theorem base64Decode_encode (heap : (size : Nat) → Block size) (block : Block 4) {src : List UInt8}
    (nonempty : src ≠ []) :
    ∃ decoded, base64Decode true heap block (Rfc4648.encode src) =
        .ok (some (decoded, src.length)) ∧ decoded.take src.length = src := by
  have positive : 0 < src.length := List.length_pos_iff.mpr nonempty
  have count := countKnown_encode src
  have start : Output.Holds ⟨heap (countKnown (Rfc4648.encode src) / 4 * 3), 0⟩ [] :=
    Block.Begins.empty _
  obtain ⟨output, ran, holds⟩ := decodeLoop_encode src block start (by
    rw [count, List.length_nil]
    omega)
  rw [List.nil_append] at holds
  have length := Block.Begins.length holds
  refine ⟨output.out.bytes, ?_, ?_⟩
  · rw [base64Decode, if_neg (by omega), if_pos rfl, ran, ok_bind, Option.map_some, ← length]
  · rw [length]
    exact holds.bytes

/-- What `base64_encode` makes of the bytes: the canonical text, which the client's own decoder
and any other reads back. -/
theorem base64_roundTrip (sizeT : SizeT) (heap : (size : Nat) → Block size) (block : Block 4)
    (src : List UInt8) (inRange : src.length < sizeT.wrap)
    (noOverflow : src.length ≤ allocationSize sizeT.wrap src.length) :
    ∃ buffer text,
      base64EncodeAt sizeT.wrap true heap src = .ok (some (buffer, 4 * ((src.length + 2) / 3))) ∧
      CString.ofBlock buffer = .ok text ∧
      text.strlen = 4 * ((src.length + 2) / 3) ∧
      (∃ digits, text.bytes = digits ++ List.replicate ((3 - src.length % 3) % 3) Rfc4648.pad ∧
        ∀ c ∈ digits, c ∈ Rfc4648.alphabet) ∧
      text.bytes = Rfc4648.encode src ∧
      Rfc4648.decode text.bytes = some src ∧
      (src = [] → text.bytes = []) ∧
      (src ≠ [] → ∃ decoded, base64Decode true heap block text.bytes =
        .ok (some (decoded, src.length)) ∧ decoded.take src.length = src) := by
  obtain ⟨outcome, ran, stands⟩ := base64EncodeAt_refines sizeT true heap inRange
  have encoded : base64Encode sizeT.wrap true src =
      some ⟨encodeLoop src, zero_notMem_encodeLoop src⟩ := by
    rw [base64Encode, if_neg (by omega), if_pos rfl]
  rcases stands with ⟨-, refused⟩ | ⟨buffer, text, rfl, written, read⟩
  · rw [encoded] at refused
    cases refused
  · rw [encoded] at written
    injection written with same
    have bytes : text.bytes = Rfc4648.encode src := by
      rw [← same]
      exact encodeLoop_eq src
    have length : text.strlen = 4 * ((src.length + 2) / 3) := by
      rw [CString.strlen, bytes, Rfc4648.encode_length]
    refine ⟨buffer, text, by rw [ran, length], read, length, ?_, bytes, ?_, ?_, ?_⟩
    · rw [bytes]
      exact Rfc4648.encode_shape src
    · rw [bytes]
      exact Rfc4648.decode_encode src
    · intro empty
      rw [bytes, empty, Rfc4648.encode]
    · rw [bytes]
      exact base64Decode_encode heap block

/-- Three groups, the last with two characters of padding. -/
theorem base64_roundTrip_seven :
    ∃ buffer text,
      base64EncodeAt SizeT.bits64.wrap true (Block.replicate · 0xff)
          [0xfb, 0xff, 0x00, 0x63, 0x4e, 0x45, 0x41] = .ok (some (buffer, 12)) ∧
      CString.ofBlock buffer = .ok text ∧
      text.strlen = 12 ∧
      (∃ digits, text.bytes = digits ++ [Rfc4648.pad, Rfc4648.pad] ∧
        ∀ c ∈ digits, c ∈ Rfc4648.alphabet) ∧
      text.bytes = ascii "+/8AY05FQQ==" ∧
      Rfc4648.decode text.bytes = some [0xfb, 0xff, 0x00, 0x63, 0x4e, 0x45, 0x41] ∧
      ∃ decoded, base64Decode true (Block.replicate · 0xff) (Block.replicate 4 0xff) text.bytes =
          .ok (some (decoded, 7)) ∧
        decoded.take 7 = [0xfb, 0xff, 0x00, 0x63, 0x4e, 0x45, 0x41] := by
  obtain ⟨buffer, text, ran, read, length, shape, bytes, back, -, decodes⟩ :=
    base64_roundTrip .bits64 (Block.replicate · 0xff) (Block.replicate 4 0xff)
      [0xfb, 0xff, 0x00, 0x63, 0x4e, 0x45, 0x41] (by decide) (by decide)
  have encoded : Rfc4648.encode [0xfb, 0xff, 0x00, 0x63, 0x4e, 0x45, 0x41] =
      ascii "+/8AY05FQQ==" := by
    decide +kernel
  exact ⟨buffer, text, ran, read, length, shape, bytes.trans encoded, back, decodes (by decide)⟩

end CNear.Base64
