import CNear.Lib.LittleEndian
import CNear.Memory

/-! SHA-256 and SHA-512 as `sha2.c` computes them: the two are one text with words of 32 and of 64
bits. A context has its block in memory, where the byte order of the host shows; `BYTE_ORDER` is
what the code was compiled for. -/

namespace CNear.Sha2

/-! ## The logical functions -/

section Logical
variable {width : Nat}

def shr (b : Nat) (x : BitVec width) : BitVec width := x >>> b

/-- `ROTR32`, `ROTR64` -/
def rotr (b : Nat) (x : BitVec width) : BitVec width := x >>> b ||| x <<< (width - b)

def ch (x y z : BitVec width) : BitVec width := (x &&& y) ^^^ (~~~x &&& z)

def maj (x y z : BitVec width) : BitVec width := (x &&& y) ^^^ (x &&& z) ^^^ (y &&& z)

/-- `Sigma0_256` and the others with a capital letter. -/
def bigSigma (i j k : Nat) (x : BitVec width) : BitVec width := rotr i x ^^^ rotr j x ^^^ rotr k x

/-- `sigma0_256` and the others with a small letter. -/
def smallSigma (i j k : Nat) (x : BitVec width) : BitVec width := rotr i x ^^^ rotr j x ^^^ shr k x

end Logical

/-- What the two algorithms differ in. -/
structure Algorithm where
  wordBytes : Nat
  bigSigma0 : BitVec (8 * wordBytes) → BitVec (8 * wordBytes)
  bigSigma1 : BitVec (8 * wordBytes) → BitVec (8 * wordBytes)
  smallSigma0 : BitVec (8 * wordBytes) → BitVec (8 * wordBytes)
  smallSigma1 : BitVec (8 * wordBytes) → BitVec (8 * wordBytes)
  rounds : Nat
  enough : 16 ≤ rounds
  k : Vector (BitVec (8 * wordBytes)) rounds
  initial : Vector (BitVec (8 * wordBytes)) 8
  /-- `REVERSE32`, `REVERSE64` -/
  reverse : BitVec (8 * wordBytes) → BitVec (8 * wordBytes)
  /-- `bitcount` -/
  Count : Type
  zero : Count
  add : Count → (bits : Nat) → Count
  /-- The number that the used space is computed from. -/
  low : Count → Nat
  /-- The last two words of the last block. -/
  lengthWords : Count → BitVec (8 * wordBytes) × BitVec (8 * wordBytes)

namespace Algorithm

abbrev Word (v : Algorithm) := BitVec (8 * v.wordBytes)

/-- `SHA256_BLOCK_LENGTH` -/
def blockLength (v : Algorithm) : Nat := 16 * v.wordBytes

/-- `SHA256_SHORT_BLOCK_LENGTH` -/
def shortBlockLength (v : Algorithm) : Nat := 14 * v.wordBytes

end Algorithm

/-! ## The transform -/

/-- The variables `a` to `h`. -/
structure Registers (width : Nat) where
  a : BitVec width
  b : BitVec width
  c : BitVec width
  d : BitVec width
  e : BitVec width
  f : BitVec width
  g : BitVec width
  h : BitVec width

structure Working (v : Algorithm) where
  registers : Registers (8 * v.wordBytes)
  w : Vector v.Word 16

section Transform
variable (v : Algorithm)

def start (state : Vector v.Word 8) : Working v :=
  { registers := ⟨state[0], state[1], state[2], state[3], state[4], state[5], state[6], state[7]⟩
    w := Vector.replicate 16 0 }

def addRegisters (state : Vector v.Word 8) (r : Registers (8 * v.wordBytes)) : Vector v.Word 8 :=
  #v[state[0] + r.a, state[1] + r.b, state[2] + r.c, state[3] + r.d, state[4] + r.e,
    state[5] + r.f, state[6] + r.g, state[7] + r.h]

/-- `W256[i&0x0f]` -/
def cell (w : Vector v.Word 16) (i : Nat) : v.Word :=
  w.get ⟨i &&& 0x0f, Nat.and_lt_two_pow i (by decide : 0x0f < 2 ^ 4)⟩

def setCell (w : Vector v.Word 16) (i : Nat) (word : v.Word) : Vector v.Word 16 :=
  w.set (i &&& 0x0f) word (Nat.and_lt_two_pow i (by decide : 0x0f < 2 ^ 4))

/-- The word that is added to a cell makes it this. -/
def expanded (w : Vector v.Word 16) (j : Nat) : v.Word :=
  cell v w j + (v.smallSigma1 (cell v w (j + 14)) + cell v w (j + 9) +
    v.smallSigma0 (cell v w (j + 1)))

/-- Round `j` with its word, which is stored; below 16, `W256[j]` is `W256[j&0x0f]`. -/
def round (j : Nat) (bound : j < v.rounds) (word : v.Word) (s : Working v) : Working v :=
  let r := s.registers
  let t1 := r.h + v.bigSigma1 r.e + ch r.e r.f r.g + v.k[j] + word
  let t2 := v.bigSigma0 r.a + maj r.a r.b r.c
  { registers := ⟨t1 + t2, r.a, r.b, r.c, r.d + t1, r.e, r.f, r.g⟩
    w := setCell v s.w j word }

/-- The transform: sixteen rounds with the words of the block, and then with words that are expanded
from those before. -/
def transform (state : Vector v.Word 8) (data : Vector v.Word 16) : Vector v.Word 8 :=
  let s := Nat.fold 16 (fun j bound s => round v j (bound.trans_le v.enough) (cell v data j) s)
    (start v state)
  let s := Nat.fold (v.rounds - 16) (fun i bound s =>
    round v (16 + i) (Nat.add_lt_of_lt_sub' bound) (expanded v s.w (16 + i)) s) s
  addRegisters v state s.registers

/-! With `SHA2_UNROLL_TRANSFORM` the variables keep their places and the calls name them in turn. -/

/-- `ROUND256_0_TO_15` and `ROUND256`: what becomes of `d`, of `h` and of the cells. -/
def unrolledRound (j : Nat) (bound : j < v.rounds)
    (fetch : Vector v.Word 16 → Nat → v.Word) (w : Vector v.Word 16) (a b c d e f g h : v.Word) :
    v.Word × v.Word × Vector v.Word 16 :=
  let word := fetch w j
  let t1 := h + v.bigSigma1 e + ch e f g + v.k[j] + word
  (d + t1, t1 + v.bigSigma0 a + maj a b c, setCell v w j word)

/-- The body of an unrolled loop. -/
def eightRounds (j : Nat) (bound : j + 8 ≤ v.rounds) (fetch : Vector v.Word 16 → Nat → v.Word)
    (s : Working v) : Working v :=
  let ⟨⟨a, b, c, d, e, f, g, h⟩, w⟩ := s
  let (d, h, w) := unrolledRound v j (by omega) fetch w a b c d e f g h
  let (c, g, w) := unrolledRound v (j + 1) (by omega) fetch w h a b c d e f g
  let (b, f, w) := unrolledRound v (j + 2) (by omega) fetch w g h a b c d e f
  let (a, e, w) := unrolledRound v (j + 3) (by omega) fetch w f g h a b c d e
  let (h, d, w) := unrolledRound v (j + 4) (by omega) fetch w e f g h a b c d
  let (g, c, w) := unrolledRound v (j + 5) (by omega) fetch w d e f g h a b c
  let (f, b, w) := unrolledRound v (j + 6) (by omega) fetch w c d e f g h a b
  let (e, a, w) := unrolledRound v (j + 7) (by omega) fetch w b c d e f g h a
  ⟨⟨a, b, c, d, e, f, g, h⟩, w⟩

def unrolledTransform (state : Vector v.Word 8) (data : Vector v.Word 16) : Vector v.Word 8 :=
  let s := Nat.fold 2 (fun i bound s =>
    eightRounds v (8 * i) (by have := v.enough; omega) (fun _ j => cell v data j) s) (start v state)
  let s := Nat.fold ((v.rounds - 16) / 8) (fun i bound s =>
    eightRounds v (16 + 8 * i) (by omega) (expanded v) s) s
  addRegisters v state s.registers

end Transform

/-! ## Memory -/

inductive ByteOrder where
  | littleEndian
  | bigEndian
  deriving DecidableEq

/-- A word as the host reads it. -/
def loadWord (host : ByteOrder) (wordBytes : Nat) (bytes : List UInt8) : BitVec (8 * wordBytes) :=
  match host with
  | .littleEndian => BitVec.ofNat _ (LittleEndian.value bytes)
  | .bigEndian => BitVec.ofNat _ (LittleEndian.value bytes.reverse)

def storeWord (host : ByteOrder) (wordBytes : Nat) (word : BitVec (8 * wordBytes)) : List UInt8 :=
  match host with
  | .littleEndian => LittleEndian.fixed wordBytes word.toNat
  | .bigEndian => (LittleEndian.fixed wordBytes word.toNat).reverse

/-- Bytes written to the buffer of a context. -/
def patch (buffer : List UInt8) (index : Nat) (bytes : List UInt8) : Except Fault (List UInt8) :=
  if index + bytes.length ≤ buffer.length then
    .ok (buffer.take index ++ (bytes ++ buffer.drop (index + bytes.length)))
  else .error .arrayIndex

/-- `SHA256_CTX`; the buffer as the bytes that it takes up. -/
structure Context (v : Algorithm) where
  state : Vector v.Word 8
  bitcount : v.Count
  buffer : List UInt8

/-- The host, and what the code was compiled for. -/
structure Platform where
  host : ByteOrder
  byteOrder : ByteOrder
  deriving DecidableEq

section Stream
variable (v : Algorithm) (platform : Platform)

/-- To and from host byte order: nothing is done where `BYTE_ORDER` is `BIG_ENDIAN`. -/
def convert (word : v.Word) : v.Word :=
  match platform.byteOrder with
  | .littleEndian => v.reverse word
  | .bigEndian => word

/-- The loop that converts the first `count` words of the buffer. -/
def convertWords : (count : Nat) → List UInt8 → List UInt8
  | 0, buffer => buffer
  | count + 1, buffer =>
      storeWord platform.host v.wordBytes
        (convert v platform (loadWord platform.host v.wordBytes (buffer.take v.wordBytes))) ++
      convertWords count (buffer.drop v.wordBytes)

/-- `context->buffer` as the transform reads it. -/
def words (buffer : List UInt8) : Vector v.Word 16 :=
  Vector.ofFn fun j : Fin 16 =>
    loadWord platform.host v.wordBytes ((buffer.drop (v.wordBytes * j)).take v.wordBytes)

/-- A full buffer is converted and transformed. -/
def processBuffer (context : Context v) : Context v :=
  let buffer := convertWords v platform 16 context.buffer
  { context with
    buffer := buffer
    state := transform v context.state (words v platform buffer) }

def init : Context v :=
  { state := v.initial
    bitcount := v.zero
    buffer := List.replicate v.blockLength 0 }

def usedspace (context : Context v) : Nat := (v.low context.bitcount >>> 3) % v.blockLength

/-- The loop over the complete blocks, and what is left over. -/
def updateBlocks (context : Context v) (data : List UInt8) : Except Fault (Context v) :=
  if 0 < v.blockLength ∧ v.blockLength ≤ data.length then do
    let buffer ← patch context.buffer 0 (data.take v.blockLength)
    let context := processBuffer v platform { context with buffer := buffer }
    updateBlocks { context with bitcount := v.add context.bitcount (v.blockLength <<< 3) }
      (data.drop v.blockLength)
  else if 0 < data.length then do
    let buffer ← patch context.buffer 0 data
    .ok { context with buffer := buffer, bitcount := v.add context.bitcount (data.length <<< 3) }
  else .ok context
termination_by data.length
decreasing_by
  rw [List.length_drop]
  omega

def update (context : Context v) (data : List UInt8) : Except Fault (Context v) :=
  if data.length = 0 then .ok context
  else
    let used := usedspace v context
    if 0 < used then
      let freespace := v.blockLength - used
      if freespace ≤ data.length then do
        let buffer ← patch context.buffer used (data.take freespace)
        let bitcount := v.add context.bitcount (freespace <<< 3)
        updateBlocks v platform
          (processBuffer v platform { context with buffer := buffer, bitcount := bitcount })
          (data.drop freespace)
      else do
        let buffer ← patch context.buffer used data
        .ok { context with buffer := buffer, bitcount := v.add context.bitcount (data.length <<< 3) }
    else updateBlocks v platform context data

/-- `sha512_Last`, and the same part of `sha256_Final`. -/
def last (context : Context v) : Except Fault (Vector v.Word 8) := do
  let used := usedspace v context
  let buffer ← patch context.buffer used [0x80]
  let used := used + 1
  let (context, used) ←
    if v.shortBlockLength < used then do
      let buffer ← patch buffer used (List.replicate (v.blockLength - used) 0)
      .ok (processBuffer v platform { context with buffer := buffer }, 0)
    else .ok ({ context with buffer := buffer }, used)
  let buffer ← patch context.buffer used (List.replicate (v.shortBlockLength - used) 0)
  let buffer := convertWords v platform 14 buffer
  let (high, low) := v.lengthWords context.bitcount
  let buffer ← patch buffer (14 * v.wordBytes)
    (storeWord platform.host v.wordBytes high ++ storeWord platform.host v.wordBytes low)
  .ok (transform v context.state (words v platform buffer))

/-- The digest is copied from the state, converted word by word. -/
def final (context : Context v) : Except Fault (List UInt8) := do
  let state ← last v platform context
  .ok (state.toList.flatMap fun word => storeWord platform.host v.wordBytes (convert v platform word))

def raw (data : List UInt8) : Except Fault (List UInt8) := do
  let context ← update v platform (init v) data
  final v platform context

end Stream

/-! ## SHA-256 -/

def bigSigma0_256 : BitVec 32 → BitVec 32 := bigSigma 2 13 22
def bigSigma1_256 : BitVec 32 → BitVec 32 := bigSigma 6 11 25
def smallSigma0_256 : BitVec 32 → BitVec 32 := smallSigma 7 18 3
def smallSigma1_256 : BitVec 32 → BitVec 32 := smallSigma 17 19 10

def k256 : Vector (BitVec 32) 64 :=
  #v[0x428a2f98, 0x71374491, 0xb5c0fbcf, 0xe9b5dba5, 0x3956c25b, 0x59f111f1,
    0x923f82a4, 0xab1c5ed5, 0xd807aa98, 0x12835b01, 0x243185be, 0x550c7dc3,
    0x72be5d74, 0x80deb1fe, 0x9bdc06a7, 0xc19bf174, 0xe49b69c1, 0xefbe4786,
    0x0fc19dc6, 0x240ca1cc, 0x2de92c6f, 0x4a7484aa, 0x5cb0a9dc, 0x76f988da,
    0x983e5152, 0xa831c66d, 0xb00327c8, 0xbf597fc7, 0xc6e00bf3, 0xd5a79147,
    0x06ca6351, 0x14292967, 0x27b70a85, 0x2e1b2138, 0x4d2c6dfc, 0x53380d13,
    0x650a7354, 0x766a0abb, 0x81c2c92e, 0x92722c85, 0xa2bfe8a1, 0xa81a664b,
    0xc24b8b70, 0xc76c51a3, 0xd192e819, 0xd6990624, 0xf40e3585, 0x106aa070,
    0x19a4c116, 0x1e376c08, 0x2748774c, 0x34b0bcb5, 0x391c0cb3, 0x4ed8aa4a,
    0x5b9cca4f, 0x682e6ff3, 0x748f82ee, 0x78a5636f, 0x84c87814, 0x8cc70208,
    0x90befffa, 0xa4506ceb, 0xbef9a3f7, 0xc67178f2]

def sha256InitialHashValue : Vector (BitVec 32) 8 :=
  #v[0x6a09e667, 0xbb67ae85, 0x3c6ef372, 0xa54ff53a, 0x510e527f, 0x9b05688c,
    0x1f83d9ab, 0x5be0cd19]

def reverse32 (w : BitVec 32) : BitVec 32 :=
  let tmp := w >>> 16 ||| w <<< 16
  (tmp &&& 0xff00ff00) >>> 8 ||| (tmp &&& 0x00ff00ff) <<< 8

/-- The bits are counted in 64 bits. -/
def sha256 : Algorithm :=
  { wordBytes := 4
    bigSigma0 := bigSigma0_256
    bigSigma1 := bigSigma1_256
    smallSigma0 := smallSigma0_256
    smallSigma1 := smallSigma1_256
    rounds := 64
    enough := by decide
    k := k256
    initial := sha256InitialHashValue
    reverse := reverse32
    Count := UInt64
    zero := 0
    add := fun bitcount bits => bitcount + UInt64.ofNat bits
    low := UInt64.toNat
    lengthWords := fun bitcount =>
      (BitVec.ofNat 32 (bitcount >>> 32).toNat, BitVec.ofNat 32 (bitcount &&& 0xffffffff).toNat) }

def sha256Transform := transform sha256
def sha256Init := init sha256
def sha256Update := update sha256
def sha256Final := final sha256
def sha256Raw := raw sha256

/-! ## SHA-512 -/

def bigSigma0_512 : BitVec 64 → BitVec 64 := bigSigma 28 34 39
def bigSigma1_512 : BitVec 64 → BitVec 64 := bigSigma 14 18 41
def smallSigma0_512 : BitVec 64 → BitVec 64 := smallSigma 1 8 7
def smallSigma1_512 : BitVec 64 → BitVec 64 := smallSigma 19 61 6

def k512 : Vector (BitVec 64) 80 :=
  #v[0x428a2f98d728ae22, 0x7137449123ef65cd, 0xb5c0fbcfec4d3b2f, 0xe9b5dba58189dbbc,
    0x3956c25bf348b538, 0x59f111f1b605d019, 0x923f82a4af194f9b, 0xab1c5ed5da6d8118,
    0xd807aa98a3030242, 0x12835b0145706fbe, 0x243185be4ee4b28c, 0x550c7dc3d5ffb4e2,
    0x72be5d74f27b896f, 0x80deb1fe3b1696b1, 0x9bdc06a725c71235, 0xc19bf174cf692694,
    0xe49b69c19ef14ad2, 0xefbe4786384f25e3, 0x0fc19dc68b8cd5b5, 0x240ca1cc77ac9c65,
    0x2de92c6f592b0275, 0x4a7484aa6ea6e483, 0x5cb0a9dcbd41fbd4, 0x76f988da831153b5,
    0x983e5152ee66dfab, 0xa831c66d2db43210, 0xb00327c898fb213f, 0xbf597fc7beef0ee4,
    0xc6e00bf33da88fc2, 0xd5a79147930aa725, 0x06ca6351e003826f, 0x142929670a0e6e70,
    0x27b70a8546d22ffc, 0x2e1b21385c26c926, 0x4d2c6dfc5ac42aed, 0x53380d139d95b3df,
    0x650a73548baf63de, 0x766a0abb3c77b2a8, 0x81c2c92e47edaee6, 0x92722c851482353b,
    0xa2bfe8a14cf10364, 0xa81a664bbc423001, 0xc24b8b70d0f89791, 0xc76c51a30654be30,
    0xd192e819d6ef5218, 0xd69906245565a910, 0xf40e35855771202a, 0x106aa07032bbd1b8,
    0x19a4c116b8d2d0c8, 0x1e376c085141ab53, 0x2748774cdf8eeb99, 0x34b0bcb5e19b48a8,
    0x391c0cb3c5c95a63, 0x4ed8aa4ae3418acb, 0x5b9cca4f7763e373, 0x682e6ff3d6b2b8a3,
    0x748f82ee5defb2fc, 0x78a5636f43172f60, 0x84c87814a1f0ab72, 0x8cc702081a6439ec,
    0x90befffa23631e28, 0xa4506cebde82bde9, 0xbef9a3f7b2c67915, 0xc67178f2e372532b,
    0xca273eceea26619c, 0xd186b8c721c0c207, 0xeada7dd6cde0eb1e, 0xf57d4f7fee6ed178,
    0x06f067aa72176fba, 0x0a637dc5a2c898a6, 0x113f9804bef90dae, 0x1b710b35131c471b,
    0x28db77f523047d84, 0x32caab7b40c72493, 0x3c9ebe0a15c9bebc, 0x431d67c49c100d4c,
    0x4cc5d4becb3e42b6, 0x597f299cfc657e2a, 0x5fcb6fab3ad6faec, 0x6c44198c4a475817]

def sha512InitialHashValue : Vector (BitVec 64) 8 :=
  #v[0x6a09e667f3bcc908, 0xbb67ae8584caa73b, 0x3c6ef372fe94f82b, 0xa54ff53a5f1d36f1,
    0x510e527fade682d1, 0x9b05688c2b3e6c1f, 0x1f83d9abfb41bd6b, 0x5be0cd19137e2179]

def reverse64 (w : BitVec 64) : BitVec 64 :=
  let tmp := w >>> 32 ||| w <<< 32
  let tmp := (tmp &&& 0xff00ff00ff00ff00) >>> 8 ||| (tmp &&& 0x00ff00ff00ff00ff) <<< 8
  (tmp &&& 0xffff0000ffff0000) >>> 16 ||| (tmp &&& 0x0000ffff0000ffff) <<< 16

/-- `ADDINC128` -/
def addinc128 (w : UInt64 × UInt64) (n : Nat) : UInt64 × UInt64 :=
  let low := w.1 + UInt64.ofNat n
  (low, if low < UInt64.ofNat n then w.2 + 1 else w.2)

/-- The bits are counted in two words. -/
def sha512 : Algorithm :=
  { wordBytes := 8
    bigSigma0 := bigSigma0_512
    bigSigma1 := bigSigma1_512
    smallSigma0 := smallSigma0_512
    smallSigma1 := smallSigma1_512
    rounds := 80
    enough := by decide
    k := k512
    initial := sha512InitialHashValue
    reverse := reverse64
    Count := UInt64 × UInt64
    zero := (0, 0)
    add := addinc128
    low := fun bitcount => bitcount.1.toNat
    lengthWords := fun bitcount => (bitcount.2.toBitVec, bitcount.1.toBitVec) }

def sha512Transform := transform sha512
def sha512Init := init sha512
def sha512Update := update sha512
def sha512Final := final sha512
def sha512Raw := raw sha512

end CNear.Sha2
