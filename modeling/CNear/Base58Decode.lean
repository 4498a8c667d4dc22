import CNear.Base58

/-! `base58_decode` of base64.c: the table, the multiply-and-carry loop over the growing
`result` array, the pass over the leading ones, the reversal in place and the copy out.
`result` is the list of the bytes below `resultlen`; an index at or past the size of the
array, or past the table, is a fault. -/

namespace CNear.Base58

/-- Whether the compiler's plain `char` is signed; the table is an array of `char`. -/
inductive CharSign where
  | signed
  | unsigned
  deriving DecidableEq, Repr

def alphabetMap : List Int := [
  -1, -1, -1, -1, -1, -1, -1, -1, -1, -1, -1, -1, -1, -1, -1, -1,
  -1, -1, -1, -1, -1, -1, -1, -1, -1, -1, -1, -1, -1, -1, -1, -1,
  -1, -1, -1, -1, -1, -1, -1, -1, -1, -1, -1, -1, -1, -1, -1, -1,
  -1,  0,  1,  2,  3,  4,  5,  6,  7,  8, -1, -1, -1, -1, -1, -1,
  -1,  9, 10, 11, 12, 13, 14, 15, 16, -1, 17, 18, 19, 20, 21, -1,
  22, 23, 24, 25, 26, 27, 28, 29, 30, 31, 32, -1, -1, -1, -1, -1,
  -1, 33, 34, 35, 36, 37, 38, 39, 40, 41, 42, 43, -1, 44, 45, 46,
  47, 48, 49, 50, 51, 52, 53, 54, 55, 56, 57, -1, -1, -1, -1, -1]

/-- `(unsigned int)` of a stored `char`. -/
def charToUInt (sign : CharSign) (stored : Int) : Nat :=
  match sign with
  | .signed => (stored % 0x100000000).toNat
  | .unsigned => (stored % 0x100).toNat

/-- `(unsigned int) ALPHABET_MAP[c]` -/
def alphabetEntry (sign : CharSign) (c : UInt8) : Except Fault Nat :=
  match alphabetMap[c.toNat]? with
  | some stored => .ok (charToUInt sign stored)
  | none => .error .tableIndex

/-- The inner loop: `result * 58 + carry` byte by byte, with the 32-bit carry left at the end. -/
def mulAddLoop : Nat → List UInt8 → List UInt8 × Nat
  | carry, [] => ([], carry)
  | carry, byte :: result =>
      let carry := (carry + byte.toNat * 58) % 0x100000000
      let (rest, out) := mulAddLoop (carry / 256) result
      (UInt8.ofNat (carry % 256) :: rest, out)

/-- `while (carry > 0)`: four shifts exhaust a 32-bit carry. -/
def flushCarry (size : Nat) : Nat → Nat → List UInt8 → Except Fault (List UInt8)
  | 0, _, result => .ok result
  | shifts + 1, carry, result =>
      if 0 < carry then
        if result.length < size then
          flushCarry size shifts (carry / 256) (result ++ [UInt8.ofNat (carry % 256)])
        else .error .arrayIndex
      else .ok result

def decodeChar (sign : CharSign) (size : Nat) (result : List UInt8) (c : UInt8) :
    Except Fault (List UInt8) := do
  let carry ← alphabetEntry sign c
  let (result, carry) := mulAddLoop carry result
  flushCarry size 4 carry result

def appendZeros (size : Nat) : List UInt8 → List UInt8 → Except Fault (List UInt8)
  | [], result => .ok result
  | c :: str, result =>
      if c = '1'.toUInt8 then
        if result.length < size then appendZeros size str (result ++ [0])
        else .error .arrayIndex
      else .ok result

def swapAt (result : List UInt8) (i j : Nat) : List UInt8 :=
  let k := result.getD i 0
  (result.set i (result.getD j 0)).set j k

/-- `for (i = count - 1; i >= z; i--)`, the swaps that reverse the array. -/
def reverseLoop (z : Nat) : Nat → List UInt8 → List UInt8
  | 0, result => result
  | i + 1, result =>
      if z ≤ i then reverseLoop z i (swapAt result i (result.length - i - 1)) else result

/-- The size `len * 137 / 100` of the array, an `int` computation. -/
def resultSize (len : Int) : Except Fault Nat :=
  if len * 137 < -0x80000000 ∨ 0x80000000 ≤ len * 137 then .error .intOverflow
  else if Int.tdiv (len * 137) 100 ≤ 0 then .error .arraySize
  else .ok (Int.tdiv (len * 137) 100).toNat

/-- `int len = strlen(input)` -/
def intLength (input : CString) : Int := Int.bmod input.strlen (0x100000000)

/-- The characters below `len`. -/
def scanned (input : CString) : List UInt8 := input.bytes.take (intLength input).toNat

/-- The body from `result[0] = 0` on, for an array of `size` bytes. -/
def decodeInto (sign : CharSign) (size : Nat) (str : List UInt8) {outsize : Nat}
    (output : Block outsize) : Except Fault (Nat × Block outsize) := do
  let result ← str.foldlM (decodeChar sign size) [0]
  let result ← appendZeros size str result
  let result := reverseLoop (result.length / 2 + result.length % 2) result.length result
  .ok (result.length, output.write result)

def base58Decode (sign : CharSign) (input : CString) {outsize : Nat} (output : Block outsize) :
    Except Fault (Nat × Block outsize) := do
  let size ← resultSize (intLength input)
  decodeInto sign size (scanned input) output

/-! ## The table -/

/-- A byte the table has an entry for. -/
def InTable (c : UInt8) : Prop := c.toNat < 128

instance (c : UInt8) : Decidable (InTable c) := inferInstanceAs (Decidable (c.toNat < 128))

/-- What an entry reads as; the digit of a Base58 character, `-1` for any other. -/
def entry (sign : CharSign) (c : UInt8) : Nat := charToUInt sign (alphabetMap.getD c.toNat (-1))

theorem alphabetEntry_inTable (sign : CharSign) {c : UInt8} (known : InTable c) :
    alphabetEntry sign c = .ok (entry sign c) := by
  have found : alphabetMap[c.toNat]? = some (alphabetMap.getD c.toNat (-1)) := by
    have length : alphabetMap.length = 128 := rfl
    rw [List.getD_eq_getElem?_getD, List.getElem?_eq_getElem (by rw [length]; exact known)]
    rfl
  rw [alphabetEntry, found]
  rfl

theorem alphabetEntry_outside (sign : CharSign) {c : UInt8} (unknown : ¬ InTable c) :
    alphabetEntry sign c = .error .tableIndex := by
  have missing : alphabetMap[c.toNat]? = none := by
    rw [List.getElem?_eq_none_iff]
    exact Nat.le_of_not_lt unknown
  rw [alphabetEntry, missing]

theorem inTable_of_mem {c : UInt8} (member : c ∈ alphabet) : InTable c := by
  have all : ∀ c ∈ alphabet, InTable c := by decide +kernel
  exact all c member

theorem entry_of_mem (sign : CharSign) {c : UInt8} (member : c ∈ alphabet) :
    entry sign c = digit c := by
  have all : ∀ c ∈ alphabet, entry .signed c = digit c ∧ entry .unsigned c = digit c := by
    decide +kernel
  cases sign with
  | signed => exact (all c member).1
  | unsigned => exact (all c member).2

/-- An entry is a small number or minus one. -/
theorem entry_small (sign : CharSign) (c : UInt8) : entry sign c < 256 ∨ entry sign c = 0xffffffff := by
  have all : ∀ stored ∈ alphabetMap, ∀ sign ∈ [CharSign.signed, .unsigned],
      charToUInt sign stored < 256 ∨ charToUInt sign stored = 0xffffffff := by decide +kernel
  have either : sign ∈ [CharSign.signed, .unsigned] := by cases sign <;> decide
  rw [entry, List.getD_eq_getElem?_getD]
  cases found : alphabetMap[c.toNat]? with
  | none => cases sign <;> decide
  | some stored => exact all stored (List.mem_of_getElem? found) sign either

end CNear.Base58
