import Mathlib.Data.List.GetD
import Mathlib.Tactic.Common

/-! Base64 as RFC 4648 defines it: three bytes are one number below 2^24, written as four
digits in base 64, and a shorter last group is filled up with zero bits and padded. The
decoder takes canonical text only. -/

namespace Rfc4648

def alphabet : List UInt8 :=
  "ABCDEFGHIJKLMNOPQRSTUVWXYZabcdefghijklmnopqrstuvwxyz0123456789+/".toList.map fun c =>
    UInt8.ofNat c.toNat

def pad : UInt8 := '='.toUInt8

def symbol (n : Nat) : UInt8 := alphabet.getD n 0

def index (c : UInt8) : Option Nat := if c ∈ alphabet then some (alphabet.idxOf c) else none

def encode : List UInt8 → List UInt8
  | [] => []
  | [a] =>
      let n := a.toNat * 16
      [symbol (n / 64), symbol (n % 64), pad, pad]
  | [a, b] =>
      let n := (a.toNat * 256 + b.toNat) * 4
      [symbol (n / 4096), symbol (n / 64 % 64), symbol (n % 64), pad]
  | a :: b :: c :: rest =>
      let n := (a.toNat * 256 + b.toNat) * 256 + c.toNat
      symbol (n / 262144) :: symbol (n / 4096 % 64) :: symbol (n / 64 % 64) :: symbol (n % 64) ::
        encode rest

/-- A last group of one byte. -/
def decodeOne (p q : UInt8) : Option (List UInt8) := do
  let i ← index p
  let j ← index q
  let n := i * 64 + j
  if n % 16 = 0 then some [UInt8.ofNat (n / 16)] else none

/-- A last group of two bytes. -/
def decodeTwo (p q r : UInt8) : Option (List UInt8) := do
  let i ← index p
  let j ← index q
  let k ← index r
  let n := (i * 64 + j) * 64 + k
  if n % 4 = 0 then some [UInt8.ofNat (n / 4 / 256), UInt8.ofNat (n / 4 % 256)] else none

def decodeThree (p q r s : UInt8) : Option (List UInt8) := do
  let i ← index p
  let j ← index q
  let k ← index r
  let l ← index s
  let n := ((i * 64 + j) * 64 + k) * 64 + l
  some [UInt8.ofNat (n / 65536), UInt8.ofNat (n / 256 % 256), UInt8.ofNat (n % 256)]

def decode : List UInt8 → Option (List UInt8)
  | [] => some []
  | p :: q :: r :: s :: rest =>
      if s = pad ∧ rest = [] then if r = pad then decodeOne p q else decodeTwo p q r
      else do
        let bytes ← decodeThree p q r s
        let others ← decode rest
        some (bytes ++ others)
  | _ => none

/-! ## The digits -/

theorem alphabet_length : alphabet.length = 64 := by decide +kernel

theorem alphabet_nodup : alphabet.Nodup := by decide +kernel

theorem pad_notMem_alphabet : pad ∉ alphabet := by decide +kernel

theorem zero_notMem_alphabet : (0 : UInt8) ∉ alphabet := by decide +kernel

theorem symbol_mem {n : Nat} (small : n < 64) : symbol n ∈ alphabet := by
  rw [← alphabet_length] at small
  rw [symbol, List.getD_eq_getElem _ _ small]
  exact List.getElem_mem small

theorem exists_symbol {c : UInt8} (member : c ∈ alphabet) : ∃ n < 64, symbol n = c := by
  obtain ⟨n, small, same⟩ := List.mem_iff_getElem.mp member
  refine ⟨n, by rwa [alphabet_length] at small, ?_⟩
  rw [symbol, List.getD_eq_getElem _ _ small, same]

theorem index_symbol {n : Nat} (small : n < 64) : index (symbol n) = some n := by
  rw [index, if_pos (symbol_mem small)]
  rw [← alphabet_length] at small
  rw [symbol, List.getD_eq_getElem _ _ small, alphabet_nodup.idxOf_getElem n small]

theorem symbol_ne_pad {n : Nat} (small : n < 64) : symbol n ≠ pad := by
  intro same
  apply pad_notMem_alphabet
  rw [← same]
  exact symbol_mem small

/-! ## What is encoded is decoded -/

theorem decodeOne_encode (a : UInt8) :
    decodeOne (symbol (a.toNat * 16 / 64)) (symbol (a.toNat * 16 % 64)) = some [a] := by
  have bound := a.toNat_lt
  have whole : a.toNat * 16 / 64 * 64 + a.toNat * 16 % 64 = a.toNat * 16 := by omega
  have aligned : a.toNat * 16 % 16 = 0 := by omega
  have byte : a.toNat * 16 / 16 = a.toNat := by omega
  simp [decodeOne, index_symbol (show a.toNat * 16 / 64 < 64 by omega),
    index_symbol (show a.toNat * 16 % 64 < 64 by omega), whole, aligned, byte]

theorem decodeTwo_encode (a b : UInt8) :
    decodeTwo (symbol ((a.toNat * 256 + b.toNat) * 4 / 4096))
      (symbol ((a.toNat * 256 + b.toNat) * 4 / 64 % 64))
      (symbol ((a.toNat * 256 + b.toNat) * 4 % 64)) = some [a, b] := by
  have boundA := a.toNat_lt
  have boundB := b.toNat_lt
  generalize same : (a.toNat * 256 + b.toNat) * 4 = n
  have whole : (n / 4096 * 64 + n / 64 % 64) * 64 + n % 64 = n := by omega
  have aligned : n % 4 = 0 := by omega
  have high : n / 4 / 256 = a.toNat := by omega
  have low : n / 4 % 256 = b.toNat := by omega
  simp [decodeTwo, index_symbol (show n / 4096 < 64 by omega),
    index_symbol (show n / 64 % 64 < 64 by omega), index_symbol (show n % 64 < 64 by omega),
    whole, aligned, high, low]

theorem decodeThree_encode (a b c : UInt8) {n : Nat}
    (same : (a.toNat * 256 + b.toNat) * 256 + c.toNat = n) :
    decodeThree (symbol (n / 262144)) (symbol (n / 4096 % 64)) (symbol (n / 64 % 64))
      (symbol (n % 64)) = some [a, b, c] := by
  have boundA := a.toNat_lt
  have boundB := b.toNat_lt
  have boundC := c.toNat_lt
  have whole : ((n / 262144 * 64 + n / 4096 % 64) * 64 + n / 64 % 64) * 64 + n % 64 = n := by omega
  have high : n / 65536 = a.toNat := by omega
  have middle : n / 256 % 256 = b.toNat := by omega
  have low : n % 256 = c.toNat := by omega
  simp [decodeThree, index_symbol (show n / 262144 < 64 by omega),
    index_symbol (show n / 4096 % 64 < 64 by omega), index_symbol (show n / 64 % 64 < 64 by omega),
    index_symbol (show n % 64 < 64 by omega), whole, high, middle, low]

/-- Decoding undoes encoding. -/
theorem decode_encode (bytes : List UInt8) : decode (encode bytes) = some bytes := by
  induction bytes using encode.induct with
  | case1 => rfl
  | case2 a =>
    simp only [encode, decode, and_self, ↓reduceIte]
    exact decodeOne_encode a
  | case3 a b =>
    have digit : symbol ((a.toNat * 256 + b.toNat) * 4 % 64) ≠ pad :=
      symbol_ne_pad (Nat.mod_lt _ (by decide))
    simp only [encode, decode, and_self, ↓reduceIte, digit]
    exact decodeTwo_encode a b
  | case4 a b c rest ih =>
    have digit : symbol (((a.toNat * 256 + b.toNat) * 256 + c.toNat) % 64) ≠ pad :=
      symbol_ne_pad (Nat.mod_lt _ (by decide))
    simp only [encode, decode, digit, false_and, ↓reduceIte, decodeThree_encode a b c rfl, ih]
    rfl

theorem encode_length (bytes : List UInt8) :
    (encode bytes).length = 4 * ((bytes.length + 2) / 3) := by
  induction bytes using encode.induct with
  | case1 => rfl
  | case2 a => simp [encode]
  | case3 a b => simp [encode]
  | case4 a b c rest ih =>
    simp only [encode, List.length_cons, ih]
    omega

/-- Characters of the alphabet, and then what fills the last group up to four. -/
theorem encode_shape (bytes : List UInt8) :
    ∃ digits, encode bytes = digits ++ List.replicate ((3 - bytes.length % 3) % 3) pad ∧
      ∀ c ∈ digits, c ∈ alphabet := by
  induction bytes using encode.induct with
  | case1 => exact ⟨[], rfl, by simp⟩
  | case2 a =>
    have bound := a.toNat_lt
    refine ⟨[symbol (a.toNat * 16 / 64), symbol (a.toNat * 16 % 64)], rfl, ?_⟩
    simp [symbol_mem (show a.toNat * 16 / 64 < 64 by omega),
      symbol_mem (show a.toNat * 16 % 64 < 64 by omega)]
  | case3 a b =>
    have boundA := a.toNat_lt
    have boundB := b.toNat_lt
    rw [encode]
    generalize same : (a.toNat * 256 + b.toNat) * 4 = n
    refine ⟨[symbol (n / 4096), symbol (n / 64 % 64), symbol (n % 64)], rfl, ?_⟩
    simp [symbol_mem (show n / 4096 < 64 by omega), symbol_mem (show n / 64 % 64 < 64 by omega),
      symbol_mem (show n % 64 < 64 by omega)]
  | case4 a b c rest ih =>
    have boundA := a.toNat_lt
    have boundB := b.toNat_lt
    have boundC := c.toNat_lt
    obtain ⟨digits, shape, known⟩ := ih
    rw [encode]
    generalize same : (a.toNat * 256 + b.toNat) * 256 + c.toNat = n
    refine ⟨symbol (n / 262144) :: symbol (n / 4096 % 64) :: symbol (n / 64 % 64) ::
      symbol (n % 64) :: digits, ?_, ?_⟩
    · have count : (rest.length + 3) % 3 = rest.length % 3 := Nat.add_mod_right _ _
      simp only [shape, List.length_cons, count, List.cons_append]
    · simp only [List.forall_mem_cons]
      exact ⟨symbol_mem (by omega), symbol_mem (by omega), symbol_mem (by omega),
        symbol_mem (by omega), known⟩

theorem mem_encode {bytes : List UInt8} {c : UInt8} (member : c ∈ encode bytes) :
    c ∈ alphabet ∨ c = pad := by
  obtain ⟨digits, shape, known⟩ := encode_shape bytes
  rw [shape, List.mem_append] at member
  rcases member with digit | filler
  · exact Or.inl (known c digit)
  · exact Or.inr (List.eq_of_mem_replicate filler)

theorem zero_notMem_encode (bytes : List UInt8) : 0 ∉ encode bytes := by
  intro member
  rcases mem_encode member with digit | filler
  · exact zero_notMem_alphabet digit
  · exact absurd filler (by decide)

end Rfc4648
