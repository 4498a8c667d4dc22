import Mathlib.Algebra.Order.Ring.Nat
import CNear.Memory
import CNear.Lib.Rfc4648

/-! `base64_encode`: the allocation size in the machine's own arithmetic, and the loop over
three bytes at a time. What it writes is the RFC 4648 text. -/

namespace CNear.Base64

def base64Table : List UInt8 :=
  ascii "ABCDEFGHIJKLMNOPQRSTUVWXYZabcdefghijklmnopqrstuvwxyz0123456789+/"

/-- `base64_table[i]` -/
def entry (i : UInt8) : UInt8 := base64Table.getD i.toNat 0

/-- The loop over full groups and the tail after it. -/
def encodeLoop : List UInt8 → List UInt8
  | [] => []
  | [a] => [entry (a >>> 2), entry ((a &&& 0x03) <<< 4), '='.toUInt8, '='.toUInt8]
  | [a, b] =>
      [entry (a >>> 2), entry (((a &&& 0x03) <<< 4) ||| (b >>> 4)), entry ((b &&& 0x0f) <<< 2),
        '='.toUInt8]
  | a :: b :: c :: rest =>
      entry (a >>> 2) :: entry (((a &&& 0x03) <<< 4) ||| (b >>> 4)) ::
        entry (((b &&& 0x0f) <<< 2) ||| (c >>> 6)) :: entry (c &&& 0x3f) :: encodeLoop rest

/-- `olen`, where `size_t` counts modulo `wrap`. -/
def allocationSize (wrap len : Nat) : Nat :=
  let olen := (len * 4 % wrap / 3 + 4) % wrap
  let olen := (olen + olen / 72) % wrap
  (olen + 1) % wrap

/-! ## The groups are numbers -/

theorem toNat_shr (a : UInt8) (k : Nat) (small : k < 8) :
    (a >>> UInt8.ofNat k).toNat = a.toNat / 2 ^ k := by
  have shift : (UInt8.ofNat k).toNat % 8 = k := by
    rw [UInt8.toNat_ofNat']
    omega
  rw [UInt8.toNat_shiftRight, shift, Nat.shiftRight_eq_div_pow]

theorem toNat_low (a : UInt8) (m : Nat) (small : m ≤ 8) :
    (a &&& UInt8.ofNat (2 ^ m - 1)).toNat = a.toNat % 2 ^ m := by
  have pow : 2 ^ m ≤ 2 ^ 8 := Nat.pow_le_pow_right (by decide) small
  have mask : (UInt8.ofNat (2 ^ m - 1)).toNat = 2 ^ m - 1 := by
    rw [UInt8.toNat_ofNat']
    exact Nat.mod_eq_of_lt (by omega)
  rw [UInt8.toNat_and, mask, Nat.and_two_pow_sub_one_eq_mod]

theorem toNat_shl (a : UInt8) (k : Nat) (small : k < 8) (fits : a.toNat * 2 ^ k < 256) :
    (a <<< UInt8.ofNat k).toNat = a.toNat * 2 ^ k := by
  have shift : (UInt8.ofNat k).toNat % 8 = k := by
    rw [UInt8.toNat_ofNat']
    omega
  rw [UInt8.toNat_shiftLeft, shift, Nat.shiftLeft_eq]
  exact Nat.mod_eq_of_lt fits

theorem toNat_or (a b : UInt8) (i : Nat) (high : 2 ^ i ∣ a.toNat) (low : b.toNat < 2 ^ i) :
    (a ||| b).toNat = a.toNat + b.toNat := by
  obtain ⟨count, same⟩ := high
  rw [UInt8.toNat_or, same, Nat.mul_comm, ← Nat.shiftLeft_eq]
  exact (Nat.shiftLeft_add_eq_or_of_lt low count).symm

theorem first_digit (a : UInt8) : (a >>> 2).toNat = a.toNat / 4 := toNat_shr a 2 (by decide)

theorem second_digit_last (a : UInt8) : ((a &&& 0x03) <<< 4).toNat = a.toNat % 4 * 16 := by
  have low : (a &&& 0x03).toNat = a.toNat % 4 := toNat_low a 2 (by decide)
  have shifted := toNat_shl (a &&& 0x03) 4 (by decide) (by omega)
  rwa [low] at shifted

theorem third_digit_last (b : UInt8) : ((b &&& 0x0f) <<< 2).toNat = b.toNat % 16 * 4 := by
  have low : (b &&& 0x0f).toNat = b.toNat % 16 := toNat_low b 4 (by decide)
  have shifted := toNat_shl (b &&& 0x0f) 2 (by decide) (by omega)
  rwa [low] at shifted

theorem second_digit (a b : UInt8) :
    (((a &&& 0x03) <<< 4) ||| (b >>> 4)).toNat = a.toNat % 4 * 16 + b.toNat / 16 := by
  have high := second_digit_last a
  have low : (b >>> 4).toNat = b.toNat / 16 := toNat_shr b 4 (by decide)
  have bound := b.toNat_lt
  rw [toNat_or _ _ 4 ⟨a.toNat % 4, by omega⟩ (by omega), high, low]

theorem third_digit (b c : UInt8) :
    (((b &&& 0x0f) <<< 2) ||| (c >>> 6)).toNat = b.toNat % 16 * 4 + c.toNat / 64 := by
  have high := third_digit_last b
  have low : (c >>> 6).toNat = c.toNat / 64 := toNat_shr c 6 (by decide)
  have bound := c.toNat_lt
  rw [toNat_or _ _ 2 ⟨b.toNat % 16, by omega⟩ (by omega), high, low]

theorem fourth_digit (c : UInt8) : (c &&& 0x3f).toNat = c.toNat % 64 := toNat_low c 6 (by decide)

theorem entry_eq_symbol {i : UInt8} {n : Nat} (same : i.toNat = n) : entry i = Rfc4648.symbol n := by
  rw [entry, same]
  rfl

/-- The loop writes the RFC 4648 text. -/
theorem encodeLoop_eq (src : List UInt8) : encodeLoop src = Rfc4648.encode src := by
  induction src using encodeLoop.induct with
  | case1 => rfl
  | case2 a =>
    have p : (a >>> 2).toNat = a.toNat * 16 / 64 := by rw [first_digit]; omega
    have q : ((a &&& 0x03) <<< 4).toNat = a.toNat * 16 % 64 := by rw [second_digit_last]; omega
    rw [encodeLoop, Rfc4648.encode, entry_eq_symbol p, entry_eq_symbol q]
    rfl
  | case3 a b =>
    have bound := b.toNat_lt
    have p : (a >>> 2).toNat = (a.toNat * 256 + b.toNat) * 4 / 4096 := by rw [first_digit]; omega
    have q : (((a &&& 0x03) <<< 4) ||| (b >>> 4)).toNat =
        (a.toNat * 256 + b.toNat) * 4 / 64 % 64 := by rw [second_digit]; omega
    have r : ((b &&& 0x0f) <<< 2).toNat = (a.toNat * 256 + b.toNat) * 4 % 64 := by
      rw [third_digit_last]; omega
    rw [encodeLoop, Rfc4648.encode, entry_eq_symbol p, entry_eq_symbol q, entry_eq_symbol r]
    rfl
  | case4 a b c rest ih =>
    have boundB := b.toNat_lt
    have boundC := c.toNat_lt
    have p : (a >>> 2).toNat = ((a.toNat * 256 + b.toNat) * 256 + c.toNat) / 262144 := by
      rw [first_digit]; omega
    have q : (((a &&& 0x03) <<< 4) ||| (b >>> 4)).toNat =
        ((a.toNat * 256 + b.toNat) * 256 + c.toNat) / 4096 % 64 := by rw [second_digit]; omega
    have r : (((b &&& 0x0f) <<< 2) ||| (c >>> 6)).toNat =
        ((a.toNat * 256 + b.toNat) * 256 + c.toNat) / 64 % 64 := by rw [third_digit]; omega
    have s : (c &&& 0x3f).toNat = ((a.toNat * 256 + b.toNat) * 256 + c.toNat) % 64 := by
      rw [fourth_digit]; omega
    rw [encodeLoop, Rfc4648.encode, ih, entry_eq_symbol p, entry_eq_symbol q, entry_eq_symbol r,
      entry_eq_symbol s]

theorem zero_notMem_encodeLoop (src : List UInt8) : 0 ∉ encodeLoop src := by
  rw [encodeLoop_eq]
  exact Rfc4648.zero_notMem_encode src

/-- `NULL` where the size computation overflows or the block is refused. -/
def base64Encode (wrap : Nat) (granted : Bool) (src : List UInt8) : Option CString :=
  if allocationSize wrap src.length < src.length then none
  else if granted then some ⟨encodeLoop src, zero_notMem_encodeLoop src⟩
  else none

/-- Only the product can wrap. -/
theorem allocationSize_eq {wrap len : Nat} (wide : 0x100000000 ≤ wrap) :
    allocationSize wrap len =
      len * 4 % wrap / 3 + 4 + (len * 4 % wrap / 3 + 4) / 72 + 1 := by
  unfold allocationSize
  have product : len * 4 % wrap < wrap := Nat.mod_lt _ (by omega)
  generalize len * 4 % wrap = rest at product ⊢
  have padded : (rest / 3 + 4) % wrap = rest / 3 + 4 := Nat.mod_eq_of_lt (by omega)
  have lines : (rest / 3 + 4 + (rest / 3 + 4) / 72) % wrap = rest / 3 + 4 + (rest / 3 + 4) / 72 :=
    Nat.mod_eq_of_lt (by omega)
  have final : (rest / 3 + 4 + (rest / 3 + 4) / 72 + 1) % wrap =
      rest / 3 + 4 + (rest / 3 + 4) / 72 + 1 := Nat.mod_eq_of_lt (by omega)
  simp only [padded, lines, final]

/-- Without a wrap there is a byte for every character and for the terminator. -/
theorem allocationSize_exact {wrap len : Nat} (wide : 0x100000000 ≤ wrap) (whole : len * 4 < wrap) :
    4 * ((len + 2) / 3) + 1 ≤ allocationSize wrap len := by
  rw [allocationSize_eq wide, Nat.mod_eq_of_lt whole]
  omega

/-- What a wrapped product leaves is too small, whether it wrapped once or more often. -/
theorem allocationSize_wrapped {wrap len : Nat} (wide : 0x100000000 ≤ wrap) (inRange : len < wrap)
    (wrapped : wrap ≤ len * 4) : allocationSize wrap len < len := by
  have below : len * 4 % wrap < wrap := Nat.mod_lt _ (by omega)
  have once : len * 4 % wrap ≤ len * 4 - wrap := by
    rw [Nat.mod_eq_sub_mod wrapped]
    exact Nat.mod_le _ _
  rw [allocationSize_eq wide]
  omega

/-- Far from the end of the range the size does not overflow. -/
theorem le_allocationSize {wrap len : Nat} (wide : 0x100000000 ≤ wrap) (small : len < 0x10000000) :
    len ≤ allocationSize wrap len := by
  have enough := allocationSize_exact wide (show len * 4 < wrap by omega)
  omega

theorem base64Encode_granted {wrap : Nat} (wide : 0x100000000 ≤ wrap) {src : List UInt8}
    (small : src.length < 0x10000000) :
    base64Encode wrap true src = some ⟨encodeLoop src, zero_notMem_encodeLoop src⟩ := by
  have enough := le_allocationSize wide small
  rw [base64Encode, if_neg (by omega), if_pos rfl]

/-- The text that comes out stands for the bytes that went in. -/
theorem decode_base64Encode {wrap : Nat} {granted : Bool} {src : List UInt8} {text : CString}
    (encoded : base64Encode wrap granted src = some text) :
    Rfc4648.decode text.bytes = some src := by
  have same : text.bytes = encodeLoop src := by
    unfold base64Encode at encoded
    split at encoded
    · cases encoded
    · split at encoded
      · cases encoded
        rfl
      · cases encoded
  rw [same, encodeLoop_eq]
  exact Rfc4648.decode_encode src

end CNear.Base64
