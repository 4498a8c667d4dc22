import Mathlib.Data.List.TakeWhile
import Mathlib.Tactic.Common

/-! What the C code keeps in memory: NUL-terminated strings, byte arrays of a fixed size,
and the faults of a run that the C standard gives no meaning to. -/

namespace CNear

/-- A step without defined behaviour. A run that takes one has no outcome. -/
inductive Fault where
  | nullString
  | tableIndex
  | arrayIndex
  | arraySize
  | intOverflow
  | floatToInt
  | unterminated
  deriving DecidableEq, Repr

@[simp] theorem ok_bind {α β : Type} (value : α) (next : α → Except Fault β) :
    (Except.ok value >>= next) = next value := rfl

@[simp] theorem error_bind {α β : Type} (fault : Fault) (next : α → Except Fault β) :
    (Except.error fault >>= next) = .error fault := rfl

/-- A run without a fault is made of runs without a fault. -/
theorem bind_eq_ok {α β : Type} {first : Except Fault α} {next : α → Except Fault β} {result : β} :
    (first >>= next) = .ok result ↔ ∃ value, first = .ok value ∧ next value = .ok result := by
  cases first with
  | error fault => simp
  | ok value => simp

/-- A count in the range of `int` is what the cast to `int` makes of it. -/
theorem bmod_of_lt {n : Nat} (inRange : n < 0x80000000) : Int.bmod n 0x100000000 = n := by
  apply Int.bmod_eq_of_le
  · omega
  · omega

/-- The bytes of a string literal. -/
def ascii (text : String) : List UInt8 := text.toList.map fun c => UInt8.ofNat c.toNat

/-- The characters of a C string, without the terminator. -/
structure CString where
  bytes : List UInt8
  noNul : 0 ∉ bytes
  deriving DecidableEq

namespace CString

theorem ext_bytes {left right : CString} (same : left.bytes = right.bytes) : left = right := by
  cases left
  cases right
  cases same
  rfl

/-- The string that a block holds up to its first NUL. -/
def upToNul (block : List UInt8) : CString :=
  ⟨block.takeWhile (· ≠ 0), fun member => by simpa using List.mem_takeWhile_imp member⟩

/-- A string literal of the source. -/
def lit (text : String) : CString := upToNul (ascii text)

def strlen (s : CString) : Nat := s.bytes.length

/-- `s + count` for `count` at most the length. -/
def drop (s : CString) (count : Nat) : CString :=
  ⟨s.bytes.drop count, fun member => s.noNul (List.mem_of_mem_drop member)⟩

/-- The string at the start of a block; a block without a NUL has none. -/
def ofBlock (block : List UInt8) : Except Fault CString :=
  if 0 ∈ block then .ok (upToNul block) else .error .unterminated

theorem ofBlock_terminated (s : CString) (rest : List UInt8) :
    ofBlock (s.bytes ++ 0 :: rest) = .ok s := by
  have member : (0 : UInt8) ∈ s.bytes ++ 0 :: rest := by simp
  have stop : (s.bytes ++ 0 :: rest).takeWhile (· ≠ 0) = s.bytes := by
    rw [List.takeWhile_append_of_pos]
    · simp
    · intro byte present
      simpa using fun zero : byte = 0 => s.noNul (zero ▸ present)
  simp only [ofBlock, if_pos member]
  exact congrArg Except.ok (ext_bytes stop)

end CString

/-- An array of exactly `size` bytes. -/
structure Block (size : Nat) where
  bytes : List UInt8
  length_eq : bytes.length = size
  deriving DecidableEq

namespace Block
variable {size : Nat}

theorem ext_bytes {left right : Block size} (same : left.bytes = right.bytes) : left = right := by
  cases left
  cases right
  cases same
  rfl

theorem bytes_ne_nil (positive : 0 < size) (block : Block size) : block.bytes ≠ [] := by
  intro empty
  have length := block.length_eq
  rw [empty, List.length_nil] at length
  omega

def replicate (size : Nat) (byte : UInt8) : Block size :=
  ⟨List.replicate size byte, List.length_replicate⟩

/-- `block[i]` -/
def load (block : Block size) (i : Nat) : Except Fault UInt8 :=
  match block.bytes[i]? with
  | some byte => .ok byte
  | none => .error .arrayIndex

/-- `block[i] = byte` -/
def store (block : Block size) (i : Nat) (byte : UInt8) : Except Fault (Block size) :=
  if i < size then .ok ⟨block.bytes.set i byte, by rw [List.length_set, block.length_eq]⟩
  else .error .arrayIndex

theorem load_eq (block : Block size) {i : Nat} (inside : i < size) :
    block.load i = .ok (block.bytes.getD i 0) := by
  rw [← block.length_eq] at inside
  rw [load, List.getD_eq_getElem?_getD, List.getElem?_eq_getElem inside, Option.getD_some]

theorem store_eq (block : Block size) {i : Nat} (byte : UInt8) (inside : i < size) :
    ∃ next, block.store i byte = .ok next ∧ next.bytes = block.bytes.set i byte :=
  ⟨_, if_pos inside, rfl⟩

theorem store_outside (block : Block size) {i : Nat} (byte : UInt8) (outside : ¬ i < size) :
    block.store i byte = .error .arrayIndex :=
  if_neg outside

/-- `memcpy` of `source` to the start of the array, cut off at the array's end. -/
def write (block : Block size) (source : List UInt8) : Block size :=
  ⟨source.take size ++ block.bytes.drop source.length, by
    have length := block.length_eq
    simp only [List.length_append, List.length_take, List.length_drop]
    omega⟩

theorem write_full (block : Block size) {source : List UInt8} (full : size ≤ source.length) :
    (block.write source).bytes = source.take size := by
  have rest : block.bytes.drop source.length = [] :=
    List.drop_eq_nil_of_le (by rw [block.length_eq]; exact full)
  simp [write, rest]

theorem write_exact (block : Block size) {source : List UInt8} (exact_size : source.length = size) :
    (block.write source).bytes = source := by
  rw [write_full block (Nat.le_of_eq exact_size.symm), ← exact_size, List.take_length]

end Block

/-- The first `count` bytes of the array are the list, and lie in the array. -/
structure Block.Begins {size : Nat} (block : Block size) (count : Nat) (list : List UInt8) : Prop where
  bytes : block.bytes.take count = list
  inside : count ≤ size

namespace Block.Begins
variable {size count : Nat} {block : Block size} {list : List UInt8}

theorem empty (block : Block size) : block.Begins 0 [] := ⟨rfl, Nat.zero_le _⟩

theorem length (begins : block.Begins count list) : list.length = count := by
  rw [← begins.bytes, List.length_take, block.length_eq]
  exact Nat.min_eq_left begins.inside

theorem load (begins : block.Begins count list) {i : Nat} (bound : i < count) :
    block.load i = .ok (list.getD i 0) := by
  rw [load_eq _ (bound.trans_le begins.inside), ← begins.bytes]
  simp only [List.getD_eq_getElem?_getD, List.getElem?_take_of_lt bound]

theorem store (begins : block.Begins count list) {i : Nat} (bound : i < count) (byte : UInt8) :
    ∃ next, block.store i byte = .ok next ∧ next.Begins count (list.set i byte) := by
  obtain ⟨next, stored, cells⟩ := store_eq block byte (bound.trans_le begins.inside)
  refine ⟨next, stored, ?_, begins.inside⟩
  rw [cells, ← begins.bytes, List.take_set]

/-- A byte stored right behind the list is a byte more. -/
theorem append (begins : block.Begins count list) (room : count < size) (byte : UInt8) :
    ∃ next, block.store count byte = .ok next ∧ next.Begins (count + 1) (list ++ [byte]) := by
  obtain ⟨next, stored, cells⟩ := store_eq block byte room
  refine ⟨next, stored, ?_, room⟩
  have present : count < (block.bytes.set count byte).length := by
    rwa [List.length_set, block.length_eq]
  rw [cells, List.take_succ_eq_append_getElem present, List.getElem_set_self,
    List.take_set_of_le le_rfl, begins.bytes]

/-- A shorter part of the array is the start of the list. -/
theorem take (begins : block.Begins count list) {fewer : Nat} (le : fewer ≤ count) :
    block.Begins fewer (list.take fewer) := by
  refine ⟨?_, le.trans begins.inside⟩
  rw [← begins.bytes, List.take_take, Nat.min_eq_left le]

end Block.Begins

end CNear
