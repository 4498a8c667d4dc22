import CNear.Base58Conformance
import CNear.Lib.Simulation

/-! `base58_decode` on the array itself. Every read and write of `result` names its index, the
cells past `resultlen` hold what the stack held before, and an index past the array is a
fault. The list of the bytes below `resultlen` is all that the outcome depends on. -/

namespace CNear.Base58Array
open Base58 Simulation

variable {size : Nat}

/-- `result` and `resultlen` -/
structure Work (size : Nat) where
  result : Block size
  resultlen : Nat

/-- The body of the inner loop at index `j`. -/
def mulAddAt (j carry : Nat) (result : Block size) : Except Fault (Nat × Block size) := do
  let byte ← result.load j
  let carry := (carry + byte.toNat * 58) % 0x100000000
  let result ← result.store j (UInt8.ofNat (carry % 256))
  .ok (carry / 256, result)

/-- `for (int j = 0; j < resultlen; j++)`, with `count` turns left from index `j`. -/
def mulAddFrom : Nat → Nat → Nat → Block size → Except Fault (Nat × Block size)
  | 0, _, carry, result => .ok (carry, result)
  | count + 1, j, carry, result => do
      let (carry, result) ← mulAddAt j carry result
      mulAddFrom count (j + 1) carry result

/-- `while (carry > 0)`: four shifts exhaust a 32-bit carry. -/
def flushAt : Nat → Nat → Work size → Except Fault (Work size)
  | 0, _, work => .ok work
  | shifts + 1, carry, work =>
      if 0 < carry then do
        let result ← work.result.store work.resultlen (UInt8.ofNat (carry % 256))
        flushAt shifts (carry / 256) ⟨result, work.resultlen + 1⟩
      else .ok work

def decodeCharAt (sign : CharSign) (work : Work size) (c : UInt8) : Except Fault (Work size) := do
  let carry ← alphabetEntry sign c
  let (carry, result) ← mulAddFrom work.resultlen 0 carry work.result
  flushAt 4 carry ⟨result, work.resultlen⟩

/-- `for (int i = 0; i < len && str[i] == '1'; i++)` -/
def appendZerosAt : List UInt8 → Work size → Except Fault (Work size)
  | [], work => .ok work
  | c :: str, work =>
      if c = '1'.toUInt8 then do
        let result ← work.result.store work.resultlen 0
        appendZerosAt str ⟨result, work.resultlen + 1⟩
      else .ok work

/-- `int k = result[i]; result[i] = result[j]; result[j] = k;` -/
def swapCells (i j : Nat) (result : Block size) : Except Fault (Block size) := do
  let k ← result.load i
  let other ← result.load j
  let result ← result.store i other
  result.store j k

/-- `for (int i = count - 1; i >= z; i--)` -/
def reverseFrom (z resultlen : Nat) : Nat → Block size → Except Fault (Block size)
  | 0, result => .ok result
  | i + 1, result =>
      if z ≤ i then do
        let result ← swapCells i (resultlen - i - 1) result
        reverseFrom z resultlen i result
      else .ok result

/-- `z = (resultlen >> 1) + (resultlen & 1)` and the loop down to it. -/
def reverseCells (work : Work size) : Except Fault (Work size) := do
  let result ← reverseFrom (work.resultlen / 2 + work.resultlen % 2) work.resultlen
    work.resultlen work.result
  .ok ⟨result, work.resultlen⟩

/-- `memcpy(output, result, (resultlen < outsize) ? resultlen : outsize)` -/
def copyOut (work : Work size) {outsize : Nat} (output : Block outsize) :
    Except Fault (Block outsize) :=
  if min work.resultlen outsize ≤ size then
    .ok (output.write (work.result.bytes.take work.resultlen))
  else .error .arrayIndex

/-- `result[0] = 0; int resultlen = 1;` in an array that holds anything. -/
def startWork (uninit : Block size) : Except Fault (Work size) := do
  let result ← uninit.store 0 0
  .ok ⟨result, 1⟩

def decodeIntoAt (sign : CharSign) (uninit : Block size) (str : List UInt8) {outsize : Nat}
    (output : Block outsize) : Except Fault (Nat × Block outsize) := do
  let work ← startWork uninit
  let work ← str.foldlM (decodeCharAt sign) work
  let work ← appendZerosAt str work
  let work ← reverseCells work
  let output ← copyOut work output
  .ok (work.resultlen, output)

/-- `uninit` is what the stack holds where the array of the computed size is put. -/
def base58DecodeAt (sign : CharSign) (uninit : (size : Nat) → Block size) (input : CString)
    {outsize : Nat} (output : Block outsize) : Except Fault (Nat × Block outsize) := do
  let size ← resultSize (intLength input)
  decodeIntoAt sign (uninit size) (scanned input) output

/-! ## The bytes below `resultlen` -/

/-- The bytes that are read and written. -/
def Work.bytes (work : Work size) : List UInt8 := work.result.bytes.take work.resultlen

/-- The bytes below `resultlen` are the list. -/
def Holds (work : Work size) (list : List UInt8) : Prop :=
  work.result.Begins work.resultlen list

/-! ## One character -/

/-- The inner loop rewrites the cells it visits, as the loop over their list does. -/
theorem mulAddFrom_eq (count j carry : Nat) (result : Block size) (inside : j + count ≤ size) :
    ∃ next, mulAddFrom count j carry result =
        .ok ((mulAddLoop carry ((result.bytes.drop j).take count)).2, next) ∧
      next.bytes = result.bytes.take j ++
        (mulAddLoop carry ((result.bytes.drop j).take count)).1 ++ result.bytes.drop (j + count) := by
  induction count generalizing j carry result with
  | zero => exact ⟨result, by simp [mulAddFrom, mulAddLoop], by simp [mulAddLoop]⟩
  | succ count ih =>
    have present : j < result.bytes.length := by
      rw [result.length_eq]
      omega
    have window : (result.bytes.drop j).take (count + 1) =
        result.bytes.getD j 0 :: (result.bytes.drop (j + 1)).take count := by
      rw [List.drop_eq_getElem_cons present, List.take_succ_cons, List.getD_eq_getElem?_getD,
        List.getElem?_eq_getElem present, Option.getD_some]
    obtain ⟨stored, storing, cells⟩ := Block.store_eq result
      (UInt8.ofNat ((carry + (result.bytes.getD j 0).toNat * 58) % 0x100000000 % 256))
      (i := j) (by omega)
    have turn := Block.load_eq result (i := j) (by omega)
    obtain ⟨next, later, final⟩ := ih (j + 1)
      ((carry + (result.bytes.getD j 0).toNat * 58) % 0x100000000 / 256) stored (by omega)
    have rest : stored.bytes.drop (j + 1) = result.bytes.drop (j + 1) := by
      rw [cells, List.drop_set_of_lt (Nat.lt_succ_self j)]
    have before : stored.bytes.take (j + 1) = result.bytes.take j ++
        [UInt8.ofNat ((carry + (result.bytes.getD j 0).toNat * 58) % 0x100000000 % 256)] := by
      have stays : j < stored.bytes.length := by
        rwa [cells, List.length_set]
      rw [List.take_succ_eq_append_getElem stays]
      simp only [cells, List.getElem_set_self, List.take_set_of_le le_rfl]
    refine ⟨next, ?_, ?_⟩
    · simp only [mulAddFrom, mulAddAt, turn, storing, ok_bind, later, rest, window, mulAddLoop]
    · have last : stored.bytes.drop (j + 1 + count) = result.bytes.drop (j + (count + 1)) := by
        rw [cells, List.drop_set_of_lt (by omega)]
        congr 1
        omega
      rw [final, before, rest, last, window]
      simp [mulAddLoop]

/-- Over all the bytes below `resultlen`. -/
theorem mulAddFrom_holds {work : Work size} {list : List UInt8} (holds : Holds work list)
    (carry : Nat) :
    ∃ next, mulAddFrom work.resultlen 0 carry work.result = .ok ((mulAddLoop carry list).2, next) ∧
      Holds ⟨next, work.resultlen⟩ (mulAddLoop carry list).1 := by
  obtain ⟨next, ran, cells⟩ := mulAddFrom_eq work.resultlen 0 carry work.result
    (by simpa using holds.inside)
  have window : (work.result.bytes.drop 0).take work.resultlen = list := holds.bytes
  rw [window] at ran cells
  have length : (mulAddLoop carry list).1.length = work.resultlen := by
    rw [mulAddLoop_length, holds.length]
  refine ⟨next, ran, ?_, holds.inside⟩
  rw [cells, List.take_zero, List.nil_append, List.take_left' length]

theorem flushAt_refines (shifts carry : Nat) {work : Work size} {list : List UInt8}
    (holds : Holds work list) :
    Refines Holds (flushAt shifts carry work) (flushCarry size shifts carry list) := by
  induction shifts generalizing carry work list with
  | zero => exact .ok holds
  | succ shifts ih =>
    rw [flushAt, flushCarry, holds.length]
    by_cases positive : 0 < carry
    · rw [if_pos positive, if_pos positive]
      by_cases room : work.resultlen < size
      · obtain ⟨next, stored, grown⟩ := holds.append room (UInt8.ofNat (carry % 256))
        rw [stored, ok_bind, if_pos room]
        exact ih (carry / 256) grown
      · rw [Block.store_outside _ _ room, error_bind, if_neg room]
        exact .error Fault.arrayIndex
    · rw [if_neg positive, if_neg positive]
      exact .ok holds

theorem decodeCharAt_refines (sign : CharSign) (c : UInt8) {work : Work size} {list : List UInt8}
    (holds : Holds work list) :
    Refines Holds (decodeCharAt sign work c) (decodeChar sign size list c) := by
  rw [decodeCharAt, decodeChar]
  cases alphabetEntry sign c with
  | error fault => exact .error fault
  | ok carry =>
    obtain ⟨next, ran, rewritten⟩ := mulAddFrom_holds holds carry
    rw [ok_bind, ok_bind, ran, ok_bind]
    exact flushAt_refines 4 _ rewritten

/-! ## The passes after the accumulation -/

theorem appendZerosAt_refines (str : List UInt8) {work : Work size} {list : List UInt8}
    (holds : Holds work list) :
    Refines Holds (appendZerosAt str work) (appendZeros size str list) := by
  induction str generalizing work list with
  | nil => exact .ok holds
  | cons c str ih =>
    rw [appendZerosAt, appendZeros, holds.length]
    by_cases one : c = '1'.toUInt8
    · rw [if_pos one, if_pos one]
      by_cases room : work.resultlen < size
      · obtain ⟨next, stored, grown⟩ := holds.append room 0
        rw [stored, ok_bind, if_pos room]
        exact ih grown
      · rw [Block.store_outside _ _ room, error_bind, if_neg room]
        exact .error Fault.arrayIndex
    · rw [if_neg one, if_neg one]
      exact .ok holds

theorem swapCells_holds {work : Work size} {list : List UInt8} (holds : Holds work list)
    {i j : Nat} (iBound : i < work.resultlen) (jBound : j < work.resultlen) :
    ∃ next, swapCells i j work.result = .ok next ∧
      Holds ⟨next, work.resultlen⟩ (swapAt list i j) := by
  obtain ⟨middle, first, half⟩ := holds.store iBound (list.getD j 0)
  obtain ⟨next, second, whole⟩ := half.store jBound (list.getD i 0)
  refine ⟨next, ?_, whole⟩
  rw [swapCells, holds.load iBound, ok_bind, holds.load jBound, ok_bind, first, ok_bind]
  exact second

theorem reverseFrom_holds (z i : Nat) {work : Work size} {list : List UInt8}
    (holds : Holds work list) (start : i ≤ work.resultlen) :
    ∃ next, reverseFrom z work.resultlen i work.result = .ok next ∧
      Holds ⟨next, work.resultlen⟩ (reverseLoop z i list) := by
  induction i generalizing work list with
  | zero => exact ⟨work.result, rfl, holds⟩
  | succ i ih =>
    by_cases more : z ≤ i
    · obtain ⟨swapped, ran, exchanged⟩ := swapCells_holds holds (i := i)
        (j := work.resultlen - i - 1) (by omega) (by omega)
      obtain ⟨next, later, final⟩ := ih exchanged (Nat.le_of_succ_le start)
      refine ⟨next, ?_, ?_⟩
      · rw [reverseFrom, if_pos more, ran, ok_bind]
        exact later
      · rw [reverseLoop, if_pos more, holds.length]
        exact final
    · refine ⟨work.result, ?_, ?_⟩
      · rw [reverseFrom, if_neg more]
      · rw [reverseLoop, if_neg more]
        exact holds

/-- The last loop reverses the bytes below `resultlen`, an odd or an even number of them. -/
theorem reverseCells_holds {work : Work size} {list : List UInt8} (holds : Holds work list) :
    ∃ next, reverseCells work = .ok next ∧ Holds next list.reverse := by
  obtain ⟨result, ran, reversed⟩ := reverseFrom_holds
    (work.resultlen / 2 + work.resultlen % 2) work.resultlen holds le_rfl
  have whole := reverseLoop_reverse list
  rw [holds.length] at whole
  rw [whole] at reversed
  refine ⟨⟨result, work.resultlen⟩, ?_, reversed⟩
  rw [reverseCells, ran, ok_bind]

theorem copyOut_holds {work : Work size} {list : List UInt8} (holds : Holds work list)
    {outsize : Nat} (output : Block outsize) : copyOut work output = .ok (output.write list) := by
  have inside : min work.resultlen outsize ≤ size := (Nat.min_le_left _ _).trans holds.inside
  rw [copyOut, if_pos inside, holds.bytes]

/-! ## The whole function -/

theorem startWork_holds (uninit : Block size) (positive : 0 < size) :
    ∃ work, startWork uninit = .ok work ∧ Holds work [0] := by
  obtain ⟨result, stored, held⟩ := (Block.Begins.empty uninit).append positive 0
  exact ⟨⟨result, 1⟩, by rw [startWork, stored, ok_bind], held⟩

theorem decodeIntoAt_eq (sign : CharSign) (uninit : Block size) (positive : 0 < size)
    (str : List UInt8) {outsize : Nat} (output : Block outsize) :
    decodeIntoAt sign uninit str output = decodeInto sign size str output := by
  obtain ⟨first, started, held⟩ := startWork_holds uninit positive
  rw [decodeIntoAt, decodeInto, started, ok_bind]
  apply Refines.eq
  apply (Refines.foldlM str (fun c _ work list holds => decodeCharAt_refines sign c holds) held).bind
  intro read bytes accumulated
  apply (appendZerosAt_refines str accumulated).bind
  intro padded whole filled
  obtain ⟨reversed, ran, mirrored⟩ := reverseCells_holds filled
  rw [ran, ok_bind, copyOut_holds mirrored, ok_bind, ← mirrored.length]
  simp only [reverseLoop_reverse]
  exact .ok rfl

theorem resultSize_pos {len : Int} {size : Nat} (computed : resultSize len = .ok size) :
    0 < size := by
  unfold resultSize at computed
  split_ifs at computed with overflow empty
  injection computed
  omega

/-- The array run is the list run, whatever the array held before. -/
theorem base58DecodeAt_eq (sign : CharSign) (uninit : (size : Nat) → Block size)
    (input : CString) {outsize : Nat} (output : Block outsize) :
    base58DecodeAt sign uninit input output = base58Decode sign input output := by
  rw [base58DecodeAt, base58Decode]
  cases computed : resultSize (intLength input) with
  | error fault => rw [error_bind, error_bind]
  | ok size =>
    rw [ok_bind, ok_bind]
    exact decodeIntoAt_eq sign (uninit size) (resultSize_pos computed) _ output

end CNear.Base58Array
