import CNear.Buffer
import CNear.Exchange
import CNear.Lib.FallibleAppend
import CNear.Borsh

/-! `serialize_transaction` and `sign_transaction`: one append after the other to a growing
buffer. The reports of the appends are combined within a string only, so the serialized
fields are the pieces whose growth was granted. -/

namespace CNear.Transaction
open Buffer Exchange FallibleAppend

structure NearAction where
  methodName : CString
  args : CString
  gas : UInt64
  deposit : UInt64
  deriving DecidableEq

structure NearTransaction where
  signerId : Option CString
  keyType : UInt8
  publicKey : Block 32
  nonce : UInt64
  receiverId : CString
  blockHash : Block 32
  actions : NearAction
  deriving DecidableEq

def nearKeyTypeED25519 : UInt8 := 0

/-- The buffer, and the answers to the calls of `realloc` to come. -/
structure Serial where
  memBuf : CurlMemory
  answers : Answers

def curlWrite (contents : List UInt8) : StateM Serial Nat := fun serial =>
  let written := curlWriteMemory (serial.answers 0) contents serial.memBuf
  (written.1, ⟨written.2, serial.answers.drop 1⟩)

def serializeEnum (val : UInt8) : StateM Serial Bool := do
  let written ← curlWrite [val]
  return written == 1

def u32Bytes (val : UInt32) : List UInt8 :=
  [(val &&& 0xFF).toUInt8, ((val >>> 8) &&& 0xFF).toUInt8, ((val >>> 16) &&& 0xFF).toUInt8,
    ((val >>> 24) &&& 0xFF).toUInt8]

def serializeU32 (val : UInt32) : StateM Serial Bool := do
  let written ← curlWrite (u32Bytes val)
  return written == 4

def u64Bytes (val : UInt64) : List UInt8 :=
  [(val &&& 0xFF).toUInt8, ((val >>> 8) &&& 0xFF).toUInt8, ((val >>> 16) &&& 0xFF).toUInt8,
    ((val >>> 24) &&& 0xFF).toUInt8, ((val >>> 32) &&& 0xFF).toUInt8,
    ((val >>> 40) &&& 0xFF).toUInt8, ((val >>> 48) &&& 0xFF).toUInt8,
    ((val >>> 56) &&& 0xFF).toUInt8]

def serializeU64 (val : UInt64) : StateM Serial Bool := do
  let written ← curlWrite (u64Bytes val)
  return written == 8

def serializeBytes (data : List UInt8) : StateM Serial Bool := do
  let written ← curlWrite data
  return written == data.length

/-- The length is converted from `size_t` to `uint32_t`. -/
def serializeString (str : CString) : StateM Serial Bool := do
  if ← serializeU32 (UInt32.ofNat str.strlen) then serializeBytes str.bytes
  else return false

/-- The appends of `serialize_transaction`; their reports are dropped. -/
def serializeFields (signerId : CString) (nearTx : NearTransaction) : StateM Serial Unit := do
  let _ ← serializeString signerId
  let _ ← serializeEnum nearTx.keyType
  let _ ← serializeBytes nearTx.publicKey.bytes
  let _ ← serializeU64 nearTx.nonce
  let _ ← serializeString nearTx.receiverId
  let _ ← serializeBytes nearTx.blockHash.bytes
  let _ ← serializeU32 1
  let _ ← serializeEnum 2
  let _ ← serializeString nearTx.actions.methodName
  let _ ← serializeString nearTx.actions.args
  let _ ← serializeU64 nearTx.actions.gas
  let _ ← serializeU64 nearTx.actions.deposit
  let _ ← serializeU64 0
  return ()

/-- `strlen` of the signer comes first. -/
def serializeTransaction (malloced : UInt8) (answers : Answers) (nearTx : NearTransaction) :
    Except Fault Serial :=
  match nearTx.signerId with
  | none => .error .nullString
  | some signerId => .ok ((serializeFields signerId nearTx).run ⟨.malloc malloced, answers⟩).2

/-- The signature over what is in the buffer. -/
def txSig (lib : Library) (privateKey : Block 64) (publicKey : Block 32) (txData : CurlMemory) :
    Block 64 :=
  lib.ed25519Sign (lib.sha256Raw txData.data) privateKey publicKey

def signTransaction (lib : Library) (privateKey : Block 64) (publicKey : Block 32) :
    StateM Serial Unit := do
  let serial ← get
  let _ ← serializeEnum nearKeyTypeED25519
  let _ ← serializeBytes (txSig lib privateKey publicKey serial.memBuf).bytes
  return ()

/-! ## Appended pieces -/

/-- The buffer without its terminator. -/
def view (serial : Serial) : Store UInt8 := ⟨serial.memBuf.data, serial.answers⟩

theorem view_curlWrite (contents : List UInt8) (serial : Serial) :
    view ((curlWrite contents).run serial).2 = (put contents (view serial)).2 := by
  change view ⟨(curlWriteMemory (serial.answers 0) contents serial.memBuf).2, _⟩ = _
  cases answer : serial.answers 0 with
  | true =>
    rw [curlWriteMemory_granted]
    simp [view, put, answer]
  | false =>
    rw [curlWriteMemory_refused]
    simp [view, put, answer]

/-- The report of an append is the comparison with the length of the piece. -/
theorem report_curlWrite (contents : List UInt8) (serial : Serial) :
    (((curlWrite contents).run serial).1 == contents.length) = (put contents (view serial)).1 := by
  change ((curlWriteMemory (serial.answers 0) contents serial.memBuf).1 == contents.length) = _
  cases answer : serial.answers 0 with
  | true => simp [curlWriteMemory_granted, view, put, answer]
  | false =>
    rw [curlWriteMemory_refused]
    cases contents <;> simp [view, put, answer]

theorem appends_curlWrite (contents : List UInt8) :
    Appends view (curlWrite contents) [[contents]] := by
  intro serial
  rw [view_curlWrite]
  simp [putFields, putField]

theorem appends_enum (val : UInt8) : Appends view (serializeEnum val) [[[val]]] :=
  (appends_curlWrite [val]).map _

theorem appends_u64 (val : UInt64) : Appends view (serializeU64 val) [[u64Bytes val]] :=
  (appends_curlWrite (u64Bytes val)).map _

theorem appends_u32 (val : UInt32) : Appends view (serializeU32 val) [[u32Bytes val]] :=
  (appends_curlWrite (u32Bytes val)).map _

theorem appends_bytes (data : List UInt8) : Appends view (serializeBytes data) [[data]] :=
  (appends_curlWrite data).map _

/-- A string is one field of two pieces: without its length the body is left out. -/
theorem appends_string (str : CString) :
    Appends view (serializeString str) [[u32Bytes (UInt32.ofNat str.strlen), str.bytes]] := by
  intro serial
  have length := view_curlWrite (u32Bytes (UInt32.ofNat str.strlen)) serial
  have report := report_curlWrite (u32Bytes (UInt32.ofNat str.strlen)) serial
  change view ((if ((curlWrite (u32Bytes (UInt32.ofNat str.strlen))).run serial).1 == 4 then
    serializeBytes str.bytes else pure false).run _).2 = _
  change (((curlWrite (u32Bytes (UInt32.ofNat str.strlen))).run serial).1 == 4) = _ at report
  rw [report]
  simp only [putFields, List.foldl_cons, List.foldl_nil, putField]
  cases written : (put (u32Bytes (UInt32.ofNat str.strlen)) (view serial)).1 with
  | true =>
    have body := appends_bytes str.bytes
      ((curlWrite (u32Bytes (UInt32.ofNat str.strlen))).run serial).2
    rw [length] at body
    simp only [putFields, List.foldl_cons, List.foldl_nil, putField, ite_self] at body
    simp only [↓reduceIte, ite_self]
    exact body
  | false => exact length

def stringField (str : CString) : List (List UInt8) :=
  [u32Bytes (UInt32.ofNat str.strlen), str.bytes]

def unsignedFields (signerId : CString) (nearTx : NearTransaction) : List (List (List UInt8)) :=
  [stringField signerId, [[nearTx.keyType]], [nearTx.publicKey.bytes], [u64Bytes nearTx.nonce],
    stringField nearTx.receiverId, [nearTx.blockHash.bytes], [u32Bytes 1], [[2]],
    stringField nearTx.actions.methodName, stringField nearTx.actions.args,
    [u64Bytes nearTx.actions.gas], [u64Bytes nearTx.actions.deposit], [u64Bytes 0]]

def signatureFields (sig : List UInt8) : List (List (List UInt8)) :=
  [[[nearKeyTypeED25519]], [sig]]

theorem appends_serializeFields (signerId : CString) (nearTx : NearTransaction) :
    Appends view (serializeFields signerId nearTx) (unsignedFields signerId nearTx) := by
  apply (appends_string signerId).bind; intro _
  apply (appends_enum nearTx.keyType).bind; intro _
  apply (appends_bytes nearTx.publicKey.bytes).bind; intro _
  apply (appends_u64 nearTx.nonce).bind; intro _
  apply (appends_string nearTx.receiverId).bind; intro _
  apply (appends_bytes nearTx.blockHash.bytes).bind; intro _
  apply (appends_u32 1).bind; intro _
  apply (appends_enum 2).bind; intro _
  apply (appends_string nearTx.actions.methodName).bind; intro _
  apply (appends_string nearTx.actions.args).bind; intro _
  apply (appends_u64 nearTx.actions.gas).bind; intro _
  apply (appends_u64 nearTx.actions.deposit).bind; intro _
  exact (appends_u64 0).map _

end CNear.Transaction
