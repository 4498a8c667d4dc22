import CNear.Transaction
import Mathlib.Tactic.IntervalCases

/-! The serialized transaction against the node's format. With every growth granted and
every length below 2^32 the buffer is the Borsh encoding of the signed transaction, and the
signature is over the encoding of the transaction in it. With a growth for some byte refused
the buffer is too short to be that, whatever comes after. -/

namespace CNear.TransactionFormat
open Transaction Exchange FallibleAppend LittleEndian

theorem u32Bytes_eq (val : UInt32) : u32Bytes val = fixed 4 val.toNat := by
  have mask : ∀ n : Nat, n &&& 255 = n % 256 := fun n => Nat.and_two_pow_sub_one_eq_mod n 8
  simp only [u32Bytes, fixed, List.cons.injEq, ← UInt8.toNat_inj]
  simp [mask, Nat.shiftRight_eq_div_pow, Nat.div_div_eq_div_mul]

theorem u64Bytes_eq (val : UInt64) : u64Bytes val = fixed 8 val.toNat := by
  have mask : ∀ n : Nat, n &&& 255 = n % 256 := fun n => Nat.and_two_pow_sub_one_eq_mod n 8
  simp only [u64Bytes, fixed, List.cons.injEq, ← UInt8.toNat_inj]
  simp [mask, Nat.shiftRight_eq_div_pow, Nat.div_div_eq_div_mul]

/-- The length is written as it is when it fits. -/
theorem stringField_flatten {str : CString} (short : str.strlen < 0x100000000) :
    (stringField str).flatten = Borsh.string.encode str.bytes := by
  have length : (UInt32.ofNat str.strlen).toNat = str.bytes.length := by
    rw [UInt32.toNat_ofNat']
    exact Nat.mod_eq_of_lt short
  rw [stringField, u32Bytes_eq, length, Borsh.string_encode]
  simp

theorem stringField_length (str : CString) :
    (stringField str).flatten.length = 4 + str.bytes.length := by
  simp [stringField, u32Bytes_eq, fixed_length]

/-! ## The transaction a node should read -/

def plainCall (action : NearAction) : Borsh.FunctionCall :=
  { methodName := action.methodName.bytes
    args := action.args.bytes
    gas := action.gas.toNat
    deposit := action.deposit.toNat }

def plain (signerId : CString) (nearTx : NearTransaction) : Borsh.Transaction :=
  { signerId := signerId.bytes
    publicKey := nearTx.publicKey.bytes
    nonce := nearTx.nonce.toNat
    receiverId := nearTx.receiverId.bytes
    blockHash := nearTx.blockHash.bytes
    actions := [plainCall nearTx.actions] }

/-- All four strings have a length that fits in 32 bits. -/
structure Short (signerId : CString) (nearTx : NearTransaction) : Prop where
  signer : signerId.strlen < 0x100000000
  receiver : nearTx.receiverId.strlen < 0x100000000
  method : nearTx.actions.methodName.strlen < 0x100000000
  args : nearTx.actions.args.strlen < 0x100000000

theorem plain_fits {signerId : CString} {nearTx : NearTransaction} :
    Borsh.transaction.Fits (plain signerId nearTx) ↔ Short signerId nearTx := by
  have nonce : nearTx.nonce.toNat < 256 ^ 8 := nearTx.nonce.toNat_lt
  have gas : nearTx.actions.gas.toNat < 256 ^ 8 := nearTx.actions.gas.toNat_lt
  have deposit : nearTx.actions.deposit.toNat < 256 ^ 16 :=
    Nat.lt_trans nearTx.actions.deposit.toNat_lt (by decide)
  constructor
  · intro canonical
    obtain ⟨signer, -, -, receiver, -, -, actions⟩ := canonical
    obtain ⟨-, method, args, -, -⟩ := actions (plainCall nearTx.actions) List.mem_cons_self
    exact ⟨signer, receiver, method, args⟩
  · intro short
    obtain ⟨signer, receiver, method, args⟩ := short
    refine ⟨signer, ⟨trivial, nearTx.publicKey.length_eq⟩, nonce, receiver,
      nearTx.blockHash.length_eq, Nat.one_lt_pow (by decide) (by decide), ?_⟩
    intro call member
    obtain rfl : call = plainCall nearTx.actions := List.mem_singleton.mp member
    exact ⟨trivial, method, args, gas, deposit⟩

def signed (lib : Library) (privateKey : Block 64) (publicKey : Block 32) (signerId : CString)
    (nearTx : NearTransaction) : Borsh.SignedTransaction :=
  { transaction := plain signerId nearTx
    signature := (lib.ed25519Sign (lib.sha256Raw (Borsh.transaction.encode (plain signerId nearTx)))
      privateKey publicKey).bytes }

/-! ## The fields are the encoding -/

theorem unsigned_flatten {signerId : CString} {nearTx : NearTransaction}
    (ed25519 : nearTx.keyType = nearKeyTypeED25519) (short : Short signerId nearTx) :
    (unsignedFields signerId nearTx).flatten.flatten =
      Borsh.transaction.encode (plain signerId nearTx) := by
  have wide : fixed 16 nearTx.actions.deposit.toNat =
      fixed 8 nearTx.actions.deposit.toNat ++ fixed 8 0 := by
    have bound := nearTx.actions.deposit.toNat_lt
    have zero : nearTx.actions.deposit.toNat / 256 ^ 8 = 0 := Nat.div_eq_of_lt bound
    have split := fixed_add 8 8 nearTx.actions.deposit.toNat
    rwa [zero] at split
  rw [Borsh.transaction_encode]
  simp only [unsignedFields, List.flatten_cons, List.flatten_append, List.flatten_nil,
    stringField_flatten short.signer, stringField_flatten short.receiver,
    stringField_flatten short.method, stringField_flatten short.args, u64Bytes_eq,
    u32Bytes_eq, ed25519, nearKeyTypeED25519, plain, plainCall, List.flatMap_cons, List.flatMap_nil,
    List.length_cons, List.length_nil, Borsh.functionCall_encode, wide, List.append_nil,
    List.append_assoc]
  rfl

theorem unsigned_length (signerId : CString) (nearTx : NearTransaction) :
    (unsignedFields signerId nearTx).flatten.flatten.length =
      (Borsh.transaction.encode (plain signerId nearTx)).length := by
  have key := nearTx.publicKey.length_eq
  have hash := nearTx.blockHash.length_eq
  rw [Borsh.transaction_encode]
  simp only [unsignedFields, List.flatten_cons, List.flatten_append, List.flatten_nil,
    List.length_append, stringField_length, List.flatMap_cons, List.flatMap_nil, plain, plainCall,
    Borsh.functionCall_encode, Borsh.string_encode, fixed_length, List.length_cons,
    List.length_nil, u64Bytes, u32Bytes, key, hash]
  omega

theorem encode_signed_length (lib : Library) (privateKey : Block 64) (publicKey : Block 32)
    (signerId : CString) (nearTx : NearTransaction) :
    (Borsh.signedTransaction.encode (signed lib privateKey publicKey signerId nearTx)).length =
      183 + signerId.strlen + nearTx.receiverId.strlen + nearTx.actions.methodName.strlen +
        nearTx.actions.args.strlen := by
  have key := nearTx.publicKey.length_eq
  have hash := nearTx.blockHash.length_eq
  rw [Borsh.signedTransaction_encode, Borsh.transaction_encode]
  simp only [List.length_append, List.flatMap_cons, List.flatMap_nil, signed, plain, plainCall,
    Borsh.functionCall_encode, Borsh.string_encode, fixed_length, List.length_cons,
    List.length_nil, key, hash, Block.length_eq, CString.strlen]
  omega

/-! ## The signed buffer -/

/-- The buffer before the signature. -/
def unsignedSerial (malloced : UInt8) (answers : Answers) (signerId : CString)
    (nearTx : NearTransaction) : Serial :=
  ((serializeFields signerId nearTx).run ⟨.malloc malloced, answers⟩).2

/-- The bytes after `sign_transaction`. -/
def signedBlob (lib : Library) (privateKey : Block 64) (publicKey : Block 32) (serial : Serial) :
    List UInt8 :=
  ((signTransaction lib privateKey publicKey).run serial).2.memBuf.data

/-- The node reads all fields of the transaction, nothing else, and the signature over the
encoding of them. -/
def Complete (lib : Library) (privateKey : Block 64) (publicKey : Block 32) (signerId : CString)
    (nearTx : NearTransaction) (blob : List UInt8) : Prop :=
  Borsh.signedTransaction.decode blob =
    some (signed lib privateKey publicKey signerId nearTx, [])

/-- Of the 19 growths none is refused, but for those that were to take the body of an empty
string. -/
structure Uninterrupted (signerId : CString) (nearTx : NearTransaction) (answers : Answers) :
    Prop where
  signer : answers 1 = true ∨ signerId.bytes = []
  receiver : answers 6 = true ∨ nearTx.receiverId.bytes = []
  method : answers 11 = true ∨ nearTx.actions.methodName.bytes = []
  args : answers 13 = true ∨ nearTx.actions.args.bytes = []
  others : ∀ i < 19, i ∉ [1, 6, 11, 13] → answers i = true

theorem uninterrupted_iff (signerId : CString) (nearTx : NearTransaction) (answers : Answers) :
    Uninterrupted signerId nearTx answers ↔
      Granted (unsignedFields signerId nearTx).flatten answers ∧ (answers.drop 17).Grants 2 := by
  have key := nearTx.publicKey.bytes_ne_nil (by decide)
  have hash := nearTx.blockHash.bytes_ne_nil (by decide)
  simp only [unsignedFields, stringField, List.flatten_cons, List.flatten_nil, List.cons_append,
    List.nil_append, granted_cons, granted_nil, Answers.drop_apply, Answers.drop_drop, u32Bytes,
    u64Bytes, key, hash, reduceCtorEq, or_false, and_true, Nat.reduceAdd]
  constructor
  · rintro ⟨signer, receiver, method, args, others⟩
    refine ⟨⟨?_, signer, ?_, ?_, ?_, ?_, receiver, ?_, ?_, ?_, ?_, method, ?_, args, ?_, ?_, ?_⟩, ?_⟩
    case refine_14 =>
      intro i bound
      exact others (17 + i) (by omega) (by simp; omega)
    all_goals exact others _ (by decide) (by decide)
  · rintro ⟨⟨a0, a1, a2, a3, a4, a5, a6, a7, a8, a9, a10, a11, a12, a13, a14, a15, a16⟩, last⟩
    have a17 : answers 17 = true := last 0 (by decide)
    have a18 : answers 18 = true := last 1 (by decide)
    refine ⟨a1, a6, a11, a13, ?_⟩
    intro i bound other
    interval_cases i <;> first | assumption | simp at other

theorem unsigned_count (signerId : CString) (nearTx : NearTransaction) :
    (unsignedFields signerId nearTx).flatten.length = 17 := rfl

theorem view_unsignedSerial (malloced : UInt8) (answers : Answers) (signerId : CString)
    (nearTx : NearTransaction) :
    view (unsignedSerial malloced answers signerId nearTx) =
      putFields (unsignedFields signerId nearTx) ⟨[], answers⟩ :=
  appends_serializeFields signerId nearTx ⟨.malloc malloced, answers⟩

theorem view_signTransaction (lib : Library) (privateKey : Block 64) (publicKey : Block 32)
    (serial : Serial) :
    view ((signTransaction lib privateKey publicKey).run serial).2 =
      putFields (signatureFields (txSig lib privateKey publicKey serial.memBuf).bytes)
        (view serial) := by
  have appends := (appends_enum nearKeyTypeED25519).bind fun _ =>
    (appends_bytes (txSig lib privateKey publicKey serial.memBuf).bytes).map fun _ => ()
  exact appends serial

theorem granted_signature {sig : List UInt8} (nonempty : sig ≠ []) (answers : Answers) :
    Granted (signatureFields sig).flatten answers ↔ answers.Grants 2 := by
  have two : answers.Grants 2 ↔ answers 0 = true ∧ answers 1 = true := by
    constructor
    · intro grants
      exact ⟨grants 0 (by decide), grants 1 (by decide)⟩
    · rintro ⟨first, second⟩ i bound
      rcases Nat.lt_or_ge i 1 with early | late
      · obtain rfl : i = 0 := by omega
        exact first
      · obtain rfl : i = 1 := by omega
        exact second
  simp [signatureFields, granted_cons, granted_nil, nonempty, two]

theorem signatureFields_length (sig : Block 64) :
    (signatureFields sig.bytes).flatten.flatten.length = 65 := by
  simp [signatureFields, sig.length_eq]

/-- With the growths for the fields granted the buffer holds the encoding. -/
theorem unsigned_granted {signerId : CString} {nearTx : NearTransaction} {answers : Answers}
    (granted : Granted (unsignedFields signerId nearTx).flatten answers) (malloced : UInt8) :
    view (unsignedSerial malloced answers signerId nearTx) =
      ⟨(unsignedFields signerId nearTx).flatten.flatten, answers.drop 17⟩ := by
  rw [view_unsignedSerial, putFields_granted granted, unsigned_count, List.nil_append]

theorem signedBlob_eq (lib : Library) (privateKey : Block 64) (publicKey : Block 32)
    (serial : Serial) :
    signedBlob lib privateKey publicKey serial =
      (putFields (signatureFields (txSig lib privateKey publicKey serial.memBuf).bytes)
        (view serial)).data :=
  congrArg Store.data (view_signTransaction lib privateKey publicKey serial)

theorem complete_iff_encode (lib : Library) (privateKey : Block 64) (publicKey : Block 32)
    (signerId : CString) (nearTx : NearTransaction) (blob : List UInt8) :
    Complete lib privateKey publicKey signerId nearTx blob ↔
      Short signerId nearTx ∧ blob =
        Borsh.signedTransaction.encode (signed lib privateKey publicKey signerId nearTx) := by
  constructor
  · intro complete
    obtain ⟨⟨fits, -⟩, same⟩ := Borsh.signedTransaction.eq_encode_of_decode_nil complete
    exact ⟨plain_fits.mp fits, same⟩
  · intro whole
    obtain ⟨short, same⟩ := whole
    rw [Complete, same]
    exact Borsh.signedTransaction.decode_encode_self _
      ⟨plain_fits.mpr short, trivial, Block.length_eq _⟩

theorem signedBlob_granted (lib : Library) (privateKey : Block 64) (publicKey : Block 32)
    {signerId : CString} {nearTx : NearTransaction} {answers : Answers}
    (ed25519 : nearTx.keyType = nearKeyTypeED25519) (short : Short signerId nearTx)
    (granted : Uninterrupted signerId nearTx answers) (malloced : UInt8) :
    (unsignedSerial malloced answers signerId nearTx).memBuf.data =
        Borsh.transaction.encode (plain signerId nearTx) ∧
      signedBlob lib privateKey publicKey (unsignedSerial malloced answers signerId nearTx) =
        Borsh.signedTransaction.encode (signed lib privateKey publicKey signerId nearTx) := by
  obtain ⟨fields, signature⟩ := (uninterrupted_iff signerId nearTx answers).mp granted
  have held := unsigned_granted fields malloced
  rw [unsigned_flatten ed25519 short] at held
  have data : (unsignedSerial malloced answers signerId nearTx).memBuf.data =
      Borsh.transaction.encode (plain signerId nearTx) := congrArg Store.data held
  refine ⟨data, ?_⟩
  have rest := (granted_signature ((txSig lib privateKey publicKey
    (unsignedSerial malloced answers signerId nearTx).memBuf).bytes_ne_nil (by decide))
      (answers.drop 17)).mpr signature
  rw [signedBlob_eq, held, putFields_granted rest, Borsh.signedTransaction_encode, txSig, data]
  simp [signatureFields, signed, nearKeyTypeED25519]

/-- The encoding is as long as all the pieces. -/
theorem encode_length_pieces (lib : Library) (privateKey : Block 64) (publicKey : Block 32)
    (signerId : CString) (nearTx : NearTransaction) :
    (Borsh.signedTransaction.encode (signed lib privateKey publicKey signerId nearTx)).length =
      (unsignedFields signerId nearTx).flatten.flatten.length + 65 := by
  rw [Borsh.signedTransaction_encode, unsigned_length, List.length_append, List.length_append,
    signed, Block.length_eq]
  rfl

theorem signedBlob_length_le (lib : Library) (privateKey : Block 64) (publicKey : Block 32)
    (malloced : UInt8) (answers : Answers) (signerId : CString) (nearTx : NearTransaction) :
    (signedBlob lib privateKey publicKey
        (unsignedSerial malloced answers signerId nearTx)).length ≤
      (Borsh.signedTransaction.encode (signed lib privateKey publicKey signerId nearTx)).length := by
  have places := signatureFields_length (txSig lib privateKey publicKey
    (unsignedSerial malloced answers signerId nearTx).memBuf)
  have more := putFields_length_le (signatureFields (txSig lib privateKey publicKey
    (unsignedSerial malloced answers signerId nearTx).memBuf).bytes)
      (view (unsignedSerial malloced answers signerId nearTx))
  have first := putFields_length_le (unsignedFields signerId nearTx) ⟨[], answers⟩
  rw [← view_unsignedSerial malloced, List.length_nil, Nat.zero_add] at first
  rw [places] at more
  rw [encode_length_pieces, signedBlob_eq]
  omega

/-- One refused growth for some byte, and the buffer stays shorter than the encoding. -/
theorem signedBlob_refused (lib : Library) (privateKey : Block 64) (publicKey : Block 32)
    {signerId : CString} {nearTx : NearTransaction} {answers : Answers}
    (refused : ¬ Uninterrupted signerId nearTx answers) (malloced : UInt8) :
    (signedBlob lib privateKey publicKey
        (unsignedSerial malloced answers signerId nearTx)).length <
      (Borsh.signedTransaction.encode (signed lib privateKey publicKey signerId nearTx)).length := by
  have places := signatureFields_length (txSig lib privateKey publicKey
    (unsignedSerial malloced answers signerId nearTx).memBuf)
  rw [encode_length_pieces, signedBlob_eq]
  by_cases fields : Granted (unsignedFields signerId nearTx).flatten answers
  · have short : ¬ Granted (signatureFields (txSig lib privateKey publicKey
        (unsignedSerial malloced answers signerId nearTx).memBuf).bytes).flatten
          (answers.drop 17) := by
      rw [granted_signature (Block.bytes_ne_nil (by decide) _)]
      exact fun signature =>
        refused ((uninterrupted_iff signerId nearTx answers).mpr ⟨fields, signature⟩)
    have less : (putFields _ ⟨(unsignedFields signerId nearTx).flatten.flatten,
        answers.drop 17⟩).data.length < _ := putFields_refused short
    rw [unsigned_granted fields malloced]
    rw [places] at less
    exact less
  · have less : (putFields _ ⟨[], answers⟩).data.length < _ := putFields_refused fields
    have more := putFields_length_le (signatureFields (txSig lib privateKey publicKey
      (unsignedSerial malloced answers signerId nearTx).memBuf).bytes)
        (view (unsignedSerial malloced answers signerId nearTx))
    rw [← view_unsignedSerial malloced, List.length_nil, Nat.zero_add] at less
    rw [places] at more
    omega

/-- The posted bytes are complete exactly when all lengths fit and no growth for a byte was
refused. -/
theorem signedBlob_complete_iff (lib : Library) (privateKey : Block 64) (publicKey : Block 32)
    {signerId : CString} {nearTx : NearTransaction}
    (ed25519 : nearTx.keyType = nearKeyTypeED25519) (malloced : UInt8) (answers : Answers) :
    Complete lib privateKey publicKey signerId nearTx
        (signedBlob lib privateKey publicKey
          (unsignedSerial malloced answers signerId nearTx)) ↔
      Short signerId nearTx ∧ Uninterrupted signerId nearTx answers := by
  rw [complete_iff_encode]
  constructor
  · intro whole
    obtain ⟨short, same⟩ := whole
    refine ⟨short, ?_⟩
    by_contra refused
    have less := signedBlob_refused lib privateKey publicKey refused malloced
    rw [same] at less
    exact Nat.lt_irrefl _ less
  · intro condition
    obtain ⟨short, granted⟩ := condition
    exact ⟨short, (signedBlob_granted lib privateKey publicKey ed25519 short granted malloced).2⟩

theorem uninterrupted_of_granted {answers : Answers} (granted : ∀ i, answers i = true)
    (signerId : CString) (nearTx : NearTransaction) : Uninterrupted signerId nearTx answers where
  signer := Or.inl (granted 1)
  receiver := Or.inl (granted 6)
  method := Or.inl (granted 11)
  args := Or.inl (granted 13)
  others := fun i _ _ => granted i

/-- The node reads back what was serialized and signed, to the last byte, and the signature
is over exactly the bytes of the transaction in it. -/
theorem signedTransaction_readBack (lib : Library) (privateKey : Block 64) (publicKey : Block 32)
    (malloced : UInt8) (answers : Answers) {nearTx : NearTransaction} {signerId : CString}
    (signer : nearTx.signerId = some signerId) (ed25519 : nearTx.keyType = nearKeyTypeED25519)
    (short : Short signerId nearTx) (granted : ∀ i, answers i = true) :
    ∃ serial, serializeTransaction malloced answers nearTx = .ok serial ∧
      serial.memBuf.data = Borsh.transaction.encode (plain signerId nearTx) ∧
      Borsh.signedTransaction.decode (signedBlob lib privateKey publicKey serial) =
        some ({
          transaction := {
            signerId := signerId.bytes
            publicKey := nearTx.publicKey.bytes
            nonce := nearTx.nonce.toNat
            receiverId := nearTx.receiverId.bytes
            blockHash := nearTx.blockHash.bytes
            actions := [{
              methodName := nearTx.actions.methodName.bytes
              args := nearTx.actions.args.bytes
              gas := nearTx.actions.gas.toNat
              deposit := nearTx.actions.deposit.toNat }] }
          signature :=
            (lib.ed25519Sign (lib.sha256Raw serial.memBuf.data) privateKey publicKey).bytes }, []) := by
  have uninterrupted := uninterrupted_of_granted granted signerId nearTx
  obtain ⟨unsigned, -⟩ :=
    signedBlob_granted lib privateKey publicKey ed25519 short uninterrupted malloced
  have complete := (signedBlob_complete_iff lib privateKey publicKey ed25519 malloced answers).mpr
    ⟨short, uninterrupted⟩
  refine ⟨unsignedSerial malloced answers signerId nearTx, ?_, unsigned, ?_⟩
  · rw [serializeTransaction, signer]
    rfl
  · rw [unsigned]
    exact complete

/-- A library of which nothing but its existence matters. -/
def idleLibrary : Library :=
  { charSign := .signed
    sizeT := .bits64
    cJSONParse := fun _ => none
    cJSONPrint := fun _ => none
    sha256Raw := fun _ => Block.replicate 32 0
    ed25519Sign := fun _ _ _ => Block.replicate 64 0 }

def greeting : NearTransaction :=
  { signerId := some (.lit "alice.near")
    keyType := nearKeyTypeED25519
    publicKey := Block.replicate 32 7
    nonce := 1
    receiverId := .lit "guest-book.near"
    blockHash := Block.replicate 32 9
    actions :=
      { methodName := .lit "add_message"
        args := .lit "\x7b\"text\":\"hello\"\x7d"
        gas := 100000000000000
        deposit := 0 } }

theorem greeting_readBack :
    ∃ serial, serializeTransaction 0 (fun _ => true) greeting = .ok serial ∧
      serial.memBuf.data = Borsh.transaction.encode (plain (.lit "alice.near") greeting) ∧
      Borsh.signedTransaction.decode
          (signedBlob idleLibrary (Block.replicate 64 3) (Block.replicate 32 7) serial) =
        some ({
          transaction := {
            signerId := ascii "alice.near"
            publicKey := List.replicate 32 7
            nonce := 1
            receiverId := ascii "guest-book.near"
            blockHash := List.replicate 32 9
            actions := [{
              methodName := ascii "add_message"
              args := ascii "\x7b\"text\":\"hello\"\x7d"
              gas := 100000000000000
              deposit := 0 }] }
          signature := List.replicate 64 0 }, []) :=
  signedTransaction_readBack idleLibrary (Block.replicate 64 3) (Block.replicate 32 7) 0
    (fun _ => true) rfl rfl ⟨by decide, by decide, by decide, by decide⟩ (fun _ => rfl)

end CNear.TransactionFormat
