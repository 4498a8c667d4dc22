import CNear.Lib.ByteCodec

/-! The format that a NEAR node reads: Borsh of `SignedTransaction`, with function calls as
the only kind of action and ED25519 as the only kind of key. -/

namespace CNear.Borsh
open ByteCodec

structure FunctionCall where
  methodName : List UInt8
  args : List UInt8
  gas : Nat
  deposit : Nat
  deriving DecidableEq

structure Transaction where
  signerId : List UInt8
  publicKey : List UInt8
  nonce : Nat
  receiverId : List UInt8
  blockHash : List UInt8
  actions : List FunctionCall
  deriving DecidableEq

structure SignedTransaction where
  transaction : Transaction
  signature : List UInt8
  deriving DecidableEq

def functionCallView :
    List UInt8 × List UInt8 × Nat × Nat ≃ FunctionCall where
  toFun := fun (methodName, args, gas, deposit) => ⟨methodName, args, gas, deposit⟩
  invFun := fun call => (call.methodName, call.args, call.gas, call.deposit)
  left_inv := fun _ => rfl
  right_inv := fun _ => rfl

def transactionView :
    List UInt8 × List UInt8 × Nat × List UInt8 × List UInt8 × List FunctionCall ≃ Transaction where
  toFun := fun (signerId, publicKey, nonce, receiverId, blockHash, actions) =>
    ⟨signerId, publicKey, nonce, receiverId, blockHash, actions⟩
  invFun := fun tx =>
    (tx.signerId, tx.publicKey, tx.nonce, tx.receiverId, tx.blockHash, tx.actions)
  left_inv := fun _ => rfl
  right_inv := fun _ => rfl

def signedView : Transaction × List UInt8 ≃ SignedTransaction where
  toFun := fun (transaction, signature) => ⟨transaction, signature⟩
  invFun := fun signed => (signed.transaction, signed.signature)
  left_inv := fun _ => rfl
  right_inv := fun _ => rfl

/-- A string or a byte vector behind a `u32` length. -/
def string : ByteCodec (List UInt8) := sized 4

/-- Key type 0, then the key. -/
def publicKey : ByteCodec (List UInt8) := tagged 0 (block 32)

/-- Key type 0, then the signature. -/
def signature : ByteCodec (List UInt8) := tagged 0 (block 64)

/-- Action type 2; the deposit is a `u128`. -/
def functionCall : ByteCodec FunctionCall :=
  (tagged 2 (string.pair (string.pair ((word 8).pair (word 16))))).through functionCallView

def transaction : ByteCodec Transaction :=
  (string.pair (publicKey.pair ((word 8).pair (string.pair ((block 32).pair
    (vec 4 functionCall)))))).through transactionView

def signedTransaction : ByteCodec SignedTransaction :=
  (transaction.pair signature).through signedView

/-! ## Encodings written out -/

theorem string_encode (bytes : List UInt8) :
    string.encode bytes = LittleEndian.fixed 4 bytes.length ++ bytes := rfl

theorem functionCall_encode (call : FunctionCall) :
    functionCall.encode call = [2] ++ (string.encode call.methodName ++ (string.encode call.args ++
      (LittleEndian.fixed 8 call.gas ++ LittleEndian.fixed 16 call.deposit))) := rfl

theorem transaction_encode (tx : Transaction) :
    transaction.encode tx = string.encode tx.signerId ++ (([0] ++ tx.publicKey) ++
      (LittleEndian.fixed 8 tx.nonce ++ (string.encode tx.receiverId ++ (tx.blockHash ++
        (LittleEndian.fixed 4 tx.actions.length ++ tx.actions.flatMap functionCall.encode))))) := rfl

theorem signedTransaction_encode (signed : SignedTransaction) :
    signedTransaction.encode signed =
      transaction.encode signed.transaction ++ ([0] ++ signed.signature) := rfl

end CNear.Borsh
