import CNear.Lib.LittleEndian
import CNear.Lib.ByteCodec
import CNear.Lib.Allocator
import CNear.Lib.FallibleAppend
import CNear.Lib.Rfc4648
import CNear.Lib.Runs
import CNear.Lib.Simulation
import CNear.Lib.SignificantDigits
import CNear.Lib.Rounding
import CNear.Memory
import CNear.Base58
import CNear.Base58Decode
import CNear.Base58Loop
import CNear.Base58Conformance
import CNear.Base58Array
import CNear.Base58Accumulation
import CNear.Base58Bounds
import CNear.KeyString
import CNear.Buffer
import CNear.CJson
import CNear.NumberTrip
import CNear.Requests
import CNear.Base64
import CNear.Exchange
import CNear.Base64Buffer
import CNear.Base64Decode
import CNear.Queries
import CNear.Borsh
import CNear.Transaction
import CNear.TransactionFormat
import CNear.Account
import CNear.SendTx
import CNear.AccessKeyReply
import CNear.CallResult
import CNear.PostedBytes
import CNear.Session
import CNear.AccountJson
import CNear.NonceRuns
import CNear.NonceTrip
import CNear.NumberText
import CNear.NumberFormat
import CNear.NumberRecovery
import CNear.Lib.Heap
import CNear.JsonParse
import CNear.JsonStringSafety
import CNear.JsonSafety
import CNear.JsonGrammar
import CNear.JsonStringComplete
import CNear.JsonComplete
import CNear.JsonText
import CNear.JsonPrint
import CNear.JsonPrintSafety
import CNear.JsonRoundTrip
import CNear.NumberTripExact
import CNear.WireText
import CNear.Lib.BlockHash
import CNear.Lib.SecureHash
import CNear.Sha2
import CNear.Sha2Transform
import CNear.Sha2Constants
import CNear.Sha2Stream
import CNear.Sha2Digest
