import CNear.Base58Decode
import CNear.Buffer
import CNear.CJson

/-! `exec_curl_rpc_call`: one request and its reply. The reply goes to the JSON reader as the
NUL-terminated string that the buffer is taken to be. It is that string for every way to cut
a body into chunks, except that a buffer no callback wrote to has no terminator and a refused
growth for an empty chunk is not noticed. -/

namespace CNear.Exchange
open Buffer CJson

/-- The width of `size_t`. -/
inductive SizeT where
  | bits32
  | bits64
  deriving DecidableEq

/-- `size_t` counts modulo this. -/
def SizeT.wrap : SizeT → Nat
  | .bits32 => 0x100000000
  | .bits64 => 0x10000000000000000

/-- The code around the client, and the two choices that the platform makes. -/
structure Library where
  charSign : Base58.CharSign
  sizeT : SizeT
  cJSONParse : CString → Option Json
  cJSONPrint : Json → Option CString
  sha256Raw : List UInt8 → Block 32
  ed25519Sign : Block 32 → Block 64 → Block 32 → Block 64

def curleUrlMalformat : Int := 3

/-- Without a URL `curl_easy_perform` gives up before it sends anything. -/
def perform (url : Option CString) (transfer : Transfer) : Int × CurlMemory :=
  match url with
  | none => (curleUrlMalformat, .malloc transfer.malloced)
  | some _ => curlEasyPerform transfer

inductive Received where
  | noHandle
  | failed (ret : Int)
  | reply (chunk : CurlMemory)
  deriving DecidableEq

/-- Up to the call of `cJSON_Parse`. -/
def receive (url : Option CString) (transfer : Transfer) : Received :=
  if transfer.easyInit then
    let (ret, chunk) := perform url transfer
    if ret ≠ curleOk then .failed ret else .reply chunk
  else .noHandle

/-- The member `result`, or else the member `error`. -/
def resultOrError (json : Option Json) : Option Json :=
  match detachItemFromObjectCaseSensitive json (.lit "result") with
  | some res => some res
  | none => detachItemFromObjectCaseSensitive json (.lit "error")

/-- What a call leaves: the request that went out, the return code and the result. -/
structure Outcome where
  posted : Option Json
  retCode : Int
  res : Option Json

def execCurlRpcCall (lib : Library) (url : Option CString) (data : Json) (transfer : Transfer)
    (retCode : Int) : Except Fault Outcome :=
  match receive url transfer with
  | .noHandle => .ok ⟨none, retCode, none⟩
  | .failed ret => .ok ⟨url.map fun _ => data, ret, none⟩
  | .reply chunk => do
      let text ← CString.ofBlock chunk.memory
      .ok ⟨url.map fun _ => data, transfer.responseCode, resultOrError (lib.cJSONParse text)⟩

/-- What goes out is the request, given a handle and a URL. -/
theorem exec_posted {lib : Library} {url : Option CString} {data : Json} {transfer : Transfer}
    {retCode : Int} {outcome : Outcome}
    (ran : execCurlRpcCall lib url data transfer retCode = .ok outcome) :
    outcome.posted = if transfer.easyInit then url.map fun _ => data else none := by
  unfold execCurlRpcCall receive at ran
  cases handle : transfer.easyInit with
  | false =>
    simp only [handle, Bool.false_eq_true, ↓reduceIte, Except.ok.injEq] at ran
    rw [← ran]
    rfl
  | true =>
    simp only [handle, ↓reduceIte] at ran
    split at ran
    · rename_i found
      split at found <;> cases found
    · cases ran
      rfl
    · obtain ⟨text, -, same⟩ := bind_eq_ok.mp ran
      cases same
      rfl

/-! ## The reply and its chunks -/

/-- There is a URL, and apart from the write callback nothing fails. -/
def Completes (url : Option CString) (transfer : Transfer) : Prop :=
  url ≠ none ∧ transfer.easyInit = true ∧ transfer.ended = curleOk

/-- With every callback granted the reader gets exactly the body and a terminator; with one
refused the bytes so far stay, nothing is read and the result is `NULL`. -/
structure ChunkingIrrelevant (url : Option CString) (transfer : Transfer) : Prop where
  exact : Completes url transfer → (∀ chunk ∈ transfer.chunks, chunk.granted = true) →
    ∃ buffer, receive url transfer = .reply buffer ∧ buffer.memory = transfer.body ++ [0] ∧
      buffer.size = transfer.body.length
  kept : ∀ chunk ∈ transfer.chunks, chunk.granted = false →
    ∀ mem, (curlWriteMemory chunk.granted chunk.contents mem).2 = mem
  unread : (∃ chunk ∈ transfer.chunks, chunk.granted = false) →
    (∀ buffer, receive url transfer ≠ .reply buffer) ∧
      ∀ lib data retCode, ∃ outcome, execCurlRpcCall lib url data transfer retCode = .ok outcome ∧
        outcome.res = none

/-- Some callback wrote a terminator, or `malloc` returned one. -/
def Terminated (transfer : Transfer) : Prop := transfer.chunks ≠ [] ∨ transfer.malloced = 0

/-- A refused callback, if there is one, was for a chunk that is not empty. -/
def RefusalNoticed (transfer : Transfer) : Prop :=
  (∃ chunk ∈ transfer.chunks, chunk.granted = false) → ∃ chunk ∈ transfer.chunks, Noticed chunk

theorem receive_reply_completes {url : Option CString} {transfer : Transfer} {buffer : CurlMemory}
    (got : receive url transfer = .reply buffer) :
    url ≠ none ∧ transfer.easyInit = true ∧ curlEasyPerform transfer = (curleOk, buffer) := by
  unfold receive at got
  split at got
  · rename_i handle
    cases url with
    | none =>
      change Received.failed curleUrlMalformat = .reply buffer at got
      cases got
    | some address =>
      change (if (curlEasyPerform transfer).1 ≠ curleOk then
        Received.failed (curlEasyPerform transfer).1
        else .reply (curlEasyPerform transfer).2) = .reply buffer at got
      split at got
      · cases got
      · rename_i fine
        refine ⟨by simp, handle, ?_⟩
        exact Prod.ext (not_not.mp fine) (Received.reply.inj got)
  · cases got

theorem receive_of_perform {url : Option CString} {transfer : Transfer} {buffer : CurlMemory}
    (address : url ≠ none) (handle : transfer.easyInit = true)
    (ran : curlEasyPerform transfer = (curleOk, buffer)) :
    receive url transfer = .reply buffer := by
  cases url with
  | none => exact absurd rfl address
  | some address => simp [receive, handle, perform, ran]

/-- Without a buffer to read the call returns `NULL`. -/
theorem exec_without_reply {url : Option CString} {transfer : Transfer}
    (nothing : ∀ buffer, receive url transfer ≠ .reply buffer) (lib : Library) (data : Json)
    (retCode : Int) :
    ∃ outcome, execCurlRpcCall lib url data transfer retCode = .ok outcome ∧ outcome.res = none := by
  unfold execCurlRpcCall
  cases got : receive url transfer with
  | noHandle => exact ⟨_, rfl, rfl⟩
  | failed ret => exact ⟨_, rfl, rfl⟩
  | reply buffer => exact absurd got (nothing buffer)

theorem curlEasyPerform_noticed {transfer : Transfer}
    (noticed : ∃ chunk ∈ transfer.chunks, Noticed chunk) :
    (curlEasyPerform transfer).1 = curleWriteError := by
  rcases first_noticed transfer.chunks with quiet | ⟨before, chunk, after, split, quiet, first⟩
  · obtain ⟨chunk, member, seen⟩ := noticed
    exact absurd seen (quiet chunk member)
  · rw [curlEasyPerform, split, writeChunks_append _ quiet, writeChunks_noticed _ first]

theorem not_reply_of_noticed {transfer : Transfer}
    (noticed : ∃ chunk ∈ transfer.chunks, Noticed chunk) (url : Option CString)
    (buffer : CurlMemory) : receive url transfer ≠ .reply buffer := by
  intro got
  obtain ⟨-, -, ran⟩ := receive_reply_completes got
  have code := curlEasyPerform_noticed noticed
  have different : curleOk ≠ curleWriteError := by decide
  rw [ran] at code
  exact different code

theorem receive_unnoticed {url : Option CString} {transfer : Transfer}
    (completes : Completes url transfer) (quiet : ∀ chunk ∈ transfer.chunks, ¬ Noticed chunk) :
    receive url transfer = .reply (gathered (.malloc transfer.malloced) transfer.chunks) := by
  obtain ⟨address, handle, ended⟩ := completes
  apply receive_of_perform address handle
  rw [curlEasyPerform, writeChunks_unnoticed _ quiet, ended]

theorem quiet_of_granted {chunks : List Chunk} (all : ∀ chunk ∈ chunks, chunk.granted = true) :
    ∀ chunk ∈ chunks, ¬ Noticed chunk := by
  rintro chunk member ⟨refused, -⟩
  rw [all chunk member] at refused
  cases refused

theorem completes_of_reply {url : Option CString} {transfer : Transfer} {buffer : CurlMemory}
    (got : receive url transfer = .reply buffer) : Completes url transfer := by
  obtain ⟨address, handle, ran⟩ := receive_reply_completes got
  by_cases noticed : ∃ chunk ∈ transfer.chunks, Noticed chunk
  · exact absurd got (not_reply_of_noticed noticed url buffer)
  · have quiet : ∀ chunk ∈ transfer.chunks, ¬ Noticed chunk := fun chunk member seen =>
      noticed ⟨chunk, member, seen⟩
    rw [curlEasyPerform, writeChunks_unnoticed _ quiet] at ran
    exact ⟨address, handle, congrArg Prod.fst ran⟩

/-- How a body is cut into chunks and which growths are refused makes no difference exactly
when the buffer is terminated and a refusal is noticed, or the transfer fails anyway. -/
theorem chunkingIrrelevant_iff (url : Option CString) (transfer : Transfer) :
    ChunkingIrrelevant url transfer ↔
      (Completes url transfer → Terminated transfer ∧ RefusalNoticed transfer) := by
  constructor
  · intro irrelevant completes
    constructor
    · by_cases silent : transfer.chunks = []
      · right
        have all : ∀ chunk ∈ transfer.chunks, chunk.granted = true := by simp [silent]
        obtain ⟨buffer, got, memory, -⟩ := irrelevant.exact completes all
        rw [receive_unnoticed completes (quiet_of_granted all)] at got
        have same := congrArg CurlMemory.memory (Received.reply.inj got)
        rw [memory, Transfer.body, silent] at same
        simpa [gathered, CurlMemory.malloc] using same
      · exact Or.inl silent
    · intro refused
      by_contra unseen
      have quiet : ∀ chunk ∈ transfer.chunks, ¬ Noticed chunk := fun chunk member seen =>
        unseen ⟨chunk, member, seen⟩
      exact (irrelevant.unread refused).1 _ (receive_unnoticed completes quiet)
  · intro condition
    refine ⟨?_, ?_, ?_⟩
    · intro completes all
      obtain ⟨terminated, -⟩ := condition completes
      have got := receive_unnoticed completes (quiet_of_granted all)
      refine ⟨_, got, ?_⟩
      by_cases silent : transfer.chunks = []
      · have zero : transfer.malloced = 0 := terminated.resolve_left (not_not.mpr silent)
        simp [silent, zero, gathered, CurlMemory.malloc, Transfer.body]
      · rw [gathered_granted all silent]
        exact ⟨rfl, rfl⟩
    · intro chunk member refused mem
      rw [refused, curlWriteMemory_refused]
    · intro refused
      have nothing : ∀ buffer, receive url transfer ≠ .reply buffer := by
        intro buffer got
        have noticed := (condition (completes_of_reply got)).2 refused
        exact not_reply_of_noticed noticed url buffer got
      exact ⟨nothing, exec_without_reply nothing⟩

/-- An empty reply, no callback, and a byte from `malloc` that is not zero. -/
def silentReply : Transfer :=
  { easyInit := true, malloced := 1, chunks := [], ended := curleOk, responseCode := 200 }

theorem silentReply_unterminated :
    ¬ ChunkingIrrelevant (some (.lit "http://localhost")) silentReply := by
  intro irrelevant
  have completes : Completes (some (.lit "http://localhost")) silentReply := ⟨by simp, rfl, rfl⟩
  obtain ⟨buffer, got, memory, -⟩ := irrelevant.exact completes (by simp [silentReply])
  have ran : receive (some (.lit "http://localhost")) silentReply = .reply (.malloc 1) := by decide
  rw [ran] at got
  rw [← Received.reply.inj got] at memory
  exact absurd memory (by decide)

end CNear.Exchange
