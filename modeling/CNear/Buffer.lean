import CNear.Memory

/-! `curl_memory_t`, the growing buffer behind both the replies and the serialized
transaction. Its block always has one byte more than `size`, for the terminator that
`curl_write_memory` writes; the first block comes from `malloc(1)` and holds any byte. -/

namespace CNear.Buffer

structure CurlMemory where
  memory : List UInt8
  size : Nat
  room : memory.length = size + 1
  deriving DecidableEq

namespace CurlMemory

/-- `malloc(1)`, with the byte it happens to hold. -/
def malloc (byte : UInt8) : CurlMemory := ⟨[byte], 0, rfl⟩

/-- The bytes written so far. -/
def data (mem : CurlMemory) : List UInt8 := mem.memory.take mem.size

/-- A buffer that was written to. -/
def holding (bytes : List UInt8) : CurlMemory := ⟨bytes ++ [0], bytes.length, by simp⟩

@[simp] theorem data_malloc (byte : UInt8) : (malloc byte).data = [] := rfl

@[simp] theorem data_holding (bytes : List UInt8) : (holding bytes).data = bytes := by
  simp [data, holding]

end CurlMemory

/-- The answer of `realloc` comes from outside. Where it is refused the buffer stays. -/
def curlWriteMemory (granted : Bool) (contents : List UInt8) (mem : CurlMemory) : Nat × CurlMemory :=
  if granted then (contents.length, .holding (mem.data ++ contents))
  else (0, mem)

theorem curlWriteMemory_granted (contents : List UInt8) (mem : CurlMemory) :
    curlWriteMemory true contents mem = (contents.length, .holding (mem.data ++ contents)) := rfl

theorem curlWriteMemory_refused (contents : List UInt8) (mem : CurlMemory) :
    curlWriteMemory false contents mem = (0, mem) := rfl

/-! ## Replies -/

def curleOk : Int := 0
def curleWriteError : Int := 23

/-- One call of the write callback. -/
structure Chunk where
  contents : List UInt8
  granted : Bool
  deriving DecidableEq

/-- The chunks of a body one after the other, until libcurl sees a result that differs
from the chunk's length. `ended` is what it returns when it sees none. -/
def writeChunks (ended : Int) : List Chunk → CurlMemory → Int × CurlMemory
  | [], mem => (ended, mem)
  | chunk :: rest, mem =>
      let (written, mem) := curlWriteMemory chunk.granted chunk.contents mem
      if written = chunk.contents.length then writeChunks ended rest mem
      else (curleWriteError, mem)

/-- What libcurl and the allocator do in one call of `exec_curl_rpc_call`. -/
structure Transfer where
  easyInit : Bool
  malloced : UInt8
  chunks : List Chunk
  ended : Int
  responseCode : Int
  deriving DecidableEq

namespace Transfer

def body (transfer : Transfer) : List UInt8 := transfer.chunks.flatMap Chunk.contents

end Transfer

def curlEasyPerform (transfer : Transfer) : Int × CurlMemory :=
  writeChunks transfer.ended transfer.chunks (.malloc transfer.malloced)

/-- A refused growth that libcurl gets to see. -/
def Noticed (chunk : Chunk) : Prop := chunk.granted = false ∧ chunk.contents ≠ []

/-- A buffer without a callback keeps its first byte, any other ends in a terminator. -/
def gathered (mem : CurlMemory) (chunks : List Chunk) : CurlMemory :=
  match chunks.filter Chunk.granted with
  | [] => mem
  | granted => .holding (mem.data ++ granted.flatMap Chunk.contents)

theorem gathered_cons_granted (mem : CurlMemory) {chunk : Chunk} (granted : chunk.granted = true)
    (rest : List Chunk) :
    gathered mem (chunk :: rest) = gathered (.holding (mem.data ++ chunk.contents)) rest := by
  simp only [gathered, List.filter_cons_of_pos granted, CurlMemory.data_holding]
  cases rest.filter Chunk.granted with
  | nil => simp
  | cons head tail => simp

theorem gathered_cons_refused (mem : CurlMemory) {chunk : Chunk} (refused : chunk.granted = false)
    (rest : List Chunk) : gathered mem (chunk :: rest) = gathered mem rest := by
  have absent : ¬ chunk.granted = true := by simp [refused]
  simp only [gathered, List.filter_cons_of_neg absent]

/-- Up to the first noticed refusal the granted chunks are gathered. -/
theorem writeChunks_append (ended : Int) {before : List Chunk}
    (quiet : ∀ chunk ∈ before, ¬ Noticed chunk) (after : List Chunk) (mem : CurlMemory) :
    writeChunks ended (before ++ after) mem = writeChunks ended after (gathered mem before) := by
  induction before generalizing mem with
  | nil => rfl
  | cons chunk rest ih =>
    have later : ∀ other ∈ rest, ¬ Noticed other := fun other member =>
      quiet other (List.mem_cons_of_mem _ member)
    cases answer : chunk.granted with
    | true =>
      rw [List.cons_append, writeChunks, answer, curlWriteMemory_granted,
        gathered_cons_granted mem answer]
      simp only [↓reduceIte]
      exact ih later _
    | false =>
      -- a refused callback reports 0, which is the length of an empty chunk
      have empty : chunk.contents = [] := by
        by_contra nonempty
        exact quiet chunk List.mem_cons_self ⟨answer, nonempty⟩
      rw [List.cons_append, writeChunks, answer, curlWriteMemory_refused,
        gathered_cons_refused mem answer, empty]
      simp only [List.length_nil, ↓reduceIte]
      exact ih later _

theorem writeChunks_unnoticed (ended : Int) {chunks : List Chunk}
    (quiet : ∀ chunk ∈ chunks, ¬ Noticed chunk) (mem : CurlMemory) :
    writeChunks ended chunks mem = (ended, gathered mem chunks) := by
  have run := writeChunks_append ended quiet [] mem
  rwa [List.append_nil] at run

theorem writeChunks_noticed (ended : Int) {chunk : Chunk} (noticed : Noticed chunk)
    (after : List Chunk) (mem : CurlMemory) :
    writeChunks ended (chunk :: after) mem = (curleWriteError, mem) := by
  have longer : ¬ 0 = chunk.contents.length := fun zero =>
    noticed.2 (List.length_eq_zero_iff.mp zero.symm)
  rw [writeChunks, noticed.1, curlWriteMemory_refused]
  simp only [longer, ↓reduceIte]

/-- Either no callback's refusal is noticed, or the transfer ends at the first one. -/
theorem first_noticed (chunks : List Chunk) :
    (∀ chunk ∈ chunks, ¬ Noticed chunk) ∨
      ∃ before chunk after, chunks = before ++ chunk :: after ∧
        (∀ other ∈ before, ¬ Noticed other) ∧ Noticed chunk := by
  induction chunks with
  | nil => simp
  | cons head rest ih =>
    by_cases here : Noticed head
    · exact Or.inr ⟨[], head, rest, rfl, by simp, here⟩
    · rcases ih with quiet | ⟨before, chunk, after, split, quiet, noticed⟩
      · exact Or.inl (List.forall_mem_cons.mpr ⟨here, quiet⟩)
      · refine Or.inr ⟨head :: before, chunk, after, by rw [split]; rfl, ?_, noticed⟩
        exact List.forall_mem_cons.mpr ⟨here, quiet⟩

/-- A chunk whose refusal is not noticed has no bytes that could be missing. -/
theorem gathered_quiet {chunks : List Chunk} (quiet : ∀ chunk ∈ chunks, ¬ Noticed chunk)
    (nonempty : chunks.flatMap Chunk.contents ≠ []) (mem : CurlMemory) :
    gathered mem chunks = .holding (mem.data ++ chunks.flatMap Chunk.contents) := by
  have whole : (chunks.filter Chunk.granted).flatMap Chunk.contents =
      chunks.flatMap Chunk.contents := by
    clear nonempty
    induction chunks with
    | nil => rfl
    | cons chunk rest ih =>
      have later := ih fun other member => quiet other (List.mem_cons_of_mem _ member)
      cases answer : chunk.granted with
      | true => rw [List.filter_cons_of_pos answer, List.flatMap_cons, List.flatMap_cons, later]
      | false =>
        have empty : chunk.contents = [] := by
          by_contra bytes
          exact quiet chunk List.mem_cons_self ⟨answer, bytes⟩
        rw [List.filter_cons_of_neg (by simp [answer]), List.flatMap_cons, empty, later,
          List.nil_append]
  unfold gathered
  split
  · rename_i none
    rw [none] at whole
    exact absurd whole.symm nonempty
  · rw [whole]

theorem gathered_granted {chunks : List Chunk} (all : ∀ chunk ∈ chunks, chunk.granted = true)
    (nonempty : chunks ≠ []) (mem : CurlMemory) :
    gathered mem chunks = .holding (mem.data ++ chunks.flatMap Chunk.contents) := by
  rw [gathered, List.filter_eq_self.mpr all]
  cases chunks with
  | nil => exact absurd rfl nonempty
  | cons chunk rest => rfl

end CNear.Buffer
