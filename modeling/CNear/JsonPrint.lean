import CNear.Exchange
import CNear.JsonText

/-! `cJSON_Print`: the printer appends to a buffer that grows by `realloc`. Every byte that is
written or measured is accounted for, and so is the block of the buffer. -/

namespace CNear.JsonPrint
open CJson Exchange JsonText NumberText Run

/-- `INT_MAX` -/
def maxInt : Nat := 2147483647

def defaultBufferSize : Nat := 256

/-- `printbuffer`. A byte that nothing was written to is `none`, and so is a buffer that was
given up. -/
structure PrintBuffer where
  buffer : Option (List (Option UInt8))
  length : Nat
  offset : Nat
  depth : Nat
  noalloc : Bool
  format : Bool

/-- What `realloc` keeps of a block. -/
def resize (size : Nat) (block : List (Option UInt8)) : List (Option UInt8) :=
  block.take size ++ List.replicate (size - block.length) none

/-- Bytes are stored at an index. -/
def store (block : List (Option UInt8)) (index : Nat) (bytes : List UInt8) :
    Except Halt (List (Option UInt8)) :=
  if index + bytes.length ≤ block.length then
    .ok (block.take index ++ bytes.map some ++ block.drop (index + bytes.length))
  else .error .write

/-- The characters before the first NUL. -/
def characters : List (Option UInt8) → Except Halt (List UInt8)
  | [] => .error .read
  | none :: _ => .error .read
  | some c :: rest => if c = 0 then .ok [] else (characters rest).map fun text => c :: text

namespace PrintBuffer

/-- Stores through `output_pointer + ahead`. -/
def write (p : PrintBuffer) (ahead : Nat) (bytes : List UInt8) : Except Halt PrintBuffer :=
  match p.buffer with
  | none => .error .write
  | some block => (store block (p.offset + ahead) bytes).map fun block => { p with buffer := some block }

end PrintBuffer

/-- Whether `output_pointer` is not NULL. -/
def ensure (needed : Nat) (p : PrintBuffer) : Run (Bool × PrintBuffer) :=
  match p.buffer with
  | none => return (false, p)
  | some block =>
      if 0 < p.length ∧ p.length ≤ p.offset then return (false, p)
      else if maxInt < needed then return (false, p)
      else
        let needed := needed + (p.offset + 1)
        if needed ≤ p.length then return (true, p)
        else if p.noalloc then return (false, p)
        else if maxInt / 2 < needed ∧ maxInt < needed then return (false, p)
        else do
          let newsize := if maxInt / 2 < needed then maxInt else needed * 2
          if ← reallocate then
            return (true, { p with length := newsize, buffer := some (resize newsize block) })
          else do
            release 1
            return (false, { p with length := 0, buffer := none })

def updateOffset (p : PrintBuffer) : Run PrintBuffer :=
  match p.buffer with
  | none => return p
  | some block => do
      let text ← lift (characters (block.drop p.offset))
      return { p with offset := p.offset + text.length }

/-- A function of the printer gives up where one that it called did. -/
def andThen (first : Run (Bool × PrintBuffer)) (next : PrintBuffer → Run (Bool × PrintBuffer)) :
    Run (Bool × PrintBuffer) := do
  let (ok, p) ← first
  if ok then next p else return (false, p)

/-- `ensure`, the stores behind it, and the step of the offset. -/
def place (needed : Nat) (bytes : List UInt8) (advance : Nat) (p : PrintBuffer) :
    Run (Bool × PrintBuffer) :=
  andThen (ensure needed p) fun p => do
    let p ← lift (p.write 0 bytes)
    return (true, { p with offset := p.offset + advance })

/-! ## Numbers -/

/-- `sprintf` to a buffer of this size. -/
def sprintf (size : Nat) (text : List UInt8) : Except Halt (List UInt8) :=
  if text.length < size then .ok text else .error .write

/-- The first text in `number_buffer`. -/
def firstText : Double → List UInt8
  | .finite value =>
      if value = CallResult.valueInt (.finite value) then
        (intDecimal (CallResult.valueInt (.finite value))).text
      else (generalDecimal 15 value).text
  | _ => ascii "null"

def printNumber (number : Double) (p : PrintBuffer) : Run (Bool × PrintBuffer) := do
  let _ ← lift (sprintf 26 (firstText number))
  let numberBuffer ← lift (sprintf 26 (numberText number))
  let length := numberBuffer.length
  if 25 < length then return (false, p)
  else place (length + 1) (numberBuffer ++ [0]) length p

/-! ## Strings -/

/-- `escape_characters`, before it wraps. -/
def escapeCharacters : List UInt8 → Nat
  | [] => 0
  | c :: rest =>
      (if (shortEscape c).isSome then 1 else if c < 32 then 5 else 0) + escapeCharacters rest

/-- The loop that copies the string. `sprintf` ends a code with a NUL, which is overwritten. -/
def copyEscaped (p : PrintBuffer) : List UInt8 → (ahead : Nat) → Except Halt PrintBuffer
  | [], _ => .ok p
  | c :: rest, ahead =>
      if isPlain c then do
        let p ← p.write ahead [c]
        copyEscaped p rest (ahead + 1)
      else
        match shortEscape c with
        | some letter => do
            let p ← p.write ahead [92, letter]
            copyEscaped p rest (ahead + 2)
        | none => do
            let p ← p.write ahead (92 :: 117 :: hex4 c ++ [0])
            copyEscaped p rest (ahead + 6)

def printStringPtr (sizeT : SizeT) (input : CString) (p : PrintBuffer) : Run (Bool × PrintBuffer) :=
  let escapes := escapeCharacters input.bytes % sizeT.wrap
  let outputLength := (input.strlen + escapes) % sizeT.wrap
  andThen (ensure ((outputLength + 3) % sizeT.wrap) p) fun p => do
    let p ← lift (p.write 0 [34])
    let p ← lift (if escapes = 0 then p.write 1 (input.bytes.take outputLength)
      else copyEscaped p input.bytes 1)
    let p ← lift (p.write (outputLength + 1) [34, 0])
    return (true, p)

/-! ## Values -/

mutual

def printValue (sizeT : SizeT) : Json → PrintBuffer → Run (Bool × PrintBuffer)
  | .null, p => place 5 (ascii "null" ++ [0]) 0 p
  | .bool false, p => place 6 (ascii "false" ++ [0]) 0 p
  | .bool true, p => place 5 (ascii "true" ++ [0]) 0 p
  | .number valuedouble, p => printNumber valuedouble p
  | .string valuestring, p => printStringPtr sizeT valuestring p
  | .array items, p =>
      andThen (place 1 [91] 1 p) fun p =>
      andThen (printElements sizeT items { p with depth := p.depth + 1 }) fun p =>
      andThen (place 2 [93, 0] 0 p) fun p => return (true, { p with depth := p.depth - 1 })
  | .object members, p =>
      let opening := 123 :: newline p.format
      andThen (place (opening.length + 1) opening opening.length p) fun p =>
      andThen (printMembers sizeT members { p with depth := p.depth + 1 }) fun p =>
      andThen (place (if p.format then p.depth + 1 else 2) (tabs p.format (p.depth - 1) ++ [125, 0]) 0 p)
        fun p => return (true, { p with depth := p.depth - 1 })

/-- The loop of `print_array`. -/
def printElements (sizeT : SizeT) : List Json → PrintBuffer → Run (Bool × PrintBuffer)
  | [], p => return (true, p)
  | item :: items, p =>
      andThen (printValue sizeT item p) fun p => do
        let p ← updateOffset p
        andThen
          (if items.isEmpty then return (true, p)
            else
              let length := if p.format then 2 else 1
              place (length + 1) (comma p.format ++ [0]) length p)
          fun p => printElements sizeT items p

/-- The loop of `print_object`. -/
def printMembers (sizeT : SizeT) :
    List (CString × Json) → PrintBuffer → Run (Bool × PrintBuffer)
  | [], p => return (true, p)
  | (name, item) :: members, p =>
      andThen (if p.format then place p.depth (tabs true p.depth) p.depth p else return (true, p))
        fun p =>
      andThen (printStringPtr sizeT name p) fun p => do
        let p ← updateOffset p
        let length := if p.format then 2 else 1
        andThen (place length (58 :: tabs p.format 1) length p) fun p =>
          andThen (printValue sizeT item p) fun p => do
            let p ← updateOffset p
            let length := (if p.format then 1 else 0) + (if members.isEmpty then 0 else 1)
            andThen (place (length + 1)
              ((if members.isEmpty then [] else [44]) ++ newline p.format ++ [0]) length p) fun p =>
              printMembers sizeT members p

end

/-- The block that `print` returns. -/
def print (sizeT : SizeT) (item : Json) (format : Bool) : Run (Option (List (Option UInt8))) := do
  if ← allocate then
    let (ok, p) ← printValue sizeT item
      ⟨some (List.replicate defaultBufferSize none), defaultBufferSize, 0, 0, false, format⟩
    if ok then
      let p ← updateOffset p
      if ← reallocate then return p.buffer.map (resize (p.offset + 1))
      else
        release 1
        return none
    else if p.buffer.isSome then
      release 1
      return none
    else return none
  else return none

/-- `cJSON_PrintPreallocated` with a buffer of the caller, all of it. -/
def printPreallocated (sizeT : SizeT) (item : Json) (buffer : List (Option UInt8)) (format : Bool) :
    Run (Bool × PrintBuffer) :=
  printValue sizeT item ⟨some buffer, buffer.length, 0, 0, true, format⟩

/-- The text that the caller of `cJSON_Print` reads. -/
def printed (sizeT : SizeT) (item : Json) (format : Bool) : Run (Option (List UInt8)) := do
  match ← print sizeT item format with
  | none => return none
  | some block => do
      let text ← lift (characters block)
      return some text

end CNear.JsonPrint
