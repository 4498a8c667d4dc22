import CNear.Lib.Heap
import CNear.NumberText

/-! `cJSON_Parse`: one pass over the text with an offset and a nesting depth. Every byte that is
looked at, every byte that is written to the buffer of a string and every block that is
allocated or freed is accounted for. `content` is the buffer, with the terminator. -/

namespace CNear.JsonParse
open CJson NumberText Run

def nestingLimit : Nat := 1000

/-- `content[i]` -/
def byteAt (content : List UInt8) (i : Nat) : Except Halt UInt8 :=
  match content[i]? with
  | some byte => .ok byte
  | none => .error .read

/-- `can_access_at_index` and the byte there. -/
def sees (content : List UInt8) (i : Nat) (byte : UInt8) : Bool := content[i]? == some byte

/-- `can_read` and `strncmp` -/
def reads (content : List UInt8) (offset : Nat) (text : List UInt8) : Bool :=
  (content.drop offset).take text.length == text

/-! ## `parse_string` -/

def hexDigit (c : UInt8) : Option Nat :=
  if 48 ≤ c ∧ c ≤ 57 then some (c.toNat - 48)
  else if 65 ≤ c ∧ c ≤ 70 then some (10 + c.toNat - 65)
  else if 97 ≤ c ∧ c ≤ 102 then some (10 + c.toNat - 97)
  else none

/-- The loop of `parse_hex4`. Four digits that are not hexadecimal are read as zero. -/
def hexDigits (content : List UInt8) : (left input h : Nat) → Except Halt Nat
  | 0, _, h => .ok h
  | left + 1, input, h => do
      let c ← byteAt content input
      match hexDigit c with
      | none => .ok 0
      | some digit => hexDigits content left (input + 1) (16 * h + digit)

def parseHex4 (content : List UInt8) (input : Nat) : Except Halt Nat := hexDigits content 4 input 0

/-- The bytes `10xxxxxx` from the last one on, and what is left of the code point. -/
def continuationBytes : (count codepoint : Nat) → List UInt8 → Nat × List UInt8
  | 0, codepoint, tail => (codepoint, tail)
  | count + 1, codepoint, tail =>
      continuationBytes count (codepoint >>> 6) (UInt8.ofNat ((codepoint ||| 0x80) &&& 0xBF) :: tail)

def encodeUtf8 (codepoint : Nat) : Option (List UInt8) :=
  let withMark (count mark : Nat) : List UInt8 :=
    let (rest, tail) := continuationBytes count codepoint []
    UInt8.ofNat ((rest ||| mark) &&& 0xFF) :: tail
  if codepoint < 0x80 then some [UInt8.ofNat (codepoint &&& 0x7F)]
  else if codepoint < 0x800 then some (withMark 1 0xC0)
  else if codepoint < 0x10000 then some (withMark 2 0xE0)
  else if codepoint ≤ 0x10FFFF then some (withMark 3 0xF0)
  else none

def surrogatePair (firstCode secondCode : Nat) : Nat :=
  0x10000 + (((firstCode &&& 0x3FF) <<< 10) ||| (secondCode &&& 0x3FF))

/-- The bytes to write and the length of the sequence. -/
def utf16LiteralToUtf8 (content : List UInt8) (inputPointer inputEnd : Nat) :
    Except Halt (Option (List UInt8 × Nat)) :=
  if inputEnd - inputPointer < 6 then .ok none
  else do
    let firstCode ← parseHex4 content (inputPointer + 2)
    if 0xDC00 ≤ firstCode ∧ firstCode ≤ 0xDFFF then .ok none
    else if 0xD800 ≤ firstCode ∧ firstCode ≤ 0xDBFF then
      if inputEnd - (inputPointer + 6) < 6 then .ok none
      else do
        let backslash ← byteAt content (inputPointer + 6)
        let mark ← byteAt content (inputPointer + 7)
        if backslash ≠ 92 ∨ mark ≠ 117 then .ok none
        else do
          let secondCode ← parseHex4 content (inputPointer + 8)
          if secondCode < 0xDC00 ∨ 0xDFFF < secondCode then .ok none
          else .ok ((encodeUtf8 (surrogatePair firstCode secondCode)).map fun bytes => (bytes, 12))
    else .ok ((encodeUtf8 firstCode).map fun bytes => (bytes, 6))

/-- The first quote that is not escaped and the number of escapes before it; the list is the
buffer from `inputEnd` on. -/
def scanString : List UInt8 → (inputEnd skippedBytes : Nat) → Option (Nat × Nat)
  | [], _, _ => none
  | [c], inputEnd, skippedBytes => if c = 34 then some (inputEnd, skippedBytes) else none
  | c :: next :: rest, inputEnd, skippedBytes =>
      if c = 34 then some (inputEnd, skippedBytes)
      else if c = 92 then scanString rest (inputEnd + 2) (skippedBytes + 1)
      else scanString (next :: rest) (inputEnd + 1) skippedBytes

/-- The byte that a two-character escape stands for. -/
def simpleEscape (c : UInt8) : Option UInt8 :=
  if c = 98 then some 8 else if c = 102 then some 12 else if c = 110 then some 10
  else if c = 114 then some 13 else if c = 116 then some 9
  else if c = 34 ∨ c = 92 ∨ c = 47 then some c else none

/-- One turn of the loop over the literal: the bytes to write and the length of their input. -/
def unescapeOne (content : List UInt8) (inputPointer inputEnd : Nat) :
    Except Halt (Option (List UInt8 × Nat)) := do
  let c ← byteAt content inputPointer
  if c ≠ 92 then .ok (some ([c], 1))
  else if inputEnd - inputPointer < 1 then .ok none
  else do
    let escape ← byteAt content (inputPointer + 1)
    if escape = 117 then utf16LiteralToUtf8 content inputPointer inputEnd
    else .ok ((simpleEscape escape).map fun byte => ([byte], 2))

/-- Writing to a buffer of `capacity` bytes that holds `output`. -/
def emit (capacity : Nat) (output bytes : List UInt8) : Except Halt (List UInt8) :=
  if output.length + bytes.length ≤ capacity then .ok (output ++ bytes) else .error .write

def unescape (content : List UInt8) (inputEnd capacity : Nat) :
    (turns inputPointer : Nat) → (output : List UInt8) → Except Halt (Option (List UInt8))
  | 0, inputPointer, output => if inputPointer < inputEnd then .error .turns else .ok (some output)
  | turns + 1, inputPointer, output =>
      if inputPointer < inputEnd then do
        match ← unescapeOne content inputPointer inputEnd with
        | none => .ok none
        | some (bytes, length) => do
            let output ← emit capacity output bytes
            unescape content inputEnd capacity turns (inputPointer + length) output
      else .ok (some output)

/-- The output with its terminator. -/
def unescapeAll (content : List UInt8) (offset inputEnd capacity : Nat) :
    Except Halt (Option (List UInt8)) := do
  match ← unescape content inputEnd capacity inputEnd (offset + 1) [] with
  | none => .ok none
  | some output => do
      let output ← emit capacity output [0]
      .ok (some output)

/-- The string at `offset` and the offset behind it. -/
def parseString (content : List UInt8) (offset : Nat) : Run (Option (CString × Nat)) := do
  let first ← lift (byteAt content offset)
  if first ≠ 34 then return none
  else
    match scanString (content.drop (offset + 1)) (offset + 1) 0 with
    | none => return none
    | some (inputEnd, skippedBytes) =>
        let allocationLength := inputEnd - offset - skippedBytes
        if ← allocate then
          match ← lift (unescapeAll content offset inputEnd (allocationLength + 1)) with
          | none => do
              release 1
              return none
          | some output => return some (CString.upToNul output, inputEnd + 1)
        else return none

/-! ## The values -/

/-- At the end of the buffer it steps back to the last byte. -/
def skipWhitespace (content : List UInt8) (offset : Nat) : Nat :=
  if offset < content.length then
    let behind := offset + ((content.drop offset).takeWhile (· ≤ 32)).length
    if behind = content.length then behind - 1 else behind
  else offset

/-- At the start of the buffer. -/
def skipUtf8Bom (content : List UInt8) : Nat :=
  if 4 < content.length ∧ content.take 3 = [0xEF, 0xBB, 0xBF] then 3 else 0

mutual

/-- The blocks that `cJSON_Delete` frees with an item, the item's own not counted. -/
def blocks : Json → Nat
  | .string _ => 1
  | .array items => blocksOfItems items
  | .object members => blocksOfMembers members
  | _ => 0

def blocksOfItems : List Json → Nat
  | [] => 0
  | item :: items => 1 + blocks item + blocksOfItems items

/-- A name is a block of its own. -/
def blocksOfMembers : List (CString × Json) → Nat
  | [] => 0
  | (_, item) :: members => 2 + blocks item + blocksOfMembers members

end

mutual

/-- The value at `offset`, and the offset behind it. -/
def parseValue (content : List UInt8) : (turns depth offset : Nat) → Run (Option (Json × Nat))
  | 0, _, _ => lift (.error .turns)
  | turns + 1, depth, offset =>
      if reads content offset (ascii "null") then return some (.null, offset + 4)
      else if reads content offset (ascii "false") then return some (.bool false, offset + 5)
      else if reads content offset (ascii "true") then return some (.bool true, offset + 4)
      else
        match content[offset]? with
        | none => return none
        | some c =>
            if c = 34 then do
              match ← parseString content offset with
              | none => return none
              | some (text, offset) => return some (.string text, offset)
            else if c = 45 ∨ isDigit c then
              return (parseNumber content offset).map fun (number, offset) => (.number number, offset)
            else if c = 91 then parseArray content turns depth offset
            else if c = 123 then parseObject content turns depth offset
            else return none

/-- The array whose bracket is at `offset`. -/
def parseArray (content : List UInt8) : (turns depth offset : Nat) → Run (Option (Json × Nat))
  | 0, _, _ => lift (.error .turns)
  | turns + 1, depth, offset =>
      if nestingLimit ≤ depth then return none
      else do
        let bracket ← lift (byteAt content offset)
        if bracket ≠ 91 then return none
        else
          let offset := skipWhitespace content (offset + 1)
          if sees content offset 93 then return some (.array [], offset + 1)
          else if content.length ≤ offset then return none
          else parseElements content turns (depth + 1) (offset - 1) []

/-- The elements behind `offset`, where the bracket or a comma is; `head` are those before. -/
def parseElements (content : List UInt8) :
    (turns depth offset : Nat) → (head : List Json) → Run (Option (Json × Nat))
  | 0, _, _, _ => lift (.error .turns)
  | turns + 1, depth, offset, head => do
      if ← allocate then
        match ← parseValue content turns depth (skipWhitespace content (offset + 1)) with
        | none => do
            release (blocksOfItems head + 1)
            return none
        | some (value, offset) =>
            let offset := skipWhitespace content offset
            let head := head ++ [value]
            if sees content offset 44 then parseElements content turns depth offset head
            else if sees content offset 93 then return some (.array head, offset + 1)
            else do
              release (blocksOfItems head)
              return none
      else do
        release (blocksOfItems head)
        return none

/-- The object whose brace is at `offset`. -/
def parseObject (content : List UInt8) : (turns depth offset : Nat) → Run (Option (Json × Nat))
  | 0, _, _ => lift (.error .turns)
  | turns + 1, depth, offset =>
      if nestingLimit ≤ depth then return none
      else if ¬ sees content offset 123 then return none
      else
        let offset := skipWhitespace content (offset + 1)
        if sees content offset 125 then return some (.object [], offset + 1)
        else if content.length ≤ offset then return none
        else parseMembers content turns (depth + 1) (offset - 1) []

/-- The members behind `offset`, where the brace or a comma is. -/
def parseMembers (content : List UInt8) :
    (turns depth offset : Nat) → (head : List (CString × Json)) → Run (Option (Json × Nat))
  | 0, _, _, _ => lift (.error .turns)
  | turns + 1, depth, offset, head => do
      if ← allocate then
        if content.length ≤ offset + 1 then do
          release (blocksOfMembers head + 1)
          return none
        else
          match ← parseString content (skipWhitespace content (offset + 1)) with
          | none => do
              release (blocksOfMembers head + 1)
              return none
          | some (name, offset) =>
              let offset := skipWhitespace content offset
              if ¬ sees content offset 58 then do
                release (blocksOfMembers head + 2)
                return none
              else
                match ← parseValue content turns depth (skipWhitespace content (offset + 1)) with
                | none => do
                    release (blocksOfMembers head + 2)
                    return none
                | some (value, offset) =>
                    let offset := skipWhitespace content offset
                    let head := head ++ [(name, value)]
                    if sees content offset 44 then parseMembers content turns depth offset head
                    else if sees content offset 125 then return some (.object head, offset + 1)
                    else do
                      release (blocksOfMembers head)
                      return none
      else do
        release (blocksOfMembers head)
        return none

end

/-- More turns than the parser can take. -/
def enoughTurns (content : List UInt8) : Nat := 4 * content.length + 4

/-- The item and the offset behind its text. -/
def parseWithLengthOpts (content : List UInt8) (requireNullTerminated : Bool) :
    Run (Option (Json × Nat)) := do
  if content = [] then return none
  else if ← allocate then
    match ← parseValue content (enoughTurns content) 0
        (skipWhitespace content (skipUtf8Bom content)) with
    | none => do
        release 1
        return none
    | some (item, offset) =>
        if requireNullTerminated then
          let offset := skipWhitespace content offset
          if sees content offset 0 then return some (item, offset)
          else do
            release (blocks item + 1)
            return none
        else return some (item, offset)
  else return none

/-- `cJSON_ParseWithOpts` with `0`, as `cJSON_Parse` calls it. -/
def cJSONParse (value : CString) : Run (Option Json) := do
  let parsed ← parseWithLengthOpts (value.bytes ++ [0]) false
  return parsed.map Prod.fst

end CNear.JsonParse
