import TcpServer.DataLayer.Parser
import TcpServer.DataLayer.Serializer

/-!
# Bytes

The lexer and the serializer of `DataLayer/json.hpp` as they are: of bytes. `Lexer.lean` and
`Serializer.lean` have them of characters. The two differ where a byte is not a character: in the byte
order mark, between quotation marks, where the lexer checks that the bytes are UTF-8 and writes the bytes
of an escaped code, and in `dump_escaped`, which decodes the bytes to find the characters it escapes.
Everything else only knows ASCII characters and is taken from there.

A byte is carried as the character of its code, and so a `std::string` as the string of these
(`ofBytes`).
-/

namespace TcpServer

namespace Bytes

/-- Bytes as they are carried here. -/
def ofBytes (bytes : List UInt8) : Text := bytes.map fun b => Char.ofNat b.toNat

/-! ## The lexer -/

/-- The check of `next_byte_in_range`, of one byte. -/
def inRange (range : ℕ × ℕ) (c : Char) : Bool :=
  decide (range.1 ≤ c.toNat ∧ c.toNat ≤ range.2)

/-- The bytes that may begin a character in a string, with the ranges that `scan_string` gives
`next_byte_in_range` for those after them. -/
def ranges? (c : Char) : Option (List (ℕ × ℕ)) :=
  let byte := c.toNat
  if 0x20 ≤ byte ∧ byte ≤ 0x7F then some []
  else if 0xC2 ≤ byte ∧ byte ≤ 0xDF then some [(0x80, 0xBF)]
  else if byte = 0xE0 then some [(0xA0, 0xBF), (0x80, 0xBF)]
  else if (0xE1 ≤ byte ∧ byte ≤ 0xEC) ∨ (0xEE ≤ byte ∧ byte ≤ 0xEF) then
    some [(0x80, 0xBF), (0x80, 0xBF)]
  else if byte = 0xED then some [(0x80, 0x9F), (0x80, 0xBF)]
  else if byte = 0xF0 then some [(0x90, 0xBF), (0x80, 0xBF), (0x80, 0xBF)]
  else if 0xF1 ≤ byte ∧ byte ≤ 0xF3 then some [(0x80, 0xBF), (0x80, 0xBF), (0x80, 0xBF)]
  else if byte = 0xF4 then some [(0x80, 0x8F), (0x80, 0xBF), (0x80, 0xBF)]
  else none

/-- The bytes of a code point, as `scan_string` puts them together. -/
def translate (codepoint : ℕ) : Text :=
  if codepoint < 0x80 then [Char.ofNat codepoint]
  else if codepoint ≤ 0x7FF then
    [Char.ofNat (0xC0 ||| codepoint >>> 6), Char.ofNat (0x80 ||| codepoint &&& 0x3F)]
  else if codepoint ≤ 0xFFFF then
    [Char.ofNat (0xE0 ||| codepoint >>> 12), Char.ofNat (0x80 ||| (codepoint >>> 6) &&& 0x3F),
      Char.ofNat (0x80 ||| codepoint &&& 0x3F)]
  else
    [Char.ofNat (0xF0 ||| codepoint >>> 18), Char.ofNat (0x80 ||| (codepoint >>> 12) &&& 0x3F),
      Char.ofNat (0x80 ||| (codepoint >>> 6) &&& 0x3F), Char.ofNat (0x80 ||| codepoint &&& 0x3F)]

/-- Bytes in front of what is scanned of a string. -/
def addAll (bytes : Text) (r : Option (Text × Text)) : Option (Text × Text) :=
  r.map fun r => (bytes ++ r.1, r.2)

/-- `scan_string`, after the opening quote. Its loop and that of `next_byte_in_range` are one loop
here; `ranges` are those which the latter has left. -/
def scanString (ranges : List (ℕ × ℕ)) (cs : Text) : Option (Text × Text) :=
  match cs with
  | [] => none
  | c :: cs =>
    match ranges with
    | range :: ranges => if inRange range c then addAll [c] (scanString ranges cs) else none
    | [] =>
      if c = '"' then some ([], cs)
      else if c = '\\' then
        match cs with
        | [] => none
        | e :: cs =>
          if e = 'u' then
            match cs with
            | c₁ :: c₂ :: c₃ :: c₄ :: cs =>
              match Lexer.getCodepoint c₁ c₂ c₃ c₄ with
              | none => none
              | some codepoint₁ =>
                if 0xD800 ≤ codepoint₁ ∧ codepoint₁ ≤ 0xDBFF then
                  match cs with
                  | b :: u :: e₁ :: e₂ :: e₃ :: e₄ :: cs =>
                    if b = '\\' ∧ u = 'u' then
                      match Lexer.getCodepoint e₁ e₂ e₃ e₄ with
                      | none => none
                      | some codepoint₂ =>
                        if 0xDC00 ≤ codepoint₂ ∧ codepoint₂ ≤ 0xDFFF then
                          addAll (translate (codepoint₁ <<< 10 + codepoint₂ - 0x35FDC00))
                            (scanString [] cs)
                        else none
                    else none
                  | _ => none
                else if 0xDC00 ≤ codepoint₁ ∧ codepoint₁ ≤ 0xDFFF then none
                else addAll (translate codepoint₁) (scanString [] cs)
            | _ => none
          else
            match Lexer.simpleEscape e with
            | none => none
            | some c => addAll [c] (scanString [] cs)
      else
        match ranges? c with
        | none => none
        | some ranges => addAll [c] (scanString ranges cs)
termination_by structural cs

/-- The token that a byte other than white space begins. -/
def scanToken (c : Char) (cs : Text) : Token × Text :=
  if c = '"' then
    match scanString [] cs with
    | some (s, cs) => (.valueString (String.ofList s), cs)
    | none => (.parseError, [])
  else Lexer.scanToken c cs

/-- `scan`, but for the byte order mark. -/
def scan (cs : Text) : Token × Text :=
  match Lexer.skipWhitespace cs with
  | [] => (.endOfInput, [])
  | c :: cs => scanToken c cs

/-- What the calls of `scan` give, up to the end of the input or an error. -/
def scanAll : ℕ → Text → List Token
  | 0, _ => []
  | fuel + 1, cs =>
    match scan cs with
    | (.endOfInput, _) => [.endOfInput]
    | (.parseError, _) => [.parseError]
    | (t, cs) => t :: scanAll fuel cs

/-- The bytes of the byte order mark. -/
def bom : Text := [Char.ofNat 0xEF, Char.ofNat 0xBB, Char.ofNat 0xBF]

/-- `skip_bom`: `none` where the first byte is that of the mark and the next ones are not. -/
def skipBom : Text → Option Text
  | c :: cs =>
    if c = Char.ofNat 0xEF then
      if bom.tail.isPrefixOf cs then some (cs.drop 2) else none
    else some (c :: cs)
  | [] => some []

/-- The tokens of bytes. -/
def tokens (cs : Text) : List Token :=
  match skipBom cs with
  | some cs => scanAll (cs.length + 1) cs
  | none => [.parseError]

/-- `parse`, of bytes. -/
def parse (strtod : Text → Option ℚ) (strict : Bool) (text : Text) : Option Json :=
  match Parser.saxParseInternal strtod [] (tokens text) with
  | none => none
  | some (v, ts) => if !strict || ts.head? == some .endOfInput then some v else none

/-! ## The serializer -/

/-- `utf8d`: the types of the bytes, and for each state where the types take it. -/
def utf8d : List ℕ :=
  [0, 0, 0, 0, 0, 0, 0, 0, 0, 0, 0, 0, 0, 0, 0, 0, 0, 0, 0, 0, 0, 0, 0, 0, 0, 0, 0, 0, 0, 0, 0, 0,
   0, 0, 0, 0, 0, 0, 0, 0, 0, 0, 0, 0, 0, 0, 0, 0, 0, 0, 0, 0, 0, 0, 0, 0, 0, 0, 0, 0, 0, 0, 0, 0,
   0, 0, 0, 0, 0, 0, 0, 0, 0, 0, 0, 0, 0, 0, 0, 0, 0, 0, 0, 0, 0, 0, 0, 0, 0, 0, 0, 0, 0, 0, 0, 0,
   0, 0, 0, 0, 0, 0, 0, 0, 0, 0, 0, 0, 0, 0, 0, 0, 0, 0, 0, 0, 0, 0, 0, 0, 0, 0, 0, 0, 0, 0, 0, 0,
   1, 1, 1, 1, 1, 1, 1, 1, 1, 1, 1, 1, 1, 1, 1, 1, 9, 9, 9, 9, 9, 9, 9, 9, 9, 9, 9, 9, 9, 9, 9, 9,
   7, 7, 7, 7, 7, 7, 7, 7, 7, 7, 7, 7, 7, 7, 7, 7, 7, 7, 7, 7, 7, 7, 7, 7, 7, 7, 7, 7, 7, 7, 7, 7,
   8, 8, 2, 2, 2, 2, 2, 2, 2, 2, 2, 2, 2, 2, 2, 2, 2, 2, 2, 2, 2, 2, 2, 2, 2, 2, 2, 2, 2, 2, 2, 2,
   0xA, 0x3, 0x3, 0x3, 0x3, 0x3, 0x3, 0x3, 0x3, 0x3, 0x3, 0x3, 0x3, 0x4, 0x3, 0x3,
   0xB, 0x6, 0x6, 0x6, 0x5, 0x8, 0x8, 0x8, 0x8, 0x8, 0x8, 0x8, 0x8, 0x8, 0x8, 0x8,
   0x0, 0x1, 0x2, 0x3, 0x5, 0x8, 0x7, 0x1, 0x1, 0x1, 0x4, 0x6, 0x1, 0x1, 0x1, 0x1,
   1, 1, 1, 1, 1, 1, 1, 1, 1, 1, 1, 1, 1, 1, 1, 1, 1, 0, 1, 1, 1, 1, 1, 0, 1, 0, 1, 1, 1, 1, 1, 1,
   1, 2, 1, 1, 1, 1, 1, 2, 1, 2, 1, 1, 1, 1, 1, 1, 1, 1, 1, 1, 1, 1, 1, 2, 1, 1, 1, 1, 1, 1, 1, 1,
   1, 2, 1, 1, 1, 1, 1, 1, 1, 2, 1, 1, 1, 1, 1, 1, 1, 1, 1, 1, 1, 1, 1, 3, 1, 3, 1, 1, 1, 1, 1, 1,
   1, 3, 1, 1, 1, 1, 1, 3, 1, 3, 1, 1, 1, 1, 1, 1, 1, 3, 1, 1, 1, 1, 1, 1, 1, 1, 1, 1, 1, 1, 1, 1]

/-- `decode`: the new state and the new code point. An index beyond the table fails an assertion. -/
def decode (state codep byte : ℕ) : Except Abort (ℕ × ℕ) :=
  match utf8d[byte]? with
  | none => .error .undefinedBehaviour
  | some type =>
    let codep :=
      if state ≠ 0 then (byte &&& 0x3F) ||| ((codep <<< 6) % 2 ^ 32) else (0xFF >>> type) &&& byte
    match utf8d[256 + state * 16 + type]? with
    | none => .error .undefinedBehaviour
    | some state => .ok (state, codep)

/-- The variables of `dump_escaped`. -/
structure Escaping where
  codepoint : ℕ
  state : ℕ
  /-- What is in `string_buffer`, up to `bytes`. -/
  buffer : Text
  /-- What has been written. -/
  out : Text
  deriving DecidableEq

namespace Escaping

/-- Bytes are put into `string_buffer`, for which this much of its 512 bytes is used. -/
def put (w : Escaping) (bytes : Text) (used : ℕ) : Except Abort Escaping :=
  if w.buffer.length + used ≤ 512 then .ok { w with buffer := w.buffer ++ bytes }
  else .error .undefinedBehaviour

/-- `write_characters`, of the buffer. -/
def flush (w : Escaping) : Escaping := { w with buffer := [], out := w.out ++ w.buffer }

/-- What is put into the buffer when a code point is complete; `snprintf` adds a null byte. -/
def complete (w : Escaping) (byte : Char) : Except Abort Escaping :=
  if w.codepoint = 0x08 then w.put ['\\', 'b'] 2
  else if w.codepoint = 0x09 then w.put ['\\', 't'] 2
  else if w.codepoint = 0x0A then w.put ['\\', 'n'] 2
  else if w.codepoint = 0x0C then w.put ['\\', 'f'] 2
  else if w.codepoint = 0x0D then w.put ['\\', 'r'] 2
  else if w.codepoint = 0x22 then w.put ['\\', '"'] 2
  else if w.codepoint = 0x5C then w.put ['\\', '\\'] 2
  else if w.codepoint ≤ 0x1F then
    w.put ['\\', 'u', Serializer.hexDigit (w.codepoint / 4096),
      Serializer.hexDigit (w.codepoint / 256 % 16), Serializer.hexDigit (w.codepoint / 16 % 16),
      Serializer.hexDigit (w.codepoint % 16)] 7
  else w.put [byte] 1

/-- One byte, in the loop of `dump_escaped`. -/
def step (w : Escaping) (byte : Char) : Except Abort Escaping := do
  let (state, codepoint) ← decode w.state w.codepoint byte.toNat
  let w := { w with state, codepoint }
  if state = 0 then
    let w ← w.complete byte
    return if 512 - w.buffer.length < 13 then w.flush else w
  else if state = 1 then .error .typeError
  else w.put [byte] 1

/-- Behind the loop: the string must not end within a character. -/
def finish (w : Escaping) : Except Abort Text :=
  if w.state = 0 then .ok (w.out ++ w.buffer) else .error .typeError

end Escaping

/-- `dump_escaped`, with the error handler `strict`: invalid bytes throw. -/
def dumpEscaped (s : Text) : Except Abort Text := do
  let w ← s.foldlM Escaping.step { codepoint := 0, state := 0, buffer := [], out := [] }
  w.finish

/-- A string between quotation marks. -/
def dumpString (s : Text) : Except Abort Text := do
  let text ← dumpEscaped s
  return '"' :: text ++ ['"']

variable (dumpFloat : ℚ → Text)

mutual

/-- `dump`, of a value whose strings are bytes. -/
def dump : Json → Except Abort Text
  | .string s => dumpString s.toList
  | .array elements => do
    let text ← dumpElements elements
    return '[' :: text ++ [']']
  | .object members => do
    let text ← dumpMembers members
    return '\x7b' :: text ++ ['\x7d']
  | v => .ok (Serializer.dump dumpFloat v)

def dumpElements : List Json → Except Abort Text
  | [] => .ok []
  | [v] => dump v
  | v :: vs => do
    let text ← dump v
    let texts ← dumpElements vs
    return text ++ ',' :: texts

def dumpMembers : List (String × Json) → Except Abort Text
  | [] => .ok []
  | [(key, v)] => do
    let name ← dumpString key.toList
    let text ← dump v
    return name ++ ':' :: text
  | (key, v) :: ms => do
    let name ← dumpString key.toList
    let text ← dump v
    let texts ← dumpMembers ms
    return name ++ ':' :: text ++ ',' :: texts

end

end Bytes

end TcpServer
