import TcpServer.DataLayer.Json

/-!
# The lexer

`nlohmann::detail::lexer` of `DataLayer/json.hpp`. A text is the list of its characters, and a scan
function gives back what it has not read: `get` takes the first character, `unget` leaves it. The end of
the list is the end of the file.

- Texts are of characters, so the checks of `scan_string` on the bytes of a character are not made, and the
  byte order mark is one character. `Bytes.lean` has the lexer of bytes.
- A scan that fails gives no rest: the parser stops at a parse error.
- `ignore_comments` is false throughout the program. Positions and error texts are left out.
- Of a number that is neither a `size_t` nor an `int64_t` the token carries the text; `strtod` is applied
  to it by the parser.
-/

namespace TcpServer

abbrev Text := List Char

/-- `token_type`, with the value the lexer has read. -/
inductive Token where
  | literalTrue
  | literalFalse
  | literalNull
  | valueString (s : String)
  | valueUnsigned (n : SizeT)
  | valueInteger (n : BitVec 64)
  | valueFloat (text : Text)
  | beginArray
  | beginObject
  | endArray
  | endObject
  | nameSeparator
  | valueSeparator
  | parseError
  | endOfInput
  deriving DecidableEq, Repr

namespace Lexer

/-! ## Strings -/

/-- A hex digit of `get_codepoint`. -/
def hexValue (c : Char) : Option ℕ :=
  if '0' ≤ c ∧ c ≤ '9' then some (c.toNat - 0x30)
  else if 'A' ≤ c ∧ c ≤ 'F' then some (c.toNat - 0x37)
  else if 'a' ≤ c ∧ c ≤ 'f' then some (c.toNat - 0x57)
  else none

/-- `get_codepoint`: `none` for its -1. -/
def getCodepoint (c₁ c₂ c₃ c₄ : Char) : Option ℕ := do
  let d₁ ← hexValue c₁
  let d₂ ← hexValue c₂
  let d₃ ← hexValue c₃
  let d₄ ← hexValue c₄
  return d₁ <<< 12 + d₂ <<< 8 + d₃ <<< 4 + d₄

/-- The character after a backslash, other than `u`, and what it stands for. -/
def simpleEscape (c : Char) : Option Char :=
  if c = '"' then some '"'
  else if c = '\\' then some '\\'
  else if c = '/' then some '/'
  else if c = 'b' then some (Char.ofNat 0x08)
  else if c = 'f' then some (Char.ofNat 0x0C)
  else if c = 'n' then some '\n'
  else if c = 'r' then some '\r'
  else if c = 't' then some '\t'
  else none

/-- A character in front of what is scanned of a string. -/
def add (c : Char) (r : Option (Text × Text)) : Option (Text × Text) :=
  r.map fun r => (c :: r.1, r.2)

/-- `scan_string`, after the opening quote. -/
def scanString (cs : Text) : Option (Text × Text) :=
  match cs with
  | [] => none
  | c :: cs =>
    if c = '"' then some ([], cs)
    else if c = '\\' then
      match cs with
      | [] => none
      | e :: cs =>
        if e = 'u' then
          match cs with
          | c₁ :: c₂ :: c₃ :: c₄ :: cs =>
            match getCodepoint c₁ c₂ c₃ c₄ with
            | none => none
            | some codepoint₁ =>
              if 0xD800 ≤ codepoint₁ ∧ codepoint₁ ≤ 0xDBFF then
                match cs with
                | b :: u :: e₁ :: e₂ :: e₃ :: e₄ :: cs =>
                  if b = '\\' ∧ u = 'u' then
                    match getCodepoint e₁ e₂ e₃ e₄ with
                    | none => none
                    | some codepoint₂ =>
                      if 0xDC00 ≤ codepoint₂ ∧ codepoint₂ ≤ 0xDFFF then
                        add (Char.ofNat (codepoint₁ <<< 10 + codepoint₂ - 0x35FDC00)) (scanString cs)
                      else none
                  else none
                | _ => none
              else if 0xDC00 ≤ codepoint₁ ∧ codepoint₁ ≤ 0xDFFF then none
              else add (Char.ofNat codepoint₁) (scanString cs)
          | _ => none
        else
          match simpleEscape e with
          | none => none
          | some c => add c (scanString cs)
    else if c.toNat < 0x20 then none
    else add c (scanString cs)
termination_by structural cs

/-! ## Numbers -/

/-- The states of `scan_number`, past the first character. -/
inductive NumberState where
  | minus
  | zero
  | any1
  | decimal1
  | decimal2
  | exponent
  | sign
  | any2
  deriving DecidableEq, Repr

/-- `number_type`. -/
inductive NumberType where
  | unsigned
  | integer
  | float
  deriving DecidableEq, Repr

/-- Where a character takes the state machine of `scan_number`. -/
inductive Next where
  | goto (s : NumberState)
  | done
  | error
  deriving DecidableEq, Repr

namespace NumberState

/-- A row of the table of `scan_number`; `none` is the end of the file. -/
def next (s : NumberState) (c : Option Char) : Next :=
  let digit := c.any Char.isDigit
  let exponent := c = some 'e' ∨ c = some 'E'
  match s with
  | .minus => if c = some '0' then .goto .zero else if digit then .goto .any1 else .error
  | .zero =>
    if c = some '.' then .goto .decimal1 else if exponent then .goto .exponent else .done
  | .any1 =>
    if digit then .goto .any1 else if c = some '.' then .goto .decimal1
    else if exponent then .goto .exponent else .done
  | .decimal1 => if digit then .goto .decimal2 else .error
  | .decimal2 => if digit then .goto .decimal2 else if exponent then .goto .exponent else .done
  | .exponent =>
    if c = some '+' ∨ c = some '-' then .goto .sign else if digit then .goto .any2 else .error
  | .sign => if digit then .goto .any2 else .error
  | .any2 => if digit then .goto .any2 else .done

/-- What entering a state makes of `number_type`. -/
def enter (s : NumberState) (type : NumberType) : NumberType :=
  match s with
  | .minus => .integer
  | .decimal1 | .exponent => .float
  | _ => type

end NumberState

/-- `scan_number` from a state on: the type, the characters added to the buffer, and the rest. -/
def scanNumberFrom (s : NumberState) (type : NumberType) : Text → Option (NumberType × Text × Text)
  | [] => if s.next none = .done then some (type, [], []) else none
  | c :: cs =>
    match s.next (some c) with
    | .goto s' => (scanNumberFrom s' (s'.enter type) cs).map fun r => (r.1, c :: r.2.1, r.2.2)
    | .done => some (type, [], c :: cs)
    | .error => none

/-- The token of a number: integers that are out of range fall back to doubles. -/
def numberToken (type : NumberType) (text : Text) : Token :=
  match type with
  | .unsigned =>
    let x := Nat.ofDigitChars 10 text 0
    if x < 2 ^ 64 then .valueUnsigned x else .valueFloat text
  | .integer =>
    let x := Nat.ofDigitChars 10 text.tail 0
    if x ≤ 2 ^ 63 then .valueInteger (-(x : ℤ) : ℤ) else .valueFloat text
  | .float => .valueFloat text

/-- The state after the first character of a number. -/
def firstState (c : Char) : NumberState :=
  if c = '-' then .minus else if c = '0' then .zero else .any1

/-- `scan_number`. -/
def scanNumber (c : Char) (cs : Text) : Token × Text :=
  let s := firstState c
  match scanNumberFrom s (s.enter .unsigned) cs with
  | some (type, text, cs) => (numberToken type (c :: text), cs)
  | none => (.parseError, [])

/-! ## Tokens -/

/-- `scan_literal`, after the first character. -/
def scanLiteral (literal : Text) (token : Token) (cs : Text) : Token × Text :=
  if literal.isPrefixOf cs then (token, cs.drop literal.length) else (.parseError, [])

def isWhitespace (c : Char) : Bool := c = ' ' || c = '\t' || c = '\n' || c = '\r'

/-- `skip_whitespace`. -/
def skipWhitespace : Text → Text
  | [] => []
  | c :: cs => if isWhitespace c then skipWhitespace cs else c :: cs

/-- The token that a character other than white space begins. -/
def scanToken (c : Char) (cs : Text) : Token × Text :=
  if c = '[' then (.beginArray, cs)
  else if c = ']' then (.endArray, cs)
  else if c = '\x7b' then (.beginObject, cs)
  else if c = '\x7d' then (.endObject, cs)
  else if c = ':' then (.nameSeparator, cs)
  else if c = ',' then (.valueSeparator, cs)
  else if c = 't' then scanLiteral ['r', 'u', 'e'] .literalTrue cs
  else if c = 'f' then scanLiteral ['a', 'l', 's', 'e'] .literalFalse cs
  else if c = 'n' then scanLiteral ['u', 'l', 'l'] .literalNull cs
  else if c = '"' then
    match scanString cs with
    | some (s, cs) => (.valueString (String.ofList s), cs)
    | none => (.parseError, [])
  else if c = '-' ∨ c.isDigit then scanNumber c cs
  -- a null byte ends the input, whatever comes after it
  else if c = Char.ofNat 0 then (.endOfInput, [])
  else (.parseError, [])

/-- `scan`, but for the byte order mark. -/
def scan (cs : Text) : Token × Text :=
  match skipWhitespace cs with
  | [] => (.endOfInput, [])
  | c :: cs => scanToken c cs

/-- `skip_bom`. -/
def skipBom : Text → Text
  | c :: cs => if c = Char.ofNat 0xFEFF then cs else c :: cs
  | [] => []

/-- What the calls of `scan` give, up to the end of the input or an error. -/
def scanAll : ℕ → Text → List Token
  | 0, _ => []
  | fuel + 1, cs =>
    match scan cs with
    | (.endOfInput, _) => [.endOfInput]
    | (.parseError, _) => [.parseError]
    | (t, cs) => t :: scanAll fuel cs

/-- The tokens of a text: every token but the last takes a character. -/
def tokens (cs : Text) : List Token := scanAll (cs.length + 1) cs

end Lexer

end TcpServer
