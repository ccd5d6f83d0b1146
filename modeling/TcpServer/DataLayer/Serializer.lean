import TcpServer.DataLayer.Lexer

/-!
# The serializer

`nlohmann::detail::serializer` of `DataLayer/json.hpp`: `dump` without arguments, which is all the
program calls. There is no indentation and non-ASCII characters are written as they are.

- `dump_integer` fills its buffer from the end, two digits at a time. What an earlier number has left in
  the buffer makes no difference (`dumpInteger_eq`), so every number begins with the buffer as it was
  constructed.
- Strings are of characters, so the error handler is never asked. `Bytes.lean` has `dump_escaped` of bytes,
  with its buffer.
- `dump_float` is a parameter. A double is carried as the rational it denotes, so the two zeros are one.
-/

namespace TcpServer

namespace Serializer

/-! ## Strings -/

/-- A lower-case hex digit of `%04x`. -/
def hexDigit (n : ℕ) : Char := Nat.digitChar n

/-- `dump_escaped` of one character. -/
def escape (c : Char) : Text :=
  if c = Char.ofNat 0x08 then ['\\', 'b']
  else if c = Char.ofNat 0x09 then ['\\', 't']
  else if c = Char.ofNat 0x0A then ['\\', 'n']
  else if c = Char.ofNat 0x0C then ['\\', 'f']
  else if c = Char.ofNat 0x0D then ['\\', 'r']
  else if c = Char.ofNat 0x22 then ['\\', '"']
  else if c = Char.ofNat 0x5C then ['\\', '\\']
  else if c.toNat ≤ 0x1F then
    ['\\', 'u', hexDigit (c.toNat / 4096), hexDigit (c.toNat / 256 % 16), hexDigit (c.toNat / 16 % 16),
      hexDigit (c.toNat % 16)]
  else [c]

/-- `dump_escaped`. -/
def dumpEscaped (s : String) : Text := s.toList.flatMap escape

/-- A string between quotation marks. -/
def dumpString (s : String) : Text := '"' :: dumpEscaped s ++ ['"']

/-! ## Integers -/

/-- `count_digits`, with the digits that are counted. -/
def countDigits (x : ℕ) (nDigits : ℕ := 1) : ℕ :=
  if x < 10 then nDigits
  else if x < 100 then nDigits + 1
  else if x < 1000 then nDigits + 2
  else if x < 10000 then nDigits + 3
  else countDigits (x / 10000) (nDigits + 4)

/-- An entry of `digits_to_99`. -/
def digitsTo99 (i : ℕ) : Char × Char := (Nat.digitChar (i / 10), Nat.digitChar (i % 10))

/-- The loop of `dump_integer` and the digits after it; the buffer is filled in front of `ptr`. -/
def fillBuffer (absValue ptr : ℕ) (buffer : Text) : Text :=
  if 100 ≤ absValue then
    let digits := digitsTo99 (absValue % 100)
    fillBuffer (absValue / 100) (ptr - 2) ((buffer.set (ptr - 1) digits.2).set (ptr - 2) digits.1)
  else if 10 ≤ absValue then
    let digits := digitsTo99 absValue
    (buffer.set (ptr - 1) digits.2).set (ptr - 2) digits.1
  else buffer.set (ptr - 1) (Char.ofNat (0x30 + absValue))

/-- `remove_sign`, of a negative number. -/
def removeSign (x : BitVec 64) : SizeT := -(x + 1) + 1

/-- `dump_integer`, at a type that is signed or is not. -/
def dumpInteger (signed : Bool) (numberBuffer : Text) (x : BitVec 64) : Text :=
  if x = 0 then ['0']
  else if signed && x.slt 0 then
    let absValue := (removeSign x).toNat
    let nChars := 1 + countDigits absValue
    (fillBuffer absValue nChars (numberBuffer.set 0 '-')).take nChars
  else
    let nChars := countDigits x.toNat
    (fillBuffer x.toNat nChars numberBuffer).take nChars

/-- `number_buffer`, as it is constructed. -/
def numberBuffer : Text := List.replicate 64 (Char.ofNat 0)

/-! ## Values -/

variable (dumpFloat : ℚ → Text)

mutual

/-- `dump`. -/
def dump : Json → Text
  | .null => ['n', 'u', 'l', 'l']
  | .boolean true => ['t', 'r', 'u', 'e']
  | .boolean false => ['f', 'a', 'l', 's', 'e']
  | .numberInteger n => dumpInteger true numberBuffer n
  | .numberUnsigned n => dumpInteger false numberBuffer n
  | .numberFloat q => dumpFloat q
  | .string s => dumpString s
  | .array elements => '[' :: dumpElements elements ++ [']']
  | .object members => '\x7b' :: dumpMembers members ++ ['\x7d']

/-- The elements of an array, with commas between them. -/
def dumpElements : List Json → Text
  | [] => []
  | [v] => dump v
  | v :: vs => dump v ++ ',' :: dumpElements vs

/-- The members of an object, with commas between them. -/
def dumpMembers : List (String × Json) → Text
  | [] => []
  | [(key, v)] => dumpString key ++ ':' :: dump v
  | (key, v) :: ms => dumpString key ++ ':' :: dump v ++ ',' :: dumpMembers ms

end

end Serializer

/-- `nlohmann::json::dump`. -/
def Json.dump (dumpFloat : ℚ → Text) (j : Json) : String :=
  String.ofList (Serializer.dump dumpFloat j)

end TcpServer
