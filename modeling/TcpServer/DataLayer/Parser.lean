import TcpServer.Base.OrderedMap
import TcpServer.DataLayer.Lexer
import Mathlib.Data.String.Basic

/-!
# The parser

`nlohmann::detail::parser` of `DataLayer/json.hpp`, with `json_sax_dom_parser` as its consumer: the
parser is one loop over the tokens with a stack of the arrays and objects that are open, and the value
is built on the way. The members of an object are a `std::map`; a key that comes again is assigned
again.

- Every token is taken as it is read, so what is left of the tokens is where `get_token` goes on.
- A parse error throws, whatever is wrong; here it is `none`.
- `strtod` is a parameter: `none` where the double is not finite.
- The parser has no callback.
-/

namespace TcpServer

/-- An array or an object that is not closed yet: an entry of `states` and of `ref_stack`. -/
inductive OpenValue where
  | array (elements : List Json)
  /-- The key is the one whose value comes next. -/
  | object (members : List (String × Json)) (key : String)

namespace Parser

variable (strtod : Text → Option ℚ)

/-- The values of one token. -/
def scalar : Token → Option Json
  | .literalTrue => some (.boolean true)
  | .literalFalse => some (.boolean false)
  | .literalNull => some .null
  | .valueString s => some (.string s)
  | .valueUnsigned n => some (.numberUnsigned n)
  | .valueInteger n => some (.numberInteger n)
  | .valueFloat text => (strtod text).map .numberFloat
  | _ => none

mutual

/-- `sax_parse_internal`, from the top of its loop: a value is to be parsed. -/
def saxParseInternal (states : List OpenValue) (ts : List Token) : Option (Json × List Token) :=
  match ts with
  | [] => none
  | .beginObject :: ts =>
    match ts with
    | .endObject :: ts => stateEvaluation states (.object []) ts
    | .valueString key :: .nameSeparator :: ts => saxParseInternal (.object [] key :: states) ts
    | _ => none
  | .beginArray :: ts =>
    match ts with
    | .endArray :: ts => stateEvaluation states (.array []) ts
    | ts => saxParseInternal (.array [] :: states) ts
  | t :: ts =>
    match scalar strtod t with
    | some v => stateEvaluation states v ts
    | none => none
termination_by structural ts

/-- `sax_parse_internal`, from the line that is reached after a value was parsed. -/
def stateEvaluation (states : List OpenValue) (v : Json) (ts : List Token) :
    Option (Json × List Token) :=
  match states with
  | [] => some (v, ts)
  | .array elements :: states =>
    match ts with
    | .valueSeparator :: ts => saxParseInternal (.array (elements ++ [v]) :: states) ts
    | .endArray :: ts => stateEvaluation states (.array (elements ++ [v])) ts
    | _ => none
  | .object members key :: states =>
    match ts with
    | .valueSeparator :: .valueString key' :: .nameSeparator :: ts =>
      saxParseInternal (.object (OrderedMap.insert key v members) key' :: states) ts
    | .endObject :: ts => stateEvaluation states (.object (OrderedMap.insert key v members)) ts
    | _ => none
termination_by structural ts

end

/-- `parse`: in strict mode, the input must be completely read. -/
def parse (strict : Bool) (text : Text) : Option Json :=
  match saxParseInternal strtod [] (Lexer.tokens (Lexer.skipBom text)) with
  | none => none
  | some (v, ts) => if !strict || ts.head? == some .endOfInput then some v else none

end Parser

/-- `nlohmann::json::parse`. -/
def Json.parse (strtod : Text → Option ℚ) (s : String) : Option Json :=
  Parser.parse strtod true s.toList

/-- `operator>>`: what is behind the value stays in the stream. -/
def Json.readStream (strtod : Text → Option ℚ) (s : String) : Except Abort Json :=
  match Parser.parse strtod false s.toList with
  | some v => .ok v
  | none => .error .parseError

end TcpServer
