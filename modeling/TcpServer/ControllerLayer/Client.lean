import TcpServer.ControllerLayer.RequestHandler
import TcpServer.DataLayer.Parser
import TcpServer.DataLayer.Serializer

/-!
# The client

`Client` of `tests/Net_tests.cpp`, the program's only client: it sends the elements of three JSON files
to the server. Of a request it sets the method, the target and the body; the other header fields, the
connection and what it does with the response are left out.

An element is looked up with the mutable `operator[]`, which fills up the array it is looked up in; a
later lookup finds the nulls it would put there itself.
-/

namespace TcpServer

/-- `operator[]` with an index, on a mutable value. -/
def Json.element (j : Json) (idx : ℕ) : Except Abort Json :=
  match j with
  | .null => .ok .null
  | .array elements => .ok (elements.getD idx .null)
  | _ => .error .typeError

structure Client where
  buyJson : Json
  removeJson : Json
  makeOrderJson : Json

namespace Client

/-- The constructor, from the texts of the three files. -/
def ofTexts (strtod : Text → Option ℚ) (buyText removeText makeOrderText : String) :
    Except Abort Client := do
  let buyJson ← Json.readStream strtod buyText
  let removeJson ← Json.readStream strtod removeText
  let makeOrderJson ← Json.readStream strtod makeOrderText
  return { buyJson, removeJson, makeOrderJson }

variable (dumpFloat : ℚ → Text)

/-- The body of a request: an element of a file, and a line break. -/
def body (json : Json) (idx : ℕ) : Except Abort String := do
  let v ← json.element idx
  return v.dump dumpFloat ++ "\n"

/-- `run`: the request that is sent. -/
def run (client : Client) (target type : String) (idx : ℕ) : Except Abort Request := do
  if type = "buy" then
    return { method := .post, target, body := ← body dumpFloat client.buyJson idx }
  else if type = "make_order" then
    return { method := .post, target, body := ← body dumpFloat client.makeOrderJson idx }
  else if type = "remove" then
    return { method := .delete_, target, body := ← body dumpFloat client.removeJson idx }
  else return { method := .get, target, body := "" }

end Client

end TcpServer
