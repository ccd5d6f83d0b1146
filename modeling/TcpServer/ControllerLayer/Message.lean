import TcpServer.ControllerLayer.Session

/-!
# Messages

What the four lambdas of `RequestHandler.h` make of a response, and what `Session::send_response` asks
the message for before it is written: whether the connection is to be kept.

Boost.Beast is no part of the program. What is used of it is a parameter (`Beast`): the header fields of a
message, `prepare_payload` and `keep_alive`. What is relied on is its documentation (`Beast.Documented`):
to set one field leaves the others alone, `prepare_payload` touches the fields of the payload only, and a
message of HTTP/1.0 is kept alive only if its field `Connection` says so.
-/

namespace TcpServer

/-- The constants of `http::field` that matter here. -/
inductive Field where
  | server
  | contentType
  /-- Set by `prepare_payload`. -/
  | contentLength
  /-- Read by `keep_alive`. -/
  | connection
  deriving DecidableEq, Repr

/-- An `http::response<http::string_body>`. -/
structure Message (Fields : Type) where
  result : ℕ
  version : ℕ
  fields : Fields
  body : String

/-- What is used of Boost.Beast. -/
structure Beast where
  /-- `BOOST_BEAST_VERSION_STRING`. -/
  versionString : String
  /-- `http::fields`. -/
  Fields : Type
  noFields : Fields
  set : Fields → Field → String → Fields
  find? : Fields → Field → Option String
  preparePayload : Message Fields → Message Fields
  keepAlive : Message Fields → Bool

namespace Beast

/-- What is relied on of it. -/
structure Documented (beast : Beast) : Prop where
  find?_noFields : ∀ field, beast.find? beast.noFields field = none
  find?_set_ne : ∀ fields field value other, other ≠ field →
    beast.find? (beast.set fields field value) other = beast.find? fields other
  preparePayload_version : ∀ m, (beast.preparePayload m).version = m.version
  preparePayload_connection : ∀ m, beast.find? (beast.preparePayload m).fields .connection =
    beast.find? m.fields .connection
  keepAlive_http10 : ∀ m : Message beast.Fields, m.version < 11 →
    beast.find? m.fields .connection = none → beast.keepAlive m = false

variable (beast : Beast)

/-- What each of the lambdas does with its status and its body: `not_found`, `unsupported_method`,
`invalid_params` and `callback` differ in these alone. -/
def message (r : Response) : Message beast.Fields :=
  let fields := beast.set beast.noFields .server beast.versionString
  let fields := beast.set fields .contentType "text/html"
  beast.preparePayload { result := r.result, version := 10, fields, body := r.body }

/-- `send_response`: the flag that goes to `on_write` with a response is that of its message. -/
def Flagged : Network → Occurrence → Prop
  | _, .onWrite _ r (some keepAlive) => keepAlive = beast.keepAlive (beast.message r)
  | _, _ => True

instance (n : Network) : (a : Occurrence) → Decidable (beast.Flagged n a)
  | .onWrite _ _ (some _) => inferInstanceAs (Decidable (_ = _))
  | .onWrite _ _ none | .accept | .onRead _ _ | .handle _ | .describe _ | .run _ => isTrue trivial

variable {beast}

/-- No message of the program is kept alive: they are all of HTTP/1.0 and have no field `Connection`. -/
theorem Documented.closes (doc : beast.Documented) (r : Response) :
    beast.keepAlive (beast.message r) = false := by
  apply doc.keepAlive_http10
  · rw [message, doc.preparePayload_version]
    exact Nat.lt_succ_self 10
  · rw [message, doc.preparePayload_connection]
    show beast.find? (beast.set (beast.set beast.noFields _ _) _ _) .connection = none
    rw [doc.find?_set_ne _ _ _ _ Field.noConfusion, doc.find?_set_ne _ _ _ _ Field.noConfusion,
      doc.find?_noFields]

end Beast

end TcpServer
