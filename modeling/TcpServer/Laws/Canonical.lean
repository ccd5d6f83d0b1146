import TcpServer.DataLayer.Json

/-!
# Values up to the kind of an integer

A text does not say of which kind a non-negative integer was: `3` is read as an unsigned number, whatever
was written, and so is what is written for `-0`. `Json.canonical` is what a value is read back as. To the
code the difference matters in one place only, the check that a number is unsigned; what `get` and the
subscript operators make of a value is the same.
-/

namespace TcpServer

namespace Json

mutual

/-- The value with every non-negative integer unsigned. -/
def canonical : Json → Json
  | .numberInteger n => if n.slt 0 then .numberInteger n else .numberUnsigned n
  | .array elements => .array (canonicalElements elements)
  | .object members => .object (canonicalMembers members)
  | j => j

def canonicalElements : List Json → List Json
  | [] => []
  | v :: vs => v.canonical :: canonicalElements vs

def canonicalMembers : List (String × Json) → List (String × Json)
  | [] => []
  | (key, v) :: ms => (key, v.canonical) :: canonicalMembers ms

end

theorem canonicalElements_eq (vs : List Json) : canonicalElements vs = vs.map canonical := by
  induction vs with
  | nil => rfl
  | cons v vs ih => rw [canonicalElements, ih, List.map_cons]

theorem canonicalMembers_eq (ms : List (String × Json)) :
    canonicalMembers ms = ms.map fun m => (m.1, m.2.canonical) := by
  induction ms with
  | nil => rfl
  | cons m ms ih => rw [canonicalMembers, ih, List.map_cons]

end Json

theorem lookup_canonicalMembers (ms : List (String × Json)) (key : String) :
    (Json.canonicalMembers ms).lookup key = (ms.lookup key).map Json.canonical := by
  induction ms with
  | nil => rfl
  | cons m ms ih =>
    rw [Json.canonicalMembers, List.lookup_cons, List.lookup_cons, ih]
    cases key == m.1 <;> rfl

theorem find?_canonical (v : Json) (key : String) :
    v.canonical.find? key = (v.find? key).map Json.canonical := by
  cases v with
  | object members => exact lookup_canonicalMembers members key
  | numberInteger n =>
    rw [Json.canonical]
    split <;> rfl
  | _ => rfl

theorem constSubscript_canonical (j : Json) (key : String) :
    j.canonical.constSubscript key = (j.constSubscript key).map Json.canonical := by
  cases j with
  | object members =>
    rw [Json.canonical, Json.constSubscript, Json.constSubscript, lookup_canonicalMembers]
    cases members.lookup key <;> rfl
  | numberInteger n =>
    rw [Json.canonical]
    split <;> rfl
  | _ => rfl

/-- An integer is converted to the same `size_t`, whatever its kind. -/
theorem getSizeT_canonical (undef : ℚ → SizeT) (j : Json) :
    j.canonical.getSizeT undef = j.getSizeT undef := by
  cases j with
  | numberInteger n =>
    rw [Json.canonical]
    split <;> rfl
  | _ => rfl

theorem getString_canonical (j : Json) : j.canonical.getString = j.getString := by
  cases j with
  | numberInteger n =>
    rw [Json.canonical]
    split <;> rfl
  | _ => rfl

theorem items_canonical (j : Json) : j.canonical.items = j.items.map Json.canonical := by
  cases j with
  | array elements => exact Json.canonicalElements_eq elements
  | object members =>
    rw [Json.canonical, Json.canonicalMembers_eq, Json.items, Json.items, List.map_map, List.map_map]
    rfl
  | numberInteger n =>
    show (Json.numberInteger n).canonical.items = [(Json.numberInteger n).canonical]
    rw [Json.canonical]
    split <;> rfl
  | _ => rfl

/-- An integer is the same number, whatever its kind. -/
theorem number?_canonical (j : Json) : j.canonical.number? = j.number? := by
  cases j with
  | numberInteger n =>
    rw [Json.canonical]
    split
    next => rfl
    next positive => rw [Json.number?, Json.number?, toInt_of_positive positive, Int.cast_natCast]
  | _ => rfl

end TcpServer
