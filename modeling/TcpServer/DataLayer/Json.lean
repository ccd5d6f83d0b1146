import TcpServer.DataLayer.Cpp
import Mathlib.Data.Rat.Floor

/-!
# JSON values

What the program uses of `nlohmann::json` (`DataLayer/json.hpp`): the kinds of values, the two
subscript operators, `contains`, `is_number_unsigned` and `get`.

A parsed number is of one of three kinds. A literal without sign, point or exponent is unsigned, a
literal with a minus sign is a (signed) integer, everything else is a double; the double is carried as
the rational it denotes, so that `0.0` and `-0.0` are one value. `get<size_t>` is a `static_cast` from
whichever kind is stored: the unsigned one is kept, the signed one (an `int64_t`, carried by its bits)
wraps, the double is truncated. A double whose truncation is no `size_t` has no defined conversion, so
what it becomes is a parameter (`undef`) of everything that converts.

An object's members are a list without order of its own: `find` is the lookup by key.
-/

namespace TcpServer

inductive Json where
  | null
  | boolean (b : Bool)
  | numberInteger (n : BitVec 64)
  | numberUnsigned (n : SizeT)
  | numberFloat (q : ℚ)
  | string (s : String)
  | array (elements : List Json)
  | object (members : List (String × Json))

namespace Json

/-- `find` on the members of an object. -/
def find? : Json → String → Option Json
  | .object members, key => members.lookup key
  | _, _ => none

/-- `contains`: false on everything that is not an object. -/
def contains (j : Json) (key : String) : Bool := (j.find? key).isSome

def isNumberUnsigned : Json → Bool
  | .numberUnsigned _ => true
  | _ => false

/-- The unsigned number under a key, if there is one. -/
def unsigned? (j : Json) (key : String) : Option SizeT :=
  match j.find? key with
  | some (.numberUnsigned n) => some n
  | _ => none

/-- `operator[]` on a mutable value: null becomes an object, a missing key of an object becomes a
null member, and any other kind throws. The second component is the value it leaves behind. -/
def subscript (j : Json) (key : String) : Except Abort (Json × Json) :=
  match j with
  | .null => .ok (.null, .object [(key, .null)])
  | .object members =>
    match members.lookup key with
    | some v => .ok (v, .object members)
    | none => .ok (.null, .object ((key, .null) :: members))
  | _ => .error .typeError

/-- `operator[]` on a const value: the key must be there, which only an assertion checks. -/
def constSubscript (j : Json) (key : String) : Except Abort Json :=
  match j with
  | .object members =>
    match members.lookup key with
    | some v => .ok v
    | none => .error .undefinedBehaviour
  | _ => .error .typeError

/-- Truncation toward zero. -/
def truncate (q : ℚ) : ℤ := if 0 ≤ q then ⌊q⌋ else ⌈q⌉

/-- `static_cast<size_t>` of a double: defined when the truncated value is a `size_t`. -/
def castFloat (undef : ℚ → SizeT) (q : ℚ) : SizeT :=
  if 0 ≤ truncate q ∧ truncate q < 2 ^ 64 then (truncate q : SizeT) else undef q

/-- `get<size_t>`. -/
def getSizeT (undef : ℚ → SizeT) : Json → Except Abort SizeT
  | .numberUnsigned n => .ok n
  | .numberInteger n => .ok n
  | .numberFloat q => .ok (castFloat undef q)
  | _ => .error .typeError

/-- `get<std::string>`. -/
def getString : Json → Except Abort String
  | .string s => .ok s
  | _ => .error .typeError

/-- The elements a range-based `for` visits: those of an array or an object, none of null, and any
other value itself. -/
def items : Json → List Json
  | .null => []
  | .array elements => elements
  | .object members => members.map Prod.snd
  | j => [j]

/-- The number a value denotes. -/
def number? : Json → Option ℚ
  | .numberUnsigned n => some (n.toNat : ℚ)
  | .numberInteger n => some (n.toInt : ℚ)
  | .numberFloat q => some q
  | _ => none

/-- A const subscript that returns has found its key. -/
theorem constSubscript_eq_ok {j v : Json} {key : String} :
    j.constSubscript key = .ok v ↔ j.find? key = some v := by
  cases j with
  | object members =>
    simp only [constSubscript, find?]
    cases members.lookup key with
    | none => simp only [reduceCtorEq]
    | some w => simp only [Except.ok.injEq, Option.some.injEq]
  | _ => simp only [constSubscript, find?, reduceCtorEq]

/-- `operator[]` on a mutable value leaves it as it was when it finds the key. -/
theorem subscript_of_find {j v : Json} {key : String} (h : j.find? key = some v) :
    j.subscript key = .ok (v, j) := by
  cases j with
  | object members =>
    have hv : members.lookup key = some v := h
    simp only [subscript, hv]
  | _ => cases h

/-- `operator[]` on a mutable value yields null, or throws, when it does not find the key. -/
theorem subscript_of_not_find {j : Json} {key : String} (h : j.find? key = none) :
    (∃ j', j.subscript key = .ok (.null, j')) ∨ j.subscript key = .error .typeError := by
  cases j with
  | null => exact .inl ⟨_, rfl⟩
  | object members =>
    have hv : members.lookup key = none := h
    simp only [subscript, hv]
    exact .inl ⟨_, rfl⟩
  | _ => exact .inr rfl

/-- A number that is a natural below 2^64 is converted to itself, whatever kind stores it. -/
theorem getSizeT_of_number {undef : ℚ → SizeT} {j : Json} {n : ℕ} (h : j.number? = some (n : ℚ))
    (hn : n < 2 ^ 64) : j.getSizeT undef = .ok (n : SizeT) := by
  cases j with
  | numberUnsigned m =>
    have hm : m.toNat = n := by simpa only [number?, Option.some.injEq, Nat.cast_inj] using h
    rw [getSizeT, ← hm, natCast_toNat]
  | numberInteger m =>
    have hm : m.toInt = (n : ℤ) := by
      have := Option.some.inj h
      exact_mod_cast this
    have bits : m = (n : SizeT) := by
      rw [← intCast_toInt m, hm, Int.cast_natCast]
    rw [getSizeT, bits]
  | numberFloat q =>
    have hq : q = (n : ℚ) := Option.some.inj h
    have ht : truncate q = (n : ℤ) := by
      rw [truncate, hq, if_pos (Nat.cast_nonneg n), Int.floor_natCast]
    have hr : 0 ≤ truncate q ∧ truncate q < 2 ^ 64 := by
      rw [ht]
      omega
    rw [getSizeT, castFloat, if_pos hr, ht, Int.cast_natCast]
  | _ => cases h

end Json

end TcpServer
