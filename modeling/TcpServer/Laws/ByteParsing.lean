import TcpServer.Laws.ByteScanning

/-!
# Parsing bytes

`json::parse` gets bytes, and what it makes of them is what `Json.parse` makes of the text they encode,
with the bytes of a string in place of every string (`parse_utf8`). There is nothing else it accepts:
bytes that are no UTF-8 are rejected (`parse_bytes_iff`).

The parser looks at strings in one place only, where it puts the members of an object in the order of
their keys; and the order of texts is that of their bytes (`strictMono_bytesOf`).
-/

namespace TcpServer

/-! ## Other strings -/

namespace Json

variable (f : String → String)

mutual

/-- The value with other strings, the keys of its objects included. -/
def mapStrings : Json → Json
  | .string s => .string (f s)
  | .array elements => .array (mapElements elements)
  | .object members => .object (mapMembers members)
  | j => j

def mapElements : List Json → List Json
  | [] => []
  | v :: vs => v.mapStrings :: mapElements vs

def mapMembers : List (String × Json) → List (String × Json)
  | [] => []
  | (key, v) :: ms => (f key, v.mapStrings) :: mapMembers ms

end

theorem mapElements_eq (vs : List Json) : mapElements f vs = vs.map (mapStrings f) := by
  induction vs with
  | nil => rfl
  | cons v vs ih => rw [mapElements, ih, List.map_cons]

theorem mapMembers_eq (ms : List (String × Json)) :
    mapMembers f ms = ms.map fun m => (f m.1, m.2.mapStrings f) := by
  induction ms with
  | nil => rfl
  | cons m ms ih => rw [mapMembers, ih, List.map_cons]

theorem mapStrings_array (vs : List Json) :
    (Json.array vs).mapStrings f = .array (vs.map (mapStrings f)) := by
  rw [mapStrings, mapElements_eq]

theorem mapStrings_object (ms : List (String × Json)) :
    (Json.object ms).mapStrings f = .object (ms.map fun m => (f m.1, m.2.mapStrings f)) := by
  rw [mapStrings, mapMembers_eq]

end Json

/-- An open value with other strings. -/
def OpenValue.mapStrings (f : String → String) : OpenValue → OpenValue
  | .array elements => .array (elements.map (Json.mapStrings f))
  | .object members key => .object (members.map fun m => (f m.1, m.2.mapStrings f)) (f key)

namespace Parser

variable {strtod : Text → Option ℚ} {f : String → String}

/-- What the parser gives, with other strings. -/
def mapResult (f : String → String) (r : Json × List Token) : Json × List Token :=
  (r.1.mapStrings f, r.2.map (Token.mapString f))

theorem scalar_mapString (t : Token) :
    scalar strtod (t.mapString f) = (scalar strtod t).map (Json.mapStrings f) := by
  cases t with
  | valueFloat text =>
    show (strtod text).map _ = ((strtod text).map _).map _
    rw [Option.map_map]
    rfl
  | _ => rfl

/-- A token that begins no array and no object is a value, or none. -/
theorem saxParseInternal_token {states : List OpenValue} {t : Token} (hobject : t ≠ .beginObject)
    (harray : t ≠ .beginArray) (ts : List Token) :
    saxParseInternal strtod states (t :: ts) =
      (scalar strtod t).bind fun v => stateEvaluation strtod states v ts := by
  cases hv : scalar strtod t with
  | some v => exact saxParseInternal_scalar hv
  | none =>
    cases t <;> first
      | exact absurd rfl hobject
      | exact absurd rfl harray
      | simp only [saxParseInternal, hv, Option.bind_none]

/-- The parser does with other strings what it does with strings, with these tokens. -/
def Commutes (strtod : Text → Option ℚ) (f : String → String) (ts : List Token) : Prop :=
  (∀ states, saxParseInternal strtod (states.map (OpenValue.mapStrings f))
      (ts.map (Token.mapString f)) =
    (saxParseInternal strtod states ts).map (mapResult f)) ∧
  ∀ states v, stateEvaluation strtod (states.map (OpenValue.mapStrings f)) (v.mapStrings f)
      (ts.map (Token.mapString f)) =
    (stateEvaluation strtod states v ts).map (mapResult f)

variable {ts : List Token}

theorem saxParseInternal_mapStrings
    (shorter : ∀ ts' : List Token, ts'.length < ts.length → Commutes strtod f ts')
    (states : List OpenValue) :
    saxParseInternal strtod (states.map (OpenValue.mapStrings f)) (ts.map (Token.mapString f)) =
      (saxParseInternal strtod states ts).map (mapResult f) := by
  cases ts with
  | nil => rfl
  | cons t ts =>
    by_cases hobject : t = .beginObject
    · subst hobject
      cases ts with
      | nil => rfl
      | cons t ts =>
        cases t with
        | endObject => exact (shorter ts (by simp +arith)).2 states (.object [])
        | valueString key =>
          cases ts with
          | nil => rfl
          | cons t ts =>
            cases t with
            | nameSeparator => exact (shorter ts (by simp +arith)).1 (.object [] key :: states)
            | _ => rfl
        | _ => rfl
    by_cases harray : t = .beginArray
    · subst harray
      cases ts with
      | nil => rfl
      | cons t ts =>
        cases t with
        | endArray => exact (shorter ts (by simp +arith)).2 states (.array [])
        | _ => exact (shorter (_ :: ts) (Nat.lt_succ_self _)).1 (.array [] :: states)
    -- a value of one token, or an error
    have hobject' : t.mapString f ≠ .beginObject := by
      cases t <;> first | exact Token.noConfusion | exact absurd rfl hobject
    have harray' : t.mapString f ≠ .beginArray := by
      cases t <;> first | exact Token.noConfusion | exact absurd rfl harray
    rw [List.map_cons, saxParseInternal_token hobject' harray',
      saxParseInternal_token hobject harray, scalar_mapString]
    cases scalar strtod t with
    | none => rfl
    | some v => exact (shorter ts (by simp +arith)).2 states v

theorem stateEvaluation_mapStrings (mono : StrictMono f)
    (shorter : ∀ ts' : List Token, ts'.length < ts.length → Commutes strtod f ts')
    (states : List OpenValue) (v : Json) :
    stateEvaluation strtod (states.map (OpenValue.mapStrings f)) (v.mapStrings f)
        (ts.map (Token.mapString f)) =
      (stateEvaluation strtod states v ts).map (mapResult f) := by
  cases states with
  | nil =>
    rw [List.map_nil, stateEvaluation_nil, stateEvaluation_nil]
    rfl
  | cons o states =>
    cases ts with
    | nil => cases o <;> rfl
    | cons t ts =>
      cases o with
      | array elements =>
        have added : (elements ++ [v]).map (Json.mapStrings f) =
            elements.map (Json.mapStrings f) ++ [v.mapStrings f] := List.map_append
        cases t with
        | valueSeparator =>
          have goesOn := (shorter ts (by simp +arith)).1 (.array (elements ++ [v]) :: states)
          rw [List.map_cons, OpenValue.mapStrings, added] at goesOn
          exact goesOn
        | endArray =>
          have closed := (shorter ts (by simp +arith)).2 states (.array (elements ++ [v]))
          rw [Json.mapStrings_array, added] at closed
          exact closed
        | _ => rfl
      | object members key =>
        have inserted := OrderedMap.insert_map mono (Json.mapStrings f) key v members
        cases t with
        | valueSeparator =>
          cases ts with
          | nil => rfl
          | cons t ts =>
            cases t with
            | valueString key' =>
              cases ts with
              | nil => rfl
              | cons t ts =>
                cases t with
                | nameSeparator =>
                  have goesOn := (shorter ts (by simp +arith)).1
                    (.object (OrderedMap.insert key v members) key' :: states)
                  rw [List.map_cons, OpenValue.mapStrings, ← inserted] at goesOn
                  exact goesOn
                | _ => rfl
            | _ => rfl
        | endObject =>
          have closed :=
            (shorter ts (by simp +arith)).2 states (.object (OrderedMap.insert key v members))
          rw [Json.mapStrings_object, ← inserted] at closed
          exact closed
        | _ => rfl

/-- **The parser does with other strings what it does with strings**, as long as their order stays the
same. By induction on the number of tokens, the two loops at once. -/
theorem commutes (strtod : Text → Option ℚ) (mono : StrictMono f) (ts : List Token) :
    Commutes strtod f ts := by
  induction hn : ts.length using Nat.strong_induction_on generalizing ts with
  | _ n ih =>
    have shorter (ts' : List Token) (h : ts'.length < ts.length) : Commutes strtod f ts' :=
      ih _ (hn ▸ h) ts' rfl
    exact ⟨saxParseInternal_mapStrings shorter, stateEvaluation_mapStrings mono shorter⟩

end Parser

namespace Bytes

variable {cs tail : Text} {ts r : List Token} {strtod : Text → Option ℚ} {strict : Bool} {v : Json}

theorem lt_of_mem_encodeAll {b : ℕ} (h : b ∈ Utf8.encodeAll cs) : b < 0x100 := by
  obtain ⟨c, _, hc⟩ := List.mem_flatMap.mp h
  obtain ⟨row, hrow, fits⟩ := Utf8.exists_row c
  exact fits_lt hrow fits b hc

/-- Bytes are in the order of the characters that carry them. -/
theorem map_ofNat_lt {xs ys : List ℕ} (hx : ∀ b ∈ xs, b < 0x100) (hy : ∀ b ∈ ys, b < 0x100)
    (h : xs < ys) : xs.map Char.ofNat < ys.map Char.ofNat := by
  induction xs generalizing ys with
  | nil =>
    cases ys with
    | nil => exact absurd h (List.lt_irrefl _)
    | cons y ys => exact List.nil_lt_cons _ _
  | cons x xs ih =>
    cases ys with
    | nil => exact absurd h (List.not_lt_nil _)
    | cons y ys =>
      obtain ⟨hx₀, hxs⟩ := List.forall_mem_cons.mp hx
      obtain ⟨hy₀, hys⟩ := List.forall_mem_cons.mp hy
      rw [List.map_cons, List.map_cons, List.cons_lt_cons_iff]
      rcases List.cons_lt_cons_iff.mp h with hlt | ⟨rfl, hlt⟩
      · left
        show (Char.ofNat x).toNat < (Char.ofNat y).toNat
        rw [Lexer.toNat_ofNat (.inl (by omega)), Lexer.toNat_ofNat (.inl (by omega))]
        exact hlt
      · exact .inr ⟨rfl, ih hxs hys hlt⟩

/-- **The order of strings is that of their bytes.** -/
theorem strictMono_bytesOf : StrictMono bytesOf := by
  intro s s' h
  have texts : s.toList < s'.toList := String.lt_iff_toList_lt.mp h
  have bytes := map_ofNat_lt (fun _ => lt_of_mem_encodeAll) (fun _ => lt_of_mem_encodeAll)
    (Utf8.encodeAll_lt texts)
  rw [String.lt_iff_toList_lt, bytesOf, bytesOf, String.toList_ofList, String.toList_ofList]
  exact bytes

/-- **What the parser makes of bytes is what it makes of the text they encode**, with the bytes of the
strings in their place. -/
theorem parse_utf8 (strtod : Text → Option ℚ) (strict : Bool) (hend : IsEnd tail) (cs : Text) :
    parse strtod strict (utf8 cs ++ tail) =
      (Parser.parse strtod strict cs).map (Json.mapStrings bytesOf) := by
  have same := (Parser.commutes strtod strictMono_bytesOf (Lexer.tokens (Lexer.skipBom cs))).1 []
  rw [← tokens_utf8 hend, List.map_nil] at same
  rw [parse, Parser.parse, same]
  cases Parser.saxParseInternal strtod [] (Lexer.tokens (Lexer.skipBom cs)) with
  | none => rfl
  | some r =>
    obtain ⟨v, ts⟩ := r
    have atEnd : ((ts.map (Token.mapString bytesOf)).head? == some .endOfInput) =
        (ts.head? == some .endOfInput) := by
      cases ts with
      | nil => rfl
      | cons t ts => cases t <;> rfl
    simp only [Option.map_some, Parser.mapResult, atEnd]
    split <;> rfl

theorem utf8_of_parse (h : parse strtod true cs = some v) :
    ∃ text tail, IsEnd tail ∧ cs = utf8 text ++ tail := by
  rw [parse] at h
  split at h
  next => cases h
  next v' r hp =>
    split at h
    next hend =>
      obtain ⟨ts, _, hts⟩ := Parser.saxParseInternal_iff.mp hp
      cases r with
      | nil => cases hend
      | cons t r =>
        obtain rfl : t = .endOfInput := by simpa using hend
        exact utf8_of_tokens hts
    next => cases h

/-- **`parse` accepts the bytes of the texts that the parser accepts, with their values, and no other
bytes**; what is behind a null byte is not looked at. -/
theorem parse_bytes_iff (strtod : Text → Option ℚ) (bytes : Text) (v : Json) :
    parse strtod true bytes = some v ↔
      ∃ text tail w, IsEnd tail ∧ bytes = utf8 text ++ tail ∧
        Parser.parse strtod true text = some w ∧ v = w.mapStrings bytesOf := by
  constructor
  · intro h
    obtain ⟨text, tail, hend, rfl⟩ := utf8_of_parse h
    rw [parse_utf8 strtod true hend] at h
    obtain ⟨w, hw, rfl⟩ := Option.map_eq_some_iff.mp h
    exact ⟨text, tail, w, hend, rfl, hw, rfl⟩
  · rintro ⟨text, tail, w, hend, rfl, hw, rfl⟩
    rw [parse_utf8 strtod true hend, hw]
    rfl

end Bytes

end TcpServer
