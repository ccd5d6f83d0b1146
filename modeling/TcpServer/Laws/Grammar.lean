import TcpServer.DataLayer.Parser

/-!
# What the parser accepts

The grammar of JSON over tokens (`Value`), with the value each phrase denotes: a later member of an
object takes the place of an earlier one with the same key. The parser has no grammar, only a stack of
open arrays and objects and a loop. It accepts a phrase of the grammar, whatever stack it meets it with
(`Value.parses`), and it accepts nothing else (`value_of_parse`): what it takes from the tokens before
it comes to the evaluation of a state is a phrase, by induction on the number of tokens.
-/

namespace TcpServer

namespace Parser

variable (strtod : Text → Option ℚ)

mutual

/-- The phrases of the grammar, and what they denote. -/
inductive Value : List Token → Json → Prop
  | scalar {t : Token} {v : Json} (h : scalar strtod t = some v) : Value [t] v
  | emptyArray : Value [.beginArray, .endArray] (.array [])
  | array {ts : List Token} {elements : List Json} (h : Elements ts elements) :
    Value (.beginArray :: ts ++ [.endArray]) (.array elements)
  | emptyObject : Value [.beginObject, .endObject] (.object [])
  | object {ts : List Token} {members : List (String × Json)} (h : Members ts members) :
    Value (.beginObject :: ts ++ [.endObject]) (.object (OrderedMap.ofList members))

/-- Values with commas between them. -/
inductive Elements : List Token → List Json → Prop
  | last {ts : List Token} {v : Json} (h : Value ts v) : Elements ts [v]
  | cons {ts ts' : List Token} {v : Json} {vs : List Json} (h : Value ts v) (hs : Elements ts' vs) :
    Elements (ts ++ .valueSeparator :: ts') (v :: vs)

/-- Members with commas between them, in the order in which they are written. -/
inductive Members : List Token → List (String × Json) → Prop
  | last {key : String} {ts : List Token} {v : Json} (h : Value ts v) :
    Members (.valueString key :: .nameSeparator :: ts) [(key, v)]
  | cons {key : String} {ts ts' : List Token} {v : Json} {ms : List (String × Json)} (h : Value ts v)
    (hs : Members ts' ms) :
    Members (.valueString key :: .nameSeparator :: ts ++ .valueSeparator :: ts') ((key, v) :: ms)

end

variable {strtod} {t : Token} {ts : List Token} {v w : Json} {r : List Token} {states : List OpenValue}

/-! ## The tokens that begin a phrase -/

theorem scalar_ne_endArray (h : scalar strtod t = some v) : t ≠ .endArray := by
  rintro rfl
  cases h

theorem Value.head (h : Value strtod ts v) : ∃ t ts', ts = t :: ts' ∧ t ≠ .endArray := by
  cases h with
  | scalar h => exact ⟨_, _, rfl, scalar_ne_endArray h⟩
  | emptyArray => exact ⟨_, _, rfl, Token.noConfusion⟩
  | array h => exact ⟨_, _, rfl, Token.noConfusion⟩
  | emptyObject => exact ⟨_, _, rfl, Token.noConfusion⟩
  | object h => exact ⟨_, _, rfl, Token.noConfusion⟩

theorem Elements.head {vs : List Json} (h : Elements strtod ts vs) :
    ∃ t ts', ts = t :: ts' ∧ t ≠ .endArray := by
  cases h with
  | last h => exact h.head
  | cons h hs =>
    obtain ⟨t, ts', rfl, hne⟩ := h.head
    exact ⟨t, _, rfl, hne⟩

/-! ## What the loop does with a token -/

theorem saxParseInternal_scalar (h : scalar strtod t = some v) :
    saxParseInternal strtod states (t :: ts) = stateEvaluation strtod states v ts := by
  cases t <;> first | simp only [saxParseInternal, h] | cases h

theorem saxParseInternal_beginArray (h : ∃ t ts', ts = t :: ts' ∧ t ≠ .endArray) :
    saxParseInternal strtod states (.beginArray :: ts) =
      saxParseInternal strtod (.array [] :: states) ts := by
  obtain ⟨t, ts', rfl, hne⟩ := h
  cases t <;> first | exact absurd rfl hne | rfl

/-! ## A phrase is accepted -/

mutual

theorem Value.parses {ts : List Token} {v : Json} (h : Value strtod ts v)
    (states : List OpenValue) (r : List Token) :
    saxParseInternal strtod states (ts ++ r) = stateEvaluation strtod states v r := by
  match h with
  | .scalar token => exact saxParseInternal_scalar token
  | .emptyArray => rfl
  | .emptyObject => rfl
  | @Value.array _ ts _ phrase =>
    have parses := phrase.parses [] states r
    obtain ⟨t, ts', hts, hne⟩ := phrase.head
    have begins : ∃ t ts'', ts ++ .endArray :: r = t :: ts'' ∧ t ≠ Token.endArray :=
      ⟨t, _, congrArg (· ++ .endArray :: r) hts, hne⟩
    rw [List.cons_append, List.cons_append, List.append_assoc, List.singleton_append,
      saxParseInternal_beginArray begins]
    exact parses
  | @Value.object _ ts _ phrase =>
    obtain ⟨key, ts', hts, parses⟩ := phrase.parses
    rw [List.cons_append, List.cons_append, List.append_assoc, List.singleton_append, hts]
    exact parses [] states r

theorem Elements.parses {ts : List Token} {vs : List Json} (h : Elements strtod ts vs)
    (elements : List Json) (states : List OpenValue) (r : List Token) :
    saxParseInternal strtod (.array elements :: states) (ts ++ .endArray :: r) =
      stateEvaluation strtod states (.array (elements ++ vs)) r := by
  match h with
  | .last value => exact value.parses _ _
  | .cons value phrase =>
    rw [List.append_assoc, value.parses, List.append_cons elements]
    exact phrase.parses _ states r

theorem Members.parses {ts : List Token} {ms : List (String × Json)} (h : Members strtod ts ms) :
    ∃ key ts', ts = .valueString key :: .nameSeparator :: ts' ∧
      ∀ (members : List (String × Json)) (states : List OpenValue) (r : List Token),
        saxParseInternal strtod (.object members key :: states) (ts' ++ .endObject :: r) =
          stateEvaluation strtod states
            (.object (ms.foldl (fun m e => OrderedMap.insert e.1 e.2 m) members)) r := by
  match h with
  | .last value => exact ⟨_, _, rfl, fun _ _ _ => value.parses _ _⟩
  | .cons value phrase =>
    obtain ⟨key', ts', hts, parses⟩ := phrase.parses
    refine ⟨_, _, rfl, fun members states r => ?_⟩
    refine (congrArg _ (List.append_assoc _ _ _)).trans ((value.parses _ _).trans ?_)
    rw [hts]
    exact parses _ states r

end

/-! ## What is accepted is a phrase -/

/-- A phrase was taken from the tokens, and the loop has gone on with the evaluation of a state. -/
def Takes (strtod : Text → Option ℚ) (P : List Token → Json → Prop) (states : List OpenValue)
    (ts : List Token) (w : Json) (r : List Token) : Prop :=
  ∃ ts₁ v ts₂, P ts₁ v ∧ ts = ts₁ ++ ts₂ ∧ stateEvaluation strtod states v ts₂ = some (w, r)

theorem elements_of_parse {n : ℕ}
    (ih : ∀ (ts : List Token) (states : List OpenValue), ts.length ≤ n →
      saxParseInternal strtod states ts = some (w, r) → Takes strtod (Value strtod) states ts w r)
    {ts : List Token} (hn : ts.length ≤ n) {elements : List Json} {states : List OpenValue}
    (h : saxParseInternal strtod (.array elements :: states) ts = some (w, r)) :
    ∃ ts₁ vs ts₂, Elements strtod ts₁ vs ∧ ts = ts₁ ++ .endArray :: ts₂ ∧
      stateEvaluation strtod states (.array (elements ++ vs)) ts₂ = some (w, r) := by
  induction hk : ts.length using Nat.strong_induction_on generalizing ts elements with
  | _ k shorter =>
    obtain ⟨ts₁, v, ts₂, value, rfl, after⟩ := ih ts _ hn h
    rw [List.length_append] at hn hk
    rw [stateEvaluation.eq_def] at after
    simp only at after
    split at after
    next ts₃ =>
      have less : ts₃.length < k := by
        rw [← hk, List.length_cons]
        omega
      obtain ⟨ts₄, vs, ts₅, phrase, rfl, last⟩ := shorter _ less (by omega) after rfl
      refine ⟨_, v :: vs, ts₅, .cons value phrase, (List.append_assoc ts₁ (_ :: ts₄) _).symm, ?_⟩
      rwa [← List.append_cons elements] at last
    next ts₃ => exact ⟨ts₁, [v], ts₃, .last value, rfl, after⟩
    next => cases after

theorem members_of_parse {n : ℕ}
    (ih : ∀ (ts : List Token) (states : List OpenValue), ts.length ≤ n →
      saxParseInternal strtod states ts = some (w, r) → Takes strtod (Value strtod) states ts w r)
    {ts : List Token} (hn : ts.length ≤ n) {members : List (String × Json)} {key : String}
    {states : List OpenValue}
    (h : saxParseInternal strtod (.object members key :: states) ts = some (w, r)) :
    ∃ ts₁ ms ts₂, Members strtod (.valueString key :: .nameSeparator :: ts₁) ms ∧
      ts = ts₁ ++ .endObject :: ts₂ ∧
      stateEvaluation strtod states
        (.object (ms.foldl (fun m e => OrderedMap.insert e.1 e.2 m) members)) ts₂ = some (w, r) := by
  induction hk : ts.length using Nat.strong_induction_on generalizing ts members key with
  | _ k shorter =>
    obtain ⟨ts₁, v, ts₂, value, rfl, after⟩ := ih ts _ hn h
    rw [List.length_append] at hn hk
    rw [stateEvaluation.eq_def] at after
    simp only at after
    split at after
    next key' ts₃ =>
      have less : ts₃.length < k := by
        rw [← hk, List.length_cons, List.length_cons, List.length_cons]
        omega
      obtain ⟨ts₄, ms, ts₅, phrase, rfl, last⟩ := shorter _ less (by omega) after rfl
      exact ⟨_, (key, v) :: ms, ts₅, .cons value phrase,
        (List.append_assoc ts₁ (_ :: _ :: _ :: ts₄) _).symm, last⟩
    next ts₃ => exact ⟨ts₁, [(key, v)], ts₃, .last value, rfl, after⟩
    next => cases after

theorem value_of_parse {n : ℕ} {ts : List Token} (hn : ts.length ≤ n) {states : List OpenValue}
    (h : saxParseInternal strtod states ts = some (w, r)) :
    Takes strtod (Value strtod) states ts w r := by
  induction n generalizing ts states with
  | zero =>
    rw [List.eq_nil_of_length_eq_zero (Nat.le_zero.mp hn)] at h
    cases h
  | succ n ih =>
    have within : ∀ (ts : List Token) (states : List OpenValue), ts.length ≤ n →
        saxParseInternal strtod states ts = some (w, r) →
        Takes strtod (Value strtod) states ts w r := fun _ _ hts h => ih hts h
    rw [saxParseInternal.eq_def] at h
    split at h
    next => cases h
    next ts' =>
      split at h
      next ts₂ => exact ⟨_, _, ts₂, .emptyObject, rfl, h⟩
      next key ts₂ =>
        have hts : ts₂.length ≤ n := by
          simp only [List.length_cons] at hn
          omega
        obtain ⟨ts₁, ms, ts₃, phrase, rfl, after⟩ := members_of_parse within hts h
        exact ⟨_, _, ts₃, .object phrase, by simp, after⟩
      next => cases h
    next ts' =>
      split at h
      next ts₂ => exact ⟨_, _, ts₂, .emptyArray, rfl, h⟩
      next ts₂ =>
        obtain ⟨ts₁, vs, ts₃, phrase, rfl, after⟩ :=
          elements_of_parse within (Nat.le_of_succ_le_succ hn) h
        exact ⟨_, _, ts₃, .array phrase, by simp, after⟩
    next t ts' _ _ =>
      cases hv : scalar strtod t with
      | none =>
        rw [hv] at h
        cases h
      | some v =>
        rw [hv] at h
        exact ⟨[t], v, ts', .scalar hv, rfl, h⟩

theorem stateEvaluation_nil : stateEvaluation strtod [] v ts = some (v, ts) := by
  rw [stateEvaluation.eq_def]

/-- **The loop takes the phrases of the grammar, and their values, and nothing else.** -/
theorem saxParseInternal_iff :
    saxParseInternal strtod [] ts = some (v, r) ↔ ∃ ts₁, Value strtod ts₁ v ∧ ts = ts₁ ++ r := by
  constructor
  · intro h
    obtain ⟨ts₁, v', ts₂, phrase, rfl, after⟩ := value_of_parse le_rfl h
    rw [stateEvaluation_nil] at after
    obtain ⟨rfl, rfl⟩ := Prod.mk.inj (Option.some.inj after)
    exact ⟨ts₁, phrase, rfl⟩
  · rintro ⟨ts₁, phrase, rfl⟩
    rw [phrase.parses, stateEvaluation_nil]

/-! ## Texts -/

/-- Nothing comes after the end of the input. -/
theorem scanAll_endOfInput {n : ℕ} {text : Text} {ts r : List Token}
    (h : Lexer.scanAll n text = ts ++ .endOfInput :: r) : r = [] := by
  induction n generalizing text ts with
  | zero => exact absurd h.symm (List.append_ne_nil_of_right_ne_nil _ (List.cons_ne_nil _ _))
  | succ n ih =>
    rw [Lexer.scanAll] at h
    split at h
    next =>
      cases ts with
      | nil => exact (List.cons.inj h).2.symm
      | cons t ts => exact absurd (List.cons.inj h).2.symm (by simp)
    next =>
      cases ts with
      | nil => cases h
      | cons t ts => exact absurd (List.cons.inj h).2.symm (by simp)
    next t text' hne _ _ =>
      cases ts with
      | nil => exact absurd (List.cons.inj h).1 hne
      | cons t ts => exact ih (List.cons.inj h).2

/-- The texts a parser accepts: a phrase, behind which strict mode wants the end of the input. -/
def IsText (strtod : Text → Option ℚ) (strict : Bool) (text : Text) (v : Json) : Prop :=
  ∃ ts r, Value strtod ts v ∧ Lexer.tokens (Lexer.skipBom text) = ts ++ r ∧
    (strict = true → r = [.endOfInput])

theorem isText_of_parse {strict : Bool} {text : Text} (h : parse strtod strict text = some v) :
    IsText strtod strict text v := by
  rw [parse] at h
  split at h
  next => cases h
  next v' r hp =>
    split at h
    next hend =>
      obtain rfl := Option.some.inj h
      obtain ⟨ts, phrase, hts⟩ := saxParseInternal_iff.mp hp
      refine ⟨ts, r, phrase, hts, fun hs => ?_⟩
      subst hs
      cases r with
      | nil => cases hend
      | cons t r =>
        obtain rfl : t = .endOfInput := by simpa using hend
        rw [scanAll_endOfInput hts]
    next => cases h

theorem parse_of_isText {strict : Bool} {text : Text} (h : IsText strtod strict text v) :
    parse strtod strict text = some v := by
  obtain ⟨ts, r, phrase, hts, hend⟩ := h
  have hp : saxParseInternal strtod [] (Lexer.tokens (Lexer.skipBom text)) = some (v, r) :=
    saxParseInternal_iff.mpr ⟨ts, phrase, hts⟩
  simp only [parse, hp]
  cases strict with
  | false => rfl
  | true =>
    rw [hend rfl]
    rfl

/-- **The parser accepts the texts of the grammar, with their values, and no others.** -/
theorem parse_exact (strtod : Text → Option ℚ) (strict : Bool) (text : Text) (v : Json) :
    parse strtod strict text = some v ↔ IsText strtod strict text v :=
  ⟨isText_of_parse, parse_of_isText⟩

end Parser

end TcpServer
