import TcpServer.Laws.Grammar
import TcpServer.Laws.RoundTrip

/-!
# JSON documents

What the parser accepts, character by character. A document is a phrase of the grammar whose tokens are
written one after the other (`Writes`), with white space in front of each and behind the last
(`Document`). The parser accepts the documents and nothing else (`parse_document`).

The scanner takes the longest number, but it need not be asked for: in a phrase a number comes before a
bracket, a comma or the end, and no number goes on with these (`Value.apart`).

A null byte ends the input, and what is behind it is not looked at.
-/

namespace TcpServer

open Lexer TcpServer.Parser

/-- The tokens of numbers. -/
def Token.isNumber : Token → Bool
  | .valueUnsigned _ | .valueInteger _ | .valueFloat _ => true
  | _ => false

/-- The six structural characters. -/
def Token.isStructural : Token → Bool
  | .beginArray | .beginObject | .endArray | .endObject | .nameSeparator | .valueSeparator => true
  | _ => false

/-- A way to write a token. -/
inductive Writes : Text → Token → Prop
  | literalTrue : Writes ['t', 'r', 'u', 'e'] .literalTrue
  | literalFalse : Writes ['f', 'a', 'l', 's', 'e'] .literalFalse
  | literalNull : Writes ['n', 'u', 'l', 'l'] .literalNull
  | string {texts s : Text} (h : SpellsAll texts s) :
    Writes ('"' :: texts ++ ['"']) (.valueString (String.ofList s))
  | number (l : Literal) : Writes l.text (numberToken l.type l.text)
  | beginArray : Writes ['['] .beginArray
  | endArray : Writes [']'] .endArray
  | beginObject : Writes ['\x7b'] .beginObject
  | endObject : Writes ['\x7d'] .endObject
  | nameSeparator : Writes [':'] .nameSeparator
  | valueSeparator : Writes [','] .valueSeparator

def Blank (text : Text) : Prop := ∀ c ∈ text, isWhitespace c = true

/-- Nothing, or a null byte and anything. -/
def IsEnd (text : Text) : Prop := ∀ c ∈ text.head?, c = Char.ofNat 0

/-- The tokens are written, with white space in front of each and behind the last. -/
inductive Document : Text → List Token → Prop
  | finish {blank rest : Text} (hb : Blank blank) (h : IsEnd rest) : Document (blank ++ rest) []
  | cons {blank lexeme text : Text} {t : Token} {ts : List Token} (hb : Blank blank)
    (h : Writes lexeme t) (hs : Document text ts) : Document (blank ++ (lexeme ++ text)) (t :: ts)

section Tokens

variable {c : Char} {cs lexeme text rest : Text} {t t' : Token} {ts ts' : List Token}

theorem isNumber_numberToken {type : NumberType} : (numberToken type text).isNumber = true := by
  cases type with
  | float => rfl
  | _ =>
    simp only [numberToken]
    split <;> rfl

theorem not_structural_of_number (h : t.isNumber = true) : t.isStructural = false := by
  cases t <;> first | rfl | cases h

/-! ## What is scanned is written -/

theorem exists_blank (cs : Text) : ∃ blank, Blank blank ∧ cs = blank ++ skipWhitespace cs := by
  induction cs with
  | nil => exact ⟨[], List.forall_mem_nil _, rfl⟩
  | cons c cs ih =>
    rw [skipWhitespace]
    split
    next hc =>
      obtain ⟨blank, hb, hcs⟩ := ih
      refine ⟨c :: blank, List.forall_mem_cons.mpr ⟨hc, hb⟩, ?_⟩
      rw [List.cons_append, ← hcs]
    next => exact ⟨[], List.forall_mem_nil _, rfl⟩

theorem writes_of_scanLiteral {literal : Text} {token : Token} (hw : Writes (c :: literal) token)
    (h : scanLiteral literal token cs = (t, rest)) (ht : t ≠ .parseError) :
    ∃ lexeme, Writes lexeme t ∧ c :: cs = lexeme ++ rest := by
  unfold scanLiteral at h
  split at h
  next hprefix =>
    obtain ⟨rfl, rfl⟩ := Prod.mk.inj h
    have front := List.prefix_iff_eq_append.mp (List.isPrefixOf_iff_prefix.mp hprefix)
    refine ⟨c :: literal, hw, ?_⟩
    rw [List.cons_append, front]
  next => exact absurd (Prod.mk.inj h).1.symm ht

/-- A token that begins with a character, or the end of the input. -/
theorem writes_of_scanToken (h : scanToken c cs = (t, rest)) (ht : t ≠ .parseError) :
    (∃ lexeme, Writes lexeme t ∧ c :: cs = lexeme ++ rest) ∨ t = .endOfInput ∧ c = Char.ofNat 0 := by
  have one {d : Char} {t' : Token} (hw : Writes [d] t') (hd : c = d) (h : (t', cs) = (t, rest)) :
      (∃ lexeme, Writes lexeme t ∧ c :: cs = lexeme ++ rest) ∨
        t = .endOfInput ∧ c = Char.ofNat 0 := by
    obtain ⟨rfl, rfl⟩ := Prod.mk.inj h
    subst hd
    exact .inl ⟨_, hw, rfl⟩
  revert h
  unfold scanToken
  refine ite_elim (fun hd => one .beginArray hd) fun _ => ?_
  refine ite_elim (fun hd => one .endArray hd) fun _ => ?_
  refine ite_elim (fun hd => one .beginObject hd) fun _ => ?_
  refine ite_elim (fun hd => one .endObject hd) fun _ => ?_
  refine ite_elim (fun hd => one .nameSeparator hd) fun _ => ?_
  refine ite_elim (fun hd => one .valueSeparator hd) fun _ => ?_
  refine ite_elim (fun hd h => .inl ?_) fun _ => ?_
  · subst hd
    exact writes_of_scanLiteral .literalTrue h ht
  refine ite_elim (fun hd h => .inl ?_) fun _ => ?_
  · subst hd
    exact writes_of_scanLiteral .literalFalse h ht
  refine ite_elim (fun hd h => .inl ?_) fun _ => ?_
  · subst hd
    exact writes_of_scanLiteral .literalNull h ht
  refine ite_elim (fun hd h => .inl ?_) fun _ => ?_
  · subst hd
    split at h
    next s cs' hs =>
      obtain ⟨rfl, rfl⟩ := Prod.mk.inj h
      obtain ⟨texts, all, rfl⟩ := spellsAll_of_scanString hs
      refine ⟨_, .string all, ?_⟩
      rw [List.append_assoc, List.cons_append, List.singleton_append]
    next => exact absurd (Prod.mk.inj h).1.symm ht
  refine ite_elim (fun hc h => .inl ?_) fun _ => ?_
  · obtain ⟨l, htext, rfl, -⟩ := literal_of_scanNumber hc h ht
    exact ⟨l.text, .number l, htext⟩
  refine ite_elim (fun hc h => ?_) fun _ h => ?_
  · exact .inr ⟨(Prod.mk.inj h).1.symm, hc⟩
  · exact absurd (Prod.mk.inj h).1.symm ht

theorem writes_of_scan (h : scan cs = (t, rest)) (ht : t ≠ .parseError) (hne : t ≠ .endOfInput) :
    ∃ blank lexeme, Blank blank ∧ Writes lexeme t ∧ cs = blank ++ (lexeme ++ rest) := by
  obtain ⟨blank, hb, hcs⟩ := exists_blank cs
  unfold scan at h
  split at h
  next => exact absurd (Prod.mk.inj h).1.symm hne
  next c cs' heq =>
    rcases writes_of_scanToken h ht with ⟨lexeme, hw, htext⟩ | ⟨hend, -⟩
    · refine ⟨blank, lexeme, hb, hw, ?_⟩
      rw [← htext, ← heq]
      exact hcs
    · exact absurd hend hne

theorem end_of_scan (h : scan cs = (.endOfInput, rest)) :
    ∃ blank rest, Blank blank ∧ IsEnd rest ∧ cs = blank ++ rest := by
  obtain ⟨blank, hb, hcs⟩ := exists_blank cs
  refine ⟨blank, skipWhitespace cs, hb, ?_, hcs⟩
  unfold scan at h
  split at h
  next heq =>
    intro c hc
    rw [heq] at hc
    cases hc
  next c cs' heq =>
    intro c' hc'
    rw [heq] at hc'
    obtain rfl := Option.mem_some.mp hc'
    rcases writes_of_scanToken h Token.noConfusion with ⟨lexeme, hw, -⟩ | ⟨-, hc⟩
    · exfalso
      generalize ht : Token.endOfInput = t at hw
      cases hw with
      | number l => cases isNumber_numberToken.symm.trans (congrArg Token.isNumber ht.symm)
      | _ => cases ht
    · exact hc

/-- The tokens of a text are written in it. -/
theorem document_of_tokens (h : tokens cs = ts ++ [.endOfInput]) : Document cs ts := by
  induction ts generalizing cs with
  | nil =>
    cases hs : scan cs with
    | mk t rest =>
      by_cases hne : t = .endOfInput
      · subst hne
        obtain ⟨blank, rest, hb, hend, rfl⟩ := end_of_scan hs
        exact .finish hb hend
      · by_cases ht : t = .parseError
        · subst ht
          rw [tokens, scanAll, hs] at h
          cases h
        · rw [tokens_of_scan hs hne ht] at h
          exact absurd (List.cons.inj h).1 hne
  | cons t' ts ih =>
    cases hs : scan cs with
    | mk t rest =>
      by_cases hne : t = .endOfInput
      · subst hne
        rw [tokens, scanAll, hs] at h
        cases ts <;> cases (List.cons.inj h).2
      · by_cases ht : t = .parseError
        · subst ht
          rw [tokens, scanAll, hs] at h
          cases ts <;> cases (List.cons.inj h).2
        · rw [tokens_of_scan hs hne ht] at h
          obtain ⟨rfl, htokens⟩ := List.cons.inj h
          obtain ⟨blank, lexeme, hb, hw, rfl⟩ := writes_of_scan hs ht hne
          exact .cons hb hw (ih htokens)

/-! ## What is written is scanned -/

theorem tokens_of_append (hb : Blank lexeme) : tokens (lexeme ++ text) = tokens text := by
  induction lexeme with
  | nil => rfl
  | cons c cs ih =>
    rw [List.cons_append, tokens_of_whitespace (hb c List.mem_cons_self)]
    exact ih fun c hc => hb c (.tail _ hc)

/-- Only numbers depend on what comes next. -/
theorem scan_of_writes (h : Writes lexeme t) (hends : t.isNumber = true → Ends text) :
    scan (lexeme ++ text) = (t, text) := by
  cases h with
  | string all => exact scan_spelled all
  | number l => exact scan_literal l (hends isNumber_numberToken)
  | _ => rfl

theorem ne_of_writes (h : Writes lexeme t) : t ≠ .endOfInput ∧ t ≠ .parseError := by
  cases h with
  | number l =>
    have number : (numberToken l.type l.text).isNumber = true := isNumber_numberToken
    constructor
    · intro heq
      rw [heq] at number
      cases number
    · intro heq
      rw [heq] at number
      cases number
  | _ => exact ⟨Token.noConfusion, Token.noConfusion⟩

/-- After a number comes a structural character. -/
def Apart (t t' : Token) : Prop := t.isNumber = true → t'.isStructural = true

theorem ends_of_structural (h : Writes lexeme t) (ht : t.isStructural = true) :
    Ends (lexeme ++ text) := by
  cases h with
  | number l => cases (not_structural_of_number isNumber_numberToken).symm.trans ht
  | string _ => cases ht
  | literalTrue => cases ht
  | literalFalse => cases ht
  | literalNull => cases ht
  | _ => exact ends_cons (by decide)

theorem ends_of_document (h : Document text ts) (hts : ∀ t ∈ ts.head?, t.isStructural = true) :
    Ends text := by
  have front {blank rest : Text} (hb : Blank blank) (hrest : Ends rest) : Ends (blank ++ rest) := by
    cases blank with
    | nil => exact hrest
    | cons c cs =>
      have single : ∀ c' ∈ [c], isWhitespace c' = true :=
        List.forall_mem_singleton.mpr (hb c List.mem_cons_self)
      exact ends_cons (ends_of_blank single c rfl)
  cases h with
  | finish hb hend =>
    apply front hb
    intro c hc
    rw [hend c hc]
    decide
  | cons hb hw _ => exact front hb (ends_of_structural hw (hts _ rfl))

/-- Tokens that are written and of which no number is before another value are scanned. -/
theorem tokens_of_document (h : Document text ts) (apart : List.IsChain Apart ts) :
    tokens text = ts ++ [.endOfInput] := by
  induction h with
  | finish hb hend =>
    rw [tokens_of_append hb]
    rename_i rest
    cases rest with
    | nil => rfl
    | cons c cs =>
      obtain rfl := hend c rfl
      rfl
  | cons hb hw hs ih =>
    obtain ⟨first, others⟩ := List.isChain_cons.mp apart
    obtain ⟨hne, ht⟩ := ne_of_writes hw
    have scanned := scan_of_writes hw fun number =>
      ends_of_document hs fun t' ht' => first t' ht' number
    rw [tokens_of_append hb, tokens_of_scan scanned hne ht, ih others, List.cons_append]

end Tokens

/-! ## Phrases -/

section Phrases

variable {strtod : Text → Option ℚ} {ts ts' : List Token} {t : Token} {v : Json}

theorem apart_cons (ht : t.isNumber = false) (h : List.IsChain Apart ts) :
    List.IsChain Apart (t :: ts) :=
  h.cons fun _ _ number => Bool.noConfusion (ht.symm.trans number)

theorem apart_append (ht : t.isStructural = true) (h : List.IsChain Apart ts)
    (h' : List.IsChain Apart (t :: ts')) : List.IsChain Apart (ts ++ t :: ts') :=
  h.append h' fun _ _ t' ht' _ => by
    obtain rfl := Option.mem_some.mp ht'
    exact ht

mutual

/-- **In a phrase a number comes before a structural character**, if before anything. -/
theorem value_apart {ts : List Token} {v : Json} (h : Value strtod ts v) :
    List.IsChain Apart ts := by
  match h with
  | .scalar _ => exact .singleton _
  | .emptyArray => exact apart_cons rfl (.singleton _)
  | .emptyObject => exact apart_cons rfl (.singleton _)
  | .array phrase => exact apart_cons rfl (apart_append rfl (elements_apart phrase) (.singleton _))
  | .object phrase => exact apart_cons rfl (apart_append rfl (members_apart phrase) (.singleton _))

theorem elements_apart {ts : List Token} {vs : List Json} (h : Elements strtod ts vs) :
    List.IsChain Apart ts := by
  match h with
  | .last value => exact value_apart value
  | .cons value phrase =>
    exact apart_append rfl (value_apart value) (apart_cons rfl (elements_apart phrase))

theorem members_apart {ts : List Token} {ms : List (String × Json)} (h : Members strtod ts ms) :
    List.IsChain Apart ts := by
  match h with
  | .last value => exact apart_cons rfl (apart_cons rfl (value_apart value))
  | .cons value phrase =>
    exact apart_cons rfl (apart_cons rfl
      (apart_append rfl (value_apart value) (apart_cons rfl (members_apart phrase))))

end

end Phrases

/-! ## Documents -/

/-- **The parser accepts the JSON documents, with their values, and nothing else.** -/
theorem parse_document (strtod : Text → Option ℚ) (s : String) (v : Json) :
    Json.parse strtod s = some v ↔ ∃ ts, Value strtod ts v ∧ Document (skipBom s.toList) ts := by
  constructor
  · intro h
    obtain ⟨ts, r, phrase, hts, hend⟩ := isText_of_parse h
    rw [hend rfl] at hts
    exact ⟨ts, phrase, document_of_tokens hts⟩
  · rintro ⟨ts, phrase, document⟩
    have scanned := tokens_of_document document (value_apart phrase)
    exact parse_of_isText ⟨ts, [.endOfInput], phrase, scanned, fun _ => rfl⟩

/-- A document has one value: neither the grammar nor the way it is written is ambiguous. -/
theorem document_unique {strtod : Text → Option ℚ} {text : Text} {ts ts' : List Token} {v v' : Json}
    (h : Value strtod ts v) (document : Document text ts) (h' : Value strtod ts' v')
    (document' : Document text ts') : ts = ts' ∧ v = v' := by
  have scanned := tokens_of_document document (value_apart h)
  rw [tokens_of_document document' (value_apart h')] at scanned
  obtain rfl := List.append_cancel_right scanned
  have first : saxParseInternal strtod [] ts' = some (v, []) :=
    saxParseInternal_iff.mpr ⟨ts', h, (List.append_nil ts').symm⟩
  have second : saxParseInternal strtod [] ts' = some (v', []) :=
    saxParseInternal_iff.mpr ⟨ts', h', (List.append_nil ts').symm⟩
  exact ⟨rfl, (Prod.mk.inj (Option.some.inj (first.symm.trans second))).1⟩

end TcpServer
