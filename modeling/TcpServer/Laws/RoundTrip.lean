import TcpServer.DataLayer.Serializer
import TcpServer.Laws.Canonical
import TcpServer.Laws.Grammar
import TcpServer.Laws.Integers
import TcpServer.Laws.Scanning

/-!
# Reading back what was written

The text of a value is scanned into a phrase of the grammar that denotes the value
(`reads_of_wellFormed`), and so the parser gives the value back. It does not give back which kind of number a
non-negative integer was, since the text does not say it (`Json.canonical`). Members come in the order
of their keys, so an object whose members are ordered is given back as it was; every value that was
parsed is of this kind.

What a double is written as is a number with a point or an exponent that `strtod` reads back to the
double (`ReadsBack`).
-/

namespace TcpServer

open Lexer TcpServer.Parser Serializer

/-! ## Values that are given back -/

namespace Json

/-- The members of every object are a map, and the doubles are of some kind. -/
inductive WellFormed (float : ℚ → Prop) : Json → Prop
  | null : WellFormed float .null
  | boolean (b : Bool) : WellFormed float (.boolean b)
  | numberInteger (n : BitVec 64) : WellFormed float (.numberInteger n)
  | numberUnsigned (n : SizeT) : WellFormed float (.numberUnsigned n)
  | numberFloat {q : ℚ} (h : float q) : WellFormed float (.numberFloat q)
  | string (s : String) : WellFormed float (.string s)
  | array {elements : List Json} (h : ∀ v ∈ elements, WellFormed float v) :
    WellFormed float (.array elements)
  | object {members : List (String × Json)} (ordered : OrderedMap.Ordered members)
    (h : ∀ m ∈ members, WellFormed float m.2) : WellFormed float (.object members)

end Json

/-- A double is written as a number that is read as a double again, and as the same one. -/
structure ReadsBack (strtod : Text → Option ℚ) (dumpFloat : ℚ → Text) (q : ℚ) : Prop where
  literal : ∃ l : Literal, l.text = dumpFloat q ∧ l.type = .float
  reads : strtod (dumpFloat q) = some q

variable {strtod : Text → Option ℚ} {dumpFloat : ℚ → Text} {r : Text} {v : Json}

/-! ## Strings -/

theorem getCodepoint_hexDigit {n : ℕ} (h : n < 32) :
    getCodepoint (hexDigit (n / 4096)) (hexDigit (n / 256 % 16)) (hexDigit (n / 16 % 16))
      (hexDigit (n % 16)) = some n :=
  (by decide : ∀ n < 32, getCodepoint (hexDigit (n / 4096)) (hexDigit (n / 256 % 16))
    (hexDigit (n / 16 % 16)) (hexDigit (n % 16)) = some n) n h

/-- What a character is written as spells it. -/
theorem spells_escape (c : Char) : Spells (escape c) c := by
  have letter {e d : Char} (he : simpleEscape e = some d) (h : c = d) : Spells ['\\', e] c :=
    .escape (h ▸ he)
  unfold escape
  refine iteInduction (motive := (Spells · c)) (letter rfl) fun _ => ?_
  refine iteInduction (motive := (Spells · c)) (letter rfl) fun _ => ?_
  refine iteInduction (motive := (Spells · c)) (letter rfl) fun _ => ?_
  refine iteInduction (motive := (Spells · c)) (letter rfl) fun _ => ?_
  refine iteInduction (motive := (Spells · c)) (letter rfl) fun _ => ?_
  refine iteInduction (motive := (Spells · c)) (letter rfl) fun quote => ?_
  refine iteInduction (motive := (Spells · c)) (letter rfl) fun backslash => ?_
  refine iteInduction (motive := (Spells · c)) (fun control => ?_) fun control => ?_
  · exact .codepoint (getCodepoint_hexDigit (by omega))
  · exact .plain quote backslash (by omega)

theorem spellsAll_dumpEscaped (s : String) : SpellsAll (dumpEscaped s) s.toList := by
  rw [dumpEscaped]
  induction s.toList with
  | nil => exact .nil
  | cons c cs ih =>
    rw [List.flatMap_cons]
    exact .cons (spells_escape c) ih

theorem scan_spelled {texts s : Text} (h : SpellsAll texts s) :
    scan ('"' :: texts ++ ['"'] ++ r) = (.valueString (String.ofList s), r) := by
  have read : scanString (texts ++ '"' :: r) = some (s, r) := scanString_of_spellsAll h
  rw [List.append_assoc, List.cons_append, List.singleton_append, scan, skipWhitespace,
    if_neg (by decide)]
  simp only [scanToken, Char.reduceEq, if_false, if_true, read]

theorem scan_dumpString (s : String) : scan (dumpString s ++ r) = (.valueString s, r) := by
  rw [dumpString, scan_spelled (spellsAll_dumpEscaped s), String.ofList_toList]

/-! ## Numbers -/

/-- No number goes on with what follows. -/
def Ends (r : Text) : Prop :=
  ∀ c ∈ r.head?, ¬ (c.isDigit = true ∨ c = '.' ∨ c = 'e' ∨ c = 'E')

theorem ends_cons {c : Char} (h : ¬ (c.isDigit = true ∨ c = '.' ∨ c = 'e' ∨ c = 'E')) :
    Ends (c :: r) := fun _ hc => Option.mem_some.mp hc ▸ h

theorem Ends.not_continues (h : Ends r) (l : Literal) : ∀ c ∈ r.head?, ¬ l.Continues c := by
  rintro c hc (⟨digit, -⟩ | ⟨point, -⟩ | ⟨letter, -⟩)
  · exact h c hc (.inl digit)
  · exact h c hc (.inr (.inl point))
  · exact h c hc (.inr (.inr letter))

theorem scanToken_number {c : Char} {cs : Text} (hc : c = '-' ∨ c.isDigit = true) :
    scanToken c cs = scanNumber c cs := by
  have ne {d : Char} (hd : ¬ (d = '-' ∨ d.isDigit = true)) : c ≠ d := by
    rintro rfl
    exact hd hc
  rw [scanToken, if_neg (ne (by decide)), if_neg (ne (by decide)), if_neg (ne (by decide)),
    if_neg (ne (by decide)), if_neg (ne (by decide)), if_neg (ne (by decide)), if_neg (ne (by decide)),
    if_neg (ne (by decide)), if_neg (ne (by decide)), if_neg (ne (by decide)), if_pos hc]

theorem isWhitespace_of_number {c : Char} (hc : c = '-' ∨ c.isDigit = true) :
    isWhitespace c = false := by
  have ne {d : Char} (hd : ¬ (d = '-' ∨ d.isDigit = true)) : c ≠ d := by
    rintro rfl
    exact hd hc
  simp only [isWhitespace, ne (show ¬ (' ' = '-' ∨ ' '.isDigit = true) by decide),
    ne (show ¬ ('\t' = '-' ∨ '\t'.isDigit = true) by decide),
    ne (show ¬ ('\n' = '-' ∨ '\n'.isDigit = true) by decide),
    ne (show ¬ ('\r' = '-' ∨ '\r'.isDigit = true) by decide), decide_false, Bool.or_false]

/-- A number at the front is scanned, if no longer one begins there. -/
theorem scan_literal (l : Literal) (h : Ends r) :
    scan (l.text ++ r) = (numberToken l.type l.text, r) := by
  obtain ⟨c, text, htext, hc⟩ := l.text_eq_cons
  rw [htext, List.cons_append, scan, skipWhitespace, if_neg (by rw [isWhitespace_of_number hc]; simp),
    ← htext]
  exact (scanToken_number hc).trans (scanNumber_of_literal htext (h.not_continues l))

/-- The decimal text of a natural number has no leading zero. -/
theorem exists_digits (n : ℕ) :
    ∃ ds : Digits, ds.text = Nat.toDigits 10 n ∧ (ds.first = '0' → n = 0) := by
  induction n using Nat.strong_induction_on with
  | _ n ih =>
    by_cases h : n < 10
    · refine ⟨⟨Nat.digitChar n, [], ?_, List.forall_mem_nil _⟩,
        (Nat.toDigits_of_lt_base h).symm, ?_⟩
      · exact (by decide : ∀ n < 10, (Nat.digitChar n).isDigit = true) n h
      · exact (by decide : ∀ n < 10, Nat.digitChar n = '0' → n = 0) n h
    · obtain ⟨ds, htext, hzero⟩ := ih (n / 10) (by omega)
      have digit : (Nat.digitChar (n % 10)).isDigit = true :=
        (by decide : ∀ n < 10, (Nat.digitChar n).isDigit = true) _ (Nat.mod_lt _ (by decide))
      refine ⟨⟨ds.first, ds.others ++ [Nat.digitChar (n % 10)], ds.first_isDigit, ?_⟩, ?_, ?_⟩
      · intro c hc
        rcases List.mem_append.mp hc with hc | hc
        · exact ds.others_isDigit c hc
        · exact List.mem_singleton.mp hc ▸ digit
      · rw [toDigits_of_ten_le (Nat.not_lt.mp h), ← htext]
        rfl
      · intro h0
        have := hzero h0
        omega

/-- The decimal text of a number is a literal. -/
theorem exists_literal (minus : Bool) (n : ℕ) :
    ∃ l : Literal, l.text = (if minus then ['-'] else []) ++ Nat.toDigits 10 n ∧
      l.type = if minus then .integer else .unsigned := by
  obtain ⟨ds, htext, hzero⟩ := exists_digits n
  have single : ds.first = '0' → ds.others = [] := by
    intro h
    rw [hzero h, Nat.toDigits_zero] at htext
    exact (List.cons.inj htext).2
  refine ⟨⟨minus, ds, none, none, single⟩, ?_, rfl⟩
  rw [← htext]
  simp [Literal.text, Literal.fractionText, Literal.exponentText]

theorem scan_unsigned (n : SizeT) (h : Ends r) :
    scan (Nat.toDigits 10 n.toNat ++ r) = (.valueUnsigned n, r) := by
  obtain ⟨l, htext, htype⟩ := exists_literal false n.toNat
  have text : l.text = Nat.toDigits 10 n.toNat := htext
  have small : Nat.ofDigitChars 10 l.text 0 < 2 ^ 64 := by
    rw [text, Nat.ofDigitChars_ten_toDigits]
    exact n.isLt
  rw [← text, scan_literal l h, htype]
  simp only [Bool.false_eq_true, if_false, numberToken, if_pos small]
  rw [text, Nat.ofDigitChars_ten_toDigits, natCast_toNat]

theorem scan_negative {n : BitVec 64} (hn : n.toInt < 0) (h : Ends r) :
    scan ('-' :: Nat.toDigits 10 n.toInt.natAbs ++ r) = (.valueInteger n, r) := by
  obtain ⟨l, htext, htype⟩ := exists_literal true n.toInt.natAbs
  have text : l.text = '-' :: Nat.toDigits 10 n.toInt.natAbs := htext
  have small : Nat.ofDigitChars 10 l.text.tail 0 ≤ 2 ^ 63 := by
    rw [text, List.tail_cons, Nat.ofDigitChars_ten_toDigits]
    have := BitVec.le_toInt n
    omega
  rw [← text, scan_literal l h, htype]
  simp only [if_true, numberToken, if_pos small]
  rw [text, List.tail_cons, Nat.ofDigitChars_ten_toDigits, show -((n.toInt.natAbs : ℕ) : ℤ) = n.toInt by
    omega, intCast_toInt]

theorem scan_dumpInteger_unsigned (n : SizeT) (h : Ends r) :
    scan (dumpInteger false numberBuffer n ++ r) = (.valueUnsigned n, r) := by
  rw [dumpInteger_eq false numberBuffer rfl]
  exact scan_unsigned n h

theorem scan_dumpInteger_signed (n : BitVec 64) (h : Ends r) :
    scan (dumpInteger true numberBuffer n ++ r) =
      (if n.slt 0 then .valueInteger n else .valueUnsigned n, r) := by
  rw [dumpInteger_eq true numberBuffer rfl, decimal, valueOf, if_pos rfl]
  by_cases hn : n.slt 0 = true
  · have negative := slt_zero.mp hn
    rw [if_pos negative, if_pos hn]
    exact scan_negative negative h
  · have positive : ¬ n.toInt < 0 := fun h => hn (slt_zero.mpr h)
    have value : n.toInt.natAbs = n.toNat := by
      rw [toInt_of_positive hn, Int.natAbs_natCast]
    rw [if_neg positive, if_neg hn, value]
    exact scan_unsigned n h

/-! ## Values -/

/-- The text of a value is scanned into a phrase that denotes it. -/
def Reads (strtod : Text → Option ℚ) (dumpFloat : ℚ → Text) (v : Json) : Prop :=
  ∃ ts, Value strtod ts v.canonical ∧ ∀ r, Ends r → Scanned (dump dumpFloat v ++ r) ts r

theorem reads_of_scan {t : Token} (hv : scalar strtod t = some v.canonical)
    (h : ∀ r, Ends r → scan (dump dumpFloat v ++ r) = (t, r)) : Reads strtod dumpFloat v := by
  refine ⟨[t], .scalar hv, fun r hr => .cons (h r hr) ?_ ?_ .nil⟩
  · rintro rfl
    cases hv
  · rintro rfl
    cases hv

theorem reads_elements {vs : List Json} (hne : vs ≠ []) (h : ∀ v ∈ vs, Reads strtod dumpFloat v) :
    ∃ ts, Elements strtod ts (vs.map Json.canonical) ∧
      ∀ r, Ends r → Scanned (dumpElements dumpFloat vs ++ r) ts r := by
  induction vs with
  | nil => exact absurd rfl hne
  | cons v vs ih =>
    obtain ⟨ts, value, scanned⟩ := h v List.mem_cons_self
    cases vs with
    | nil => exact ⟨ts, .last value, scanned⟩
    | cons w vs =>
      obtain ⟨ts', elements, scanned'⟩ := ih (List.cons_ne_nil _ _) fun v hv => h v (.tail _ hv)
      refine ⟨_, .cons value elements, fun r hr => ?_⟩
      have comma : Ends (',' :: (dumpElements dumpFloat (w :: vs) ++ r)) := ends_cons (by decide)
      rw [dumpElements, List.append_assoc]
      · exact (scanned _ comma).append
          (.cons rfl Token.noConfusion Token.noConfusion (scanned' r hr))
      · exact List.cons_ne_nil _ _

theorem reads_members {ms : List (String × Json)} (hne : ms ≠ [])
    (h : ∀ m ∈ ms, Reads strtod dumpFloat m.2) :
    ∃ ts, Members strtod ts (ms.map fun m => (m.1, m.2.canonical)) ∧
      ∀ r, Ends r → Scanned (dumpMembers dumpFloat ms ++ r) ts r := by
  induction ms with
  | nil => exact absurd rfl hne
  | cons m ms ih =>
    obtain ⟨key, v⟩ := m
    obtain ⟨ts, value, scanned⟩ := h (key, v) List.mem_cons_self
    have member {r : Text} (hr : Ends r) : Scanned (dumpString key ++ ':' :: (dump dumpFloat v ++ r))
        (.valueString key :: .nameSeparator :: ts) r :=
      .cons (scan_dumpString key) Token.noConfusion Token.noConfusion
        (.cons rfl Token.noConfusion Token.noConfusion (scanned r hr))
    cases ms with
    | nil =>
      refine ⟨_, .last value, fun r hr => ?_⟩
      rw [dumpMembers, List.append_assoc]
      exact member hr
    | cons m ms =>
      obtain ⟨ts', members, scanned'⟩ := ih (List.cons_ne_nil _ _) fun m hm => h m (.tail _ hm)
      refine ⟨_, .cons value members, fun r hr => ?_⟩
      have comma : Ends (',' :: (dumpMembers dumpFloat (m :: ms) ++ r)) := ends_cons (by decide)
      rw [dumpMembers, List.append_assoc, List.append_assoc]
      · exact (member comma).append
          (.cons rfl Token.noConfusion Token.noConfusion (scanned' r hr))
      · exact List.cons_ne_nil _ _

/-- **What is written for a value is a phrase that denotes it.** -/
theorem reads_of_wellFormed (h : v.WellFormed (ReadsBack strtod dumpFloat)) :
    Reads strtod dumpFloat v := by
  induction h with
  | null => exact reads_of_scan (t := .literalNull) rfl fun r _ => rfl
  | boolean b =>
    cases b with
    | true => exact reads_of_scan (t := .literalTrue) rfl fun r _ => rfl
    | false => exact reads_of_scan (t := .literalFalse) rfl fun r _ => rfl
  | numberInteger n =>
    refine reads_of_scan ?_ fun r hr => scan_dumpInteger_signed n hr
    rw [Json.canonical]
    split <;> rfl
  | numberUnsigned n => exact reads_of_scan rfl fun r hr => scan_dumpInteger_unsigned n hr
  | numberFloat back =>
    obtain ⟨l, htext, htype⟩ := back.literal
    refine reads_of_scan (t := .valueFloat l.text) ?_ fun r hr => ?_
    · rw [scalar, htext, back.reads]
      rfl
    · rw [dump, ← htext, scan_literal l hr, htype]
      rfl
  | string s =>
    refine reads_of_scan ?_ fun r _ => scan_dumpString s
    rfl
  | @array elements _ ih =>
    by_cases hne : elements = []
    · subst hne
      exact ⟨_, .emptyArray, fun r _ => .cons rfl Token.noConfusion Token.noConfusion
        (.cons rfl Token.noConfusion Token.noConfusion .nil)⟩
    · obtain ⟨ts, phrase, scanned⟩ := reads_elements hne ih
      refine ⟨.beginArray :: ts ++ [.endArray], ?_, fun r _ => ?_⟩
      · rw [Json.canonical, Json.canonicalElements_eq]
        exact .array phrase
      · have bracket : Ends (']' :: r) := ends_cons (by decide)
        rw [dump, List.append_assoc]
        exact .cons rfl Token.noConfusion Token.noConfusion ((scanned _ bracket).append
          (.cons rfl Token.noConfusion Token.noConfusion .nil))
  | @object members ordered _ ih =>
    by_cases hne : members = []
    · subst hne
      exact ⟨_, .emptyObject, fun r _ => .cons rfl Token.noConfusion Token.noConfusion
        (.cons rfl Token.noConfusion Token.noConfusion .nil)⟩
    · obtain ⟨ts, phrase, scanned⟩ := reads_members hne ih
      have keys : OrderedMap.Ordered (members.map fun m => (m.1, m.2.canonical)) :=
        List.pairwise_map.mpr ordered
      refine ⟨.beginObject :: ts ++ [.endObject], ?_, fun r _ => ?_⟩
      · rw [Json.canonical, Json.canonicalMembers_eq, ← keys.ofList]
        exact .object phrase
      · have brace : Ends ('\x7d' :: r) := ends_cons (by decide)
        rw [dump, List.append_assoc]
        exact .cons rfl Token.noConfusion Token.noConfusion ((scanned _ brace).append
          (.cons rfl Token.noConfusion Token.noConfusion .nil))

/-! ## Texts -/

theorem tokens_of_blank {text : Text} (h : ∀ c ∈ text, isWhitespace c = true) :
    tokens text = [.endOfInput] := by
  induction text with
  | nil => rfl
  | cons c cs ih =>
    rw [tokens_of_whitespace (h c List.mem_cons_self)]
    exact ih fun c hc => h c (.tail _ hc)

theorem ends_of_blank {text : Text} (h : ∀ c ∈ text, isWhitespace c = true) : Ends text := by
  rintro c hc number
  have blank := h c (List.mem_of_mem_head? hc)
  simp only [isWhitespace, Bool.or_eq_true, decide_eq_true_eq] at blank
  rcases blank with ((rfl | rfl) | rfl) | rfl <;> exact absurd number (by decide)

/-- What begins with a token does not begin with a byte order mark. -/
theorem skipBom_of_scanned {text : Text} {t : Token} {ts : List Token}
    (h : Scanned text (t :: ts) r) : skipBom text = text := by
  cases h with
  | cons hs hne ht _ =>
    cases text with
    | nil => rfl
    | cons c cs =>
      refine if_neg ?_
      rintro rfl
      exact ht (Prod.mk.inj hs).1.symm

/-- The parser reads back what was written, with white space behind it. -/
theorem parse_dump_append (h : v.WellFormed (ReadsBack strtod dumpFloat)) {blank : Text}
    (hb : ∀ c ∈ blank, isWhitespace c = true) (strict : Bool) :
    parse strtod strict (dump dumpFloat v ++ blank) = some v.canonical := by
  obtain ⟨ts, phrase, scanned⟩ := reads_of_wellFormed h
  have text := scanned blank (ends_of_blank hb)
  obtain ⟨t, ts', rfl, -⟩ := phrase.head
  have read : saxParseInternal strtod [] (tokens (dump dumpFloat v ++ blank)) =
      some (v.canonical, [.endOfInput]) := by
    rw [text.tokens_eq, tokens_of_blank hb]
    exact saxParseInternal_iff.mpr ⟨_, phrase, rfl⟩
  rw [parse, skipBom_of_scanned text, read]
  cases strict <;> rfl

end TcpServer
