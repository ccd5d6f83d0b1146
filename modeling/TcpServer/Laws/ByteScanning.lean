import TcpServer.Laws.ByteStrings
import TcpServer.Laws.Documents

/-!
# Scanning bytes

The tokens of bytes. Where the bytes encode a text, up to a null byte, they have the tokens of the text
(`scan_utf8`, `tokens_utf8`). And bytes that are scanned to their end without an error encode a text
(`utf8_of_tokens`): the lexer looks at every byte, and lets no other byte than an ASCII character stand
outside of strings.

What is different in the bytes of a text is what is in its strings (`Token.mapString`).
-/

namespace TcpServer

/-- The string of the bytes of a string. -/
def bytesOf (s : String) : String := String.ofList (Bytes.utf8 s.toList)

/-- Another string in place of that of a token. -/
def Token.mapString (f : String → String) : Token → Token
  | .valueString s => .valueString (f s)
  | t => t

namespace Bytes

open Lexer

section Texts

variable {c d : Char} {cs ds rest tail text texts : Text}

/-! ## Texts in bytes -/

/-- No character is the beginning of another. -/
theorem utf8_append_inj (h : utf8 [c] ++ cs = utf8 [d] ++ ds) : c = d ∧ cs = ds := by
  have bytes := congrArg (List.map Char.toNat) h
  rw [List.map_append, List.map_append, toNat_utf8, toNat_utf8] at bytes
  rcases lt_trichotomy c d with hlt | rfl | hgt
  · have lt := Utf8.encode_append_lt hlt (cs.map Char.toNat) (ds.map Char.toNat)
    rw [bytes] at lt
    exact absurd lt (lt_irrefl _)
  · exact ⟨rfl, List.append_cancel_left h⟩
  · have lt := Utf8.encode_append_lt hgt (ds.map Char.toNat) (cs.map Char.toNat)
    rw [bytes] at lt
    exact absurd lt (lt_irrefl _)

/-- A text without null bytes that is in the bytes of another, up to its end, is in the text. -/
theorem exists_append (hend : IsEnd tail) (hnull : ∀ c ∈ texts, c ≠ Char.ofNat 0)
    (h : utf8 cs ++ tail = utf8 texts ++ rest) :
    ∃ cs', cs = texts ++ cs' ∧ rest = utf8 cs' ++ tail := by
  induction texts generalizing cs with
  | nil => exact ⟨cs, rfl, h.symm⟩
  | cons d ds ih =>
    rw [utf8_cons d ds, List.append_assoc] at h
    cases cs with
    | nil =>
      -- the first byte of the text is the null byte
      obtain ⟨b, bs, hb, first⟩ := exists_first d
      have null : b = Char.ofNat 0 := by
        apply hend
        rw [show tail = utf8 [] ++ tail from rfl, h, hb]
        rfl
      rcases first with ⟨_, rfl, _⟩ | ⟨hbig, _⟩
      · exact absurd null (hnull b List.mem_cons_self)
      · rw [null] at hbig
        exact absurd hbig (by decide)
    | cons c cs =>
      rw [utf8_cons c cs, List.append_assoc] at h
      obtain ⟨rfl, htail⟩ := utf8_append_inj h
      obtain ⟨cs', rfl, hrest⟩ := ih (fun c hc => hnull c (.tail _ hc)) htail
      exact ⟨cs', rfl, hrest⟩

theorem exists_append_of_ascii (hend : IsEnd tail)
    (hascii : ∀ c ∈ text, c.toNat < 0x80 ∧ c ≠ Char.ofNat 0) (h : utf8 cs ++ tail = text ++ rest) :
    ∃ cs', cs = text ++ cs' ∧ rest = utf8 cs' ++ tail := by
  rw [← utf8_of_ascii fun c hc => (hascii c hc).1] at h
  exact exists_append hend (fun c hc => (hascii c hc).2) h

/-! ## Numbers and literals -/

/-- No character beyond ASCII goes on with a number, and the null byte does not either. -/
theorem next_other (s : NumberState) (h : 0x80 ≤ c.toNat ∨ c = Char.ofNat 0) :
    s.next (some c) = s.next none := by
  have ne {d : Char} (hd : d.toNat < 0x80) (h₀ : d ≠ Char.ofNat 0) : c ≠ d := by
    rintro rfl
    rcases h with h | h
    · omega
    · exact h₀ h
  have digit : c.isDigit = false := by
    rcases h with h | rfl
    · rw [Char.isDigit, Bool.and_eq_false_iff]
      right
      refine decide_eq_false fun hle => ?_
      have : c.toNat ≤ 0x39 := hle
      omega
    · rfl
  have differ {d : Char} (hd : d.toNat < 0x80) (h₀ : d ≠ Char.ofNat 0) : (some c = some d) = False :=
    eq_false fun e => ne hd h₀ (Option.some.inj e)
  cases s <;>
    simp only [NumberState.next, Option.any_some, Option.any_none, digit, reduceCtorEq,
      differ (d := '0') (by decide) (by decide), differ (d := '.') (by decide) (by decide),
      differ (d := 'e') (by decide) (by decide), differ (d := 'E') (by decide) (by decide),
      differ (d := '+') (by decide) (by decide), differ (d := '-') (by decide) (by decide)]

theorem ascii_of_goto {s s' : NumberState} (h : s.next (some c) = .goto s') :
    c.toNat < 0x80 ∧ c ≠ Char.ofNat 0 := by
  have stops : s.next none ≠ .goto s' := by cases s <;> exact Next.noConfusion
  constructor
  · by_contra hc
    exact stops ((next_other s (.inl (Nat.not_lt.mp hc))).symm.trans h)
  · intro hc
    exact stops ((next_other s (.inr hc)).symm.trans h)

theorem ascii_of_path {s s' : NumberState} {type type' : NumberType}
    (h : Path s type text s' type') : ∀ c ∈ text, c.toNat < 0x80 ∧ c ≠ Char.ofNat 0 := by
  induction h with
  | nil => exact List.forall_mem_nil _
  | cons h _ ih => exact List.forall_mem_cons.mpr ⟨ascii_of_goto h, ih⟩

theorem next_head (hend : IsEnd tail) (s : NumberState) (cs : Text) :
    s.next (utf8 cs ++ tail).head? = s.next cs.head? := by
  cases cs with
  | nil =>
    cases tail with
    | nil => rfl
    | cons c tail => exact next_other s (.inr (hend c rfl))
  | cons c cs =>
    obtain ⟨b, bs, hb, first⟩ := exists_first c
    rw [utf8_cons, hb]
    show s.next (some b) = s.next (some c)
    rcases first with ⟨_, rfl, _⟩ | ⟨hb, hc⟩
    · rfl
    · rw [next_other s (.inl hb), next_other s (.inl hc)]

theorem scanNumberFrom_utf8 (hend : IsEnd tail) (s : NumberState) (type : NumberType) (cs : Text) :
    scanNumberFrom s type (utf8 cs ++ tail) =
      (scanNumberFrom s type cs).map fun r => (r.1, r.2.1, utf8 r.2.2 ++ tail) := by
  cases h : scanNumberFrom s type cs with
  | some r =>
    obtain ⟨type', text, rest⟩ := r
    obtain ⟨s', path, rfl, hd⟩ := scanNumberFrom_iff.mp h
    refine scanNumberFrom_iff.mpr ⟨s', path, ?_, (next_head hend s' rest).trans hd⟩
    rw [utf8_append, utf8_of_ascii fun c hc => (ascii_of_path path c hc).1, List.append_assoc]
  | none =>
    cases h' : scanNumberFrom s type (utf8 cs ++ tail) with
    | none => rfl
    | some r =>
      obtain ⟨type', text, rest⟩ := r
      obtain ⟨s', path, htext, hd⟩ := scanNumberFrom_iff.mp h'
      obtain ⟨cs', rfl, rfl⟩ := exists_append_of_ascii hend (ascii_of_path path) htext
      have found := scanNumberFrom_iff.mpr ⟨s', path, rfl, (next_head hend s' cs').symm.trans hd⟩
      cases h.symm.trans found

/-- What a scan gives, of the bytes of a text and what is behind them. -/
def carry (tail : Text) (r : Token × Text) : Token × Text :=
  (r.1.mapString bytesOf, if r.1 = .parseError ∨ r.1 = .endOfInput then [] else utf8 r.2 ++ tail)

theorem scanNumber_utf8 (hend : IsEnd tail) (c : Char) (cs : Text) :
    scanNumber c (utf8 cs ++ tail) = carry tail (scanNumber c cs) := by
  rw [scanNumber, scanNumber, scanNumberFrom_utf8 hend]
  cases scanNumberFrom (firstState c) ((firstState c).enter .unsigned) cs with
  | none => rfl
  | some r =>
    obtain ⟨type, text, rest⟩ := r
    show (numberToken type (c :: text), utf8 rest ++ tail) = _
    have number : (numberToken type (c :: text)).isNumber = true := isNumber_numberToken
    simp only [carry]
    cases ht : numberToken type (c :: text) <;> rw [ht] at number <;> first | rfl | cases number

theorem scanLiteral_utf8 (hend : IsEnd tail) {literal : Text} {token : Token}
    (hascii : ∀ c ∈ literal, c.toNat < 0x80 ∧ c ≠ Char.ofNat 0)
    (hcarry : ∀ cs, (token, utf8 cs ++ tail) = carry tail (token, cs)) (cs : Text) :
    scanLiteral literal token (utf8 cs ++ tail) = carry tail (scanLiteral literal token cs) := by
  unfold scanLiteral
  by_cases h : literal.isPrefixOf cs = true
  · obtain ⟨cs', rfl⟩ := List.isPrefixOf_iff_prefix.mp h
    have h' : literal.isPrefixOf (utf8 (literal ++ cs') ++ tail) = true := by
      rw [utf8_append, utf8_of_ascii fun c hc => (hascii c hc).1, List.append_assoc]
      exact List.isPrefixOf_iff_prefix.mpr (List.prefix_append _ _)
    rw [if_pos h, if_pos h', utf8_append, utf8_of_ascii fun c hc => (hascii c hc).1,
      List.append_assoc, List.drop_left, List.drop_left]
    exact hcarry cs'
  · have h' : ¬ literal.isPrefixOf (utf8 cs ++ tail) = true := by
      intro h'
      obtain ⟨rest, hrest⟩ := List.isPrefixOf_iff_prefix.mp h'
      obtain ⟨cs', rfl, _⟩ := exists_append_of_ascii hend hascii hrest.symm
      exact h (List.isPrefixOf_iff_prefix.mpr (List.prefix_append _ _))
    rw [if_neg h, if_neg h']
    rfl

/-! ## Tokens -/

theorem scanToken_other (h : 0x80 ≤ c.toNat) (cs : Text) :
    Lexer.scanToken c cs = (.parseError, []) := by
  have ne {d : Char} (hd : d.toNat < 0x80) : c ≠ d := by
    rintro rfl
    omega
  have number : ¬ (c = '-' ∨ c.isDigit = true) := by
    rintro (rfl | hdigit)
    · exact absurd h (by decide)
    · rw [Char.isDigit, Bool.and_eq_true] at hdigit
      have : c.toNat ≤ 0x39 := of_decide_eq_true hdigit.2
      omega
  rw [Lexer.scanToken, if_neg (ne (by decide)), if_neg (ne (by decide)), if_neg (ne (by decide)),
    if_neg (ne (by decide)), if_neg (ne (by decide)), if_neg (ne (by decide)),
    if_neg (ne (by decide)), if_neg (ne (by decide)), if_neg (ne (by decide)),
    if_neg (ne (by decide)), if_neg number, if_neg (ne (by decide))]

/-- A string is read, or is not. -/
theorem scanString_utf8 (hend : IsEnd tail) (cs : Text) :
    scanString [] (utf8 cs ++ tail) =
      (Lexer.scanString cs).map fun r => (utf8 r.1, utf8 r.2 ++ tail) := by
  cases h : Lexer.scanString cs with
  | some r =>
    obtain ⟨s, rest⟩ := r
    obtain ⟨texts, all, rfl⟩ := Lexer.spellsAll_of_scanString h
    rw [utf8_append, List.append_assoc, utf8_cons_ascii (by decide)]
    exact scanString_of_spellsAll all _
  | none =>
    cases h' : scanString [] (utf8 cs ++ tail) with
    | none => rfl
    | some r =>
      obtain ⟨buffer, rest⟩ := r
      obtain ⟨texts, s, all, htext, rfl⟩ := spellsAll_of_scanString h'
      have quoted : utf8 texts ++ '"' :: rest = utf8 (texts ++ ['"']) ++ rest := by
        rw [utf8_append, utf8_ascii (c := '"') (by decide), List.append_assoc,
          List.singleton_append]
      have hnull : ∀ c ∈ texts ++ ['"'], c ≠ Char.ofNat 0 :=
        List.forall_mem_append.mpr ⟨not_null all, List.forall_mem_singleton.mpr (by decide)⟩
      obtain ⟨cs', rfl, _⟩ := exists_append hend hnull (htext.trans quoted)
      have found : Lexer.scanString (texts ++ '"' :: cs') = some (s, cs') :=
        Lexer.scanString_of_spellsAll all
      rw [List.append_assoc, List.singleton_append, found] at h
      cases h

theorem scanToken_utf8 (hend : IsEnd tail) (hc : c.toNat < 0x80) (cs : Text) :
    scanToken c (utf8 cs ++ tail) = carry tail (Lexer.scanToken c cs) := by
  have letters {literal : Text} (h : literal.all (fun c => decide ('a' ≤ c ∧ c ≤ 'z')) = true) :
      ∀ c ∈ literal, c.toNat < 0x80 ∧ c ≠ Char.ofNat 0 := by
    intro c hc
    obtain ⟨lower, upper⟩ := of_decide_eq_true (List.all_eq_true.mp h c hc)
    refine ⟨Nat.lt_of_le_of_lt upper (by decide), ?_⟩
    rintro rfl
    exact absurd lower (by decide)
  have taken {t : Token} (ht : t.mapString bytesOf = t) (hne : ¬ (t = .parseError ∨ t = .endOfInput))
      (cs : Text) : (t, utf8 cs ++ tail) = carry tail (t, cs) := by
    rw [carry, if_neg hne, ht]
  by_cases quote : c = '"'
  · subst quote
    simp only [scanToken, Lexer.scanToken, scanString_utf8 hend, Char.reduceEq, if_false, if_true]
    cases Lexer.scanString cs with
    | none => rfl
    | some r =>
      simp only [Option.map_some, carry, Token.mapString, bytesOf, String.toList_ofList,
        reduceCtorEq, or_self, if_false]
  · rw [scanToken, if_neg quote]
    unfold Lexer.scanToken
    simp only [if_neg quote, apply_ite (carry tail)]
    refine ite_congr rfl (fun _ => taken rfl (by decide) cs) fun _ => ?_
    refine ite_congr rfl (fun _ => taken rfl (by decide) cs) fun _ => ?_
    refine ite_congr rfl (fun _ => taken rfl (by decide) cs) fun _ => ?_
    refine ite_congr rfl (fun _ => taken rfl (by decide) cs) fun _ => ?_
    refine ite_congr rfl (fun _ => taken rfl (by decide) cs) fun _ => ?_
    refine ite_congr rfl (fun _ => taken rfl (by decide) cs) fun _ => ?_
    refine ite_congr rfl (fun _ => scanLiteral_utf8 hend (letters rfl) (taken rfl (by decide)) cs)
      fun _ => ?_
    refine ite_congr rfl (fun _ => scanLiteral_utf8 hend (letters rfl) (taken rfl (by decide)) cs)
      fun _ => ?_
    refine ite_congr rfl (fun _ => scanLiteral_utf8 hend (letters rfl) (taken rfl (by decide)) cs)
      fun _ => ?_
    refine ite_congr rfl (fun _ => scanNumber_utf8 hend c cs) fun _ => ?_
    exact ite_congr rfl (fun _ => rfl) fun _ => rfl

theorem not_whitespace (hc : 0x80 ≤ c.toNat) : ¬ isWhitespace c = true := by
  simp only [isWhitespace, Bool.or_eq_true, decide_eq_true_eq]
  rintro (((rfl | rfl) | rfl) | rfl) <;> exact absurd hc (by decide)

theorem skipWhitespace_utf8 (hend : IsEnd tail) (cs : Text) :
    skipWhitespace (utf8 cs ++ tail) = utf8 (skipWhitespace cs) ++ tail := by
  induction cs with
  | nil =>
    cases tail with
    | nil => rfl
    | cons c tail =>
      obtain rfl := hend c rfl
      rfl
  | cons c cs ih =>
    obtain ⟨b, bs, hb, first⟩ := exists_first c
    rcases first with ⟨_, rfl, rfl⟩ | ⟨hb', hc⟩
    · rw [utf8_cons, hb, skipWhitespace]
      by_cases hw : isWhitespace b = true
      · rw [if_pos hw, List.cons_append, List.cons_append, skipWhitespace, if_pos hw]
        exact ih
      · rw [if_neg hw, List.cons_append, List.cons_append, skipWhitespace, if_neg hw, utf8_cons, hb]
        rfl
    · rw [skipWhitespace, if_neg (not_whitespace hc), utf8_cons, hb, List.cons_append,
        List.cons_append, skipWhitespace, if_neg (not_whitespace hb')]

/-- **The next token of the bytes of a text is that of the text.** -/
theorem scan_utf8 (hend : IsEnd tail) (cs : Text) :
    scan (utf8 cs ++ tail) = carry tail (Lexer.scan cs) := by
  rw [scan, skipWhitespace_utf8 hend, Lexer.scan]
  cases skipWhitespace cs with
  | nil =>
    cases tail with
    | nil => rfl
    | cons c tail =>
      obtain rfl := hend c rfl
      rfl
  | cons c cs =>
    obtain ⟨b, bs, hb, first⟩ := exists_first c
    rw [utf8_cons, hb]
    rcases first with ⟨hb', rfl, rfl⟩ | ⟨hb', hc⟩
    · exact scanToken_utf8 hend hb' cs
    · have quote : b ≠ '"' := by
        rintro rfl
        exact absurd hb' (by decide)
      show scanToken b (bs ++ utf8 cs ++ tail) = carry tail (Lexer.scanToken c cs)
      rw [scanToken, if_neg quote, scanToken_other hb', scanToken_other hc]
      rfl

theorem length_utf8_lt (h : text ≠ []) (rest tail : Text) :
    (utf8 rest ++ tail).length < (utf8 (text ++ rest) ++ tail).length := by
  obtain ⟨c, cs, rfl⟩ := List.exists_cons_of_ne_nil h
  obtain ⟨b, bs, hb, _⟩ := exists_first c
  rw [List.cons_append, utf8_cons, hb, utf8_append]
  simp only [List.length_append, List.length_cons]
  omega

theorem ne_nil_of_writes {t : Token} (h : Writes text t) : text ≠ [] := by
  cases h with
  | number l =>
    have whole : (Literal.text l) ≠ [] := by
      simp [Literal.text, Digits.text]
    exact whole
  | _ => exact List.cons_ne_nil _ _

/-- The tokens of the bytes of a text, with enough steps for either. -/
theorem scanAll_utf8 (hend : IsEnd tail) {n m : ℕ} (hn : cs.length < n)
    (hm : (utf8 cs ++ tail).length < m) :
    scanAll m (utf8 cs ++ tail) = (Lexer.scanAll n cs).map (Token.mapString bytesOf) := by
  induction n generalizing m cs with
  | zero => exact absurd hn (Nat.not_lt_zero _)
  | succ n ih =>
    obtain ⟨m, rfl⟩ := Nat.exists_eq_succ_of_ne_zero (Nat.ne_zero_of_lt hm)
    rw [scanAll, Lexer.scanAll, scan_utf8 hend]
    cases hs : Lexer.scan cs with
    | mk t rest =>
      by_cases hne : t = .endOfInput
      · subst hne
        rfl
      by_cases ht : t = .parseError
      · subst ht
        rfl
      have shorter := length_scan hs hne ht
      obtain ⟨blank, lexeme, _, hw, htext⟩ := writes_of_scan hs ht hne
      have fewer : (utf8 rest ++ tail).length < m := by
        have less := length_utf8_lt (List.append_ne_nil_of_right_ne_nil blank (ne_nil_of_writes hw))
          rest tail
        rw [List.append_assoc, ← htext] at less
        omega
      have rests := ih (by omega) fewer
      simp only [carry, if_neg (not_or.mpr ⟨ht, hne⟩)]
      cases t <;> first
        | exact congrArg (List.cons _) rests
        | exact absurd rfl hne
        | exact absurd rfl ht

/-- **Bytes that encode a text have its tokens**, whatever comes behind a null byte, with the byte order
mark and without. -/
theorem tokens_utf8 (hend : IsEnd tail) (cs : Text) :
    tokens (utf8 cs ++ tail) = (Lexer.tokens (Lexer.skipBom cs)).map (Token.mapString bytesOf) := by
  have all (cs : Text) := scanAll_utf8 hend (Nat.lt_succ_self cs.length)
    (Nat.lt_succ_self (utf8 cs ++ tail).length)
  have plain {b : Char} {bs : Text} (hb : b ≠ Char.ofNat 0xEF) : skipBom (b :: bs) = some (b :: bs) :=
    if_neg hb
  cases cs with
  | nil =>
    have none : skipBom (utf8 [] ++ tail) = some (utf8 [] ++ tail) := by
      cases tail with
      | nil => rfl
      | cons c tail =>
        obtain rfl := hend c rfl
        exact plain (by decide)
    rw [tokens, none]
    exact all []
  | cons c cs =>
    by_cases mark : c = Char.ofNat 0xFEFF
    · subst mark
      have bytes : utf8 (Char.ofNat 0xFEFF :: cs) ++ tail = bom ++ (utf8 cs ++ tail) := by
        rw [utf8_cons, List.append_assoc]
        rfl
      have skipped : skipBom (bom ++ (utf8 cs ++ tail)) = some (utf8 cs ++ tail) := rfl
      rw [tokens, bytes, skipped]
      exact all cs
    · have marked : Lexer.skipBom (c :: cs) = c :: cs := if_neg mark
      obtain ⟨b, bs, hb, first⟩ := exists_first c
      have bytes : utf8 (c :: cs) ++ tail = b :: (bs ++ (utf8 cs ++ tail)) := by
        rw [utf8_cons, hb]
        simp only [List.cons_append, List.append_assoc]
      rw [marked]
      by_cases here : b = Char.ofNat 0xEF
      · -- the first byte of the mark, in another character
        rcases first with ⟨hc, rfl, _⟩ | ⟨_, hc⟩
        · rw [here] at hc
          exact absurd hc (by decide)
        have unmarked : ¬ bom.tail.isPrefixOf (bs ++ (utf8 cs ++ tail)) = true := by
          intro prefixed
          obtain ⟨rest, hrest⟩ := List.isPrefixOf_iff_prefix.mp prefixed
          have both : utf8 [c] ++ (utf8 cs ++ tail) = utf8 [Char.ofNat 0xFEFF] ++ rest := by
            rw [hb, List.cons_append, ← hrest, here]
            rfl
          exact mark (utf8_append_inj both).1
        have failed : skipBom (utf8 (c :: cs) ++ tail) = Option.none := by
          rw [bytes, here, skipBom, if_pos rfl, if_neg unmarked]
        have blank : skipWhitespace (c :: cs) = c :: cs := by
          rw [skipWhitespace, if_neg (not_whitespace hc)]
        have error : Lexer.scan (c :: cs) = (.parseError, []) := by
          rw [Lexer.scan, blank]
          exact scanToken_other hc cs
        rw [tokens, failed, Lexer.tokens, Lexer.scanAll, error]
        rfl
      · have same : skipBom (utf8 (c :: cs) ++ tail) = some (utf8 (c :: cs) ++ tail) := by
          rw [bytes]
          exact plain here
        rw [tokens, same]
        exact all (c :: cs)

/-! ## Bytes that are scanned to their end -/

theorem ascii_of_isDigit (h : c.isDigit = true) : c.toNat < 0x80 := by
  rw [Char.isDigit, Bool.and_eq_true] at h
  have : c.toNat ≤ 0x39 := of_decide_eq_true h.2
  omega

theorem ascii_of_digits (ds : Digits) : ∀ c ∈ ds.text, c.toNat < 0x80 :=
  List.forall_mem_cons.mpr ⟨ascii_of_isDigit ds.first_isDigit,
    fun c hc => ascii_of_isDigit (ds.others_isDigit c hc)⟩

/-- Numbers are ASCII. -/
theorem ascii_of_literal (l : Literal) : ∀ c ∈ l.text, c.toNat < 0x80 := by
  rw [Literal.text]
  refine List.forall_mem_append.mpr ⟨List.forall_mem_append.mpr
    ⟨List.forall_mem_append.mpr ⟨?_, ascii_of_digits l.whole⟩, ?_⟩, ?_⟩
  · cases l.minus with
    | false => exact List.forall_mem_nil _
    | true => exact List.forall_mem_singleton.mpr (by decide)
  · cases l.fraction with
    | none => exact List.forall_mem_nil _
    | some ds => exact List.forall_mem_cons.mpr ⟨by decide, ascii_of_digits ds⟩
  · cases l.exponent with
    | none => exact List.forall_mem_nil _
    | some x =>
      refine List.forall_mem_cons.mpr ⟨?_, List.forall_mem_append.mpr ⟨fun c hc => ?_,
        ascii_of_digits x.digits⟩⟩
      · rcases x.letter_eq with h | h <;> rw [h] <;> decide
      · rcases x.sign_eq c (Option.mem_toList.mp hc) with rfl | rfl <;> decide

/-- Outside of strings there are only ASCII characters. -/
theorem ascii_of_writes {t : Token} (h : Writes text t) (quote : text.head? ≠ some '"') :
    ∀ c ∈ text, c.toNat < 0x80 := by
  have letters {text : Text} (h : text.all (fun c => decide (c.toNat < 0x80)) = true) :
      ∀ c ∈ text, c.toNat < 0x80 :=
    fun c hc => of_decide_eq_true (List.all_eq_true.mp h c hc)
  cases h with
  | string _ => exact absurd rfl quote
  | number l => exact ascii_of_literal l
  | _ => exact letters rfl

theorem ascii_of_blank (h : Blank text) : ∀ c ∈ text, c.toNat < 0x80 := by
  intro c hc
  by_contra hbig
  exact not_whitespace (Nat.not_lt.mp hbig) (h c hc)

/-- A token that is scanned takes the bytes of a text. -/
theorem utf8_of_scan {t : Token} (h : scan cs = (t, rest)) (ht : t ≠ .parseError)
    (hne : t ≠ .endOfInput) : ∃ text, cs = utf8 text ++ rest := by
  obtain ⟨blank, hb, hcs⟩ := exists_blank cs
  have enough {text : Text} (hwritten : skipWhitespace cs = utf8 text ++ rest) :
      ∃ text, cs = utf8 text ++ rest := by
    rw [hwritten, ← utf8_of_ascii (ascii_of_blank hb), ← List.append_assoc, ← utf8_append] at hcs
    exact ⟨blank ++ text, hcs⟩
  unfold scan at h
  split at h
  next => exact absurd (Prod.mk.inj h).1.symm hne
  next c cs' heq =>
    rw [heq] at enough
    unfold scanToken at h
    split at h
    next hc =>
      split at h
      next s cs'' hs =>
        obtain ⟨rfl, rfl⟩ := Prod.mk.inj h
        obtain ⟨texts, _, _, rfl, _⟩ := spellsAll_of_scanString hs
        have quoted : c :: (utf8 texts ++ '"' :: cs'') = utf8 ('"' :: texts ++ ['"']) ++ cs'' := by
          rw [utf8_append, utf8_cons_ascii (by decide), utf8_ascii (c := '"') (by decide), hc,
            List.cons_append, List.cons_append, List.append_assoc, List.singleton_append]
        exact enough quoted
      next => exact absurd (Prod.mk.inj h).1.symm ht
    next hc =>
      rcases writes_of_scanToken h ht with ⟨lexeme, hw, htext⟩ | ⟨hend, _⟩
      · have quote : lexeme.head? ≠ some '"' := by
          obtain ⟨d, ds, rfl⟩ := List.exists_cons_of_ne_nil (ne_nil_of_writes hw)
          obtain rfl := (List.cons.inj htext).1
          exact fun h => hc (Option.some.inj h)
        rw [← utf8_of_ascii (ascii_of_writes hw quote)] at htext
        exact enough htext
      · exact absurd hend hne

theorem end_of_scan_bytes (h : scan cs = (.endOfInput, rest)) :
    ∃ text tail, IsEnd tail ∧ cs = utf8 text ++ tail := by
  obtain ⟨blank, hb, hcs⟩ := exists_blank cs
  refine ⟨blank, skipWhitespace cs, ?_, (utf8_of_ascii (ascii_of_blank hb)).symm ▸ hcs⟩
  unfold scan at h
  split at h
  next heq =>
    rw [heq]
    exact fun c hc => absurd hc (Option.not_mem_none c)
  next c cs' heq =>
    rw [heq]
    unfold scanToken at h
    split at h
    next =>
      split at h <;> cases h
    next =>
      intro d hd
      obtain rfl := Option.some.inj hd
      rcases writes_of_scanToken h Token.noConfusion with ⟨lexeme, hw, _⟩ | ⟨_, hnull⟩
      · exact absurd rfl (ne_of_writes hw).1
      · exact hnull

theorem utf8_of_scanAll {n : ℕ} {ts r : List Token} (h : scanAll n cs = ts ++ .endOfInput :: r) :
    ∃ text tail, IsEnd tail ∧ cs = utf8 text ++ tail := by
  induction n generalizing cs ts with
  | zero => exact absurd h.symm (List.append_ne_nil_of_right_ne_nil _ (List.cons_ne_nil _ _))
  | succ n ih =>
    cases hs : scan cs with
    | mk t rest =>
      by_cases hne : t = .endOfInput
      · subst hne
        exact end_of_scan_bytes hs
      by_cases ht : t = .parseError
      · subst ht
        rw [scanAll, hs] at h
        cases ts with
        | nil => cases h
        | cons t ts => cases ts <;> cases (List.cons.inj h).2
      · obtain ⟨text, rfl⟩ := utf8_of_scan hs ht hne
        have more : t :: scanAll n rest = ts ++ .endOfInput :: r := by
          rw [← h, scanAll, hs]
          cases t <;> first | rfl | exact absurd rfl hne | exact absurd rfl ht
        cases ts with
        | nil => exact absurd (List.cons.inj more).1 hne
        | cons t' ts =>
          obtain ⟨texts, tail, hend, rfl⟩ := ih (List.cons.inj more).2
          exact ⟨text ++ texts, tail, hend, by rw [utf8_append, List.append_assoc]⟩

/-- **Bytes that are scanned to their end encode a text**, up to a null byte. -/
theorem utf8_of_tokens {ts r : List Token} (h : tokens cs = ts ++ .endOfInput :: r) :
    ∃ text tail, IsEnd tail ∧ cs = utf8 text ++ tail := by
  rw [tokens] at h
  split at h
  next cs' hskip =>
    obtain ⟨text, tail, hend, rfl⟩ := utf8_of_scanAll h
    cases cs with
    | nil =>
      obtain hnil := Option.some.inj hskip
      exact ⟨text, tail, hend, hnil⟩
    | cons c cs =>
      rw [skipBom] at hskip
      split at hskip
      next hc =>
        split at hskip
        next hmark =>
          obtain ⟨rest, rfl⟩ := List.isPrefixOf_iff_prefix.mp hmark
          refine ⟨Char.ofNat 0xFEFF :: text, tail, hend, ?_⟩
          rw [utf8_cons, List.append_assoc, ← Option.some.inj hskip, hc]
          rfl
        next => cases hskip
      next => exact ⟨text, tail, hend, Option.some.inj hskip⟩
  next =>
    cases ts with
    | nil => cases h
    | cons t ts => cases ts <;> cases (List.cons.inj h).2

end Texts

end Bytes

end TcpServer
