import TcpServer.Base.Utf8
import TcpServer.DataLayer.Bytes
import TcpServer.Laws.Scanning

/-!
# Strings of bytes

The lexer reads bytes, and what it reads of them is what `Lexer.lean` reads of the characters they
encode. Between quotation marks it takes the UTF-8 encodings of what spells a string, and no other bytes
(`scanString_bytes`): the fifteen cases of `scan_string` for bytes beyond ASCII are the table of
well-formed sequences, and the bytes it puts together for an escaped code are the encoding of the
character.
-/

namespace TcpServer

namespace Bytes

open Lexer

/-- The bytes of a text, as they are carried here. -/
def utf8 (cs : Text) : Text := (Utf8.encodeAll cs).map Char.ofNat

/-! ## The bytes of a character -/

section Characters

variable {c d : Char} {cs ds : Text} {range : ℕ × ℕ} {ranges : List (ℕ × ℕ)}

theorem utf8_append (cs ds : Text) : utf8 (cs ++ ds) = utf8 cs ++ utf8 ds := by
  rw [utf8, Utf8.encodeAll, List.flatMap_append, List.map_append]
  rfl

theorem utf8_cons (c : Char) (cs : Text) : utf8 (c :: cs) = utf8 [c] ++ utf8 cs :=
  utf8_append [c] cs

theorem utf8_singleton (c : Char) : utf8 [c] = (Utf8.encode c).map Char.ofNat := by
  rw [utf8, Utf8.encodeAll, List.flatMap_singleton]

/-- An ASCII character is its own byte. -/
theorem utf8_ascii (h : c.toNat < 0x80) : utf8 [c] = [c] := by
  rw [utf8_singleton, Utf8.encode_one h, List.map_singleton, Char.ofNat_toNat]

theorem utf8_cons_ascii (h : c.toNat < 0x80) (cs : Text) : utf8 (c :: cs) = c :: utf8 cs := by
  rw [utf8_cons, utf8_ascii h, List.singleton_append]

theorem utf8_of_ascii (h : ∀ c ∈ cs, c.toNat < 0x80) : utf8 cs = cs := by
  induction cs with
  | nil => rfl
  | cons c cs ih =>
    rw [utf8_cons_ascii (h c List.mem_cons_self), ih fun d hd => h d (.tail _ hd)]

theorem fits_lt {row : List (ℕ × ℕ)} (hrow : row ∈ Utf8.rows) {bytes : List ℕ}
    (h : Utf8.Fits row bytes) : ∀ b ∈ bytes, b < 0x100 := by
  have bound : ∀ row ∈ Utf8.rows, ∀ range ∈ row, range.2 < 0x100 := by decide
  have all := bound row hrow
  clear hrow bound
  induction h with
  | nil => exact List.forall_mem_nil _
  | cons hb _ ih =>
    obtain ⟨first, rest⟩ := List.forall_mem_cons.mp all
    exact List.forall_mem_cons.mpr ⟨Nat.lt_of_le_of_lt hb.2 first, ih rest⟩

theorem toNat_utf8 (c : Char) : (utf8 [c]).map Char.toNat = Utf8.encode c := by
  obtain ⟨row, hrow, h⟩ := Utf8.exists_row c
  rw [utf8_singleton, List.map_map]
  refine (List.map_congr_left fun b hb => ?_).trans (List.map_id _)
  have small := fits_lt hrow h b hb
  exact toNat_ofNat (.inl (by omega))

/-- The first byte of a character: itself, or none of ASCII. -/
theorem exists_first (c : Char) :
    ∃ b bs, utf8 [c] = b :: bs ∧ (c.toNat < 0x80 ∧ b = c ∧ bs = [] ∨ 0x80 ≤ b.toNat ∧ 0x80 ≤ c.toNat) := by
  rcases Nat.lt_or_ge c.toNat 0x80 with hc | hc
  · exact ⟨c, [], utf8_ascii hc, .inl ⟨hc, rfl, rfl⟩⟩
  · have bytes := toNat_utf8 c
    cases heq : utf8 [c] with
    | nil =>
      rw [heq, List.map_nil] at bytes
      exact absurd bytes.symm (Utf8.encode_ne_nil c)
    | cons b bs =>
      refine ⟨b, bs, rfl, .inr ⟨?_, hc⟩⟩
      rw [heq, List.map_cons] at bytes
      rcases Utf8.encode_cases c with ⟨h, _⟩ | ⟨_, h⟩ | ⟨_, h⟩ | ⟨_, h⟩
      · omega
      all_goals
        rw [h] at bytes
        have := (List.cons.inj bytes).1
        omega

/-- Well-formed bytes are those of a character. -/
theorem exists_utf8 {row : List (ℕ × ℕ)} (hrow : row ∈ Utf8.rows)
    (h : Utf8.Fits row (cs.map Char.toNat)) : ∃ c, utf8 [c] = cs := by
  obtain ⟨c, hc⟩ := Utf8.exists_encode hrow h
  refine ⟨c, ?_⟩
  rw [utf8_singleton, hc, List.map_map]
  exact (List.map_congr_left fun c _ => Char.ofNat_toNat c).trans (List.map_id _)

/-- The bytes in which a code is written are those of its character. -/
theorem translate_eq (c : Char) : translate c.toNat = utf8 [c] := by
  have valid := Utf8.toNat_valid c
  have join (a k : ℕ) {x : ℕ} (h : x < 2 ^ k) : 2 ^ k * a ||| x = 2 ^ k * a + x :=
    (Nat.two_pow_add_eq_or_of_lt h a).symm
  have tail (x : ℕ) : 0x80 ||| x &&& 0x3F = 0x80 + x % 64 := by
    rw [show 0x3F = 2 ^ 6 - 1 from rfl, Nat.and_two_pow_sub_one_eq_mod]
    exact join 2 6 (Nat.mod_lt _ (by decide))
  rw [utf8_singleton, translate]
  rcases Utf8.encode_cases c with ⟨hc, bytes⟩ | ⟨hc, bytes⟩ | ⟨hc, bytes⟩ | ⟨hc, bytes⟩
  · rw [bytes, if_pos hc]
    rfl
  · have first : 0xC0 ||| c.toNat >>> 6 = 0xC0 + c.toNat / 64 := by
      rw [Nat.shiftRight_eq_div_pow]
      exact join 3 6 (by omega)
    rw [bytes, if_neg (by omega), if_pos (by omega), first, tail]
    rfl
  · have first : 0xE0 ||| c.toNat >>> 12 = 0xE0 + c.toNat / 4096 := by
      rw [Nat.shiftRight_eq_div_pow]
      exact join 14 4 (by omega)
    rw [bytes, if_neg (by omega), if_neg (by omega), if_pos (by omega), first, tail, tail,
      Nat.shiftRight_eq_div_pow]
    rfl
  · have first : 0xF0 ||| c.toNat >>> 18 = 0xF0 + c.toNat / 262144 := by
      rw [Nat.shiftRight_eq_div_pow]
      exact join 30 3 (by omega)
    rw [bytes, if_neg (by omega), if_neg (by omega), if_neg (by omega), first, tail, tail, tail,
      Nat.shiftRight_eq_div_pow, Nat.shiftRight_eq_div_pow]
    rfl

/-! ## The table of the lexer -/

/-- The ranges that are asked for are those of the table. -/
theorem row_of_ranges (h : ranges? c = some ranges) :
    0x20 ≤ c.toNat ∧
      ∃ range, (range.1 ≤ c.toNat ∧ c.toNat ≤ range.2) ∧ (range :: ranges) ∈ Utf8.rows := by
  have found {r : ℕ × ℕ} (ranges' : List (ℕ × ℕ)) (hrow : (r :: ranges') ∈ Utf8.rows)
      (hc : r.1 ≤ c.toNat ∧ c.toNat ≤ r.2) (low : 0x20 ≤ c.toNat)
      (h : some ranges' = some ranges) : 0x20 ≤ c.toNat ∧
      ∃ range, (range.1 ≤ c.toNat ∧ c.toNat ≤ range.2) ∧ (range :: ranges) ∈ Utf8.rows := by
    obtain rfl := Option.some.inj h
    exact ⟨low, r, hc, hrow⟩
  revert h
  unfold ranges?
  refine ite_elim (fun hc => found (r := (0x00, 0x7F)) _ (by decide) ?_ ?_) fun _ => ?_
  · simp only; omega
  · omega
  refine ite_elim (fun hc => found (r := (0xC2, 0xDF)) _ (by decide) hc (by omega)) fun _ => ?_
  refine ite_elim (fun hc => found (r := (0xE0, 0xE0)) _ (by decide) ?_ (by omega)) fun _ => ?_
  · simp only; omega
  refine ite_elim (fun hc => ?_) fun _ => ?_
  · rcases hc with hc | hc
    · exact found (r := (0xE1, 0xEC)) _ (by decide) hc (by omega)
    · exact found (r := (0xEE, 0xEF)) _ (by decide) hc (by omega)
  refine ite_elim (fun hc => found (r := (0xED, 0xED)) _ (by decide) ?_ (by omega)) fun _ => ?_
  · simp only; omega
  refine ite_elim (fun hc => found (r := (0xF0, 0xF0)) _ (by decide) ?_ (by omega)) fun _ => ?_
  · simp only; omega
  refine ite_elim (fun hc => found (r := (0xF1, 0xF3)) _ (by decide) hc (by omega)) fun _ => ?_
  refine ite_elim (fun hc => found (r := (0xF4, 0xF4)) _ (by decide) ?_ (by omega)) fun _ h => ?_
  · simp only; omega
  · cases h

theorem ranges_of_row (hrow : (range :: ranges) ∈ Utf8.rows)
    (hc : range.1 ≤ c.toNat ∧ c.toNat ≤ range.2) (low : 0x20 ≤ c.toNat) :
    ranges? c = some ranges := by
  unfold ranges?
  simp only [Utf8.rows, List.mem_cons, List.cons.injEq, List.not_mem_nil, or_false] at hrow
  rcases hrow with ⟨rfl, rfl⟩ | ⟨rfl, rfl⟩ | ⟨rfl, rfl⟩ | ⟨rfl, rfl⟩ | ⟨rfl, rfl⟩ | ⟨rfl, rfl⟩ |
    ⟨rfl, rfl⟩ | ⟨rfl, rfl⟩ | ⟨rfl, rfl⟩ <;> simp only at hc
  · rw [if_pos (by omega)]
  · rw [if_neg (by omega), if_pos (by omega)]
  · rw [if_neg (by omega), if_neg (by omega), if_pos (by omega)]
  · rw [if_neg (by omega), if_neg (by omega), if_neg (by omega), if_pos (by omega)]
  · rw [if_neg (by omega), if_neg (by omega), if_neg (by omega), if_neg (by omega),
      if_pos (by omega)]
  · rw [if_neg (by omega), if_neg (by omega), if_neg (by omega), if_pos (by omega)]
  · rw [if_neg (by omega), if_neg (by omega), if_neg (by omega), if_neg (by omega),
      if_neg (by omega), if_pos (by omega)]
  · rw [if_neg (by omega), if_neg (by omega), if_neg (by omega), if_neg (by omega),
      if_neg (by omega), if_neg (by omega), if_pos (by omega)]
  · rw [if_neg (by omega), if_neg (by omega), if_neg (by omega), if_neg (by omega),
      if_neg (by omega), if_neg (by omega), if_neg (by omega), if_pos (by omega)]

end Characters

/-! ## Strings -/

section Strings

variable {c : Char} {cs bs text texts s buffer rest : Text} {ranges : List (ℕ × ℕ)}

theorem addAll_eq_some {bytes : Text} {o : Option (Text × Text)} :
    addAll bytes o = some (buffer, rest) ↔ ∃ s, o = some (s, rest) ∧ buffer = bytes ++ s := by
  rw [addAll, Option.map_eq_some_iff]
  constructor
  · rintro ⟨⟨s, rest'⟩, ho, heq⟩
    obtain ⟨rfl, rfl⟩ := Prod.mk.inj heq
    exact ⟨s, ho, rfl⟩
  · rintro ⟨s, ho, rfl⟩
    exact ⟨_, ho, rfl⟩

theorem addAll_addAll (bs cs : Text) (o : Option (Text × Text)) :
    addAll bs (addAll cs o) = addAll (bs ++ cs) o := by
  cases o with
  | none => rfl
  | some r => exact congrArg (fun b => some (b, r.2)) (List.append_assoc _ _ _).symm

/-- Bytes that are in the ranges are taken. -/
theorem scanString_fits (h : Utf8.Fits ranges (bs.map Char.toNat)) (cs : Text) :
    scanString ranges (bs ++ cs) = addAll bs (scanString [] cs) := by
  induction bs generalizing ranges with
  | nil =>
    cases h
    cases h : scanString [] cs <;> simp only [List.nil_append, h, addAll, Option.map]
  | cons b bs ih =>
    cases h with
    | cons hb hbs =>
      rw [List.cons_append, scanString.eq_def]
      simp only [inRange, decide_eq_true hb, if_true]
      rw [ih hbs, addAll_addAll, List.singleton_append]

/-- A character is taken with all its bytes. -/
theorem scanString_plain (quote : c ≠ '"') (backslash : c ≠ '\\') (control : 0x20 ≤ c.toNat)
    (cs : Text) : scanString [] (utf8 [c] ++ cs) = addAll (utf8 [c]) (scanString [] cs) := by
  obtain ⟨row, hrow, fits⟩ := Utf8.exists_row c
  obtain ⟨b, bs, heq, first⟩ := exists_first c
  rw [← toNat_utf8, heq] at fits
  obtain ⟨range, ranges, rfl⟩ : ∃ range ranges, row = range :: ranges := by
    cases fits
    exact ⟨_, _, rfl⟩
  obtain ⟨hb, hbs⟩ := List.forall₂_cons.mp fits
  have ne {d : Char} (hd : d.toNat < 0x80) (hne : c ≠ d) : b ≠ d := by
    rintro rfl
    rcases first with ⟨_, rfl, _⟩ | ⟨first, _⟩
    · exact hne rfl
    · omega
  have low : 0x20 ≤ b.toNat := by
    rcases first with ⟨_, rfl, _⟩ | ⟨first, _⟩
    · exact control
    · omega
  rw [heq, List.cons_append, scanString.eq_def]
  simp only [if_neg (ne (by decide) quote), if_neg (ne (by decide) backslash),
    ranges_of_row hrow hb low]
  rw [scanString_fits hbs, addAll_addAll, List.singleton_append]

theorem ascii_of_simpleEscape {e c : Char} (h : simpleEscape e = some c) :
    e.toNat < 0x80 ∧ c.toNat < 0x80 := by
  revert h
  unfold simpleEscape
  have found {d e' : Char} (hd : d.toNat < 0x80) (he : e'.toNat < 0x80) (heq : e = e')
      (h : some d = some c) : e.toNat < 0x80 ∧ c.toNat < 0x80 := by
    obtain rfl := Option.some.inj h
    exact ⟨heq ▸ he, hd⟩
  refine ite_elim (found (by decide) (by decide)) fun _ => ?_
  refine ite_elim (found (by decide) (by decide)) fun _ => ?_
  refine ite_elim (found (by decide) (by decide)) fun _ => ?_
  refine ite_elim (found (by decide) (by decide)) fun _ => ?_
  refine ite_elim (found (by decide) (by decide)) fun _ => ?_
  refine ite_elim (found (by decide) (by decide)) fun _ => ?_
  refine ite_elim (found (by decide) (by decide)) fun _ => ?_
  refine ite_elim (found (by decide) (by decide)) fun _ h => ?_
  cases h

theorem ascii_of_hexValue {n : ℕ} (h : hexValue c = some n) : c.toNat < 0x80 := by
  have below {a b : Char} (hb : b.toNat < 0x80) (hc : a ≤ c ∧ c ≤ b) : c.toNat < 0x80 :=
    Nat.lt_of_le_of_lt hc.2 hb
  revert h
  unfold hexValue
  refine ite_elim (fun hc _ => below (by decide) hc) fun _ => ?_
  refine ite_elim (fun hc _ => below (by decide) hc) fun _ => ?_
  refine ite_elim (fun hc _ => below (by decide) hc) fun _ h => ?_
  cases h

/-- Hex digits are ASCII. -/
theorem utf8_of_getCodepoint {c₁ c₂ c₃ c₄ : Char} {n : ℕ}
    (h : getCodepoint c₁ c₂ c₃ c₄ = some n) :
    utf8 ['\\', 'u', c₁, c₂, c₃, c₄] = ['\\', 'u', c₁, c₂, c₃, c₄] := by
  simp only [getCodepoint, bind, Option.bind_eq_some_iff] at h
  obtain ⟨_, h₁, _, h₂, _, h₃, _, h₄, _⟩ := h
  apply utf8_of_ascii
  simp only [List.forall_mem_cons]
  exact ⟨by decide, by decide, ascii_of_hexValue h₁, ascii_of_hexValue h₂, ascii_of_hexValue h₃,
    ascii_of_hexValue h₄, List.forall_mem_nil _⟩

/-- **A character is read from the bytes of whatever spells it.** -/
theorem scanString_of_spells (h : Spells text c) (cs : Text) :
    scanString [] (utf8 text ++ cs) = addAll (utf8 [c]) (scanString [] cs) := by
  cases h with
  | plain quote backslash control => exact scanString_plain quote backslash control cs
  | @escape e c h =>
    obtain ⟨he, hc⟩ := ascii_of_simpleEscape h
    have hu : e ≠ 'u' := by
      rintro rfl
      cases h
    rw [utf8_cons_ascii (by decide), utf8_ascii he, utf8_ascii hc, List.cons_append,
      List.singleton_append, scanString.eq_def]
    simp only [Char.reduceEq, if_false, if_true, if_neg hu, h]
  | @codepoint c₁ c₂ c₃ c₄ c h =>
    have valid := Utf8.toNat_valid c
    have notHigh : ¬ (0xD800 ≤ c.toNat ∧ c.toNat ≤ 0xDBFF) := by omega
    have notLow : ¬ (0xDC00 ≤ c.toNat ∧ c.toNat ≤ 0xDFFF) := by omega
    rw [utf8_of_getCodepoint h]
    simp only [List.cons_append, List.nil_append]
    rw [scanString.eq_def]
    simp only [Char.reduceEq, if_false, if_true, h, if_neg notHigh, if_neg notLow, translate_eq]
  | @surrogates c₁ c₂ c₃ c₄ e₁ e₂ e₃ e₄ c high low first second isHigh isLow h =>
    have pair := utf8_append ['\\', 'u', c₁, c₂, c₃, c₄] ['\\', 'u', e₁, e₂, e₃, e₄]
    rw [utf8_of_getCodepoint first, utf8_of_getCodepoint second] at pair
    simp only [List.cons_append, List.nil_append] at pair
    rw [pair]
    simp only [List.cons_append, List.nil_append]
    rw [scanString.eq_def]
    simp only [Char.reduceEq, if_false, if_true, first, second, if_pos isHigh, if_pos isLow,
      and_self, surrogates_eq isHigh isLow, ← h, translate_eq]

theorem scanString_of_spellsAll (h : SpellsAll texts s) (rest : Text) :
    scanString [] (utf8 texts ++ '"' :: rest) = some (utf8 s, rest) := by
  induction h with
  | nil =>
    rw [utf8, Utf8.encodeAll, List.flatMap_nil, List.map_nil, List.nil_append, scanString.eq_def]
    simp only [if_true]
  | @cons text c texts cs h _ ih =>
    rw [utf8_append, List.append_assoc, scanString_of_spells h, ih, utf8_cons c cs]
    rfl

/-- What is read is what is left of a character, and what spells a string after it. -/
def Reads (ranges : List (ℕ × ℕ)) (bs buffer rest : Text) : Prop :=
  ∃ bytes texts s, Utf8.Fits ranges (bytes.map Char.toNat) ∧ SpellsAll texts s ∧
    bs = bytes ++ (utf8 texts ++ '"' :: rest) ∧ buffer = bytes ++ utf8 s

/-- One more character, in front of what is spelled after it. -/
theorem Reads.add {bytes : Text} (bytes_eq : utf8 text = bytes) (spells : Spells text c)
    {o : Option (Text × Text)} (h : addAll (utf8 [c]) o = some (buffer, rest))
    (ih : ∀ {s}, o = some (s, rest) → Reads [] bs s rest) : Reads [] (bytes ++ bs) buffer rest := by
  obtain ⟨s', ho, rfl⟩ := addAll_eq_some.mp h
  obtain ⟨_, texts, s, hnil, all, rfl, rfl⟩ := ih ho
  obtain rfl := List.map_eq_nil_iff.mp (Utf8.fits_nil.mp hnil)
  refine ⟨[], text ++ texts, c :: s, .nil, .cons spells all, ?_, ?_⟩
  · rw [List.nil_append, List.nil_append, utf8_append, bytes_eq, List.append_assoc]
  · rw [List.nil_append, List.nil_append, utf8_cons c s]

theorem reads_of_scanString (h : scanString ranges bs = some (buffer, rest)) :
    Reads ranges bs buffer rest := by
  fun_induction scanString ranges bs generalizing buffer with
  | case2 c cs range ranges hc ih =>
    obtain ⟨s', ho, rfl⟩ := addAll_eq_some.mp h
    obtain ⟨bytes, texts, s, fits, all, rfl, rfl⟩ := ih ho
    exact ⟨c :: bytes, texts, s, .cons (of_decide_eq_true hc) fits, all, rfl, rfl⟩
  | case4 =>
    obtain ⟨rfl, rfl⟩ := Prod.mk.inj (Option.some.inj h)
    exact ⟨[], [], [], .nil, .nil, rfl, rfl⟩
  | case8 c₁ c₂ c₃ c₄ high first isHigh b u e₁ e₂ e₃ e₄ cs hbu low second isLow _ ih =>
    obtain ⟨rfl, rfl⟩ := hbu
    obtain ⟨c, hc⟩ := Utf8.exists_char (n := 0x10000 + (high - 0xD800) * 0x400 + (low - 0xDC00))
      (by omega)
    have pair := utf8_append ['\\', 'u', c₁, c₂, c₃, c₄] ['\\', 'u', e₁, e₂, e₃, e₄]
    rw [utf8_of_getCodepoint first, utf8_of_getCodepoint second] at pair
    rw [surrogates_eq isHigh isLow, ← hc, translate_eq] at h
    exact Reads.add pair (.surrogates first second isHigh isLow hc) h ih
  | case13 c₁ c₂ c₃ c₄ cs code hex notHigh notLow _ ih =>
    have bound := getCodepoint_lt hex
    obtain ⟨c, rfl⟩ := Utf8.exists_char (n := code) (by omega)
    rw [translate_eq] at h
    exact Reads.add (utf8_of_getCodepoint hex) (.codepoint hex) h ih
  | case16 e cs hu c escape _ ih =>
    obtain ⟨he, hc⟩ := ascii_of_simpleEscape escape
    have bytes : utf8 ['\\', e] = ['\\', e] :=
      utf8_of_ascii (List.forall_mem_cons.mpr ⟨by decide, List.forall_mem_singleton.mpr he⟩)
    rw [← utf8_ascii hc] at h
    exact Reads.add bytes (.escape escape) h ih
  | case18 b bs quote backslash ranges hranges ih =>
    obtain ⟨s', ho, rfl⟩ := addAll_eq_some.mp h
    obtain ⟨bytes, texts, s, fits, all, rfl, rfl⟩ := ih ho
    obtain ⟨low, range, hb, hrow⟩ := row_of_ranges hranges
    obtain ⟨c, hc⟩ : ∃ c, utf8 [c] = b :: bytes := exists_utf8 hrow (.cons hb fits)
    have ascii (h : c.toNat < 0x80) : c = b := by
      rw [utf8_ascii h] at hc
      exact (List.cons.inj hc).1
    have spells : Spells [c] c := by
      refine .plain ?_ ?_ ?_
      · rintro rfl
        exact quote (ascii (by decide)).symm
      · rintro rfl
        exact backslash (ascii (by decide)).symm
      · by_contra hlt
        rw [ascii (by omega)] at hlt
        exact hlt low
    refine ⟨[], [c] ++ texts, c :: s, .nil, .cons spells all, ?_, ?_⟩
    · rw [utf8_append, hc]
      simp only [List.nil_append, List.cons_append, List.append_assoc]
    · rw [utf8_cons c s, hc]
      simp only [List.nil_append, List.cons_append]
  | _ => cases h

theorem spellsAll_of_scanString (h : scanString [] bs = some (buffer, rest)) :
    ∃ texts s, SpellsAll texts s ∧ bs = utf8 texts ++ '"' :: rest ∧ buffer = utf8 s := by
  obtain ⟨bytes, texts, s, hnil, all, rfl, rfl⟩ := reads_of_scanString h
  obtain rfl := List.map_eq_nil_iff.mp (Utf8.fits_nil.mp hnil)
  exact ⟨texts, s, all, rfl, rfl⟩

/-- **The string scanner takes the bytes of what spells a string up to the quotation mark, and no other
bytes**, and reads the bytes of the string. -/
theorem scanString_bytes (bs buffer rest : Text) :
    scanString [] bs = some (buffer, rest) ↔
      ∃ texts s, SpellsAll texts s ∧ bs = utf8 texts ++ '"' :: rest ∧ buffer = utf8 s := by
  constructor
  · exact spellsAll_of_scanString
  · rintro ⟨texts, s, all, rfl, rfl⟩
    exact scanString_of_spellsAll all rest

theorem not_null_of_getCodepoint {c₁ c₂ c₃ c₄ : Char} {n : ℕ}
    (h : getCodepoint c₁ c₂ c₃ c₄ = some n) :
    ∀ c ∈ ['\\', 'u', c₁, c₂, c₃, c₄], c ≠ Char.ofNat 0 := by
  have digit {c : Char} {d : ℕ} (h : hexValue c = some d) : c ≠ Char.ofNat 0 := by
    rintro rfl
    cases h
  simp only [getCodepoint, bind, Option.bind_eq_some_iff] at h
  obtain ⟨_, h₁, _, h₂, _, h₃, _, h₄, _⟩ := h
  simp only [List.forall_mem_cons]
  exact ⟨by decide, by decide, digit h₁, digit h₂, digit h₃, digit h₄, List.forall_mem_nil _⟩

/-- No null byte is in what spells a string. -/
theorem not_null (h : SpellsAll texts s) : ∀ c ∈ texts, c ≠ Char.ofNat 0 := by
  induction h with
  | nil => exact List.forall_mem_nil _
  | cons h _ ih =>
    refine List.forall_mem_append.mpr ⟨?_, ih⟩
    cases h with
    | plain _ _ control =>
      refine List.forall_mem_singleton.mpr ?_
      rintro rfl
      exact absurd control (by decide)
    | escape h =>
      refine List.forall_mem_cons.mpr ⟨by decide, List.forall_mem_singleton.mpr ?_⟩
      rintro rfl
      cases h
    | codepoint h => exact not_null_of_getCodepoint h
    | surrogates first second _ _ _ =>
      exact List.forall_mem_append.mpr
        ⟨not_null_of_getCodepoint first, not_null_of_getCodepoint second⟩

end Strings

end Bytes

end TcpServer
