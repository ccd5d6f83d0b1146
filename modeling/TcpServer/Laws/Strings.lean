import TcpServer.DataLayer.Lexer

/-!
# What the string scanner accepts

The ways to write a character in a string are those of the comments of `scan_string`: itself, a
backslash and a letter, four hex digits of its code, or two times four where the code is beyond the
basic plane (`Spells`). The scanner accepts what is spelled in these ways up to the first quotation mark
that is not, and reads the characters that are spelled (`scanString_exact`). The constant with which it
puts the two surrogates together is what UTF-16 says.
-/

namespace TcpServer

namespace Lexer

/-- A way to write a character between quotation marks. -/
inductive Spells : Text → Char → Prop
  | plain {c : Char} (quote : c ≠ '"') (backslash : c ≠ '\\') (control : 0x20 ≤ c.toNat) :
    Spells [c] c
  | escape {e c : Char} (h : simpleEscape e = some c) : Spells ['\\', e] c
  | codepoint {c₁ c₂ c₃ c₄ c : Char} (h : getCodepoint c₁ c₂ c₃ c₄ = some c.toNat) :
    Spells ['\\', 'u', c₁, c₂, c₃, c₄] c
  | surrogates {c₁ c₂ c₃ c₄ e₁ e₂ e₃ e₄ c : Char} {high low : ℕ}
    (first : getCodepoint c₁ c₂ c₃ c₄ = some high) (second : getCodepoint e₁ e₂ e₃ e₄ = some low)
    (isHigh : 0xD800 ≤ high ∧ high ≤ 0xDBFF) (isLow : 0xDC00 ≤ low ∧ low ≤ 0xDFFF)
    (h : c.toNat = 0x10000 + (high - 0xD800) * 0x400 + (low - 0xDC00)) :
    Spells ['\\', 'u', c₁, c₂, c₃, c₄, '\\', 'u', e₁, e₂, e₃, e₄] c

/-- A way to write characters, one after the other. -/
inductive SpellsAll : Text → Text → Prop
  | nil : SpellsAll [] []
  | cons {text : Text} {c : Char} {texts cs : Text} (h : Spells text c) (hs : SpellsAll texts cs) :
    SpellsAll (text ++ texts) (c :: cs)

/-! ## Codes -/

theorem hexValue_lt {c : Char} {n : ℕ} (h : hexValue c = some n) : n < 16 := by
  have bounds {a b : Char} (hab : a ≤ c ∧ c ≤ b) : a.toNat ≤ c.toNat ∧ c.toNat ≤ b.toNat := hab
  rw [hexValue] at h
  split at h
  next hc =>
    have hb := bounds hc
    have hn := Option.some.inj h
    simp only [Char.reduceToNat] at hb
    omega
  next =>
    split at h
    next hc =>
      have hb := bounds hc
      have hn := Option.some.inj h
      simp only [Char.reduceToNat] at hb
      omega
    next =>
      split at h
      next hc =>
        have hb := bounds hc
        have hn := Option.some.inj h
        simp only [Char.reduceToNat] at hb
        omega
      next => cases h

theorem getCodepoint_lt {c₁ c₂ c₃ c₄ : Char} {n : ℕ} (h : getCodepoint c₁ c₂ c₃ c₄ = some n) :
    n < 0x10000 := by
  simp only [getCodepoint, bind, Option.bind_eq_some_iff, pure, Option.some.injEq] at h
  obtain ⟨d₁, h₁, d₂, h₂, d₃, h₃, d₄, h₄, rfl⟩ := h
  have := hexValue_lt h₁
  have := hexValue_lt h₂
  have := hexValue_lt h₃
  have := hexValue_lt h₄
  simp only [Nat.shiftLeft_eq]
  omega

theorem toNat_ofNat {n : ℕ} (h : n < 0xD800 ∨ (0xDFFF < n ∧ n < 0x110000)) :
    (Char.ofNat n).toNat = n := by
  have valid : n.isValidChar := h
  rw [Char.ofNat, dif_pos valid]
  rfl

/-- The scanner's way to put two surrogates together. -/
theorem surrogates_eq {high low : ℕ} (hh : 0xD800 ≤ high ∧ high ≤ 0xDBFF)
    (hl : 0xDC00 ≤ low ∧ low ≤ 0xDFFF) :
    high <<< 10 + low - 0x35FDC00 = 0x10000 + (high - 0xD800) * 0x400 + (low - 0xDC00) := by
  rw [Nat.shiftLeft_eq]
  omega

/-! ## The scanner -/

theorem add_eq_some {c : Char} {o : Option (Text × Text)} {s rest : Text} :
    add c o = some (s, rest) ↔ ∃ s', o = some (s', rest) ∧ s = c :: s' := by
  rw [add, Option.map_eq_some_iff]
  constructor
  · rintro ⟨⟨s', rest'⟩, ho, heq⟩
    obtain ⟨rfl, rfl⟩ := Prod.mk.inj heq
    exact ⟨s', ho, rfl⟩
  · rintro ⟨s', ho, rfl⟩
    exact ⟨_, ho, rfl⟩

/-- What is spelled at the front is read. -/
theorem scanString_append {text cs : Text} {c : Char} (h : Spells text c) :
    scanString (text ++ cs) = add c (scanString cs) := by
  cases h with
  | plain quote backslash control =>
    rw [List.singleton_append, scanString.eq_def]
    simp only [if_neg quote, if_neg backslash, if_neg (Nat.not_lt.mpr control)]
  | @escape e c h =>
    have hu : e ≠ 'u' := by
      rintro rfl
      cases h
    rw [List.cons_append, List.singleton_append, scanString.eq_def]
    simp only [Char.reduceEq, if_false, if_true, if_neg hu, h]
  | codepoint h =>
    have valid : c.toNat < 0xD800 ∨ (0xDFFF < c.toNat ∧ c.toNat < 0x110000) := c.valid
    have notHigh : ¬ (0xD800 ≤ c.toNat ∧ c.toNat ≤ 0xDBFF) := by omega
    have notLow : ¬ (0xDC00 ≤ c.toNat ∧ c.toNat ≤ 0xDFFF) := by omega
    simp only [List.cons_append, List.nil_append]
    rw [scanString.eq_def]
    simp only [Char.reduceEq, if_false, if_true, h, if_neg notHigh, if_neg notLow, Char.ofNat_toNat]
  | surrogates first second isHigh isLow h =>
    simp only [List.cons_append, List.nil_append]
    rw [scanString.eq_def]
    simp only [Char.reduceEq, if_false, if_true, first, second, if_pos isHigh, if_pos isLow,
      and_self, surrogates_eq isHigh isLow, ← h, Char.ofNat_toNat]

theorem scanString_of_spellsAll {texts cs rest : Text} (h : SpellsAll texts cs) :
    scanString (texts ++ '"' :: rest) = some (cs, rest) := by
  induction h with
  | nil =>
    rw [List.nil_append, scanString.eq_def]
    simp only [if_true]
  | cons h _ ih =>
    rw [List.append_assoc, scanString_append h, ih]
    rfl

/-- One more character, in front of what is spelled after it. -/
theorem spellsAll_add {text cs s rest : Text} {c : Char} {o : Option (Text × Text)}
    (spells : Spells text c) (h : add c o = some (s, rest))
    (ih : ∀ {s : Text}, o = some (s, rest) → ∃ texts, SpellsAll texts s ∧ cs = texts ++ '"' :: rest) :
    ∃ texts, SpellsAll texts s ∧ text ++ cs = texts ++ '"' :: rest := by
  obtain ⟨s', ho, rfl⟩ := add_eq_some.mp h
  obtain ⟨texts, all, rfl⟩ := ih ho
  exact ⟨text ++ texts, .cons spells all, (List.append_assoc _ _ _).symm⟩

theorem spellsAll_of_scanString {text s rest : Text} (h : scanString text = some (s, rest)) :
    ∃ texts, SpellsAll texts s ∧ text = texts ++ '"' :: rest := by
  fun_induction scanString text generalizing s with
  | case2 =>
    obtain ⟨rfl, rfl⟩ := Prod.mk.inj (Option.some.inj h)
    exact ⟨[], .nil, rfl⟩
  | case6 c₁ c₂ c₃ c₄ high first isHigh b u e₁ e₂ e₃ e₄ cs hbu low second isLow _ ih =>
    obtain ⟨rfl, rfl⟩ := hbu
    refine spellsAll_add (.surrogates first second isHigh isLow ?_) h ih
    rw [surrogates_eq isHigh isLow, toNat_ofNat]
    omega
  | case11 c₁ c₂ c₃ c₄ cs code hex notHigh notLow _ ih =>
    refine spellsAll_add (.codepoint ?_) h ih
    have := getCodepoint_lt hex
    rw [toNat_ofNat (by omega), hex]
  | case14 e cs hu c escape _ ih => exact spellsAll_add (.escape escape) h ih
  | case16 c cs quote backslash control ih =>
    exact spellsAll_add (.plain quote backslash (Nat.not_lt.mp control)) h ih
  | _ => cases h

/-- **The string scanner takes the spelled characters up to the quotation mark, and nothing else.** -/
theorem scanString_exact (text s rest : Text) :
    scanString text = some (s, rest) ↔ ∃ texts, SpellsAll texts s ∧ text = texts ++ '"' :: rest := by
  constructor
  · exact spellsAll_of_scanString
  · rintro ⟨texts, all, rfl⟩
    exact scanString_of_spellsAll all

end Lexer

end TcpServer
