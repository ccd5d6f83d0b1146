import Mathlib.Data.Char
import Mathlib.Data.List.Forall2

/-!
# UTF-8

The bytes of a character (`encode`), and the table of the byte sequences that are the bytes of one: the
first byte says in which ranges the others are (`rows`). What the ranges leave out, overlong forms,
surrogates and codes that are too large, is nothing's encoding, and everything else is (`exists_row`,
`exists_encode`). Texts of bytes are in the order of the texts they encode (`encodeAll_lt`).

Bytes are natural numbers. The encoding is Lean's own.
-/

namespace Utf8

/-- The bytes of a character. -/
def encode (c : Char) : List ℕ := (String.utf8EncodeChar c).map UInt8.toNat

/-- The bytes of a text. -/
def encodeAll (cs : List Char) : List ℕ := cs.flatMap encode

variable {c d : Char}

theorem toNat_valid (c : Char) : c.toNat < 0xD800 ∨ (0xDFFF < c.toNat ∧ c.toNat < 0x110000) := c.valid

/-! ## The bytes of a code -/

theorem encode_one (h : c.toNat < 0x80) : encode c = [c.toNat] := by
  have small : c.val.toNat ≤ 0x7F := Nat.le_of_lt_succ h
  simp only [encode, String.utf8EncodeChar, if_pos small, List.map_cons, List.map_nil,
    UInt8.toNat_ofNat']
  rw [Nat.mod_eq_of_lt (by omega)]
  rfl

theorem encode_two (h : 0x80 ≤ c.toNat) (h' : c.toNat < 0x800) :
    encode c = [0xC0 + c.toNat / 64, 0x80 + c.toNat % 64] := by
  have large : ¬ c.val.toNat ≤ 0x7F := Nat.not_le.mpr h
  have small : c.val.toNat ≤ 0x7FF := Nat.le_of_lt_succ h'
  simp only [encode, String.utf8EncodeChar, if_neg large, if_pos small, List.map_cons, List.map_nil,
    UInt8.toNat_ofNat', List.cons.injEq, and_true]
  change c.toNat ≤ 0x7FF at small
  show (c.toNat / 64 % 32 + 192) % 2 ^ 8 = _ ∧ (c.toNat % 64 + 128) % 2 ^ 8 = _
  omega

theorem encode_three (h : 0x800 ≤ c.toNat) (h' : c.toNat < 0x10000) :
    encode c = [0xE0 + c.toNat / 4096, 0x80 + c.toNat / 64 % 64, 0x80 + c.toNat % 64] := by
  have large : ¬ c.val.toNat ≤ 0x7F := Nat.not_le.mpr (Nat.lt_of_lt_of_le (by decide) h)
  have large' : ¬ c.val.toNat ≤ 0x7FF := Nat.not_le.mpr h
  have small : c.val.toNat ≤ 0xFFFF := Nat.le_of_lt_succ h'
  simp only [encode, String.utf8EncodeChar, if_neg large, if_neg large', if_pos small,
    List.map_cons, List.map_nil, UInt8.toNat_ofNat', List.cons.injEq, and_true]
  show (c.toNat / 4096 % 16 + 224) % 2 ^ 8 = _ ∧ (c.toNat / 64 % 64 + 128) % 2 ^ 8 = _ ∧
    (c.toNat % 64 + 128) % 2 ^ 8 = _
  omega

theorem encode_four (h : 0x10000 ≤ c.toNat) :
    encode c = [0xF0 + c.toNat / 262144, 0x80 + c.toNat / 4096 % 64, 0x80 + c.toNat / 64 % 64,
      0x80 + c.toNat % 64] := by
  have valid := toNat_valid c
  have large : ¬ c.val.toNat ≤ 0x7F := Nat.not_le.mpr (Nat.lt_of_lt_of_le (by decide) h)
  have large' : ¬ c.val.toNat ≤ 0x7FF := Nat.not_le.mpr (Nat.lt_of_lt_of_le (by decide) h)
  have large'' : ¬ c.val.toNat ≤ 0xFFFF := Nat.not_le.mpr h
  simp only [encode, String.utf8EncodeChar, if_neg large, if_neg large', if_neg large'',
    List.map_cons, List.map_nil, UInt8.toNat_ofNat', List.cons.injEq, and_true]
  show (c.toNat / 262144 % 8 + 240) % 2 ^ 8 = _ ∧ (c.toNat / 4096 % 64 + 128) % 2 ^ 8 = _ ∧
    (c.toNat / 64 % 64 + 128) % 2 ^ 8 = _ ∧ (c.toNat % 64 + 128) % 2 ^ 8 = _
  omega

theorem encode_cases (c : Char) :
    (c.toNat < 0x80 ∧ encode c = [c.toNat]) ∨
    ((0x80 ≤ c.toNat ∧ c.toNat < 0x800) ∧
      encode c = [0xC0 + c.toNat / 64, 0x80 + c.toNat % 64]) ∨
    ((0x800 ≤ c.toNat ∧ c.toNat < 0x10000) ∧
      encode c = [0xE0 + c.toNat / 4096, 0x80 + c.toNat / 64 % 64, 0x80 + c.toNat % 64]) ∨
    (0x10000 ≤ c.toNat ∧
      encode c = [0xF0 + c.toNat / 262144, 0x80 + c.toNat / 4096 % 64, 0x80 + c.toNat / 64 % 64,
        0x80 + c.toNat % 64]) := by
  rcases Nat.lt_or_ge c.toNat 0x80 with h₁ | h₁
  · exact .inl ⟨h₁, encode_one h₁⟩
  rcases Nat.lt_or_ge c.toNat 0x800 with h₂ | h₂
  · exact .inr (.inl ⟨⟨h₁, h₂⟩, encode_two h₁ h₂⟩)
  rcases Nat.lt_or_ge c.toNat 0x10000 with h₃ | h₃
  · exact .inr (.inr (.inl ⟨⟨h₂, h₃⟩, encode_three h₂ h₃⟩))
  · exact .inr (.inr (.inr ⟨h₃, encode_four h₃⟩))

/-! ## The table -/

/-- The bytes are in these ranges, one after the other. -/
def Fits (ranges : List (ℕ × ℕ)) (bytes : List ℕ) : Prop :=
  List.Forall₂ (fun range b => range.1 ≤ b ∧ b ≤ range.2) ranges bytes

theorem fits_nil {bytes : List ℕ} : Fits [] bytes ↔ bytes = [] := List.forall₂_nil_left_iff

theorem fits_cons {range : ℕ × ℕ} {ranges : List (ℕ × ℕ)} {bytes : List ℕ} :
    Fits (range :: ranges) bytes ↔
      ∃ b bytes', (range.1 ≤ b ∧ b ≤ range.2) ∧ Fits ranges bytes' ∧ bytes = b :: bytes' :=
  List.forall₂_cons_left_iff

/-- The well-formed byte sequences. -/
def rows : List (List (ℕ × ℕ)) :=
  [[(0x00, 0x7F)],
   [(0xC2, 0xDF), (0x80, 0xBF)],
   [(0xE0, 0xE0), (0xA0, 0xBF), (0x80, 0xBF)],
   [(0xE1, 0xEC), (0x80, 0xBF), (0x80, 0xBF)],
   [(0xED, 0xED), (0x80, 0x9F), (0x80, 0xBF)],
   [(0xEE, 0xEF), (0x80, 0xBF), (0x80, 0xBF)],
   [(0xF0, 0xF0), (0x90, 0xBF), (0x80, 0xBF), (0x80, 0xBF)],
   [(0xF1, 0xF3), (0x80, 0xBF), (0x80, 0xBF), (0x80, 0xBF)],
   [(0xF4, 0xF4), (0x80, 0x8F), (0x80, 0xBF), (0x80, 0xBF)]]

/-- The bytes of a character are well formed. -/
theorem exists_row (c : Char) : ∃ row ∈ rows, Fits row (encode c) := by
  have valid := toNat_valid c
  have fits_one {r : ℕ × ℕ} {b : ℕ} (h : r.1 ≤ b ∧ b ≤ r.2) : Fits [r] [b] := .cons h .nil
  by_cases h₁ : c.toNat < 0x80
  · rw [encode_one h₁]
    exact ⟨[(0x00, 0x7F)], by simp [rows], fits_one (by simp only; omega)⟩
  by_cases h₂ : c.toNat < 0x800
  · rw [encode_two (by omega) h₂]
    refine ⟨[(0xC2, 0xDF), (0x80, 0xBF)], by simp [rows], .cons ?_ (fits_one ?_)⟩ <;> simp only <;> omega
  by_cases h₃ : c.toNat < 0x10000
  · rw [encode_three (by omega) h₃]
    by_cases h₄ : c.toNat < 0x1000
    · refine ⟨[(0xE0, 0xE0), (0xA0, 0xBF), (0x80, 0xBF)], by simp [rows],
        .cons ?_ (.cons ?_ (fits_one ?_))⟩ <;> simp only <;> omega
    by_cases h₅ : c.toNat < 0xD000
    · refine ⟨[(0xE1, 0xEC), (0x80, 0xBF), (0x80, 0xBF)], by simp [rows],
        .cons ?_ (.cons ?_ (fits_one ?_))⟩ <;> simp only <;> omega
    by_cases h₆ : c.toNat < 0xE000
    · refine ⟨[(0xED, 0xED), (0x80, 0x9F), (0x80, 0xBF)], by simp [rows],
        .cons ?_ (.cons ?_ (fits_one ?_))⟩ <;> simp only <;> omega
    · refine ⟨[(0xEE, 0xEF), (0x80, 0xBF), (0x80, 0xBF)], by simp [rows],
        .cons ?_ (.cons ?_ (fits_one ?_))⟩ <;> simp only <;> omega
  · rw [encode_four (by omega)]
    by_cases h₄ : c.toNat < 0x40000
    · refine ⟨[(0xF0, 0xF0), (0x90, 0xBF), (0x80, 0xBF), (0x80, 0xBF)], by simp [rows],
        .cons ?_ (.cons ?_ (.cons ?_ (fits_one ?_)))⟩ <;> simp only <;> omega
    by_cases h₅ : c.toNat < 0x100000
    · refine ⟨[(0xF1, 0xF3), (0x80, 0xBF), (0x80, 0xBF), (0x80, 0xBF)], by simp [rows],
        .cons ?_ (.cons ?_ (.cons ?_ (fits_one ?_)))⟩ <;> simp only <;> omega
    · refine ⟨[(0xF4, 0xF4), (0x80, 0x8F), (0x80, 0xBF), (0x80, 0xBF)], by simp [rows],
        .cons ?_ (.cons ?_ (.cons ?_ (fits_one ?_)))⟩ <;> simp only <;> omega

/-- A code that is no surrogate is that of a character. -/
theorem exists_char {n : ℕ} (h : n < 0xD800 ∨ (0xDFFF < n ∧ n < 0x110000)) :
    ∃ c : Char, c.toNat = n := by
  refine ⟨Char.ofNat n, ?_⟩
  rw [Char.ofNat, dif_pos h]
  rfl

/-- Well-formed bytes are those of a character. -/
theorem exists_encode {row : List (ℕ × ℕ)} {bytes : List ℕ} (hrow : row ∈ rows)
    (h : Fits row bytes) : ∃ c, encode c = bytes := by
  have two {a b : ℕ} (ha : 0xC2 ≤ a ∧ a ≤ 0xDF) (hb : 0x80 ≤ b ∧ b ≤ 0xBF) :
      ∃ c, encode c = [a, b] := by
    obtain ⟨c, hc⟩ := exists_char (n := (a - 0xC0) * 64 + (b - 0x80)) (by omega)
    refine ⟨c, ?_⟩
    rw [encode_two (by omega) (by omega), hc]
    simp only [List.cons.injEq, and_true]
    omega
  have three {a b d : ℕ} (ha : 0xE0 ≤ a ∧ a ≤ 0xEF) (hb : 0x80 ≤ b ∧ b ≤ 0xBF)
      (hd : 0x80 ≤ d ∧ d ≤ 0xBF) (short : a = 0xE0 → 0xA0 ≤ b) (surrogate : a = 0xED → b ≤ 0x9F) :
      ∃ c, encode c = [a, b, d] := by
    obtain ⟨c, hc⟩ := exists_char (n := (a - 0xE0) * 4096 + (b - 0x80) * 64 + (d - 0x80)) (by omega)
    refine ⟨c, ?_⟩
    rw [encode_three (by omega) (by omega), hc]
    simp only [List.cons.injEq, and_true]
    omega
  have four {a b d e : ℕ} (ha : 0xF0 ≤ a ∧ a ≤ 0xF4) (hb : 0x80 ≤ b ∧ b ≤ 0xBF)
      (hd : 0x80 ≤ d ∧ d ≤ 0xBF) (he : 0x80 ≤ e ∧ e ≤ 0xBF) (short : a = 0xF0 → 0x90 ≤ b)
      (large : a = 0xF4 → b ≤ 0x8F) : ∃ c, encode c = [a, b, d, e] := by
    obtain ⟨c, hc⟩ := exists_char
      (n := (a - 0xF0) * 262144 + (b - 0x80) * 4096 + (d - 0x80) * 64 + (e - 0x80)) (by omega)
    refine ⟨c, ?_⟩
    rw [encode_four (by omega), hc]
    simp only [List.cons.injEq, and_true]
    omega
  simp only [rows, List.mem_cons, List.not_mem_nil, or_false] at hrow
  rcases hrow with rfl | rfl | rfl | rfl | rfl | rfl | rfl | rfl | rfl <;>
    simp only [fits_cons, fits_nil] at h
  · obtain ⟨a, _, ha, rfl, rfl⟩ := h
    obtain ⟨c, hc⟩ := exists_char (n := a) (by omega)
    exact ⟨c, by rw [encode_one (by omega), hc]⟩
  · obtain ⟨a, _, ha, ⟨b, _, hb, rfl, rfl⟩, rfl⟩ := h
    exact two ha hb
  all_goals first
    | obtain ⟨a, _, ha, ⟨b, _, hb, ⟨d, _, hd, rfl, rfl⟩, rfl⟩, rfl⟩ := h
      exact three (by omega) (by omega) hd (by omega) (by omega)
    | obtain ⟨a, _, ha, ⟨b, _, hb, ⟨d, _, hd, ⟨e, _, he, rfl, rfl⟩, rfl⟩, rfl⟩, rfl⟩ := h
      exact four (by omega) (by omega) hd he (by omega) (by omega)

/-! ## The order of texts -/

/-- The bytes of two characters differ, and in the direction in which the characters do. -/
theorem encode_append_lt (h : c < d) (xs ys : List ℕ) : encode c ++ xs < encode d ++ ys := by
  have lt : c.toNat < d.toNat := h
  have valid := toNat_valid d
  rcases encode_cases c with ⟨hc, bytes⟩ | ⟨hc, bytes⟩ | ⟨hc, bytes⟩ | ⟨hc, bytes⟩ <;>
    rcases encode_cases d with ⟨hd, bytes'⟩ | ⟨hd, bytes'⟩ | ⟨hd, bytes'⟩ | ⟨hd, bytes'⟩ <;>
    rw [bytes, bytes'] <;> simp only [List.cons_append, List.cons_lt_cons_iff] <;> omega

theorem encode_ne_nil (c : Char) : encode c ≠ [] := by
  rcases encode_cases c with ⟨_, bytes⟩ | ⟨_, bytes⟩ | ⟨_, bytes⟩ | ⟨_, bytes⟩ <;> rw [bytes] <;>
    exact List.cons_ne_nil _ _

/-- **The order of texts is that of their bytes.** -/
theorem encodeAll_lt {cs ds : List Char} (h : cs < ds) : encodeAll cs < encodeAll ds := by
  induction cs generalizing ds with
  | nil =>
    cases ds with
    | nil => exact absurd h (List.lt_irrefl _)
    | cons d ds =>
      obtain ⟨b, bytes, heq⟩ := List.exists_cons_of_ne_nil (encode_ne_nil d)
      rw [encodeAll, encodeAll, List.flatMap_cons, heq]
      exact List.nil_lt_cons _ _
  | cons c cs ih =>
    cases ds with
    | nil => exact absurd h (List.not_lt_nil _)
    | cons d ds =>
      rw [encodeAll, encodeAll, List.flatMap_cons, List.flatMap_cons]
      rcases List.cons_lt_cons_iff.mp h with hlt | ⟨rfl, hlt⟩
      · exact encode_append_lt hlt _ _
      · exact List.append_left_lt (ih hlt)

end Utf8
