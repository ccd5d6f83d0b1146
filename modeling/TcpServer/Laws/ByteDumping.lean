import TcpServer.Laws.ByteParsing
import TcpServer.Laws.NormalForm

/-!
# Writing bytes

`dump_escaped` decodes the bytes of a string to find the characters it escapes. Its table is that of the
well-formed sequences: after each byte the state says in which ranges the next ones must be (`owed`). So
the bytes of a text are written as those of its escaped text, and other bytes throw (`dumpEscaped_iff`);
the buffer of 512 bytes is enough, and no index leaves the table.

The strings of what is parsed are the bytes of texts. So what `parse` accepts `dump` writes, and `parse`
reads it back (`bytes_round_trip`).
-/

namespace TcpServer

namespace Bytes

/-! ## The table -/

/-- The state after a byte. -/
def next? (state byte : ℕ) : Option ℕ :=
  utf8d[byte]?.bind fun type => utf8d[256 + state * 16 + type]?

/-- The states within a character. -/
def inner : List ℕ := [2, 3, 4, 5, 6, 7, 8]

/-- The ranges in which the next bytes are to be. -/
def owed : ℕ → List (ℕ × ℕ)
  | 2 => [(0x80, 0xBF)]
  | 3 => [(0x80, 0xBF), (0x80, 0xBF)]
  | 4 => [(0xA0, 0xBF), (0x80, 0xBF)]
  | 5 => [(0x80, 0x9F), (0x80, 0xBF)]
  | 6 => [(0x90, 0xBF), (0x80, 0xBF), (0x80, 0xBF)]
  | 7 => [(0x80, 0xBF), (0x80, 0xBF), (0x80, 0xBF)]
  | 8 => [(0x80, 0x8F), (0x80, 0xBF), (0x80, 0xBF)]
  | _ => []

/-- The least code point there can be in a state, and the first that is too large. A character that has
more than one byte is none of ASCII. -/
def bounds : ℕ → ℕ × ℕ
  | 0 => (0x80, 2 ^ 24)
  | 2 => (2, 2 ^ 18)
  | 3 | 5 => (1, 2 ^ 12)
  | 4 => (0, 2 ^ 12)
  | 6 => (0, 2 ^ 6)
  | _ => (1, 2 ^ 6)

theorem next?_ascii : ∀ b < 0x80, utf8d[b]? = some 0 := by decide +kernel

/-- The first byte of a character says which others it has. -/
theorem next?_first : ∀ row ∈ Utf8.rows, ∀ range ∈ row.head?, ∀ b < 0x100, 0x80 ≤ b →
    range.1 ≤ b → b ≤ range.2 → ∃ s ∈ inner, next? 0 b = some s ∧ owed s = row.tail := by
  decide +kernel

theorem next?_codepoint : ∀ b < 0x100, 0x80 ≤ b → ∀ s ∈ inner, next? 0 b = some s →
    ∀ type ∈ utf8d[b]?, (bounds s).1 ≤ 0xFF >>> type &&& b ∧ 0xFF >>> type &&& b < (bounds s).2 := by
  decide +kernel

/-- Other bytes are rejected. -/
theorem next?_rejects : ∀ b < 0x100, next? 0 b = some 1 ∨
    ∃ row ∈ Utf8.rows, ∃ range ∈ row.head?, range.1 ≤ b ∧ b ≤ range.2 := by
  decide +kernel

/-- Within a character, a byte is taken when it is in the range that is next. -/
theorem next?_inner : ∀ s ∈ inner, ∀ range ∈ (owed s).head?, ∀ b < 0x100,
    range.1 ≤ b → b ≤ range.2 → ∃ s' ∈ 0 :: inner, next? s b = some s' ∧
      owed s' = (owed s).tail ∧ (bounds s').1 ≤ (bounds s).1 * 64 + b % 64 ∧
      (bounds s).2 * 64 ≤ (bounds s').2 := by
  decide +kernel

theorem next?_inner_rejects : ∀ s ∈ inner, ∀ range ∈ (owed s).head?, ∀ b < 0x100,
    b < range.1 ∨ range.2 < b → next? s b = some 1 := by
  decide +kernel

theorem decode_first {b s : ℕ} (codep : ℕ) (h : next? 0 b = some s) :
    ∃ type ∈ utf8d[b]?, decode 0 codep b = .ok (s, 0xFF >>> type &&& b) := by
  obtain ⟨type, htype, hs⟩ := Option.bind_eq_some_iff.mp h
  refine ⟨type, htype, ?_⟩
  simp only [decode, htype, hs, ne_eq, not_true_eq_false, if_false]

theorem decode_ascii {b : ℕ} (hb : b < 0x80) (codep : ℕ) : decode 0 codep b = .ok (0, b) := by
  have type := next?_ascii b hb
  have accepted : next? 0 b = some 0 := by
    rw [next?, type]
    rfl
  obtain ⟨type', htype', decoded⟩ := decode_first codep accepted
  obtain rfl := Option.some.inj (type.symm.trans htype')
  rw [decoded, Nat.shiftRight_zero, Nat.and_comm, show 0xFF = 2 ^ 8 - 1 from rfl,
    Nat.and_two_pow_sub_one_eq_mod, Nat.mod_eq_of_lt (by omega)]

/-- Within a character the code point grows by six bits. -/
theorem decode_inner {b s s' codep : ℕ} (hs : s ≠ 0) (small : codep < 2 ^ 24)
    (h : next? s b = some s') : decode s codep b = .ok (s', codep * 64 + b % 64) := by
  obtain ⟨type, htype, hs'⟩ := Option.bind_eq_some_iff.mp h
  have low : b % 64 < 2 ^ 6 := Nat.mod_lt _ (by decide)
  have shifted : (codep <<< 6) % 2 ^ 32 = codep <<< 6 := by
    rw [Nat.shiftLeft_eq]
    exact Nat.mod_eq_of_lt (by omega)
  have joined : b &&& 0x3F ||| (codep <<< 6) % 2 ^ 32 = codep * 64 + b % 64 := by
    rw [shifted, show 0x3F = 2 ^ 6 - 1 from rfl, Nat.and_two_pow_sub_one_eq_mod, Nat.or_comm,
      ← Nat.shiftLeft_add_eq_or_of_lt low, Nat.shiftLeft_eq]
  simp only [decode, htype, hs', ne_eq, hs, not_false_eq_true, if_true, joined]

namespace Escaping

variable {w : Escaping} {c : Char} {cs bytes : Text} {n s : ℕ}

/-- What has been written and what is about to be. -/
def text (w : Escaping) : Text := w.out ++ w.buffer

/-- Between two characters: what is in the buffer leaves room for whatever comes next. -/
structure Between (w : Escaping) : Prop where
  state : w.state = 0
  room : w.buffer.length ≤ 499

/-- Within a character. -/
structure Inside (w : Escaping) : Prop where
  state : w.state ∈ inner
  low : (bounds w.state).1 ≤ w.codepoint
  high : w.codepoint < (bounds w.state).2
  room : w.buffer.length + (owed w.state).length ≤ 503

/-- No character is escaped by more than six. -/
theorem length_escape (c : Char) : (Serializer.escape c).length ≤ 6 := by
  unfold Serializer.escape
  split_ifs <;> simp

/-! ## One byte -/

theorem step_rejected (h : decode w.state w.codepoint c.toNat = .ok (1, n)) :
    w.step c = .error .typeError := by
  simp only [step, h, bind, Except.bind]
  rfl

theorem step_inside (h : decode w.state w.codepoint c.toNat = .ok (s, n)) (hs : s ∈ inner)
    (room : w.buffer.length < 512) :
    w.step c = .ok { codepoint := n, state := s, buffer := w.buffer ++ [c], out := w.out } := by
  have goesOn : s ≠ 0 ∧ s ≠ 1 := (by decide : ∀ s ∈ inner, s ≠ 0 ∧ s ≠ 1) s hs
  simp only [step, h, bind, Except.bind, if_neg goesOn.1, if_neg goesOn.2]
  exact if_pos room

/-- A character is complete, and the buffer is flushed if there is no room for another. -/
theorem step_accepted {added : Text} (h : decode w.state w.codepoint c.toNat = .ok (0, n))
    (completed : ({ w with state := 0, codepoint := n } : Escaping).complete c =
      .ok { w with state := 0, codepoint := n, buffer := w.buffer ++ added })
    (room : (w.buffer ++ added).length ≤ 512) :
    ∃ w', w.step c = .ok w' ∧ Between w' ∧ w'.text = w.text ++ added := by
  simp only [step, h, bind, Except.bind, if_true, completed]
  split
  · exact ⟨_, rfl, ⟨rfl, Nat.zero_le _⟩, by simp only [text, flush, List.append_nil, List.append_assoc]⟩
  next fits =>
    refine ⟨_, rfl, ⟨rfl, ?_⟩, (List.append_assoc _ _ _).symm⟩
    show (w.buffer ++ added).length ≤ 499
    omega

theorem put_of_room {used : ℕ} (h : w.buffer.length + used ≤ 512) (bytes : Text) :
    w.put bytes used = .ok { w with buffer := w.buffer ++ bytes } := if_pos h

/-- A code point of more than one byte is not escaped. -/
theorem complete_large (large : 0x80 ≤ w.codepoint) (room : w.buffer.length < 512) (c : Char) :
    w.complete c = .ok { w with buffer := w.buffer ++ [c] } := by
  rw [complete, if_neg (by omega), if_neg (by omega), if_neg (by omega), if_neg (by omega),
    if_neg (by omega), if_neg (by omega), if_neg (by omega), if_neg (by omega)]
  exact put_of_room room [c]

/-- A character is put into the buffer as it is escaped. -/
theorem complete_eq {result : Text → Except Abort Escaping} (h : w.codepoint = c.toNat)
    (put : ∀ used ≤ 7, ∀ bytes, w.put bytes used = result bytes) :
    w.complete c = result (Serializer.escape c) := by
  have code (k : ℕ) (hk : k < 0xD800) : (c.toNat = k) = (c = Char.ofNat k) := by
    rw [eq_iff_iff]
    constructor
    · rintro rfl
      exact (Char.ofNat_toNat c).symm
    · rintro rfl
      exact Lexer.toNat_ofNat (.inl hk)
  simp only [complete, Serializer.escape, h, apply_ite result]
  refine ite_congr (code 0x08 (by decide)) (fun _ => put 2 (by decide) _) fun _ => ?_
  refine ite_congr (code 0x09 (by decide)) (fun _ => put 2 (by decide) _) fun _ => ?_
  refine ite_congr (code 0x0A (by decide)) (fun _ => put 2 (by decide) _) fun _ => ?_
  refine ite_congr (code 0x0C (by decide)) (fun _ => put 2 (by decide) _) fun _ => ?_
  refine ite_congr (code 0x0D (by decide)) (fun _ => put 2 (by decide) _) fun _ => ?_
  refine ite_congr (code 0x22 (by decide)) (fun _ => put 2 (by decide) _) fun _ => ?_
  refine ite_congr (code 0x5C (by decide)) (fun _ => put 2 (by decide) _) fun _ => ?_
  exact ite_congr rfl (fun _ => put 7 (by decide) _) fun _ => put 1 (by decide) _

/-! ## One character -/

theorem step_ascii (hw : Between w) (hc : c.toNat < 0x80) :
    ∃ w', w.step c = .ok w' ∧ Between w' ∧ w'.text = w.text ++ Serializer.escape c := by
  have room := hw.room
  have decoded : decode w.state w.codepoint c.toNat = .ok (0, c.toNat) := by
    rw [hw.state]
    exact decode_ascii hc w.codepoint
  have short := length_escape c
  let put (bytes : Text) : Except Abort Escaping :=
    .ok { w with state := 0, codepoint := c.toNat, buffer := w.buffer ++ bytes }
  have completed : ({ w with state := 0, codepoint := c.toNat } : Escaping).complete c =
      put (Serializer.escape c) := by
    apply complete_eq rfl
    intro used hused bytes
    apply put_of_room
    show w.buffer.length + used ≤ 512
    omega
  apply step_accepted decoded completed
  rw [List.length_append]
  omega

/-- The first byte of a character that has more. -/
theorem step_first (hw : Between w) {range : ℕ × ℕ} {ranges : List (ℕ × ℕ)}
    (hrow : (range :: ranges) ∈ Utf8.rows) (hc : range.1 ≤ c.toNat ∧ c.toNat ≤ range.2)
    (large : 0x80 ≤ c.toNat) (small : c.toNat < 0x100) :
    ∃ w', w.step c = .ok w' ∧ Inside w' ∧ owed w'.state = ranges ∧ w'.text = w.text ++ [c] := by
  have room := hw.room
  obtain ⟨s, hs, next, rest⟩ := next?_first _ hrow range rfl _ small large hc.1 hc.2
  obtain ⟨type, htype, decoded⟩ := decode_first w.codepoint next
  obtain ⟨low, high⟩ := next?_codepoint _ small large s hs next type htype
  have few : (owed s).length ≤ 3 := (by decide : ∀ s ∈ inner, (owed s).length ≤ 3) s hs
  rw [← hw.state] at decoded
  refine ⟨_, step_inside decoded hs (by omega), ⟨hs, low, high, ?_⟩, rest, ?_⟩
  · show (w.buffer ++ [c]).length + (owed s).length ≤ 503
    rw [List.length_append, List.length_singleton]
    omega
  · exact (List.append_assoc _ _ _).symm

/-- A byte that is owed is the last one of its character, or the next. -/
theorem step_owed (hw : Inside w) {range : ℕ × ℕ} {ranges : List (ℕ × ℕ)}
    (hranges : owed w.state = range :: ranges) (hc : range.1 ≤ c.toNat ∧ c.toNat ≤ range.2) :
    ∃ w', w.step c = .ok w' ∧ w'.text = w.text ++ [c] ∧
      (Between w' ∧ ranges = [] ∨ Inside w' ∧ owed w'.state = ranges) := by
  have head : range ∈ (owed w.state).head? := by
    rw [hranges]
    rfl
  have bound : range.2 ≤ 0xBF :=
    (by decide : ∀ s ∈ inner, ∀ range ∈ (owed s).head?, range.2 ≤ 0xBF) w.state hw.state range head
  have large : (bounds w.state).2 ≤ 2 ^ 18 :=
    (by decide : ∀ s ∈ inner, (bounds s).2 ≤ 2 ^ 18) w.state hw.state
  have within : w.state ≠ 0 := (by decide : ∀ s ∈ inner, s ≠ 0) w.state hw.state
  obtain ⟨s, hs, next, rest, low, high⟩ :=
    next?_inner w.state hw.state range head c.toNat (by omega) hc.1 hc.2
  have hlow := hw.low
  have hhigh := hw.high
  have room := hw.room
  have small : w.codepoint < 2 ^ 24 := by omega
  have decoded := decode_inner within small next
  rw [hranges, List.tail_cons] at rest
  rw [hranges, List.length_cons] at room
  rcases List.mem_cons.mp hs with rfl | hs
  · -- the last byte
    have least : 0x80 ≤ w.codepoint * 64 + c.toNat % 64 := Nat.le_trans low (by omega)
    have unused : w.buffer.length < 512 := by omega
    have completed := complete_large
      (w := { w with state := 0, codepoint := w.codepoint * 64 + c.toNat % 64 }) least unused c
    have added : (w.buffer ++ [c]).length ≤ 512 := by
      rw [List.length_append, List.length_singleton]
      omega
    obtain ⟨w', stepped, between, text⟩ := step_accepted decoded completed added
    exact ⟨w', stepped, text, .inl ⟨between, rest.symm⟩⟩
  · refine ⟨_, step_inside decoded hs (by omega), (List.append_assoc _ _ _).symm,
      .inr ⟨⟨hs, ?_, ?_, ?_⟩, rest⟩⟩
    · show (bounds s).1 ≤ w.codepoint * 64 + c.toNat % 64
      omega
    · show w.codepoint * 64 + c.toNat % 64 < (bounds s).2
      omega
    · show (w.buffer ++ [c]).length + (owed s).length ≤ 503
      rw [List.length_append, List.length_singleton, rest]
      omega

/-- A byte that is not owed is rejected. -/
theorem step_not_owed (hw : Inside w) {range : ℕ × ℕ} {ranges : List (ℕ × ℕ)}
    (hranges : owed w.state = range :: ranges) (small : c.toNat < 0x100)
    (hc : ¬ (range.1 ≤ c.toNat ∧ c.toNat ≤ range.2)) : w.step c = .error .typeError := by
  have head : range ∈ (owed w.state).head? := by
    rw [hranges]
    rfl
  have large : (bounds w.state).2 ≤ 2 ^ 18 :=
    (by decide : ∀ s ∈ inner, (bounds s).2 ≤ 2 ^ 18) w.state hw.state
  have within : w.state ≠ 0 := (by decide : ∀ s ∈ inner, s ≠ 0) w.state hw.state
  have hhigh := hw.high
  have few : w.codepoint < 2 ^ 24 := by omega
  have next := next?_inner_rejects w.state hw.state range head c.toNat small (by omega)
  exact step_rejected (decode_inner within few next)

theorem owed_eq_cons (hw : Inside w) : ∃ range ranges, owed w.state = range :: ranges :=
  List.exists_cons_of_ne_nil ((by decide : ∀ s ∈ inner, owed s ≠ []) w.state hw.state)

/-- The bytes that are owed complete the character. -/
theorem steps_of_fits (hw : Inside w) (h : Utf8.Fits (owed w.state) (bytes.map Char.toNat)) :
    ∃ w', bytes.foldlM step w = .ok w' ∧ Between w' ∧ w'.text = w.text ++ bytes := by
  obtain ⟨range, ranges, hranges⟩ := owed_eq_cons hw
  induction bytes generalizing w range ranges with
  | nil =>
    rw [hranges] at h
    cases h
  | cons c cs ih =>
    rw [hranges] at h
    obtain ⟨b, bytes', hc, hcs, heq⟩ := Utf8.fits_cons.mp h
    obtain ⟨rfl, rfl⟩ := List.cons.inj heq
    obtain ⟨w', stepped, text, ⟨between, rfl⟩ | ⟨inside, rest⟩⟩ := step_owed hw hranges hc
    · obtain rfl := List.map_eq_nil_iff.mp (Utf8.fits_nil.mp hcs)
      refine ⟨w', ?_, between, text⟩
      rw [List.foldlM_cons, stepped]
      rfl
    · obtain ⟨range', ranges', hranges'⟩ := owed_eq_cons inside
      rw [← rest] at hcs
      obtain ⟨w'', steps, between, text'⟩ := ih inside hcs range' ranges' hranges'
      refine ⟨w'', ?_, between, ?_⟩
      · rw [List.foldlM_cons, stepped]
        exact steps
      · rw [text', text, List.append_assoc, List.singleton_append]

theorem escape_large (h : 0x80 ≤ c.toNat) : Serializer.escape c = [c] := by
  have ne {k : ℕ} (hk : k < 0x80) : c ≠ Char.ofNat k := by
    rintro rfl
    rw [Lexer.toNat_ofNat (.inl (by omega))] at h
    omega
  rw [Serializer.escape, if_neg (ne (by decide)), if_neg (ne (by decide)), if_neg (ne (by decide)),
    if_neg (ne (by decide)), if_neg (ne (by decide)), if_neg (ne (by decide)),
    if_neg (ne (by decide)), if_neg (by omega)]

theorem ascii_escape (h : c.toNat < 0x80) : ∀ d ∈ Serializer.escape c, d.toNat < 0x80 := by
  have all : (List.range 0x80).all
      (fun n => (Serializer.escape (Char.ofNat n)).all fun d => decide (d.toNat < 0x80)) = true := by
    decide +kernel
  have escaped := List.all_eq_true.mp (List.all_eq_true.mp all c.toNat (List.mem_range.mpr h))
  rw [Char.ofNat_toNat] at escaped
  exact fun d hd => of_decide_eq_true (escaped d hd)

/-- **A character is written as it is escaped.** -/
theorem steps_utf8 (hw : Between w) (c : Char) :
    ∃ w', (utf8 [c]).foldlM step w = .ok w' ∧ Between w' ∧
      w'.text = w.text ++ utf8 (Serializer.escape c) := by
  obtain ⟨b, bs, hb, ⟨hc, rfl, rfl⟩ | ⟨large, hc⟩⟩ := exists_first c
  · obtain ⟨w', stepped, between, text⟩ := step_ascii hw hc
    rw [utf8_of_ascii (ascii_escape hc), hb]
    refine ⟨w', ?_, between, text⟩
    rw [List.foldlM_cons, stepped]
    rfl
  · obtain ⟨row, hrow, fits⟩ := Utf8.exists_row c
    have bytes := fits_lt hrow fits
    rw [← toNat_utf8, hb, List.map_cons] at fits bytes
    obtain ⟨range, ranges, first, rest, rfl⟩ := List.forall₂_cons_right_iff.mp fits
    obtain ⟨w', stepped, inside, owes, text⟩ :=
      step_first hw hrow first large (bytes _ List.mem_cons_self)
    rw [← owes] at rest
    obtain ⟨w'', steps, between, text'⟩ := steps_of_fits inside rest
    refine ⟨w'', ?_, between, ?_⟩
    · rw [hb, List.foldlM_cons, stepped]
      exact steps
    · rw [text', text, escape_large hc, hb, List.append_assoc, List.singleton_append]

/-! ## Strings -/

theorem steps_all (hw : Between w) (cs : Text) :
    ∃ w', (utf8 cs).foldlM step w = .ok w' ∧ Between w' ∧
      w'.text = w.text ++ utf8 (cs.flatMap Serializer.escape) := by
  induction cs generalizing w with
  | nil => exact ⟨w, rfl, hw, (List.append_nil _).symm⟩
  | cons c cs ih =>
    obtain ⟨w', steps, between, text⟩ := steps_utf8 hw c
    obtain ⟨w'', steps', between', text'⟩ := ih between
    refine ⟨w'', ?_, between', ?_⟩
    · rw [utf8_cons, List.foldlM_append, steps]
      exact steps'
    · rw [text', text, List.flatMap_cons, utf8_append, List.append_assoc]

/-- What is left of the bytes, and the end. -/
def run (w : Escaping) (bytes : Text) : Except Abort Text := do
  let w ← bytes.foldlM step w
  w.finish

theorem run_cons (c : Char) (cs : Text) : w.run (c :: cs) = (w.step c).bind fun w' => w'.run cs := by
  rw [run, List.foldlM_cons]
  cases w.step c <;> rfl

/-- Within a character, the bytes that are owed come first, or the string is rejected. -/
theorem fits_of_run (hw : Inside w) (hbytes : ∀ b ∈ bytes, b.toNat < 0x100) :
    w.run bytes = .error .typeError ∨
      ∃ front rest, bytes = front ++ rest ∧ Utf8.Fits (owed w.state) (front.map Char.toNat) := by
  obtain ⟨range, ranges, hranges⟩ := owed_eq_cons hw
  induction bytes generalizing w range ranges with
  | nil =>
    left
    exact if_neg ((by decide : ∀ s ∈ inner, s ≠ 0) w.state hw.state)
  | cons c cs ih =>
    obtain ⟨small, hcs⟩ := List.forall_mem_cons.mp hbytes
    by_cases hc : range.1 ≤ c.toNat ∧ c.toNat ≤ range.2
    · obtain ⟨w', stepped, _, ⟨_, rfl⟩ | ⟨inside, rest⟩⟩ := step_owed hw hranges hc
      · right
        refine ⟨[c], cs, rfl, ?_⟩
        rw [hranges]
        exact .cons hc .nil
      · obtain ⟨range', ranges', hranges'⟩ := owed_eq_cons inside
        rw [run_cons, stepped]
        refine (ih inside hcs range' ranges' hranges').imp id ?_
        rintro ⟨front, after, rfl, fits⟩
        refine ⟨c :: front, after, rfl, ?_⟩
        rw [hranges, ← rest]
        exact .cons hc fits
    · left
      rw [run_cons, step_not_owed hw hranges small hc]
      rfl

theorem run_append {front rest : Text} {w' : Escaping} (h : front.foldlM step w = .ok w') :
    w.run (front ++ rest) = w'.run rest := by
  rw [run, List.foldlM_append, h]
  rfl

/-- Bytes that are not rejected are those of a text. By induction on their number, character by
character. -/
theorem utf8_of_run (hw : Between w) (hbytes : ∀ b ∈ bytes, b.toNat < 0x100) :
    w.run bytes = .error .typeError ∨ ∃ cs, bytes = utf8 cs := by
  induction hn : bytes.length using Nat.strong_induction_on generalizing w bytes with
  | _ n ih =>
    have goesOn {w' : Escaping} {d : Char} {rest : Text} (between : Between w')
        (hrest : ∀ b ∈ rest, b.toNat < 0x100) (shorter : rest.length < n) :
        w'.run rest = .error .typeError ∨ ∃ cs, utf8 [d] ++ rest = utf8 cs := by
      refine (ih _ shorter between hrest rfl).imp id ?_
      rintro ⟨cs, rfl⟩
      exact ⟨d :: cs, (utf8_cons d cs).symm⟩
    cases bytes with
    | nil => exact .inr ⟨[], rfl⟩
    | cons c cs =>
      obtain ⟨small, hcs⟩ := List.forall_mem_cons.mp hbytes
      rw [List.length_cons] at hn
      by_cases hc : c.toNat < 0x80
      · obtain ⟨w', stepped, between, _⟩ := step_ascii hw hc
        have after := goesOn (d := c) between hcs (by omega)
        rw [utf8_ascii hc] at after
        rw [run_cons, stepped]
        exact after
      rcases next?_rejects c.toNat small with rejected | ⟨row, hrow, range, hrange, first⟩
      · left
        obtain ⟨_, _, decoded⟩ := decode_first w.codepoint rejected
        rw [← hw.state] at decoded
        rw [run_cons, step_rejected decoded]
        rfl
      obtain ⟨ranges, rfl⟩ := List.head?_eq_some_iff.mp hrange
      obtain ⟨w', stepped, inside, owes, _⟩ :=
        step_first hw hrow first (Nat.not_lt.mp hc) small
      rw [run_cons, stepped]
      rcases fits_of_run inside hcs with failed | ⟨front, rest, rfl, fits⟩
      · exact .inl failed
      obtain ⟨w'', steps, between, _⟩ := steps_of_fits inside fits
      rw [owes] at fits
      obtain ⟨d, hd⟩ : ∃ d, utf8 [d] = c :: front := exists_utf8 hrow (.cons first fits)
      rw [List.length_append] at hn
      have after := goesOn (d := d) between (fun b hb => hcs b (List.mem_append_right _ hb)) (by omega)
      rw [hd] at after
      show w'.run (front ++ rest) = _ ∨ _
      rw [run_append steps]
      exact after

end Escaping

/-- The bytes of a text are written as those of the escaped text. -/
theorem dumpEscaped_utf8 (cs : Text) :
    dumpEscaped (utf8 cs) = .ok (utf8 (cs.flatMap Serializer.escape)) := by
  have start : Escaping.Between { codepoint := 0, state := 0, buffer := [], out := [] } :=
    ⟨rfl, Nat.zero_le _⟩
  obtain ⟨w', steps, between, text⟩ := Escaping.steps_all start cs
  rw [dumpEscaped, steps]
  show w'.finish = _
  rw [Escaping.finish, if_pos between.state]
  exact congrArg Except.ok text

/-- **`dump_escaped` writes the bytes of a text as those of the escaped text, and throws on all other
bytes.** It does nothing else, whatever the bytes. -/
theorem dumpEscaped_iff (bytes : List UInt8) (text : Text) :
    (dumpEscaped (ofBytes bytes) = .ok text ↔
      ∃ cs, ofBytes bytes = utf8 cs ∧ text = utf8 (cs.flatMap Serializer.escape)) ∧
    (dumpEscaped (ofBytes bytes) = .error .typeError ↔ ¬ ∃ cs, ofBytes bytes = utf8 cs) := by
  have small : ∀ b ∈ ofBytes bytes, b.toNat < 0x100 := by
    intro b hb
    obtain ⟨byte, _, rfl⟩ := List.mem_map.mp hb
    have := byte.toNat_lt
    rw [Lexer.toNat_ofNat (.inl (by omega))]
    omega
  have start : Escaping.Between { codepoint := 0, state := 0, buffer := [], out := [] } :=
    ⟨rfl, Nat.zero_le _⟩
  have thrown (h : ¬ ∃ cs, ofBytes bytes = utf8 cs) :
      dumpEscaped (ofBytes bytes) = .error .typeError :=
    (Escaping.utf8_of_run start small).resolve_right h
  refine ⟨⟨fun h => ?_, ?_⟩, ⟨?_, thrown⟩⟩
  · by_cases encodes : ∃ cs, ofBytes bytes = utf8 cs
    · obtain ⟨cs, hcs⟩ := encodes
      rw [hcs, dumpEscaped_utf8] at h
      exact ⟨cs, hcs, (Except.ok.inj h).symm⟩
    · rw [thrown encodes] at h
      cases h
  · rintro ⟨cs, hcs, rfl⟩
    rw [hcs, dumpEscaped_utf8]
  · rintro h ⟨cs, hcs⟩
    rw [hcs, dumpEscaped_utf8] at h
    cases h

/-! ## Values -/

variable {dumpFloat : ℚ → Text} {float : ℚ → Prop} {v : Json}

theorem dumpString_bytesOf (s : String) :
    dumpString (bytesOf s).toList = .ok (utf8 (Serializer.dumpString s)) := by
  have quoted : utf8 (Serializer.dumpString s) = '"' :: utf8 (Serializer.dumpEscaped s) ++ ['"'] := by
    rw [Serializer.dumpString, utf8_append, utf8_cons_ascii (by decide),
      utf8_ascii (c := '"') (by decide)]
  rw [dumpString, bytesOf, String.toList_ofList, dumpEscaped_utf8, quoted]
  rfl

theorem utf8_dumpInteger (signed : Bool) (n : BitVec 64) :
    utf8 (Serializer.dumpInteger signed Serializer.numberBuffer n) =
      Serializer.dumpInteger signed Serializer.numberBuffer n := by
  have ascii : ∀ c ∈ Serializer.decimal (Serializer.valueOf signed n), c.toNat < 0x80 := by
    rw [Serializer.decimal]
    split
    · obtain ⟨l, htext, _⟩ := exists_literal true (Serializer.valueOf signed n).natAbs
      exact fun c hc => ascii_of_literal l c (htext ▸ hc)
    · obtain ⟨l, htext, _⟩ := exists_literal false (Serializer.valueOf signed n).natAbs
      exact fun c hc => ascii_of_literal l c (htext ▸ hc)
  rw [Serializer.dumpInteger_eq signed Serializer.numberBuffer rfl]
  exact utf8_of_ascii ascii

theorem dumpElements_mapStrings {vs : List Json}
    (h : ∀ v ∈ vs, dump dumpFloat (v.mapStrings bytesOf) = .ok (utf8 (Serializer.dump dumpFloat v))) :
    dumpElements dumpFloat (Json.mapElements bytesOf vs) =
      .ok (utf8 (Serializer.dumpElements dumpFloat vs)) := by
  induction vs with
  | nil => rfl
  | cons v vs ih =>
    have first := h v List.mem_cons_self
    have rest := ih fun v hv => h v (.tail _ hv)
    cases vs with
    | nil => exact first
    | cons w vs =>
      have commas : utf8 (Serializer.dumpElements dumpFloat (v :: w :: vs)) =
          utf8 (Serializer.dump dumpFloat v) ++
            ',' :: utf8 (Serializer.dumpElements dumpFloat (w :: vs)) := by
        rw [Serializer.dumpElements, utf8_append, utf8_cons_ascii (by decide)]
        exact List.cons_ne_nil _ _
      rw [Json.mapElements] at rest ⊢
      rw [Json.mapElements, dumpElements, first, rest, commas]
      · rfl
      · exact List.cons_ne_nil _ _

theorem dumpMembers_mapStrings {ms : List (String × Json)}
    (h : ∀ m ∈ ms, dump dumpFloat (m.2.mapStrings bytesOf) =
      .ok (utf8 (Serializer.dump dumpFloat m.2))) :
    dumpMembers dumpFloat (Json.mapMembers bytesOf ms) =
      .ok (utf8 (Serializer.dumpMembers dumpFloat ms)) := by
  induction ms with
  | nil => rfl
  | cons m ms ih =>
    obtain ⟨key, v⟩ := m
    have first : dump dumpFloat (v.mapStrings bytesOf) = .ok (utf8 (Serializer.dump dumpFloat v)) :=
      h (key, v) List.mem_cons_self
    have rest := ih fun m hm => h m (.tail _ hm)
    have member : utf8 (Serializer.dumpString key ++ ':' :: Serializer.dump dumpFloat v) =
        utf8 (Serializer.dumpString key) ++ ':' :: utf8 (Serializer.dump dumpFloat v) := by
      rw [utf8_append, utf8_cons_ascii (by decide)]
    cases ms with
    | nil =>
      rw [Json.mapMembers, Json.mapMembers, dumpMembers, dumpString_bytesOf, first,
        Serializer.dumpMembers, member]
      rfl
    | cons m ms =>
      obtain ⟨key', w⟩ := m
      have commas : utf8 (Serializer.dumpMembers dumpFloat ((key, v) :: (key', w) :: ms)) =
          utf8 (Serializer.dumpString key) ++ ':' :: utf8 (Serializer.dump dumpFloat v) ++
            ',' :: utf8 (Serializer.dumpMembers dumpFloat ((key', w) :: ms)) := by
        rw [Serializer.dumpMembers, utf8_append, utf8_cons_ascii (c := ',') (by decide), member]
        exact List.cons_ne_nil _ _
      rw [Json.mapMembers] at rest ⊢
      rw [Json.mapMembers, dumpMembers, dumpString_bytesOf, first, rest, commas]
      · rfl
      · exact List.cons_ne_nil _ _

/-- **What is written for a value is the bytes of its text**, and nothing is thrown. -/
theorem dump_bytesOf (ascii : ∀ q, float q → ∀ c ∈ dumpFloat q, c.toNat < 0x80)
    (h : v.WellFormed float) :
    dump dumpFloat (v.mapStrings bytesOf) = .ok (utf8 (Serializer.dump dumpFloat v)) := by
  induction h with
  | null => rfl
  | boolean b => cases b <;> rfl
  | numberInteger n => exact congrArg Except.ok (utf8_dumpInteger true n).symm
  | numberUnsigned n => exact congrArg Except.ok (utf8_dumpInteger false n).symm
  | numberFloat h => exact congrArg Except.ok (utf8_of_ascii (ascii _ h)).symm
  | string s => exact dumpString_bytesOf s
  | array _ ih =>
    rw [Json.mapStrings, dump, dumpElements_mapStrings ih, Serializer.dump, utf8_append,
      utf8_cons_ascii (by decide), utf8_ascii (c := ']') (by decide)]
    rfl
  | object _ _ ih =>
    rw [Json.mapStrings, dump, dumpMembers_mapStrings ih, Serializer.dump, utf8_append,
      utf8_cons_ascii (by decide), utf8_ascii (c := '\x7d') (by decide)]
    rfl

theorem canonical_mapStrings (f : String → String) (h : v.WellFormed float) :
    (v.mapStrings f).canonical = v.canonical.mapStrings f := by
  induction h with
  | numberInteger n =>
    show (Json.numberInteger n).canonical = (Json.numberInteger n).canonical.mapStrings f
    rw [Json.canonical]
    split <;> rfl
  | @array elements _ ih =>
    rw [Json.canonical, Json.canonicalElements_eq, Json.mapStrings_array, Json.mapStrings_array,
      Json.canonical, Json.canonicalElements_eq, List.map_map, List.map_map]
    exact congrArg Json.array (List.map_congr_left ih)
  | @object members _ _ ih =>
    rw [Json.canonical, Json.canonicalMembers_eq, Json.mapStrings_object, Json.mapStrings_object,
      Json.canonical, Json.canonicalMembers_eq, List.map_map, List.map_map]
    exact congrArg Json.object (List.map_congr_left fun m hm => congrArg (Prod.mk _) (ih m hm))
  | _ => rfl

/-- **What is parsed is written, and read back from the bytes that are written**: `dump` throws on no
value that `parse` gives. -/
theorem bytes_round_trip (strtod : Text → Option ℚ) (dumpFloat : ℚ → Text) {bytes : Text} {v : Json}
    (floats : ∀ q, Parsed strtod q → ReadsBack strtod dumpFloat q)
    (h : parse strtod true bytes = some v) :
    ∃ text, dump dumpFloat v = .ok text ∧ parse strtod true text = some v.canonical := by
  obtain ⟨text, tail, w, _, _, hw, rfl⟩ := (parse_bytes_iff strtod bytes v).mp h
  have formed := (wellFormed_of_parse hw).mono floats
  have ascii : ∀ q, ReadsBack strtod dumpFloat q → ∀ c ∈ dumpFloat q, c.toNat < 0x80 := by
    intro q back
    obtain ⟨l, hl, _⟩ := back.literal
    exact hl ▸ ascii_of_literal l
  have noneBehind : IsEnd [] := fun c hc => absurd hc (Option.not_mem_none c)
  have noBlank : ∀ c ∈ ([] : Text), Lexer.isWhitespace c = true := List.forall_mem_nil _
  have read := parse_dump_append formed noBlank true
  rw [List.append_nil] at read
  refine ⟨_, dump_bytesOf ascii formed, ?_⟩
  have back := parse_utf8 strtod true noneBehind (Serializer.dump dumpFloat w)
  rw [List.append_nil, read] at back
  rw [back, canonical_mapStrings bytesOf formed]
  rfl

/-! ### A word -/

/-- `["é"]`, in bytes. -/
def word : Text := '[' :: '"' :: ofBytes [0xC3, 0xA9] ++ ['"', ']']

theorem bytes_round_trip_word :
    parse halfStrtod true word = some (.array [.string (bytesOf "é")]) ∧
      ∃ text, dump halfText (.array [.string (bytesOf "é")]) = .ok text ∧
        parse halfStrtod true text = some (.array [.string (bytesOf "é")]) := by
  have read : parse halfStrtod true word = some (.array [.string (bytesOf "é")]) := rfl
  exact ⟨read, bytes_round_trip halfStrtod halfText (fun _ => readsBack_of_parsed) read⟩

end Bytes

end TcpServer
