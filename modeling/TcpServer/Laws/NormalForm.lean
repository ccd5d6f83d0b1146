import TcpServer.Laws.RoundTrip

/-!
# The text of a value

Every value that was parsed is well formed (`wellFormed_of_parse`), and what is written for it is a
normal form of the text it came from: neither white space nor the order of the members nor a key that
came twice is in it, and writing what is read from it gives it back (`dump_canonical`). So the text and
the value determine each other (`round_trip`). As to doubles, the values are rationals, so the two zeros
are one value: nothing is said here about the sign of a zero.
-/

namespace TcpServer

open Lexer TcpServer.Parser Serializer

variable {strtod : Text → Option ℚ} {dumpFloat : ℚ → Text} {float : ℚ → Prop} {v : Json}

/-! ## What is parsed is well formed -/

/-- The doubles `strtod` gives. -/
def Parsed (strtod : Text → Option ℚ) (q : ℚ) : Prop := ∃ text, strtod text = some q

theorem wellFormed_of_scalar {t : Token} (h : scalar strtod t = some v) :
    v.WellFormed (Parsed strtod) := by
  cases t with
  | valueFloat text =>
    obtain ⟨q, hq, rfl⟩ := Option.map_eq_some_iff.mp h
    exact .numberFloat ⟨text, hq⟩
  | literalTrue => exact Option.some.inj h ▸ .boolean true
  | literalFalse => exact Option.some.inj h ▸ .boolean false
  | literalNull => exact Option.some.inj h ▸ .null
  | valueString s => exact Option.some.inj h ▸ .string s
  | valueUnsigned n => exact Option.some.inj h ▸ .numberUnsigned n
  | valueInteger n => exact Option.some.inj h ▸ .numberInteger n
  | _ => cases h

mutual

theorem wellFormed_of_value {ts : List Token} {v : Json} (h : Value strtod ts v) :
    v.WellFormed (Parsed strtod) := by
  match h with
  | .scalar token => exact wellFormed_of_scalar token
  | .emptyArray => exact .array fun v hv => absurd hv List.not_mem_nil
  | .array phrase => exact .array (wellFormed_of_elements phrase)
  | .emptyObject => exact .object .nil fun m hm => absurd hm List.not_mem_nil
  | .object phrase =>
    exact .object (OrderedMap.ordered_ofList _) fun m hm =>
      wellFormed_of_members phrase m (OrderedMap.mem_ofList hm)

theorem wellFormed_of_elements {ts : List Token} {vs : List Json} (h : Elements strtod ts vs) :
    ∀ v ∈ vs, v.WellFormed (Parsed strtod) := by
  match h with
  | .last value => exact List.forall_mem_singleton.mpr (wellFormed_of_value value)
  | .cons value phrase =>
    exact List.forall_mem_cons.mpr ⟨wellFormed_of_value value, wellFormed_of_elements phrase⟩

theorem wellFormed_of_members {ts : List Token} {ms : List (String × Json)}
    (h : Members strtod ts ms) : ∀ m ∈ ms, m.2.WellFormed (Parsed strtod) := by
  match h with
  | .last value => exact List.forall_mem_singleton.mpr (wellFormed_of_value value)
  | .cons value phrase =>
    exact List.forall_mem_cons.mpr ⟨wellFormed_of_value value, wellFormed_of_members phrase⟩

end

theorem wellFormed_of_parse {strict : Bool} {text : Text} (h : parse strtod strict text = some v) :
    v.WellFormed (Parsed strtod) := by
  rw [parse] at h
  split at h
  next => cases h
  next v' r hp =>
    split at h
    next =>
      obtain rfl := Option.some.inj h
      obtain ⟨ts, phrase, -⟩ := saxParseInternal_iff.mp hp
      exact wellFormed_of_value phrase
    next => cases h

theorem Json.WellFormed.mono {float' : ℚ → Prop} (h : v.WellFormed float)
    (hf : ∀ q, float q → float' q) : v.WellFormed float' := by
  induction h with
  | null => exact .null
  | boolean b => exact .boolean b
  | numberInteger n => exact .numberInteger n
  | numberUnsigned n => exact .numberUnsigned n
  | numberFloat h => exact .numberFloat (hf _ h)
  | string s => exact .string s
  | array _ ih => exact .array ih
  | object ordered _ ih => exact .object ordered ih

/-! ## The text of a value is a normal form -/

theorem dumpInteger_of_positive {n : BitVec 64} (h : ¬ n.slt 0 = true) :
    dumpInteger false numberBuffer n = dumpInteger true numberBuffer n := by
  rw [dumpInteger, dumpInteger, Bool.false_and, Bool.true_and, if_neg h, if_neg Bool.false_ne_true]

theorem dumpElements_canonical {vs : List Json}
    (h : ∀ v ∈ vs, dump dumpFloat v.canonical = dump dumpFloat v) :
    dumpElements dumpFloat (Json.canonicalElements vs) = dumpElements dumpFloat vs := by
  induction vs with
  | nil => rfl
  | cons v vs ih =>
    have rest := ih fun v hv => h v (.tail _ hv)
    have first := h v List.mem_cons_self
    cases vs with
    | nil => exact first
    | cons w vs =>
      simp only [Json.canonicalElements, dumpElements, first] at rest ⊢
      rw [rest]

theorem dumpMembers_canonical {ms : List (String × Json)}
    (h : ∀ m ∈ ms, dump dumpFloat m.2.canonical = dump dumpFloat m.2) :
    dumpMembers dumpFloat (Json.canonicalMembers ms) = dumpMembers dumpFloat ms := by
  induction ms with
  | nil => rfl
  | cons m ms ih =>
    obtain ⟨key, v⟩ := m
    have rest := ih fun m hm => h m (.tail _ hm)
    have first : dump dumpFloat v.canonical = dump dumpFloat v := h (key, v) List.mem_cons_self
    cases ms with
    | nil => simp only [Json.canonicalMembers, dumpMembers, first]
    | cons m ms =>
      obtain ⟨key', w⟩ := m
      simp only [Json.canonicalMembers, dumpMembers, first] at rest ⊢
      rw [rest]

theorem dump_canonical (h : v.WellFormed float) : dump dumpFloat v.canonical = dump dumpFloat v := by
  induction h with
  | numberInteger n =>
    rw [Json.canonical]
    split
    · rfl
    next hn => exact dumpInteger_of_positive hn
  | array _ ih => rw [Json.canonical, dump, dump, dumpElements_canonical ih]
  | object _ _ ih => rw [Json.canonical, dump, dump, dumpMembers_canonical ih]
  | _ => rfl

theorem blank_newline : ∀ c ∈ "\n".toList, isWhitespace c = true :=
  List.forall_mem_singleton.mpr rfl

/-- **A value is read back from its text**, with white space behind it, and two values have the same
text just when they differ in nothing but the kinds of their non-negative integers. -/
theorem round_trip (strtod : Text → Option ℚ) (dumpFloat : ℚ → Text) {v w : Json} {blank : String}
    (hv : v.WellFormed (ReadsBack strtod dumpFloat)) (hw : w.WellFormed (ReadsBack strtod dumpFloat))
    (hb : ∀ c ∈ blank.toList, isWhitespace c = true) :
    Json.parse strtod (v.dump dumpFloat ++ blank) = some v.canonical ∧
      (v.dump dumpFloat = w.dump dumpFloat ↔ v.canonical = w.canonical) := by
  have none_behind : ∀ c ∈ ([] : Text), isWhitespace c = true := List.forall_mem_nil _
  refine ⟨?_, ?_, ?_⟩
  · rw [Json.parse, Json.dump, String.toList_append, String.toList_ofList]
    exact parse_dump_append hv hb true
  · intro h
    have texts : dump dumpFloat v = dump dumpFloat w := String.ofList_injective h
    have first := parse_dump_append hv none_behind true
    rw [texts] at first
    exact Option.some.inj (first.symm.trans (parse_dump_append hw none_behind true))
  · intro h
    rw [Json.dump, Json.dump, ← dump_canonical hv, h, dump_canonical hw]

/-! ### Half -/

/-- `strtod` and `dump_float`, as they are on the one double there is here. -/
def halfStrtod (text : Text) : Option ℚ := if text = ['0', '.', '5'] then some (1 / 2) else none

def halfText (_ : ℚ) : Text := ['0', '.', '5']

theorem readsBack_half : ReadsBack halfStrtod halfText (1 / 2) where
  literal := ⟨⟨false, ⟨'0', [], rfl, List.forall_mem_nil _⟩,
    some ⟨'5', [], rfl, List.forall_mem_nil _⟩, none, fun _ => rfl⟩, rfl, rfl⟩
  reads := if_pos rfl

theorem readsBack_of_parsed {q : ℚ} (h : Parsed halfStrtod q) : ReadsBack halfStrtod halfText q := by
  obtain ⟨text, h⟩ := h
  rw [halfStrtod] at h
  split at h
  next => exact Option.some.inj h ▸ readsBack_half
  next => cases h

theorem round_trip_half :
    Json.parse halfStrtod
        (Json.dump halfText (.array [.numberFloat (1 / 2), .numberInteger 3, .string "a\n"]) ++ "\n") =
      some (.array [.numberFloat (1 / 2), .numberUnsigned 3, .string "a\n"]) ∧
    (Json.dump halfText (.array [.numberFloat (1 / 2), .numberInteger 3, .string "a\n"]) =
        Json.dump halfText (.array [.numberFloat (1 / 2), .numberUnsigned 3, .string "a\n"]) ↔
      Json.canonical (.array [.numberFloat (1 / 2), .numberInteger 3, .string "a\n"]) =
        Json.canonical (.array [.numberFloat (1 / 2), .numberUnsigned 3, .string "a\n"])) := by
  refine round_trip halfStrtod halfText (.array ?_) (.array ?_) blank_newline
  · exact List.forall_mem_cons.mpr ⟨.numberFloat readsBack_half,
      List.forall_mem_cons.mpr ⟨.numberInteger 3, List.forall_mem_singleton.mpr (.string _)⟩⟩
  · exact List.forall_mem_cons.mpr ⟨.numberFloat readsBack_half,
      List.forall_mem_cons.mpr ⟨.numberUnsigned 3, List.forall_mem_singleton.mpr (.string _)⟩⟩

end TcpServer
