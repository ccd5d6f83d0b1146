import TcpServer.DataLayer.Lexer

/-!
# What the number scanner accepts

`scan_number` is a table of states and characters. The grammar of numbers is read off its comment: an
optional minus sign, digits without a leading zero, then a fraction and an exponent, each optional
(`Literal`). The two are compared through the paths of the table (`Path`): from each state the paths to
a state in which the scanner may stop spell exactly what the grammar has left at that point. The
scanner stops as late as it can (`Literal.Continues`) and never goes back, so a point without a digit
is an error and not the end of a shorter number.
-/

namespace TcpServer

namespace Lexer

/-! ## The grammar -/

/-- One digit or more. -/
structure Digits where
  first : Char
  others : Text
  first_isDigit : first.isDigit = true
  others_isDigit : ∀ c ∈ others, c.isDigit = true

def Digits.text (ds : Digits) : Text := ds.first :: ds.others

structure Exponent where
  letter : Char
  sign : Option Char
  digits : Digits
  letter_eq : letter = 'e' ∨ letter = 'E'
  sign_eq : ∀ c ∈ sign, c = '+' ∨ c = '-'

def Exponent.text (x : Exponent) : Text := x.letter :: (x.sign.toList ++ x.digits.text)

structure Literal where
  minus : Bool
  whole : Digits
  fraction : Option Digits
  exponent : Option Exponent
  whole_zero : whole.first = '0' → whole.others = []

namespace Literal

def fractionText (f : Option Digits) : Text := f.elim [] fun ds => '.' :: ds.text

def exponentText (x : Option Exponent) : Text := x.elim [] Exponent.text

def text (l : Literal) : Text :=
  (if l.minus then ['-'] else []) ++ l.whole.text ++ fractionText l.fraction ++
    exponentText l.exponent

/-- The type: only what has neither fraction nor exponent is an integer. -/
def type (l : Literal) : NumberType :=
  if l.fraction.isSome || l.exponent.isSome then .float else if l.minus then .integer else .unsigned

/-- A longer number begins with this one and the character. -/
def Continues (l : Literal) (c : Char) : Prop :=
  (c.isDigit = true ∧ (l.whole.first = '0' → l.fraction.isSome ∨ l.exponent.isSome)) ∨
    (c = '.' ∧ l.fraction = none ∧ l.exponent = none) ∨
    ((c = 'e' ∨ c = 'E') ∧ l.exponent = none)

/-- The state the scanner is in behind the number. -/
def finish (l : Literal) : NumberState :=
  if l.exponent.isSome then .any2 else if l.fraction.isSome then .decimal2
  else if l.whole.first = '0' then .zero else .any1

end Literal

/-! ## Paths -/

/-- The text takes the scanner from one state and type to others. -/
inductive Path : NumberState → NumberType → Text → NumberState → NumberType → Prop
  | nil {s : NumberState} {type : NumberType} : Path s type [] s type
  | cons {s s' s'' : NumberState} {type type'' : NumberType} {c : Char} {cs : Text}
    (h : s.next (some c) = .goto s') (hs : Path s' (s'.enter type) cs s'' type'') :
    Path s type (c :: cs) s'' type''

variable {s s' s'' : NumberState} {type type' type'' : NumberType} {c : Char} {cs text rest : Text}

theorem path_nil_iff : Path s type [] s' type' ↔ s' = s ∧ type' = type := by
  constructor
  · rintro ⟨⟩
    exact ⟨rfl, rfl⟩
  · rintro ⟨rfl, rfl⟩
    exact .nil

theorem path_cons_iff : Path s type (c :: cs) s'' type'' ↔
    ∃ s', s.next (some c) = .goto s' ∧ Path s' (s'.enter type) cs s'' type'' := by
  constructor
  · rintro (_ | ⟨h, hs⟩)
    exact ⟨_, h, hs⟩
  · rintro ⟨_, h, hs⟩
    exact .cons h hs

theorem Path.append (h : Path s type text s' type') (h' : Path s' type' cs s'' type'') :
    Path s type (text ++ cs) s'' type'' := by
  induction h with
  | nil => exact h'
  | cons h _ ih => exact .cons h (ih h')

/-- **The scanner follows a path and stops where the table says so.** -/
theorem scanNumberFrom_iff : scanNumberFrom s type cs = some (type', text, rest) ↔
    ∃ s', Path s type text s' type' ∧ cs = text ++ rest ∧ s'.next rest.head? = .done := by
  induction cs generalizing s type text with
  | nil =>
    rw [scanNumberFrom]
    constructor
    · intro h
      split at h
      next hd =>
        obtain ⟨rfl, rfl, rfl⟩ : type = type' ∧ [] = text ∧ [] = rest := by simpa using h
        exact ⟨s, .nil, rfl, hd⟩
      next => cases h
    · rintro ⟨s', path, hcs, hd⟩
      obtain ⟨rfl, rfl⟩ := List.append_eq_nil_iff.mp hcs.symm
      obtain ⟨rfl, rfl⟩ := path_nil_iff.mp path
      exact if_pos hd
  | cons c cs ih =>
    rw [scanNumberFrom]
    constructor
    · intro h
      split at h
      next s₁ hs =>
        obtain ⟨⟨type₁, text₁, rest₁⟩, h₁, heq⟩ := Option.map_eq_some_iff.mp h
        obtain ⟨rfl, rfl, rfl⟩ : type₁ = type' ∧ c :: text₁ = text ∧ rest₁ = rest := by
          simpa using heq
        obtain ⟨s', path, rfl, hd⟩ := ih.mp h₁
        exact ⟨s', .cons hs path, rfl, hd⟩
      next hd =>
        obtain ⟨rfl, rfl, rfl⟩ : type = type' ∧ [] = text ∧ c :: cs = rest := by simpa using h
        exact ⟨s, .nil, rfl, hd⟩
      next => cases h
    · rintro ⟨s', path, hcs, hd⟩
      cases path with
      | nil =>
        obtain rfl : c :: cs = rest := hcs
        rw [show s.next (some c) = .done from hd]
      | cons hs path =>
        obtain ⟨rfl, rfl⟩ := List.cons.inj hcs
        rw [hs]
        exact Option.map_eq_some_iff.mpr ⟨_, ih.mpr ⟨s', path, rfl, hd⟩, rfl⟩

/-! ## The paths to where the scanner may stop -/

/-- A state that digits do not leave. -/
theorem path_of_digits {ds : Text} (hds : ∀ c ∈ ds, c.isDigit = true)
    (loop : ∀ c : Char, c.isDigit = true → s.next (some c) = .goto s) (enter : s.enter type = type) :
    Path s type ds s type := by
  induction ds with
  | nil => exact .nil
  | cons c ds ih =>
    refine .cons (loop c (hds c List.mem_cons_self)) ?_
    rw [enter]
    exact ih fun c hc => hds c (.tail _ hc)

theorem path_any2 : Path .any2 type text s' type' ↔
    (∀ c ∈ text, c.isDigit = true) ∧ s' = .any2 ∧ type' = type := by
  constructor
  · intro h
    induction text with
    | nil => exact ⟨List.forall_mem_nil _, path_nil_iff.mp h⟩
    | cons c cs ih =>
      obtain ⟨s₁, hs, path⟩ := path_cons_iff.mp h
      simp only [NumberState.next, Option.any_some] at hs
      split at hs
      next hc =>
        obtain rfl := Next.goto.inj hs
        exact ⟨List.forall_mem_cons.mpr ⟨hc, (ih path).1⟩, (ih path).2⟩
      next => cases hs
  · rintro ⟨hds, rfl, rfl⟩
    exact path_of_digits hds (fun c hc => by simp [NumberState.next, hc]) rfl

theorem path_sign {o : Option Char} (hd : s'.next o = .done) : Path .sign type text s' type' ↔
    ∃ ds : Digits, text = ds.text ∧ s' = .any2 ∧ type' = type := by
  constructor
  · intro h
    cases text with
    | nil =>
      obtain ⟨rfl, rfl⟩ := path_nil_iff.mp h
      simp only [NumberState.next] at hd
      split at hd <;> cases hd
    | cons c cs =>
      obtain ⟨s₁, hs, path⟩ := path_cons_iff.mp h
      simp only [NumberState.next, Option.any_some] at hs
      split at hs
      next hc =>
        obtain rfl := Next.goto.inj hs
        obtain ⟨hcs, rfl, rfl⟩ := path_any2.mp path
        exact ⟨⟨c, cs, hc, hcs⟩, rfl, rfl, rfl⟩
      next => cases hs
  · rintro ⟨ds, rfl, rfl, rfl⟩
    have digits : Path .any2 type' ds.others .any2 type' :=
      path_any2.mpr ⟨ds.others_isDigit, rfl, rfl⟩
    refine .cons ?_ digits
    simp [NumberState.next, ds.first_isDigit]

/-- What follows the letter of an exponent. -/
theorem path_exponent {o : Option Char} (hd : s'.next o = .done) :
    Path .exponent type text s' type' ↔
      ∃ (sign : Option Char) (ds : Digits), (∀ c ∈ sign, c = '+' ∨ c = '-') ∧
        text = sign.toList ++ ds.text ∧ s' = .any2 ∧ type' = type := by
  constructor
  · intro h
    cases text with
    | nil =>
      obtain ⟨rfl, rfl⟩ := path_nil_iff.mp h
      simp only [NumberState.next] at hd
      split at hd
      · cases hd
      · split at hd <;> cases hd
    | cons c cs =>
      obtain ⟨s₁, hs, path⟩ := path_cons_iff.mp h
      simp only [NumberState.next, Option.any_some, Option.some.injEq] at hs
      split at hs
      next hc =>
        obtain rfl := Next.goto.inj hs
        obtain ⟨ds, rfl, rfl, rfl⟩ := (path_sign hd).mp path
        exact ⟨some c, ds, fun c' hc' => Option.mem_some.mp hc' ▸ hc, rfl, rfl, rfl⟩
      next =>
        split at hs
        next hc =>
          obtain rfl := Next.goto.inj hs
          obtain ⟨hcs, rfl, rfl⟩ := path_any2.mp path
          exact ⟨none, ⟨c, cs, hc, hcs⟩, fun c' hc' => (Option.not_mem_none _ hc').elim, rfl, rfl, rfl⟩
        next => cases hs
  · rintro ⟨sign, ds, hsign, rfl, rfl, rfl⟩
    have digits : Path .any2 type' ds.others .any2 type' :=
      path_any2.mpr ⟨ds.others_isDigit, rfl, rfl⟩
    cases sign with
    | none =>
      refine .cons ?_ digits
      have hne : ¬ (ds.first = '+' ∨ ds.first = '-') := by
        rintro (h | h) <;> exact absurd (h ▸ ds.first_isDigit) (by decide)
      simp [NumberState.next, ds.first_isDigit, hne]
    | some c =>
      have signed : Path .sign type' ds.text .any2 type' :=
        .cons (by simp [NumberState.next, ds.first_isDigit]) digits
      exact .cons (by simp [NumberState.next, hsign c rfl]) signed

/-- Where an exponent may come, and whether it does. -/
def afterExponent (s : NumberState) (x : Option Exponent) : NumberState :=
  if x.isSome then .any2 else s

def typeOf (type : NumberType) (x : Option Exponent) : NumberType :=
  if x.isSome then .float else type

theorem exponent_of_path {o : Option Char} (hd : s'.next o = .done) (hc : c = 'e' ∨ c = 'E')
    (h : Path .exponent (NumberState.enter .exponent type) cs s' type') :
    ∃ x : Exponent, c :: cs = x.text ∧ s' = .any2 ∧ type' = .float := by
  obtain ⟨sign, ds, hsign, rfl, hs, ht⟩ := (path_exponent hd).mp h
  exact ⟨⟨c, sign, ds, hc, hsign⟩, rfl, hs, ht⟩

theorem path_of_exponent (x : Exponent)
    (h : ∀ c, c = 'e' ∨ c = 'E' → s.next (some c) = .goto .exponent) :
    Path s type x.text .any2 .float :=
  .cons (h _ x.letter_eq) ((path_exponent (o := none) rfl).mpr ⟨x.sign, x.digits, x.sign_eq, rfl,
    rfl, rfl⟩)

theorem path_decimal2 {o : Option Char} (hd : s'.next o = .done) :
    Path .decimal2 type text s' type' ↔
      ∃ (ds : Text) (x : Option Exponent), (∀ c ∈ ds, c.isDigit = true) ∧
        text = ds ++ Literal.exponentText x ∧ s' = afterExponent .decimal2 x ∧
        type' = typeOf type x := by
  constructor
  · intro h
    induction text with
    | nil =>
      obtain ⟨rfl, rfl⟩ := path_nil_iff.mp h
      exact ⟨[], none, List.forall_mem_nil _, rfl, rfl, rfl⟩
    | cons c cs ih =>
      obtain ⟨s₁, hs, path⟩ := path_cons_iff.mp h
      simp only [NumberState.next, Option.any_some, Option.some.injEq] at hs
      split at hs
      next hc =>
        obtain rfl := Next.goto.inj hs
        obtain ⟨ds, x, hds, rfl, rfl, rfl⟩ := ih path
        exact ⟨c :: ds, x, List.forall_mem_cons.mpr ⟨hc, hds⟩, rfl, rfl, rfl⟩
      next =>
        split at hs
        next hc =>
          obtain rfl := Next.goto.inj hs
          obtain ⟨x, hx, rfl, rfl⟩ := exponent_of_path hd hc path
          exact ⟨[], some x, List.forall_mem_nil _, hx, rfl, rfl⟩
        next => cases hs
  · rintro ⟨ds, x, hds, rfl, rfl, rfl⟩
    have digits : Path .decimal2 type ds .decimal2 type :=
      path_of_digits hds (fun c hc => by simp [NumberState.next, hc]) rfl
    cases x with
    | none => exact digits.append .nil
    | some x =>
      refine digits.append (path_of_exponent x ?_)
      rintro c (rfl | rfl) <;> rfl

/-- What follows the point. -/
theorem path_decimal1 {o : Option Char} (hd : s'.next o = .done) :
    Path .decimal1 type text s' type' ↔
      ∃ (ds : Digits) (x : Option Exponent), text = ds.text ++ Literal.exponentText x ∧
        s' = afterExponent .decimal2 x ∧ type' = typeOf type x := by
  constructor
  · intro h
    cases text with
    | nil =>
      obtain ⟨rfl, rfl⟩ := path_nil_iff.mp h
      simp only [NumberState.next] at hd
      split at hd <;> cases hd
    | cons c cs =>
      obtain ⟨s₁, hs, path⟩ := path_cons_iff.mp h
      simp only [NumberState.next, Option.any_some] at hs
      split at hs
      next hc =>
        obtain rfl := Next.goto.inj hs
        obtain ⟨ds, x, hds, rfl, rfl, rfl⟩ := (path_decimal2 hd).mp path
        exact ⟨⟨c, ds, hc, hds⟩, x, rfl, rfl, rfl⟩
      next => cases hs
  · rintro ⟨ds, x, rfl, rfl, rfl⟩
    have others : Path .decimal2 type (ds.others ++ Literal.exponentText x)
        (afterExponent .decimal2 x) (typeOf type x) :=
      (path_decimal2 hd).mpr ⟨ds.others, x, ds.others_isDigit, rfl, rfl, rfl⟩
    refine .cons ?_ others
    simp [NumberState.next, ds.first_isDigit]

/-- What may follow the digits in front of a point. -/
def afterWhole (s : NumberState) (f : Option Digits) (x : Option Exponent) : NumberState :=
  afterExponent (if f.isSome then .decimal2 else s) x

def typeAfter (type : NumberType) (f : Option Digits) (x : Option Exponent) : NumberType :=
  typeOf (if f.isSome then .float else type) x

theorem path_of_tail (f : Option Digits) (x : Option Exponent)
    (point : s.next (some '.') = .goto .decimal1)
    (letter : ∀ c, c = 'e' ∨ c = 'E' → s.next (some c) = .goto .exponent) :
    Path s type (Literal.fractionText f ++ Literal.exponentText x) (afterWhole s f x)
      (typeAfter type f x) := by
  cases f with
  | some ds =>
    have stops : (afterExponent .decimal2 x).next none = .done := by cases x <;> rfl
    exact .cons point ((path_decimal1 stops).mpr ⟨ds, x, rfl, rfl, rfl⟩)
  | none =>
    cases x with
    | none => exact .nil
    | some x => exact path_of_exponent x letter

theorem tail_of_point {o : Option Char} (hd : s'.next o = .done)
    (h : Path .decimal1 (NumberState.enter .decimal1 type) cs s' type') :
    ∃ f x, '.' :: cs = Literal.fractionText f ++ Literal.exponentText x ∧ s' = afterWhole s f x ∧
      type' = typeAfter type f x := by
  obtain ⟨ds, x, rfl, hs, ht⟩ := (path_decimal1 hd).mp h
  exact ⟨some ds, x, rfl, hs, ht⟩

theorem tail_of_letter {o : Option Char} (hd : s'.next o = .done) (hc : c = 'e' ∨ c = 'E')
    (h : Path .exponent (NumberState.enter .exponent type) cs s' type') :
    ∃ f x, c :: cs = Literal.fractionText f ++ Literal.exponentText x ∧ s' = afterWhole s f x ∧
      type' = typeAfter type f x := by
  obtain ⟨x, hx, hs, ht⟩ := exponent_of_path hd hc h
  exact ⟨none, some x, hx, hs, ht⟩

theorem path_zero {o : Option Char} (hd : s'.next o = .done) :
    Path .zero type text s' type' ↔ ∃ f x,
      text = Literal.fractionText f ++ Literal.exponentText x ∧ s' = afterWhole .zero f x ∧
        type' = typeAfter type f x := by
  constructor
  · intro h
    cases text with
    | nil =>
      obtain ⟨rfl, rfl⟩ := path_nil_iff.mp h
      exact ⟨none, none, rfl, rfl, rfl⟩
    | cons c cs =>
      obtain ⟨s₁, hs, path⟩ := path_cons_iff.mp h
      simp only [NumberState.next, Option.some.injEq] at hs
      split at hs
      next hc =>
        obtain rfl := Next.goto.inj hs
        exact hc ▸ tail_of_point hd path
      next =>
        split at hs
        next hc =>
          obtain rfl := Next.goto.inj hs
          exact tail_of_letter hd hc path
        next => cases hs
  · rintro ⟨f, x, rfl, rfl, rfl⟩
    refine path_of_tail f x rfl ?_
    rintro c (rfl | rfl) <;> rfl

theorem path_any1 {o : Option Char} (hd : s'.next o = .done) :
    Path .any1 type text s' type' ↔ ∃ (ds : Text) (f : Option Digits) (x : Option Exponent),
      (∀ c ∈ ds, c.isDigit = true) ∧
        text = ds ++ (Literal.fractionText f ++ Literal.exponentText x) ∧
        s' = afterWhole .any1 f x ∧ type' = typeAfter type f x := by
  constructor
  · intro h
    induction text with
    | nil =>
      obtain ⟨rfl, rfl⟩ := path_nil_iff.mp h
      exact ⟨[], none, none, List.forall_mem_nil _, rfl, rfl, rfl⟩
    | cons c cs ih =>
      obtain ⟨s₁, hs, path⟩ := path_cons_iff.mp h
      simp only [NumberState.next, Option.any_some, Option.some.injEq] at hs
      split at hs
      next hc =>
        obtain rfl := Next.goto.inj hs
        obtain ⟨ds, f, x, hds, rfl, rfl, rfl⟩ := ih path
        exact ⟨c :: ds, f, x, List.forall_mem_cons.mpr ⟨hc, hds⟩, rfl, rfl, rfl⟩
      next =>
        have none_read : ∀ c' ∈ ([] : Text), c'.isDigit = true :=
          List.forall_mem_nil _
        split at hs
        next hc =>
          obtain rfl := Next.goto.inj hs
          obtain ⟨f, x, htext, hs', ht⟩ := tail_of_point hd path
          exact ⟨[], f, x, none_read, hc ▸ htext, hs', ht⟩
        next =>
          split at hs
          next hc =>
            obtain rfl := Next.goto.inj hs
            obtain ⟨f, x, htext, hs', ht⟩ := tail_of_letter hd hc path
            exact ⟨[], f, x, none_read, htext, hs', ht⟩
          next => cases hs
  · rintro ⟨ds, f, x, hds, rfl, rfl, rfl⟩
    refine (path_of_digits hds (fun c hc => by simp [NumberState.next, hc]) rfl).append
      (path_of_tail f x rfl ?_)
    rintro c (rfl | rfl) <;> rfl

/-! ## Literals -/

/-- The state behind the first digit. -/
def wholeState (c : Char) : NumberState := if c = '0' then .zero else .any1

/-- From the state behind its first digit, the scanner reads what is left of a number. -/
theorem path_whole {o : Option Char} (hd : s'.next o = .done) (hc : c.isDigit = true) :
    Path (wholeState c) type text s' type' ↔
      ∃ (whole : Digits) (f : Option Digits) (x : Option Exponent),
        (whole.first = '0' → whole.others = []) ∧
        c :: text = whole.text ++ (Literal.fractionText f ++ Literal.exponentText x) ∧
        s' = afterWhole (wholeState c) f x ∧ type' = typeAfter type f x := by
  rw [wholeState]
  split
  next hzero =>
    rw [path_zero hd]
    constructor
    · rintro ⟨f, x, rfl, hs, ht⟩
      exact ⟨⟨c, [], hc, List.forall_mem_nil _⟩, f, x, fun _ => rfl, rfl, hs, ht⟩
    · rintro ⟨whole, f, x, zero, heq, hs, ht⟩
      obtain ⟨rfl, rfl⟩ := List.cons.inj heq
      rw [zero hzero]
      exact ⟨f, x, rfl, hs, ht⟩
  next hne =>
    rw [path_any1 hd]
    constructor
    · rintro ⟨ds, f, x, hds, rfl, hs, ht⟩
      exact ⟨⟨c, ds, hc, hds⟩, f, x, fun h => absurd h hne, rfl, hs, ht⟩
    · rintro ⟨whole, f, x, -, heq, hs, ht⟩
      obtain ⟨rfl, rfl⟩ := List.cons.inj heq
      exact ⟨whole.others, f, x, whole.others_isDigit, rfl, hs, ht⟩

namespace Literal

theorem finish_eq (l : Literal) :
    l.finish = afterWhole (wholeState l.whole.first) l.fraction l.exponent := by
  rw [finish, afterWhole, afterExponent, wholeState]

theorem type_eq (l : Literal) :
    l.type = typeAfter (if l.minus then .integer else .unsigned) l.fraction l.exponent := by
  rw [type, typeAfter, typeOf]
  cases l.fraction <;> cases l.exponent <;> rfl

/-- The scanner stops behind a number where no longer one begins. -/
theorem next_finish (l : Literal) (o : Option Char) :
    l.finish.next o = .done ↔ ∀ c ∈ o, ¬ l.Continues c := by
  cases o with
  | none =>
    have stops : l.finish.next none = .done := by
      unfold finish
      split
      · rfl
      · split
        · rfl
        · split <;> rfl
    exact iff_of_true stops fun c hc => (Option.not_mem_none c hc).elim
  | some c =>
    simp only [Option.mem_some, forall_eq', Continues, finish]
    cases l.exponent with
    | some x => simp [NumberState.next]
    | none =>
      cases l.fraction with
      | some f => by_cases hc : c.isDigit <;> simp [NumberState.next, hc]
      | none =>
        by_cases hz : l.whole.first = '0' <;> by_cases hp : c = '.' <;>
          by_cases hc : c.isDigit <;> simp [NumberState.next, hz, hp, hc]

end Literal

/-- The state behind a minus sign leads to the digits. -/
theorem path_minus {o : Option Char} (hd : s'.next o = .done) :
    Path .minus type text s' type' ↔
      ∃ c cs, text = c :: cs ∧ c.isDigit = true ∧ Path (wholeState c) type cs s' type' := by
  have leads (c : Char) (hc : c.isDigit = true) :
      NumberState.minus.next (some c) = .goto (wholeState c) := by
    by_cases hz : c = '0' <;> simp [NumberState.next, wholeState, hz, hc]
  have same (c : Char) : (wholeState c).enter type = type := by
    rw [wholeState]
    split <;> rfl
  constructor
  · intro h
    cases text with
    | nil =>
      obtain ⟨rfl, rfl⟩ := path_nil_iff.mp h
      simp only [NumberState.next] at hd
      split at hd
      · cases hd
      · split at hd <;> cases hd
    | cons c cs =>
      obtain ⟨s₁, hs, path⟩ := path_cons_iff.mp h
      have hc : c.isDigit = true := by
        simp only [NumberState.next, Option.any_some, Option.some.injEq] at hs
        split at hs
        next hz => exact hz ▸ rfl
        next =>
          split at hs
          next hc => exact hc
          next => cases hs
      obtain rfl := Next.goto.inj ((leads c hc).symm.trans hs)
      exact ⟨c, cs, rfl, hc, same c ▸ path⟩
  · rintro ⟨c, cs, rfl, hc, path⟩
    exact .cons (leads c hc) ((same c).symm ▸ path)

/-- The paths from the first character of a number spell the numbers. -/
theorem path_literal {o : Option Char} (hd : s'.next o = .done) (hc : c = '-' ∨ c.isDigit = true) :
    Path (firstState c) ((firstState c).enter .unsigned) text s' type' ↔
      ∃ l : Literal, c :: text = l.text ∧ s' = l.finish ∧ type' = l.type := by
  by_cases hminus : c = '-'
  · subst hminus
    rw [show firstState '-' = .minus from rfl, path_minus hd]
    constructor
    · rintro ⟨d, cs, rfl, hdigit, path⟩
      obtain ⟨whole, f, x, zero, heq, hs, ht⟩ := (path_whole hd hdigit).mp path
      have hd' : d = whole.first := (List.cons.inj heq).1
      refine ⟨⟨true, whole, f, x, zero⟩, ?_, ?_, ?_⟩
      · rw [heq, Literal.text, List.append_assoc]
        rfl
      · rw [hs, Literal.finish_eq, hd']
      · rw [ht, Literal.type_eq]
        rfl
    · rintro ⟨l, heq, hs, ht⟩
      have hm : l.minus = true := by
        by_contra hm
        rw [Literal.text, if_neg hm] at heq
        exact absurd ((List.cons.inj heq).1 ▸ l.whole.first_isDigit) (by decide)
      rw [Literal.text, if_pos hm, List.append_assoc] at heq
      obtain ⟨-, rfl⟩ := List.cons.inj heq
      refine ⟨l.whole.first, _, rfl, l.whole.first_isDigit, ?_⟩
      refine (path_whole hd l.whole.first_isDigit).mpr ⟨l.whole, l.fraction, l.exponent,
        l.whole_zero, rfl, hs.trans l.finish_eq, ?_⟩
      rw [ht, l.type_eq, if_pos hm]
      rfl
  · have hdigit := hc.resolve_left hminus
    have same : (wholeState c).enter .unsigned = .unsigned := by
      rw [wholeState]
      split <;> rfl
    rw [show firstState c = wholeState c from if_neg hminus, same, path_whole hd hdigit]
    constructor
    · rintro ⟨whole, f, x, zero, heq, hs, ht⟩
      refine ⟨⟨false, whole, f, x, zero⟩, ?_, ?_, ?_⟩
      · rw [heq, Literal.text, List.append_assoc]
        rfl
      · rw [hs, Literal.finish_eq, (List.cons.inj heq).1]
      · rw [ht, Literal.type_eq]
        rfl
    · rintro ⟨l, heq, hs, ht⟩
      have hm : ¬ l.minus = true := by
        intro hm
        rw [Literal.text, if_pos hm] at heq
        exact hminus (List.cons.inj heq).1
      rw [Literal.text, if_neg hm, List.nil_append, List.append_assoc] at heq
      refine ⟨l.whole, l.fraction, l.exponent, l.whole_zero, heq, ?_, ?_⟩
      · rw [hs, l.finish_eq, (List.cons.inj heq).1]
      · rw [ht, l.type_eq, if_neg hm]

theorem numberToken_ne_parseError : numberToken type text ≠ .parseError := by
  cases type with
  | float => exact Token.noConfusion
  | _ =>
    simp only [numberToken]
    split <;> exact Token.noConfusion

theorem Literal.text_eq_cons (l : Literal) :
    ∃ c text, l.text = c :: text ∧ (c = '-' ∨ c.isDigit = true) := by
  rw [Literal.text]
  split
  · exact ⟨'-', _, rfl, .inl rfl⟩
  · exact ⟨l.whole.first, _, rfl, .inr l.whole.first_isDigit⟩

theorem scanNumber_of_literal {l : Literal} (htext : l.text = c :: text)
    (hends : ∀ c' ∈ rest.head?, ¬ l.Continues c') :
    scanNumber c (text ++ rest) = (numberToken l.type l.text, rest) := by
  obtain ⟨c', text', heq, hc⟩ := l.text_eq_cons
  obtain ⟨rfl, rfl⟩ := List.cons.inj (htext.symm.trans heq)
  have hd := (l.next_finish rest.head?).mpr hends
  have path := (path_literal hd hc).mpr ⟨l, htext.symm, rfl, rfl⟩
  rw [scanNumber, scanNumberFrom_iff.mpr ⟨_, path, rfl, hd⟩, htext]

theorem literal_of_scanNumber (hc : c = '-' ∨ c.isDigit = true) {t : Token}
    (h : scanNumber c cs = (t, rest)) (hne : t ≠ .parseError) :
    ∃ l : Literal, c :: cs = l.text ++ rest ∧ t = numberToken l.type l.text ∧
      ∀ c' ∈ rest.head?, ¬ l.Continues c' := by
  rw [scanNumber] at h
  split at h
  next type text rest' hscan =>
    obtain ⟨rfl, rfl⟩ := Prod.mk.inj h
    obtain ⟨s', path, rfl, hd⟩ := scanNumberFrom_iff.mp hscan
    obtain ⟨l, htext, rfl, rfl⟩ := (path_literal hd hc).mp path
    refine ⟨l, ?_, ?_, (l.next_finish _).mp hd⟩
    · rw [← htext]
      rfl
    · rw [htext]
  next => exact absurd (Prod.mk.inj h).1.symm hne

/-- **The number scanner takes a number of the grammar, as long as there is, and nothing else.** -/
theorem scanNumber_exact (c : Char) (cs rest : Text) (t : Token) (hc : c = '-' ∨ c.isDigit = true) :
    (scanNumber c cs = (t, rest) ∧ t ≠ .parseError) ↔
      ∃ l : Literal, c :: cs = l.text ++ rest ∧ t = numberToken l.type l.text ∧
        ∀ c' ∈ rest.head?, ¬ l.Continues c' := by
  constructor
  · rintro ⟨h, hne⟩
    exact literal_of_scanNumber hc h hne
  · rintro ⟨l, heq, rfl, hends⟩
    refine ⟨?_, numberToken_ne_parseError⟩
    obtain ⟨c', text, htext, -⟩ := l.text_eq_cons
    rw [htext] at heq
    obtain ⟨rfl, rfl⟩ := List.cons.inj heq
    exact scanNumber_of_literal htext hends

/-- After half of ten, a comma. -/
theorem scanNumber_exact_half : ∃ l : Literal, ['-', '0', '.', '5', 'e', '1', ','] = l.text ++ [','] ∧
    Token.valueFloat ['-', '0', '.', '5', 'e', '1'] = numberToken l.type l.text ∧
    ∀ c' ∈ [','].head?, ¬ l.Continues c' :=
  (scanNumber_exact '-' ['0', '.', '5', 'e', '1', ','] [',']
    (.valueFloat ['-', '0', '.', '5', 'e', '1']) (.inl rfl)).mp
    ⟨by decide +kernel, Token.noConfusion⟩

end Lexer

end TcpServer
