import TcpServer.Laws.Numbers
import TcpServer.Laws.Strings

/-!
# Scanning a text

Every token but the last takes a character, so the fuel of `tokens` lasts: the tokens of a text are that
of its first scan and those of what the scan leaves (`tokens_of_scan`). `Scanned cs ts rest` says that
scans of `cs` give `ts` and leave `rest`. Such runs compose, and their tokens are the first ones of the
text (`Scanned.tokens_eq`).
-/

namespace TcpServer

namespace Lexer

variable {c : Char} {cs cs' rest rest' : Text} {t : Token} {ts ts' : List Token}

/-! ## What a scan leaves -/

theorem length_skipWhitespace (cs : Text) : (skipWhitespace cs).length ≤ cs.length := by
  induction cs with
  | nil => exact le_rfl
  | cons c cs ih =>
    rw [skipWhitespace]
    split
    · exact ih.trans (Nat.le_succ _)
    · exact le_rfl

theorem length_scanString {s : Text} (h : scanString cs = some (s, rest)) :
    rest.length ≤ cs.length := by
  obtain ⟨texts, -, rfl⟩ := spellsAll_of_scanString h
  rw [List.length_append, List.length_cons]
  omega

theorem length_scanNumber (h : scanNumber c cs = (t, rest)) (ht : t ≠ .parseError) :
    rest.length ≤ cs.length := by
  rw [scanNumber] at h
  split at h
  next type text rest' hscan =>
    obtain ⟨rfl, rfl⟩ := Prod.mk.inj h
    obtain ⟨s', -, rfl, -⟩ := scanNumberFrom_iff.mp hscan
    rw [List.length_append]
    omega
  next => exact absurd (Prod.mk.inj h).1.symm ht

theorem length_scanLiteral {literal : Text} {token : Token}
    (h : scanLiteral literal token cs = (t, rest)) (ht : t ≠ .parseError) :
    rest.length ≤ cs.length := by
  rw [scanLiteral] at h
  split at h
  · obtain ⟨rfl, rfl⟩ := Prod.mk.inj h
    rw [List.length_drop]
    omega
  · exact absurd (Prod.mk.inj h).1.symm ht

/-- What follows from each branch. -/
theorem ite_elim {α : Type} {p P : Prop} [Decidable p] {a b x : α} (ha : p → a = x → P)
    (hb : ¬ p → b = x → P) : (if p then a else b) = x → P := by
  intro h
  by_cases hp : p
  · exact ha hp ((if_pos hp).symm.trans h)
  · exact hb hp ((if_neg hp).symm.trans h)

theorem length_scanToken (h : scanToken c cs = (t, rest)) (hne : t ≠ .endOfInput)
    (ht : t ≠ .parseError) : rest.length ≤ cs.length := by
  have taken {t' : Token} (h : (t', cs) = (t, rest)) : rest.length ≤ cs.length :=
    (congrArg List.length (Prod.mk.inj h).2).ge
  revert h
  unfold scanToken
  refine ite_elim (fun _ => taken) fun _ => ?_
  refine ite_elim (fun _ => taken) fun _ => ?_
  refine ite_elim (fun _ => taken) fun _ => ?_
  refine ite_elim (fun _ => taken) fun _ => ?_
  refine ite_elim (fun _ => taken) fun _ => ?_
  refine ite_elim (fun _ => taken) fun _ => ?_
  refine ite_elim (fun _ h => length_scanLiteral h ht) fun _ => ?_
  refine ite_elim (fun _ h => length_scanLiteral h ht) fun _ => ?_
  refine ite_elim (fun _ h => length_scanLiteral h ht) fun _ => ?_
  refine ite_elim (fun _ h => ?_) fun _ => ?_
  · split at h
    next s cs' hs =>
      obtain ⟨-, rfl⟩ := Prod.mk.inj h
      exact length_scanString hs
    next => exact absurd (Prod.mk.inj h).1.symm ht
  refine ite_elim (fun _ h => length_scanNumber h ht) fun _ => ?_
  refine ite_elim (fun _ h => absurd (Prod.mk.inj h).1.symm hne) fun _ h => ?_
  exact absurd (Prod.mk.inj h).1.symm ht

/-- A token takes a character. -/
theorem length_scan (h : scan cs = (t, rest)) (hne : t ≠ .endOfInput) (ht : t ≠ .parseError) :
    rest.length < cs.length := by
  have skipped := length_skipWhitespace cs
  rw [scan] at h
  split at h
  next => exact absurd (Prod.mk.inj h).1.symm hne
  next c cs' heq =>
    rw [heq] at skipped
    exact lt_of_le_of_lt (length_scanToken h hne ht) skipped

/-! ## The tokens of a text -/

theorem scanAll_eq_of_lt {n m : ℕ} (hn : cs.length < n) (hm : cs.length < m) :
    scanAll n cs = scanAll m cs := by
  induction n generalizing m cs with
  | zero => exact absurd hn (Nat.not_lt_zero _)
  | succ n ih =>
    obtain ⟨m, rfl⟩ := Nat.exists_eq_succ_of_ne_zero (Nat.ne_zero_of_lt hm)
    rw [scanAll, scanAll]
    split
    next => rfl
    next => rfl
    next t rest hne ht hs =>
      have shorter := length_scan hs hne ht
      exact congrArg _ (ih (by omega) (by omega))

/-- **The fuel lasts.** -/
theorem tokens_of_scan (h : scan cs = (t, rest)) (hne : t ≠ .endOfInput) (ht : t ≠ .parseError) :
    tokens cs = t :: tokens rest := by
  have shorter := length_scan h hne ht
  rw [tokens, scanAll, h]
  split
  next heq => exact absurd (Prod.mk.inj heq).1 hne
  next heq => exact absurd (Prod.mk.inj heq).1 ht
  next heq =>
    obtain ⟨rfl, rfl⟩ := Prod.mk.inj heq
    rw [tokens, scanAll_eq_of_lt shorter (Nat.lt_succ_self _)]

/-- Scans of a text give these tokens and leave the rest. -/
inductive Scanned : Text → List Token → Text → Prop
  | nil {cs : Text} : Scanned cs [] cs
  | cons {cs cs' rest : Text} {t : Token} {ts : List Token} (h : scan cs = (t, cs'))
    (hne : t ≠ .endOfInput) (ht : t ≠ .parseError) (hs : Scanned cs' ts rest) :
    Scanned cs (t :: ts) rest

theorem Scanned.append (h : Scanned cs ts rest) (h' : Scanned rest ts' rest') :
    Scanned cs (ts ++ ts') rest' := by
  induction h with
  | nil => exact h'
  | cons h hne ht _ ih => exact .cons h hne ht (ih h')

theorem Scanned.tokens_eq (h : Scanned cs ts rest) : tokens cs = ts ++ tokens rest := by
  induction h with
  | nil => rfl
  | cons h hne ht _ ih => rw [tokens_of_scan h hne ht, ih, List.cons_append]

theorem scan_of_whitespace (h : isWhitespace c = true) : scan (c :: cs) = scan cs := by
  rw [scan, skipWhitespace, if_pos h, scan]

/-- White space in front of a token makes no difference. -/
theorem tokens_of_whitespace (h : isWhitespace c = true) : tokens (c :: cs) = tokens cs := by
  rw [tokens, tokens, scanAll, scanAll, scan_of_whitespace h]
  split
  next => rfl
  next => rfl
  next t rest hne ht hs =>
    have shorter := length_scan hs hne ht
    rw [List.length_cons, scanAll_eq_of_lt (Nat.lt_succ_of_lt shorter) shorter]

end Lexer

end TcpServer
