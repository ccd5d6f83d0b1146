import TcpServer.DataLayer.Serializer
import Mathlib.Algebra.Order.Ring.Nat

/-!
# How integers are written

`dump_integer` counts the digits first, four at a time, and then fills the buffer from the end, two
digits at a time. The two loops agree: the last digit it writes goes to the front of the buffer, or
behind the minus sign, and what is written is the decimal text (`dumpInteger_eq`), whatever the buffer
held before. The sign of the least integer is removed without an overflow.
-/

namespace TcpServer

namespace Serializer

variable {x : ℕ} {buffer : Text}

/-! ## Decimal texts -/

theorem toDigits_of_ten_le (h : 10 ≤ x) :
    Nat.toDigits 10 x = Nat.toDigits 10 (x / 10) ++ [Nat.digitChar (x % 10)] :=
  Nat.toDigits_of_base_le (by omega) h

theorem length_toDigits_of_ten_le (h : 10 ≤ x) :
    (Nat.toDigits 10 x).length = (Nat.toDigits 10 (x / 10)).length + 1 := by
  rw [toDigits_of_ten_le h, List.length_append, List.length_singleton]

/-- The loop counts the digits. -/
theorem countDigits_eq (x nDigits : ℕ) :
    countDigits x nDigits + 1 = nDigits + (Nat.toDigits 10 x).length := by
  have one {y : ℕ} (h : y < 10) : (Nat.toDigits 10 y).length = 1 := by
    rw [Nat.toDigits_of_lt_base h, List.length_singleton]
  fun_induction countDigits x nDigits with
  | case1 x nDigits h => rw [one h]
  | case2 x nDigits h₁ h =>
    rw [length_toDigits_of_ten_le (by omega), one (by omega)]
  | case3 x nDigits h₁ h₂ h =>
    rw [length_toDigits_of_ten_le (by omega), length_toDigits_of_ten_le (by omega), one (by omega)]
  | case4 x nDigits h₁ h₂ h₃ h =>
    rw [length_toDigits_of_ten_le (by omega), length_toDigits_of_ten_le (by omega),
      length_toDigits_of_ten_le (by omega), one (by omega)]
  | case5 x nDigits h₁ h₂ h₃ h ih =>
    have four : (Nat.toDigits 10 x).length = (Nat.toDigits 10 (x / 10000)).length + 4 := by
      rw [length_toDigits_of_ten_le (by omega), length_toDigits_of_ten_le (by omega),
        length_toDigits_of_ten_le (by omega), length_toDigits_of_ten_le (by omega),
        Nat.div_div_eq_div_mul, Nat.div_div_eq_div_mul, Nat.div_div_eq_div_mul]
    rw [ih, four]
    omega

/-! ## The buffer -/

/-- One character in front of a place. -/
theorem set_eq {k : ℕ} {a : Char} (h : k < buffer.length) :
    buffer.set k a = buffer.take k ++ a :: buffer.drop (k + 1) := by
  rw [List.set_eq_take_append_cons_drop, if_pos h]

/-- Two characters in front of a place. -/
theorem set_set_eq {k : ℕ} {a b : Char} (h : k + 2 ≤ buffer.length) :
    (buffer.set (k + 1) b).set k a = buffer.take k ++ a :: b :: buffer.drop (k + 2) := by
  have place : (buffer.take (k + 1)).length = k + 1 := by
    rw [List.length_take]
    omega
  rw [set_eq (by rw [List.length_set]; omega), List.take_set_of_le (by omega), set_eq (by omega),
    List.drop_left' place]

theorem digitsTo99_eq (x : ℕ) : digitsTo99 (x % 100) =
    (Nat.digitChar (x / 10 % 10), Nat.digitChar (x % 10)) := by
  rw [digitsTo99, Nat.mod_mod_of_dvd x (by decide : 10 ∣ 100)]
  congr 2
  omega

theorem toDigits_of_hundred_le (h : 100 ≤ x) : Nat.toDigits 10 x = Nat.toDigits 10 (x / 100) ++
    [(digitsTo99 (x % 100)).1, (digitsTo99 (x % 100)).2] := by
  rw [toDigits_of_ten_le (by omega), toDigits_of_ten_le (by omega), Nat.div_div_eq_div_mul,
    List.append_assoc, digitsTo99_eq]
  rfl

theorem toDigits_of_lt_hundred (h₁ : 10 ≤ x) (h₂ : x < 100) :
    Nat.toDigits 10 x = [(digitsTo99 x).1, (digitsTo99 x).2] := by
  rw [toDigits_of_ten_le h₁, Nat.toDigits_of_lt_base (by omega)]
  rfl

/-- **The loop fills in the decimal text in front of the pointer**, and nothing else. -/
theorem fillBuffer_eq {ptr m : ℕ} (hp : m + (Nat.toDigits 10 x).length = ptr)
    (hb : ptr ≤ buffer.length) :
    fillBuffer x ptr buffer = buffer.take m ++ Nat.toDigits 10 x ++ buffer.drop ptr := by
  fun_induction fillBuffer x ptr buffer with
  | case1 x ptr buffer h digits ih =>
    rw [toDigits_of_hundred_le h, List.length_append, List.length_cons, List.length_singleton] at hp
    obtain ⟨k, rfl⟩ : ∃ k, ptr = k + 2 := ⟨m + (Nat.toDigits 10 (x / 100)).length, by omega⟩
    have place : (buffer.take k).length = k := by
      rw [List.length_take]
      omega
    have front : m ≤ k := by omega
    rw [Nat.add_sub_cancel, show k + 2 - 1 = k + 1 from rfl, set_set_eq hb] at ih ⊢
    rw [ih (by omega) (by rw [List.length_append]; omega), List.take_append_of_le_length (by omega),
      List.take_take, min_eq_left front, List.drop_left' place, toDigits_of_hundred_le h]
    simp only [List.append_assoc, List.cons_append, List.nil_append]
    rfl
  | case2 x ptr buffer h₁ h digits =>
    rw [toDigits_of_lt_hundred h (by omega)] at hp ⊢
    obtain rfl : m + 2 = ptr := hp
    rw [Nat.add_sub_cancel, show m + 2 - 1 = m + 1 from rfl, set_set_eq hb, List.append_assoc]
    rfl
  | case3 x ptr buffer h₁ h =>
    have small : x < 10 := by omega
    rw [Nat.toDigits_of_lt_base small] at hp ⊢
    obtain rfl : m + 1 = ptr := hp
    have digit : Char.ofNat (0x30 + x) = Nat.digitChar x :=
      (by decide : ∀ x < 10, Char.ofNat (0x30 + x) = Nat.digitChar x) x small
    rw [Nat.add_sub_cancel, set_eq hb, digit, List.append_assoc]
    rfl

/-! ## Integers -/

/-- The decimal text of an integer. -/
def decimal (n : ℤ) : Text :=
  if n < 0 then '-' :: Nat.toDigits 10 n.natAbs else Nat.toDigits 10 n.natAbs

/-- The number the bits denote. -/
def valueOf (signed : Bool) (x : BitVec 64) : ℤ := if signed then x.toInt else x.toNat

/-- The sign is removed from every negative number, the least one too. -/
theorem removeSign_eq {n : BitVec 64} (h : n.toInt < 0) : (removeSign n).toNat = n.toInt.natAbs := by
  have bound := n.isLt
  rw [BitVec.toInt_eq_toNat_cond] at h ⊢
  split at h
  next => omega
  next hn =>
    rw [if_neg hn]
    simp only [removeSign, BitVec.toNat_add, BitVec.toNat_neg]
    omega

theorem length_toDigits_le {x : ℕ} (h : x < 2 ^ 64) : (Nat.toDigits 10 x).length ≤ 20 :=
  (Nat.length_toDigits_le_iff (by decide) (by decide)).mpr (by omega)

/-- **An integer is written as its decimal text**, whatever an earlier one has left in the buffer. -/
theorem dumpInteger_eq (signed : Bool) (buffer : Text) (hb : buffer.length = 64) (x : BitVec 64) :
    dumpInteger signed buffer x = decimal (valueOf signed x) := by
  have filled {y m : ℕ} {b : Text} (hy : y < 2 ^ 64) (hm : m ≤ 1) (hb : b.length = 64) :
      (fillBuffer y (m + countDigits y) b).take (m + countDigits y) =
        b.take m ++ Nat.toDigits 10 y := by
    have count := countDigits_eq y 1
    have bound := length_toDigits_le hy
    have total : (b.take m ++ Nat.toDigits 10 y).length = m + countDigits y := by
      rw [List.length_append, List.length_take]
      omega
    rw [fillBuffer_eq (m := m) (by omega) (by omega), List.take_left' total]
  rw [dumpInteger]
  split
  next hz =>
    subst hz
    cases signed <;> rfl
  next =>
    have bound := x.isLt
    split
    next hn =>
      obtain ⟨rfl, hs⟩ := (Bool.and_eq_true _ _).mp hn
      have negative := slt_zero.mp hs
      have sign : (buffer.set 0 '-').take 1 = ['-'] := by
        rw [set_eq (by omega)]
        rfl
      have length : (buffer.set 0 '-').length = 64 := List.length_set.trans hb
      have text := filled (removeSign x).isLt le_rfl length
      rw [text, sign, removeSign_eq negative, decimal, valueOf, if_pos rfl, if_pos negative]
      rfl
    next hn =>
      have value : valueOf signed x = x.toNat := by
        cases signed with
        | false => rfl
        | true => exact toInt_of_positive hn
      have text := filled bound (Nat.zero_le 1) hb
      rw [Nat.zero_add, List.take_zero, List.nil_append] at text
      rw [text, value, decimal, if_neg (by omega), Int.natAbs_natCast]

theorem decimal_eq (n : ℤ) : decimal n = (toString n).toList := by
  rw [decimal]
  cases n with
  | ofNat m =>
    rw [if_neg (by simp)]
    simp [Int.toString_eq_repr, Int.repr, Nat.toList_repr]
  | negSucc m =>
    rw [if_pos (Int.negSucc_lt_zero m)]
    simp [Int.toString_eq_repr, Int.repr, Nat.toList_repr]

/-- **`dump_integer` writes every number as Lean does**, the least one too, whatever is in the buffer. -/
theorem dumpInteger_toString (signed : Bool) (buffer : Text) (hb : buffer.length = 64)
    (x : BitVec 64) : String.ofList (dumpInteger signed buffer x) = toString (valueOf signed x) := by
  rw [dumpInteger_eq signed buffer hb x, decimal_eq, String.ofList_toList]

theorem dumpInteger_toString_least :
    String.ofList (dumpInteger true (List.replicate 64 'x') (BitVec.intMin 64)) =
      "-9223372036854775808" := by
  rw [dumpInteger_toString true _ List.length_replicate (BitVec.intMin 64)]
  decide

end Serializer

end TcpServer
