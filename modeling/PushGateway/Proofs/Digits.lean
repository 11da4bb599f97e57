import Mathlib.Logic.Basic
import PushGateway.Decimal.Layout

/-! Decimal digits: the digits of a number are read back, and they start with a zero only if the
number is zero. -/

namespace PushGateway

/-- A word ends where the first character stands that does not belong to it. -/
lemma span_append {A : Type} {p : A → Bool} {word rest : List A} (hw : ∀ c ∈ word, p c = true)
    (hr : ∀ c ∈ rest.head?, p c = false) :
    (word ++ rest).takeWhile p = word ∧ (word ++ rest).dropWhile p = rest := by
  rw [List.takeWhile_append_of_pos hw, List.dropWhile_append_of_pos hw]
  cases rest with
  | nil => simp
  | cons c rest =>
    have hc := hr c rfl
    rw [List.takeWhile_cons_of_neg (by simp [hc]), List.dropWhile_cons_of_neg (by simp [hc])]
    exact ⟨List.append_nil word, rfl⟩

namespace Numeral

lemma isDigit_eq (c : Char) : isDigit c = c.isDigit := by
  rw [Bool.eq_iff_iff]
  simp only [isDigit, Char.isDigit, Bool.and_eq_true, decide_eq_true_eq, ge_iff_le,
    UInt32.le_iff_toNat_le]
  rfl

@[simp] lemma ofDigits_digits (n : Nat) : ofDigits (digits n) = n := Nat.ofDigitChars_ten_toDigits

lemma isDigit_of_mem_digits {n : Nat} {c : Char} (h : c ∈ digits n) : isDigit c = true := by
  rw [isDigit_eq]
  exact Nat.isDigit_of_mem_toDigits (by decide) (by decide) h

lemma digits_ne_nil (n : Nat) : digits n ≠ [] := Nat.toDigits_ne_nil

lemma digitChar_ne_zero {n : Nat} (h : 0 < n) (hn : n < 10) : Nat.digitChar n ≠ '0' := by
  intro hc
  have ht := Nat.toNat_digitChar_of_lt_ten hn
  rw [hc] at ht
  have h48 : '0'.toNat = 48 := rfl
  omega

lemma exists_digits_eq_cons {n : Nat} (h : n ≠ 0) :
    ∃ c cs, digits n = c :: cs ∧ c ≠ '0' ∧ isDigit c = true ∧ ∀ d ∈ cs, isDigit d = true := by
  have hhead : ∃ c cs, digits n = c :: cs ∧ c ≠ '0' := by
    induction n using Nat.strongRecOn with
    | ind n ih =>
      by_cases hn : n < 10
      · exact ⟨_, [], Nat.toDigits_of_lt_base hn, digitChar_ne_zero (Nat.pos_of_ne_zero h) hn⟩
      · obtain ⟨c, cs, hc, hne⟩ := ih (n / 10) (by omega) (by omega)
        refine ⟨c, cs ++ [Nat.digitChar (n % 10)], ?_, hne⟩
        rw [digits, Nat.toDigits_of_base_le (by decide) (Nat.le_of_not_lt hn), ← digits, hc]
        rfl
  obtain ⟨c, cs, hc, hne⟩ := hhead
  refine ⟨c, cs, hc, hne, isDigit_of_mem_digits (n := n) (by simp [hc]), ?_⟩
  intro d hd
  exact isDigit_of_mem_digits (n := n) (by simp [hc, hd])

lemma splitSign_of_isDigit {c : Char} (h : isDigit c = true) (cs : List Char) :
    splitSign (c :: cs) = (false, c :: cs) := by
  unfold splitSign
  split
  · next he => exact absurd h (by rw [(List.cons.inj he).1]; decide)
  · next he => exact absurd h (by rw [(List.cons.inj he).1]; decide)
  · rfl

lemma splitSign_digits (n : Nat) : splitSign (digits n) = (false, digits n) := by
  cases hd : digits n with
  | nil => exact absurd hd (digits_ne_nil n)
  | cons c cs => exact splitSign_of_isDigit (isDigit_of_mem_digits (n := n) (by simp [hd])) cs

theorem readInt?_intText (i : Int) : readInt? (intText i) = some i := by
  have hall : (digits i.natAbs).all isDigit = true :=
    List.all_eq_true.mpr fun _ hc => isDigit_of_mem_digits hc
  have hne : (digits i.natAbs).isEmpty = false := by simpa using digits_ne_nil i.natAbs
  by_cases hi : i < 0
  · have hs : splitSign (intText i) = (true, digits i.natAbs) := by simp [intText, hi, splitSign]
    simp only [readInt?, hs, hne, hall, ofDigits_digits, Bool.not_true, Bool.or_false,
      Bool.false_eq_true, if_false, if_true]
    congr 1
    omega
  · have hs : splitSign (intText i) = (false, digits i.natAbs) := by
      simp only [intText, hi, if_false, List.nil_append, splitSign_digits]
    simp only [readInt?, hs, hne, hall, ofDigits_digits, Bool.not_true, Bool.or_false,
      Bool.false_eq_true, if_false]
    congr 1
    omega

lemma readInt?_plus (i : Int) :
    readInt? ((if i < 0 then ['-'] else ['+']) ++ digits i.natAbs) = some i := by
  have hread := readInt?_intText i
  by_cases hi : i < 0
  · rw [intText, if_pos hi] at hread
    rwa [if_pos hi]
  · rw [intText, if_neg hi] at hread
    rw [if_neg hi, ← hread]
    have hplus : splitSign ('+' :: digits i.natAbs) = (false, digits i.natAbs) := rfl
    simp only [readInt?, List.nil_append, List.singleton_append, hplus, splitSign_digits]

end Numeral

end PushGateway
