import PushGateway.Json.Number
import PushGateway.Proofs.JsonLiterals

/-! The numbers that are written follow the grammar of JSON, and whole numbers are read back. -/

namespace PushGateway

namespace Decimal

lemma coefficient_ne_zero_of_magnitude {d : Digits} (h : d.magnitude ≠ 0) : d.coefficient ≠ 0 := by
  intro hc
  apply h
  simp [Digits.magnitude, Binary64.ofDecimal, hc, Binary64.ofMagnitude, Binary64.magnitude]

lemma hit?_magnitude {tie : Tie} {m : Nat} {e : Int} {d : Digits} (h : hit? tie m e = some d) :
    d.magnitude = m := by
  unfold hit? at h
  dsimp only at h
  split at h <;> dsimp only at h
  all_goals
    split_ifs at h with h₁ h₂
    · rwa [← Option.some.inj h]
    · rwa [← Option.some.inj h]

lemma units_ne_zero {m : Nat} (h : m ≠ 0) : Binary64.units m ≠ 0 := by
  unfold Binary64.units
  split_ifs
  · exact h
  · have hhidden : 0 < Binary64.hidden := by decide
    have hpow : 0 < Nat.pow 2 (m / Binary64.hidden - 1) := Nat.pow_pos (by decide)
    exact Nat.mul_ne_zero (by omega) (by omega)

lemma exactDigits_ne_zero {m : Nat} (h : m ≠ 0) : (exactDigits m).coefficient ≠ 0 := by
  unfold exactDigits
  dsimp only
  generalize 1074 = n
  have hpow : 0 < Nat.pow 5 n := Nat.pow_pos (by decide)
  exact Nat.mul_ne_zero (units_ne_zero h) (by omega)

lemma trim_ne_zero (fuel : Nat) {d : Digits} (h : d.coefficient ≠ 0) :
    (d.trim fuel).coefficient ≠ 0 := by
  induction fuel generalizing d with
  | zero => exact h
  | succ fuel ih =>
    rw [Digits.trim]
    split_ifs with hc
    · apply ih
      dsimp only
      omega
    · exact h

lemma shortest_ne_zero (tie : Tie) {m : Nat} (h : m ≠ 0) : (shortest tie m).coefficient ≠ 0 := by
  unfold shortest
  dsimp only
  generalize hfound : (List.findSome? _ _ : Option Digits) = found
  have hne : (found.getD (exactDigits m)).coefficient ≠ 0 := by
    cases found with
    | none => exact exactDigits_ne_zero h
    | some d =>
      obtain ⟨n, -, hhit⟩ := List.exists_of_findSome?_eq_some hfound
      apply coefficient_ne_zero_of_magnitude
      rwa [Option.getD_some, hit?_magnitude hhit]
  rw [if_neg hne]
  exact trim_ne_zero _ hne

end Decimal

namespace Json

open Decimal

lemma isDigits_digits (n : Nat) : IsDigits (Numeral.digits n) :=
  ⟨Numeral.digits_ne_nil n, fun _ h => Numeral.isDigit_of_mem_digits h⟩

lemma isWhole_digits (n : Nat) : IsWhole (Numeral.digits n) := by
  by_cases h : n = 0
  · subst h
    exact .inl rfl
  · obtain ⟨c, cs, hcs, hne, -⟩ := Numeral.exists_digits_eq_cons h
    refine .inr ⟨isDigits_digits n, ?_⟩
    rw [hcs]
    exact fun he => hne (Option.some.inj he)

lemma isDigit_of_mem_zeros {n : Nat} {c : Char} (h : c ∈ zeros n) : Numeral.isDigit c = true := by
  rw [List.eq_of_mem_replicate h]
  decide

lemma isUnsigned_positional {d : Digits} (h : d.coefficient ≠ 0) :
    IsUnsigned (positional ['.', '0'] d) := by
  obtain ⟨c, cs, hcs, hc, hdigit, hall⟩ := Numeral.exists_digits_eq_cons h
  have hds : ∀ e ∈ c :: cs, Numeral.isDigit e = true := List.forall_mem_cons.mpr ⟨hdigit, hall⟩
  unfold positional
  rw [hcs]
  split
  · next e _ =>
    refine ⟨c :: cs ++ zeros e, ['.', '0'], [], by simp, ?_, ?_, .inl rfl⟩
    · refine .inr ⟨⟨by simp, ?_⟩, fun he => hc (Option.some.inj he)⟩
      intro x hx
      rcases List.mem_append.mp hx with hx | hx
      · exact hds x hx
      · exact isDigit_of_mem_zeros hx
    · exact .inr ⟨['0'], rfl, by simp, by simp; decide⟩
  · next e _ =>
    dsimp only
    split_ifs with hlt
    · generalize hk : (c :: cs).length - (e + 1) = k
      have hpos : 0 < k := by omega
      have hlen : k < (c :: cs).length := by omega
      refine ⟨(c :: cs).take k, '.' :: (c :: cs).drop k, [], by simp, ?_, ?_, .inl rfl⟩
      · refine .inr ⟨⟨?_, fun x hx => hds x (List.mem_of_mem_take hx)⟩, ?_⟩
        · exact List.ne_nil_of_length_pos (by rw [List.length_take]; omega)
        · rw [List.head?_take, if_neg (by omega)]
          exact fun he => hc (Option.some.inj he)
      · refine .inr ⟨_, rfl, ?_, fun x hx => hds x (List.mem_of_mem_drop hx)⟩
        exact List.ne_nil_of_length_pos (by rw [List.length_drop]; omega)
    · refine ⟨['0'], '.' :: (zeros (e + 1 - (c :: cs).length) ++ c :: cs), [], by simp,
        .inl rfl, .inr ⟨_, rfl, by simp, ?_⟩, .inl rfl⟩
      intro x hx
      rcases List.mem_append.mp hx with hx | hx
      · exact isDigit_of_mem_zeros hx
      · exact hds x hx

lemma isExponent_signed (e : Int) :
    IsExponent ('e' :: (if e < 0 then ['-'] else ['+']) ++ Numeral.digits e.natAbs) := by
  by_cases h : e < 0
  · rw [if_pos h]
    exact .inr ⟨'-', _, rfl, .inr rfl, isDigits_digits _⟩
  · rw [if_neg h]
    exact .inr ⟨'+', _, rfl, .inl rfl, isDigits_digits _⟩

lemma isUnsigned_scientific {d : Digits} (h : d.coefficient ≠ 0) :
    IsUnsigned (scientific ['+'] d) := by
  obtain ⟨c, cs, hcs, hc, hdigit, hall⟩ := Numeral.exists_digits_eq_cons h
  have hwhole : IsWhole [c] :=
    .inr ⟨⟨by simp, by simpa using hdigit⟩, fun he => hc (Option.some.inj he)⟩
  have hexponent := isExponent_signed (d.exponent + ((c :: cs).length - 1 : Nat))
  unfold scientific
  rw [hcs]
  cases cs with
  | nil => exact ⟨[c], [], _, rfl, hwhole, .inl rfl, hexponent⟩
  | cons b cs =>
    refine ⟨[c], '.' :: b :: cs, _, ?_, hwhole, .inr ⟨_, rfl, List.cons_ne_nil b cs, hall⟩,
      hexponent⟩
    exact List.append_assoc _ _ _

lemma isUnsigned_numberDigits (m : Nat) : IsUnsigned (numberDigits m) := by
  unfold numberDigits
  split_ifs with h
  · exact ⟨['0'], ['.', '0'], [], rfl, .inl rfl, .inr ⟨['0'], rfl, by simp, by simp; decide⟩,
      .inl rfl⟩
  · dsimp only
    split_ifs
    · exact isUnsigned_positional (shortest_ne_zero .even h)
    · exact isUnsigned_scientific (shortest_ne_zero .even h)

lemma isNumber_signed {ds : List Char} (negative : Bool) (h : IsUnsigned ds) :
    IsNumber ((if negative then ['-'] else []) ++ ds) := by
  cases negative with
  | false => exact ⟨ds, .inl rfl, h⟩
  | true => exact ⟨ds, .inr rfl, h⟩

lemma isNumber_intText (i : Int) : IsNumber (Numeral.intText i) := by
  have h : IsUnsigned (Numeral.digits i.natAbs) :=
    ⟨_, [], [], by simp, isWhole_digits i.natAbs, .inl rfl, .inl rfl⟩
  simpa [Numeral.intText] using isNumber_signed (decide (i < 0)) h

end Json

end PushGateway
