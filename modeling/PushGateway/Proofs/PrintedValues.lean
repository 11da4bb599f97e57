import PushGateway.Proofs.ShortestDigits

/-! The text of a value is that of the shortest decimal to which the value is nearest, and so it is
read back as this value. Two values have one text only if they are equal or both NaN. -/

namespace PushGateway

open Binary64 Decimal

namespace Numeral

/-- A numeral is rounded to the nearest magnitude, and it keeps its sign. -/
lemma isNearest_toBinary64 (n : Numeral) : n.toBinary64.negative = n.negative ∧
    IsNearest (decimal n.coefficient n.exponent) n.toBinary64.magnitude := by
  have hlt : nearestDecimal n.coefficient n.exponent < signBit :=
    Nat.lt_of_le_of_lt (nearestDecimal_le _ _) (by decide)
  unfold toBinary64
  refine ⟨?_, isNearest_decimal_iff.mpr (magnitude_ofDecimal _ _ _).symm⟩
  rw [ofDecimal_eq]
  exact negative_ofMagnitude n.negative hlt

end Numeral

namespace Exposition

section Texts

variable {x y : Binary64}

lemma isNaN_collapse (x : Binary64) : x.collapse.isNaN = x.isNaN := by
  unfold Binary64.collapse
  split_ifs with hx
  · rw [hx]
    rfl
  · rfl

lemma collapse_of_not_isNaN (hx : x.isNaN ≠ true) : x.collapse = x := if_neg hx

lemma valueText_eq_iff : valueText x = valueText y ↔ x = y ∨ x.isNaN = true ∧ y.isNaN = true := by
  constructor
  · intro h
    have hread := congrArg readValue? h
    rw [readValue?_valueText, readValue?_valueText, Option.some.injEq] at hread
    have hnan : x.isNaN = y.isNaN := by rw [← isNaN_collapse x, hread, isNaN_collapse]
    by_cases hx : x.isNaN = true
    · exact .inr ⟨hx, hnan ▸ hx⟩
    · rw [collapse_of_not_isNaN hx, collapse_of_not_isNaN (hnan ▸ hx)] at hread
      exact .inl hread
  · rintro (rfl | ⟨hx, hy⟩)
    · rfl
    · rw [valueText, valueText, if_pos hx, if_pos hy]

/-- Finite values that are not zero are written in one of the two layouts. -/
lemma valueText_of_isFinite (hx : x.isFinite = true) (h0 : x.magnitude ≠ 0) :
    valueText x = (if x.negative then ['-'] else []) ++
      if isScientific x.magnitude then scientific [] (shortest .upper x.magnitude)
      else positional [] (shortest .upper x.magnitude) := by
  have hnan : ¬x.isNaN = true := by
    intro hn
    rw [Json.isFinite_of_isNaN hn] at hx
    cases hx
  have hinf : x ≠ infinity := by
    rintro rfl
    exact absurd hx (by decide)
  have hneg : x ≠ negInfinity := by
    rintro rfl
    exact absurd hx (by decide)
  rw [valueText, if_neg hnan, if_neg hinf, if_neg hneg, valueDigits, if_neg h0]

end Texts

/-- A value is read back from its text, bit for bit unless it is a NaN, and no other value has this
text. The digits are the fewest of a decimal to which the value is nearest, and what is read for any
decimal is the value nearest to it. -/
theorem printed_values_read_back :
    (∀ x : Binary64, readValue? (valueText x) = some (if x.isNaN then nan else x)) ∧
    (∀ x y : Binary64, valueText x = valueText y ↔ x = y ∨ x.isNaN = true ∧ y.isNaN = true) ∧
    (∀ x : Binary64, x.isFinite = true → x.magnitude ≠ 0 →
      let d := shortest .upper x.magnitude
      (valueText x = (if x.negative then ['-'] else []) ++
        if isScientific x.magnitude then scientific [] d else positional [] d) ∧
      IsNearest (decimal d.coefficient d.exponent) x.magnitude ∧
      ∀ c e, IsNearest (decimal c e) x.magnitude → digitCount d.coefficient ≤ digitCount c) ∧
    ∀ n : Numeral, n.toBinary64.negative = n.negative ∧
      IsNearest (decimal n.coefficient n.exponent) n.toBinary64.magnitude := by
  refine ⟨readValue?_valueText, fun _ _ => valueText_eq_iff, fun x hx h0 => ?_,
    Numeral.isNearest_toBinary64⟩
  have hm : x.magnitude < infinityBits := of_decide_eq_true hx
  have hread := magnitude_shortest .upper hm
  rw [Digits.magnitude_eq] at hread
  refine ⟨valueText_of_isFinite hx h0, isNearest_decimal_iff.mpr hread, fun c e hc => ?_⟩
  exact digitCount_shortest_le .upper h0 hm (isNearest_decimal_iff.mp hc)

/-- The two bounds between the layouts, and the last value below each of them. -/
theorem printed_values_read_back_bounds :
    let high : Binary64 := ⟨0x444B1AE4D6E2EF4F⟩
    let low : Binary64 := ⟨0x3EB0C6F7A0B5ED8C⟩
    readValue? "999999999999999900000".toList = some high ∧
      readValue? "1e21".toList = some ⟨0x444B1AE4D6E2EF50⟩ ∧
      readValue? "9.999999999999997e-7".toList = some low ∧
      readValue? "0.000001".toList = some ⟨0x3EB0C6F7A0B5ED8D⟩ ∧
      (∀ c e, IsNearest (decimal c e) high.magnitude → 16 ≤ digitCount c) ∧
      ∀ c e, IsNearest (decimal c e) low.magnitude → 16 ≤ digitCount c := by
  intro high low
  obtain ⟨hread, -, hdigits, -⟩ := printed_values_read_back
  have htext : valueText high = "999999999999999900000".toList ∧
      valueText ⟨0x444B1AE4D6E2EF50⟩ = "1e21".toList ∧
      valueText low = "9.999999999999997e-7".toList ∧
      valueText ⟨0x3EB0C6F7A0B5ED8D⟩ = "0.000001".toList := by decide +kernel
  obtain ⟨hhigh, hhigh', hlow, hlow'⟩ := htext
  have hcount : digitCount (shortest .upper high.magnitude).coefficient = 16 ∧
      digitCount (shortest .upper low.magnitude).coefficient = 16 := by decide +kernel
  obtain ⟨-, -, hfewest⟩ := hdigits high (by decide) (by decide)
  obtain ⟨-, -, hfewest'⟩ := hdigits low (by decide) (by decide)
  refine ⟨?_, ?_, ?_, ?_, fun c e h => hcount.1 ▸ hfewest c e h,
    fun c e h => hcount.2 ▸ hfewest' c e h⟩
  · exact hhigh ▸ hread high
  · exact hhigh' ▸ hread _
  · exact hlow ▸ hread low
  · exact hlow' ▸ hread _

end Exposition

end PushGateway
