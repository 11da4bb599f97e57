import Mathlib.Data.Rat.Floor
import PushGateway.Proofs.ValueText

/-! The digits that are written for a magnitude denote it, they are seventeen at most, and no fewer
digits denote it. The decimal of seventeen digits next to a magnitude is so near to it that no other
magnitude is as near; and if any decimal with a given last place denotes the magnitude, then so does
one of the two next to it. -/

namespace PushGateway

namespace Decimal

open Binary64

section Scaled

variable {m n c : Nat} {e : Int}

lemma digitCount_le_iff (n k : Nat) : digitCount n ≤ k ↔ n < 10 ^ k := by
  unfold digitCount
  split_ifs with hn
  · rw [hn]
    exact iff_of_true (Nat.zero_le k) (Nat.pow_pos (by decide))
  · by_cases hk : k = 0
    · have hpos : 0 < (Nat.toDigits 10 n).length := Nat.length_toDigits_pos
      rw [hk, Nat.pow_zero]
      omega
    · exact Nat.length_toDigits_le_iff (by decide) (Nat.pos_of_ne_zero hk)

lemma digitCount_spec (h : n ≠ 0) : ∃ k, digitCount n = k + 1 ∧ 10 ^ k ≤ n ∧ n < 10 ^ (k + 1) := by
  have hpos : digitCount n ≠ 0 := by
    intro hzero
    have hlt := (digitCount_le_iff n 0).mp (Nat.le_of_eq hzero)
    omega
  obtain ⟨k, hk⟩ := Nat.exists_eq_succ_of_ne_zero hpos
  refine ⟨k, hk, ?_, (digitCount_le_iff n _).mp (Nat.le_of_eq hk)⟩
  rw [← Nat.not_lt, ← digitCount_le_iff, hk]
  exact Nat.not_succ_le_self k

lemma scaled_ofNat (u k : Nat) : scaled u (.ofNat k) = (u, 10 ^ k * unitsPerOne) := rfl

lemma scaled_negSucc (u k : Nat) : scaled u (.negSucc k) = (u * 10 ^ (k + 1), unitsPerOne) := rfl

lemma scaled_pos (u : Nat) (e : Int) : 0 < (scaled u e).2 := by
  have hone := unitsPerOne_pos
  cases e with
  | ofNat k =>
    rw [scaled_ofNat]
    exact Nat.mul_pos (Nat.pow_pos (by decide)) hone
  | negSucc k =>
    rw [scaled_negSucc]
    dsimp only
    exact hone

/-- The quotient is the value of the magnitude in units of the last place. -/
lemma scaled_eq (m : Nat) (e : Int) :
    ((scaled (units m) e).1 : Rat) * 10 ^ e = value m * (scaled (units m) e).2 := by
  have hone := unitsPerOne_cast_pos.ne'
  unfold value
  cases e with
  | ofNat k =>
    rw [scaled_ofNat]
    push_cast
    rw [Int.ofNat_eq_natCast, zpow_natCast]
    field_simp
  | negSucc k =>
    rw [scaled_negSucc]
    push_cast
    rw [zpow_negSucc]
    field_simp

lemma scaled_le_iff :
    c * (scaled (units m) e).2 ≤ (scaled (units m) e).1 ↔ decimal c e ≤ value m := by
  have hden : (0 : Rat) < (scaled (units m) e).2 := Nat.cast_pos.mpr (scaled_pos _ _)
  have hten : (0 : Rat) < 10 ^ e := zpow_pos (by decide) e
  rw [← mul_le_mul_iff_of_pos_right hden, ← scaled_eq, decimal, mul_right_comm,
    mul_le_mul_iff_of_pos_right hten, ← Nat.cast_mul, Nat.cast_le]

lemma le_scaled_iff :
    (scaled (units m) e).1 ≤ c * (scaled (units m) e).2 ↔ value m ≤ decimal c e := by
  have hden : (0 : Rat) < (scaled (units m) e).2 := Nat.cast_pos.mpr (scaled_pos _ _)
  have hten : (0 : Rat) < 10 ^ e := zpow_pos (by decide) e
  rw [← mul_le_mul_iff_of_pos_right hden, ← scaled_eq, decimal, mul_right_comm,
    mul_le_mul_iff_of_pos_right hten, ← Nat.cast_mul, Nat.cast_le]

end Scaled

section Leading

variable {m : Nat}

/-- The leading digit stands before or after the point. -/
lemma leadingExponent_bounds (hm0 : m ≠ 0) : decimal 1 (leadingExponent (units m)) ≤ value m ∧
    value m < decimal 1 (leadingExponent (units m) + 1) := by
  have hu := units_ne_zero hm0
  have hone := unitsPerOne_pos
  have hone' := unitsPerOne_cast_pos
  unfold leadingExponent decimal value
  generalize units m = u at *
  generalize unitsPerOne = one at *
  rw [Nat.cast_one, one_mul, one_mul]
  split_ifs with hle
  · obtain ⟨k, hcount, hlow, hhigh⟩ := digitCount_spec (Nat.div_ne_zero_iff.mpr ⟨hone.ne', hle⟩)
    rw [Nat.le_div_iff_mul_le hone] at hlow
    rw [Nat.div_lt_iff_lt_mul hone] at hhigh
    rw [hcount, Int.sub_add_cancel, Nat.cast_succ, Int.add_sub_cancel, le_div_iff₀ hone',
      div_lt_iff₀ hone']
    exact ⟨by exact_mod_cast hlow, by exact_mod_cast hhigh⟩
  · have hu0 : 0 < u := Nat.pos_of_ne_zero hu
    have hne : (one - 1) / u ≠ 0 := Nat.div_ne_zero_iff.mpr ⟨hu, by omega⟩
    obtain ⟨k, hcount, hlow, hhigh⟩ := digitCount_spec hne
    rw [Nat.le_div_iff_mul_le hu0] at hlow
    rw [Nat.div_lt_iff_lt_mul hu0] at hhigh
    have hlow' : 10 ^ k * u < one := by omega
    have hhigh' : one ≤ 10 ^ (k + 1) * u := by omega
    have hexponent : -((k + 1 : Nat) : Int) + 1 = -(k : Int) := by omega
    rw [hcount, hexponent, zpow_neg, zpow_neg, zpow_natCast, zpow_natCast, le_div_iff₀ hone',
      div_lt_iff₀ hone', ← div_eq_inv_mul, ← div_eq_inv_mul, div_le_iff₀' (pow_pos (by decide) _),
      lt_div_iff₀' (pow_pos (by decide) _)]
    exact ⟨by exact_mod_cast hhigh', by exact_mod_cast hlow'⟩

/-- In units of the place `n` below the leading digit the whole part has `n + 1` digits. -/
lemma scaled_bounds (hm0 : m ≠ 0) (n : Nat) :
    10 ^ n * (scaled (units m) (leadingExponent (units m) - n)).2
      ≤ (scaled (units m) (leadingExponent (units m) - n)).1 ∧
    (scaled (units m) (leadingExponent (units m) - n)).1
      < 10 ^ (n + 1) * (scaled (units m) (leadingExponent (units m) - n)).2 := by
  obtain ⟨hlow, hhigh⟩ := leadingExponent_bounds hm0
  generalize leadingExponent (units m) = l at *
  have hlow' : decimal (10 ^ n) (l - n) = decimal 1 l := by
    rw [← Nat.one_mul (10 ^ n), decimal_mul_pow, Int.sub_add_cancel]
  have hhigh' : decimal (10 ^ (n + 1)) (l - n) = decimal 1 (l + 1) := by
    rw [← Nat.one_mul (10 ^ (n + 1)), decimal_mul_pow]
    congr 1
    omega
  refine ⟨scaled_le_iff.mpr (hlow'.trans_le hlow), ?_⟩
  rw [← Nat.not_le, scaled_le_iff, hhigh', not_le]
  exact hhigh

end Leading

section Hits

variable {m c : Nat} {e : Int}

/-- If a decimal is read as a magnitude, so is one of the two next to it with the same
last place. -/
lemma exists_hit? (tie : Tie) (hm : m < infinityBits) (hread : nearestDecimal c e = m) :
    ∃ d, hit? tie m e = some d := by
  have hlower : ((scaled (units m) e).1 / (scaled (units m) e).2) * (scaled (units m) e).2
      ≤ (scaled (units m) e).1 := Nat.div_mul_le_self _ _
  have hupper : (scaled (units m) e).1
      ≤ ((scaled (units m) e).1 / (scaled (units m) e).2 + 1) * (scaled (units m) e).2 :=
    Nat.le_of_lt (Nat.lt_mul_of_div_lt (Nat.lt_succ_self _) (scaled_pos _ _))
  have hlower := nearestDecimal_le_of_value hm.le (scaled_le_iff.mp hlower)
  have hupper := le_nearestDecimal_of_value hm.le (le_scaled_iff.mp hupper)
  have hnext : nearestDecimal ((scaled (units m) e).1 / (scaled (units m) e).2) e = m ∨
      nearestDecimal ((scaled (units m) e).1 / (scaled (units m) e).2 + 1) e = m := by
    rcases Nat.lt_or_ge ((scaled (units m) e).1 / (scaled (units m) e).2) c with hc | hc
    · have hle := nearestDecimal_mono (decimal_le_decimal (Nat.succ_le_of_lt hc) e)
      rw [hread] at hle
      exact .inr (Nat.le_antisymm hle hupper)
    · have hle := nearestDecimal_mono (decimal_le_decimal hc e)
      rw [hread] at hle
      exact .inl (Nat.le_antisymm hlower hle)
  unfold hit?
  dsimp only
  split
  all_goals
    simp only [Digits.magnitude_eq]
    split_ifs with hfirst hsecond
    · exact ⟨_, rfl⟩
    · exact ⟨_, rfl⟩
    · exact absurd hnext (by simp [hfirst, hsecond])

/-- Some decimal with a given last place is off by half a unit of it at most. -/
lemma exists_decimal_near {x : Rat} (hx : 0 ≤ x) (e : Int) :
    ∃ c, 2 * decimal c e ≤ 2 * x + 10 ^ e ∧ 2 * x ≤ 2 * decimal c e + 10 ^ e := by
  have hten : (0 : Rat) < 10 ^ e := zpow_pos (by decide) e
  have hpos : 0 ≤ x / 10 ^ e + 1 / 2 := add_nonneg (div_nonneg hx hten.le) one_half_pos.le
  have hlow := mul_le_mul_of_nonneg_right (Nat.floor_le hpos) hten.le
  have hhigh := mul_lt_mul_of_pos_right (Nat.lt_floor_add_one (x / 10 ^ e + 1 / 2)) hten
  rw [add_mul, div_mul_cancel₀ x hten.ne'] at hlow hhigh
  refine ⟨⌊x / 10 ^ e + 1 / 2⌋₊, ?_, ?_⟩
  · unfold decimal
    linarith
  · unfold decimal
    linarith

/-- Half a unit of the seventeenth digit is too little for another magnitude to be as near. -/
lemma exists_hit?_seventeen (tie : Tie) (hm0 : m ≠ 0) (hm : m < infinityBits) :
    ∃ d, hit? tie m (leadingExponent (units m) - (16 : Nat)) = some d := by
  have hlow := (leadingExponent_bounds hm0).1
  rw [← Int.sub_add_cancel (leadingExponent _) (16 : Nat), ← decimal_mul_pow] at hlow
  generalize leadingExponent (units m) - (16 : Nat) = e at *
  have hten : (0 : Rat) < 10 ^ e := zpow_pos (by decide) e
  rw [decimal, Nat.one_mul, Nat.cast_pow, Nat.cast_ofNat] at hlow
  obtain ⟨c, hc, hc'⟩ := exists_decimal_near (show 0 ≤ value m by linarith) e
  refine exists_hit? (c := c) tie hm (isNearest_decimal_iff.mp (isNearest_of_close hm.le ?_ ?_))
  · linarith
  · linarith

end Hits

/-- The first hit among the numbers below a bound is no later than a known one. -/
lemma findSome?_range {A : Type} {f : Nat → Option A} {n i : Nat} {a : A} (hi : i < n)
    (h : f i = some a) : ∃ j b, j ≤ i ∧ f j = some b ∧ (List.range n).findSome? f = some b := by
  have hmem : i ∈ List.range n := List.mem_range.mpr hi
  obtain ⟨b, hb⟩ : ∃ b, (List.range n).findSome? f = some b := by
    rw [← Option.ne_none_iff_exists', Ne, List.findSome?_eq_none_iff]
    intro hnone
    rw [hnone i hmem] at h
    cases h
  obtain ⟨first, j, rest, hrange, hj, hfirst⟩ := List.findSome?_eq_some_iff.mp hb
  have hsorted : (first ++ j :: rest).Pairwise (· < ·) := hrange ▸ List.pairwise_lt_range
  refine ⟨j, b, ?_, hj, hb⟩
  rw [hrange, List.mem_append, List.mem_cons] at hmem
  rcases hmem with hm | rfl | hm
  · rw [hfirst i hm] at h
    cases h
  · exact Nat.le_refl _
  · have hrest := (List.pairwise_append.mp hsorted).2.1
    exact Nat.le_of_lt (List.rel_of_pairwise_cons hrest hm)

section Shortest

variable {m c : Nat} {e : Int} {tie : Tie} {d : Digits}

lemma coefficient_hit?_le (hd : hit? tie m e = some d) :
    d.coefficient ≤ (scaled (units m) e).1 / (scaled (units m) e).2 + 1 := by
  unfold hit? at hd
  dsimp only at hd
  split at hd
  all_goals
    dsimp only at hd
    split_ifs at hd
    all_goals
      obtain rfl := Option.some.inj hd
      dsimp only
      omega

lemma coefficient_trim_le (fuel : Nat) (d : Digits) :
    (d.trim fuel).coefficient ≤ d.coefficient := by
  induction fuel generalizing d with
  | zero => exact Nat.le_refl _
  | succ fuel ih =>
    rw [Digits.trim]
    split_ifs
    · exact (ih _).trans (Nat.div_le_self _ _)
    · exact Nat.le_refl _

lemma coefficient_trim_pow {k fuel : Nat} (h : k ≤ fuel) (e : Int) :
    (Digits.trim fuel ⟨10 ^ k, e⟩).coefficient = 1 := by
  induction fuel generalizing k e with
  | zero =>
    obtain rfl := Nat.le_zero.mp h
    rfl
  | succ fuel ih =>
    rw [Digits.trim]
    cases k with
    | zero => rfl
    | succ k =>
      have hmod : 10 ^ (k + 1) % 10 = 0 := by
        rw [Nat.pow_succ]
        exact Nat.mul_mod_left _ _
      have hdiv : 10 ^ (k + 1) / 10 = 10 ^ k := by
        rw [Nat.pow_succ, Nat.mul_div_cancel _ (by decide)]
      rw [if_pos hmod, hdiv]
      exact ih (Nat.le_of_succ_le_succ h) _

/-- A power of ten has one digit more, but only zeros after the first. -/
lemma digitCount_trim_le {k : Nat} (hk : 0 < k) (h : d.coefficient ≤ 10 ^ k) :
    digitCount (d.trim (digitCount d.coefficient)).coefficient ≤ k := by
  obtain ⟨c, e⟩ := d
  rcases Nat.lt_or_eq_of_le h with hlt | heq
  · rw [digitCount_le_iff]
    exact Nat.lt_of_le_of_lt (coefficient_trim_le _ _) hlt
  · dsimp only at heq ⊢
    subst heq
    have hcount : k ≤ digitCount (10 ^ k) := by
      by_contra hlt
      have hpow := (digitCount_le_iff (10 ^ k) (k - 1)).mp (by omega)
      exact absurd hpow (Nat.not_lt.mpr (Nat.pow_le_pow_right (by decide) (by omega)))
    rw [coefficient_trim_pow hcount e]
    exact hk

/-- The first place with a hit is the one that counts. -/
lemma digitCount_shortest_le_of_hit (hm0 : m ≠ 0) {i : Nat} (hi : i < 17)
    (hhit : hit? tie m (leadingExponent (units m) - i) = some d) :
    digitCount (shortest tie m).coefficient ≤ i + 1 := by
  obtain ⟨j, d', hji, hj, hfound⟩ := findSome?_range
    (f := fun n : Nat => hit? tie m (leadingExponent (units m) - n)) hi hhit
  have hdiv := (Nat.div_lt_iff_lt_mul (scaled_pos _ _)).mpr (scaled_bounds hm0 j).2
  have hle : d'.coefficient ≤ 10 ^ (j + 1) := (coefficient_hit?_le hj).trans hdiv
  have hne : d'.coefficient ≠ 0 := by
    apply coefficient_ne_zero_of_magnitude
    rwa [hit?_magnitude hj]
  unfold shortest
  simp only [hfound, Option.getD_some, if_neg hne]
  exact (digitCount_trim_le (Nat.succ_pos j) hle).trans (Nat.succ_le_succ hji)

theorem digitCount_shortest_le_seventeen (tie : Tie) (hm0 : m ≠ 0) (hm : m < infinityBits) :
    digitCount (shortest tie m).coefficient ≤ 17 := by
  obtain ⟨d, hd⟩ := exists_hit?_seventeen tie hm0 hm
  exact digitCount_shortest_le_of_hit hm0 (by decide) hd

/-- No decimal of fewer digits is read as the magnitude. -/
theorem digitCount_shortest_le (tie : Tie) (hm0 : m ≠ 0) (hm : m < infinityBits)
    (hread : nearestDecimal c e = m) : digitCount (shortest tie m).coefficient ≤ digitCount c := by
  have hc0 : c ≠ 0 := by
    rintro rfl
    rw [nearestDecimal_zero] at hread
    exact hm0 hread.symm
  obtain ⟨k, hk, hlow, hhigh⟩ := digitCount_spec hc0
  rw [hk]
  -- the powers of ten around the decimal
  have hlow' : nearestDecimal 1 (e + k) ≤ m := by
    rw [← hread, ← nearestDecimal_mul_pow, Nat.one_mul]
    exact nearestDecimal_mono (decimal_le_decimal hlow e)
  have hhigh' : m ≤ nearestDecimal 1 (e + (k + 1 : Nat)) := by
    rw [← hread, ← nearestDecimal_mul_pow, Nat.one_mul]
    exact nearestDecimal_mono (decimal_le_decimal hhigh.le e)
  -- where the leading digits differ, one digit is enough
  have hone (c' : Nat) (hread' : nearestDecimal c' (leadingExponent (units m)) = m) :
      digitCount (shortest tie m).coefficient ≤ k + 1 := by
    rw [← Int.sub_zero (leadingExponent _)] at hread'
    obtain ⟨d, hd⟩ := exists_hit? tie hm hread'
    exact (digitCount_shortest_le_of_hit (i := 0) hm0 (by decide) hd).trans (by omega)
  obtain ⟨hbelow, habove⟩ := leadingExponent_bounds hm0
  rcases lt_trichotomy (leadingExponent (units m)) (e + k) with hlt | heq | hgt
  · have hten := le_nearestDecimal_of_value hm.le habove.le
    have hten' := (nearestDecimal_mono (decimal_one_le (Int.add_one_le_of_lt hlt))).trans hlow'
    refine hone (1 * 10 ^ 1) ?_
    rw [nearestDecimal_mul_pow]
    exact Nat.le_antisymm hten' hten
  · by_cases hk16 : k < 17
    · have hplace : e = leadingExponent (units m) - k := by omega
      rw [hplace] at hread
      obtain ⟨d, hd⟩ := exists_hit? tie hm hread
      exact digitCount_shortest_le_of_hit hm0 hk16 hd
    · exact (digitCount_shortest_le_seventeen tie hm0 hm).trans (by omega)
  · have hfirst := nearestDecimal_le_of_value hm.le hbelow
    refine hone 1 (Nat.le_antisymm hfirst (hhigh'.trans (nearestDecimal_mono (decimal_one_le ?_))))
    omega

end Shortest

end Decimal

end PushGateway
