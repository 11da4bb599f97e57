import PushGateway.Proofs.NearestMagnitude

/-! What is read of a decimal is the magnitude nearest to the number that the decimal stands for,
and so it depends on this number only. The bounds at which a power of ten is not computed do not
show. -/

namespace PushGateway.Binary64

section Bits

lemma magnitude_ofMagnitude (negative : Bool) {m : Nat} (h : m < signBit) :
    (ofMagnitude negative m).magnitude = m := by
  unfold signBit at h
  cases negative with
  | true =>
    simp only [ofMagnitude, magnitude, signBit, if_true, UInt64.toNat_ofNat']
    omega
  | false =>
    simp only [ofMagnitude, magnitude, signBit, Bool.false_eq_true, if_false, UInt64.toNat_ofNat']
    omega

lemma ofMagnitude_magnitude (x : Binary64) : ofMagnitude x.negative x.magnitude = x := by
  obtain ⟨bits⟩ := x
  have hsign : signBit = 9223372036854775808 := rfl
  have hlt := bits.toNat_lt
  unfold ofMagnitude negative magnitude
  congr 1
  apply UInt64.toNat_inj.mp
  rw [UInt64.toNat_ofNat']
  by_cases h : signBit ≤ bits.toNat
  · simp only [h, decide_true, if_true]
    rw [hsign] at h ⊢
    omega
  · simp only [h, decide_false, Bool.false_eq_true, if_false]
    rw [hsign] at h ⊢
    omega

lemma negative_ofMagnitude (negative : Bool) {m : Nat} (h : m < signBit) :
    (ofMagnitude negative m).negative = negative := by
  unfold signBit at h
  cases negative with
  | true =>
    simp only [ofMagnitude, Binary64.negative, signBit, if_true, UInt64.toNat_ofNat',
      decide_eq_true_eq]
    omega
  | false =>
    simp only [ofMagnitude, Binary64.negative, signBit, Bool.false_eq_true, if_false,
      UInt64.toNat_ofNat', decide_eq_false_iff_not]
    omega

end Bits

/-- The magnitude nearest to a decimal, however large or small its exponent is. -/
def nearestDecimal (coefficient : Nat) : Int → Nat
  | .ofNat e => nearest (coefficient * 10 ^ e * unitsPerOne) 1
  | .negSucc e => nearest (coefficient * unitsPerOne) (10 ^ (e + 1))

/-- The number that a decimal stands for. -/
def decimal (coefficient : Nat) (exponent : Int) : Rat := coefficient * 10 ^ exponent

section Decimals

variable {c c' m : Nat} {e e' : Int}

lemma isNearest_nearestDecimal (c : Nat) (e : Int) :
    IsNearest (decimal c e) (nearestDecimal c e) := by
  have hone := unitsPerOne_cast_pos.ne'
  unfold nearestDecimal decimal
  cases e with
  | ofNat k =>
    have h := isNearest_nearest Nat.one_pos (c * 10 ^ k * unitsPerOne)
    rw [Nat.cast_mul, Nat.cast_one, div_one, mul_div_cancel_right₀ _ hone, Nat.cast_mul,
      Nat.cast_pow, Nat.cast_ofNat] at h
    exact h
  | negSucc k =>
    have hten : 0 < 10 ^ (k + 1) := Nat.pow_pos (by decide)
    have h := isNearest_nearest hten (c * unitsPerOne)
    rw [Nat.cast_mul, div_right_comm, mul_div_cancel_right₀ _ hone, Nat.cast_pow,
      Nat.cast_ofNat, div_eq_mul_inv] at h
    exact h

theorem isNearest_decimal_iff : IsNearest (decimal c e) m ↔ nearestDecimal c e = m :=
  ⟨fun h => (isNearest_nearestDecimal c e).unique h, fun h => h ▸ isNearest_nearestDecimal c e⟩

lemma nearestDecimal_le (c : Nat) (e : Int) : nearestDecimal c e ≤ infinityBits :=
  (isNearest_nearestDecimal c e).le

lemma nearestDecimal_mono (h : decimal c e ≤ decimal c' e') :
    nearestDecimal c e ≤ nearestDecimal c' e' :=
  (isNearest_nearestDecimal c e).mono (isNearest_nearestDecimal c' e') h

lemma nearestDecimal_congr (h : decimal c e = decimal c' e') :
    nearestDecimal c e = nearestDecimal c' e' :=
  Nat.le_antisymm (nearestDecimal_mono h.le) (nearestDecimal_mono h.ge)

lemma nearestDecimal_le_of_value (hm : m ≤ infinityBits) (h : decimal c e ≤ value m) :
    nearestDecimal c e ≤ m :=
  (isNearest_nearestDecimal c e).mono (isNearest_value hm) h

lemma le_nearestDecimal_of_value (hm : m ≤ infinityBits) (h : value m ≤ decimal c e) :
    m ≤ nearestDecimal c e :=
  (isNearest_value hm).mono (isNearest_nearestDecimal c e) h

lemma nearestDecimal_of_value (hm : m ≤ infinityBits) (h : decimal c e = value m) :
    nearestDecimal c e = m :=
  Nat.le_antisymm (nearestDecimal_le_of_value hm h.le) (le_nearestDecimal_of_value hm h.ge)

lemma decimal_le_decimal (h : c ≤ c') (e : Int) : decimal c e ≤ decimal c' e :=
  mul_le_mul_of_nonneg_right (Nat.cast_le.mpr h) (zpow_pos (by decide) e).le

lemma decimal_one_le (h : e ≤ e') : decimal 1 e ≤ decimal 1 e' :=
  mul_le_mul_of_nonneg_left (zpow_le_zpow_right₀ (by decide) h) (by decide)

lemma decimal_mul_pow (c k : Nat) (e : Int) : decimal (c * 10 ^ k) e = decimal c (e + k) := by
  rw [decimal, decimal, zpow_add₀ (by decide), zpow_natCast]
  push_cast
  ring

lemma nearestDecimal_mul_pow (c k : Nat) (e : Int) :
    nearestDecimal (c * 10 ^ k) e = nearestDecimal c (e + k) :=
  nearestDecimal_congr (decimal_mul_pow c k e)

/-- A zero at the end of the coefficient is one more in the exponent. -/
lemma nearestDecimal_ten_mul (c : Nat) (e : Int) :
    nearestDecimal (10 * c) e = nearestDecimal c (e + 1) := by
  rw [Nat.mul_comm]
  exact nearestDecimal_mul_pow c 1 e

end Decimals

section Bounds

lemma nearest_high {num den n : Nat} (hn : 2099 ≤ n) (h : 2 ^ n ≤ num / den) :
    nearest num den = infinityBits := by
  have hne : num / den ≠ 0 := by
    intro h0
    rw [h0] at h
    exact absurd h (Nat.not_le.mpr (Nat.pow_pos (by decide)))
  have hlog := (Nat.le_log2 hne).mpr h
  have hbits : infinityBits ≤ ((num / den).log2 - 52) * hidden := by
    unfold infinityBits hidden
    omega
  refine Nat.min_eq_left (hbits.trans ?_)
  rw [Nat.add_assoc]
  exact Nat.le_add_right _ _

lemma nearest_low {num den : Nat} (h : 2 * num < den) : nearest num den = 0 := by
  have hdiv : num / den = 0 := Nat.div_eq_of_lt (by omega)
  have hmod : num % den = num := Nat.mod_eq_of_lt (by omega)
  have hnot : ¬ den < 2 * num := by omega
  have hne : (den == 2 * num) = false := beq_eq_false_iff_ne.mpr (by omega)
  simp [nearest, hdiv, hmod, hnot, hne, Nat.log2_zero]

lemma two_pow_le_ten_pow (n : Nat) : 2 ^ (3 * n) ≤ 10 ^ n := by
  rw [Nat.pow_mul]
  exact Nat.pow_le_pow_left (by decide) n

lemma nearestDecimal_high {c : Nat} {e : Int} (hc : c ≠ 0) (h : 400 < e) :
    nearestDecimal c e = infinityBits := by
  obtain ⟨n, rfl⟩ := Int.eq_ofNat_of_zero_le (show 0 ≤ e by omega)
  obtain ⟨u, hu, hunits⟩ := exists_unitsPerOne_eq
  refine nearest_high (show 2099 ≤ 3 * n + u by omega) ?_
  rw [Nat.div_one, hunits, Nat.pow_eq, Nat.pow_add]
  refine Nat.mul_le_mul_right _ ((two_pow_le_ten_pow n).trans ?_)
  exact Nat.le_mul_of_pos_left _ (Nat.pos_of_ne_zero hc)

lemma nearestDecimal_low {c : Nat} {e : Int} (hc : c ≠ 0)
    (h : e + (c.log2 + 1 : Nat) < -400) : nearestDecimal c e = 0 := by
  obtain ⟨n, rfl⟩ := Int.eq_negSucc_of_lt_zero (show e < 0 by omega)
  obtain ⟨u, hu, hunits⟩ := exists_unitsPerOne_eq
  refine nearest_low ?_
  have hlt : c < 2 ^ (c.log2 + 1) := (Nat.log2_lt hc).mp (Nat.lt_succ_self _)
  rw [hunits, Nat.pow_eq]
  calc 2 * (c * 2 ^ u) < 2 * (2 ^ (c.log2 + 1) * 2 ^ u) := by
        refine Nat.mul_lt_mul_of_pos_left ?_ (by decide)
        exact Nat.mul_lt_mul_of_pos_right hlt (Nat.pow_pos (by decide))
    _ = 2 ^ (1 + (c.log2 + 1 + u)) := by rw [← Nat.pow_add, Nat.pow_add 2 1, Nat.pow_one]
    _ ≤ 2 ^ (3 * (n + 1)) := Nat.pow_le_pow_right (by decide) (by omega)
    _ ≤ 10 ^ (n + 1) := two_pow_le_ten_pow _

lemma nearestDecimal_zero (e : Int) : nearestDecimal 0 e = 0 := by
  cases e <;> simp [nearestDecimal, nearest_low]

lemma ofDecimal_eq (negative : Bool) (c : Nat) (e : Int) :
    ofDecimal negative c e = ofMagnitude negative (nearestDecimal c e) := by
  unfold ofDecimal
  congr 1
  split_ifs with hc hhigh hlow
  · subst hc
    exact (nearestDecimal_zero e).symm
  · exact (nearestDecimal_high hc hhigh).symm
  · exact (nearestDecimal_low hc hlow).symm
  · cases e <;> rfl

lemma magnitude_ofDecimal (negative : Bool) (c : Nat) (e : Int) :
    (ofDecimal negative c e).magnitude = nearestDecimal c e := by
  rw [ofDecimal_eq]
  exact magnitude_ofMagnitude negative (Nat.lt_of_le_of_lt (nearestDecimal_le c e) (by decide))

end Bounds

end PushGateway.Binary64
