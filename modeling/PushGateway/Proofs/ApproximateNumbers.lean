import PushGateway.Proofs.RereadNumbers

/-! A reader of numbers that rounds the digits, then the power of ten, and then their product or
quotient. It gives back a number that was written with few digits, but not every number. -/

namespace PushGateway

namespace Binary64

/-- The quotient of numbers of which the second is not zero. -/
def div (x y : Binary64) : Binary64 :=
  ofMagnitude (x.negative != y.negative)
    (nearest (units x.magnitude * unitsPerOne) (units y.magnitude))

def powerOfTen (n : Nat) : Binary64 := ofDecimal false 1 n

/-- The largest power of ten that is a number. -/
def maxPower : Nat := 308

/-- Multiplies by a power of ten, or divides by one, in steps if it is too large. -/
def scale (x : Binary64) : Int → Binary64
  | .ofNat k =>
    if k ≤ maxPower then x.mul (powerOfTen k) else if x.magnitude = 0 then x else infinity
  | .negSucc k =>
    (Nat.iterate (·.div (powerOfTen maxPower)) (k / maxPower) x).div
      (powerOfTen (k % maxPower + 1))

section Exact

variable {c k m q s : Nat} {e : Int} {negative : Bool}

/-- A whole number of units with a significand of 53 bits is one of the magnitudes. -/
lemma exists_units (hs : s < 2 ^ 53) (hq : q ≤ 2045) :
    ∃ m, m < infinityBits ∧ units m = s * 2 ^ q := by
  have hbits : infinityBits = 2047 * hidden := rfl
  have hhidden : hidden = 2 ^ 52 := rfl
  induction q generalizing s with
  | zero => exact ⟨0 * hidden + s, by omega, units_of_significand hs.le (.inl rfl)⟩
  | succ q ih =>
    by_cases hsmall : 2 * s < 2 ^ 53
    · obtain ⟨m, hm, hunits⟩ := ih hsmall (by omega)
      refine ⟨m, hm, ?_⟩
      rw [hunits, Nat.pow_succ']
      ring
    · refine ⟨(q + 1) * hidden + s, ?_, units_of_significand hs.le (.inr (by omega))⟩
      have hle : (q + 1) * hidden ≤ 2045 * hidden := Nat.mul_le_mul_right _ hq
      omega

lemma nearest_units (hm : m ≤ infinityBits) : nearest (units m) 1 = m := by
  have h := isNearest_nearest Nat.one_pos (units m)
  rw [Nat.cast_one, div_one] at h
  exact h.unique (isNearest_value hm)

lemma nearest_mul_left (hk : 0 < k) (num : Nat) {den : Nat} (hden : 0 < den) :
    nearest (k * num) (k * den) = nearest num den := by
  have h := isNearest_nearest (Nat.mul_pos hk hden) (k * num)
  rw [Nat.cast_mul, Nat.cast_mul, mul_div_mul_left _ _ (Nat.cast_ne_zero.mpr hk.ne')] at h
  exact h.unique (isNearest_nearest hden num)

lemma units_whole (hc : c < 2 ^ 53) : units (nearestDecimal c 0) = c * unitsPerOne := by
  obtain ⟨u, hu, hone⟩ := exists_unitsPerOne_eq
  obtain ⟨m, hm, hunits⟩ := exists_units hc (show u ≤ 2045 by omega)
  change units (nearest (c * 10 ^ 0 * unitsPerOne) 1) = _
  rw [Nat.pow_zero, Nat.mul_one, hone, Nat.pow_eq, ← hunits, nearest_units hm.le]

/-- Five to the power of 22 has no more than 53 bits. -/
lemma units_power (hk : k ≤ 22) : units (nearestDecimal 1 k) = 10 ^ k * unitsPerOne := by
  obtain ⟨u, hu, hone⟩ := exists_unitsPerOne_eq
  have hfive : 5 ^ k < 2 ^ 53 :=
    Nat.lt_of_le_of_lt (Nat.pow_le_pow_right (by decide) hk) (by decide)
  obtain ⟨m, hm, hunits⟩ := exists_units hfive (show k + u ≤ 2045 by omega)
  have hten : 10 ^ k * 2 ^ u = units m := by
    rw [hunits, show (10 : Nat) = 5 * 2 from rfl, Nat.mul_pow, Nat.pow_add, Nat.mul_assoc]
  change units (nearest (1 * 10 ^ k * unitsPerOne) 1) = _
  rw [Nat.one_mul, hone, Nat.pow_eq, hten, nearest_units hm.le]

/-- Digits and powers that are numbers themselves leave one rounding only. -/
theorem scale_eq_ofDecimal (hc : c < 2 ^ 53) (hlow : -22 ≤ e) (hhigh : e ≤ 22) :
    scale (ofDecimal negative c 0) e = ofDecimal negative c e := by
  have hpower (n : Nat) : (powerOfTen n).magnitude = nearestDecimal 1 n :=
    magnitude_ofDecimal false 1 n
  have hsign (c : Nat) (e : Int) (b : Bool) : (ofDecimal b c e).negative = b := by
    rw [ofDecimal_eq]
    exact negative_ofMagnitude b (Nat.lt_of_le_of_lt (nearestDecimal_le c e) (by decide))
  have hpos := unitsPerOne_pos
  cases e with
  | ofNat k =>
    rw [Int.ofNat_eq_natCast] at hhigh
    have hk : k ≤ 22 := by omega
    have hmax : k ≤ maxPower := hk.trans (by decide)
    have hround : nearest (c * unitsPerOne * (10 ^ k * unitsPerOne)) unitsPerOne
        = nearestDecimal c (.ofNat k) := by
      unfold nearestDecimal
      dsimp only
      generalize unitsPerOne = one at hpos ⊢
      rw [← nearest_mul_left hpos (c * 10 ^ k * one) Nat.one_pos, Nat.mul_one]
      congr 1
      ring
    rw [scale, if_pos hmax, mul, hsign, powerOfTen, hsign, ← powerOfTen, hpower,
      magnitude_ofDecimal, units_whole hc, units_power hk, hround, ofDecimal_eq, Bool.bne_false]
  | negSucc k =>
    have hk : k + 1 ≤ 22 := by omega
    have hmax : k < maxPower := Nat.lt_of_lt_of_le hk (by decide)
    have hround : nearest (c * unitsPerOne * unitsPerOne) (10 ^ (k + 1) * unitsPerOne)
        = nearestDecimal c (.negSucc k) := by
      unfold nearestDecimal
      dsimp only
      generalize unitsPerOne = one at hpos ⊢
      rw [← nearest_mul_left hpos (c * one) (Nat.pow_pos (by decide)), Nat.mul_comm one,
        Nat.mul_comm one]
    rw [scale, Nat.div_eq_of_lt hmax, Nat.mod_eq_of_lt hmax, Function.iterate_zero_apply, div,
      hsign, powerOfTen, hsign, ← powerOfTen, hpower, magnitude_ofDecimal, units_whole hc,
      units_power hk, hround, ofDecimal_eq, Bool.bne_false]

end Exact

end Binary64

namespace Json

open Binary64 Decimal Numeral

/-- Takes digits as long as the significand has no more than 64 bits. -/
def absorb (significand : Nat) : List Char → Nat × List Char
  | [] => (significand, [])
  | c :: cs =>
    let next := 10 * significand + (c.toNat - '0'.toNat)
    if next < UInt64.size then absorb next cs else (significand, c :: cs)

/-- Whole digits that are not taken count as zeros, and those of a fraction not at all. -/
def clip (negative : Bool) (whole fraction : List Char) (exponent : Int) : Numeral :=
  let (significand, left) := absorb 0 whole
  let (significand, left') := absorb significand fraction
  ⟨negative, significand, exponent + left.length - (fraction.length - left'.length : Nat)⟩

def clipped? (literal : String) : Option Numeral :=
  let (minus, cs) := splitSign literal.toList
  let whole := cs.takeWhile isDigit
  let (fraction, rest) := splitFraction (cs.dropWhile isDigit)
  if whole.isEmpty && fraction.isEmpty then none
  else (readExponent? rest).map (clip minus whole fraction)

def approximate (n : Numeral) : Binary64 :=
  scale (ofDecimal n.negative n.coefficient 0) n.exponent

def toApproximate? : Json → Option Binary64
  | .number literal => ((clipped? literal).map approximate).filter isFinite
  | j => j.toBinary64?

def rereadApproximately (x : Binary64) : Option Binary64 :=
  (read? (ofBinary64 x).render).bind toApproximate?

section Significands

variable {whole fraction : List Char} {literal : String} {negative : Bool} {c : Nat} {e : Int}

lemma le_foldl_digits (ds : List Char) (s : Nat) :
    s ≤ ds.foldl (fun n c => 10 * n + (c.toNat - '0'.toNat)) s := by
  induction ds generalizing s with
  | nil => exact Nat.le_refl s
  | cons c ds ih =>
    have hstep : s ≤ 10 * s + (c.toNat - '0'.toNat) := by omega
    exact hstep.trans (ih _)

lemma absorb_eq {ds : List Char} {s : Nat}
    (h : ds.foldl (fun n c => 10 * n + (c.toNat - '0'.toNat)) s < UInt64.size) :
    absorb s ds = (ds.foldl (fun n c => 10 * n + (c.toNat - '0'.toNat)) s, []) := by
  induction ds generalizing s with
  | nil => rfl
  | cons c ds ih =>
    rw [List.foldl_cons] at h
    have hnext := Nat.lt_of_le_of_lt (le_foldl_digits ds _) h
    rw [absorb]
    simp only [if_pos hnext]
    exact ih h

lemma clip_eq (negative : Bool) (e : Int) (h : ofDigits (whole ++ fraction) < UInt64.size) :
    clip negative whole fraction e
      = ⟨negative, ofDigits (whole ++ fraction), e - fraction.length⟩ := by
  rw [ofDigits_append] at h
  have hwhole : absorb 0 whole = (ofDigits whole, []) :=
    absorb_eq (Nat.lt_of_le_of_lt (le_foldl_digits fraction _) h)
  unfold clip
  simp only [hwhole, absorb_eq h, ofDigits_append]
  simp

/-- A significand that fits is read in full. -/
lemma clipped?_eq (h : Numeral.read? literal.toList = some ⟨negative, c, e⟩)
    (hc : c < UInt64.size) : clipped? literal = some ⟨negative, c, e⟩ := by
  unfold Numeral.read? at h
  unfold clipped?
  dsimp only at h ⊢
  split_ifs at h ⊢
  obtain ⟨e', he, heq⟩ := Option.map_eq_some_iff.mp h
  obtain ⟨rfl, rfl, rfl⟩ := Numeral.mk.inj heq
  rw [he, Option.map_some, clip_eq _ _ hc]

end Significands

section Short

variable {x : Binary64}

/-- The digits of the number as they are written are few, and so is the exponent small. -/
def Short (x : Binary64) : Prop :=
  ∃ c e, Writes (numberDigits x.magnitude) c e ∧ c < 2 ^ 53 ∧ -22 ≤ e ∧ e ≤ 22

lemma toApproximate?_of_short (hf : x.isFinite = true) (h : Short x) :
    (ofBinary64 x).toApproximate? = some x := by
  obtain ⟨c, e, hwrites, hc, hlow, hhigh⟩ := h
  have hread := hwrites.signed x.negative
  have hexact := toBinary64?_finite hf
  rw [ofBinary64, if_pos hf, toBinary64?, finite?, String.toList_ofList, hread, Option.map_some,
    Numeral.toBinary64] at hexact
  have hclip : clipped? (String.ofList ((if x.negative then ['-'] else [])
      ++ numberDigits x.magnitude)) = some ⟨x.negative, c, e⟩ :=
    clipped?_eq (by rwa [String.toList_ofList]) (Nat.lt_of_lt_of_le hc (by decide))
  rw [ofBinary64, if_pos hf, toApproximate?, hclip, Option.map_some, approximate,
    scale_eq_ofDecimal hc hlow hhigh]
  dsimp only at hexact
  split_ifs at hexact with hfinite
  rw [Option.filter_some, if_pos hfinite, hexact]

end Short

/-- A number whose digits have at most 53 bits and whose exponent is small is given back, and so are
the special values. -/
theorem rereadApproximately_of_short (x : Binary64) (h : x.isFinite = true → Short x) :
    rereadApproximately x = some x.collapse := by
  rw [rereadApproximately, read?_render (writable_ofBinary64 x), Option.bind_some]
  by_cases hf : x.isFinite = true
  · have hn : x.isNaN ≠ true := by
      intro hn
      rw [isFinite_of_isNaN hn] at hf
      cases hf
    rw [toApproximate?_of_short hf (h hf), Binary64.collapse, if_neg hn]
  · have htext : (ofBinary64 x).toApproximate? = (ofBinary64 x).toBinary64? := by
      rw [ofBinary64, if_neg hf]
      rfl
    rw [htext, toBinary64?_ofBinary64 (kept [x])]

/-- The number 1.602176634e-19 comes back as 1.6021766340000001e-19. -/
theorem rereadApproximately_drifts :
    let x : Binary64 := ⟨0x3C07A4DA290C1653⟩
    (ofBinary64 x).render = "1.602176634e-19" ∧ x.collapse = x ∧
      rereadApproximately x = some ⟨0x3C07A4DA290C1654⟩ ∧
      (⟨0x3C07A4DA290C1654⟩ : Binary64) ≠ x := by
  decide +kernel

end Json

end PushGateway
