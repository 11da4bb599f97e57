import Mathlib.Algebra.Order.Field.Basic
import Mathlib.Algebra.Order.Field.Rat
import Mathlib.Order.Monotone.Basic
import Mathlib.Tactic.Linarith
import Mathlib.Tactic.Ring
import PushGateway.Binary64.Round

/-! Rounding a quotient gives the nearest magnitude. Magnitudes stand for numbers that rise with
them, so a number lies between two that follow each other, and of these the nearer one is taken, or
the even one if they are equally near. -/

namespace PushGateway

namespace Binary64

section Units

variable {s q m num den n e : Nat}

lemma exists_unitsPerOne_eq : ∃ u, u = 1074 ∧ unitsPerOne = Nat.pow 2 u := by
  unfold unitsPerOne
  generalize 1074 = u
  exact ⟨u, rfl, rfl⟩

lemma unitsPerOne_pos : 0 < unitsPerOne := by
  obtain ⟨u, -, hunits⟩ := exists_unitsPerOne_eq
  rw [hunits]
  exact Nat.pow_pos (by decide)

/-- The significand of a magnitude and the power of two it is multiplied by. -/
lemma exists_significand (m : Nat) : ∃ s q, units m = s * 2 ^ q ∧ q * hidden + s = m ∧
    s < 2 ^ 53 ∧ (q = 0 ∨ 2 ^ 52 ≤ s) := by
  unfold units
  split_ifs with hm
  · unfold hidden at hm
    exact ⟨m, 0, by simp, by simp, by omega, .inl rfl⟩
  · refine ⟨hidden + m % hidden, m / hidden - 1, rfl, ?_, ?_, .inr (Nat.le_add_right _ _)⟩
    · have hpos : 1 ≤ m / hidden := Nat.div_pos (Nat.le_of_not_lt hm) (by decide)
      have hdiv : hidden * (m / hidden) + m % hidden = m := Nat.div_add_mod m hidden
      unfold hidden at *
      omega
    · have hmod : m % hidden < hidden := Nat.mod_lt _ (by decide)
      unfold hidden at *
      omega

/-- A significand may have grown to the next power of two, where the steps are twice as wide. -/
lemma units_of_significand (hs : s ≤ 2 ^ 53) (hq : q = 0 ∨ 2 ^ 52 ≤ s) :
    units (q * hidden + s) = s * 2 ^ q := by
  have hhidden : hidden = 2 ^ 52 := rfl
  rcases Nat.lt_or_ge s hidden with hsmall | hge
  · obtain rfl : q = 0 := hq.resolve_right (Nat.not_le.mpr hsmall)
    rw [Nat.zero_mul, Nat.zero_add, units, if_pos hsmall, Nat.pow_zero, Nat.mul_one]
  · obtain ⟨r, rfl⟩ := Nat.exists_eq_add_of_le hge
    have hpos : 0 < hidden := by decide
    have hsum : q * hidden + (hidden + r) = r + hidden * (q + 1) := by ring
    rw [units, hsum, if_neg (by rw [Nat.mul_succ]; omega), Nat.add_mul_div_left _ _ hpos,
      Nat.add_mul_mod_self_left, Nat.pow_eq]
    rcases Nat.lt_or_eq_of_le (show r ≤ hidden by omega) with hr | rfl
    · rw [Nat.div_eq_of_lt hr, Nat.mod_eq_of_lt hr, Nat.zero_add, Nat.add_sub_cancel]
    · rw [Nat.div_self hpos, Nat.mod_self, Nat.add_sub_cancel_left, Nat.pow_succ]
      ring

/-- The step from a magnitude to the next one is a 2 ^ 53rd part of the next one or more. -/
lemma exists_step (m : Nat) :
    ∃ step, 0 < step ∧ units (m + 1) = units m + step ∧ units (m + 1) ≤ 2 ^ 53 * step := by
  obtain ⟨s, q, hunits, rfl, hs, hq⟩ := exists_significand m
  have hsucc : units (q * hidden + s + 1) = (s + 1) * 2 ^ q := by
    rw [Nat.add_assoc]
    exact units_of_significand (s := s + 1) hs (hq.imp_right Nat.le_succ_of_le)
  refine ⟨2 ^ q, Nat.pow_pos (by decide), ?_, ?_⟩
  · rw [hsucc, hunits, Nat.succ_mul]
  · rw [hsucc]
    exact Nat.mul_le_mul_right _ hs

lemma units_strictMono : StrictMono units := by
  refine strictMono_nat_of_lt_succ fun m => ?_
  obtain ⟨step, hpos, hsucc, -⟩ := exists_step m
  rw [hsucc]
  exact Nat.lt_add_of_pos_right hpos

lemma quotient_lt (n e : Nat) (he : n.log2 - 52 = e) : n / 2 ^ e < 2 ^ 53 := by
  by_cases hn : n = 0
  · rw [hn, Nat.zero_div]
    decide
  · rw [Nat.div_lt_iff_lt_mul (Nat.pow_pos (by decide)), ← Nat.pow_add]
    exact (Nat.log2_lt hn).mp (by omega)

lemma le_quotient (he : n.log2 - 52 = e) (hpos : e ≠ 0) : 2 ^ 52 ≤ n / 2 ^ e := by
  have hn : n ≠ 0 := by
    rintro rfl
    exact hpos he.symm
  rw [Nat.le_div_iff_mul_le (Nat.pow_pos (by decide)), ← Nat.pow_add]
  exact (Nat.le_log2 hn).mp (by omega)

/-- A quotient lies between two magnitudes that follow each other, and one of them is taken. -/
lemma exists_nearest_eq (hden : 0 < den) (num : Nat) : ∃ n, units n * den ≤ num ∧
    num < units (n + 1) * den ∧ nearest num den = min infinityBits
      (if 2 * num < (units n + units (n + 1)) * den ∨
        2 * num = (units n + units (n + 1)) * den ∧ n % 2 = 0 then n else n + 1) := by
  generalize he : (num / den).log2 - 52 = e
  have hstep : 0 < den * 2 ^ e := Nat.mul_pos hden (Nat.pow_pos (by decide))
  obtain ⟨f, left, hfloor, hleft⟩ :
      ∃ f left, num / (den * 2 ^ e) = f ∧ num % (den * 2 ^ e) = left :=
    ⟨_, _, rfl, rfl⟩
  have hquotient : num / den / 2 ^ e = f := by rw [Nat.div_div_eq_div_mul, hfloor]
  have hf : f < 2 ^ 53 := hquotient ▸ quotient_lt _ e he
  have hlow : e = 0 ∨ 2 ^ 52 ≤ f := by
    by_cases hzero : e = 0
    · exact .inl hzero
    · exact .inr (hquotient ▸ le_quotient he hzero)
  have hunits : units (e * hidden + f) * den = f * (den * 2 ^ e) := by
    rw [units_of_significand hf.le hlow]
    ring
  have hunits' : units (e * hidden + f + 1) * den = f * (den * 2 ^ e) + den * 2 ^ e := by
    rw [Nat.add_assoc, units_of_significand (s := f + 1) hf (hlow.imp_right Nat.le_succ_of_le)]
    ring
  have hnum : f * (den * 2 ^ e) + left = num := by
    rw [← hfloor, ← hleft]
    exact Nat.div_add_mod' num _
  have hlt : left < den * 2 ^ e := hleft ▸ Nat.mod_lt _ hstep
  have hparity : (e * hidden + f) % 2 = f % 2 := by
    unfold hidden
    omega
  refine ⟨e * hidden + f, by omega, by omega, ?_⟩
  rw [Nat.add_mul, hunits, hunits', nearest]
  simp only [he, Nat.pow_eq, hfloor, hleft]
  generalize den * 2 ^ e = step at *
  generalize f * step = floor at *
  simp only [Bool.or_eq_true, Bool.and_eq_true, decide_eq_true_eq, beq_iff_eq, hparity]
  congr 1
  split_ifs <;> omega

end Units

/-- The number that a magnitude stands for. Infinity stands for the power of two that would follow
the largest number. -/
def value (m : Nat) : Rat := units m / unitsPerOne

/-- No magnitude stands for a number that is nearer, and if another one is as near, this is the even
one of the two. -/
structure IsNearest (x : Rat) (m : Nat) : Prop where
  le : m ≤ infinityBits
  nearest : ∀ n ≤ infinityBits, |x - value m| ≤ |x - value n|
  even : ∀ n ≤ infinityBits, n ≠ m → |x - value n| = |x - value m| → m % 2 = 0

section Middles

variable {a b x : Rat}

/-- The middle between two numbers tells which of them is nearer. -/
lemma nearer_lower_iff (hab : a < b) : |x - a| ≤ |x - b| ↔ 2 * x ≤ a + b := by
  rw [← sq_le_sq]
  constructor
  · intro h
    nlinarith
  · intro h
    nlinarith

lemma nearer_upper_iff (hab : a < b) : |x - b| ≤ |x - a| ↔ a + b ≤ 2 * x := by
  rw [← sq_le_sq]
  constructor
  · intro h
    nlinarith
  · intro h
    nlinarith

end Middles

section Values

variable {x : Rat} {m n k : Nat}

lemma unitsPerOne_cast_pos : (0 : Rat) < unitsPerOne := Nat.cast_pos.mpr unitsPerOne_pos

lemma value_strictMono : StrictMono value := by
  intro m n h
  exact div_lt_div_of_pos_right (Nat.cast_lt.mpr (units_strictMono h)) unitsPerOne_cast_pos

lemma nearer_of_lt (h : value n ≤ x) (hk : k < n) : |x - value n| < |x - value k| := by
  have hlt := value_strictMono hk
  rw [← not_le, nearer_lower_iff hlt]
  linarith

lemma nearer_of_gt (h : x ≤ value n) (hk : n < k) : |x - value n| < |x - value k| := by
  have hlt := value_strictMono hk
  rw [← not_le, nearer_upper_iff hlt]
  linarith

/-- Between two magnitudes that follow each other only these two can be nearest. -/
lemma isNearest_of_neighbour (hlow : value n ≤ x) (hhigh : x ≤ value (n + 1))
    (hm : m = n ∨ m = n + 1) (hle : m ≤ infinityBits) (hn : |x - value m| ≤ |x - value n|)
    (hn' : |x - value m| ≤ |x - value (n + 1)|)
    (htie : |x - value n| = |x - value (n + 1)| → m % 2 = 0) : IsNearest x m := by
  have hfar (k : Nat) (hk : k ≠ n) (hk' : k ≠ n + 1) : |x - value m| < |x - value k| := by
    rcases Nat.lt_or_ge k n with hlt | hge
    · exact hn.trans_lt (nearer_of_lt hlow hlt)
    · exact hn'.trans_lt (nearer_of_gt hhigh (by omega))
  refine ⟨hle, fun k _ => ?_, fun k _ hkm heq => ?_⟩
  · by_cases hk : k = n
    · rw [hk]
      exact hn
    · by_cases hk' : k = n + 1
      · rw [hk']
        exact hn'
      · exact (hfar k hk hk').le
  · by_cases hk : k = n
    · obtain rfl : m = n + 1 := hm.resolve_left fun h => hkm (hk.trans h.symm)
      exact htie (hk ▸ heq)
    · by_cases hk' : k = n + 1
      · obtain rfl : m = n := hm.resolve_right fun h => hkm (hk'.trans h.symm)
        exact htie (hk' ▸ heq.symm)
      · exact absurd heq (hfar k hk hk').ne'

lemma isNearest_infinity (h : value infinityBits ≤ x) : IsNearest x infinityBits := by
  refine ⟨Nat.le_refl _, fun k hk => ?_, fun _ _ _ _ => rfl⟩
  rcases Nat.lt_or_eq_of_le hk with hlt | rfl
  · exact (nearer_of_lt h hlt).le
  · exact le_rfl

lemma isNearest_of_between (hlow : value n ≤ x) (hhigh : x < value (n + 1)) :
    IsNearest x (min infinityBits (if 2 * x < value n + value (n + 1) ∨
      2 * x = value n + value (n + 1) ∧ n % 2 = 0 then n else n + 1)) := by
  have hlt := value_strictMono (Nat.lt_succ_self n)
  rcases Nat.lt_or_ge n infinityBits with hn | hn
  · split_ifs with h
    · have hmiddle : 2 * x ≤ value n + value (n + 1) := h.elim le_of_lt fun h => h.1.le
      rw [Nat.min_eq_right hn.le]
      refine isNearest_of_neighbour hlow hhigh.le (.inl rfl) hn.le le_rfl
        ((nearer_lower_iff hlt).mpr hmiddle) fun heq => ?_
      exact (h.resolve_left (not_lt.mpr ((nearer_upper_iff hlt).mp heq.ge))).2
    · obtain ⟨hmiddle, htie⟩ := not_or.mp h
      rw [not_lt] at hmiddle
      rw [Nat.min_eq_right (Nat.succ_le_of_lt hn)]
      refine isNearest_of_neighbour hlow hhigh.le (.inr rfl) (Nat.succ_le_of_lt hn)
        ((nearer_upper_iff hlt).mpr hmiddle) le_rfl fun heq => ?_
      have hodd : n % 2 ≠ 0 := fun heven =>
        htie ⟨le_antisymm ((nearer_lower_iff hlt).mp heq.le) hmiddle, heven⟩
      omega
  · rw [Nat.min_eq_left (by split_ifs <;> omega)]
    exact isNearest_infinity ((value_strictMono.monotone hn).trans hlow)

end Values

section Quotients

variable {den : Nat}

lemma quotient_lt_units_iff (hden : 0 < den) (num u : Nat) :
    (num : Rat) / den / unitsPerOne < u / unitsPerOne ↔ num < u * den := by
  rw [div_lt_div_iff_of_pos_right unitsPerOne_cast_pos, div_lt_iff₀ (Nat.cast_pos.mpr hden),
    ← Nat.cast_mul, Nat.cast_lt]

lemma quotient_eq_units_iff (hden : 0 < den) (num u : Nat) :
    (num : Rat) / den / unitsPerOne = u / unitsPerOne ↔ num = u * den := by
  rw [div_left_inj' unitsPerOne_cast_pos.ne', div_eq_iff (Nat.cast_pos.mpr hden).ne',
    ← Nat.cast_mul, Nat.cast_inj]

theorem isNearest_nearest (hden : 0 < den) (num : Nat) :
    IsNearest ((num : Rat) / den / unitsPerOne) (nearest num den) := by
  obtain ⟨n, hlow, hhigh, heq⟩ := exists_nearest_eq hden num
  have hlow' : value n ≤ (num : Rat) / den / unitsPerOne := by
    rw [← not_lt, value, quotient_lt_units_iff hden]
    exact Nat.not_lt.mpr hlow
  have hhigh' := (quotient_lt_units_iff hden num (units (n + 1))).mpr hhigh
  have hbetween := isNearest_of_between hlow' hhigh'
  have htwice : 2 * ((num : Rat) / den / unitsPerOne) = (2 * num : Nat) / den / unitsPerOne := by
    rw [Nat.cast_mul, Nat.cast_ofNat]
    ring
  have hsum : value n + value (n + 1) = (units n + units (n + 1) : Nat) / unitsPerOne := by
    rw [value, value, ← add_div, Nat.cast_add]
  simp only [htwice, hsum, quotient_lt_units_iff hden, quotient_eq_units_iff hden] at hbetween
  rw [heq]
  exact hbetween

end Quotients

section Order

variable {x y : Rat} {m n : Nat}

/-- If two are equally near they are both even, and one between them is nearer. -/
lemma IsNearest.not_lt (hm : IsNearest x m) (hn : IsNearest x n) : ¬m < n := by
  intro hlt
  have heq : |x - value m| = |x - value n| := le_antisymm (hm.nearest n hn.le) (hn.nearest m hm.le)
  have hmeven := hm.even n hn.le hlt.ne' heq.symm
  have hneven := hn.even m hm.le hlt.ne heq
  have hbelow := value_strictMono (Nat.lt_succ_self m)
  have habove : value (m + 1) < value n := value_strictMono (by omega)
  have hmiddle := (nearer_upper_iff (hbelow.trans habove)).mp heq.ge
  have hnear := hm.nearest (m + 1) (Nat.succ_le_of_lt (hlt.trans_le hn.le))
  rw [nearer_lower_iff hbelow] at hnear
  linarith

theorem IsNearest.unique (hm : IsNearest x m) (hn : IsNearest x n) : m = n :=
  Nat.le_antisymm (Nat.le_of_not_lt (hn.not_lt hm)) (Nat.le_of_not_lt (hm.not_lt hn))

theorem IsNearest.mono (hm : IsNearest x m) (hn : IsNearest y n) (h : x ≤ y) : m ≤ n := by
  by_contra hlt
  have hvalue := value_strictMono (Nat.lt_of_not_le hlt)
  have hx := (nearer_upper_iff hvalue).mp (hm.nearest n hn.le)
  have hy := (nearer_lower_iff hvalue).mp (hn.nearest m hm.le)
  obtain rfl : x = y := by linarith
  exact hlt (hm.unique hn).le

lemma isNearest_value (hm : m ≤ infinityBits) : IsNearest (value m) m := by
  have hself : |value m - value m| = 0 := by rw [sub_self, abs_zero]
  refine ⟨hm, fun n _ => hself ▸ abs_nonneg _, fun n _ hnm heq => ?_⟩
  rw [hself, abs_eq_zero, sub_eq_zero] at heq
  exact absurd (value_strictMono.injective heq).symm hnm

lemma exists_value_step (m : Nat) :
    ∃ step, value (m + 1) = value m + step ∧ value (m + 1) ≤ 2 ^ 53 * step := by
  obtain ⟨step, -, hsucc, hle⟩ := exists_step m
  refine ⟨step / unitsPerOne, ?_, ?_⟩
  · rw [value, hsucc, Nat.cast_add, add_div, value]
  · rw [value, ← mul_div_assoc, div_le_div_iff_of_pos_right unitsPerOne_cast_pos]
    exact_mod_cast hle

/-- A number that is off by less than a 2 ^ 54th part of a magnitude is nearest to it. -/
lemma isNearest_of_close (hm : m ≤ infinityBits) (hlow : (2 ^ 54 - 1) * value m < 2 ^ 54 * x)
    (hhigh : 2 ^ 54 * x < (2 ^ 54 + 1) * value m) : IsNearest x m := by
  have hnear (n : Nat) (hn : n ≠ m) : |x - value m| < |x - value n| := by
    rcases Nat.lt_or_gt_of_ne hn with hlt | hgt
    · obtain ⟨k, rfl⟩ := Nat.exists_eq_succ_of_ne_zero (Nat.ne_zero_of_lt hlt)
      obtain ⟨step, hsucc, hstep⟩ := exists_value_step k
      have hle := value_strictMono.monotone (Nat.le_of_lt_succ hlt)
      rw [← not_le, nearer_lower_iff (value_strictMono hlt)]
      rw [Nat.succ_eq_add_one] at *
      linarith
    · obtain ⟨step, hsucc, hstep⟩ := exists_value_step m
      have hle := value_strictMono.monotone (Nat.succ_le_of_lt hgt)
      rw [← not_le, nearer_upper_iff (value_strictMono hgt)]
      linarith
  refine ⟨hm, fun n _ => ?_, fun n _ hn heq => absurd heq (hnear n hn).ne'⟩
  by_cases hn : n = m
  · rw [hn]
  · exact (hnear n hn).le

end Order

end Binary64

end PushGateway
