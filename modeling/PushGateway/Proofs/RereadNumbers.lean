import PushGateway.Proofs.JsonGroups
import PushGateway.Proofs.ShortestDigits

/-! Numbers that are written in JSON and read again are the same, since the digits that are written
denote them. So are values and groups, however often they are written and read. -/

namespace PushGateway

namespace Json

open Binary64 Decimal Numeral

section Literals

variable {cs : List Char} {m : Nat} {x : Binary64}

lemma writes_whole_point (c e : Nat) :
    Writes (positional ['.', '0'] ⟨c, .ofNat e⟩) (c * 10 ^ (e + 1)) (-1) := by
  have hzero : ∀ x ∈ ['0'], isDigit x = true := List.forall_mem_singleton.mpr (by decide)
  have hparts := writes_parts ['.'] ['0'] [] (isDigits_append_zeros c e) (.inl rfl) hzero (by simp)
    (by simp) rfl
  have hvalue : ofDigits (digits c ++ zeros e ++ ['0']) = c * 10 ^ (e + 1) := by
    rw [List.append_assoc, show zeros e ++ ['0'] = zeros (e + 1) from List.replicate_succ'.symm,
      ofDigits_append_zeros, ofDigits_digits]
  rw [hvalue] at hparts
  exact hparts

/-- The zero after the point of a whole number changes nothing. -/
lemma spells_positional_point (d : Digits) : Spells (positional ['.', '0'] d) d.magnitude := by
  rw [d.magnitude_eq]
  obtain ⟨c, e⟩ := d
  cases e with
  | ofNat e =>
    have hwhole := (writes_whole_point c e).spells
    have hexponent : (-1 : Int) + (e + 1 : Nat) = .ofNat e := by
      rw [Int.ofNat_eq_natCast]
      omega
    rwa [nearestDecimal_mul_pow, hexponent] at hwhole
  | negSucc e => exact (writes_positional ['.', '0'] c e).spells

lemma spells_numberDigits (hm : m < infinityBits) : Spells (numberDigits m) m := by
  unfold numberDigits
  split_ifs with hzero
  · have hwhole := spells_positional_point ⟨0, .ofNat 0⟩
    rw [Digits.magnitude_eq, nearestDecimal_zero] at hwhole
    rw [hzero]
    exact hwhole
  · have hread := magnitude_shortest .even hm
    dsimp only
    split_ifs
    · have hd := spells_positional_point (shortest .even m)
      rwa [hread] at hd
    · have hd := (writes_scientific (.inr rfl) (shortest .even m)).spells
      rwa [← Digits.magnitude_eq, hread] at hd

lemma toBinary64?_finite (hf : x.isFinite = true) : (ofBinary64 x).toBinary64? = some x := by
  obtain ⟨head, chars, c, e, hread, hm⟩ := spells_numberDigits (of_decide_eq_true hf)
  have hsigned := Writes.signed ⟨head, chars, hread⟩ x.negative
  have hx : Numeral.toBinary64 ⟨x.negative, c, e⟩ = x := by
    rw [Numeral.toBinary64, ofDecimal_eq, hm, ofMagnitude_magnitude]
  rw [ofBinary64, if_pos hf, toBinary64?, finite?, String.toList_ofList, hsigned, Option.map_some,
    hx]
  simp only [hf, if_true]

lemma kept (xs : List Binary64) : Kept xs := fun _ _ hf => toBinary64?_finite hf

end Literals

section Collapsed

lemma collapse_collapse (x : Binary64) : x.collapse.collapse = x.collapse := by
  by_cases hn : x.isNaN = true
  · rw [Binary64.collapse, Binary64.collapse, if_pos hn]
    rfl
  · simp [Binary64.collapse, hn]

lemma collapse_collapse_value (v : SampleValue) : v.collapse.collapse = v.collapse := by
  have hq : Quantile.collapse ∘ Quantile.collapse = Quantile.collapse := by
    funext q
    simp [Quantile.collapse, collapse_collapse]
  have hb : Bucket.collapse ∘ Bucket.collapse = Bucket.collapse := by
    funext b
    simp [Bucket.collapse, collapse_collapse]
  cases v <;> simp [SampleValue.collapse, collapse_collapse, hq, hb]

lemma collapse_collapse_family (f : Family) : f.collapse.collapse = f.collapse := by
  have hs : Sample.collapse ∘ Sample.collapse = Sample.collapse := by
    funext s
    simp [Sample.collapse, collapse_collapse_value]
  simp [Family.collapse, hs]

lemma collapse_collapse_group (g : Group) : g.collapse.collapse = g.collapse := by
  have hfamilies : (g.families.mapValues Family.collapse).mapValues Family.collapse
      = g.families.mapValues Family.collapse := by
    apply SortedMap.ext
    simp [SortedMap.mapValues, Function.comp_def, collapse_collapse_family]
  simp only [Group.collapse, hfamilies]

end Collapsed

section Rounds

variable {A : Type} {f : A → Option A} {collapse : A → A}

/-- Written and read again a number of times. -/
def again (f : A → Option A) : Nat → A → Option A
  | 0, a => some a
  | n + 1, a => (f a).bind (again f n)

lemma again_eq (hf : ∀ a, f a = some (collapse a)) (hc : ∀ a, collapse (collapse a) = collapse a)
    (n : Nat) (a : A) : again f (n + 1) a = some (collapse a) := by
  induction n generalizing a with
  | zero =>
    rw [again, hf]
    rfl
  | succ n ih => rw [again, hf, Option.bind_some, ih, hc]

def reread (x : Binary64) : Option Binary64 := (read? (ofBinary64 x).render).bind toBinary64?

def rereadValue (v : SampleValue) : Option SampleValue :=
  (read? (ofSampleValue v).render).bind (toSampleValue? 0)

def rereadGroup (g : Group) : Option Group := readGroup? (ofGroup g).render

lemma reread_eq (x : Binary64) : reread x = some x.collapse := by
  rw [reread, read?_render (writable_ofBinary64 x)]
  exact toBinary64?_ofBinary64 (kept [x])

lemma rereadValue_eq (v : SampleValue) : rereadValue v = some v.collapse := by
  rw [rereadValue, read?_render (writable_ofSampleValue v)]
  exact toSampleValue?_ofSampleValue (by decide) (kept v.numbers)

end Rounds

/-- A number is read back from what is written for it, bit for bit unless it is a NaN, and so is a
value or a group that holds it, once or any number of times. The digits in between denote the
number, and none that denote it are fewer. -/
theorem numbers_survive :
    (∀ x : Binary64, reread x = some (if x.isNaN then nan else x)) ∧
    (∀ n x, again reread (n + 1) x = some x.collapse) ∧
    (∀ n v, again rereadValue (n + 1) v = some v.collapse) ∧
    (∀ n g, again rereadGroup (n + 1) g = some g.collapse) ∧
    ∀ x : Binary64, x.isFinite = true → x.magnitude ≠ 0 →
      let d := shortest .even x.magnitude
      ofDecimal x.negative d.coefficient d.exponent = x ∧ digitCount d.coefficient ≤ 17 ∧
        ∀ c e, ofDecimal x.negative c e = x → digitCount d.coefficient ≤ digitCount c := by
  refine ⟨reread_eq, again_eq reread_eq collapse_collapse,
    again_eq rereadValue_eq collapse_collapse_value,
    again_eq (fun g => readGroup?_render (kept g.numbers)) collapse_collapse_group,
    fun x hf h0 => ?_⟩
  have hm : x.magnitude < infinityBits := of_decide_eq_true hf
  have hread := magnitude_shortest .even hm
  rw [Digits.magnitude_eq] at hread
  refine ⟨?_, digitCount_shortest_le_seventeen .even h0 hm, fun c e hx => ?_⟩
  · rw [ofDecimal_eq, hread, ofMagnitude_magnitude]
  · refine digitCount_shortest_le .even h0 hm (e := e) ?_
    rw [← magnitude_ofDecimal x.negative, hx]

/-- The sum of a tenth and two tenths has seventeen digits. -/
theorem numbers_survive_seventeen :
    let x : Binary64 := ⟨0x3FD3333333333334⟩
    again reread 3 x = some x ∧ again rereadValue 3 (.gauge x) = some (.gauge x) ∧
      (∀ c e, ofDecimal false c e = x → 17 ≤ digitCount c) := by
  intro x
  obtain ⟨-, hnumber, hvalue, -, hdigits⟩ := numbers_survive
  obtain ⟨-, -, hfewest⟩ := hdigits x (by decide) (by decide)
  have hcount : digitCount (shortest .even x.magnitude).coefficient = 17 := by decide +kernel
  exact ⟨hnumber 2 x, hvalue 2 (.gauge x), fun c e hx => hcount ▸ hfewest c e hx⟩

end Json

end PushGateway
