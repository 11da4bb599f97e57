import PushGateway.Exposition.Value
import PushGateway.Proofs.JsonValues
import PushGateway.Proofs.Rounding

/-! The text of a sample value is read back as that value: the digits that are written round to its
magnitude, and both layouts are numerals with these digits. -/

namespace PushGateway

open Binary64

namespace Decimal

section Digits

lemma Digits.magnitude_eq (d : Digits) : d.magnitude = nearestDecimal d.coefficient d.exponent :=
  magnitude_ofDecimal false d.coefficient d.exponent

lemma magnitude_trim (fuel : Nat) (d : Digits) : (d.trim fuel).magnitude = d.magnitude := by
  induction fuel generalizing d with
  | zero => rfl
  | succ fuel ih =>
    rw [Digits.trim]
    split_ifs with hc
    · have hten : d.coefficient = 10 * (d.coefficient / 10) := by omega
      rw [ih, Digits.magnitude_eq, Digits.magnitude_eq, ← nearestDecimal_ten_mul, ← hten]
    · rfl

/-- A unit is 5 ^ 1074 times a unit of the last place, so nothing is left to round. -/
lemma magnitude_exactDigits {m : Nat} (h : m < infinityBits) : (exactDigits m).magnitude = m := by
  rw [Digits.magnitude_eq]
  refine nearestDecimal_of_value h.le ?_
  obtain ⟨u, hu, hunits⟩ := exists_unitsPerOne_eq
  have hexponent : (-1074 : Int) = -(u : Int) := by
    rw [hu]
    rfl
  have hten : (10 : Rat) ^ u = 5 ^ u * 2 ^ u := by
    rw [← mul_pow]
    norm_num
  have hfive : (5 : Rat) ^ u ≠ 0 := pow_ne_zero u (by decide)
  unfold exactDigits decimal value
  rw [hexponent, ← hu, hunits, zpow_neg, zpow_natCast, hten, Nat.cast_mul, Nat.pow_eq, Nat.pow_eq,
    Nat.cast_pow, Nat.cast_pow, Nat.cast_ofNat, Nat.cast_ofNat, ← div_eq_mul_inv,
    mul_comm (units m : Rat), mul_div_mul_left _ _ hfive]

lemma magnitude_shortest (tie : Tie) {m : Nat} (h : m < infinityBits) :
    (shortest tie m).magnitude = m := by
  unfold shortest
  dsimp only
  generalize hfound : (List.findSome? _ _ : Option Digits) = found
  have hread : (found.getD (exactDigits m)).magnitude = m := by
    cases found with
    | none => exact magnitude_exactDigits h
    | some d =>
      obtain ⟨n, -, hhit⟩ := List.exists_of_findSome?_eq_some hfound
      exact hit?_magnitude hhit
  split_ifs
  · exact hread
  · rw [magnitude_trim, hread]

end Digits

end Decimal

namespace Numeral

lemma ofDigits_append (xs ys : List Char) :
    ofDigits (xs ++ ys) = ys.foldl (fun n c => 10 * n + (c.toNat - '0'.toNat)) (ofDigits xs) :=
  List.foldl_append

lemma ofDigits_append_zeros (xs : List Char) (n : Nat) :
    ofDigits (xs ++ Decimal.zeros n) = ofDigits xs * 10 ^ n := by
  induction n with
  | zero => simp [Decimal.zeros]
  | succ n ih =>
    have hlast : xs ++ Decimal.zeros (n + 1) = (xs ++ Decimal.zeros n) ++ ['0'] := by
      rw [Decimal.zeros, List.replicate_succ', List.append_assoc]
      rfl
    rw [hlast, ofDigits_append, ih, Nat.pow_succ, ← Nat.mul_assoc, Nat.mul_comm _ 10]
    rfl

lemma ofDigits_zeros_append (n : Nat) (xs : List Char) :
    ofDigits (Decimal.zeros n ++ xs) = ofDigits xs := by
  have hzero : ofDigits (Decimal.zeros n) = 0 := by
    have h := ofDigits_append_zeros [] n
    rw [List.nil_append] at h
    rw [h]
    exact Nat.zero_mul _
  rw [ofDigits_append, hzero]
  rfl

/-- The text is a numeral without a sign, of the given coefficient and exponent. -/
structure Writes (cs : List Char) (coefficient : Nat) (exponent : Int) : Prop where
  head : ∃ c ds, cs = c :: ds ∧ isDigit c = true
  chars : ∀ c ∈ cs, Exposition.isValueChar c = true
  read : read? cs = some ⟨false, coefficient, exponent⟩

/-- The text is a numeral without a sign, and the magnitude is the one nearest to it. -/
structure Spells (cs : List Char) (m : Nat) : Prop where
  head : ∃ c ds, cs = c :: ds ∧ isDigit c = true
  chars : ∀ c ∈ cs, Exposition.isValueChar c = true
  read : ∃ coefficient exponent, read? cs = some ⟨false, coefficient, exponent⟩ ∧
    nearestDecimal coefficient exponent = m

lemma Writes.spells {cs : List Char} {coefficient : Nat} {exponent : Int}
    (h : Writes cs coefficient exponent) : Spells cs (nearestDecimal coefficient exponent) :=
  ⟨h.head, h.chars, coefficient, exponent, h.read, rfl⟩

lemma isValueChar_of_isDigit {c : Char} (h : isDigit c = true) :
    Exposition.isValueChar c = true := by
  simp [Exposition.isValueChar, h]

lemma isValueChar_of_mem_intText {i : Int} {c : Char} (h : c ∈ intText i) :
    Exposition.isValueChar c = true := by
  rcases List.mem_append.mp h with h | h
  · split_ifs at h
    · obtain rfl := List.mem_singleton.mp h
      decide
    · cases h
  · exact isValueChar_of_isDigit (isDigit_of_mem_digits h)

section Parts

variable {whole point fraction tail : List Char} {e : Int}

lemma splitFraction_append (hp : point = ['.'] ∨ point = [] ∧ fraction = [])
    (hf : ∀ c ∈ fraction, isDigit c = true)
    (ht : ∀ c ∈ tail.head?, isDigit c = false ∧ c ≠ '.') :
    splitFraction (point ++ (fraction ++ tail)) = (fraction, tail) := by
  rcases hp with rfl | ⟨rfl, rfl⟩
  · obtain ⟨htake, hdrop⟩ := span_append hf fun c hc => (ht c hc).1
    rw [List.singleton_append, splitFraction, htake, hdrop]
  · rw [List.nil_append, List.nil_append]
    unfold splitFraction
    split
    · exact absurd rfl (ht '.' rfl).2
    · rfl

/-- Digits with or without a point, and perhaps an exponent, are a numeral. -/
lemma writes_parts (point fraction tail : List Char) (hw : Json.IsDigits whole)
    (hp : point = ['.'] ∨ point = [] ∧ fraction = []) (hf : ∀ c ∈ fraction, isDigit c = true)
    (ht : ∀ c ∈ tail.head?, isDigit c = false ∧ c ≠ '.')
    (hchars : ∀ c ∈ tail, Exposition.isValueChar c = true) (he : readExponent? tail = some e) :
    Writes (whole ++ (point ++ (fraction ++ tail))) (ofDigits (whole ++ fraction))
      (e - fraction.length) := by
  have hdot : ∀ c ∈ point, c = '.' := by
    rcases hp with rfl | ⟨rfl, -⟩ <;> simp
  have hnext : ∀ c ∈ (point ++ (fraction ++ tail)).head?, isDigit c = false := by
    rcases hp with rfl | ⟨rfl, rfl⟩
    · intro c hc
      obtain rfl : '.' = c := Option.some.inj hc
      decide
    · exact fun c hc => (ht c hc).1
  have hsplit := splitFraction_append hp hf ht
  obtain ⟨htake, hdrop⟩ := span_append hw.2 hnext
  obtain ⟨x, xs, rfl, hx⟩ := hw.exists_cons
  refine ⟨⟨x, _, List.cons_append, hx⟩, ?_, ?_⟩
  · intro c hc
    rcases List.mem_append.mp hc with hc | hc
    · exact isValueChar_of_isDigit (hw.2 c hc)
    · rcases List.mem_append.mp hc with hc | hc
      · rw [hdot c hc]
        decide
      · rcases List.mem_append.mp hc with hc | hc
        · exact isValueChar_of_isDigit (hf c hc)
        · exact hchars c hc
  · have hsign := splitSign_of_isDigit hx (xs ++ (point ++ (fraction ++ tail)))
    rw [← List.cons_append] at hsign
    simp only [read?, hsign, htake, hdrop, hsplit, he, List.isEmpty_cons, Bool.false_and,
      Bool.false_eq_true, if_false, Option.map_some]

end Parts

lemma read?_minus {cs : List Char} (h : splitSign cs = (false, cs)) :
    read? ('-' :: cs) = (read? cs).map fun n => { n with negative := true } := by
  have hminus : splitSign ('-' :: cs) = (true, cs) := rfl
  simp only [read?, hminus, h]
  split_ifs
  · rfl
  · rw [Option.map_map]
    rfl

lemma Writes.signed {cs : List Char} {coefficient : Nat} {exponent : Int}
    (h : Writes cs coefficient exponent) (negative : Bool) :
    read? ((if negative then ['-'] else []) ++ cs) = some ⟨negative, coefficient, exponent⟩ := by
  cases negative with
  | false => exact h.read
  | true =>
    obtain ⟨c, ds, hcs, hc⟩ := h.head
    have hminus := read?_minus (hcs ▸ splitSign_of_isDigit hc ds : splitSign cs = (false, cs))
    rw [h.read] at hminus
    exact hminus

end Numeral

namespace Decimal

open Numeral

section Layouts

lemma isDigits_append_zeros (c e : Nat) : Json.IsDigits (digits c ++ zeros e) := by
  refine ⟨List.append_ne_nil_of_left_ne_nil (digits_ne_nil c) _, fun x hx => ?_⟩
  rcases List.mem_append.mp hx with hx | hx
  · exact isDigit_of_mem_digits hx
  · exact Json.isDigit_of_mem_zeros hx

lemma writes_whole (c e : Nat) : Writes (digits c ++ zeros e) (c * 10 ^ e) 0 := by
  have hparts := writes_parts [] [] [] (isDigits_append_zeros c e) (.inr ⟨rfl, rfl⟩) (by simp)
    (by simp) (by simp) rfl
  simp only [List.append_nil, ofDigits_append_zeros, ofDigits_digits] at hparts
  exact hparts

lemma writes_positional (whole : List Char) (c e : Nat) :
    Writes (positional whole ⟨c, .negSucc e⟩) c (.negSucc e) := by
  have hds : ∀ x ∈ digits c, isDigit x = true := fun x hx => isDigit_of_mem_digits hx
  unfold positional
  dsimp only
  generalize hk : (digits c).length - (e + 1) = k
  split_ifs with hlt
  · have hw : Json.IsDigits ((digits c).take k) := by
      refine ⟨List.ne_nil_of_length_pos ?_, fun x hx => hds x (List.mem_of_mem_take hx)⟩
      rw [List.length_take]
      omega
    have hparts := writes_parts ['.'] ((digits c).drop k) [] hw (.inl rfl)
      (fun x hx => hds x (List.mem_of_mem_drop hx)) (by simp) (by simp) rfl
    have hexponent : (0 : Int) - ((digits c).drop k).length = .negSucc e := by
      rw [List.length_drop]
      omega
    rwa [List.append_nil, List.take_append_drop, ofDigits_digits, hexponent] at hparts
  · have hf : ∀ x ∈ zeros (e + 1 - (digits c).length) ++ digits c, isDigit x = true := by
      intro x hx
      rcases List.mem_append.mp hx with hx | hx
      · exact Json.isDigit_of_mem_zeros hx
      · exact hds x hx
    have hzero : Json.IsDigits (zeros 1) := ⟨by simp [zeros], fun _ => Json.isDigit_of_mem_zeros⟩
    have hparts := writes_parts ['.'] _ [] hzero (.inl rfl) hf (by simp) (by simp) rfl
    have hexponent : (0 : Int) - (zeros (e + 1 - (digits c).length) ++ digits c).length
        = .negSucc e := by
      rw [List.length_append, zeros, List.length_replicate]
      omega
    rwa [List.append_nil, ofDigits_zeros_append, ofDigits_zeros_append, ofDigits_digits,
      hexponent] at hparts

lemma spells_positional (d : Digits) : Spells (positional [] d) d.magnitude := by
  rw [d.magnitude_eq]
  obtain ⟨c, e⟩ := d
  cases e with
  | ofNat e =>
    have hwhole := (writes_whole c e).spells
    rw [nearestDecimal_mul_pow, Int.zero_add, ← List.append_nil (digits c ++ zeros e)] at hwhole
    exact hwhole
  | negSucc e => exact (writes_positional [] c e).spells

/-- The exponent may have a plus sign in front if it is not negative. -/
lemma writes_scientific {plus : List Char} (hplus : plus = [] ∨ plus = ['+']) (d : Digits) :
    Writes (scientific plus d) d.coefficient d.exponent := by
  obtain ⟨c, e⟩ := d
  obtain ⟨x, xs, hxs, hx⟩ := (Json.isDigits_digits c).exists_cons
  have hds : ∀ y ∈ x :: xs, isDigit y = true := fun y hy =>
    isDigit_of_mem_digits (n := c) (by rw [hxs]; exact hy)
  have hvalue : ofDigits ([x] ++ xs) = c := by rw [List.singleton_append, ← hxs, ofDigits_digits]
  have hfirst : Json.IsDigits [x] := ⟨by simp, by simpa using hx⟩
  generalize hpower : (if e + xs.length < 0 then ['-'] else plus)
    ++ digits (e + xs.length).natAbs = power
  have hread : readInt? power = some (e + xs.length) := by
    rw [← hpower]
    rcases hplus with rfl | rfl
    · exact readInt?_intText _
    · exact readInt?_plus _
  have hchars : ∀ y ∈ 'e' :: power, Exposition.isValueChar y = true := by
    refine List.forall_mem_cons.mpr ⟨by decide, fun y hy => ?_⟩
    rw [← hpower] at hy
    rcases List.mem_append.mp hy with hy | hy
    · have hsign : y = '-' ∨ y = '+' := by
        rcases hplus with rfl | rfl
        · split_ifs at hy <;> simp_all
        · split_ifs at hy <;> simp_all
      rcases hsign with rfl | rfl <;> decide
    · exact isValueChar_of_isDigit (isDigit_of_mem_digits hy)
  have htail : ∀ y ∈ ('e' :: power).head?, isDigit y = false ∧ y ≠ '.' := by
    intro y hy
    obtain rfl : 'e' = y := Option.some.inj hy
    decide
  have hparts (point : List Char) (hp : point = ['.'] ∨ point = [] ∧ xs = []) :
      Writes ([x] ++ (point ++ (xs ++ 'e' :: power))) c e := by
    have h := writes_parts point xs _ hfirst hp (List.forall_mem_cons.mp hds).2 htail hchars hread
    rwa [hvalue, Int.add_sub_cancel] at h
  unfold scientific
  dsimp only
  rw [hxs, List.append_assoc]
  subst hpower
  cases xs with
  | nil => exact hparts [] (.inr ⟨rfl, rfl⟩)
  | cons y ys => exact hparts ['.'] (.inl rfl)

lemma spells_scientific (d : Digits) : Spells (scientific [] d) d.magnitude := by
  rw [d.magnitude_eq]
  exact (writes_scientific (.inl rfl) d).spells

end Layouts

end Decimal

namespace Exposition

open Numeral Decimal

lemma spells_valueDigits {m : Nat} (h : m < infinityBits) : Spells (valueDigits m) m := by
  unfold valueDigits
  split_ifs with hzero hscientific
  · have hwhole := (writes_whole 0 0).spells
    rw [Nat.zero_mul, nearestDecimal_zero] at hwhole
    rw [hzero]
    exact hwhole
  · have hd := spells_scientific (shortest .upper m)
    rwa [magnitude_shortest .upper h] at hd
  · have hd := spells_positional (shortest .upper m)
    rwa [magnitude_shortest .upper h] at hd

lemma readValue?_of_spells (negative : Bool) {cs : List Char} {m : Nat} (h : Spells cs m) :
    readValue? ((if negative then ['-'] else []) ++ cs) = some (ofMagnitude negative m) := by
  obtain ⟨⟨c, ds, hcs, hc⟩, hchars, coefficient, exponent, hread, hm⟩ := h
  have hall : ((if negative then ['-'] else []) ++ cs).all isValueChar = true := by
    refine List.all_eq_true.mpr fun x hx => ?_
    rcases List.mem_append.mp hx with hx | hx
    · split_ifs at hx
      · obtain rfl := List.mem_singleton.mp hx
        decide
      · cases hx
    · exact hchars x hx
  have hnumeral := Writes.signed ⟨⟨c, ds, hcs, hc⟩, hchars, hread⟩ negative
  have hspecial {text : List Char} (ht : ∃ x ∈ text, isValueChar x = false) :
      (if negative then ['-'] else []) ++ cs ≠ text := by
    rintro rfl
    obtain ⟨x, hx, hfalse⟩ := ht
    rw [List.all_eq_true.mp hall x hx] at hfalse
    cases hfalse
  rw [readValue?, if_neg (hspecial ⟨'N', by decide, by decide⟩),
    if_neg (hspecial ⟨'I', by decide, by decide⟩), if_neg (hspecial ⟨'I', by decide, by decide⟩),
    if_pos hall, hnumeral, Option.map_some, toBinary64, ofDecimal_eq, hm]

/-- Besides the three special texts there are only numerals. -/
lemma valueText_cases (x : Binary64) : x.isNaN = true ∧ valueText x = ['N', 'a', 'N'] ∨
    x = infinity ∧ valueText x = ['+', 'I', 'n', 'f'] ∨
    x = negInfinity ∧ valueText x = ['-', 'I', 'n', 'f'] ∨
    x.isNaN = false ∧ ∃ cs, valueText x = (if x.negative then ['-'] else []) ++ cs ∧
      Spells cs x.magnitude := by
  unfold valueText
  by_cases hnan : x.isNaN = true
  · exact .inl ⟨hnan, if_pos hnan⟩
  · rw [if_neg hnan]
    by_cases hinf : x = infinity
    · exact .inr (.inl ⟨hinf, if_pos hinf⟩)
    · rw [if_neg hinf]
      by_cases hneg : x = negInfinity
      · exact .inr (.inr (.inl ⟨hneg, if_pos hneg⟩))
      · rw [if_neg hneg]
        rw [Bool.not_eq_true] at hnan
        have hm : x.magnitude < infinityBits := by
          by_contra hle
          exact (Json.eq_infinity hnan (decide_eq_false hle)).elim hinf hneg
        exact .inr (.inr (.inr ⟨hnan, _, rfl, spells_valueDigits hm⟩))

theorem readValue?_valueText (x : Binary64) : readValue? (valueText x) = some x.collapse := by
  rcases valueText_cases x with ⟨hx, ht⟩ | ⟨rfl, ht⟩ | ⟨rfl, ht⟩ | ⟨hx, cs, ht, hs⟩
  · rw [ht, Binary64.collapse, if_pos hx]
    rfl
  · rw [ht]
    rfl
  · rw [ht]
    rfl
  · rw [ht, readValue?_of_spells x.negative hs, ofMagnitude_magnitude, Binary64.collapse, hx]
    rfl

end Exposition

end PushGateway
