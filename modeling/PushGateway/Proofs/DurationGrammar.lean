import Mathlib.Algebra.BigOperators.Group.List.Basic
import Mathlib.Data.List.Forall2
import Mathlib.Data.List.Infix
import PushGateway.Duration
import PushGateway.Proofs.BlankText
import PushGateway.Proofs.Rounding

/-! The texts of durations as a grammar: a zero, or parts that are each an amount and a unit. The
scan ends on every text, finds exactly these parts, and adds up what they last. -/

namespace PushGateway

namespace Duration

section Rounding

/-- No whole number is nearer to the quotient, and a tie goes to the even one. -/
structure Nearest (num den n : Nat) : Prop where
  low : 2 * (n * den) ≤ 2 * num + den
  high : 2 * num ≤ 2 * (n * den) + den
  tie : 2 * (n * den) = 2 * num + den ∨ 2 * num = 2 * (n * den) + den → n % 2 = 0

variable {num den n m : Nat}

lemma nearest_roundDiv (hden : 0 < den) : Nearest num den (roundDiv num den) := by
  have hdiv := Nat.div_add_mod num den
  have hmod := Nat.mod_lt num hden
  unfold roundDiv
  dsimp only
  generalize num / den = q at *
  generalize num % den = r at *
  rw [Nat.mul_comm] at hdiv
  split_ifs with h
  · simp only [Bool.or_eq_true, decide_eq_true_eq, Bool.and_eq_true, beq_iff_eq] at h
    have hsucc : (q + 1) * den = q * den + den := Nat.succ_mul q den
    exact ⟨by omega, by omega, by omega⟩
  · simp only [Bool.or_eq_true, decide_eq_true_eq, Bool.and_eq_true, beq_iff_eq, not_or,
      not_and] at h
    exact ⟨by omega, by omega, by omega⟩

lemma Nearest.le (hden : 0 < den) (hn : Nearest num den n) (hm : Nearest num den m) : n ≤ m := by
  by_contra hlt
  -- both are half a unit away, so they are neighbours, and both are even
  have hmul : (m + 1) * den ≤ n * den := Nat.mul_le_mul_right den (by omega)
  rw [Nat.succ_mul] at hmul
  have hlow := hn.low
  have hhigh := hm.high
  have htie : 2 * (n * den) = 2 * num + den := by omega
  have htie' : 2 * num = 2 * (m * den) + den := by omega
  have heq : n * den = (m + 1) * den := by
    rw [Nat.succ_mul]
    omega
  have hsucc := Nat.eq_of_mul_eq_mul_right hden heq
  have heven := hn.tie (.inl htie)
  have heven' := hm.tie (.inr htie')
  omega

lemma roundDiv_eq_iff (hden : 0 < den) : roundDiv num den = n ↔ Nearest num den n := by
  constructor
  · rintro rfl
    exact nearest_roundDiv hden
  · intro h
    exact Nat.le_antisymm ((nearest_roundDiv hden).le hden h) (h.le hden (nearest_roundDiv hden))

end Rounding

section Amounts

variable {cs whole fraction more : List Char}

/-- Digits, of which there is at least one, with at most one point among them. -/
structure IsAmount (cs : List Char) : Prop where
  chars : ∀ c ∈ cs, isAmountChar c = true
  digit : ∃ c ∈ cs, Numeral.isDigit c = true
  point : cs.count '.' ≤ 1

/-- The number nearest to an amount: its digits, of which those after the point are decimals. -/
def amount (cs : List Char) : Binary64 :=
  Binary64.ofDecimal false (Numeral.ofDigits (cs.filter Numeral.isDigit))
    (-(cs.dropWhile Numeral.isDigit).tail.length)

lemma eq_point_of_not_digit {c : Char} (hc : isAmountChar c = true)
    (hd : Numeral.isDigit c = false) : c = '.' := by
  simpa [isAmountChar, hd] using hc

/-- What follows the digits at the start of an amount is nothing, or it starts with a point. -/
lemma exists_digits_append (h : ∀ c ∈ cs, isAmountChar c = true) : ∃ whole more,
    cs = whole ++ more ∧ (∀ c ∈ whole, Numeral.isDigit c = true) ∧
      (more = [] ∨ ∃ rest, more = '.' :: rest) := by
  refine ⟨cs.takeWhile Numeral.isDigit, cs.dropWhile Numeral.isDigit,
    List.takeWhile_append_dropWhile.symm, fun c hc => List.mem_takeWhile_imp hc, ?_⟩
  cases hd : cs.dropWhile Numeral.isDigit with
  | nil => exact .inl rfl
  | cons c rest =>
    have hmem : c ∈ cs := (List.dropWhile_suffix Numeral.isDigit).mem (hd ▸ List.mem_cons_self)
    have hnot := List.head?_dropWhile_not Numeral.isDigit cs
    rw [hd] at hnot
    obtain rfl := eq_point_of_not_digit (h c hmem) hnot
    exact .inr ⟨rest, rfl⟩

lemma splitSign_amount (h : ∀ c ∈ cs, isAmountChar c = true) :
    Numeral.splitSign cs = (false, cs) := by
  unfold Numeral.splitSign
  split
  · exact absurd (h '-' List.mem_cons_self) (by decide)
  · exact absurd (h '+' List.mem_cons_self) (by decide)
  · rfl

lemma point_notMem (h : ∀ c ∈ cs, Numeral.isDigit c = true) : '.' ∉ cs :=
  fun hm => absurd (h '.' hm) (by decide)

lemma span_digits (hw : ∀ c ∈ whole, Numeral.isDigit c = true)
    (hm : more = [] ∨ ∃ rest, more = '.' :: rest) :
    (whole ++ more).takeWhile Numeral.isDigit = whole ∧
      (whole ++ more).dropWhile Numeral.isDigit = more := by
  refine span_append hw fun c hc => ?_
  rcases hm with rfl | ⟨rest, rfl⟩
  · cases hc
  · obtain rfl : '.' = c := Option.some.inj hc
    decide

lemma exists_digit_iff (hw : ∀ c ∈ whole, Numeral.isDigit c = true) :
    (∃ c ∈ whole, Numeral.isDigit c = true) ↔ whole ≠ [] := by
  constructor
  · rintro ⟨c, hc, -⟩ rfl
    cases hc
  · intro hne
    obtain ⟨c, cs, rfl⟩ := List.exists_cons_of_ne_nil hne
    exact ⟨c, List.mem_cons_self, hw c List.mem_cons_self⟩

lemma isAmount_digits_iff (hw : ∀ c ∈ whole, Numeral.isDigit c = true) :
    IsAmount whole ↔ whole ≠ [] := by
  rw [← exists_digit_iff hw]
  refine ⟨IsAmount.digit, fun hdigit => ⟨fun c hc => ?_, hdigit, ?_⟩⟩
  · rw [isAmountChar, hw c hc, Bool.true_or]
  · rw [List.count_eq_zero_of_not_mem (point_notMem hw)]
    decide

lemma count_point (hw : ∀ c ∈ whole, Numeral.isDigit c = true)
    (hf : ∀ c ∈ fraction, Numeral.isDigit c = true) (more : List Char) :
    (whole ++ '.' :: (fraction ++ more)).count '.' = more.count '.' + 1 := by
  rw [List.count_append, List.count_cons_self, List.count_append,
    List.count_eq_zero_of_not_mem (point_notMem hw),
    List.count_eq_zero_of_not_mem (point_notMem hf), Nat.zero_add, Nat.zero_add]

lemma isAmount_point_iff (hw : ∀ c ∈ whole, Numeral.isDigit c = true)
    (hf : ∀ c ∈ fraction, Numeral.isDigit c = true) :
    IsAmount (whole ++ '.' :: fraction) ↔ whole ≠ [] ∨ fraction ≠ [] := by
  have hpoint : Numeral.isDigit '.' = false := by decide
  have hdigits : (∃ c ∈ whole ++ '.' :: fraction, Numeral.isDigit c = true) ↔
      whole ≠ [] ∨ fraction ≠ [] := by
    rw [← exists_digit_iff hw, ← exists_digit_iff hf]
    simp only [List.mem_append, List.mem_cons, or_and_right, exists_or, exists_eq_left, hpoint,
      Bool.false_eq_true, false_or]
  have hcount := count_point hw hf []
  rw [List.append_nil] at hcount
  rw [← hdigits]
  refine ⟨IsAmount.digit, fun hdigit => ⟨fun c hc => ?_, hdigit, hcount.le⟩⟩
  rcases List.mem_append.mp hc with hc | hc
  · rw [isAmountChar, hw c hc, Bool.true_or]
  · rcases List.mem_cons.mp hc with rfl | hc
    · rfl
    · rw [isAmountChar, hf c hc, Bool.true_or]

lemma not_isAmount_points (hw : ∀ c ∈ whole, Numeral.isDigit c = true)
    (hf : ∀ c ∈ fraction, Numeral.isDigit c = true) (rest : List Char) :
    ¬ IsAmount (whole ++ '.' :: (fraction ++ '.' :: rest)) := by
  intro hamount
  have hle := hamount.point
  rw [count_point hw hf, List.count_cons_self] at hle
  omega

/-- Among runs of digits and points exactly the amounts are numerals. -/
lemma read?_amount_iff {x : Binary64} (h : ∀ c ∈ cs, isAmountChar c = true) :
    (Numeral.read? cs).map Numeral.toBinary64 = some x ↔ IsAmount cs ∧ amount cs = x := by
  have hsign := splitSign_amount h
  obtain ⟨whole, more, rfl, hw, hm⟩ := exists_digits_append h
  obtain ⟨htake, hdrop⟩ := span_digits hw hm
  have hwhole : whole.filter Numeral.isDigit = whole := List.filter_eq_self.mpr hw
  simp only [Numeral.read?, hsign, htake, hdrop, amount]
  rcases hm with rfl | ⟨rest, rfl⟩
  · -- no point
    rw [List.append_nil, isAmount_digits_iff hw]
    by_cases hne : whole = []
    · simp [hne, Numeral.splitFraction]
    · simp [hne, Numeral.splitFraction, Numeral.readExponent?, Numeral.toBinary64, hwhole]
  · have hrest : ∀ c ∈ rest, isAmountChar c = true := fun c hc => h c (by simp [hc])
    obtain ⟨fraction, more, rfl, hf, hmore⟩ := exists_digits_append hrest
    obtain ⟨htake', hdrop'⟩ := span_digits hf hmore
    have hfraction : fraction.filter Numeral.isDigit = fraction := List.filter_eq_self.mpr hf
    have hpoint : Numeral.isDigit '.' = false := by decide
    simp only [Numeral.splitFraction, htake', hdrop']
    rcases hmore with rfl | ⟨rest, rfl⟩
    · -- one point
      rw [List.append_nil, isAmount_point_iff hw hf]
      by_cases hne : whole = [] ∧ fraction = []
      · simp [hne]
      · have hor : whole ≠ [] ∨ fraction ≠ [] := by rwa [← not_and_or]
        have hboth : (whole.isEmpty && fraction.isEmpty) = false := by
          rw [Bool.and_eq_false_iff, List.isEmpty_eq_false_iff, List.isEmpty_eq_false_iff]
          exact hor
        simp [hboth, hor, Numeral.readExponent?, Numeral.toBinary64, hwhole, hfraction, hpoint]
    · -- two points or more
      have hexponent : Numeral.readExponent? ('.' :: rest) = none := rfl
      simp [not_isAmount_points hw hf, hexponent]

end Amounts

section Parts

/-- The letters of a unit. -/
def Unit.text : Unit → List Char
  | .millisecond => ['m', 's']
  | .second => ['s']
  | .minute => ['m']
  | .hour => ['h']

lemma Unit.read?_eq_some_iff {cs : List Char} {u : Unit} :
    Unit.read? cs = some u ↔ cs = u.text := by
  constructor
  · intro h
    unfold Unit.read? at h
    split at h
    case h_5 => cases h
    all_goals
      obtain rfl := Option.some.inj h
      rfl
  · rintro rfl
    cases u <;> rfl

lemma Unit.text_ne_nil (u : Unit) : u.text ≠ [] := by cases u <;> simp [Unit.text]

lemma Unit.isAmountChar_of_mem_text {u : Unit} {c : Char} (h : c ∈ u.text) :
    isAmountChar c = false := by
  cases u with
  | millisecond => rcases List.mem_pair.mp h with rfl | rfl <;> decide
  | second | minute | hour =>
    obtain rfl := List.mem_singleton.mp h
    decide

/-- An amount and its unit. -/
structure Part where
  amount : List Char
  unit : Unit
  isAmount : IsAmount amount

namespace Part

def text (p : Part) : List Char := p.amount ++ p.unit.text

/-- The number of the amount times the unit. -/
def seconds (p : Part) : Binary64 := (Duration.amount p.amount).mul p.unit.seconds

/-- The part lasts so many nanoseconds: its seconds, rounded to the nearest one. -/
structure Lasts (p : Part) (n : Nat) : Prop where
  amount : (Duration.amount p.amount).isFinite = true
  seconds : p.seconds.isFinite = true
  nearest : Nearest (Binary64.units p.seconds.magnitude * nanosPerSecond) Binary64.unitsPerOne n

end Part

variable {cs rest : List Char} {p : Part} {parts : List Part} {n : Nat} {ns : List Nat}

lemma ofBinarySeconds?_eq_some_iff {x : Binary64} : ofBinarySeconds? x = some n ↔
    x.isFinite = true ∧
      Nearest (Binary64.units x.magnitude * nanosPerSecond) Binary64.unitsPerOne n ∧ n < limit := by
  rw [← roundDiv_eq_iff Binary64.unitsPerOne_pos]
  unfold ofBinarySeconds?
  dsimp only
  split_ifs with hfinite hlimit
  · simp only [Bool.not_eq_true'] at hfinite
    simp [hfinite]
  · simp only [Bool.not_eq_true', Bool.not_eq_false] at hfinite
    simp only [hfinite, Option.some.injEq, true_and]
    exact ⟨fun h => ⟨h, h ▸ hlimit⟩, And.left⟩
  · simp only [Bool.not_eq_true', Bool.not_eq_false] at hfinite
    simp only [hfinite, true_and, false_iff, not_and]
    exact fun h => h ▸ hlimit

lemma part?_eq_some_iff {amount unit : List Char} (h : ∀ c ∈ amount, isAmountChar c = true) :
    part? amount unit = some n ↔
      ∃ p : Part, p.amount = amount ∧ p.unit.text = unit ∧ p.Lasts n ∧ n < limit := by
  simp only [part?, Option.bind_eq_bind, Option.bind_eq_some_iff]
  constructor
  · rintro ⟨x, hx, u, hu, hn⟩
    split_ifs at hn with hfinite
    obtain ⟨hseconds, hnearest, hlt⟩ := ofBinarySeconds?_eq_some_iff.mp hn
    have hread : (Numeral.read? amount).map Numeral.toBinary64 = some x.toBinary64 := by
      rw [hx, Option.map_some]
    obtain ⟨hamount, hvalue⟩ := (read?_amount_iff h).mp hread
    rw [← hvalue] at hfinite hseconds hnearest
    exact ⟨⟨amount, u, hamount⟩, rfl, (Unit.read?_eq_some_iff.mp hu).symm,
      ⟨hfinite, hseconds, hnearest⟩, hlt⟩
  · rintro ⟨p, rfl, rfl, hp, hlt⟩
    obtain ⟨x, hx, hvalue⟩ := Option.map_eq_some_iff.mp ((read?_amount_iff h).mpr ⟨p.isAmount, rfl⟩)
    refine ⟨x, hx, p.unit, Unit.read?_eq_some_iff.mpr rfl, ?_⟩
    rw [hvalue, if_pos hp.amount]
    exact ofBinarySeconds?_eq_some_iff.mpr ⟨hp.seconds, hp.nearest, hlt⟩

/-- One pass of the scan: how long the part at the start of a text lasts, and what follows it. -/
def pass? (cs : List Char) : Option (Nat × List Char) :=
  let unitOn := cs.dropWhile isAmountChar
  (part? (cs.takeWhile isAmountChar) (unitOn.takeWhile fun c => !isAmountChar c)).map fun n =>
    (n, unitOn.dropWhile fun c => !isAmountChar c)

lemma parts?_eq (h : cs ≠ []) :
    parts? cs = (pass? cs).bind fun p => (parts? p.2).map (p.1 :: ·) := by
  obtain ⟨c, cs, rfl⟩ := List.exists_cons_of_ne_nil h
  rw [parts?, pass?]
  cases part? ((c :: cs).takeWhile isAmountChar)
    (((c :: cs).dropWhile isAmountChar).takeWhile fun d => !isAmountChar d) with
  | none => rfl
  | some n =>
    simp only [Option.bind_eq_bind, Option.bind_some, Option.map_some]
    cases parts? (((c :: cs).dropWhile isAmountChar).dropWhile fun d => !isAmountChar d) <;> rfl

lemma pass?_eq_some_iff : pass? cs = some (n, rest) ↔
    (∃ p : Part, cs = p.text ++ rest ∧ p.Lasts n ∧ n < limit) ∧
      ∀ c ∈ rest.head?, isAmountChar c = true := by
  constructor
  · intro h
    obtain ⟨m, hm, heq⟩ := Option.map_eq_some_iff.mp h
    obtain ⟨rfl, rfl⟩ := Prod.mk.inj heq
    obtain ⟨p, hamount, hunit, hp, hlt⟩ :=
      (part?_eq_some_iff fun c hc => List.mem_takeWhile_imp hc).mp hm
    refine ⟨⟨p, ?_, hp, hlt⟩, fun c hc => ?_⟩
    · rw [Part.text, hamount, hunit, List.append_assoc, List.takeWhile_append_dropWhile,
        List.takeWhile_append_dropWhile]
    · have hnot := List.head?_dropWhile_not (fun c => !isAmountChar c) (cs.dropWhile isAmountChar)
      rw [Option.mem_def.mp hc] at hnot
      simpa using hnot
  · rintro ⟨⟨p, rfl, hp, hlt⟩, hrest⟩
    obtain ⟨u, us, hu⟩ := List.exists_cons_of_ne_nil p.unit.text_ne_nil
    have hunit : ∀ c ∈ p.unit.text, (!isAmountChar c) = true := fun c hc => by
      rw [Unit.isAmountChar_of_mem_text hc]
      rfl
    have hnext : ∀ c ∈ (p.unit.text ++ rest).head?, isAmountChar c = false := by
      intro c hc
      rw [hu] at hc
      obtain rfl : u = c := Option.some.inj hc
      exact Unit.isAmountChar_of_mem_text (hu ▸ List.mem_cons_self)
    obtain ⟨htake, hdrop⟩ := span_append p.isAmount.chars hnext
    obtain ⟨htake', hdrop'⟩ := span_append hunit fun c hc => by rw [hrest c hc]; rfl
    rw [pass?, Part.text, List.append_assoc, htake, hdrop, htake', hdrop',
      (part?_eq_some_iff p.isAmount.chars).mpr ⟨p, rfl, rfl, hp, hlt⟩, Option.map_some]

lemma Part.text_ne_nil (p : Part) : p.text ≠ [] :=
  List.append_ne_nil_of_right_ne_nil _ p.unit.text_ne_nil

/-- Each pass takes something off the text. -/
lemma length_of_pass? (h : pass? cs = some (n, rest)) : rest.length < cs.length := by
  obtain ⟨⟨p, rfl, -⟩, -⟩ := pass?_eq_some_iff.mp h
  have hpos := List.length_pos_of_ne_nil p.text_ne_nil
  rw [List.length_append]
  omega

/-- The passes of the scan from one text to another, with what they find. -/
inductive Scans : List Char → List Nat → List Char → Prop
  | refl (cs : List Char) : Scans cs [] cs
  | pass {cs rest last : List Char} {n : Nat} {ns : List Nat} (hne : cs ≠ [])
      (hpass : pass? cs = some (n, rest)) (hrest : Scans rest ns last) : Scans cs (n :: ns) last

variable {last : List Char}

lemma Scans.parts?_eq (h : Scans cs ns last) : parts? cs = (parts? last).map (ns ++ ·) := by
  induction h with
  | refl cs =>
    simp
  | pass hne hpass _ ih =>
    rw [Duration.parts?_eq hne, hpass, Option.bind_some, ih, Option.map_map]
    rfl

/-- The scan stops at the end of the text or at a place where no part starts. -/
lemma exists_scans (cs : List Char) : ∃ ns last, Scans cs ns last ∧
    (last = [] ∨ last ≠ [] ∧ pass? last = none) := by
  induction hlen : cs.length using Nat.strongRecOn generalizing cs with
  | ind k ih =>
    by_cases hne : cs = []
    · exact ⟨[], cs, .refl cs, .inl hne⟩
    · cases hpass : pass? cs with
      | none => exact ⟨[], cs, .refl cs, .inr ⟨hne, hpass⟩⟩
      | some p =>
        obtain ⟨n, rest⟩ := p
        obtain ⟨ns, last, hscans, hlast⟩ := ih rest.length (hlen ▸ length_of_pass? hpass) rest rfl
        exact ⟨n :: ns, last, .pass hne hpass hscans, hlast⟩

lemma parts?_eq_some_iff_scans : parts? cs = some ns ↔ Scans cs ns [] := by
  constructor
  · intro h
    obtain ⟨ms, last, hscans, rfl | ⟨hne, hpass⟩⟩ := exists_scans cs
    · rw [hscans.parts?_eq, parts?] at h
      simp only [Option.map_some, List.append_nil] at h
      exact Option.some.inj h ▸ hscans
    · rw [hscans.parts?_eq, Duration.parts?_eq hne, hpass] at h
      cases h
  · intro h
    rw [h.parts?_eq, parts?]
    simp

lemma head_flatMap_text : ∀ c ∈ (parts.flatMap Part.text).head?, isAmountChar c = true := by
  cases parts with
  | nil => simp
  | cons p parts =>
    obtain ⟨c, hc, -⟩ := p.isAmount.digit
    obtain ⟨d, ds, hds⟩ := List.exists_cons_of_ne_nil (List.ne_nil_of_mem hc)
    intro e he
    rw [List.flatMap_cons, Part.text, hds] at he
    obtain rfl : d = e := Option.some.inj he
    exact p.isAmount.chars d (hds ▸ List.mem_cons_self)

/-- What the scan finds are the parts of the text, each of them in range. -/
lemma scans_iff : Scans cs ns [] ↔ ∃ parts : List Part, cs = parts.flatMap Part.text ∧
    List.Forall₂ Part.Lasts parts ns ∧ ∀ n ∈ ns, n < limit := by
  constructor
  · intro h
    generalize hlast : ([] : List Char) = last at h
    induction h with
    | refl cs =>
      subst hlast
      exact ⟨[], rfl, .nil, by simp⟩
    | pass hne hpass _ ih =>
      obtain ⟨parts, rfl, hlasts, hlt⟩ := ih hlast
      obtain ⟨⟨p, rfl, hp, hn⟩, -⟩ := pass?_eq_some_iff.mp hpass
      exact ⟨p :: parts, rfl, .cons hp hlasts, List.forall_mem_cons.mpr ⟨hn, hlt⟩⟩
  · rintro ⟨parts, rfl, hlasts, hlt⟩
    induction hlasts with
    | nil => exact .refl []
    | @cons p n parts ns hp _ ih =>
      obtain ⟨hn, hlt⟩ := List.forall_mem_cons.mp hlt
      rw [List.flatMap_cons]
      exact .pass (List.append_ne_nil_of_left_ne_nil p.text_ne_nil _)
        (pass?_eq_some_iff.mpr ⟨⟨p, rfl, hp, hn⟩, head_flatMap_text⟩) (ih hlt)

end Parts

section Texts

variable {cs : List Char} {d : Duration} {ns : List Nat} {s a b : String}

/-- The durations that a text without blanks at its ends stands for: a zero, or the sum of its
parts. No part and no running sum is out of range. -/
def Denotes (cs : List Char) (d : Duration) : Prop :=
  cs = ['0'] ∧ d.nanos = 0 ∨
    ∃ (parts : List Part) (ns : List Nat), parts ≠ [] ∧ cs = parts.flatMap Part.text ∧
      List.Forall₂ Part.Lasts parts ns ∧ (∀ n ∈ ns, n < limit) ∧
      (∀ first, first <+: ns → first.sum < limit) ∧ d.nanos = ns.sum

lemma total_eq_sum (ns : List Nat) : total ns = ns.sum := rfl

lemma sum_le_of_isPrefix {first : List Nat} (h : first <+: ns) : first.sum ≤ ns.sum := by
  obtain ⟨rest, rfl⟩ := h
  rw [List.sum_append]
  exact Nat.le_add_right _ _

/-- Texts other than a zero, through their parts. -/
lemma read?_eq_some_iff_parts (hzero : cs ≠ ['0']) : read? cs = some d ↔
    cs ≠ [] ∧ ∃ ns, parts? cs = some ns ∧ ns.sum < limit ∧ d.nanos = ns.sum := by
  have hsum (ns : List Nat) :
      (if total ns < limit then some (⟨total ns⟩ : Duration) else none) = some d ↔
        ns.sum < limit ∧ d.nanos = ns.sum := by
    obtain ⟨nanos⟩ := d
    rw [total_eq_sum, Option.ite_none_right_eq_some, Option.some.injEq, Duration.mk.injEq,
      eq_comm (a := ns.sum)]
  rw [read?, if_neg hzero]
  by_cases hne : cs = []
  · simp [hne]
  · rw [if_neg hne, Option.bind_eq_some_iff]
    simp only [hsum, ne_eq, hne, not_false_eq_true, true_and]

lemma parts_ne_zero {parts : List Part} (hne : parts ≠ []) :
    parts.flatMap Part.text ≠ ['0'] ∧ parts.flatMap Part.text ≠ [] := by
  obtain ⟨p, parts, rfl⟩ := List.exists_cons_of_ne_nil hne
  obtain ⟨c, hc, -⟩ := p.isAmount.digit
  have hamount := List.length_pos_of_mem hc
  have hunit := List.length_pos_of_ne_nil p.unit.text_ne_nil
  have hlength : 2 ≤ ((p :: parts).flatMap Part.text).length := by
    rw [List.flatMap_cons, List.length_append, Part.text, List.length_append]
    omega
  constructor
  · intro h
    rw [h, List.length_singleton] at hlength
    omega
  · intro h
    rw [h, List.length_nil] at hlength
    omega

theorem read?_eq_some_iff : read? cs = some d ↔ Denotes cs d := by
  by_cases hzero : cs = ['0']
  · subst hzero
    constructor
    · intro h
      obtain rfl : (⟨0⟩ : Duration) = d := Option.some.inj h
      exact .inl ⟨rfl, rfl⟩
    · rintro (⟨-, h⟩ | ⟨parts, ns, hne, hcs, -⟩)
      · obtain ⟨nanos⟩ := d
        obtain rfl : nanos = 0 := h
        rfl
      · exact absurd hcs.symm (parts_ne_zero hne).1
  · rw [read?_eq_some_iff_parts hzero]
    constructor
    · rintro ⟨hcs, ns, hparts, hlt, hd⟩
      obtain ⟨parts, rfl, hlasts, hlimit⟩ := scans_iff.mp (parts?_eq_some_iff_scans.mp hparts)
      refine .inr ⟨parts, ns, ?_, rfl, hlasts, hlimit, ?_, hd⟩
      · rintro rfl
        exact hcs rfl
      · exact fun first hfirst => Nat.lt_of_le_of_lt (sum_le_of_isPrefix hfirst) hlt
    · rintro (⟨h, -⟩ | ⟨parts, ns, hne, rfl, hlasts, hlimit, hsums, hd⟩)
      · exact absurd h hzero
      · exact ⟨(parts_ne_zero hne).2, ns,
          parts?_eq_some_iff_scans.mpr (scans_iff.mpr ⟨parts, rfl, hlasts, hlimit⟩),
          hsums ns List.prefix_rfl, hd⟩

lemma parse_eq_ok_iff : parse s = .ok d ↔ read? (Text.trim s.toList) = some d := by
  unfold parse
  split
  · next d' h => simp [h]
  · next h => simp [h]

/-- The parts of two texts, one after the other. -/
lemma parts?_append {cs' : List Char} {ns' : List Nat} (h : parts? cs = some ns)
    (h' : parts? cs' = some ns') : parts? (cs ++ cs') = some (ns ++ ns') := by
  rw [parts?_eq_some_iff_scans, scans_iff] at h h' ⊢
  obtain ⟨parts, rfl, hlasts, hlt⟩ := h
  obtain ⟨parts', rfl, hlasts', hlt'⟩ := h'
  refine ⟨parts ++ parts', List.flatMap_append.symm, List.rel_append hlasts hlasts', ?_⟩
  exact fun n hn => (List.mem_append.mp hn).elim (hlt n) (hlt' n)

lemma trimmed_append {cs cs' : List Char} (h : Text.Trimmed cs) (h' : Text.Trimmed cs')
    (hne : cs ≠ []) (hne' : cs' ≠ []) : Text.Trimmed (cs ++ cs') := by
  constructor
  · rw [List.head?_append_of_ne_nil _ hne]
    exact h.1
  · rw [List.getLast?_append_of_ne_nil _ hne']
    exact h'.2

lemma exists_parts_of_parse (hs : Text.Trimmed s.toList) (hzero : s ≠ "0") (h : parse s = .ok d) :
    s.toList ≠ [] ∧ ∃ ns, parts? s.toList = some ns ∧ d.nanos = ns.sum := by
  have hne : s.toList ≠ ['0'] := fun he => hzero (String.toList_injective he)
  rw [parse_eq_ok_iff, hs.trim_eq, read?_eq_some_iff_parts hne] at h
  obtain ⟨hnil, ns, hparts, -, hd⟩ := h
  exact ⟨hnil, ns, hparts, hd⟩

/-- One text after another lasts as long as both, unless that is out of range. -/
lemma parse_append {da db : Duration} (ha : Text.Trimmed a.toList) (hb : Text.Trimmed b.toList)
    (ha0 : a ≠ "0") (hb0 : b ≠ "0") (hda : parse a = .ok da) (hdb : parse b = .ok db) :
    parse (a ++ b) = if da.nanos + db.nanos < limit then .ok ⟨da.nanos + db.nanos⟩
      else .error ⟨a ++ b⟩ := by
  obtain ⟨hane, ns, hns, hda⟩ := exists_parts_of_parse ha ha0 hda
  obtain ⟨hbne, ms, hms, hdb⟩ := exists_parts_of_parse hb hb0 hdb
  have htrim : Text.trim (a ++ b).toList = a.toList ++ b.toList := by
    rw [String.toList_append]
    exact (trimmed_append ha hb hane hbne).trim_eq
  have hzero : a.toList ++ b.toList ≠ ['0'] := by
    intro h
    have hlength := congrArg List.length h
    have hapos := List.length_pos_of_ne_nil hane
    have hbpos := List.length_pos_of_ne_nil hbne
    rw [List.length_append, List.length_singleton] at hlength
    omega
  have hsum : (ns ++ ms).sum = da.nanos + db.nanos := by rw [List.sum_append, hda, hdb]
  rw [parse, htrim, read?, if_neg hzero, if_neg (List.append_ne_nil_of_left_ne_nil hane _),
    parts?_append hns hms, Option.bind_some, total_eq_sum, hsum]
  split_ifs
  · rfl
  · rfl

/-- A text is a duration exactly if it is a zero or made of parts in range, the scan of it comes to
an end in any case, and a text after another adds to it. -/
theorem parse_denotes :
    (∀ s d, parse s = .ok d ↔ Denotes (Text.trim s.toList) d) ∧
    (∀ a b da db, Text.Trimmed a.toList → Text.Trimmed b.toList → a ≠ "0" → b ≠ "0" →
      parse a = .ok da → parse b = .ok db →
        parse (a ++ b) = if da.nanos + db.nanos < limit then .ok ⟨da.nanos + db.nanos⟩
          else .error ⟨a ++ b⟩) ∧
    ∀ cs, ∃ ns last, Scans cs ns last ∧
      (last = [] ∧ parts? cs = some ns ∨ last ≠ [] ∧ pass? last = none ∧ parts? cs = none) := by
  refine ⟨fun s d => ?_, fun a b da db => parse_append, fun cs => ?_⟩
  · rw [parse_eq_ok_iff, read?_eq_some_iff]
  · obtain ⟨ns, last, hscans, rfl | ⟨hne, hpass⟩⟩ := exists_scans cs
    · exact ⟨ns, [], hscans, .inl ⟨rfl, parts?_eq_some_iff_scans.mpr hscans⟩⟩
    · refine ⟨ns, last, hscans, .inr ⟨hne, hpass, ?_⟩⟩
      rw [hscans.parts?_eq, Duration.parts?_eq hne, hpass]
      rfl

/-- Half the range is read, and twice that text is out of range. -/
theorem parse_denotes_out_of_range :
    parse "1.5m250ms" = .ok ⟨90250000000⟩ ∧
      parse "9223372036854775808s9223372036854775808s"
        = .error ⟨"9223372036854775808s9223372036854775808s"⟩ := by
  have htrimmed (s : String) (h : s.toList.any Text.isBlank = false) : Text.Trimmed s.toList :=
    Text.trimmed_word (Text.isBlank_of_any h)
  have happend := parse_denotes.2.1
  have hminutes : parse "1.5m" = .ok ⟨90000000000⟩ := by decide +kernel
  have hmillis : parse "250ms" = .ok ⟨250000000⟩ := by decide +kernel
  have hhalf : parse "9223372036854775808s" = .ok ⟨9223372036854775808000000000⟩ := by
    decide +kernel
  have hsum := happend _ _ _ _ (htrimmed _ (by decide)) (htrimmed _ (by decide)) (by decide)
    (by decide) hminutes hmillis
  have hover := happend _ _ _ _ (htrimmed _ (by decide)) (htrimmed _ (by decide)) (by decide)
    (by decide) hhalf hhalf
  rw [if_pos (by decide)] at hsum
  rw [if_neg (by decide)] at hover
  exact ⟨hsum, hover⟩

end Texts

end Duration

end PushGateway
