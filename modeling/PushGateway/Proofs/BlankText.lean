import Mathlib.Data.List.Basic
import Mathlib.Data.List.TakeWhile
import PushGateway.Name
import PushGateway.Proofs.Digits
import PushGateway.Text.Blank

/-! Text around blanks: what the trims leave, where words end, and that names have no blanks. -/

namespace PushGateway

namespace Text

section Blanks

variable {cs word : List Char}

lemma isBlank_of_any (h : cs.any isBlank = false) : ∀ c ∈ cs, isBlank c = false := by
  simpa using h

lemma trimStart_eq_self (h : ∀ c ∈ cs.head?, isBlank c = false) : trimStart cs = cs := by
  cases cs with
  | nil => rfl
  | cons c cs => exact List.dropWhile_cons_of_neg (by simpa using h c rfl)

lemma trimEnd_eq_self (h : ∀ c ∈ cs.getLast?, isBlank c = false) : trimEnd cs = cs := by
  have hreverse : trimStart cs.reverse = cs.reverse :=
    trimStart_eq_self (by rwa [List.head?_reverse])
  rw [trimEnd, ← trimStart, hreverse, List.reverse_reverse]

/-- Text without a blank at either end. -/
def Trimmed (cs : List Char) : Prop :=
  (∀ c ∈ cs.head?, isBlank c = false) ∧ ∀ c ∈ cs.getLast?, isBlank c = false

lemma Trimmed.trim_eq (h : Trimmed cs) : trim cs = cs := by
  rw [trim, trimStart_eq_self h.1, trimEnd_eq_self h.2]

lemma trimmed_word (hw : ∀ c ∈ word, isBlank c = false) : Trimmed word :=
  ⟨fun c hc => hw c (List.mem_of_head? hc), fun c hc => hw c (List.mem_of_getLast? hc)⟩

lemma trimStart_word_append (hw : ∀ c ∈ word, isBlank c = false) (hne : word ≠ []) :
    trimStart (word ++ cs) = word ++ cs := by
  refine trimStart_eq_self fun c hc => hw c ?_
  cases word with
  | nil => exact absurd rfl hne
  | cons d word =>
    obtain rfl : d = c := Option.some.inj hc
    exact List.mem_cons_self

lemma trimmed_append {first last : List Char} (cs : List Char)
    (hf : ∀ c ∈ first, isBlank c = false) (hl : ∀ c ∈ last, isBlank c = false) (hfn : first ≠ [])
    (hln : last ≠ []) : Trimmed (first ++ (cs ++ last)) := by
  constructor
  · intro c hc
    rw [List.head?_append_of_ne_nil _ hfn] at hc
    exact hf c (List.mem_of_head? hc)
  · intro c hc
    rw [List.getLast?_append_of_ne_nil _ (by simp [hln]),
      List.getLast?_append_of_ne_nil _ hln] at hc
    exact hl c (List.mem_of_getLast? hc)

lemma dropWhile_word (hw : ∀ c ∈ word, isBlank c = false) (cs : List Char) :
    (word ++ ' ' :: cs).dropWhile (fun c => !isBlank c) = ' ' :: cs ∧
      (word ++ ' ' :: cs).takeWhile (fun c => !isBlank c) = word := by
  have hpos : ∀ c ∈ word, (!isBlank c) = true := fun c hc => by rw [hw c hc]; rfl
  have hspace : ∀ c ∈ (' ' :: cs).head?, (!isBlank c) = false := by
    intro c hc
    obtain rfl : ' ' = c := Option.some.inj hc
    decide
  exact (span_append hpos hspace).symm

lemma splitAtBlank?_append (hw : ∀ c ∈ word, isBlank c = false) (cs : List Char) :
    splitAtBlank? (word ++ ' ' :: cs) = some (word, cs) := by
  obtain ⟨hdrop, htake⟩ := dropWhile_word hw cs
  simp only [splitAtBlank?, hdrop, htake]

lemma splitAtBlank?_word (hw : ∀ c ∈ word, isBlank c = false) : splitAtBlank? word = none := by
  have hdrop : word.dropWhile (fun c => !isBlank c) = [] :=
    List.dropWhile_eq_nil_iff.mpr fun c hc => by rw [hw c hc]; rfl
  simp only [splitAtBlank?, hdrop]

lemma fields_blank (cs : List Char) : fields (' ' :: cs) = fields cs := by
  have hsplit : ([] ++ ' ' :: cs).splitOnP isBlank = [] :: cs.splitOnP isBlank :=
    List.splitOnP_append_cons_of_forall_mem (by simp) ' ' (by decide) cs
  rw [fields, fields, ← List.nil_append (' ' :: cs), hsplit]
  rfl

lemma fields_word (hw : ∀ c ∈ word, isBlank c = false) (hne : word ≠ []) :
    fields word = [word] := by
  rw [fields, List.splitOnP_eq_singleton hw]
  simp [hne]

lemma fields_append (hw : ∀ c ∈ word, isBlank c = false) (hne : word ≠ []) (cs : List Char) :
    fields (word ++ ' ' :: cs) = word :: fields cs := by
  rw [fields, fields, List.splitOnP_append_cons_of_forall_mem hw ' ' (by decide)]
  simp [hne]

end Blanks

section Trims

variable {cs tail : List Char}

lemma trimStart_suffix (cs : List Char) : trimStart cs <:+ cs := List.dropWhile_suffix _

lemma head_trimStart (cs : List Char) : ∀ c ∈ (trimStart cs).head?, isBlank c = false := by
  intro c hc
  have h := List.head?_dropWhile_not isBlank cs
  rw [← trimStart, Option.mem_def.mp hc] at h
  exact h

lemma last_trim (cs : List Char) : ∀ c ∈ (trim cs).getLast?, isBlank c = false := by
  intro c hc
  rw [trim, trimEnd, List.getLast?_reverse] at hc
  exact head_trimStart _ c hc

lemma last_of_suffix (h : tail <:+ cs) (hcs : ∀ c ∈ cs.getLast?, isBlank c = false) :
    ∀ c ∈ tail.getLast?, isBlank c = false := by
  obtain ⟨first, rfl⟩ := h
  intro c hc
  have hne : tail ≠ [] := by
    rintro rfl
    cases hc
  exact hcs c (by rwa [List.getLast?_append_of_ne_nil _ hne])

/-- Blanks end where a word does. -/
lemma trimEnd_append {word : List Char} (hw : ∀ c ∈ word.getLast?, isBlank c = false)
    (cs : List Char) : trimEnd (word ++ cs) = word ++ trimEnd cs := by
  have hlast : word.reverse.dropWhile isBlank = word.reverse :=
    trimStart_eq_self (by rwa [List.head?_reverse])
  rw [trimEnd, trimEnd, List.reverse_append, List.dropWhile_append, hlast]
  by_cases hcs : cs.reverse.dropWhile isBlank = []
  · simp [hcs]
  · rw [if_neg (by simpa using hcs), List.reverse_append, List.reverse_reverse]

lemma trimEnd_cons (c : Char) (cs : List Char) : trimEnd (c :: cs) =
    if isBlank c = true ∧ trimEnd cs = [] then [] else c :: trimEnd cs := by
  rw [trimEnd, trimEnd, List.reverse_cons, List.dropWhile_append]
  by_cases hcs : cs.reverse.dropWhile isBlank = []
  · by_cases hc : isBlank c = true <;> simp [hcs, hc]
  · simp [hcs]

lemma trimStart_trimEnd (cs : List Char) : trimStart (trimEnd cs) = trim cs := by
  induction cs with
  | nil => rfl
  | cons c cs ih =>
    by_cases hc : isBlank c = true
    · have hstart : trimStart (c :: cs) = trimStart cs := List.dropWhile_cons_of_pos hc
      rw [trim, hstart, ← trim, ← ih, trimEnd_cons]
      by_cases hcs : trimEnd cs = []
      · rw [if_pos ⟨hc, hcs⟩, hcs]
      · rw [if_neg (fun h => hcs h.2)]
        exact List.dropWhile_cons_of_pos hc
    · have hstart (cs : List Char) : trimStart (c :: cs) = c :: cs :=
        List.dropWhile_cons_of_neg hc
      rw [trim, hstart, trimEnd_cons, if_neg (fun h => hc h.1), hstart]

lemma mem_of_mem_trim {c : Char} (h : c ∈ trim cs) : c ∈ cs := by
  have hstart : c ∈ trimStart cs := by
    rw [trim, trimEnd, List.mem_reverse] at h
    exact List.mem_reverse.mp ((List.dropWhile_suffix _).mem h)
  exact (trimStart_suffix cs).mem hstart

lemma splitAtBlank?_suffix {word rest : List Char} (h : splitAtBlank? cs = some (word, rest)) :
    rest <:+ cs := by
  unfold splitAtBlank? at h
  split at h
  · cases h
  · next c rest' hdrop =>
    obtain ⟨-, rfl⟩ := Prod.mk.inj (Option.some.inj h)
    have hsuffix := List.dropWhile_suffix (l := cs) (fun c => !isBlank c)
    rw [hdrop] at hsuffix
    exact (List.suffix_cons c rest').trans hsuffix

end Trims

end Text

namespace Name

lemma isBlank_of_isMetricChar {c : Char} (h : isMetricChar c = true) : Text.isBlank c = false := by
  have hrange : 48 ≤ c.toNat ∧ c.toNat ≤ 122 := by
    have hcolon : ':'.toNat = 58 := rfl
    have hscore : '_'.toNat = 95 := rfl
    have hzero : '0'.toNat = 48 := rfl
    have hnine : '9'.toNat = 57 := rfl
    have ha : 'a'.toNat = 97 := rfl
    have hz : 'z'.toNat = 122 := rfl
    have hA : 'A'.toNat = 65 := rfl
    have hZ : 'Z'.toNat = 90 := rfl
    simp only [isMetricChar, isLabelChar, isLetter, isDigit, Bool.or_eq_true, Bool.and_eq_true,
      decide_eq_true_eq, beq_iff_eq] at h
    rcases h with ((h | h) | rfl) | rfl <;> omega
  simp only [Text.isBlank, Bool.or_eq_false_iff, Bool.and_eq_false_iff, decide_eq_false_iff_not,
    beq_eq_false_iff_ne, ne_eq]
  omega

lemma isMetricChar_of_isMetricName {name : String} (h : isMetricName name = true) :
    name.toList ≠ [] ∧ ∀ c ∈ name.toList, isMetricChar c = true := by
  unfold isMetricName at h
  cases hn : name.toList with
  | nil => simp [hn] at h
  | cons c cs =>
    simp only [hn, Bool.and_eq_true, List.all_eq_true] at h
    exact ⟨by simp, List.forall_mem_cons.mpr ⟨h.1.1, h.2⟩⟩

lemma isBlank_of_mem_metricName {name : String} (h : isMetricName name = true) :
    ∀ c ∈ name.toList, Text.isBlank c = false :=
  fun c hc => isBlank_of_isMetricChar ((isMetricChar_of_isMetricName h).2 c hc)

lemma isLabelChar_of_isLabelName {name : String} (h : isLabelName name = true) :
    name.toList ≠ [] ∧ ∀ c ∈ name.toList, isLabelChar c = true := by
  unfold isLabelName at h
  cases hn : name.toList with
  | nil => simp [hn] at h
  | cons c cs =>
    simp only [hn, Bool.and_eq_true, List.all_eq_true] at h
    exact ⟨by simp, List.forall_mem_cons.mpr ⟨h.1.1, h.2⟩⟩

lemma isMetricChar_of_isLabelChar {c : Char} (h : isLabelChar c = true) :
    isMetricChar c = true := by
  rw [isMetricChar, h, Bool.true_or]

end Name

end PushGateway
