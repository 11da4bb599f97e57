import Mathlib.Data.List.Basic
import PushGateway.Text.Escape

/-! Escaped text. The readers take the escape of a character for that character, and a newline also
for itself, and nothing else. So on one line of text what is written and what is read determine each
other. -/

namespace PushGateway

namespace Text

section Spellings

variable {escape : Char → List Char} {c : Char} {read rest tail spelling cs text : List Char}

def IsSpelling (escape : Char → List Char) (c : Char) (spelling : List Char) : Prop :=
  spelling = escape c ∨ c = '\n' ∧ spelling = ['\n']

/-- The texts that spell another text, character by character, in front of a tail. -/
inductive Spelled (escape : Char → List Char) (tail : List Char) : List Char → List Char → Prop
  | nil : Spelled escape tail tail []
  | cons {c : Char} {spelling cs text : List Char} : IsSpelling escape c spelling →
      Spelled escape tail cs text → Spelled escape tail (spelling ++ cs) (c :: text)

lemma spelled_flatMap (escape : Char → List Char) (tail text : List Char) :
    Spelled escape tail (text.flatMap escape ++ tail) text := by
  induction text with
  | nil => exact .nil
  | cons c text ih =>
    rw [List.flatMap_cons, List.append_assoc]
    exact .cons (.inl rfl) ih

/-- Only a newline has a spelling that is not its escape. -/
lemma Spelled.eq_flatMap (h : Spelled escape tail cs text) (hn : '\n' ∉ cs) :
    cs = text.flatMap escape ++ tail := by
  induction h with
  | nil => rfl
  | cons hs _ ih =>
    rw [List.mem_append, not_or] at hn
    rcases hs with rfl | ⟨rfl, rfl⟩
    · rw [List.flatMap_cons, List.append_assoc, ← ih hn.2]
    · exact absurd List.mem_cons_self hn.1

/-- A text that follows the characters read so far, which are last first. -/
def SpelledAfter (escape : Char → List Char) (tail read cs text : List Char) : Prop :=
  ∃ more, text = read.reverse ++ more ∧ Spelled escape tail cs more

lemma spelledAfter_nil : SpelledAfter escape tail [] cs text ↔ Spelled escape tail cs text := by
  simp [SpelledAfter]

lemma SpelledAfter.cons (hs : IsSpelling escape c spelling)
    (h : SpelledAfter escape tail (c :: read) cs text) :
    SpelledAfter escape tail read (spelling ++ cs) text := by
  obtain ⟨more, rfl, hmore⟩ := h
  exact ⟨c :: more, by simp, hmore.cons hs⟩

lemma newline_notMem_flatMap (h : ∀ c, '\n' ∉ escape c) (cs : List Char) :
    '\n' ∉ cs.flatMap escape := by
  intro hn
  obtain ⟨c, -, hc⟩ := List.mem_flatMap.mp hn
  exact h c hc

end Spellings

section Values

variable {c : Char} {read rest spelling cs text : List Char}

lemma isSpelling_value (hb : c ≠ '\\') (hq : c ≠ '"') : IsSpelling escapeValueChar c [c] := by
  by_cases hn : c = '\n'
  · exact .inr ⟨hn, by rw [hn]⟩
  · exact .inl (by simp [escapeValueChar, hb, hn, hq])

lemma unescapeValue_plain (hb : c ≠ '\\') (hq : c ≠ '"') (read cs : List Char) :
    unescapeValue read (c :: cs) = unescapeValue (c :: read) cs := by
  rw [unescapeValue]
  all_goals simp [hb, hq]

lemma unescapeValue_spelling (hs : IsSpelling escapeValueChar c spelling) (read cs : List Char) :
    unescapeValue read (spelling ++ cs) = unescapeValue (c :: read) cs := by
  rcases hs with rfl | ⟨rfl, rfl⟩
  · unfold escapeValueChar
    split_ifs with hb hn hq
    · rw [hb]
      rfl
    · rw [hn]
      rfl
    · rw [hq]
      rfl
    · exact unescapeValue_plain hb hq read cs
  · exact unescapeValue_plain (by decide) (by decide) read cs

lemma Spelled.unescapeValue_eq (h : Spelled escapeValueChar ('"' :: rest) cs text)
    (read : List Char) : unescapeValue read cs = .ok (read.reverse ++ text, rest) := by
  induction h generalizing read with
  | nil => simp [unescapeValue]
  | cons hs _ ih => rw [unescapeValue_spelling hs, ih, List.reverse_cons, ← List.append_cons]

lemma spelledAfter_of_unescapeValue (h : unescapeValue read cs = .ok (text, rest)) :
    SpelledAfter escapeValueChar ('"' :: rest) read cs text := by
  fun_induction unescapeValue read cs with
  | case1 => cases h
  | case2 read rest' =>
    obtain ⟨rfl, rfl⟩ := Prod.mk.inj (Except.ok.inj h)
    exact ⟨[], (List.append_nil _).symm, .nil⟩
  | case3 read rest' ih => exact .cons (.inl rfl) (ih h)
  | case4 read rest' ih => exact .cons (.inl rfl) (ih h)
  | case5 read rest' ih => exact .cons (.inl rfl) (ih h)
  | case6 => cases h
  | case7 => cases h
  | case8 read c rest' hq _ _ _ hmore hnone ih =>
    have hb : c ≠ '\\' := by
      intro hb
      cases rest' with
      | nil => exact hnone hb rfl
      | cons d rest' => exact hmore d rest' hb rfl
    exact .cons (isSpelling_value hb hq) (ih h)

theorem unescapeValue_eq_ok_iff :
    unescapeValue [] cs = .ok (text, rest) ↔ Spelled escapeValueChar ('"' :: rest) cs text :=
  ⟨fun h => spelledAfter_nil.mp (spelledAfter_of_unescapeValue h), fun h => h.unescapeValue_eq []⟩

lemma unescapeValue_escapeValue (read value rest : List Char) :
    unescapeValue read (escapeValue value ++ '"' :: rest) = .ok (read.reverse ++ value, rest) :=
  (spelled_flatMap escapeValueChar ('"' :: rest) value).unescapeValue_eq read

lemma newline_notMem_escapeValue (cs : List Char) : '\n' ∉ escapeValue cs := by
  refine newline_notMem_flatMap (fun c => ?_) cs
  unfold escapeValueChar
  split_ifs with hb hn hq
  · decide
  · decide
  · decide
  · exact fun h => hn (List.mem_singleton.mp h).symm

end Values

section Helps

variable {c : Char} {read spelling cs text : List Char}

lemma isSpelling_help (hb : c ≠ '\\') : IsSpelling escapeHelpChar c [c] := by
  by_cases hn : c = '\n'
  · exact .inr ⟨hn, by rw [hn]⟩
  · exact .inl (by simp [escapeHelpChar, hb, hn])

lemma unescapeHelp_plain (hb : c ≠ '\\') (read cs : List Char) :
    unescapeHelp read (c :: cs) = unescapeHelp (c :: read) cs := by
  rw [unescapeHelp]
  all_goals simp [hb]

lemma unescapeHelp_spelling (hs : IsSpelling escapeHelpChar c spelling) (read cs : List Char) :
    unescapeHelp read (spelling ++ cs) = unescapeHelp (c :: read) cs := by
  rcases hs with rfl | ⟨rfl, rfl⟩
  · unfold escapeHelpChar
    split_ifs with hb hn
    · rw [hb]
      rfl
    · rw [hn]
      rfl
    · exact unescapeHelp_plain hb read cs
  · exact unescapeHelp_plain (by decide) read cs

lemma Spelled.unescapeHelp_eq (h : Spelled escapeHelpChar [] cs text) (read : List Char) :
    unescapeHelp read cs = .ok (read.reverse ++ text) := by
  induction h generalizing read with
  | nil => simp [unescapeHelp]
  | cons hs _ ih => rw [unescapeHelp_spelling hs, ih, List.reverse_cons, ← List.append_cons]

lemma spelledAfter_of_unescapeHelp (h : unescapeHelp read cs = .ok text) :
    SpelledAfter escapeHelpChar [] read cs text := by
  fun_induction unescapeHelp read cs with
  | case1 read => exact ⟨[], by simpa using (Except.ok.inj h).symm, .nil⟩
  | case2 read rest ih => exact .cons (.inl rfl) (ih h)
  | case3 read rest ih => exact .cons (.inl rfl) (ih h)
  | case4 => cases h
  | case5 => cases h
  | case6 read c rest _ _ hmore hnone ih =>
    have hb : c ≠ '\\' := by
      intro hb
      cases rest with
      | nil => exact hnone hb rfl
      | cons d rest => exact hmore d rest hb rfl
    exact .cons (isSpelling_help hb) (ih h)

theorem unescapeHelp_eq_ok_iff :
    unescapeHelp [] cs = .ok text ↔ Spelled escapeHelpChar [] cs text :=
  ⟨fun h => spelledAfter_nil.mp (spelledAfter_of_unescapeHelp h), fun h => h.unescapeHelp_eq []⟩

lemma unescapeHelp_escapeHelp (read cs : List Char) :
    unescapeHelp read (escapeHelp cs) = .ok (read.reverse ++ cs) := by
  have h := spelled_flatMap escapeHelpChar [] cs
  rw [List.append_nil] at h
  exact h.unescapeHelp_eq read

lemma escapeHelp_of_unescapeHelp (h : unescapeHelp [] cs = .ok text) (hn : '\n' ∉ cs) :
    escapeHelp text = cs := by
  have hcs := (unescapeHelp_eq_ok_iff.mp h).eq_flatMap hn
  rw [List.append_nil] at hcs
  exact hcs.symm

lemma newline_notMem_escapeHelp (cs : List Char) : '\n' ∉ escapeHelp cs := by
  refine newline_notMem_flatMap (fun c => ?_) cs
  unfold escapeHelpChar
  split_ifs with hb hn
  · decide
  · decide
  · exact fun h => hn (List.mem_singleton.mp h).symm

end Helps

/-- What is written is read back, and a line that is read is what would be written for it. A reader
never sees two lines for one text, as no newline is written. -/
theorem escape_unescape_inverse :
    (∀ value rest, unescapeValue [] (escapeValue value ++ '"' :: rest) = .ok (value, rest)) ∧
    (∀ cs value rest, '\n' ∉ cs → unescapeValue [] cs = .ok (value, rest) →
      cs = escapeValue value ++ '"' :: rest) ∧
    (∀ text, unescapeHelp [] (escapeHelp text) = .ok text) ∧
    (∀ cs text, '\n' ∉ cs → unescapeHelp [] cs = .ok text → escapeHelp text = cs) ∧
    ∀ text, '\n' ∉ escapeValue text ∧ '\n' ∉ escapeHelp text :=
  ⟨unescapeValue_escapeValue [], fun _ _ _ hn h => (unescapeValue_eq_ok_iff.mp h).eq_flatMap hn,
    unescapeHelp_escapeHelp [], fun _ _ hn h => escapeHelp_of_unescapeHelp h hn,
    fun text => ⟨newline_notMem_escapeValue text, newline_notMem_escapeHelp text⟩⟩

/-- Three backslashes in front of a quote, two in front of the letter n, and one that is left. -/
theorem escape_unescape_inverse_backslash_runs :
    let cs := ['\\', '\\', '\\', '"', '\\', '\\', 'n', '\\', 'n', '"', '\\']
    let value := ['\\', '"', '\\', 'n', '\n']
    '\n' ∉ cs ∧ unescapeValue [] cs = .ok (value, ['\\']) ∧
      cs = escapeValue value ++ '"' :: ['\\'] ∧
      unescapeHelp [] ['\\', '\\', '"', '\\', '\\', '\\', 'n'] = .ok ['\\', '"', '\\', '\n'] ∧
      escapeHelp ['\\', '"', '\\', '\n'] = ['\\', '\\', '"', '\\', '\\', '\\', 'n'] := by
  intro cs value
  obtain ⟨-, hvalue, -, hhelp, -⟩ := escape_unescape_inverse
  exact ⟨by decide, rfl, hvalue cs value ['\\'] (by decide) rfl, rfl,
    hhelp _ _ (by decide) rfl⟩

end Text

end PushGateway
