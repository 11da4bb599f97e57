import Mathlib.Data.List.DropRight
import Mathlib.Data.List.Induction
import PushGateway.Exposition.Payload
import PushGateway.Exposition.Render
import PushGateway.Proofs.BlankText
import PushGateway.Proofs.Escapes
import PushGateway.Proofs.KeyText
import PushGateway.Proofs.ValueText

/-! Every line that is written is read back: a HELP line when its text has no blanks at its ends, a
TYPE line, and a series line whose label names could have been read. -/

namespace PushGateway

namespace Exposition

open Text

section Numbers

lemma isBlank_of_isValueChar {c : Char} (h : isValueChar c = true) : isBlank c = false := by
  simp only [isValueChar, Bool.or_eq_true, beq_iff_eq] at h
  rcases h with ((((h | rfl) | rfl) | rfl) | rfl) | rfl
  · have hdigit : Name.isDigit c = true := h
    exact Name.isBlank_of_isMetricChar (by simp [Name.isMetricChar, Name.isLabelChar, hdigit])
  all_goals decide

lemma isBlank_of_mem_valueText {x : Binary64} {c : Char} (h : c ∈ valueText x) :
    isBlank c = false := by
  have hnan : ∀ c ∈ ['N', 'a', 'N'], isBlank c = false := isBlank_of_any (by decide)
  have hinf : ∀ c ∈ ['+', 'I', 'n', 'f'], isBlank c = false := isBlank_of_any (by decide)
  have hneg : ∀ c ∈ ['-', 'I', 'n', 'f'], isBlank c = false := isBlank_of_any (by decide)
  rcases valueText_cases x with ⟨-, ht⟩ | ⟨-, ht⟩ | ⟨-, ht⟩ | ⟨-, cs, ht, hs⟩
  · exact hnan c (ht ▸ h)
  · exact hinf c (ht ▸ h)
  · exact hneg c (ht ▸ h)
  · rw [ht] at h
    rcases List.mem_append.mp h with h | h
    · split_ifs at h
      · rw [List.mem_singleton.mp h]
        decide
      · cases h
    · exact isBlank_of_isValueChar (hs.chars c h)

lemma valueText_ne_nil (x : Binary64) : valueText x ≠ [] := by
  rcases valueText_cases x with ⟨-, ht⟩ | ⟨-, ht⟩ | ⟨-, ht⟩ | ⟨-, cs, ht, hs⟩
  · simp [ht]
  · simp [ht]
  · simp [ht]
  · obtain ⟨c, ds, rfl, -⟩ := hs.head
    rw [ht]
    exact List.append_ne_nil_of_right_ne_nil _ (by simp)

lemma isBlank_of_mem_intText {i : Int} {c : Char} (h : c ∈ Numeral.intText i) :
    isBlank c = false :=
  isBlank_of_isValueChar (Numeral.isValueChar_of_mem_intText h)

lemma intText_ne_nil (i : Int) : Numeral.intText i ≠ [] :=
  List.append_ne_nil_of_right_ne_nil _ (Numeral.digits_ne_nil _)

lemma readTimestamp?_intText (t : Int64) : readTimestamp? (Numeral.intText t.toInt) = some t := by
  have hrange : Int64.minValue.toInt ≤ t.toInt ∧ t.toInt ≤ Int64.maxValue.toInt :=
    ⟨Int64.minValue_le_toInt t, Int64.toInt_le t⟩
  simp only [readTimestamp?, Numeral.readInt?_intText, if_pos hrange, Int64.ofInt_toInt]

def timestampText : Option Int64 → List Char
  | some t => ' ' :: Numeral.intText t.toInt
  | none => []

lemma readNumbers_written (x : Binary64) (timestamp : Option Int64) :
    readNumbers (' ' :: (valueText x ++ timestampText timestamp))
      = .ok (x.collapse, timestamp) := by
  have hvalue : ∀ c ∈ valueText x, isBlank c = false := fun _ hc => isBlank_of_mem_valueText hc
  cases timestamp with
  | none =>
    rw [timestampText, List.append_nil, readNumbers, fields_blank,
      fields_word hvalue (valueText_ne_nil x)]
    simp only [readValue?_valueText]
  | some t =>
    have htime : ∀ c ∈ Numeral.intText t.toInt, isBlank c = false :=
      fun _ hc => isBlank_of_mem_intText hc
    rw [timestampText, readNumbers, fields_blank, fields_append hvalue (valueText_ne_nil x),
      fields_word htime (intText_ne_nil _)]
    simp only [readValue?_valueText, readTimestamp?_intText]
    rfl

end Numbers

section Labels

/-- A label name that a series line may have. -/
def Readable (name : String) : Prop := Name.isLabelName name = true ∧ Name.isReserved name = false

lemma readPair_written {p : String × String} (h : Readable p.1) (rest : List Char) :
    readPair (Labels.pairText p ++ rest) = .ok (p, rest) := by
  obtain ⟨name, value⟩ := p
  obtain ⟨hname, hreserved⟩ := h
  obtain ⟨-, hchars⟩ := Name.isLabelChar_of_isLabelName hname
  have hstop : ∀ c ∈ ('=' :: '"' :: (escapeValue value.toList ++ '"' :: rest)).head?,
      Name.isLabelChar c = false := by
    intro c hc
    obtain rfl : '=' = c := Option.some.inj hc
    decide
  obtain ⟨htake, hdrop⟩ := span_append hchars hstop
  have htext : Labels.pairText (name, value) ++ rest
      = name.toList ++ '=' :: '"' :: (escapeValue value.toList ++ '"' :: rest) := by
    simp [Labels.pairText]
  have hequals : trimStart ('=' :: '"' :: (escapeValue value.toList ++ '"' :: rest))
      = '=' :: '"' :: (escapeValue value.toList ++ '"' :: rest) := rfl
  have hquote : trimStart ('"' :: (escapeValue value.toList ++ '"' :: rest))
      = '"' :: (escapeValue value.toList ++ '"' :: rest) := rfl
  have hvalue : readValueText (escapeValue value.toList ++ '"' :: rest) = .ok (value, rest) := by
    rw [readValueText, unescapeValue_escapeValue]
    simp
  rw [htext, readPair, htake, hdrop]
  simp only [String.ofList_toList, hname, hreserved, hequals, hquote, hvalue, Bool.not_true,
    Bool.false_eq_true, if_false]

lemma pairsText_cons (p : String × String) (ps : List (String × String)) :
    Labels.pairsText (p :: ps) = Labels.pairText p ++
      (if ps = [] then [] else ',' :: Labels.pairsText ps) := by
  cases ps <;> simp [Labels.pairsText, List.intercalate]

lemma readPairs_brace (read : List (String × String)) (rest : List Char) :
    readPairs read ('}' :: rest) = .ok (read.reverse, rest) := by
  have hbrace : trimStart ('}' :: rest) = '}' :: rest := rfl
  rw [readPairs]
  split
  · next h =>
    rw [hbrace] at h
    rw [(List.cons.inj h).2]
  · next h => exact absurd hbrace (h rest)

lemma readPairs_pair {read : List (String × String)} {p : String × String} {cs rest : List Char}
    (htrim : trimStart cs = cs) (hbrace : ∀ more, cs ≠ '}' :: more)
    (hp : readPair cs = .ok (p, rest)) (hnew : hasName read p.1 = false) :
    readPairs read cs = match trimStart rest with
      | ',' :: more => readPairs (p :: read) more
      | '}' :: more => .ok ((p :: read).reverse, more)
      | _ => .error .missingSeparator := by
  rw [readPairs]
  split
  · next more h => exact absurd (htrim.symm.trans h) (hbrace more)
  · split
    · next h =>
      rw [htrim, hp] at h
      cases h
    · next h =>
      rw [htrim, hp] at h
      obtain ⟨rfl, rfl⟩ := Prod.mk.inj (Except.ok.inj h)
      rw [hnew, if_neg (by decide)]
      split <;> simp_all

lemma exists_head_pairText {p : String × String} (h : Readable p.1) (rest : List Char) :
    ∃ c cs, Labels.pairText p ++ rest = c :: cs ∧ Name.isLabelChar c = true := by
  obtain ⟨hne, hchars⟩ := Name.isLabelChar_of_isLabelName h.1
  obtain ⟨c, cs, hname⟩ := List.exists_cons_of_ne_nil hne
  refine ⟨c, cs ++ '=' :: '"' :: escapeValue p.2.toList ++ ['"'] ++ rest, ?_, ?_⟩
  · simp [Labels.pairText, hname]
  · exact hchars c (hname ▸ List.mem_cons_self)

lemma hasName_eq_false {read ps : List (String × String)} {p : String × String}
    (h : ((read.reverse ++ p :: ps).map Prod.fst).Nodup) : hasName read p.1 = false := by
  rw [List.map_append, List.map_cons] at h
  have hnot := (List.nodup_append.mp h).2.2
  refine List.any_eq_false.mpr fun q hq heq => ?_
  have hmem : q.1 ∈ read.reverse.map Prod.fst :=
    List.mem_map_of_mem (List.mem_reverse.mpr hq)
  exact hnot q.1 hmem p.1 List.mem_cons_self (by simpa using heq)

lemma readPairs_written {ps read : List (String × String)} (hread : ∀ p ∈ ps, Readable p.1)
    (hnodup : ((read.reverse ++ ps).map Prod.fst).Nodup) (rest : List Char) :
    readPairs read (Labels.pairsText ps ++ '}' :: rest) = .ok (read.reverse ++ ps, rest) := by
  induction ps generalizing read with
  | nil =>
    rw [List.append_nil]
    exact readPairs_brace read rest
  | cons p ps ih =>
    obtain ⟨hp, hps⟩ := List.forall_mem_cons.mp hread
    have hnew := hasName_eq_false hnodup
    have hmoved : read.reverse ++ p :: ps = (p :: read).reverse ++ ps := by simp
    rw [hmoved] at hnodup ⊢
    rw [pairsText_cons, List.append_assoc]
    generalize htail : (if ps = [] then [] else ',' :: Labels.pairsText ps) ++ '}' :: rest = tail
    obtain ⟨c, cs, hhead, hc⟩ := exists_head_pairText hp tail
    have htrim : trimStart (Labels.pairText p ++ tail) = Labels.pairText p ++ tail := by
      refine trimStart_eq_self fun d hd => ?_
      rw [hhead] at hd
      obtain rfl : c = d := Option.some.inj hd
      exact Name.isBlank_of_isMetricChar (Name.isMetricChar_of_isLabelChar hc)
    have hbrace : ∀ more, Labels.pairText p ++ tail ≠ '}' :: more := by
      intro more h
      rw [hhead] at h
      rw [(List.cons.inj h).1] at hc
      exact absurd hc (by decide)
    rw [readPairs_pair htrim hbrace (readPair_written hp tail) hnew, ← htail]
    -- after the last pair comes the brace, after any other a comma
    by_cases hlast : ps = []
    · rw [if_pos hlast, hlast, List.append_nil]
      rfl
    · rw [if_neg hlast]
      exact ih hps hnodup

end Labels

section Lines

variable {l : SeriesLine} {f : Family}

/-- Label pairs that a series line may have. -/
structure SeriesLine.Readable (l : SeriesLine) : Prop where
  metric : Name.isMetricName l.metric = true
  labels : ∀ p ∈ l.labels, Exposition.Readable p.1
  distinct : (l.labels.map Prod.fst).Nodup

def SeriesLine.collapse (l : SeriesLine) : SeriesLine := { l with value := l.value.collapse }

lemma SeriesLine.text_eq (l : SeriesLine) : l.text = l.metric.toList ++ '{' ::
    (Labels.pairsText l.labels ++
      '}' :: ' ' :: (valueText l.value ++ timestampText l.timestamp)) := by
  unfold SeriesLine.text timestampText
  cases l.timestamp <;> simp

lemma checkMetricName_ok {name : String} (h : Name.isMetricName name = true) :
    checkMetricName (String.ofList name.toList) = .ok () := by
  rw [String.ofList_toList, checkMetricName, if_pos h]

lemma readSeries_text (h : l.Readable) : readSeries l.text = .ok l.collapse := by
  have hchars := (Name.isMetricChar_of_isMetricName h.metric).2
  generalize hrest : Labels.pairsText l.labels ++
    '}' :: ' ' :: (valueText l.value ++ timestampText l.timestamp) = rest
  have hdistinct : ((([] : List (String × String)).reverse ++ l.labels).map Prod.fst).Nodup :=
    h.distinct
  have hpairs := readPairs_written h.labels hdistinct
    (' ' :: (valueText l.value ++ timestampText l.timestamp))
  rw [hrest] at hpairs
  have hstop : ∀ c ∈ ('{' :: rest).head?, Name.isMetricChar c = false := by
    intro c hc
    obtain rfl : '{' = c := Option.some.inj hc
    decide
  obtain ⟨htake, hdrop⟩ := span_append hchars hstop
  have hbrace : trimStart ('{' :: rest) = '{' :: rest := rfl
  rw [l.text_eq, hrest, readSeries, htake, hdrop, checkMetricName_ok h.metric]
  simp only [hbrace, hpairs, readNumbers_written, String.ofList_toList, bind, Except.bind]
  rfl

lemma trimmed_text (h : l.Readable) : Trimmed l.text := by
  have hne := (Name.isMetricChar_of_isMetricName h.metric).1
  have hmetric := Name.isBlank_of_mem_metricName h.metric
  rw [l.text_eq]
  cases l.timestamp with
  | none =>
    have hlast := trimmed_append ('{' :: (Labels.pairsText l.labels ++ ['}', ' '])) hmetric
      (fun _ hc => isBlank_of_mem_valueText hc) hne (valueText_ne_nil l.value)
    simpa [timestampText] using hlast
  | some t =>
    have hlast := trimmed_append
      ('{' :: (Labels.pairsText l.labels ++ '}' :: ' ' :: (valueText l.value ++ [' ']))) hmetric
      (fun _ hc => isBlank_of_mem_intText hc) hne (intText_ne_nil t.toInt)
    simpa [timestampText] using hlast

theorem readLine_text (h : l.Readable) : readLine l.text = .ok (.series l.collapse) := by
  obtain ⟨hne, hchars⟩ := Name.isMetricChar_of_isMetricName h.metric
  obtain ⟨c, cs, hname⟩ := List.exists_cons_of_ne_nil hne
  have hc : Name.isMetricChar c = true := hchars c (hname ▸ List.mem_cons_self)
  obtain ⟨ds, hds⟩ : ∃ ds, l.text = c :: ds := by
    rw [l.text_eq, hname]
    exact ⟨_, List.cons_append⟩
  have hread := readSeries_text h
  unfold readLine
  rw [(trimmed_text h).trim_eq]
  rw [hds] at hread ⊢
  split
  · next he => cases he
  · next he =>
    rw [(List.cons.inj he).1] at hc
    exact absurd hc (by decide)
  · rw [hread]
    rfl

lemma readLine_comment {cs name tail : List Char} (hn : ∀ c ∈ name, isBlank c = false)
    (hnn : name ≠ []) : readLine ('#' :: (cs ++ (name ++ tail)))
      = readComment (cs ++ (name ++ trimEnd tail)) := by
  have hstart : trimStart ('#' :: (cs ++ (name ++ tail))) = '#' :: (cs ++ (name ++ tail)) := rfl
  have hlast : ∀ c ∈ ('#' :: (cs ++ name)).getLast?, isBlank c = false := by
    intro c hc
    rw [← List.cons_append, List.getLast?_append_of_ne_nil _ hnn] at hc
    exact hn c (List.mem_of_getLast? hc)
  have hend := trimEnd_append hlast tail
  rw [List.cons_append, List.cons_append, List.append_assoc, List.append_assoc] at hend
  simp only [readLine, trim, hstart, hend]

/-- A comment is read word by word: the keyword, the name, and what follows the name. -/
lemma readLine_words (keyword : List Char) {name : List Char}
    (hk : ∀ c ∈ keyword, isBlank c = false) (hkn : keyword ≠ [])
    (hn : ∀ c ∈ name, isBlank c = false) (hnn : name ≠ []) (tail : List Char) :
    readLine ('#' :: ' ' :: (keyword ++ ' ' :: (name ++ if tail = [] then [] else ' ' :: tail))) =
      if keyword = "HELP".toList then readHelp name (trim tail)
      else if keyword = "TYPE".toList then readType name (trim tail)
      else .ok .skip := by
  have hrest : trimEnd (if tail = [] then [] else ' ' :: tail)
      = if trimEnd tail = [] then [] else ' ' :: trimEnd tail := by
    by_cases hempty : tail = []
    · rw [if_pos hempty, hempty]
      rfl
    · rw [if_neg hempty, trimEnd_cons]
      simp [show isBlank ' ' = true from rfl]
  have hsplit : ' ' :: (keyword ++ ' ' :: (name ++ if tail = [] then [] else ' ' :: tail))
      = ' ' :: (keyword ++ [' ']) ++ (name ++ if tail = [] then [] else ' ' :: tail) := by
    simp
  have hjoin : ' ' :: (keyword ++ [' ']) ++
      (name ++ trimEnd (if tail = [] then [] else ' ' :: tail)) = ' ' :: (keyword ++ ' ' ::
        (name ++ if trimEnd tail = [] then [] else ' ' :: trimEnd tail)) := by
    rw [hrest]
    simp
  have hfirst (cs : List Char) : trimStart (' ' :: (keyword ++ ' ' :: cs)) = keyword ++ ' ' :: cs :=
    trimStart_word_append hk hkn
  rw [hsplit, readLine_comment hn hnn, hjoin, readComment, hfirst, splitAtBlank?_append hk]
  simp only [trimStart_word_append hn hnn]
  by_cases hempty : trimEnd tail = []
  · have htrim : trim tail = [] := by
      rw [← trimStart_trimEnd, hempty]
      rfl
    rw [if_pos hempty, List.append_nil, splitAtBlank?_word hn, htrim]
  · rw [if_neg hempty]
    simp only [splitAtBlank?_append hn, trimStart_trimEnd]

lemma escapeHelp_eq_nil_iff (cs : List Char) : escapeHelp cs = [] ↔ cs = [] := by
  cases cs with
  | nil => simp [escapeHelp]
  | cons c cs =>
    rw [escapeHelp, List.flatMap_cons, List.append_eq_nil_iff, escapeHelpChar]
    split_ifs <;> simp

lemma readLine_helpLine_eq (hname : Name.isMetricName f.name = true) : readLine (helpLine f)
    = readHelp f.name.toList (trim (escapeHelp f.help.toList)) := by
  have hwords := readLine_words "HELP".toList (isBlank_of_any (by decide)) (by decide)
    (Name.isBlank_of_mem_metricName hname) (Name.isMetricChar_of_isMetricName hname).1
    (escapeHelp f.help.toList)
  have hempty : (f.help.isEmpty = true) = (escapeHelp f.help.toList = []) := by
    rw [escapeHelp_eq_nil_iff, String.isEmpty_iff, String.toList_eq_nil_iff]
  have hline : helpLine f = '#' :: ' ' :: ("HELP".toList ++ ' ' :: (f.name.toList ++
      if escapeHelp f.help.toList = [] then [] else ' ' :: escapeHelp f.help.toList)) := by
    simp only [← hempty]
    rfl
  rw [hline, hwords, if_pos rfl]

lemma readHelp_escapeHelp {name : String} (hname : Name.isMetricName name = true)
    (text : List Char) : readHelp name.toList (escapeHelp text)
      = .ok (.help name (.ofList text)) := by
  rw [readHelp, checkMetricName_ok hname, unescapeHelp_escapeHelp]
  simp only [List.reverse_nil, List.nil_append, String.ofList_toList]
  rfl

theorem readLine_helpLine (hname : Name.isMetricName f.name = true)
    (hhelp : Trimmed (escapeHelp f.help.toList)) :
    readLine (helpLine f) = .ok (.help f.name f.help) := by
  rw [readLine_helpLine_eq hname, hhelp.trim_eq, readHelp_escapeHelp hname, String.ofList_toList]

/-- A blank at an end of a help text is lost, but not a newline, which is escaped. -/
def isLost (c : Char) : Bool := isBlank c && c != '\n'

def strippedHelp (text : List Char) : List Char := (text.dropWhile isLost).rdropWhile isLost

lemma escapeHelpChar_of_isLost {c : Char} (h : isLost c = true) : escapeHelpChar c = [c] := by
  simp only [isLost, Bool.and_eq_true, bne_iff_ne, ne_eq] at h
  have hb : c ≠ '\\' := by
    rintro rfl
    exact absurd h.1 (by decide)
  rw [escapeHelpChar, if_neg hb, if_neg h.2]

lemma escapeHelpChar_of_not_isLost {c : Char} (h : isLost c = false) :
    Trimmed (escapeHelpChar c) ∧ escapeHelpChar c ≠ [] := by
  unfold escapeHelpChar
  split_ifs with hb hn
  · exact ⟨trimmed_word (isBlank_of_any (by decide)), by decide⟩
  · exact ⟨trimmed_word (isBlank_of_any (by decide)), by decide⟩
  · have hc : isBlank c = false := by simpa [isLost, hn] using h
    exact ⟨trimmed_word (by simpa using hc), List.cons_ne_nil _ _⟩

lemma trimStart_escapeHelp (text : List Char) :
    trimStart (escapeHelp text) = escapeHelp (text.dropWhile isLost) := by
  induction text with
  | nil => rfl
  | cons c text ih =>
    have hcons : escapeHelp (c :: text) = escapeHelpChar c ++ escapeHelp text := List.flatMap_cons
    rw [hcons]
    by_cases hc : isLost c = true
    · have hblank : isBlank c = true := (Bool.and_eq_true_iff.mp hc).1
      rw [escapeHelpChar_of_isLost hc, List.dropWhile_cons_of_pos hc, ← ih]
      exact List.dropWhile_cons_of_pos hblank
    · obtain ⟨htrimmed, hne⟩ := escapeHelpChar_of_not_isLost (Bool.eq_false_iff.mpr hc)
      rw [List.dropWhile_cons_of_neg hc, hcons]
      refine trimStart_eq_self fun d hd => htrimmed.1 d ?_
      rwa [List.head?_append_of_ne_nil _ hne] at hd

lemma trimEnd_escapeHelp (text : List Char) :
    trimEnd (escapeHelp text) = escapeHelp (text.rdropWhile isLost) := by
  induction text using List.reverseRecOn with
  | nil => rfl
  | append_singleton text c ih =>
    have hconcat : escapeHelp (text ++ [c]) = escapeHelp text ++ escapeHelpChar c := by
      simp [escapeHelp]
    by_cases hc : isLost c = true
    · have hblank : isBlank c = true := (Bool.and_eq_true_iff.mp hc).1
      rw [hconcat, escapeHelpChar_of_isLost hc, List.rdropWhile_concat_pos _ _ _ hc, ← ih]
      exact List.rdropWhile_concat_pos isBlank _ _ hblank
    · obtain ⟨htrimmed, hne⟩ := escapeHelpChar_of_not_isLost (Bool.eq_false_iff.mpr hc)
      rw [List.rdropWhile_concat_neg _ _ _ hc, hconcat]
      refine trimEnd_eq_self fun d hd => htrimmed.2 d ?_
      rwa [List.getLast?_append_of_ne_nil _ hne] at hd

/-- The help text is read, but for what is lost at its ends. -/
theorem readLine_helpLine_stripped (hname : Name.isMetricName f.name = true) :
    readLine (helpLine f) = .ok (.help f.name (.ofList (strippedHelp f.help.toList))) := by
  rw [readLine_helpLine_eq hname, trim, trimStart_escapeHelp, trimEnd_escapeHelp,
    readHelp_escapeHelp hname, strippedHelp]

theorem readLine_typeLine (hname : Name.isMetricName f.name = true) :
    readLine (typeLine f) = .ok (.type f.name f.metricType) := by
  have htype : f.metricType.name.toList ≠ [] ∧ Trimmed f.metricType.name.toList := by
    refine ⟨?_, trimmed_word (isBlank_of_any ?_)⟩
    · cases f.metricType <;> decide
    · cases f.metricType <;> decide
  have hwords := readLine_words "TYPE".toList (isBlank_of_any (by decide)) (by decide)
    (Name.isBlank_of_mem_metricName hname) (Name.isMetricChar_of_isMetricName hname).1
    f.metricType.name.toList
  have hline : typeLine f = '#' :: ' ' :: ("TYPE".toList ++ ' ' :: (f.name.toList ++
      ' ' :: f.metricType.name.toList)) := rfl
  rw [if_neg htype.1, htype.2.trim_eq] at hwords
  rw [hline, hwords, if_neg (by decide), if_pos rfl, readType, checkMetricName_ok hname,
    String.ofList_toList, MetricType.ofName?_name, String.ofList_toList]
  rfl

end Lines

section Newlines

variable {l : SeriesLine} {f : Family}

lemma newline_notMem {cs : List Char} (h : ∀ c ∈ cs, isBlank c = false) : '\n' ∉ cs :=
  fun hm => absurd (h _ hm) (by decide)

lemma newline_notMem_pairsText {ps : List (String × String)} (h : ∀ p ∈ ps, Readable p.1) :
    '\n' ∉ Labels.pairsText ps := by
  induction ps with
  | nil => simp [Labels.pairsText]
  | cons p ps ih =>
    obtain ⟨hp, hps⟩ := List.forall_mem_cons.mp h
    have hname : '\n' ∉ p.1.toList := newline_notMem fun c hc =>
      Name.isBlank_of_isMetricChar (Name.isMetricChar_of_isLabelChar
        ((Name.isLabelChar_of_isLabelName hp.1).2 c hc))
    have hrest : '\n' ∉ (if ps = [] then [] else ',' :: Labels.pairsText ps) := by
      split_ifs
      · simp
      · simpa using ih hps
    rw [pairsText_cons]
    simp [Labels.pairText, hname, newline_notMem_escapeValue, hrest]

lemma newline_notMem_text (h : l.Readable) : '\n' ∉ l.text := by
  have hmetric := newline_notMem (Name.isBlank_of_mem_metricName h.metric)
  have hvalue : '\n' ∉ valueText l.value := newline_notMem fun _ hc => isBlank_of_mem_valueText hc
  have htime : '\n' ∉ timestampText l.timestamp := by
    cases l.timestamp with
    | none => exact List.not_mem_nil
    | some t =>
      have hdigits : '\n' ∉ Numeral.intText t.toInt :=
        newline_notMem fun _ hc => isBlank_of_mem_intText hc
      simpa [timestampText] using hdigits
  rw [l.text_eq]
  simp [hmetric, newline_notMem_pairsText h.labels, hvalue, htime]

lemma newline_notMem_helpLine (hname : Name.isMetricName f.name = true) : '\n' ∉ helpLine f := by
  have hn := newline_notMem (Name.isBlank_of_mem_metricName hname)
  have hmark : '\n' ∉ "# HELP ".toList := by decide
  have htext : '\n' ∉ (if f.help.isEmpty then [] else ' ' :: escapeHelp f.help.toList) := by
    split_ifs
    · simp
    · simpa using newline_notMem_escapeHelp f.help.toList
  intro h
  rcases List.mem_append.mp h with h | h
  · exact (List.mem_append.mp h).elim hmark hn
  · exact htext h

lemma newline_notMem_typeLine (hname : Name.isMetricName f.name = true) : '\n' ∉ typeLine f := by
  have hn := newline_notMem (Name.isBlank_of_mem_metricName hname)
  have hmark : '\n' ∉ "# TYPE ".toList := by decide
  have htype : '\n' ∉ ' ' :: f.metricType.name.toList := by cases f.metricType <;> decide
  intro h
  rcases List.mem_append.mp h with h | h
  · exact (List.mem_append.mp h).elim hmark hn
  · exact htype h

/-- The last newline is followed by an empty line. -/
lemma lines_render {fs : List Family} (h : ∀ line ∈ renderLines fs, '\n' ∉ line) :
    lines (render fs) = renderLines fs ++ [[]] := by
  have hsplit {ls : List (List Char)} (hls : ∀ line ∈ ls, '\n' ∉ line) :
      (ls.flatMap (· ++ ['\n'])).splitOn '\n' = ls ++ [[]] := by
    induction ls with
    | nil => rfl
    | cons line ls ih =>
      obtain ⟨hline, hls⟩ := List.forall_mem_cons.mp hls
      rw [List.flatMap_cons, List.append_assoc, List.singleton_append,
        List.splitOn_append_cons_self_of_not_mem hline, ih hls]
      rfl
  rw [lines, render, String.toList_ofList]
  exact hsplit h

end Newlines

end Exposition

end PushGateway
