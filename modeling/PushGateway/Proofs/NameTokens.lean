import PushGateway.Proofs.SampleAccount

/-! The names of the sample lines of an accepted payload. What stands before the first blank or
brace is the metric name, unless the number of the line follows its name without a blank. -/

namespace PushGateway.Exposition

open Text

section Words

/-- What a line has before its first blank or brace. -/
def nameToken (line : List Char) : List Char := line.takeWhile fun c => !isBlank c && c != '{'

/-- The first word of a text. -/
def firstWord (cs : List Char) : List Char := cs.takeWhile fun c => !isBlank c

/-- A character that a number starts with and that no name has. -/
def opensNumber (c : Char) : Bool := c == '+' || c == '-' || c == '.'

/-- Whether a number follows a name without a blank. -/
def runsOn (line : List Char) : Bool := (line.dropWhile Name.isMetricChar).head?.any opensNumber

variable {c : Char} {cs : List Char} {x : Binary64}

lemma exists_fields_eq (hc : isBlank c = false) (cs : List Char) :
    ∃ more, fields (c :: cs) = firstWord (c :: cs) :: more := by
  have hword : ∀ d ∈ firstWord (c :: cs), isBlank d = false := by
    intro d hd
    simpa using List.mem_takeWhile_imp hd
  have hne : firstWord (c :: cs) ≠ [] := by
    rw [firstWord, List.takeWhile_cons_of_pos (by simp [hc])]
    exact List.cons_ne_nil _ _
  have hsplit : firstWord (c :: cs) ++ (c :: cs).dropWhile (fun c => !isBlank c) = c :: cs :=
    List.takeWhile_append_dropWhile
  generalize firstWord (c :: cs) = word at hword hne hsplit ⊢
  have hhead := List.head?_dropWhile_not (fun c => !isBlank c) (c :: cs)
  cases htail : (c :: cs).dropWhile (fun c => !isBlank c) with
  | nil =>
    rw [htail, List.append_nil] at hsplit
    rw [← hsplit]
    exact ⟨[], fields_word hword hne⟩
  | cons d tail =>
    rw [htail] at hhead hsplit
    have hd : isBlank d = true := by simpa using hhead
    refine ⟨fields tail, ?_⟩
    rw [← hsplit, fields, List.splitOnP_append_cons_of_forall_mem hword d hd]
    simp [fields, hne]

lemma opensNumber_of_isBlank (h : isBlank c = true) : opensNumber c = false := by
  rw [← Bool.not_eq_true]
  intro hopens
  simp only [opensNumber, Bool.or_eq_true, beq_iff_eq] at hopens
  rcases hopens with (rfl | rfl) | rfl <;> exact absurd h (by decide)

lemma opensNumber_of_isValueChar (hc : Name.isMetricChar c = false) (h : isValueChar c = true) :
    opensNumber c = true := by
  simp only [isValueChar, Bool.or_eq_true, beq_iff_eq] at h
  rcases h with ((((hdigit | rfl) | rfl) | rfl) | rfl) | rfl
  · have hname : Name.isDigit c = true := hdigit
    simp [Name.isMetricChar, Name.isLabelChar, hname] at hc
  · rfl
  · rfl
  · rfl
  · exact absurd hc (by decide)
  · exact absurd hc (by decide)

/-- A number after a name starts with a sign or with the point, and it has no brace. -/
lemma readValue?_after_name (hc : Name.isMetricChar c = false) (h : readValue? (c :: cs) = some x) :
    opensNumber c = true ∧ '{' ∉ c :: cs := by
  unfold readValue? at h
  split_ifs at h with hnan hinf hneg hall
  · obtain ⟨rfl, -⟩ := List.cons.inj hnan
    exact absurd hc (by decide)
  · rw [hinf]
    obtain ⟨rfl, -⟩ := List.cons.inj hinf
    decide
  · rw [hneg]
    obtain ⟨rfl, -⟩ := List.cons.inj hneg
    decide
  · rw [List.all_eq_true] at hall
    exact ⟨opensNumber_of_isValueChar hc (hall c List.mem_cons_self),
      fun hbrace => absurd (hall _ hbrace) (by decide)⟩

end Words

section Series

variable {cs : List Char} {l : SeriesLine}

/-- After the name of a sample line there is a blank, a brace, or the number of the line. -/
lemma exists_after_name (h : readSeries cs = .ok l) :
    ∃ c tail, cs.dropWhile Name.isMetricChar = c :: tail ∧
      (isBlank c = true ∨ c = '{' ∨
        isBlank c = false ∧ readValue? (firstWord (c :: tail)) = some l.value) := by
  obtain ⟨-, -, rest, hx, hrest⟩ := readSeries_eq_ok h
  cases htail : cs.dropWhile Name.isMetricChar with
  | nil =>
    rw [htail] at hrest
    rcases hrest with hbrace | rfl
    · cases hbrace
    · cases hx
  | cons c tail =>
    refine ⟨c, tail, rfl, ?_⟩
    cases hc : isBlank c with
    | true => exact .inl rfl
    | false =>
      rw [htail, trimStart, List.dropWhile_cons_of_neg (by simp [hc])] at hrest
      rcases hrest with hbrace | rfl
      · exact .inr (.inl (Option.some.inj hbrace))
      · obtain ⟨raw, more, hfields, hraw⟩ := exists_fields_of_readNumbers hx
        obtain ⟨more', hfields'⟩ := exists_fields_eq hc tail
        rw [hfields'] at hfields
        exact .inr (.inr ⟨rfl, (List.cons.inj hfields).1 ▸ hraw⟩)

lemma nameToken_append {word : List Char} (hw : ∀ c ∈ word, Name.isMetricChar c = true)
    (tail : List Char) : nameToken (word ++ tail) = word ++ nameToken tail := by
  refine List.takeWhile_append_of_pos fun c hc => ?_
  have hne : c ≠ '{' := by
    rintro rfl
    exact absurd (hw _ hc) (by decide)
  simp [Name.isBlank_of_isMetricChar (hw c hc), hne]

lemma nameToken_eq_firstWord (h : '{' ∉ firstWord cs) : nameToken cs = firstWord cs := by
  have hboth : nameToken cs = (firstWord cs).takeWhile fun c => c != '{' := by
    rw [firstWord, List.takeWhile_takeWhile, nameToken]
    simp only [Bool.decide_and, Bool.decide_eq_true, Bool.and_comm]
  rw [hboth]
  refine List.takeWhile_eq_self_iff.mpr fun c hc => ?_
  have hne : c ≠ '{' := fun heq => h (heq ▸ hc)
  simp [hne]

lemma isMetricName_append_eq_false {word rest : List Char} {c : Char}
    (hc : Name.isMetricChar c = false) :
    Name.isMetricName (String.ofList (word ++ c :: rest)) = false := by
  rw [← Bool.not_eq_true]
  intro h
  have hchar := (Name.isMetricChar_of_isMetricName h).2 c (by simp)
  rw [hc] at hchar
  cases hchar

/-- Either the name is the text before the first blank or brace, or the number belongs to
that text. -/
lemma nameToken_of_readSeries (h : readSeries cs = .ok l) :
    Name.isMetricName l.metric = true ∧
    (runsOn cs = false → String.ofList (nameToken cs) = l.metric) ∧
    (runsOn cs = true → Name.isMetricName (String.ofList (nameToken cs)) = false ∧
      ∃ number, nameToken cs = l.metric.toList ++ number ∧ readValue? number = some l.value) := by
  obtain ⟨hmetric, hvalid, -⟩ := readSeries_eq_ok h
  obtain ⟨c, tail, htail, hc⟩ := exists_after_name h
  have hstop : Name.isMetricChar c = false := by
    have hhead := List.head?_dropWhile_not Name.isMetricChar cs
    rw [htail] at hhead
    simpa using hhead
  have htoken : nameToken cs = l.metric.toList ++ nameToken (c :: tail) := by
    have hsplit := List.takeWhile_append_dropWhile (p := Name.isMetricChar) (l := cs)
    rw [htail] at hsplit
    rw [hmetric, String.toList_ofList, ← nameToken_append fun _ => List.mem_takeWhile_imp, hsplit]
  have hruns : runsOn cs = opensNumber c := by
    rw [runsOn, htail]
    rfl
  have hends (hnil : nameToken (c :: tail) = []) : String.ofList (nameToken cs) = l.metric := by
    rw [htoken, hnil, List.append_nil, String.ofList_toList]
  refine ⟨hvalid, ?_⟩
  rw [hruns]
  rcases hc with hc | rfl | ⟨hc, hx⟩
  · rw [opensNumber_of_isBlank hc]
    exact ⟨fun _ => hends (List.takeWhile_cons_of_neg (by simp [hc])), nofun⟩
  · exact ⟨fun _ => hends rfl, fun h => absurd h (by decide)⟩
  · have hword : firstWord (c :: tail) = c :: firstWord tail :=
      List.takeWhile_cons_of_pos (by simp [hc])
    rw [hword] at hx
    obtain ⟨hopens, hbrace⟩ := readValue?_after_name hstop hx
    rw [← hword] at hbrace
    rw [nameToken_eq_firstWord hbrace, hword] at htoken
    rw [hopens, htoken]
    exact ⟨nofun, fun _ => ⟨isMetricName_append_eq_false hstop, _, rfl, hx⟩⟩

end Series

section Payloads

variable {text : String} {families : List Family} {cs : List Char} {l : SeriesLine}

lemma metric_reading (l : SeriesLine) (h : Heading) : (l.reading h).metric = l.metric := by
  unfold SeriesLine.reading
  dsimp only
  split <;> rfl

lemma exists_mem_readings {ls : List Line} (hl : .series l ∈ ls) (h? : Option Heading) :
    ∃ h : Heading, l.reading h ∈ readings h? ls := by
  induction ls generalizing h? with
  | nil => cases hl
  | cons line ls ih =>
    rcases List.mem_cons.mp hl with rfl | hl
    · exact ⟨_, List.mem_append_left _ List.mem_cons_self⟩
    · obtain ⟨h, hmem⟩ := ih hl (Heading.after h? line)
      exact ⟨h, List.mem_append_right _ hmem⟩

/-- What a sample line of the payload says is said by a line of the text of its families. -/
lemma exists_line_of_mem_sampleReadings (hparse : parse text = .ok families) {r : Reading}
    (hr : r ∈ sampleReadings text) : ∃ f ∈ families, ∃ s ∈ f.samples,
      ∃ w ∈ seriesLines f.name s, w.reading (headingOf f) = r := by
  obtain ⟨hsettled, -⟩ := settled_of_parse hparse
  obtain ⟨closed, hbuilt, rfl, hperm⟩ := exists_blocks_of_parse hparse
  obtain ⟨b, hb, hgiven⟩ := List.mem_flatMap.mp (hperm.mem_iff.mp hr)
  obtain ⟨p, hp, rfl⟩ := List.mem_map.mp hb
  have hf : p.2 ∈ closed.map Prod.snd := List.mem_map_of_mem hp
  have hwritten : (p.2.samples.flatMap (headingOf p.2).written).Perm
      (p.1.given ++ p.2.samples.flatMap (filledIn p.1.given p.2)) :=
    written_build (hbuilt p hp) (hsettled p.2 hf) fun _ _ => rfl
  obtain ⟨s, hs, hr⟩ := List.mem_flatMap.mp (hwritten.mem_iff.mpr (List.mem_append_left _ hgiven))
  obtain ⟨w, hw, hreading⟩ := List.mem_map.mp hr
  exact ⟨p.2, hf, s, hs, w, hw, hreading⟩

lemma exists_series_of_readLine {line : Line} (hne : trim cs ≠ [])
    (hcomment : (trim cs).head? ≠ some '#') (h : readLine cs = .ok line) :
    ∃ l, readSeries (trim cs) = .ok l ∧ line = .series l := by
  unfold readLine at h
  split at h
  · next hnil => exact absurd hnil hne
  · next rest hhash =>
    rw [hhash] at hcomment
    exact absurd rfl hcomment
  · obtain ⟨l, hl, rfl⟩ := map_eq_ok_iff.mp h
    exact ⟨l, hl, rfl⟩

/-- Each sample line is filed under a valid name. It is what stands before the first blank or brace
of the line unless the number follows without a blank, and then that text is no name. -/
theorem sample_names_iff (h : parse text = .ok families) :
    ∀ cs ∈ lines text, trim cs ≠ [] → (trim cs).head? ≠ some '#' →
      ∃ l, readLine cs = .ok (.series l) ∧ Name.isMetricName l.metric = true ∧
        (∃ h, l.reading h ∈ sampleReadings text ∧ ∃ f ∈ families, ∃ s ∈ f.samples,
          ∃ w ∈ seriesLines f.name s, w.metric = l.metric ∧ w.reading (headingOf f) = l.reading h) ∧
        (String.ofList (nameToken (trim cs)) = l.metric ↔ runsOn (trim cs) = false) ∧
        (Name.isMetricName (String.ofList (nameToken (trim cs))) = true ↔
          runsOn (trim cs) = false) ∧
        (runsOn (trim cs) = true → ∃ number,
          nameToken (trim cs) = l.metric.toList ++ number ∧ readValue? number = some l.value) := by
  intro cs hcs hne hcomment
  obtain ⟨line, hline⟩ := exists_line_of_parse h cs hcs
  obtain ⟨l, hl, rfl⟩ := exists_series_of_readLine hne hcomment hline
  obtain ⟨hvalid, hsame, hnumber⟩ := nameToken_of_readSeries hl
  refine ⟨l, hline, hvalid, ?_, ⟨fun htoken => ?_, hsame⟩, ⟨fun htoken => ?_, fun hruns => ?_⟩,
    fun hruns => (hnumber hruns).2⟩
  · have hmem : .series l ∈ readableLines (lines text) :=
      List.mem_filterMap.mpr ⟨cs, hcs, by rw [hline]; rfl⟩
    obtain ⟨heading, hreading⟩ := exists_mem_readings hmem none
    obtain ⟨f, hf, s, hs, w, hw, hsaid⟩ := exists_line_of_mem_sampleReadings h hreading
    have hmetric := congrArg Reading.metric hsaid
    rw [metric_reading, metric_reading] at hmetric
    exact ⟨heading, hreading, f, hf, s, hs, w, hw, hmetric, hsaid⟩
  · rw [← Bool.not_eq_true]
    intro hruns
    have hnot := (hnumber hruns).1
    rw [htoken, hvalid] at hnot
    cases hnot
  · rw [← Bool.not_eq_true]
    intro hruns
    rw [(hnumber hruns).1] at htoken
    cases htoken
  · rw [hsame hruns]
    exact hvalid

/-- A line with a blank between its name and the brace, after one with none. -/
theorem sample_names_iff_braces :
    let two : Binary64 := ⟨0xC000000000000000⟩
    let families : List Family := [⟨"up", "a.5", .untyped, [⟨.empty, .untyped two, none⟩]⟩,
      ⟨"q:a", "", .untyped, [⟨.ofList [("a", "b")], .untyped two, none⟩,
        ⟨.ofList [("a", "c")], .untyped .infinity, some 5⟩]⟩]
    let text : String := "# HELP up a.5\nup -2\n\nq:a\x7ba=\"b\"\x7d-2\n" ++
      " q:a\t\x7ba=\"c\"\x7d +Inf +5\n"
    let line : List Char := " q:a\t\x7ba=\"c\"\x7d +Inf +5".toList
    parse text = .ok families ∧ line ∈ lines text ∧ trim line ≠ [] ∧
      (trim line).head? ≠ some '#' ∧ runsOn (trim line) = false ∧
      String.ofList (nameToken (trim line)) = "q:a" ∧ Name.isMetricName "q:a" = true ∧
      ∃ f ∈ families, ∃ s ∈ f.samples, ∃ w ∈ seriesLines f.name s, w.metric = "q:a" := by
  intro two families text line
  have hparse : parse text = .ok families := by decide +kernel
  have hmem : line ∈ lines text := by decide +kernel
  have hne : trim line ≠ [] := by decide +kernel
  have hcomment : (trim line).head? ≠ some '#' := by decide +kernel
  have hruns : runsOn (trim line) = false := by decide +kernel
  have htoken : String.ofList (nameToken (trim line)) = "q:a" := by decide +kernel
  obtain ⟨l, -, hvalid, ⟨-, -, f, hf, s, hs, w, hw, hmetric, -⟩, hsame, -, -⟩ :=
    sample_names_iff hparse line hmem hne hcomment
  have hname : "q:a" = l.metric := htoken.symm.trans (hsame.mpr hruns)
  exact ⟨hparse, hmem, hne, hcomment, hruns, htoken, hname ▸ hvalid, f, hf, s, hs, w, hw,
    hmetric.trans hname.symm⟩

/-- The number that follows a name without a blank makes the text before the first blank no name. -/
theorem malformed_name_accepted :
    let half : Binary64 := ⟨0x3FE0000000000000⟩
    let text : String := "queue.5\n"
    let line : List Char := "queue.5".toList
    parse text = .ok [⟨"queue", "", .untyped, [⟨.empty, .untyped half, none⟩]⟩] ∧
      lines text = [line, []] ∧ trim line = line ∧ nameToken line = line ∧
      Name.isMetricName (String.ofList line) = false ∧
      readLine line = .ok (.series ⟨"queue", [], half, none⟩) := by
  decide +kernel

end Payloads

end PushGateway.Exposition
