import PushGateway.Proofs.ServedText

/-! The text of merged groups line by line. Whatever the strings of the groups are, and whether or
not the groups agree about the type of a family, no line breaks another, and each sample line is
read as what it was written from. -/

namespace PushGateway.Merge

open Exposition

section Families

variable {groups : List Group} {m : Family} {s : Sample} {l : SeriesLine}

lemma metricName_of_mem_merge (hd : Distinct groups) (hm : m ∈ (merge groups).families) :
    Name.isMetricName m.name = true := by
  obtain ⟨h, e, ⟨hh, he, -⟩, -⟩ := leads_of_mem_merge hd hm
  rw [← (hd.valid h hh).name_of_get? he]
  exact ((hd.valid h hh).valid e (SortedMap.mem_values_iff.mpr ⟨m.name, he⟩)).name

/-- A merged sample is checked as one of its own family, whose type may not be the merged one. -/
lemma accepted_of_mem_merge (hd : Distinct groups) (hm : m ∈ (merge groups).families)
    (hs : s ∈ m.samples) : ∃ f : Family, f.name = m.name ∧ f.Accepts s := by
  rw [samples_of_mem_merge hd hm] at hs
  obtain ⟨g, hg, f, hf, r, hr, rfl⟩ := mem_survivors hs
  have hvalid := (hd.valid g hg).valid f (SortedMap.mem_values_iff.mpr ⟨m.name, hf⟩)
  exact ⟨f, (hd.valid g hg).name_of_get? hf, accepts_withKey (hvalid.samples r hr)⟩

lemma readable_of_mem_merge (hd : Distinct groups) (hm : m ∈ (merge groups).families)
    (hs : s ∈ m.samples) (hl : l ∈ seriesLines m.name s) : l.Readable := by
  have hname := metricName_of_mem_merge hd hm
  obtain ⟨f, hf, haccepts⟩ := accepted_of_mem_merge hd hm hs
  rw [← hf] at hname hl
  exact readable_of_mem_seriesLines hname haccepts hl

lemma lines_render_of_distinct (hd : Distinct groups) :
    lines (render (merge groups).families) = renderLines (merge groups).families ++ [[]] :=
  lines_render_of_readable (fun _ hm => metricName_of_mem_merge hd hm)
    fun _ hm _ hs _ hl => readable_of_mem_merge hd hm hs hl

end Families

/-- A series of a sample. The bound of a bucket or of a quantile is the last of its labels. -/
structure Expanded where
  metric : String
  labels : List (String × String)
  bound : Option (String × Binary64)
  value : Binary64
  timestamp : Option Int64

/-- The series of a sample by the kind of its value. A histogram without an infinite bucket is given
one that holds its count. -/
def expansion (family : String) (s : Sample) : List Expanded :=
  let series (metric : String) (bound : Option (String × Binary64)) (value : Binary64) : Expanded :=
    ⟨metric, s.labels.entries, bound, value, s.timestamp⟩
  match s.value with
  | .counter v | .gauge v | .untyped v => [series family none v]
  | .summary quantiles sum count =>
    quantiles.map (fun q => series family (some ("quantile", q.quantile)) q.value) ++
      [series (family ++ "_sum") none sum, series (family ++ "_count") none count]
  | .histogram buckets sum count =>
    buckets.map (fun b =>
      series (family ++ "_bucket") (some ("le", b.upperBound)) b.cumulativeCount) ++
      (if .infinity ∈ buckets.map Bucket.upperBound then []
        else [series (family ++ "_bucket") (some ("le", .infinity)) count]) ++
      [series (family ++ "_sum") none sum, series (family ++ "_count") none count]

/-- The label pairs of a series, with a text that is read as the bound. -/
def Expanded.Labelled (x : Expanded) (labels : List (String × String)) : Prop :=
  match x.bound with
  | none => labels = x.labels
  | some (name, bound) => ∃ text, labels = x.labels ++ [(name, text)] ∧
      readValue? text.toList = some bound.collapse

/-- The line is read as the series, and has no label twice. -/
def Expanded.ReadBack (x : Expanded) (line : List Char) : Prop :=
  ∃ labels, x.Labelled labels ∧ (labels.map Prod.fst).Nodup ∧
    readSeries line = .ok ⟨x.metric, labels, x.value.collapse, x.timestamp⟩ ∧
    readLine line = .ok (.series ⟨x.metric, labels, x.value.collapse, x.timestamp⟩)

/-- What is read from the lines of a family: its name and help text, which loses the blanks at its
ends, its type, and its series. -/
structure FamilyReadBack (m : Family) (help type : List Char) (series : List (List Char)) :
    Prop where
  escaped : ∃ text, Text.unescapeHelp [] text = .ok m.help.toList ∧
    help = "# HELP ".toList ++ m.name.toList ++ (if m.help = "" then [] else ' ' :: text)
  help : readLine help = .ok (.help m.name (.ofList (strippedHelp m.help.toList)))
  type : readLine type = .ok (.type m.name m.metricType)
  series : List.Forall₂ Expanded.ReadBack (m.samples.flatMap (expansion m.name)) series

section Expansions

variable {groups : List Group} {m : Family} {s : Sample}

/-- The line was written for the series. -/
def Expanded.Writes (x : Expanded) (l : SeriesLine) : Prop :=
  x.metric = l.metric ∧ x.value = l.value ∧ x.timestamp = l.timestamp ∧ x.Labelled l.labels

lemma labelled_withBound (metric : String) (labels : Labels) (name : String)
    (bound value : Binary64) (timestamp : Option Int64) :
    Expanded.Labelled ⟨metric, labels.entries, some (name, bound), value, timestamp⟩
      (withBound labels name bound) :=
  ⟨_, rfl, by rw [String.toList_ofList, readValue?_valueText]⟩

lemma writes_expansion (family : String) (s : Sample) :
    List.Forall₂ Expanded.Writes (expansion family s) (seriesLines family s) := by
  have htotals (sum count : Binary64) : List.Forall₂ Expanded.Writes
      [⟨family ++ "_sum", s.labels.entries, none, sum, s.timestamp⟩,
        ⟨family ++ "_count", s.labels.entries, none, count, s.timestamp⟩]
      [⟨sumName family, s.labels.entries, sum, s.timestamp⟩,
        ⟨countName family, s.labels.entries, count, s.timestamp⟩] :=
    .cons ⟨rfl, rfl, rfl, rfl⟩ (.cons ⟨rfl, rfl, rfl, rfl⟩ .nil)
  have hbucket (b : Bucket) : Expanded.Writes
      ⟨family ++ "_bucket", s.labels.entries, some ("le", b.upperBound), b.cumulativeCount,
        s.timestamp⟩
      ⟨bucketName family, withBound s.labels Name.bucketLabel b.upperBound, b.cumulativeCount,
        s.timestamp⟩ :=
    ⟨rfl, rfl, rfl, labelled_withBound _ _ _ _ _ _⟩
  unfold expansion seriesLines
  dsimp only
  cases s.value with
  | counter v | gauge v | untyped v => exact .cons ⟨rfl, rfl, rfl, rfl⟩ .nil
  | summary quantiles sum count =>
    refine List.rel_append ?_ (htotals sum count)
    refine List.forall₂_map_left_iff.mpr (List.forall₂_map_right_iff.mpr ?_)
    exact List.forall₂_same.mpr fun q _ => ⟨rfl, rfl, rfl, labelled_withBound _ _ _ _ _ _⟩
  | histogram buckets sum count =>
    refine List.rel_append ?_ (htotals sum count)
    have hbuckets := List.forall₂_map_left_iff.mpr (List.forall₂_map_right_iff.mpr
      (List.forall₂_same.mpr fun b (_ : b ∈ buckets) => hbucket b))
    have hinfinite : hasInfiniteBucket buckets = true ↔
        .infinity ∈ buckets.map Bucket.upperBound := by
      simp [hasInfiniteBucket]
    unfold completeBuckets
    by_cases h : hasInfiniteBucket buckets = true
    · rw [if_pos h, if_pos (hinfinite.mp h), List.append_nil]
      exact hbuckets
    · rw [if_neg h, if_neg (mt hinfinite.mpr h), List.map_append]
      exact List.rel_append hbuckets (.cons (hbucket ⟨.infinity, count⟩) .nil)

lemma Expanded.Writes.readBack {x : Expanded} {l : SeriesLine} (h : x.Writes l)
    (hl : l.Readable) : x.ReadBack l.text := by
  obtain ⟨hmetric, hvalue, htime, hlabels⟩ := h
  refine ⟨l.labels, hlabels, hl.distinct, ?_, ?_⟩
  · rw [readSeries_text hl, SeriesLine.collapse, hmetric, hvalue, htime]
  · rw [readLine_text hl, SeriesLine.collapse, hmetric, hvalue, htime]

lemma writes_flatMap (family : String) (ss : List Sample) :
    List.Forall₂ Expanded.Writes (ss.flatMap (expansion family))
      (ss.flatMap (seriesLines family)) := by
  induction ss with
  | nil => exact .nil
  | cons s ss ih =>
    rw [List.flatMap_cons, List.flatMap_cons]
    exact List.rel_append (writes_expansion family s) ih

lemma readBack_of_writes {xs : List Expanded} {ls : List SeriesLine}
    (h : List.Forall₂ Expanded.Writes xs ls) (hl : ∀ l ∈ ls, l.Readable) :
    List.Forall₂ Expanded.ReadBack xs (ls.map SeriesLine.text) := by
  induction h with
  | nil => exact .nil
  | cons hx _ ih =>
    obtain ⟨hread, hrest⟩ := List.forall_mem_cons.mp hl
    exact .cons (hx.readBack hread) (ih hrest)

lemma familyReadBack_of_mem_merge (hd : Distinct groups) (hm : m ∈ (merge groups).families) :
    FamilyReadBack m (helpLine m) (typeLine m)
      ((m.samples.flatMap (seriesLines m.name)).map SeriesLine.text) := by
  have hname := metricName_of_mem_merge hd hm
  have hescaped : Text.unescapeHelp [] (Text.escapeHelp m.help.toList) = .ok m.help.toList := by
    rw [Text.unescapeHelp_escapeHelp, List.reverse_nil, List.nil_append]
  constructor
  · refine ⟨Text.escapeHelp m.help.toList, hescaped, ?_⟩
    unfold helpLine
    by_cases h : m.help = ""
    · rw [if_pos h, if_pos (String.isEmpty_iff.mpr h)]
    · rw [if_neg h, if_neg (mt String.isEmpty_iff.mp h)]
  · exact readLine_helpLine_stripped hname
  · exact readLine_typeLine hname
  · refine readBack_of_writes (writes_flatMap m.name m.samples) fun l hl => ?_
    obtain ⟨s, hs, hl⟩ := List.mem_flatMap.mp hl
    exact readable_of_mem_merge hd hm hs hl

end Expansions

/-- The text falls apart into one HELP line, one TYPE line and the series lines of each family. It
ends in a newline, so an empty line comes last. -/
theorem served_lines_read_back (groups : List Group)
    (hb : ∀ g ∈ groups, ∃ families, Group.build g.key families g.lastPush g.pushSeq = .ok g)
    (hk : (groups.map Group.key).Nodup) :
    let families := (merge groups).families
    ∃ blocks : List (List Char × List Char × List (List Char)),
      lines (render families)
        = blocks.flatMap (fun (help, type, series) => help :: type :: series) ++ [[]] ∧
      List.Forall₂ (fun m (help, type, series) => FamilyReadBack m help type series)
        families blocks := by
  intro families
  have hd : Distinct groups := ⟨fun g hg => Group.valid_of_build (hb g hg).choose_spec, hk⟩
  refine ⟨families.map fun m => (helpLine m, typeLine m,
    (m.samples.flatMap (seriesLines m.name)).map SeriesLine.text), ?_, ?_⟩
  · rw [lines_render_of_distinct hd, List.flatMap_map]
    rfl
  · rw [List.forall₂_map_right_iff]
    exact List.forall₂_same.mpr fun m hm => familyReadBack_of_mem_merge hd hm

/-- Quotes, braces and newlines in the key, the label and the help, and a histogram among gauges. -/
theorem served_lines_read_back_two_types :
    let a : GroupingKey := ⟨.ofList [("job", "\"\x7d 1\n")], by decide, by decide⟩
    let b : GroupingKey := ⟨.ofList [("job", "b")], by decide, by decide⟩
    let one : Binary64 := .ofDecimal false 1 0
    let e : Family := ⟨"m", "first\n# TYPE m\\", .gauge,
      [⟨.ofList [("path", "\\\",")], .gauge .zero, some 7⟩]⟩
    let f : Family := ⟨"m", "", .histogram,
      [⟨.empty, .histogram [⟨one, .zero⟩] .zero one, none⟩]⟩
    let groups : List Group := [⟨a, .ofList [("m", e)], 5, 0⟩, ⟨b, .ofList [("m", f)], 6, 1⟩]
    let m : Family := ⟨"m", e.help, .gauge,
      [⟨.ofList [("job", "\"\x7d 1\n"), ("path", "\\\",")], .gauge .zero, some 7⟩,
        ⟨b.labels, .histogram [⟨one, .zero⟩] .zero one, none⟩]⟩
    let help := "# HELP m first\\n# TYPE m\\\\".toList
    let type := "# TYPE m gauge".toList
    let series := ["m\x7bjob=\"\\\"\x7d 1\\n\",path=\"\\\\\\\",\"\x7d 0 7",
      "m_bucket\x7bjob=\"b\",le=\"1\"\x7d 0", "m_bucket\x7bjob=\"b\",le=\"+Inf\"\x7d 1",
      "m_sum\x7bjob=\"b\"\x7d 0", "m_count\x7bjob=\"b\"\x7d 1"].map String.toList
    lines (render (merge groups).families) = help :: type :: series ++ [[]] ∧
      FamilyReadBack m help type series := by
  intro a b one e f groups m help type series
  have he : Group.build a [e] 5 0 = .ok ⟨a, .ofList [("m", e)], 5, 0⟩ := by decide +kernel
  have hf : Group.build b [f] 6 1 = .ok ⟨b, .ofList [("m", f)], 6, 1⟩ := by decide +kernel
  have hb : ∀ g ∈ groups, ∃ families, Group.build g.key families g.lastPush g.pushSeq = .ok g :=
    List.forall_mem_cons.mpr ⟨⟨[e], he⟩, List.forall_mem_singleton.mpr ⟨[f], hf⟩⟩
  have hranked : ranked groups = groups := List.mergeSort_of_pairwise (by decide +kernel)
  have hm : (merge groups).families = [m] := by
    rw [merge, hranked]
    decide +kernel
  have htext : lines (render [m]) = help :: type :: series ++ [[]] := by decide +kernel
  obtain ⟨blocks, hlines, hread⟩ := served_lines_read_back groups hb (by decide +kernel)
  rw [hm] at hlines hread ⊢
  obtain ⟨⟨help', type', series'⟩, blocks, hblock, hnil, rfl⟩ := List.forall₂_cons_left_iff.mp hread
  obtain rfl := List.forall₂_nil_left_iff.mp hnil
  have hsame : help :: type :: series ++ [[]] = help' :: type' :: series' ++ [[]] := by
    rw [← htext, hlines]
    simp
  obtain ⟨rfl, hrest⟩ := List.cons.inj (List.append_cancel_right hsame)
  obtain ⟨rfl, rfl⟩ := List.cons.inj hrest
  exact ⟨htext, hblock⟩

end PushGateway.Merge
