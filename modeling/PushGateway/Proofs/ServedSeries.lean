import PushGateway.Proofs.ServedText

/-! Which sample lines of the served text are lines of one series. A merged family has no two
samples with the same labels, so such lines of different samples have a bound label or a name suffix
in which the samples differ. -/

namespace PushGateway

open Exposition

namespace Exposition

/-- Lines of one series: the metric name and the label pairs are the same. -/
def SeriesLine.SameSeries (l l' : SeriesLine) : Prop :=
  l.metric = l'.metric ∧ ∀ p, p ∈ l.labels ↔ p ∈ l'.labels

/-- The names other than that of the family which the lines of a sample of the type have. -/
def seriesNames (family : String) : MetricType → List String
  | .histogram => [bucketName family, sumName family, countName family]
  | .summary => [sumName family, countName family]
  | .counter | .gauge | .untyped => []

section Roles

def Role.suffix : Role → String
  | .plain | .quantile => ""
  | .bucket => "_bucket"
  | .sum => "_sum"
  | .count => "_count"

/-- The label that holds the bound. -/
def Role.bound? : Role → Option String
  | .bucket => some Name.bucketLabel
  | .quantile => some Name.quantileLabel
  | .plain | .sum | .count => none

def rolesOf : MetricType → List Role
  | .histogram => [.bucket, .sum, .count]
  | .summary => [.quantile, .sum, .count]
  | .counter | .gauge | .untyped => [.plain]

variable {name name' : String} {s s' : Sample} {l l' : SeriesLine} {r r' : Role}

/-- The line has the role among the lines of the sample. -/
structure Role.Writes (r : Role) (name : String) (s : Sample) (l : SeriesLine) : Prop where
  role : r ∈ rolesOf s.value.metricType
  metric : l.metric = name ++ r.suffix
  labels : ∀ p, p ∈ s.labels.entries → p ∈ l.labels
  others : ∀ p ∈ l.labels, r.bound? ≠ some p.1 → p ∈ s.labels.entries
  bound : ∀ label ∈ r.bound?, ∃ x, (label, x) ∈ l.labels

section Writes

variable {metric label : String} (hr : r ∈ rolesOf s.value.metricType)
  (hm : metric = name ++ r.suffix)
include hr hm

lemma writes_point (hb : r.bound? = some label) (p : Binary64 × Binary64) :
    r.Writes name s (pointLine metric label s.labels s.timestamp p) := by
  refine ⟨hr, hm, fun q hq => List.mem_append_left _ hq, fun q hq hne => ?_, fun n hn => ?_⟩
  · rcases List.mem_append.mp hq with hq | hq
    · exact hq
    · rw [List.mem_singleton.mp hq] at hne
      exact absurd hb hne
  · obtain rfl := Option.some.inj (hb.symm.trans hn)
    exact ⟨_, List.mem_append_right _ List.mem_cons_self⟩

lemma writes_entries (hb : r.bound? = none) (x : Binary64) :
    r.Writes name s ⟨metric, s.labels.entries, x, s.timestamp⟩ := by
  refine ⟨hr, hm, fun _ hp => hp, fun _ hp _ => hp, fun n hn => ?_⟩
  rw [hb] at hn
  cases hn

end Writes

lemma exists_writes (hl : l ∈ seriesLines name s) : ∃ r : Role, r.Writes name s l := by
  obtain ⟨labels, value, timestamp⟩ := s
  have hplain : name = name ++ "" := String.append_empty.symm
  cases value with
  | counter x | gauge x | untyped x =>
    obtain rfl := List.mem_singleton.mp hl
    exact ⟨.plain, writes_entries (.head _) hplain rfl x⟩
  | summary qs sum count =>
    rw [seriesLines_summary] at hl
    rcases mem_compositeLines.mp hl with ⟨p, -, rfl⟩ | rfl | rfl
    · exact ⟨.quantile, writes_point (.head _) hplain rfl p⟩
    · exact ⟨.sum, writes_entries (.tail _ (.head _)) rfl rfl sum⟩
    · exact ⟨.count, writes_entries (.tail _ (.tail _ (.head _))) rfl rfl count⟩
  | histogram bs sum count =>
    rw [seriesLines_histogram] at hl
    rcases mem_compositeLines.mp hl with ⟨p, -, rfl⟩ | rfl | rfl
    · exact ⟨.bucket, writes_point (.head _) rfl rfl p⟩
    · exact ⟨.sum, writes_entries (.tail _ (.head _)) rfl rfl sum⟩
    · exact ⟨.count, writes_entries (.tail _ (.tail _ (.head _))) rfl rfl count⟩

section Bounds

variable {f f' : Family} (hw : r.Writes name s l) (hs : f.Accepts s)
include hw hs

/-- The label of the bound is none of the labels of the sample. -/
lemma bound_notMem {label : String} (hb : r.bound? = some label) : label ∉ s.labels.keys := by
  refine notMem_of_accepts hs ?_
  have hrole := hw.role
  rw [hs.1] at hrole
  cases ht : f.metricType <;> cases r <;> simp_all [rolesOf, Role.bound?, Family.addsLabel]

lemma mem_entries_iff {p : String × String} :
    p ∈ s.labels.entries ↔ p ∈ l.labels ∧ r.bound? ≠ some p.1 := by
  refine ⟨fun hp => ⟨hw.labels p hp, fun hb => ?_⟩, fun hp => hw.others p hp.1 hp.2⟩
  exact bound_notMem hw hs hb (List.mem_map_of_mem hp)

lemma labels_eq_of_bound (hw' : r'.Writes name' s' l') (hs' : f'.Accepts s')
    (hb : r.bound? = r'.bound?) (hp : ∀ p, p ∈ l.labels ↔ p ∈ l'.labels) :
    s.labels = s'.labels := by
  refine SortedMap.ext_get? fun k => Option.ext fun v => ?_
  rw [SortedMap.get?_eq_some_iff, SortedMap.get?_eq_some_iff, mem_entries_iff hw hs,
    mem_entries_iff hw' hs', hp, hb]

end Bounds

section Suffixes

/-- Of the suffixes that are not empty none ends in another one. -/
lemma suffix_eq_of_isSuffix (hr : r.suffix ≠ "") (h : r.suffix.toList <:+ r'.suffix.toList) :
    r.suffix = r'.suffix := by
  revert hr h
  cases r <;> cases r' <;> decide

lemma name_eq_of_suffix (hr : r.suffix ≠ "") (hr' : r'.suffix ≠ "")
    (h : name ++ r.suffix = name' ++ r'.suffix) : name = name' := by
  have hlist := congrArg String.toList h
  rw [String.toList_append, String.toList_append] at hlist
  have heq : r.suffix = r'.suffix := by
    rcases List.suffix_or_suffix_of_suffix ⟨_, hlist⟩ ⟨_, rfl⟩ with hsuffix | hsuffix
    · exact suffix_eq_of_isSuffix hr hsuffix
    · exact (suffix_eq_of_isSuffix hr' hsuffix).symm
  rw [heq] at hlist
  exact String.toList_injective (List.append_cancel_right hlist)

lemma mem_seriesNames {t : MetricType} (h : r ∈ rolesOf t) (hr : r.suffix ≠ "") :
    name ++ r.suffix ∈ seriesNames name t := by
  cases t <;> cases r <;>
    simp_all [rolesOf, seriesNames, Role.suffix, bucketName, sumName, countName]

lemma quantile_or_plain (h : r.suffix = r'.suffix) (hb : r.bound? ≠ r'.bound?) :
    r = .quantile ∧ r' = .plain ∨ r = .plain ∧ r' = .quantile := by
  revert h hb
  cases r <;> cases r' <;> decide

lemma summary_of_quantile {t : MetricType} (h : Role.quantile ∈ rolesOf t) : t = .summary := by
  revert h
  cases t <;> decide

lemma scalar_of_plain {t : MetricType} (h : Role.plain ∈ rolesOf t) :
    t ∉ [.summary, .histogram] := by
  revert h
  cases t <;> decide

end Suffixes

end Roles

end Exposition

namespace Merge

/-- Why a line of a sample of `m` and a line of a sample of `m'` may be one series: `m` has the name
of a bucket, sum or count series of `m'`, or groups disagree about the type of the family and a
sample has the label that a quantile of the other one is given. -/
inductive Overlap (merged : Merged) (m m' : Family) (s s' : Sample) (metric : String) : Prop
  | names (hmetric : metric = m.name) (hseries : m.name ∈ seriesNames m'.name s'.value.metricType)
  | types {c : Conflict} {first found : MetricType} (hfamily : m = m') (hc : c ∈ merged.conflicts)
      (hname : c.family = m.name) (hkind : c.kind = .type first found)
      (hsummary : s.value.metricType = .summary)
      (hscalar : s'.value.metricType ∉ [.summary, .histogram])
      (hlabel : Name.quantileLabel ∈ s'.labels.keys)

section Overlaps

variable {groups : List Group} {m m' : Family} {s s' : Sample} {l l' : SeriesLine} {r r' : Role}

lemma overlap_of_names {merged : Merged} (hw : r.Writes m.name s l) (hw' : r'.Writes m'.name s' l')
    (hmetric : l.metric = l'.metric) (hne : m.name ≠ m'.name) :
    Overlap merged m m' s s' l.metric ∨ Overlap merged m' m s' s l.metric := by
  have heq : m.name ++ r.suffix = m'.name ++ r'.suffix := by rw [← hw.metric, hmetric, hw'.metric]
  by_cases hr : r.suffix = ""
  · rw [hr, String.append_empty] at heq
    have hr' : r'.suffix ≠ "" := by
      intro hr'
      rw [hr', String.append_empty] at heq
      exact hne heq
    refine .inl (.names ?_ ?_)
    · rw [hw.metric, hr, String.append_empty]
    · rw [heq]
      exact mem_seriesNames hw'.role hr'
  · have hr' : r'.suffix = "" := by
      by_contra hr'
      exact hne (name_eq_of_suffix hr hr' heq)
    rw [hr', String.append_empty] at heq
    refine .inr (.names (hw.metric.trans heq) ?_)
    rw [← heq]
    exact mem_seriesNames hw.role hr

lemma index_eq_of_labels (hd : Distinct groups) (hm : m ∈ (merge groups).families) {i i' : Nat}
    (hi : m.samples[i]? = some s) (hi' : m.samples[i']? = some s') (h : s.labels = s'.labels) :
    i = i' := by
  have hnodup : (m.samples.map Sample.labels).Nodup := by
    rw [samples_of_mem_merge hd hm]
    exact survivors_labels_nodup hd m.name
  have hbound : i < (m.samples.map Sample.labels).length := by
    rw [List.length_map]
    exact (List.getElem?_eq_some_iff.mp hi).1
  refine (List.getElem?_inj hbound hnodup).mp ?_
  rw [List.getElem?_map, List.getElem?_map, hi, hi', Option.map_some, Option.map_some, h]

variable (hd : Distinct groups) (hset : ∀ g ∈ groups, g.Settled)
  (hm : m ∈ (merge groups).families) (hs : s ∈ m.samples) (hs' : s' ∈ m.samples)
include hd hset hm hs hs'

/-- Groups that give samples of different types to a family do not agree about its type. -/
lemma exists_typeConflict (hne : s.value.metricType ≠ s'.value.metricType) :
    ∃ c ∈ (merge groups).conflicts, c.family = m.name ∧
      ∃ first found, c.kind = .type first found := by
  obtain ⟨g, hg, f, hf, haccepts, -⟩ := source_of_mem_merge hd hset hm hs
  obtain ⟨g', hg', f', hf', haccepts', -⟩ := source_of_mem_merge hd hset hm hs'
  by_cases ht : f.metricType = m.metricType
  · have ht' : f'.metricType ≠ m.metricType := by
      intro ht'
      rw [haccepts.1, haccepts'.1, ht, ht'] at hne
      exact hne rfl
    exact ⟨_, typeConflict_of_ne hd hm hg' hf' ht', rfl, _, _, rfl⟩
  · exact ⟨_, typeConflict_of_ne hd hm hg hf ht, rfl, _, _, rfl⟩

lemma overlap_of_types (hw : Role.quantile.Writes m.name s l) (hw' : Role.plain.Writes m.name s' l')
    (hp : ∀ p, p ∈ l.labels ↔ p ∈ l'.labels) :
    Overlap (merge groups) m m s s' l.metric := by
  have hsummary := summary_of_quantile hw.role
  have hscalar := scalar_of_plain hw'.role
  have hne : s.value.metricType ≠ s'.value.metricType := by
    intro heq
    rw [← heq, hsummary] at hscalar
    exact hscalar List.mem_cons_self
  obtain ⟨c, hc, hname, first, found, hkind⟩ := exists_typeConflict hd hset hm hs hs' hne
  obtain ⟨x, hx⟩ := hw.bound Name.quantileLabel rfl
  have hentry := hw'.others _ ((hp _).mp hx) nofun
  exact .types rfl hc hname hkind hsummary hscalar (List.mem_map_of_mem hentry)

/-- Samples of one family that have lines of one series are one sample, or differ in type. -/
lemma labels_eq_or_overlap (hl : l ∈ seriesLines m.name s) (hl' : l' ∈ seriesLines m.name s')
    (h : l.SameSeries l') : s.labels = s'.labels ∨
      Overlap (merge groups) m m s s' l.metric ∨ Overlap (merge groups) m m s' s l.metric := by
  obtain ⟨hmetric, hp⟩ := h
  obtain ⟨r, hw⟩ := exists_writes hl
  obtain ⟨r', hw'⟩ := exists_writes hl'
  by_cases hb : r.bound? = r'.bound?
  · obtain ⟨-, -, f, -, haccepts, -⟩ := source_of_mem_merge hd hset hm hs
    obtain ⟨-, -, f', -, haccepts', -⟩ := source_of_mem_merge hd hset hm hs'
    exact .inl (labels_eq_of_bound hw haccepts hw' haccepts' hb hp)
  · have hsuffix : m.name ++ r.suffix = m.name ++ r'.suffix := by
      rw [← hw.metric, hmetric, hw'.metric]
    rcases quantile_or_plain (append_inj_right hsuffix) hb with ⟨rfl, rfl⟩ | ⟨rfl, rfl⟩
    · exact .inr (.inl (overlap_of_types hd hset hm hs hs' hw hw' hp))
    · rw [hmetric]
      exact .inr (.inr (overlap_of_types hd hset hm hs' hs hw' hw fun p => (hp p).symm))

end Overlaps

end Merge

namespace Table

open Merge

/-- Sample lines of different samples are one series only where a family has the name of another
one's series, or where groups disagree about a type. -/
theorem Fed.served_series_apart {t : Table} (h : t.Fed) :
    let merged := merge t.snapshot
    lines (render merged.families) = renderLines merged.families ++ [[]] ∧
    (∀ m ∈ merged.families, ∀ s ∈ m.samples, ∀ l ∈ seriesLines m.name s,
      readLine l.text = .ok (.series l.collapse)) ∧
    ∀ m ∈ merged.families, ∀ m' ∈ merged.families, ∀ (i i' : Nat) (s s' : Sample),
      m.samples[i]? = some s → m'.samples[i']? = some s' → (m, i) ≠ (m', i') →
      ∀ l ∈ seriesLines m.name s, ∀ l' ∈ seriesLines m'.name s', l.SameSeries l' →
        Overlap merged m m' s s' l.metric ∨ Overlap merged m' m s' s l.metric := by
  intro merged
  have hd := h.distinct
  have hset : ∀ g ∈ t.snapshot, g.Settled := fun g hg => (h.groups g hg).2
  have hname : ∀ m ∈ merged.families, Name.isMetricName m.name = true :=
    fun m hm => isMetricName_of_mem_merge hd hset hm
  have hread : ∀ m ∈ merged.families, ∀ s ∈ m.samples, ∀ l ∈ seriesLines m.name s,
      l.Readable := by
    intro m hm s hs l hl
    obtain ⟨g, hg, f, hf, haccepts, -⟩ := source_of_mem_merge hd hset hm hs
    have hfamily : f.name = m.name := (hd.valid g hg).name_of_get? hf
    rw [← hfamily] at hl
    exact readable_of_mem_seriesLines (hfamily ▸ hname m hm) haccepts hl
  refine ⟨lines_render_of_readable hname hread,
    fun m hm s hs l hl => readLine_text (hread m hm s hs l hl), ?_⟩
  intro m hm m' hm' i i' s s' hi hi' hne l hl l' hl' hsame
  by_cases heq : m.name = m'.name
  · obtain rfl : m = m' := List.inj_on_of_nodup_map (names_merge_nodup t.snapshot) hm hm' heq
    have hs := List.mem_of_getElem? hi
    have hs' := List.mem_of_getElem? hi'
    rcases labels_eq_or_overlap hd hset hm hs hs' hl hl' hsame with hlabels | hoverlap
    · rw [index_eq_of_labels hd hm hi hi' hlabels] at hne
      exact absurd rfl hne
    · exact hoverlap
  · obtain ⟨r, hw⟩ := exists_writes hl
    obtain ⟨r', hw'⟩ := exists_writes hl'
    exact overlap_of_names hw hw' hsame.1 heq

/-- Groups that disagree about the type of a family without a label that would be a bound. -/
theorem Fed.served_series_apart_two_types :
    let one : Binary64 := ⟨0x3FF0000000000000⟩
    let a : GroupingKey := ⟨.ofList [("job", "a"), ("instance", "i")], by decide, by decide⟩
    let b : GroupingKey := ⟨.ofList [("job", "a")], by decide, by decide⟩
    let early : Family := ⟨"q", "", .summary, [⟨.empty, .summary [⟨one, one⟩] .zero .zero, none⟩]⟩
    let late : Family := ⟨"q", "", .gauge, [⟨.empty, .gauge one, none⟩]⟩
    let t : Table := ⟨.ofList [(a, ⟨a, .ofList [("q", early)], 5, 0⟩),
      (b, ⟨b, .ofList [("q", late)], 6, 1⟩)], 2⟩
    let samples : List Sample :=
      [⟨a.labels, .summary [⟨one, one⟩] .zero .zero, none⟩, ⟨b.labels, .gauge one, none⟩]
    t.Fed ∧ merge t.snapshot = ⟨[⟨"q", "", .summary, samples⟩], [⟨"q", b, .type .summary .gauge⟩]⟩ ∧
      ∀ (i i' : Nat) (s s' : Sample), samples[i]? = some s → samples[i']? = some s' → i ≠ i' →
        ∀ l ∈ seriesLines "q" s, ∀ l' ∈ seriesLines "q" s', ¬l.SameSeries l' := by
  intro one a b early late t samples
  have hearly : parse "# TYPE q summary\nq\x7bquantile=\"1\"\x7d 1" = .ok [early] := by
    decide +kernel
  have hlate : parse "# TYPE q gauge\nq 1" = .ok [late] := by decide +kernel
  have hfirst : Table.empty.push a [early] 5
      = .ok (⟨.ofList [(a, ⟨a, .ofList [("q", early)], 5, 0⟩)], 1⟩, false) := by decide +kernel
  have hsecond : Table.push ⟨.ofList [(a, ⟨a, .ofList [("q", early)], 5, 0⟩)], 1⟩ b [late] 6
      = .ok (t, false) := by decide +kernel
  have hfed : t.Fed := (Fed.empty.push hearly hfirst).push hlate hsecond
  have hranked : Merge.ranked t.snapshot = t.snapshot :=
    List.mergeSort_of_pairwise (by decide +kernel)
  have hmerge : merge t.snapshot
      = ⟨[⟨"q", "", .summary, samples⟩], [⟨"q", b, .type .summary .gauge⟩]⟩ := by
    rw [merge, hranked]
    decide +kernel
  refine ⟨hfed, hmerge, fun i i' s s' hi hi' hne l hl l' hl' hsame => ?_⟩
  have hcases := hfed.served_series_apart
  rw [hmerge] at hcases
  have hmem := List.mem_cons_self (a := (⟨"q", "", .summary, samples⟩ : Family)) (l := [])
  have hoverlap := hcases.2.2 _ hmem _ hmem i i' s s' hi hi' (fun heq => hne (Prod.mk.inj heq).2)
    l hl l' hl' hsame
  have hnames (type : MetricType) : "q" ∉ seriesNames "q" type := by cases type <;> decide
  have hlabels : ∀ r ∈ samples, Name.quantileLabel ∉ r.labels.keys := by decide +kernel
  rcases hoverlap with (⟨-, hn⟩ | ⟨-, -, -, -, -, -, hl⟩) | (⟨-, hn⟩ | ⟨-, -, -, -, -, -, hl⟩)
  · exact hnames _ hn
  · exact hlabels s' (List.mem_of_getElem? hi') hl
  · exact hnames _ hn
  · exact hlabels s (List.mem_of_getElem? hi) hl

/-- One payload has families named like the series of another family of it, and a second payload
gives the quantile of the first one's summary as a label. -/
theorem Fed.serves_series_twice :
    let one : Binary64 := ⟨0x3FF0000000000000⟩
    let a : GroupingKey := ⟨.ofList [("job", "a"), ("instance", "i")], by decide, by decide⟩
    let b : GroupingKey := ⟨.ofList [("job", "a")], by decide, by decide⟩
    let plain (name : String) (pairs : List (String × String)) : Family :=
      ⟨name, "", .untyped, [⟨.ofList pairs, .untyped one, none⟩]⟩
    let composite (labels : Labels) : Sample := ⟨labels, .histogram [⟨one, one⟩] .zero .zero, none⟩
    let summary (labels : Labels) : Sample := ⟨labels, .summary [⟨one, one⟩] .zero .zero, none⟩
    let early : List Family := [plain "h_bucket" [("le", "1")], plain "h_sum" [],
      plain "h_count" [], ⟨"h", "", .histogram, [composite .empty]⟩,
      ⟨"q", "", .summary, [summary .empty]⟩]
    let late : List Family := [plain "q" [("instance", "i"), ("quantile", "1")]]
    let t : Table := ⟨.ofList [(a, ⟨a, .ofList (early.map fun f => (f.name, f)), 5, 0⟩),
      (b, ⟨b, .ofList (late.map fun f => (f.name, f)), 6, 1⟩)], 2⟩
    let apart : List Family := [plain "h_bucket" (a.labels.entries ++ [("le", "1")]),
      plain "h_count" a.labels.entries, plain "h_sum" a.labels.entries]
    let labelled : Sample :=
      ⟨.ofList (a.labels.entries ++ [("quantile", "1")]), .untyped one, none⟩
    t.Fed ∧ (merge t.snapshot).families = ⟨"h", "", .histogram, [composite a.labels]⟩ :: apart ++
        [⟨"q", "", .summary, [summary a.labels, labelled]⟩] ∧
      (∀ m ∈ apart, ∃ s ∈ m.samples, ∃ l ∈ seriesLines m.name s,
        ∃ l' ∈ seriesLines "h" (composite a.labels), l.SameSeries l') ∧
      ∃ l ∈ seriesLines "q" labelled, ∃ l' ∈ seriesLines "q" (summary a.labels),
        l.SameSeries l' := by
  intro one a b plain composite summary early late t apart labelled
  have hearly : parse ("h_bucket\x7ble=\"1\"\x7d 1\nh_sum 1\nh_count 1\n# TYPE h histogram\n" ++
      "h_bucket\x7ble=\"1\"\x7d 1\n# TYPE q summary\nq\x7bquantile=\"1\"\x7d 1") = .ok early := by
    decide +kernel
  have hlate : parse "q\x7binstance=\"i\",quantile=\"1\"\x7d 1" = .ok late := by decide +kernel
  have hfirst : Table.empty.push a early 5
      = .ok (⟨.ofList [(a, ⟨a, .ofList (early.map fun f => (f.name, f)), 5, 0⟩)], 1⟩, false) := by
    decide +kernel
  have hsecond : Table.push
      ⟨.ofList [(a, ⟨a, .ofList (early.map fun f => (f.name, f)), 5, 0⟩)], 1⟩ b late 6
        = .ok (t, false) := by
    decide +kernel
  have hranked : Merge.ranked t.snapshot = t.snapshot :=
    List.mergeSort_of_pairwise (by decide +kernel)
  refine ⟨(Fed.empty.push hearly hfirst).push hlate hsecond, ?_, ?_, ?_⟩
  · rw [merge, hranked]
    decide +kernel
  · refine List.forall_mem_cons.mpr
      ⟨?_, List.forall_mem_cons.mpr ⟨?_, List.forall_mem_singleton.mpr ?_⟩⟩
    · exact ⟨_, .head _, _, .head _, ⟨"h_bucket", a.labels.entries ++ [("le", "1")], one, none⟩,
        by decide +kernel, rfl, fun _ => Iff.rfl⟩
    · exact ⟨_, .head _, _, .head _, ⟨"h_count", a.labels.entries, .zero, none⟩, by decide +kernel,
        rfl, fun _ => Iff.rfl⟩
    · exact ⟨_, .head _, _, .head _, ⟨"h_sum", a.labels.entries, .zero, none⟩, by decide +kernel,
        rfl, fun _ => Iff.rfl⟩
  · exact ⟨_, .head _, ⟨"q", a.labels.entries ++ [("quantile", "1")], one, none⟩,
      by decide +kernel, rfl, fun _ => Iff.rfl⟩

end Table

end PushGateway
