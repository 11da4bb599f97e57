import PushGateway.Proofs.CompletedSamples

/-! The series lines of a sample, filed one after the other, are gathered into the sample again. -/

namespace PushGateway

open Exposition

section Names

variable {name : String}

lemma append_inj_right {suffix suffix' : String} (h : name ++ suffix = name ++ suffix') :
    suffix = suffix' := by
  have hlist := congrArg String.toList h
  rw [String.toList_append, String.toList_append] at hlist
  exact String.toList_injective (List.append_cancel_left hlist)

lemma append_ne_self {suffix : String} (h : suffix ≠ "") : name ++ suffix ≠ name := by
  intro he
  have hempty : name ++ suffix = name ++ "" := he.trans String.append_empty.symm
  exact h (append_inj_right hempty)

lemma sumName_ne_countName : sumName name ≠ countName name :=
  fun he => absurd (append_inj_right he) (by decide)

lemma isMetricName_append {suffix : String} (h : Name.isMetricName name = true)
    (hs : suffix.toList.all Name.isMetricChar = true) :
    Name.isMetricName (name ++ suffix) = true := by
  unfold Name.isMetricName at h ⊢
  rw [String.toList_append]
  cases hn : name.toList with
  | nil => simp [hn] at h
  | cons c cs =>
    simp only [hn, Bool.and_eq_true, List.cons_append, List.all_append] at h ⊢
    exact ⟨h.1, h.2, hs⟩

lemma checkLabel_eq_ok_iff {f : Family} {label : String} : f.checkLabel label = .ok () ↔
    Readable label ∧ Family.addsLabel f.metricType label = false := by
  unfold Family.checkLabel Readable
  cases Name.isLabelName label <;> cases Name.isReserved label <;>
    cases Family.addsLabel f.metricType label <;> simp

end Names

section Composites

variable (family metric label : String) (labels : Labels) (timestamp : Option Int64)

def pointLine (p : Binary64 × Binary64) : SeriesLine :=
  ⟨metric, withBound labels label p.1, p.2, timestamp⟩

/-- The lines of a sample with bounds: one for each bound, then the sum and the count. -/
def compositeLines (ps : List (Binary64 × Binary64)) (sum count : Binary64) : List SeriesLine :=
  ps.map (pointLine metric label labels timestamp) ++
    [⟨sumName family, labels.entries, sum, timestamp⟩,
      ⟨countName family, labels.entries, count, timestamp⟩]

lemma seriesLines_summary (qs : List Quantile) (sum count : Binary64) :
    seriesLines family ⟨labels, .summary qs sum count, timestamp⟩ = compositeLines family family
      Name.quantileLabel labels timestamp (qs.map Quantile.point) sum count := by
  simp [seriesLines, compositeLines, pointLine, Quantile.point]

lemma seriesLines_histogram (bs : List Bucket) (sum count : Binary64) :
    seriesLines family ⟨labels, .histogram bs sum count, timestamp⟩ = compositeLines family
      (bucketName family) Name.bucketLabel labels timestamp
      ((completeBuckets bs count).map Bucket.point) sum count := by
  simp [seriesLines, compositeLines, pointLine, Bucket.point]

/-- What the point lines leave behind: nothing, or a composite without a sum and a count. -/
def gathered (ps : List (Binary64 × Binary64)) : List Composite :=
  if ps = [] then [] else [⟨labels, ps.toArray, none, none, timestamp⟩]

variable {label labels}

lemma updateComposite_append {f : Composite → Composite} {cs : List Composite}
    (hnew : labels ∉ cs.map Composite.labels) (more : List Composite) :
    Block.updateComposite labels f (cs ++ more) = cs ++ Block.updateComposite labels f more := by
  induction cs with
  | nil => rfl
  | cons c cs ih =>
    rw [List.map_cons, List.mem_cons, not_or] at hnew
    rw [List.cons_append, Block.updateComposite, if_neg (Ne.symm hnew.1), ih hnew.2]
    rfl

lemma find?_append_labels {cs : List Composite} (hnew : labels ∉ cs.map Composite.labels)
    (more : List Composite) : (cs ++ more).find? (fun c => c.labels == labels)
      = more.find? fun c => c.labels == labels := by
  rw [List.find?_append, List.find?_eq_none.mpr, Option.none_or]
  intro c hc he
  exact hnew (List.mem_map.mpr ⟨c, hc, by simpa using he⟩)

lemma ofList_withBound (hl : label ∉ labels.keys) (bound : Binary64) :
    let ls : Labels := SortedMap.ofList (withBound labels label bound)
    ls.get? label = some (String.ofList (valueText bound)) ∧ ls.erase label = labels := by
  have hinsert : (SortedMap.ofList (withBound labels label bound) : Labels)
      = labels.insert label (String.ofList (valueText bound)) := by
    rw [withBound, SortedMap.ofList, List.foldl_append, ← SortedMap.ofList,
      SortedMap.ofList_entries]
    rfl
  dsimp only
  rw [hinsert]
  refine ⟨SortedMap.get?_insert_self .., SortedMap.ext_get? fun j => ?_⟩
  by_cases hj : j = label
  · rw [hj, SortedMap.get?_erase_self, SortedMap.get?_eq_none_iff.mpr hl]
  · rw [SortedMap.get?_erase_of_ne _ hj, SortedMap.get?_insert_of_ne _ _ hj]

variable {b : Block} {cs : List Composite} {ps : List (Binary64 × Binary64)}

lemma addPoint_pointLine (hnew : labels ∉ cs.map Composite.labels) (hl : label ∉ labels.keys)
    {p : Binary64 × Binary64} (hp : p.1.collapse = p.1) :
    Block.addPoint { b with composites := cs ++ gathered labels timestamp ps } label
        (pointLine metric label labels timestamp p)
      = .ok { b with composites := cs ++ gathered labels timestamp (ps ++ [p]) } := by
  obtain ⟨hget, herase⟩ := ofList_withBound hl p.1
  unfold Block.addPoint pointLine
  dsimp only at hget herase ⊢
  rw [hget]
  simp only [String.toList_ofList, readValue?_valueText, hp, herase, Block.update,
    updateComposite_append hnew]
  cases ps with
  | nil => simp [gathered, Block.updateComposite]
  | cons q ps => simp [gathered, Block.updateComposite]

lemma addSum_written (hnew : labels ∉ cs.map Composite.labels) (sum : Binary64) :
    Block.addSum { b with composites := cs ++ gathered labels timestamp ps }
        ⟨sumName b.name, labels.entries, sum, timestamp⟩
      = .ok { b with composites := cs ++ [⟨labels, ps.toArray, some sum, none, timestamp⟩] } := by
  unfold Block.addSum Block.composite?
  dsimp only
  rw [SortedMap.ofList_entries, find?_append_labels hnew, Block.update,
    updateComposite_append hnew]
  cases ps with
  | nil => simp [gathered, Block.updateComposite]
  | cons q ps => simp [gathered, Block.updateComposite]

lemma addCount_written (hnew : labels ∉ cs.map Composite.labels) (sum count : Binary64) :
    Block.addCount
        { b with composites := cs ++ [⟨labels, ps.toArray, some sum, none, timestamp⟩] }
        ⟨countName b.name, labels.entries, count, timestamp⟩
      = .ok { b with
          composites := cs ++ [⟨labels, ps.toArray, some sum, some count, timestamp⟩] } := by
  unfold Block.addCount Block.composite?
  dsimp only
  rw [SortedMap.ofList_entries, find?_append_labels hnew, Block.update,
    updateComposite_append hnew]
  simp [Block.updateComposite]

/-- How the lines of a sample with bounds are told apart. -/
structure Sorts (b : Block) (metric label : String) : Prop where
  point : ∀ cs l, l.metric = metric → Block.addSeries { b with composites := cs } l
    = Block.addPoint { b with composites := cs } label l
  sum : ∀ cs l, l.metric = sumName b.name → Block.addSeries { b with composites := cs } l
    = Block.addSum { b with composites := cs } l
  count : ∀ cs l, l.metric = countName b.name → Block.addSeries { b with composites := cs } l
    = Block.addCount { b with composites := cs } l

lemma foldlM_pointLines (hb : Sorts b metric label) (hnew : labels ∉ cs.map Composite.labels)
    (hl : label ∉ labels.keys) (ps : List (Binary64 × Binary64))
    {more : List (Binary64 × Binary64)} (hmore : ∀ p ∈ more, p.1.collapse = p.1) :
    (more.map (pointLine metric label labels timestamp)).foldlM Block.addSeries
        { b with composites := cs ++ gathered labels timestamp ps }
      = .ok { b with composites := cs ++ gathered labels timestamp (ps ++ more) } := by
  induction more generalizing ps with
  | nil =>
    rw [List.append_nil]
    rfl
  | cons p more ih =>
    obtain ⟨hp, hmore⟩ := List.forall_mem_cons.mp hmore
    rw [List.map_cons, List.foldlM_cons, hb.point _ _ rfl, addPoint_pointLine metric _ hnew hl hp]
    have hrest := ih (ps ++ [p]) hmore
    rw [List.append_assoc] at hrest
    exact hrest

theorem foldlM_compositeLines (hb : Sorts b metric label)
    (hnew : labels ∉ cs.map Composite.labels) (hl : label ∉ labels.keys)
    (hps : ∀ p ∈ ps, p.1.collapse = p.1) (sum count : Binary64) :
    (compositeLines b.name metric label labels timestamp ps sum count).foldlM Block.addSeries
        { b with composites := cs }
      = .ok { b with
          composites := cs ++ [⟨labels, ps.toArray, some sum, some count, timestamp⟩] } := by
  have hpoints := foldlM_pointLines metric timestamp hb hnew hl [] hps
  have hnone : cs ++ gathered labels timestamp [] = cs := List.append_nil cs
  rw [hnone, List.nil_append] at hpoints
  rw [compositeLines, List.foldlM_append, hpoints]
  change List.foldlM _ _ _ = _
  rw [List.foldlM_cons, hb.sum _ _ rfl, addSum_written _ hnew]
  change List.foldlM _ _ _ = _
  rw [List.foldlM_cons, hb.count _ _ rfl, addCount_written _ hnew]
  rfl

end Composites

section Roles

variable {b : Block}

lemma role?_bucketName (h : b.kind = .histogram) :
    b.role? (bucketName b.name) = some .bucket := by
  have hname : bucketName b.name ≠ b.name := append_ne_self (by decide)
  simp only [Block.role?, h, if_neg hname, if_true]

lemma role?_sumName (h : b.kind = .histogram ∨ b.kind = .summary) :
    b.role? (sumName b.name) = some .sum := by
  have hname : sumName b.name ≠ b.name := append_ne_self (by decide)
  have hbucket : sumName b.name ≠ bucketName b.name :=
    fun he => absurd (append_inj_right he) (by decide)
  rcases h with h | h
  · simp only [Block.role?, h, if_neg hname, if_neg hbucket, if_true]
  · simp only [Block.role?, h, if_neg hname, if_true]

lemma role?_countName (h : b.kind = .histogram ∨ b.kind = .summary) :
    b.role? (countName b.name) = some .count := by
  have hname : countName b.name ≠ b.name := append_ne_self (by decide)
  have hbucket : countName b.name ≠ bucketName b.name :=
    fun he => absurd (append_inj_right he) (by decide)
  have hsum : countName b.name ≠ sumName b.name := sumName_ne_countName.symm
  rcases h with h | h
  · simp only [Block.role?, h, if_neg hname, if_neg hbucket, if_neg hsum, if_true]
  · simp only [Block.role?, h, if_neg hname, if_neg hsum, if_true]

lemma role?_name (b : Block) : (b.role? b.name).isSome = true := by
  unfold Block.role?
  cases b.kind <;> simp

lemma sorts_of_role? {metric label : String} (hkind : b.kind = .histogram ∨ b.kind = .summary)
    (h : b.role? metric = some .bucket ∧ label = Name.bucketLabel ∨
      b.role? metric = some .quantile ∧ label = Name.quantileLabel) : Sorts b metric label := by
  -- what a line is to the block does not depend on the composites
  refine ⟨fun cs l hl => ?_, fun cs l hl => ?_, fun cs l hl => ?_⟩
  · rcases h with ⟨h, rfl⟩ | ⟨h, rfl⟩
    · have hrole : Block.role? { b with composites := cs } l.metric = some .bucket := hl ▸ h
      simp only [Block.addSeries, hrole]
    · have hrole : Block.role? { b with composites := cs } l.metric = some .quantile := hl ▸ h
      simp only [Block.addSeries, hrole]
  · have hrole : Block.role? { b with composites := cs } l.metric = some .sum :=
      hl ▸ role?_sumName hkind
    simp only [Block.addSeries, hrole]
  · have hrole : Block.role? { b with composites := cs } l.metric = some .count :=
      hl ▸ role?_countName hkind
    simp only [Block.addSeries, hrole]

lemma sorts_histogram (h : b.kind = .histogram) : Sorts b (bucketName b.name) Name.bucketLabel :=
  sorts_of_role? (.inl h) (.inl ⟨role?_bucketName h, rfl⟩)

lemma sorts_summary (h : b.kind = .summary) : Sorts b b.name Name.quantileLabel :=
  sorts_of_role? (.inr h) (.inr ⟨by simp [Block.role?, h], rfl⟩)

end Roles

section Lines

lemma map_eq_self_iff {A : Type} {g : A → A} {l : List A} : l.map g = l ↔ ∀ a ∈ l, g a = a := by
  rw [← List.map_inj_left, List.map_id']

/-- Which NaN a bound or its number is was settled when they were read. -/
def SettledPoints (ps : List (Binary64 × Binary64)) : Prop :=
  ∀ p ∈ ps, p.1.collapse = p.1 ∧ p.2.collapse = p.2

lemma settledPoints_summary {qs : List Quantile} {sum count : Binary64}
    (h : (SampleValue.summary qs sum count).collapse = .summary qs sum count) :
    SettledPoints (qs.map Quantile.point) ∧ sum.collapse = sum ∧ count.collapse = count := by
  obtain ⟨hqs, hsum, hcount⟩ := SampleValue.summary.inj h
  refine ⟨fun p hp => ?_, hsum, hcount⟩
  obtain ⟨q, hq, rfl⟩ := List.mem_map.mp hp
  exact Quantile.mk.inj (map_eq_self_iff.mp hqs q hq)

lemma settledPoints_histogram {bs : List Bucket} {sum count : Binary64}
    (h : (SampleValue.histogram bs sum count).collapse = .histogram bs sum count) :
    SettledPoints ((completeBuckets bs count).map Bucket.point) ∧ sum.collapse = sum ∧
      count.collapse = count := by
  obtain ⟨hbs, hsum, hcount⟩ := SampleValue.histogram.inj h
  have hall : ∀ b ∈ completeBuckets bs count, b.collapse = b := by
    unfold completeBuckets
    split_ifs
    · exact map_eq_self_iff.mp hbs
    · intro b hb
      rcases List.mem_append.mp hb with hb | hb
      · exact map_eq_self_iff.mp hbs b hb
      · rw [List.mem_singleton.mp hb, Bucket.collapse, hcount]
        rfl
  refine ⟨fun p hp => ?_, hsum, hcount⟩
  obtain ⟨b, hb, rfl⟩ := List.mem_map.mp hp
  exact Bucket.mk.inj (hall b hb)

section Composites

variable {family metric label : String} {labels : Labels} {timestamp : Option Int64}
  {ps : List (Binary64 × Binary64)} {sum count : Binary64} {l : SeriesLine}

lemma mem_compositeLines : l ∈ compositeLines family metric label labels timestamp ps sum count ↔
    (∃ p ∈ ps, pointLine metric label labels timestamp p = l) ∨
      l = ⟨sumName family, labels.entries, sum, timestamp⟩ ∨
      l = ⟨countName family, labels.entries, count, timestamp⟩ := by
  simp [compositeLines]

lemma readable_entries (hm : Name.isMetricName metric = true) (hl : ∀ n ∈ labels.keys, Readable n)
    (x : Binary64) : SeriesLine.Readable ⟨metric, labels.entries, x, timestamp⟩ :=
  ⟨hm, fun p hp => hl p.1 (List.mem_map_of_mem hp), SortedMap.nodup_of_sorted labels.keys_sorted⟩

lemma readable_pointLine (hm : Name.isMetricName metric = true)
    (hl : ∀ n ∈ labels.keys, Readable n) (hlabel : Readable label) (hnew : label ∉ labels.keys)
    (p : Binary64 × Binary64) : (pointLine metric label labels timestamp p).Readable := by
  refine ⟨hm, fun q hq => ?_, ?_⟩
  · rcases List.mem_append.mp hq with hq | hq
    · exact hl q.1 (List.mem_map_of_mem hq)
    · rw [List.mem_singleton.mp hq]
      exact hlabel
  · rw [pointLine, withBound, List.map_append]
    refine List.nodup_append.mpr ⟨SortedMap.nodup_of_sorted labels.keys_sorted,
      List.pairwise_singleton _ _, ?_⟩
    intro x hx y hy hxy
    rw [hxy, List.mem_singleton.mp hy] at hx
    exact hnew hx

lemma readable_of_mem_compositeLines (hf : Name.isMetricName family = true)
    (hm : Name.isMetricName metric = true) (hl : ∀ n ∈ labels.keys, Readable n)
    (hlabel : Readable label) (hnew : label ∉ labels.keys)
    (h : l ∈ compositeLines family metric label labels timestamp ps sum count) : l.Readable := by
  rcases mem_compositeLines.mp h with ⟨p, -, rfl⟩ | rfl | rfl
  · exact readable_pointLine hm hl hlabel hnew p
  · exact readable_entries (isMetricName_append hf (by decide)) hl sum
  · exact readable_entries (isMetricName_append hf (by decide)) hl count

lemma collapse_of_mem_compositeLines (hps : SettledPoints ps) (hsum : sum.collapse = sum)
    (hcount : count.collapse = count)
    (h : l ∈ compositeLines family metric label labels timestamp ps sum count) :
    l.collapse = l := by
  rcases mem_compositeLines.mp h with ⟨p, hp, rfl⟩ | rfl | rfl
  · rw [SeriesLine.collapse, pointLine, (hps p hp).2]
  · rw [SeriesLine.collapse, hsum]
  · rw [SeriesLine.collapse, hcount]

lemma role?_of_mem_compositeLines {b : Block} (hkind : b.kind = .histogram ∨ b.kind = .summary)
    (hmetric : (b.role? metric).isSome = true)
    (h : l ∈ compositeLines b.name metric label labels timestamp ps sum count) :
    (b.role? l.metric).isSome = true := by
  rcases mem_compositeLines.mp h with ⟨p, -, rfl⟩ | rfl | rfl
  · exact hmetric
  · rw [role?_sumName hkind]
    rfl
  · rw [role?_countName hkind]
    rfl

end Composites

section Samples

variable {f : Family} {s : Sample} {l : SeriesLine}

lemma readable_of_accepts (hs : f.Accepts s) : ∀ n ∈ s.labels.keys, Readable n :=
  fun n hn => (checkLabel_eq_ok_iff.mp (hs.2 n hn)).1

lemma notMem_of_accepts (hs : f.Accepts s) {label : String}
    (h : Family.addsLabel f.metricType label = true) : label ∉ s.labels.keys := by
  intro hm
  have hnot := (checkLabel_eq_ok_iff.mp (hs.2 label hm)).2
  rw [h] at hnot
  cases hnot

lemma readable_of_mem_seriesLines (hname : Name.isMetricName f.name = true) (hs : f.Accepts s)
    (hl : l ∈ seriesLines f.name s) : l.Readable := by
  have hkeys := readable_of_accepts hs
  have hlabel {label : String} (h : Family.addsLabel f.metricType label = true) :
      label ∉ s.labels.keys := notMem_of_accepts hs h
  obtain ⟨labels, value, timestamp⟩ := s
  have htype : value.metricType = f.metricType := hs.1
  cases value with
  | counter x | gauge x | untyped x =>
    obtain rfl := List.mem_singleton.mp hl
    exact readable_entries hname hkeys x
  | summary qs sum count =>
    rw [seriesLines_summary] at hl
    exact readable_of_mem_compositeLines hname hname hkeys ⟨by decide, by decide⟩
      (hlabel (htype ▸ rfl)) hl
  | histogram bs sum count =>
    rw [seriesLines_histogram] at hl
    exact readable_of_mem_compositeLines hname (isMetricName_append hname (by decide)) hkeys
      ⟨by decide, by decide⟩ (hlabel (htype ▸ rfl)) hl

lemma collapse_of_mem_seriesLines {family : String} (h : s.value.collapse = s.value)
    (hl : l ∈ seriesLines family s) : l.collapse = l := by
  obtain ⟨labels, value, timestamp⟩ := s
  cases value with
  | counter x | gauge x | untyped x =>
    obtain rfl := List.mem_singleton.mp hl
    have hx : x.collapse = x := by simpa [SampleValue.collapse] using h
    rw [SeriesLine.collapse, hx]
  | summary qs sum count =>
    rw [seriesLines_summary] at hl
    obtain ⟨hps, hsum, hcount⟩ := settledPoints_summary h
    exact collapse_of_mem_compositeLines hps hsum hcount hl
  | histogram bs sum count =>
    rw [seriesLines_histogram] at hl
    obtain ⟨hps, hsum, hcount⟩ := settledPoints_histogram h
    exact collapse_of_mem_compositeLines hps hsum hcount hl

lemma role?_of_mem_seriesLines {b : Block} (hkind : s.value.metricType = b.kind)
    (hl : l ∈ seriesLines b.name s) : (b.role? l.metric).isSome = true := by
  obtain ⟨labels, value, timestamp⟩ := s
  cases value with
  | counter x | gauge x | untyped x =>
    obtain rfl := List.mem_singleton.mp hl
    exact role?_name b
  | summary qs sum count =>
    rw [seriesLines_summary] at hl
    exact role?_of_mem_compositeLines (.inr hkind.symm) (role?_name b) hl
  | histogram bs sum count =>
    rw [seriesLines_histogram] at hl
    refine role?_of_mem_compositeLines (.inl hkind.symm) ?_ hl
    rw [role?_bucketName hkind.symm]
    rfl

end Samples

end Lines

section Families

variable {f : Family} {s : Sample}

/-- What the lines of a sample with bounds are gathered into. -/
def compositeOf (s : Sample) : Composite :=
  match s.value with
  | .summary qs sum count =>
    ⟨s.labels, (qs.map Quantile.point).toArray, some sum, some count, s.timestamp⟩
  | .histogram bs sum count =>
    ⟨s.labels, ((completeBuckets bs count).map Bucket.point).toArray, some sum, some count,
      s.timestamp⟩
  | .counter _ | .gauge _ | .untyped _ => ⟨s.labels, #[], none, none, s.timestamp⟩

/-- The block of a family of which the given samples were filed. -/
def filed (f : Family) (start : Nat) (samples : List Sample) : Block :=
  match f.metricType with
  | .histogram | .summary =>
    ⟨f.name, start, some f.help, some f.metricType, #[], samples.map compositeOf⟩
  | .counter | .gauge | .untyped =>
    ⟨f.name, start, some f.help, some f.metricType, samples.toArray, []⟩

variable {start : Nat} {done : List Sample}

lemma name_filed : (filed f start done).name = f.name := by
  unfold filed
  cases f.metricType <;> rfl

lemma kind_filed : (filed f start done).kind = f.metricType := by
  unfold filed Block.kind
  cases f.metricType <;> rfl

lemma help_filed : (filed f start done).help = some f.help := by
  unfold filed
  cases f.metricType <;> rfl

lemma filed_concat (h : f.metricType = .histogram ∨ f.metricType = .summary) (done : List Sample)
    (s : Sample) : filed f start (done ++ [s])
      = { filed f start done with composites := done.map compositeOf ++ [compositeOf s] } := by
  unfold filed
  rcases h with h | h <;> simp [h]

lemma labels_compositeOf (s : Sample) : (compositeOf s).labels = s.labels := by
  unfold compositeOf
  cases s.value <;> rfl

lemma addSeries_plain {b : Block} {l : SeriesLine} (hm : l.metric = b.name)
    (hh : b.kind ≠ .histogram) (hs : b.kind ≠ .summary) : b.addSeries l = .ok (b.addPlain l) := by
  unfold Block.addSeries Block.role?
  cases hk : b.kind <;> simp_all

lemma foldlM_seriesLines (hs : f.Accepts s) (hv : s.value.collapse = s.value)
    (hnew : s.labels ∉ done.map Sample.labels) :
    (seriesLines f.name s).foldlM Block.addSeries (filed f start done)
      = .ok (filed f start (done ++ [s])) := by
  have hlabel {label : String} (h : Family.addsLabel f.metricType label = true) :
      label ∉ s.labels.keys := notMem_of_accepts hs h
  have hcomposites : s.labels ∉ (done.map compositeOf).map Composite.labels := by
    rw [List.map_map]
    simpa [labels_compositeOf] using hnew
  have hkind : (filed f start done).kind = f.metricType := kind_filed
  obtain ⟨name, help, type, samples⟩ := f
  obtain ⟨labels, value, timestamp⟩ := s
  obtain rfl : value.metricType = type := hs.1
  cases value with
  | counter x | gauge x | untyped x =>
    change List.foldlM Block.addSeries _ [_] = _
    rw [List.foldlM_cons, addSeries_plain rfl (by rw [hkind]; simp [SampleValue.metricType])
      (by rw [hkind]; simp [SampleValue.metricType])]
    simp only [Block.addPlain, SortedMap.ofList_entries, hkind]
    simp [filed, SampleValue.metricType, SampleValue.scalar, bind, Except.bind, pure, Except.pure]
  | summary qs sum count =>
    rw [seriesLines_summary]
    obtain ⟨hps, -, -⟩ := settledPoints_summary hv
    have hsorts := sorts_summary (b := filed ⟨name, help, .summary, samples⟩ start done) rfl
    have hfold := foldlM_compositeLines _ timestamp hsorts hcomposites (hlabel rfl)
      (fun p hp => (hps p hp).1) sum count
    rw [filed_concat (.inr rfl)]
    exact hfold
  | histogram bs sum count =>
    rw [seriesLines_histogram]
    obtain ⟨hps, -, -⟩ := settledPoints_histogram hv
    have hsorts := sorts_histogram (b := filed ⟨name, help, .histogram, samples⟩ start done) rfl
    have hfold := foldlM_compositeLines _ timestamp hsorts hcomposites (hlabel rfl)
      (fun p hp => (hps p hp).1) sum count
    rw [filed_concat (.inl rfl)]
    exact hfold

lemma foldlM_samples {samples : List Sample} (hf : ∀ s ∈ samples, f.Accepts s)
    (hv : ∀ s ∈ samples, s.value.collapse = s.value)
    (hd : ((done ++ samples).map Sample.labels).Nodup) :
    (samples.flatMap (seriesLines f.name)).foldlM Block.addSeries (filed f start done)
      = .ok (filed f start (done ++ samples)) := by
  induction samples generalizing done with
  | nil =>
    rw [List.append_nil]
    rfl
  | cons s samples ih =>
    obtain ⟨hs, hf⟩ := List.forall_mem_cons.mp hf
    obtain ⟨hvs, hv⟩ := List.forall_mem_cons.mp hv
    have hnew : s.labels ∉ done.map Sample.labels := by
      rw [List.map_append, List.map_cons] at hd
      exact fun hm => (List.nodup_append.mp hd).2.2 _ hm _ List.mem_cons_self rfl
    -- the lines of `s` are filed, so `s` goes over to `done`
    have hmoved : done ++ s :: samples = done ++ [s] ++ samples := by simp
    rw [hmoved] at hd ⊢
    rw [List.flatMap_cons, List.foldlM_append, foldlM_seriesLines hs hvs hnew]
    exact ih hf hv hd

lemma histogramSample_compositeOf {b : Block} (hs : s.value.Settled)
    (ht : s.value.metricType = .histogram) :
    b.histogramSample (compositeOf s) = .ok s.complete := by
  obtain ⟨labels, value, timestamp⟩ := s
  cases value with
  | counter x | gauge x | untyped x | summary qs sum count => cases ht
  | histogram bs sum count =>
    have hsort := sortPoints_completeBuckets count hs.ordered
    have hpoints : b.orderedPoints Name.bucketLabel
        (compositeOf ⟨labels, .histogram bs sum count, timestamp⟩)
          = .ok ((placeInfinite bs count).map Bucket.point) := by
      refine orderedPoints_eq_ok_iff.mpr ⟨?_, hsort.symm⟩
      exact hsort.symm ▸ hasRepeat_placeInfinite count hs.distinct
    have hback : ((placeInfinite bs count).map Bucket.point).map (fun p => (⟨p.1, p.2⟩ : Bucket))
        = placeInfinite bs count := by
      rw [List.map_map]
      exact List.map_id _
    rw [Block.histogramSample, hpoints]
    change Except.ok _ = _
    rw [hback]
    rfl

lemma summarySample_compositeOf {b : Block} (hs : s.value.Settled)
    (ht : s.value.metricType = .summary) :
    b.summarySample (compositeOf s) = .ok s.complete := by
  obtain ⟨labels, value, timestamp⟩ := s
  cases value with
  | counter x | gauge x | untyped x | histogram bs sum count => cases ht
  | summary qs sum count =>
    have hsort : Block.sortPoints (qs.map Quantile.point).toArray = qs.map Quantile.point :=
      List.mergeSort_of_pairwise hs.ordered
    have hpoints : b.orderedPoints Name.quantileLabel
        (compositeOf ⟨labels, .summary qs sum count, timestamp⟩)
          = .ok (qs.map Quantile.point) := by
      refine orderedPoints_eq_ok_iff.mpr ⟨?_, hsort.symm⟩
      exact hsort.symm ▸ hs.distinct
    have hback : (qs.map Quantile.point).map (fun p => (⟨p.1, p.2⟩ : Quantile)) = qs := by
      rw [List.map_map]
      exact List.map_id _
    rw [Block.summarySample, hpoints]
    change Except.ok _ = _
    rw [hback]
    rfl

lemma complete_of_scalar (hh : s.value.metricType ≠ .histogram) : s.complete = s := by
  obtain ⟨labels, value, timestamp⟩ := s
  cases value with
  | histogram bs sum count => exact absurd rfl hh
  | counter x | gauge x | untyped x | summary qs sum count => rfl

theorem build_filed (hf : f.Settled) : (filed f start f.samples).build = .ok f.complete := by
  have htype : ∀ s ∈ f.samples, s.value.metricType = f.metricType :=
    fun s hs => (hf.valid.samples s hs).1
  have hfamily : f.complete = ⟨(filed f start f.samples).name,
      (filed f start f.samples).help.getD "", (filed f start f.samples).kind,
      f.samples.map Sample.complete⟩ := by
    rw [name_filed, help_filed, kind_filed]
    rfl
  refine build_eq_ok_iff.mpr ⟨_, ?_, hfamily, hf.valid.complete⟩
  unfold Block.allSamples
  rw [kind_filed]
  cases ht : f.metricType with
  | histogram =>
    simp only [filed, ht]
    exact mapM_map_eq_pure fun s hs =>
      histogramSample_compositeOf (hf.samples s hs) ((htype s hs).trans ht)
  | summary =>
    simp only [filed, ht]
    exact mapM_map_eq_pure fun s hs =>
      summarySample_compositeOf (hf.samples s hs) ((htype s hs).trans ht)
  | counter | gauge | untyped =>
    have hsame : f.samples.map Sample.complete = f.samples := map_eq_self_iff.mpr fun s hs =>
      complete_of_scalar (by rw [htype s hs, ht]; decide)
    simp only [filed, ht, hsame]

end Families

end PushGateway
