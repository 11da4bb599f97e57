import PushGateway.Proofs.SampleAccount
import PushGateway.Proofs.StorableFamilies

/-! When a family of an accepted payload has two lines of one series. Equal label sets, repeated
totals and bounds that are equal as numbers are refused, so only a bound that is not a number can
come twice. -/

namespace PushGateway

open Exposition

section Bounds

variable {x y : Binary64} {xs : List Binary64} {v : SampleValue}

lemma Binary64.eq_nan (hx : x.collapse = x) (hn : x.isNaN = true) : x = .nan :=
  hx.symm.trans (if_pos hn)

lemma Binary64.same_self (x : Binary64) : x.same x = !x.isNaN := by simp [same]

/-- What is equal to no other as a number is the same as another only if it is not a number. -/
lemma nodup_iff_countP_isNaN (hx : ∀ x ∈ xs, x.collapse = x)
    (hs : xs.Pairwise fun x y => x.same y = false) :
    xs.Nodup ↔ xs.countP Binary64.isNaN ≤ 1 := by
  induction xs with
  | nil => simp
  | cons x xs ih =>
    obtain ⟨hxx, hx⟩ := List.forall_mem_cons.mp hx
    obtain ⟨hxs, hs⟩ := List.pairwise_cons.mp hs
    specialize ih hx hs
    cases hn : x.isNaN with
    | true =>
      have hmem : x ∉ xs ↔ xs.countP Binary64.isNaN = 0 := by
        rw [List.countP_eq_zero, Binary64.eq_nan hxx hn]
        constructor
        · intro hnot y hy hny
          exact hnot (Binary64.eq_nan (hx y hy) hny ▸ hy)
        · exact fun hnone hmem => hnone _ hmem rfl
      rw [List.nodup_cons, List.countP_cons_of_pos hn, hmem, ih]
      omega
    | false =>
      have hmem : x ∉ xs := by
        intro hmem
        have hsame := hxs x hmem
        rw [Binary64.same_self, hn] at hsame
        cases hsame
      rw [List.nodup_cons, List.countP_cons_of_neg (by simp [hn]), ih]
      simp [hmem]

lemma SampleValue.bounds_collapse (h : v.collapse = v) : ∀ x ∈ v.bounds, x.collapse = x := by
  cases v with
  | counter | gauge | untyped => exact List.forall_mem_nil _
  | summary qs sum count =>
    intro x hx
    obtain ⟨p, hp, rfl⟩ := List.mem_map.mp hx
    exact ((settledPoints_summary h).1 p hp).1
  | histogram bs sum count =>
    intro x hx
    obtain ⟨p, hp, rfl⟩ := List.mem_map.mp hx
    obtain ⟨b, hb, rfl⟩ := List.mem_map.mp hp
    exact congrArg Bucket.upperBound (map_eq_self_iff.mp (SampleValue.histogram.inj h).1 b hb)

lemma SampleValue.Settled.nodup_bounds_iff (h : v.Settled) :
    v.bounds.Nodup ↔ v.bounds.countP Binary64.isNaN ≤ 1 :=
  nodup_iff_countP_isNaN (bounds_collapse h.numbers) (h.bounds_ascend.imp And.right)

/-- The infinite bucket that is filled in repeats no bound. -/
lemma nodup_completeBuckets_iff (buckets : List Bucket) (count : Binary64) :
    ((completeBuckets buckets count).map Bucket.upperBound).Nodup ↔
      (buckets.map Bucket.upperBound).Nodup := by
  unfold completeBuckets
  split_ifs with hinf
  · exact Iff.rfl
  · have hnot : Binary64.infinity ∉ buckets.map Bucket.upperBound := by
      intro hmem
      obtain ⟨b, hb, hbound⟩ := List.mem_map.mp hmem
      exact hinf (List.any_eq_true.mpr ⟨b, hb, beq_iff_eq.mpr hbound⟩)
    rw [List.map_append, List.map_singleton, List.nodup_append_comm, List.singleton_append,
      List.nodup_cons]
    exact and_iff_right hnot

end Bounds

namespace Exposition

section Written

variable {family metric label : String} {labels : Labels} {timestamp : Option Int64}
  {ps : List (Binary64 × Binary64)} {p q : Binary64 × Binary64} {l l' : SeriesLine}

lemma valueText_inj {x y : Binary64} (hx : x.collapse = x) (hy : y.collapse = y)
    (h : valueText x = valueText y) : x = y := by
  have hread := congrArg readValue? h
  rw [readValue?_valueText, readValue?_valueText, hx, hy] at hread
  exact Option.some.inj hread

lemma sameSeries_pointLine_iff (hl : label ∉ labels.keys) (hp : p.1.collapse = p.1)
    (hq : q.1.collapse = q.1) : (pointLine metric label labels timestamp p).SameSeries
      (pointLine metric label labels timestamp q) ↔ p.1 = q.1 := by
  constructor
  · rintro ⟨-, hpairs⟩
    have hbound := (hpairs (label, String.ofList (valueText p.1))).mp
      (List.mem_append_right _ List.mem_cons_self)
    rcases List.mem_append.mp hbound with hmem | hmem
    · exact absurd (List.mem_map_of_mem hmem) hl
    · obtain ⟨-, htext⟩ := Prod.mk.inj (List.mem_singleton.mp hmem)
      exact valueText_inj hp hq (String.ofList_injective htext)
  · intro heq
    refine ⟨rfl, fun r => ?_⟩
    rw [pointLine, pointLine, heq]

/-- Of the lines of one sample only those with a bound can be of one series. -/
lemma pairwise_compositeLines_iff (hsum : metric ≠ sumName family)
    (hcount : metric ≠ countName family) (hl : label ∉ labels.keys)
    (hps : ∀ p ∈ ps, p.1.collapse = p.1) (sum count : Binary64) :
    (compositeLines family metric label labels timestamp ps sum count).Pairwise
      (fun l l' => ¬l.SameSeries l') ↔ (ps.map Prod.fst).Nodup := by
  have hpoints : (ps.map (pointLine metric label labels timestamp)).Pairwise
      (fun l l' => ¬l.SameSeries l') ↔ (ps.map Prod.fst).Nodup := by
    rw [List.Nodup, List.pairwise_map, List.pairwise_map]
    exact List.Pairwise.iff_of_mem fun {p q} hp hq =>
      not_congr (sameSeries_pointLine_iff hl (hps p hp) (hps q hq))
  rw [compositeLines, List.pairwise_append, hpoints]
  refine and_iff_left ⟨?_, ?_⟩
  · exact List.pairwise_pair.mpr fun hsame => sumName_ne_countName hsame.1
  · intro l hmem l' hmem' hsame
    obtain ⟨p, -, rfl⟩ := List.mem_map.mp hmem
    rcases List.mem_pair.mp hmem' with rfl | rfl
    · exact hsum hsame.1
    · exact hcount hsame.1

variable {f : Family} {s s' : Sample} {t : MetricType} {r r' : Role}

lemma pairwise_seriesLines_iff (hs : f.Accepts s) (hv : s.value.Settled) :
    (seriesLines f.name s).Pairwise (fun l l' => ¬l.SameSeries l') ↔
      s.value.bounds.countP Binary64.isNaN ≤ 1 := by
  have hlabel {label : String} (h : Family.addsLabel f.metricType label = true) :
      label ∉ s.labels.keys := notMem_of_accepts hs h
  rw [← hv.nodup_bounds_iff]
  obtain ⟨labels, value, timestamp⟩ := s
  have htype : value.metricType = f.metricType := hs.1
  cases value with
  | counter x | gauge x | untyped x => simp [seriesLines, SampleValue.bounds, SampleValue.points]
  | summary qs sum count =>
    rw [seriesLines_summary]
    exact pairwise_compositeLines_iff (append_ne_self (by decide)).symm
      (append_ne_self (by decide)).symm (hlabel (htype ▸ rfl))
      (fun p hp => ((settledPoints_summary hv.numbers).1 p hp).1) sum count
  | histogram bs sum count =>
    have hsuffix {suffix : String} (h : "_bucket" ≠ suffix) :
        bucketName f.name ≠ f.name ++ suffix := fun he => h (append_inj_right he)
    have hbounds (bs : List Bucket) : (bs.map Bucket.point).map Prod.fst
        = bs.map Bucket.upperBound := List.map_map
    rw [seriesLines_histogram, pairwise_compositeLines_iff (hsuffix (by decide))
      (hsuffix (by decide)) (hlabel (htype ▸ rfl))
      (fun p hp => ((settledPoints_histogram hv.numbers).1 p hp).1), hbounds,
      nodup_completeBuckets_iff, ← hbounds]
    rfl

lemma bound?_eq_of_suffix (hr : r ∈ rolesOf t) (hr' : r' ∈ rolesOf t)
    (h : r.suffix = r'.suffix) : r.bound? = r'.bound? := by
  revert hr hr' h
  cases t <;> cases r <;> cases r' <;> decide

/-- Lines of one series come from samples with the same labels. -/
lemma labels_eq_of_sameSeries (hs : f.Accepts s) (hs' : f.Accepts s')
    (hl : l ∈ seriesLines f.name s) (hl' : l' ∈ seriesLines f.name s') (h : l.SameSeries l') :
    s.labels = s'.labels := by
  obtain ⟨r, hw⟩ := exists_writes hl
  obtain ⟨r', hw'⟩ := exists_writes hl'
  have hrole := hs.1 ▸ hw.role
  have hrole' := hs'.1 ▸ hw'.role
  have hname : f.name ++ r.suffix = f.name ++ r'.suffix := by rw [← hw.metric, h.1, hw'.metric]
  exact labels_eq_of_bound hw hs hw' hs'
    (bound?_eq_of_suffix hrole hrole' (append_inj_right hname)) h.2

lemma pairwise_lines_iff (hf : f.Settled) :
    (f.samples.flatMap (seriesLines f.name)).Pairwise (fun l l' => ¬l.SameSeries l') ↔
      ∀ s ∈ f.samples, s.value.bounds.countP Binary64.isNaN ≤ 1 := by
  have hapart : f.samples.Pairwise fun s s' => ∀ l ∈ seriesLines f.name s,
      ∀ l' ∈ seriesLines f.name s', ¬l.SameSeries l' := by
    refine (List.pairwise_map.mp hf.valid.distinct).imp_of_mem fun hs hs' hne l hl l' hl' h => ?_
    exact hne (labels_eq_of_sameSeries (hf.valid.samples _ hs) (hf.valid.samples _ hs') hl hl' h)
  rw [List.pairwise_flatMap, and_iff_left hapart]
  exact forall₂_congr fun s hs =>
    pairwise_seriesLines_iff (hf.valid.samples s hs) (hf.samples s hs)

end Written

section Given

/-- Sample lines that denote one series. A bound is compared as what it is read as. -/
def Reading.SameSeries (r r' : Reading) : Prop :=
  r.family = r'.family ∧ r.metric = r'.metric ∧ r.labels = r'.labels ∧ r.bound = r'.bound

variable {b : Block} {c : Composite} {f : Family} {s : Sample} {h : Heading} {r : Reading}

lemma pairwise_given_iff : (c.given h).Pairwise (fun r r' => ¬r.SameSeries r') ↔
    (c.points.toList.map Prod.fst).Nodup := by
  have hpoints : (c.points.toList.map (h.point c.labels)).Pairwise (fun r r' => ¬r.SameSeries r') ↔
      (c.points.toList.map Prod.fst).Nodup := by
    rw [List.Nodup, List.pairwise_map, List.pairwise_map]
    simp [Reading.SameSeries, Heading.point]
  rw [Composite.given, List.pairwise_append, hpoints]
  refine and_iff_left ⟨?_, ?_⟩
  · cases c.sum <;> cases c.count <;>
      simp [Reading.SameSeries, Heading.total, sumName_ne_countName]
  · -- a point has a bound, and a total has none
    intro r hr r' hr' hsame
    obtain ⟨p, -, rfl⟩ := List.mem_map.mp hr
    rcases List.mem_append.mp hr' with hr' | hr'
    all_goals
      obtain ⟨x, -, rfl⟩ := List.mem_map.mp hr'
      cases hsame.2.2.2

lemma Block.Becomes.points (hs : b.Becomes c s) : s.value.points = sortPoints c.points := by
  rcases hs with ⟨-, hs⟩ | ⟨-, hs⟩
  all_goals
    obtain ⟨ps, hps, hs⟩ := bind_eq_ok_iff.mp hs
    obtain rfl := Except.ok.inj hs
    obtain ⟨-, rfl⟩ := orderedPoints_eq_ok_iff.mp hps
  · exact map_point_bucket _
  · exact map_point_quantile _

lemma pairwise_given_becomes_iff (hs : b.Becomes c s) (hv : s.value.Settled) :
    (c.given h).Pairwise (fun r r' => ¬r.SameSeries r') ↔
      s.value.bounds.countP Binary64.isNaN ≤ 1 := by
  have hperm : s.value.bounds.Perm (c.points.toList.map Prod.fst) := by
    rw [SampleValue.bounds, hs.points]
    exact (sortPoints_perm c.points).map Prod.fst
  rw [pairwise_given_iff, ← hperm.nodup_iff, hv.nodup_bounds_iff]

lemma written_scalar (hs : f.Accepts s) (hk : ¬Composed f.metricType) :
    s.value.bounds = [] ∧
      ∃ x, (headingOf f).written s = [(headingOf f).total f.name s.labels x] := by
  have hrole : (headingOf f).role? f.name = some .plain := by
    refine Heading.role?_eq_some_iff.mpr ⟨?_, String.append_empty.symm⟩
    change Role.plain ∈ rolesOf f.metricType
    revert hk
    cases f.metricType <;> decide
  have htype := hs.1
  obtain ⟨labels, value, timestamp⟩ := s
  cases value with
  | counter x | gauge x | untyped x =>
    exact ⟨rfl, x, congrArg (fun r => [r]) (reading_entries hrole rfl x)⟩
  | summary | histogram =>
    rw [← htype] at hk
    exact absurd (by simp [Composed, SampleValue.metricType]) hk

lemma pairwise_written_scalar (hf : f.Settled) (hk : ¬Composed f.metricType) :
    (f.samples.flatMap (headingOf f).written).Pairwise fun r r' => ¬r.SameSeries r' := by
  have hscalar {s : Sample} (hs : s ∈ f.samples) := (written_scalar (hf.valid.samples s hs) hk).2
  refine List.pairwise_flatMap.mpr ⟨fun s hs => ?_, ?_⟩
  · obtain ⟨x, hx⟩ := hscalar hs
    rw [hx]
    exact List.pairwise_singleton _ _
  · refine (List.pairwise_map.mp hf.valid.distinct).imp_of_mem fun hs hs' hne r hr r' hr' h => ?_
    obtain ⟨x, hx⟩ := hscalar hs
    obtain ⟨x', hx'⟩ := hscalar hs'
    rw [hx, List.mem_singleton] at hr
    rw [hx', List.mem_singleton] at hr'
    rw [hr, hr'] at h
    exact hne h.2.2.1

/-- The lines that were gathered into the samples of a family. -/
lemma pairwise_block_iff (hb : b.build = .ok f) (hf : f.Settled) :
    b.given.Pairwise (fun r r' => ¬r.SameSeries r') ↔
      ∀ s ∈ f.samples, s.value.bounds.countP Binary64.isNaN ≤ 1 := by
  obtain ⟨ss, hss, hfamily, -⟩ := build_eq_ok_iff.mp hb
  have hheading : b.heading = headingOf f := by
    rw [hfamily]
    rfl
  have hkind : b.kind = f.metricType := by rw [hfamily]
  obtain rfl : f.samples = ss := by rw [hfamily]
  by_cases hk : Composed b.kind
  · obtain ⟨ps, hfst, hsnd, hps⟩ := exists_becomes hk hss
    have hnodup : (b.composites.map Composite.labels).Nodup :=
      labels_of_becomes hfst hsnd hps ▸ hf.valid.distinct
    have hapart : b.composites.Pairwise fun c c' => ∀ r ∈ c.given b.heading,
        ∀ r' ∈ c'.given b.heading, ¬r.SameSeries r' := by
      refine (List.pairwise_map.mp hnodup).imp fun {c c'} hne r hr r' hr' hsame => hne ?_
      rw [← (of_mem_given hr).2, ← (of_mem_given hr').2]
      exact hsame.2.2.1
    rw [Block.given, if_pos hk, List.pairwise_flatMap, and_iff_left hapart, ← hfst, ← hsnd,
      List.forall_mem_map, List.forall_mem_map]
    exact forall₂_congr fun p hp =>
      pairwise_given_becomes_iff (hps p hp) (hf.samples p.2 (hsnd ▸ List.mem_map_of_mem hp))
  · rw [Block.given, if_neg hk, samples_of_allSamples hk hss, hheading]
    refine iff_of_true (pairwise_written_scalar hf (hkind ▸ hk)) fun s hs => ?_
    rw [(written_scalar (hf.valid.samples s hs) (hkind ▸ hk)).1]
    exact Nat.zero_le 1

end Given

/-- Neither a family nor the payload it comes from has two lines of one series, but for
NaN bounds. -/
theorem series_distinct_iff {text : String} {families : List Family}
    (h : parse text = .ok families) :
    ((∀ f ∈ families, (f.samples.flatMap (seriesLines f.name)).Pairwise
        fun l l' => ¬l.SameSeries l') ↔
      ∀ f ∈ families, ∀ s ∈ f.samples, s.value.bounds.countP Binary64.isNaN ≤ 1) ∧
    ((sampleReadings text).Pairwise (fun r r' => ¬r.SameSeries r') ↔
      ∀ f ∈ families, ∀ s ∈ f.samples, s.value.bounds.countP Binary64.isNaN ≤ 1) := by
  obtain ⟨hsettled, hnames⟩ := settled_of_parse h
  refine ⟨forall₂_congr fun f hf => pairwise_lines_iff (hsettled f hf), ?_⟩
  obtain ⟨closed, hbuilt, rfl, hperm⟩ := exists_blocks_of_parse h
  have hsymm {r r' : Reading} (hne : ¬r.SameSeries r') : ¬r'.SameSeries r := fun hsame =>
    hne ⟨hsame.1.symm, hsame.2.1.symm, hsame.2.2.1.symm, hsame.2.2.2.symm⟩
  have hname : ∀ p ∈ closed, p.1.name = p.2.name := by
    intro p hp
    obtain ⟨ss, -, hf, -⟩ := build_eq_ok_iff.mp (hbuilt p hp)
    rw [hf]
  have hapart : (closed.map Prod.fst).Pairwise fun b b' => ∀ r ∈ b.given, ∀ r' ∈ b'.given,
      ¬r.SameSeries r' := by
    rw [List.map_map, List.Nodup, List.pairwise_map] at hnames
    refine List.pairwise_map.mpr (hnames.imp_of_mem ?_)
    intro p p' hp hp' hne r hr r' hr' hsame
    refine hne ?_
    calc p.2.name = r.family := by rw [← hname p hp, family_of_mem_given hr]
      _ = r'.family := hsame.1
      _ = p'.2.name := by rw [family_of_mem_given hr', hname p' hp']
  rw [hperm.pairwise_iff hsymm, List.pairwise_flatMap, and_iff_left hapart, List.forall_mem_map,
    List.forall_mem_map]
  exact forall₂_congr fun p hp =>
    pairwise_block_iff (hbuilt p hp) (hsettled p.2 (List.mem_map_of_mem hp))

/-- A NaN among other bounds, and a bound that two label sets have. -/
theorem series_distinct_iff_one_nan :
    let one : Binary64 := ⟨0x3FF0000000000000⟩
    let labels : Labels := .ofList [("a", "x")]
    let q : Family := ⟨"q", "", .summary, [⟨.empty, .summary [⟨.nan, .nan⟩] .zero .zero, none⟩]⟩
    let h : Family := ⟨"h", "", .histogram,
      [⟨.empty, .histogram [⟨one, .zero⟩, ⟨.nan, one⟩] .zero one, none⟩,
        ⟨labels, .histogram [⟨one, .nan⟩] one .zero, none⟩]⟩
    let text : String := "# TYPE q summary\nq\x7bquantile=\"NaN\"\x7d NaN\n# TYPE h histogram\n" ++
      "h_bucket\x7ble=\"NaN\"\x7d 1\nh_bucket\x7ble=\"1.0\"\x7d 0\n" ++
      "h_bucket\x7ble=\"1\",a=\"x\"\x7d NaN\nh_sum\x7ba=\"x\"\x7d 1\nh_count 1"
    parse text = .ok [q, h] ∧
      (∀ f ∈ [q, h], (f.samples.flatMap (seriesLines f.name)).Pairwise
        fun l l' => ¬l.SameSeries l') ∧
      (sampleReadings text).Pairwise fun r r' => ¬r.SameSeries r' := by
  intro one labels q h text
  have hsort : Block.sortPoints #[(.nan, one), (one, .zero)] = [(one, .zero), (.nan, one)] :=
    sortPoints_eq (by decide +kernel) (by decide +kernel)
  have hsingle : Block.sortPoints #[(one, .nan)] = [(one, .nan)] :=
    sortPoints_eq (.refl _) (List.pairwise_singleton _ _)
  have hlines : (lines text).foldlM fileText (1, .start)
      = .ok (9, ⟨#[q], some ⟨"h", 3, none, some .histogram, #[],
        [⟨.empty, #[(.nan, one), (one, .zero)], none, some one, none⟩,
          ⟨labels, #[(one, .nan)], some one, none, none⟩]⟩⟩) := by
    decide +kernel
  have hclose : Assembly.close ⟨#[q], some ⟨"h", 3, none, some .histogram, #[],
      [⟨.empty, #[(.nan, one), (one, .zero)], none, some one, none⟩,
        ⟨labels, #[(one, .nan)], some one, none, none⟩]⟩⟩ = .ok #[q, h] := by
    simp only [Assembly.close, Block.build, Block.allSamples, Block.kind, Option.getD,
      List.mapM_cons, Block.histogramSample, Block.orderedPoints, hsort, hsingle]
    decide +kernel
  have hparse : parse text = .ok [q, h] := parse_of_close hlines hclose
  obtain ⟨hlines, hreadings⟩ := series_distinct_iff hparse
  have honce : ∀ f ∈ [q, h], ∀ s ∈ f.samples, s.value.bounds.countP Binary64.isNaN ≤ 1 := by
    decide +kernel
  exact ⟨hparse, hlines.mpr honce, hreadings.mpr honce⟩

/-- Two NaN bounds are two lines of one series. -/
theorem same_series_twice :
    let one : Binary64 := ⟨0x3FF0000000000000⟩
    let two : Binary64 := ⟨0x4000000000000000⟩
    let s : Sample := ⟨.empty, .histogram [⟨.nan, one⟩, ⟨.nan, two⟩] .zero .zero, none⟩
    let text : String := "# TYPE h histogram\nh_bucket\x7ble=\"NaN\"\x7d 1\n" ++
      "h_bucket\x7ble=\"NaN\"\x7d 2\n"
    let first : SeriesLine := ⟨"h_bucket", [("le", "NaN")], one, none⟩
    let second : SeriesLine := ⟨"h_bucket", [("le", "NaN")], two, none⟩
    parse text = .ok [⟨"h", "", .histogram, [s]⟩] ∧
      (seriesLines "h" s).take 2 = [first, second] ∧ first.SameSeries second ∧
      sampleReadings text = [⟨"h", "h_bucket", .empty, some .nan, one⟩,
        ⟨"h", "h_bucket", .empty, some .nan, two⟩] := by
  intro one two s text first second
  have hsort : Block.sortPoints #[(.nan, one), (.nan, two)] = [(.nan, one), (.nan, two)] :=
    List.mergeSort_of_pairwise (by decide +kernel)
  have hlines : (lines text).foldlM fileText (1, .start)
      = .ok (5, ⟨#[], some ⟨"h", 1, none, some .histogram, #[],
        [⟨.empty, #[(.nan, one), (.nan, two)], none, none, none⟩]⟩⟩) := by
    decide +kernel
  have hclose : Assembly.close ⟨#[], some ⟨"h", 1, none, some .histogram, #[],
      [⟨.empty, #[(.nan, one), (.nan, two)], none, none, none⟩]⟩⟩
        = .ok #[⟨"h", "", .histogram, [s]⟩] := by
    simp only [Assembly.close, Block.build, Block.allSamples, Block.kind, Option.getD,
      List.mapM_cons, Block.histogramSample, Block.orderedPoints, hsort]
    decide +kernel
  exact ⟨parse_of_close hlines hclose, by decide +kernel, ⟨rfl, fun _ => Iff.rfl⟩,
    by decide +kernel⟩

end Exposition

end PushGateway
