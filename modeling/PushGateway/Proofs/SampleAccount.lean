import Mathlib.Data.List.Perm.Basic
import PushGateway.Proofs.FiledReadings

/-! The sample lines of an accepted payload and those of the text of its families. None is lost, and
none is invented but an infinite bucket for a histogram without one and zeros for totals that no
line gave. -/

namespace PushGateway.Exposition

section Completions

/-- Whether one of the readings is the total of the series with the labels. -/
def hasTotal (rs : List Reading) (family metric : String) (labels : Labels) : Bool :=
  rs.any fun r => r.family == family && r.metric == metric && r.labels == labels

/-- The zero in place of a total that none of the readings is. -/
def zeroTotal (rs : List Reading) (family metric : String) (labels : Labels) : List Reading :=
  if hasTotal rs family metric labels then [] else [⟨family, metric, labels, none, .zero⟩]

/-- The lines that the text of a sample has and that a payload with the readings had not. -/
def filledIn (rs : List Reading) (f : Family) (s : Sample) : List Reading :=
  let totals := zeroTotal rs f.name (sumName f.name) s.labels
    ++ zeroTotal rs f.name (countName f.name) s.labels
  match s.value with
  | .histogram buckets _ count =>
    (if hasInfiniteBucket buckets then []
      else [⟨f.name, bucketName f.name, s.labels, some .infinity, count⟩]) ++ totals
  | .summary .. => totals
  | .counter _ | .gauge _ | .untyped _ => []

variable {b : Block} {f : Family} {c : Composite} {s : Sample} {rs : List Reading} {h : Heading}

lemma total_getD {metric : String} {labels : Labels} {x : Option Binary64}
    (hx : hasTotal rs h.family metric labels = x.isSome) :
    [h.total metric labels (x.getD .zero)]
      = x.toList.map (h.total metric labels) ++ zeroTotal rs h.family metric labels := by
  rw [zeroTotal, hx]
  cases x <;> rfl

lemma hasTotal_eq_true_iff {family metric : String} {labels : Labels} :
    hasTotal rs family metric labels = true ↔
      ∃ r ∈ rs, r.family = family ∧ r.metric = metric ∧ r.labels = labels := by
  simp [hasTotal, and_assoc]

/-- Only one part of the readings matters for a total that the others cannot have. -/
lemma hasTotal_flatMap {A : Type} {l : List A} {g : A → List Reading} {a : A} (ha : a ∈ l)
    {family metric : String} {labels : Labels}
    (h : ∀ a' ∈ l, ∀ r ∈ g a', r.family = family → r.labels = labels → a' = a) :
    hasTotal (l.flatMap g) family metric labels = hasTotal (g a) family metric labels := by
  rw [Bool.eq_iff_iff, hasTotal_eq_true_iff, hasTotal_eq_true_iff]
  constructor
  · rintro ⟨r, hr, hfamily, hmetric, hlabels⟩
    obtain ⟨a', ha', hr⟩ := List.mem_flatMap.mp hr
    obtain rfl := h a' ha' r hr hfamily hlabels
    exact ⟨r, hr, hfamily, hmetric, hlabels⟩
  · rintro ⟨r, hr, hreading⟩
    exact ⟨r, List.mem_flatMap.mpr ⟨a, ha, hr⟩, hreading⟩

lemma hasTotal_congr {rs' : List Reading} (hp : rs.Perm rs') (family metric : String)
    (labels : Labels) : hasTotal rs family metric labels = hasTotal rs' family metric labels := by
  rw [Bool.eq_iff_iff, hasTotal_eq_true_iff, hasTotal_eq_true_iff]
  simp only [hp.mem_iff]

lemma of_mem_given {r : Reading} (hr : r ∈ c.given h) :
    r.family = h.family ∧ r.labels = c.labels := by
  simp only [Composite.given, List.mem_append, List.mem_map] at hr
  rcases hr with ⟨p, -, rfl⟩ | ⟨x, -, rfl⟩ | ⟨x, -, rfl⟩
  · exact ⟨rfl, rfl⟩
  · exact ⟨rfl, rfl⟩
  · exact ⟨rfl, rfl⟩

lemma pointName_ne {suffix : String} (hs : suffix ≠ "") (hb : suffix ≠ "_bucket") :
    h.pointName ≠ h.family ++ suffix := by
  unfold Heading.pointName
  cases h.type with
  | histogram => exact fun he => hb (append_inj_right he).symm
  | summary | counter | gauge | untyped => exact (append_ne_self hs).symm

lemma hasTotal_sum : hasTotal (c.given h) h.family (sumName h.family) c.labels = c.sum.isSome := by
  have hpoint : h.pointName ≠ sumName h.family := pointName_ne (by decide) (by decide)
  have hcount : countName h.family ≠ sumName h.family := sumName_ne_countName.symm
  cases hs : c.sum <;>
    simp [hasTotal, Composite.given, Heading.point, Heading.total, hs, hpoint, hcount]

lemma hasTotal_count :
    hasTotal (c.given h) h.family (countName h.family) c.labels = c.count.isSome := by
  have hpoint : h.pointName ≠ countName h.family := pointName_ne (by decide) (by decide)
  have hsum : sumName h.family ≠ countName h.family := sumName_ne_countName
  cases hc : c.count <;>
    simp [hasTotal, Composite.given, Heading.point, Heading.total, hc, hpoint, hsum]

/-- The written lines of a composite say what its lines said, and what was filled in. -/
lemma compositeLines_perm {r : Role} {label : String} {timestamp : Option Int64}
    {ps : List (Binary64 × Binary64)} {infinite : List Reading}
    (hr : h.role? h.pointName = some r) (hb : r.bound? = some label)
    (ht : Role.sum ∈ rolesOf h.type ∧ Role.count ∈ rolesOf h.type) (hl : label ∉ c.labels.keys)
    (hp : ∀ p ∈ ps, p.1.collapse = p.1)
    (hps : (ps.map (h.point c.labels)).Perm (c.points.toList.map (h.point c.labels) ++ infinite))
    (hsum : hasTotal rs h.family (sumName h.family) c.labels = c.sum.isSome)
    (hcount : hasTotal rs h.family (countName h.family) c.labels = c.count.isSome) :
    ((compositeLines h.family h.pointName label c.labels timestamp ps (c.sum.getD .zero)
        (c.count.getD .zero)).map fun l => l.reading h).Perm
      (c.given h ++ (infinite ++ (zeroTotal rs h.family (sumName h.family) c.labels
        ++ zeroTotal rs h.family (countName h.family) c.labels))) := by
  have htotals := congrArg₂ (· ++ ·) (total_getD hsum) (total_getD hcount)
  change [_, _] = _ at htotals
  rw [readings_compositeLines hr hb ht hl hp, htotals]
  refine List.perm_iff_count.mpr fun r => ?_
  have hcounts := hps.count_eq r
  simp only [Composite.given, List.count_append] at hcounts ⊢
  omega

section Written

variable (ha : f.Accepts s) (hv : s.value.collapse = s.value)
  (hsum : hasTotal rs f.name (sumName f.name) c.labels = c.sum.isSome)
  (hcount : hasTotal rs f.name (countName f.name) c.labels = c.count.isSome)
include ha hv hsum hcount

lemma written_histogramSample (hk : f.metricType = .histogram) (hs : b.histogramSample c = .ok s) :
    ((headingOf f).written s).Perm (c.given (headingOf f) ++ filledIn rs f s) := by
  obtain ⟨ps, hps, hs⟩ := bind_eq_ok_iff.mp hs
  obtain rfl := Except.ok.inj hs
  obtain ⟨-, rfl⟩ := orderedPoints_eq_ok_iff.mp hps
  obtain ⟨name, help, type, samples⟩ := f
  obtain rfl : type = .histogram := hk
  have hlabel : Name.bucketLabel ∉ c.labels.keys := notMem_of_accepts ha rfl
  have hrole : Heading.role? ⟨name, .histogram⟩ (bucketName name) = some .bucket :=
    Heading.role?_eq_some_iff.mpr ⟨.head _, rfl⟩
  obtain ⟨hpoints, -, -⟩ := settledPoints_histogram hv
  rw [Heading.written, seriesLines_histogram]
  refine compositeLines_perm hrole rfl ⟨.tail _ (.head _), .tail _ (.tail _ (.head _))⟩ hlabel
    (fun p hp => (hpoints p hp).1) ?_ hsum hcount
  rw [completeBuckets_eq, List.map_append, List.map_append]
  refine List.Perm.append ?_ ?_
  · rw [map_point_bucket]
    exact (sortPoints_perm c.points).map _
  · split_ifs <;> exact .refl _

lemma written_summarySample (hk : f.metricType = .summary) (hs : b.summarySample c = .ok s) :
    ((headingOf f).written s).Perm (c.given (headingOf f) ++ filledIn rs f s) := by
  obtain ⟨ps, hps, hs⟩ := bind_eq_ok_iff.mp hs
  obtain rfl := Except.ok.inj hs
  obtain ⟨-, rfl⟩ := orderedPoints_eq_ok_iff.mp hps
  obtain ⟨name, help, type, samples⟩ := f
  obtain rfl : type = .summary := hk
  have hlabel : Name.quantileLabel ∉ c.labels.keys := notMem_of_accepts ha rfl
  have hrole : Heading.role? ⟨name, .summary⟩ name = some .quantile :=
    Heading.role?_eq_some_iff.mpr ⟨.head _, String.append_empty.symm⟩
  obtain ⟨hpoints, -, -⟩ := settledPoints_summary hv
  have hps := (sortPoints_perm c.points).map (Heading.point ⟨name, .summary⟩ c.labels)
  rw [← List.append_nil (c.points.toList.map _)] at hps
  rw [Heading.written, seriesLines_summary]
  rw [map_point_quantile] at hpoints ⊢
  exact compositeLines_perm hrole rfl ⟨.tail _ (.head _), .tail _ (.tail _ (.head _))⟩ hlabel
    (fun p hp => (hpoints p hp).1) hps hsum hcount

end Written

/-- What holds of each of two lists part by part holds of the whole. -/
lemma flatMap_pairs_perm {A B C : Type} {ps : List (A × B)} {g : A → List C} {u v : B → List C}
    (hp : ∀ p ∈ ps, (u p.2).Perm (g p.1 ++ v p.2)) :
    ((ps.map Prod.snd).flatMap u).Perm
      ((ps.map Prod.fst).flatMap g ++ (ps.map Prod.snd).flatMap v) := by
  rw [List.flatMap_map, List.flatMap_map, List.flatMap_map]
  exact (List.Perm.flatMap_left ps hp).trans (List.flatMap_append_perm ps _ _).symm

/-- The sample that a composite of the block becomes. -/
def Block.Becomes (b : Block) (c : Composite) (s : Sample) : Prop :=
  b.kind = .histogram ∧ b.histogramSample c = .ok s ∨ b.kind = .summary ∧ b.summarySample c = .ok s

lemma exists_becomes {ss : List Sample} (hk : Composed b.kind) (hs : b.allSamples = .ok ss) :
    ∃ ps : List (Composite × Sample), ps.map Prod.fst = b.composites ∧ ps.map Prod.snd = ss ∧
      ∀ p ∈ ps, b.Becomes p.1 p.2 := by
  unfold Block.allSamples at hs
  rcases List.mem_pair.mp hk with hk | hk
  · rw [hk] at hs
    obtain ⟨ps, hfst, hsnd, hps⟩ := exists_pairs_of_mapM hs
    exact ⟨ps, hfst, hsnd, fun p hp => .inr ⟨hk, hps p hp⟩⟩
  · rw [hk] at hs
    obtain ⟨ps, hfst, hsnd, hps⟩ := exists_pairs_of_mapM hs
    exact ⟨ps, hfst, hsnd, fun p hp => .inl ⟨hk, hps p hp⟩⟩

lemma samples_of_allSamples {ss : List Sample} (hk : ¬Composed b.kind)
    (hs : b.allSamples = .ok ss) : b.samples.toList = ss := by
  unfold Block.allSamples at hs
  split at hs
  · next ht => exact absurd (List.mem_pair.mpr (.inr ht)) hk
  · next ht => exact absurd (List.mem_pair.mpr (.inl ht)) hk
  all_goals exact Except.ok.inj hs

lemma Block.Becomes.labels (hs : b.Becomes c s) : s.labels = c.labels := by
  rcases hs with ⟨-, hs⟩ | ⟨-, hs⟩
  all_goals
    obtain ⟨ps, -, hs⟩ := bind_eq_ok_iff.mp hs
    obtain rfl := Except.ok.inj hs
    rfl

lemma labels_of_becomes {ps : List (Composite × Sample)} {ss : List Sample}
    (hfst : ps.map Prod.fst = b.composites) (hsnd : ps.map Prod.snd = ss)
    (hps : ∀ p ∈ ps, b.Becomes p.1 p.2) :
    ss.map Sample.labels = b.composites.map Composite.labels := by
  rw [← hfst, ← hsnd, List.map_map, List.map_map]
  exact List.map_congr_left fun p hp => (hps p hp).labels

lemma written_becomes (hs : b.Becomes c s) (hk : b.kind = f.metricType) (ha : f.Accepts s)
    (hv : s.value.collapse = s.value)
    (hsum : hasTotal rs f.name (sumName f.name) c.labels = c.sum.isSome)
    (hcount : hasTotal rs f.name (countName f.name) c.labels = c.count.isSome) :
    ((headingOf f).written s).Perm (c.given (headingOf f) ++ filledIn rs f s) := by
  rcases hs with ⟨ht, hs⟩ | ⟨ht, hs⟩
  · exact written_histogramSample ha hv hsum hcount (hk.symm.trans ht) hs
  · exact written_summarySample ha hv hsum hcount (hk.symm.trans ht) hs

lemma filledIn_scalar (ha : f.Accepts s) (hk : ¬Composed f.metricType) : filledIn rs f s = [] := by
  rw [← ha.1] at hk
  unfold filledIn
  cases hv : s.value with
  | histogram => simp [hv, SampleValue.metricType, Composed] at hk
  | summary => simp [hv, SampleValue.metricType, Composed] at hk
  | counter | gauge | untyped => rfl

/-- The totals of a composite are the only ones with its labels. -/
lemma hasTotal_composite (hk : Composed b.kind)
    (hn : (b.composites.map Composite.labels).Nodup) (hc : c ∈ b.composites)
    (family metric : String) : hasTotal b.given family metric c.labels
      = hasTotal (c.given b.heading) family metric c.labels := by
  rw [Block.given, if_pos hk]
  refine hasTotal_flatMap hc fun c' hc' r hr _ hlabels => ?_
  exact List.inj_on_of_nodup_map hn hc' hc ((of_mem_given hr).2.symm.trans hlabels)

/-- The text of a family says what the lines of its block said, and what was filled in. -/
lemma written_build (hb : b.build = .ok f) (hf : f.Settled)
    (hrs : ∀ metric labels,
      hasTotal rs f.name metric labels = hasTotal b.given f.name metric labels) :
    (f.samples.flatMap (headingOf f).written).Perm
      (b.given ++ f.samples.flatMap (filledIn rs f)) := by
  obtain ⟨ss, hss, hfamily, -⟩ := build_eq_ok_iff.mp hb
  have hheading : headingOf f = b.heading := by
    rw [hfamily]
    rfl
  have hkind : b.kind = f.metricType := by rw [hfamily]
  have hsamples : f.samples = ss := by rw [hfamily]
  by_cases hk : Composed b.kind
  · obtain ⟨ps, hfst, hsnd, hps⟩ := exists_becomes hk hss
    have hnodup : (b.composites.map Composite.labels).Nodup :=
      labels_of_becomes hfst (hsamples ▸ hsnd) hps ▸ hf.valid.distinct
    have htotal {c : Composite} (hc : c ∈ b.composites) (metric : String) :
        hasTotal rs f.name metric c.labels
          = hasTotal (c.given (headingOf f)) f.name metric c.labels := by
      rw [hrs, hasTotal_composite hk hnodup hc, hheading]
    rw [Block.given, if_pos hk, ← hfst, hsamples, ← hsnd, ← hheading]
    refine flatMap_pairs_perm fun p hp => ?_
    have hc : p.1 ∈ b.composites := hfst ▸ List.mem_map_of_mem hp
    have hs : p.2 ∈ f.samples := hsamples ▸ hsnd ▸ List.mem_map_of_mem hp
    exact written_becomes (hps p hp) hkind (hf.valid.samples p.2 hs) (hf.samples p.2 hs).numbers
      ((htotal hc _).trans hasTotal_sum) ((htotal hc _).trans hasTotal_count)
  · have hgiven : b.given = f.samples.flatMap (headingOf f).written := by
      rw [Block.given, if_neg hk, hheading, hsamples, samples_of_allSamples hk hss]
    have hnone : f.samples.flatMap (filledIn rs f) = [] := by
      refine List.flatMap_eq_nil_iff.mpr fun s hs => ?_
      exact filledIn_scalar (hf.valid.samples s hs) (hkind ▸ hk)
    rw [hgiven, hnone, List.append_nil]

lemma family_reading (l : SeriesLine) (h : Heading) : (l.reading h).family = h.family := by
  unfold SeriesLine.reading
  dsimp only
  split <;> rfl

lemma family_of_mem_given {r : Reading} (hr : r ∈ b.given) : r.family = b.name := by
  rw [Block.given] at hr
  split_ifs at hr
  · obtain ⟨c, -, hr⟩ := List.mem_flatMap.mp hr
    exact (of_mem_given hr).1
  · obtain ⟨s, -, hr⟩ := List.mem_flatMap.mp hr
    obtain ⟨l, -, rfl⟩ := List.mem_map.mp hr
    exact family_reading l b.heading

end Completions

/-- Up to their order the sample lines of the text are those of the payload and those filled in. No
line of either is passed over. -/
theorem parse_keeps_sample_lines {text : String} {families : List Family}
    (h : parse text = .ok families) :
    (∀ cs ∈ lines text ++ lines (render families), ∃ line, readLine cs = .ok line) ∧
    (sampleReadings (render families)).Perm (sampleReadings text ++
      families.flatMap fun f => f.samples.flatMap (filledIn (sampleReadings text) f)) := by
  obtain ⟨hsettled, hnames⟩ := settled_of_parse h
  refine ⟨List.forall_mem_append.mpr ⟨exists_line_of_parse h,
    exists_line_of_parse (parse_render hsettled hnames)⟩, ?_⟩
  obtain ⟨closed, hbuilt, rfl, hperm⟩ := exists_blocks_of_parse h
  rw [sampleReadings_render hsettled]
  have hname : ∀ p ∈ closed, p.1.name = p.2.name := by
    intro p hp
    obtain ⟨ss, -, hf, -⟩ := build_eq_ok_iff.mp (hbuilt p hp)
    rw [hf]
  have hnodup : ((closed.map Prod.fst).map Block.name).Nodup := by
    have hsame : (closed.map Prod.fst).map Block.name = (closed.map Prod.snd).map Family.name := by
      rw [List.map_map, List.map_map]
      exact List.map_congr_left hname
    exact hsame ▸ hnames
  refine (flatMap_pairs_perm (g := Block.given) fun p hp => ?_).trans (hperm.symm.append_right _)
  refine written_build (hbuilt p hp) (hsettled p.2 (List.mem_map_of_mem hp)) fun metric labels => ?_
  have hb := List.mem_map_of_mem (f := Prod.fst) hp
  rw [hasTotal_congr hperm]
  refine hasTotal_flatMap hb fun b' hb' r hr hfamily _ => ?_
  refine List.inj_on_of_nodup_map hnodup hb' hb ?_
  rw [← family_of_mem_given hr, hfamily, hname p hp]

/-- Buckets out of order, bounds that are written in another way, a NaN, and a line with the name of
the sum of a histogram that is given none. -/
theorem parse_keeps_sample_lines_sum_apart :
    let one : Binary64 := ⟨0x3FF0000000000000⟩
    let two : Binary64 := ⟨0x4000000000000000⟩
    let labels : Labels := .ofList [("a", "x")]
    let apart : Family := ⟨"h_sum", "", .untyped, [⟨.empty, .untyped one, none⟩]⟩
    let families : List Family :=
      [apart, ⟨"h", "", .histogram,
        [⟨labels, .histogram [⟨one, .nan⟩, ⟨two, one⟩] .zero two, none⟩]⟩]
    let text : String := "h_sum 1\n# TYPE h histogram\nh_bucket\x7ble=\"2.0\",a=\"x\"\x7d 1\n" ++
      "h_bucket\x7ba=\"x\",le=\"10e-1\"\x7d NaN\nh_count\x7ba=\"x\"\x7d 2\n"
    let given : List Reading := [⟨"h_sum", "h_sum", .empty, none, one⟩,
      ⟨"h", "h_bucket", labels, some two, one⟩, ⟨"h", "h_bucket", labels, some one, .nan⟩,
      ⟨"h", "h_count", labels, none, two⟩]
    parse text = .ok families ∧ sampleReadings text = given ∧
      (sampleReadings (render families)).Perm (given ++
        [⟨"h", "h_bucket", labels, some .infinity, two⟩, ⟨"h", "h_sum", labels, none, .zero⟩]) := by
  intro one two labels apart families text given
  have hsort : Block.sortPoints #[(two, one), (one, .nan)] = [(one, .nan), (two, one)] :=
    sortPoints_eq (by decide +kernel) (by decide +kernel)
  have hlines : (lines text).foldlM fileText (1, .start)
      = .ok (7, ⟨#[apart], some ⟨"h", 2, none, some .histogram, #[],
        [⟨labels, #[(two, one), (one, .nan)], none, some two, none⟩]⟩⟩) := by
    decide +kernel
  have hclose : Assembly.close ⟨#[apart], some ⟨"h", 2, none, some .histogram, #[],
      [⟨labels, #[(two, one), (one, .nan)], none, some two, none⟩]⟩⟩ = .ok families.toArray := by
    simp only [Assembly.close, Block.build, Block.allSamples, Block.kind, Option.getD,
      List.mapM_cons, Block.histogramSample, Block.orderedPoints, hsort]
    decide +kernel
  have h : parse text = .ok families := parse_of_close hlines hclose
  have hgiven : sampleReadings text = given := by decide +kernel
  obtain ⟨-, hperm⟩ := parse_keeps_sample_lines h
  rw [hgiven] at hperm
  exact ⟨h, hgiven, hperm⟩

end PushGateway.Exposition
