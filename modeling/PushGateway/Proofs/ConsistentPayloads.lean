import PushGateway.Proofs.FiledSamples

/-! The checks of a push come one after the other and end at the first error, and together they
are one condition on the families that does not look at their order. -/

namespace PushGateway.Group

/-- A name that is valid in a family of type `t` and adds nothing to the labels of `key`. -/
structure OwnLabel (key : GroupingKey) (t : MetricType) (label : String) : Prop where
  unreserved : Name.Unreserved label
  no_bound : t = .histogram → label ≠ "le"
  no_quantile : t = .summary → label ≠ "quantile"
  apart : key.labels.get? label = none

structure Fits (key : GroupingKey) (f : Family) : Prop where
  name : Name.isMetricName f.name = true
  types : ∀ s ∈ f.samples, s.value.metricType = f.metricType
  labels : ∀ s ∈ f.samples, ∀ label ∈ s.labels.keys, OwnLabel key f.metricType label
  distinct : f.samples.Pairwise fun s s' => s.labels ≠ s'.labels

section Conditions

variable {key : GroupingKey} {f : Family} {label : String}

lemma addsLabel_eq_false_iff {t : MetricType} : Family.addsLabel t label = false ↔
    (t = .histogram → label ≠ "le") ∧ (t = .summary → label ≠ "quantile") := by
  cases t <;> simp [Family.addsLabel, Name.bucketLabel, Name.quantileLabel]

lemma containsLabel_eq_false_iff :
    key.containsLabel label = false ↔ key.labels.get? label = none := by
  rw [GroupingKey.containsLabel, SortedMap.contains, Option.isSome_eq_false_iff,
    Option.isNone_iff_eq_none]

lemma ownLabel_iff : OwnLabel key f.metricType label ↔
    f.checkLabel label = .ok () ∧ key.containsLabel label = false := by
  rw [checkLabel_eq_ok_iff, Exposition.Readable, ← Name.unreserved_iff, addsLabel_eq_false_iff,
    containsLabel_eq_false_iff]
  constructor
  · rintro ⟨hunreserved, hbound, hquantile, hapart⟩
    exact ⟨⟨hunreserved, hbound, hquantile⟩, hapart⟩
  · rintro ⟨⟨hunreserved, hbound, hquantile⟩, hapart⟩
    exact ⟨hunreserved, hbound, hquantile, hapart⟩

lemma fits_iff : Fits key f ↔ f.Valid ∧ Apart key f := by
  constructor
  · rintro ⟨hname, htypes, hlabels, hdistinct⟩
    refine ⟨⟨hname, fun s hs => ⟨htypes s hs, fun n hn => ?_⟩, List.pairwise_map.mpr hdistinct⟩, ?_⟩
    · exact (ownLabel_iff.mp (hlabels s hs n hn)).1
    · exact fun s hs n hn => (ownLabel_iff.mp (hlabels s hs n hn)).2
  · rintro ⟨⟨hname, hsamples, hdistinct⟩, hapart⟩
    refine ⟨hname, fun s hs => (hsamples s hs).1, fun s hs n hn => ?_, ?_⟩
    · exact ownLabel_iff.mpr ⟨(hsamples s hs).2 n hn, hapart s hs n hn⟩
    · exact List.pairwise_map.mp hdistinct

end Conditions

section Contents

variable {key : GroupingKey} {fs fs' : List Family} {now seq : UInt64} {g : Group}

lemma sampleCount_eq_sum (g : Group) :
    g.sampleCount = (g.families.values.map fun f => f.samples.length).sum := by
  rw [sampleCount]
  induction g.families.values with
  | nil => rfl
  | cons f fs ih => rw [List.foldr_cons, List.map_cons, List.sum_cons, ih]

lemma build_congr (hp : fs.Perm fs') :
    build key fs now seq = .ok g ↔ build key fs' now seq = .ok g := by
  rw [build_eq_ok_iff, build_eq_ok_iff, (hp.map Family.name).nodup_iff]
  have hvalid : (∀ f ∈ fs, f.Valid ∧ Apart key f) ↔ ∀ f ∈ fs', f.Valid ∧ Apart key f := by
    simp only [hp.mem_iff]
  rw [hvalid]
  refine and_congr_right fun _ => and_congr_right fun hn => ?_
  have hkeys : ((fs'.map fun f => (f.name, f)).map Prod.fst).Nodup := by
    rw [List.map_map]
    exact hn
  rw [SortedMap.ofList_congr (hp.symm.map fun f => (f.name, f)) hkeys]

end Contents

theorem builds_exactly_consistent (key : GroupingKey) (fs : List Family) (now seq : UInt64) :
    ((∃ g, build key fs now seq = .ok g) ↔
      (∀ f ∈ fs, Fits key f) ∧ (fs.map Family.name).Nodup) ∧
    (∀ g, build key fs now seq = .ok g →
      g.key = key ∧ g.lastPush = now ∧ g.pushSeq = seq ∧
      (∀ name f, g.families.get? name = some f ↔ f ∈ fs ∧ f.name = name) ∧
      g.families.values.Perm fs ∧
      g.sampleCount = (fs.map fun f => f.samples.length).sum) ∧
    ∀ fs', fs.Perm fs' → ∀ g, build key fs now seq = .ok g ↔ build key fs' now seq = .ok g := by
  refine ⟨?_, fun g hg => ?_, fun fs' hp g => build_congr hp⟩
  · have hfits : (∀ f ∈ fs, Fits key f) ↔ ∀ f ∈ fs, f.Valid ∧ Apart key f :=
      forall₂_congr fun f _ => fits_iff
    rw [hfits]
    constructor
    · rintro ⟨g, hg⟩
      obtain ⟨hvalid, hn, -⟩ := build_eq_ok_iff.mp hg
      exact ⟨hvalid, hn⟩
    · rintro ⟨hvalid, hn⟩
      exact ⟨_, build_eq_ok_iff.mpr ⟨hvalid, hn, rfl⟩⟩
  · have hvalues := values_perm_of_build hg
    have hcount := (hvalues.map fun f => f.samples.length).sum_nat
    obtain ⟨-, -, rfl⟩ := build_eq_ok_iff.mp hg
    exact ⟨rfl, rfl, rfl, get?_of_build hg, hvalues, (sampleCount_eq_sum _).trans hcount⟩

end PushGateway.Group
