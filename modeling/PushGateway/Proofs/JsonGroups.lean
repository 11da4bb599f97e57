import PushGateway.Proofs.GroupValidity
import PushGateway.Proofs.JsonValues

/-! The JSON form of a group is read back as that group, with all NaNs made one, whenever the
numbers in it are read back. -/

namespace PushGateway

def Sample.collapse (s : Sample) : Sample := { s with value := s.value.collapse }

def Family.collapse (f : Family) : Family := { f with samples := f.samples.map Sample.collapse }

def Group.collapse (g : Group) : Group :=
  { g with families := g.families.mapValues Family.collapse }

def Family.numbers (f : Family) : List Binary64 := f.samples.flatMap fun s => s.value.numbers

def Group.numbers (g : Group) : List Binary64 := g.families.values.flatMap Family.numbers

section Collapse

@[simp] lemma SampleValue.metricType_collapse (v : SampleValue) :
    v.collapse.metricType = v.metricType := by
  cases v <;> rfl

lemma Family.labels_collapse (f : Family) :
    f.collapse.samples.map Sample.labels = f.samples.map Sample.labels := by
  rw [collapse, List.map_map]
  rfl

lemma Family.Valid.collapse {f : Family} (h : f.Valid) : f.collapse.Valid := by
  refine ⟨h.name, ?_, ?_⟩
  · intro s hs
    obtain ⟨t, ht, rfl⟩ := List.mem_map.mp hs
    obtain ⟨htype, hlabels⟩ := h.samples t ht
    exact ⟨(SampleValue.metricType_collapse t.value).trans htype, hlabels⟩
  · rw [f.labels_collapse]
    exact h.distinct

lemma Group.Apart.collapse {key : GroupingKey} {f : Family} (h : Apart key f) :
    Apart key f.collapse := by
  intro s hs
  obtain ⟨t, ht, rfl⟩ := List.mem_map.mp hs
  exact h t ht

lemma Group.Valid.collapse {g : Group} (h : g.Valid) : g.collapse.Valid := by
  have hvalues : g.collapse.families.values = g.families.values.map Family.collapse :=
    SortedMap.values_mapValues g.families Family.collapse
  refine ⟨?_, ?_, ?_⟩
  · intro p hp
    obtain ⟨q, hq, rfl⟩ := List.mem_map.mp hp
    exact h.named q hq
  · intro f hf
    obtain ⟨e, he, rfl⟩ := List.mem_map.mp (hvalues ▸ hf)
    exact (h.valid e he).collapse
  · intro f hf
    obtain ⟨e, he, rfl⟩ := List.mem_map.mp (hvalues ▸ hf)
    exact (h.apart e he).collapse

end Collapse

namespace Json

section Samples

lemma toLabels?_ofLabels (labels : Labels) : toLabels? (ofLabels labels) = some labels := by
  have hpairs : (labels.entries.map fun p => (some p.1, str p.2)).mapM
      (fun m => do return (← m.1, ← m.2.toString?)) = some (labels.entries.map id) :=
    mapM_map_eq_pure fun p _ => rfl
  rw [List.map_id] at hpairs
  simp only [ofLabels, record, List.map_map, Function.comp_def, toLabels?]
  rw [hpairs]
  exact congrArg some (SortedMap.ofList_entries labels)

lemma toSample?_ofSample {level : Nat} (hl : level + 4 ≤ maxDepth) {s : Sample}
    (h : Kept s.value.numbers) : toSample? level (ofSample s) = some s.collapse := by
  obtain ⟨labels, value, timestamp⟩ := s
  have hv : toSampleValue? (level + 1) (ofSampleValue value) = some value.collapse :=
    toSampleValue?_ofSampleValue (by omega) h
  have hlabels := toLabels?_ofLabels labels
  cases timestamp with
  | none =>
    have hf : (ofSample ⟨labels, value, none⟩).fields? ["labels", "value", "timestamp_ms"]
        = some [some (ofLabels labels), some (ofSampleValue value), none] := rfl
    simp [toSample?, hf, hlabels, hv, toTimestamp?, Sample.collapse]
  | some t =>
    have hf : (ofSample ⟨labels, value, some t⟩).fields? ["labels", "value", "timestamp_ms"]
        = some [some (ofLabels labels), some (ofSampleValue value), some (ofInt t.toInt)] := rfl
    have ht : toTimestamp? (some (ofInt t.toInt)) = some (some t) := by
      change (ofInt t.toInt).toInt64?.map some = _
      rw [toInt64?_ofInt]
      rfl
    simp [toSample?, hf, hlabels, hv, ht, Sample.collapse]

lemma toFamily?_ofFamily {level : Nat} (hl : level + 6 ≤ maxDepth) {f : Family}
    (h : Kept f.numbers) : toFamily? level (ofFamily f) = some f.collapse := by
  have hf : (ofFamily f).fields? ["name", "help", "metric_type", "samples"]
      = some [some (str f.name), some (str f.help), some (ofMetricType f.metricType),
        some (.array (f.samples.map ofSample))] := rfl
  have ht : toMetricType? (ofMetricType f.metricType) = some f.metricType :=
    MetricType.ofName?_name f.metricType
  have hs : (f.samples.map ofSample).mapM (toSample? (level + 2))
      = some (f.samples.map Sample.collapse) :=
    mapM_map_eq_pure fun s hs => toSample?_ofSample (by omega) (kept_flatMap.mp h s hs)
  have hhelp : toHelp? (some (str f.help)) = some f.help := rfl
  have hname : toString? (str f.name) = some f.name := rfl
  simp [toFamily?, hf, hname, hhelp, ht, toArray?, hs, Family.collapse]

lemma toFamilyMap?_record {m : SortedMap String Family}
    (h : Kept (m.values.flatMap Family.numbers)) :
    toFamilyMap? (record (m.entries.map fun (n, f) => (n, ofFamily f)))
      = some (m.mapValues Family.collapse) := by
  have hpairs : (m.entries.map fun p => (some p.1, ofFamily p.2)).mapM
      (fun m => do return (← m.1, ← m.2.toFamily? 2))
        = some (m.entries.map fun p => (p.1, p.2.collapse)) := by
    refine mapM_map_eq_pure fun p hp => ?_
    have hread : toFamily? 2 (ofFamily p.2) = some p.2.collapse :=
      toFamily?_ofFamily (by decide) (kept_flatMap.mp h p.2 (List.mem_map_of_mem hp))
    simp [hread]
  simp only [record, List.map_map, Function.comp_def, toFamilyMap?]
  rw [hpairs]
  exact congrArg some (SortedMap.ofList_entries (m.mapValues Family.collapse))

end Samples

section Keys

lemma ofPairs_pairs (key : GroupingKey) : GroupingKey.ofPairs key.pairs = .ok key := by
  have hnodup : (key.pairs.map Prod.fst).Nodup := SortedMap.nodup_of_sorted key.labels.keys_sorted
  refine (GroupingKey.ofPairs_eq_ok key.nonempty key.keyLabels hnodup).trans ?_
  exact congrArg Except.ok (GroupingKey.ext (SortedMap.ofList_entries key.labels))

lemma toKey?_ofKey (key : GroupingKey) : toKey? (ofKey key) = some key := by
  have hpairs : (key.pairs.map fun p => .array [str p.1, str p.2]).mapM toPair?
      = some (key.pairs.map id) :=
    mapM_map_eq_pure fun p _ => rfl
  have harray : (ofKey key).toArray?
      = some (key.pairs.map fun p => .array [str p.1, str p.2]) := rfl
  rw [List.map_id] at hpairs
  simp only [toKey?, harray, Option.bind_eq_bind, Option.bind_some, hpairs, ofPairs_pairs]
  rfl

end Keys

theorem toGroup?_ofGroup {g : Group} (h : Kept g.numbers) :
    toGroup? (ofGroup g) = some g.collapse := by
  have hf : (ofGroup g).fields? ["key", "families", "last_push_ms", "push_seq"]
      = some [some (ofKey g.key),
        some (record (g.families.entries.map fun (n, f) => (n, ofFamily f))),
        some (ofUInt64 g.lastPush), some (ofUInt64 g.pushSeq)] := rfl
  have hseq : toSeq? (some (ofUInt64 g.pushSeq)) = some g.pushSeq := toUInt64?_ofUInt64 g.pushSeq
  simp [toGroup?, hf, toKey?_ofKey, toFamilyMap?_record h, toUInt64?_ofUInt64, hseq,
    Group.collapse]

section Writing

lemma writable_ofSampleValue (v : SampleValue) : Writable (ofSampleValue v) := by
  have hnumbers {fields : List (String × Json)} (h : ∀ f ∈ fields, ∃ x, f.2 = ofBinary64 x) :
      Writable (record fields) := by
    refine writable_record fun f hf => ?_
    obtain ⟨x, hx⟩ := h f hf
    rw [hx]
    exact writable_ofBinary64 x
  have hq : ∀ q : Quantile, Writable (ofQuantile q) := fun q => hnumbers (by simp)
  have hb : ∀ b : Bucket, Writable (ofBucket b) := fun b => hnumbers (by simp)
  rw [ofSampleValue_eq]
  refine writable_record (List.forall_mem_cons.mpr ⟨.str _, ?_⟩)
  cases v with
  | counter x | gauge x | untyped x => simp [valueFields, writable_ofBinary64]
  | summary qs s c =>
    have hqs : Writable (.array (qs.map ofQuantile)) := .array (by simp [hq])
    simp [valueFields, writable_ofBinary64, hqs]
  | histogram bs s c =>
    have hbs : Writable (.array (bs.map ofBucket)) := .array (by simp [hb])
    simp [valueFields, writable_ofBinary64, hbs]

lemma writable_ofSample (s : Sample) : Writable (ofSample s) := by
  have hlabels : Writable (ofLabels s.labels) := by
    refine writable_record fun f hf => ?_
    obtain ⟨p, -, rfl⟩ := List.mem_map.mp hf
    exact .str p.2
  apply writable_record
  cases s.timestamp with
  | none => simp [hlabels, writable_ofSampleValue]
  | some t => simp [hlabels, writable_ofSampleValue, writable_ofInt]

lemma writable_ofFamily (f : Family) : Writable (ofFamily f) := by
  have hs : Writable (.array (f.samples.map ofSample)) := .array (by simp [writable_ofSample])
  apply writable_record
  simp [hs, ofMetricType, Writable.str]

lemma writable_ofGroup (g : Group) : Writable (ofGroup g) := by
  have hkey : Writable (ofKey g.key) := by
    refine .array fun j hj => ?_
    obtain ⟨p, -, rfl⟩ := List.mem_map.mp hj
    exact .array (by simp [Writable.str])
  have hfamilies : Writable (record (g.families.entries.map fun (n, f) => (n, ofFamily f))) := by
    refine writable_record fun f hf => ?_
    obtain ⟨p, -, rfl⟩ := List.mem_map.mp hf
    exact writable_ofFamily p.2
  apply writable_record
  simp [hkey, hfamilies, ofUInt64, writable_ofInt]

end Writing

theorem readGroup?_render {g : Group} (h : Kept g.numbers) :
    readGroup? (ofGroup g).render = some g.collapse := by
  rw [readGroup?, read?_render (writable_ofGroup g)]
  exact toGroup?_ofGroup h

end Json

end PushGateway
