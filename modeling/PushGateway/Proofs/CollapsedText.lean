import PushGateway.Exposition.Render
import PushGateway.Proofs.JsonGroups
import PushGateway.Proofs.MergedValues

/-! Which NaN a number is does not show: groups merge in the same way and their text is the same
when all NaNs are made one. -/

namespace PushGateway

section Rendering

open Exposition

lemma Binary64.collapse_eq (x : Binary64) : x.collapse = x ∨ x.isNaN = true ∧ x.collapse = nan := by
  by_cases h : x.isNaN = true
  · exact .inr ⟨h, if_pos h⟩
  · exact .inl (if_neg h)

@[simp] lemma valueText_collapse (x : Binary64) : valueText x.collapse = valueText x := by
  rcases x.collapse_eq with h | ⟨hn, h⟩
  · rw [h]
  · have hx : valueText x = ['N', 'a', 'N'] := by rw [valueText, if_pos hn]
    rw [h, hx]
    rfl

lemma hasInfiniteBucket_collapse (bs : List Bucket) :
    hasInfiniteBucket (bs.map Bucket.collapse) = hasInfiniteBucket bs := by
  have hx (x : Binary64) : (x.collapse == Binary64.infinity) = (x == Binary64.infinity) := by
    rcases x.collapse_eq with h | ⟨hn, h⟩
    · rw [h]
    · have hne : x ≠ Binary64.infinity := by
        rintro rfl
        exact absurd hn (by decide)
      rw [h, beq_eq_false_iff_ne.mpr hne]
      rfl
  simp only [hasInfiniteBucket, List.any_map, Function.comp_def, Bucket.collapse, hx]

lemma completeBuckets_collapse (bs : List Bucket) (count : Binary64) :
    completeBuckets (bs.map Bucket.collapse) count.collapse
      = (completeBuckets bs count).map Bucket.collapse := by
  rw [completeBuckets, completeBuckets, hasInfiniteBucket_collapse]
  split_ifs
  · rfl
  · rw [List.map_append]
    rfl

lemma seriesText_collapse (family : String) (s : Sample) :
    (seriesLines family s.collapse).map SeriesLine.text
      = (seriesLines family s).map SeriesLine.text := by
  obtain ⟨labels, value, timestamp⟩ := s
  cases value with
  | counter x | gauge x | untyped x =>
    simp [Sample.collapse, SampleValue.collapse, seriesLines, SeriesLine.text]
  | summary qs s c =>
    simp [Sample.collapse, SampleValue.collapse, Quantile.collapse, seriesLines, SeriesLine.text,
      withBound, Function.comp_def]
  | histogram bs s c =>
    simp [Sample.collapse, SampleValue.collapse, completeBuckets_collapse, Bucket.collapse,
      seriesLines, SeriesLine.text, withBound, Function.comp_def]

lemma familyLines_collapse (f : Family) : familyLines f.collapse = familyLines f := by
  have hs : (f.collapse.samples.flatMap (seriesLines f.name)).map SeriesLine.text
      = (f.samples.flatMap (seriesLines f.name)).map SeriesLine.text := by
    rw [Family.collapse, List.map_flatMap, List.map_flatMap, List.flatMap_map]
    exact List.flatMap_congr fun s _ => seriesText_collapse f.name s
  rw [familyLines, familyLines, ← hs]
  rfl

lemma render_collapse (fs : List Family) : render (fs.map Family.collapse) = render fs := by
  have hlines : renderLines (fs.map Family.collapse) = renderLines fs := by
    rw [renderLines, renderLines, List.flatMap_map]
    exact List.flatMap_congr fun f _ => familyLines_collapse f
  rw [render, render, hlines]

end Rendering

theorem merge_collapse (groups : List Group) :
    merge (groups.map Group.collapse)
      = ⟨(merge groups).families.map Family.collapse, (merge groups).conflicts⟩ :=
  merge_restate SampleValue.collapse id groups

end PushGateway
