import Mathlib.Data.List.Basic
import PushGateway.Merge
import PushGateway.Proofs.SortedMapEntries

/-! Merging looks neither at the values of the samples nor at the times of the pushes, so it can as
well be done after either is changed. -/

namespace PushGateway

section Restated

variable (v : SampleValue → SampleValue) (w : UInt64 → UInt64)

def Sample.restate (s : Sample) : Sample := { s with value := v s.value }

def Family.restate (f : Family) : Family := { f with samples := f.samples.map (Sample.restate v) }

/-- The group with other values and another time. -/
def Group.restate (g : Group) : Group :=
  { g with families := g.families.mapValues (Family.restate v), lastPush := w g.lastPush }

end Restated

namespace Merge

variable {v : SampleValue → SampleValue} {w : UInt64 → UInt64}

lemma ranked_restate (groups : List Group) :
    ranked (groups.map (Group.restate v w)) = (ranked groups).map (Group.restate v w) := by
  rw [ranked, ranked, List.map_mergeSort]
  intro g _ h _
  rfl

lemma pairs_restate (groups : List Group) :
    pairs (groups.map (Group.restate v w))
      = (pairs groups).map fun p => (p.1.restate v w, p.2.restate v) := by
  rw [pairs, pairs, List.flatMap_map, List.map_flatMap]
  refine List.flatMap_congr fun g _ => ?_
  have hvalues : (g.restate v w).families.values = g.families.values.map (Family.restate v) :=
    SortedMap.values_mapValues g.families (Family.restate v)
  rw [hvalues, List.map_map, List.map_map]
  rfl

lemma definitions_restate (groups : List Group) :
    definitions (groups.map (Group.restate v w)) = definitions groups := by
  rw [definitions, definitions, pairs_restate, List.foldl_map]
  rfl

lemma definitionConflicts_restate (defs : Definitions) (groups : List Group) :
    definitionConflicts defs (groups.map (Group.restate v w)) = definitionConflicts defs groups := by
  rw [definitionConflicts, definitionConflicts, pairs_restate, List.flatMap_map]
  rfl

lemma holdings_restate (groups : List Group) :
    holdings (groups.map (Group.restate v w)) = holdings groups := by
  rw [holdings, holdings, pairs_restate, List.flatMap_map]
  refine List.flatMap_congr fun p _ => ?_
  simp only [Family.restate, List.map_map]
  rfl

lemma kept_restate (h : List (Series × GroupingKey)) (g : Group) (f : Family) :
    kept h (g.restate v w) (f.restate v) = (kept h g f).map (Sample.restate v) := by
  simp only [kept, Family.restate, List.filter_map, List.map_map]
  rfl

lemma seriesConflicts_restate (h : List (Series × GroupingKey)) (groups : List Group) :
    seriesConflicts h (groups.map (Group.restate v w)) = seriesConflicts h groups := by
  rw [seriesConflicts, seriesConflicts, pairs_restate, List.flatMap_map]
  refine List.flatMap_congr fun p _ => ?_
  simp only [Family.restate, List.map_map]
  rfl

lemma samplesOf_restate (h : List (Series × GroupingKey)) (groups : List Group) (name : String) :
    samplesOf h (groups.map (Group.restate v w)) name
      = (samplesOf h groups name).map (Sample.restate v) := by
  rw [samplesOf, samplesOf, pairs_restate, List.flatMap_map, List.map_flatMap]
  refine List.flatMap_congr fun p _ => ?_
  simp only [kept_restate]
  by_cases hn : p.2.name = name
  · rw [if_pos hn]
    exact if_pos hn
  · rw [if_neg hn]
    exact if_neg hn

end Merge

variable (v : SampleValue → SampleValue) (w : UInt64 → UInt64)

theorem merge_restate (groups : List Group) :
    merge (groups.map (Group.restate v w))
      = ⟨(merge groups).families.map (Family.restate v), (merge groups).conflicts⟩ := by
  simp only [merge, Merge.ranked_restate, Merge.definitions_restate, Merge.holdings_restate,
    Merge.definitionConflicts_restate, Merge.seriesConflicts_restate, Merge.samplesOf_restate,
    List.map_map]
  rfl

def Group.timeless (g : Group) : Group := { g with lastPush := 0 }

theorem merge_timeless (groups : List Group) :
    merge (groups.map Group.timeless) = merge groups := by
  have hfamily : Family.restate id = id := by
    funext f
    exact congrArg (Family.mk f.name f.help f.metricType) (List.map_id f.samples)
  have hgroup : Group.timeless = Group.restate id fun _ => 0 := by
    funext g
    have hvalues : g.families.mapValues (Family.restate id) = g.families := by
      rw [hfamily]
      exact SortedMap.ext (List.map_id _)
    rw [Group.restate, hvalues]
    rfl
  rw [hgroup, merge_restate, hfamily, List.map_id]

end PushGateway
