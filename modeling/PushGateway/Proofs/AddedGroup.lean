import Mathlib.Data.List.Flatten
import PushGateway.Proofs.MergedLines
import PushGateway.Proofs.TableRuns

/-! A group that is pushed last and replaces none only adds lines to the served text. It loses each
disagreement with the groups that were there, so all of their lines stay, in their order. -/

namespace PushGateway

open Exposition

namespace Merge

/-- The groups after a push under a new key: the new one ranks last. -/
structure Joins (groups : List Group) (g : Group) (groups' : List Group) : Prop where
  distinct : Distinct groups'
  sublist : groups.Sublist groups'
  mem : ∀ h ∈ groups', h = g ∨ h ∈ groups
  last : ∀ h ∈ groups, ranksBefore h g = true

section Joined

variable {groups groups' : List Group} {g h : Group} {name : String}

lemma Joins.distinct_before (hj : Joins groups g groups') : Distinct groups :=
  ⟨fun h hh => hj.distinct.valid h (hj.sublist.mem hh), hj.distinct.keys.sublist (hj.sublist.map _)⟩

lemma Joins.outranked_iff (hj : Joins groups g groups') (hh : h ∈ groups) (labels : Labels) :
    Outranked groups' h name labels ↔ Outranked groups h name labels := by
  constructor
  · rintro ⟨i, hi, hih, hseries⟩
    rcases hj.mem i hi with rfl | hi
    · simp [ranksBefore_asymm (hj.last h hh)] at hih
    · exact ⟨i, hi, hih, hseries⟩
  · rintro ⟨i, hi, hih, hseries⟩
    exact ⟨i, hj.sublist.mem hi, hih, hseries⟩

lemma Joins.survivors_sublist (hj : Joins groups g groups') (name : String) :
    (survivors groups name).Sublist (survivors groups' name) := by
  have hsame : survivors groups name = groups.flatMap fun h =>
      ((named h name).filter fun s => ¬Outranked groups' h name s.labels).map fun s =>
        { s with labels := withKey h.key s.labels } := by
    refine List.flatMap_congr fun h hh => ?_
    simp only [hj.outranked_iff hh]
  rw [hsame]
  exact hj.sublist.flatMap _

lemma Joins.leads (hj : Joins groups g groups') {f : Family} (hl : Leads groups name h f) :
    Leads groups' name h f := by
  obtain ⟨hh, hf, hlow⟩ := hl
  refine ⟨hj.sublist.mem hh, hf, fun i hi hs => ?_⟩
  rcases hj.mem i hi with rfl | hi
  · exact .inr (hj.last h hh)
  · exact hlow i hi hs

lemma Joins.definitions_sublist (hj : Joins groups g groups') :
    (definitions (ranked groups)).entries.Sublist (definitions (ranked groups')).entries := by
  refine SortedMap.entries_sublist fun name d hdef => ?_
  obtain ⟨h, f, hl, rfl⟩ := (get?_definitions hj.distinct_before).mp hdef
  exact (get?_definitions hj.distinct).mpr ⟨h, f, hj.leads hl, rfl⟩

lemma families_merge (hd : Distinct groups) : (merge groups).families =
    (definitions (ranked groups)).entries.map fun p =>
      ⟨p.1, p.2.help, p.2.type, survivors groups p.1⟩ := by
  refine List.map_congr_left fun ⟨name, d⟩ _ => ?_
  exact congrArg (Family.mk name d.help d.type) (samplesOf_eq_survivors hd name)

lemma familyLines_sublist (name help : String) (type : MetricType) {ss ss' : List Sample}
    (h : ss.Sublist ss') :
    (familyLines ⟨name, help, type, ss⟩).Sublist (familyLines ⟨name, help, type, ss'⟩) :=
  (((h.flatMap (seriesLines name)).map SeriesLine.text).cons_cons _).cons_cons _

theorem Joins.renderLines_sublist (hj : Joins groups g groups') :
    (renderLines (merge groups).families).Sublist (renderLines (merge groups').families) := by
  rw [families_merge hj.distinct_before, families_merge hj.distinct, renderLines, renderLines,
    List.flatMap_map, List.flatMap_map]
  refine List.Sublist.trans (List.Sublist.flatMap_right _ fun p _ => ?_)
    (hj.definitions_sublist.flatMap _)
  exact familyLines_sublist _ _ _ (hj.survivors_sublist p.1)

end Joined

end Merge

namespace Table

variable {t t' : Table} {key : GroupingKey} {families : List Family} {now : UInt64}
  {replaced : Bool}

lemma Numbered.joins (h : t.Numbered) (hd : Merge.Distinct t'.snapshot)
    (hkey : t.get? key = none) (hpush : t.push key families now = .ok (t', replaced)) :
    ∃ g, Merge.Joins t.snapshot g t'.snapshot := by
  obtain ⟨g, hg, -, rfl, -⟩ := push_eq_ok_iff.mp hpush
  have hnew : g.pushSeq = t.nextSeq := Group.pushSeq_of_build hg
  refine ⟨g, hd, (SortedMap.entries_sublist_insert g hkey).map Prod.snd, fun i hi => ?_,
    fun i hi => ?_⟩
  · obtain ⟨p, hp, rfl⟩ := List.mem_map.mp hi
    rcases SortedMap.mem_insertEntry hp with rfl | hp
    · exact .inl rfl
    · exact .inr (List.mem_map_of_mem hp)
  · obtain ⟨p, hp, rfl⟩ := List.mem_map.mp hi
    refine Merge.ranksBefore_iff.mpr (.inl ?_)
    rw [hnew]
    exact h.below p hp

theorem new_group_only_adds_lines {changes : List Change}
    (hkey : (empty.after changes).get? key = none)
    (hpush : (empty.after changes).push key families now = .ok (t', replaced)) :
    (lines (render (merge (empty.after changes).snapshot).families)).Sublist
      (lines (render (merge t'.snapshot).families)) := by
  have happly : t' = empty.after (changes ++ [.push ⟨key, families, now⟩]) := by
    rw [after_append, after, List.foldl_cons, List.foldl_nil, apply, hpush]
  have hd : Merge.Distinct t'.snapshot := happly ▸ distinct_after _
  obtain ⟨g, hj⟩ := (numbered_empty.after changes).joins hd hkey hpush
  rw [Merge.lines_render_of_distinct hj.distinct_before, Merge.lines_render_of_distinct hd]
  exact hj.renderLines_sublist.append (List.Sublist.refl _)

/-- The new group is listed first, disagrees about type and help, and has a series that is taken. -/
theorem new_group_only_adds_lines_listed_first :
    let one : Binary64 := ⟨0x3FF0000000000000⟩
    let a : GroupingKey := ⟨.ofList [("job", "x"), ("instance", "i")], by decide, by decide⟩
    let b : GroupingKey := ⟨.ofList [("job", "x")], by decide, by decide⟩
    let early : Family := ⟨"up", "early", .gauge, [⟨.ofList [("instance", "i")], .gauge one, none⟩]⟩
    let late : Family := ⟨"up", "late", .counter,
      [⟨.empty, .counter .zero, none⟩, ⟨.ofList [("path", "\"")], .counter .zero, some 7⟩]⟩
    let t : Table := ⟨.ofList [(b, ⟨b, .ofList [("up", early)], 5, 0⟩)], 1⟩
    let t' : Table := ⟨.ofList [(a, ⟨a, .ofList [("up", late)], 6, 1⟩),
      (b, ⟨b, .ofList [("up", early)], 5, 0⟩)], 2⟩
    let before : List String :=
      ["# HELP up early", "# TYPE up gauge", "up\x7binstance=\"i\",job=\"x\"\x7d 1"]
    let after : List String := ["# HELP up early", "# TYPE up gauge",
      "up\x7binstance=\"i\",job=\"x\",path=\"\\\"\"\x7d 0 7",
      "up\x7binstance=\"i\",job=\"x\"\x7d 1"]
    empty.after [.push ⟨b, [early], 5⟩] = t ∧ t.get? a = none ∧
      t.push a [late] 6 = .ok (t', false) ∧
      lines (render (merge t.snapshot).families) = before.map String.toList ++ [[]] ∧
      lines (render (merge t'.snapshot).families) = after.map String.toList ++ [[]] ∧
      (before.map String.toList ++ [[]]).Sublist (after.map String.toList ++ [[]]) := by
  intro one a b early late t t' before after
  have ht : empty.after [.push ⟨b, [early], 5⟩] = t := by decide +kernel
  have hpush : t.push a [late] 6 = .ok (t', false) := by decide +kernel
  have hfirst : Merge.ranked t.snapshot = t.snapshot :=
    List.mergeSort_of_pairwise (by decide +kernel)
  have hlast : Merge.ranked t'.snapshot = t'.snapshot.reverse :=
    Merge.ranked_eq_of_sorted (by decide +kernel) (List.reverse_perm _) (by decide +kernel)
  have hbefore : lines (render (merge t.snapshot).families) = before.map String.toList ++ [[]] := by
    rw [merge, hfirst]
    decide +kernel
  have hafter : lines (render (merge t'.snapshot).families) = after.map String.toList ++ [[]] := by
    rw [merge, hlast]
    decide +kernel
  have hkey : t.get? a = none := by decide +kernel
  refine ⟨ht, hkey, hpush, hbefore, hafter, ?_⟩
  rw [← ht] at hkey hpush
  rw [← hbefore, ← hafter, ← ht]
  exact new_group_only_adds_lines hkey hpush

end Table

end PushGateway
