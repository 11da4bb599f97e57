import PushGateway.Proofs.CollapsedText
import PushGateway.Proofs.SnapshotRows
import PushGateway.Proofs.TableKeys

/-! What a snapshot file holds is loaded again: the groups that were written, in the order of their
rows. If none of them has the highest number, the table made of them shows the same text. -/

namespace PushGateway

namespace Table

lemma byKey_congr {groups groups' : List Group} (hp : groups.Perm groups')
    (h : (groups.map Group.key).Nodup) : byKey groups = byKey groups' := by
  have hk : ((groups.map fun g => (g.key, g)).map Prod.fst).Nodup := by
    rw [List.map_map]
    exact h
  exact SortedMap.ofList_congr (hp.map _) hk

lemma byKey_collapse {groups : List Group} (h : (groups.map Group.key).Nodup) :
    (byKey (groups.map Group.collapse)).values = (byKey groups).values.map Group.collapse := by
  have hk : ((groups.map fun g => (g.key, g)).map Prod.fst).Nodup := by
    rw [List.map_map]
    exact h
  have hm : (groups.map Group.collapse).map (fun g => (g.key, g))
      = (groups.map fun g => (g.key, g)).map fun p => (p.1, p.2.collapse) := by
    rw [List.map_map, List.map_map]
    rfl
  rw [byKey, byKey, hm, SortedMap.ofList_map Group.collapse hk]
  exact SortedMap.values_mapValues _ _

/-- Groups of different keys, put in the order of the keys. -/
lemma values_byKey {groups : List Group} (h : (groups.map Group.key).Nodup) :
    (byKey groups).values.Perm groups ∧
      (byKey groups).values.Pairwise fun g h => before g.key h.key = true := by
  constructor
  · have hk : ((groups.map fun g => (g.key, g)).map Prod.fst).Nodup := by
      rw [List.map_map]
      exact h
    have hperm := (SortedMap.ofList_perm hk).map Prod.snd
    rwa [List.map_map, show Prod.snd ∘ (fun g : Group => (g.key, g)) = id from rfl,
      List.map_id] at hperm
  · refine List.pairwise_map.mpr ((byKey groups).sorted.imp_of_mem fun hp hq hlt => ?_)
    rw [key_of_mem_byKey hp, key_of_mem_byKey hq]
    exact hlt

end Table

namespace Snapshot.Contents

/-- Writing groups and loading the file gives each group back once, in the order of the
rows. A table is made of them only if none has the highest number, and then has the snapshot
that was written. -/
theorem load_written (groups : List Group)
    (hb : ∀ g ∈ groups, ∃ families, Group.build g.key families g.lastPush g.pushSeq = .ok g)
    (hk : (groups.map Group.key).Nodup) :
    ∃ loaded written, (ofGroups groups).load = .ok loaded ∧
      loaded.Perm (groups.map Group.collapse) ∧
      (loaded.Pairwise fun g h => before g.key.text h.key.text = true) ∧
      ((∃ t, Table.ofGroups? loaded = some t) ↔ ∀ g ∈ groups, g.pushSeq.toNat + 1 < 2 ^ 64) ∧
      written.Perm groups ∧ (written.Pairwise fun g h => before g.key h.key = true) ∧
      ∀ t, Table.ofGroups? loaded = some t → t.snapshot = written.map Group.collapse ∧
        (merge t.snapshot).conflicts = (merge written).conflicts ∧
        Exposition.render (merge t.snapshot).families
          = Exposition.render (merge written).families := by
  have hv : ∀ g ∈ groups, g.Valid := fun g hg => Group.valid_of_build (hb g hg).choose_spec
  obtain ⟨sorted, hload, hperm, hsorted⟩ := gives_ofGroups hk hv
  have hkeys : ((sorted.map Group.collapse).map Group.key).Nodup := by
    rw [List.map_map]
    exact (hperm.map Group.key).nodup_iff.mpr hk
  obtain ⟨hwritten, hordered⟩ := Table.values_byKey hk
  refine ⟨_, _, hload, hperm.map _, List.pairwise_map.mpr hsorted, ?_, hwritten, hordered,
    fun t ht => ?_⟩
  · rw [Table.exists_ofGroups?_iff, List.forall_mem_map]
    exact forall_congr' fun g => imp_congr_left hperm.mem_iff
  · have hsnapshot : t.snapshot = (Table.byKey groups).values.map Group.collapse := by
      rw [Table.snapshot, (Table.ofGroups?_eq_some_iff.mp ht).2,
        Table.byKey_congr (hperm.map Group.collapse) hkeys, Table.byKey_collapse hk]
    rw [hsnapshot, merge_collapse]
    exact ⟨rfl, rfl, render_collapse _⟩

/-- Two groups whose rows are in the other order than their keys, with a NaN of its own. -/
theorem load_written_rows_crossed :
    let a : GroupingKey := ⟨.ofList [("job", "a")], by decide, by decide⟩
    let b : GroupingKey := ⟨.ofList [("job", "a!")], by decide, by decide⟩
    let up (bits : UInt64) : Family := ⟨"up", "", .gauge,
      [⟨.ofList [("to", "\"x\"")], .gauge ⟨bits⟩, none⟩,
        ⟨.empty, .gauge ⟨0x3FB999999999999A⟩, some (-5)⟩]⟩
    let first (bits : UInt64) : Group := ⟨a, .ofList [("up", up bits)], 3, 0⟩
    let second : Group := ⟨b, .empty, 4, 0xFFFFFFFFFFFFFFFE⟩
    let written : List Group := [first 0xFFF8000000000001, second]
    let restored : Group := first 0x7FF8000000000000
    (ofGroups written).load = .ok [second, restored] ∧
      ∃ t, Table.ofGroups? [second, restored] = some t ∧ t.snapshot = [restored, second] ∧
        Exposition.render (merge t.snapshot).families
          = Exposition.render (merge written).families := by
  intro a b up first second written restored
  have hup : Group.build a [up 0xFFF8000000000001] 3 0 = .ok (first 0xFFF8000000000001) := by
    decide +kernel
  have hb : ∀ g ∈ written, ∃ families,
      Group.build g.key families g.lastPush g.pushSeq = .ok g := by
    intro g hg
    rcases List.mem_pair.mp hg with rfl | rfl
    · exact ⟨[up 0xFFF8000000000001], hup⟩
    · exact ⟨[], rfl⟩
  have hcollapse : written.map Group.collapse = [restored, second] := by decide +kernel
  obtain ⟨loaded, ordered, hload, hloaded, hrows, htable, hperm, hordered, hserved⟩ :=
    load_written written hb (by decide)
  rw [hcollapse] at hloaded
  obtain rfl : loaded = [second, restored] := by
    refine (hloaded.trans (.swap second restored [])).eq_of_pairwise
      (fun g h _ _ hgh hhg => ?_) hrows (by decide +kernel)
    exact absurd hhg (by simp [before_asymm hgh])
  obtain rfl : ordered = written := by
    refine hperm.eq_of_pairwise (fun g h _ _ hgh hhg => ?_) hordered (by decide +kernel)
    exact absurd hhg (by simp [before_asymm hgh])
  obtain ⟨t, ht⟩ := htable.mpr (by decide +kernel)
  obtain ⟨hsnapshot, -, hrender⟩ := hserved t ht
  exact ⟨hload, t, ht, hsnapshot.trans hcollapse, hrender⟩

/-- A group that is written and loaded, of which no table is made. -/
theorem last_number_lost :
    let a : GroupingKey := ⟨.ofList [("job", "a")], by decide, by decide⟩
    let g : Group := ⟨a, .empty, 3, 0xFFFFFFFFFFFFFFFF⟩
    Group.build a [] 3 0xFFFFFFFFFFFFFFFF = .ok g ∧ (ofGroups [g]).load = .ok [g] ∧
      Table.ofGroups? [g] = none := by
  decide +kernel

end Snapshot.Contents

end PushGateway
