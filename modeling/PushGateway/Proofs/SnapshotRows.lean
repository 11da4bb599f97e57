import PushGateway.Proofs.KeyText
import PushGateway.Proofs.RereadNumbers
import PushGateway.Snapshot.Contents

/-! The rows of a snapshot file: one for each group, since different keys have different texts. What
was written is loaded again, each group once. -/

namespace PushGateway.Snapshot.Contents

variable {c : Contents} {groups : List Group}

section Rows

/-- The version of the format, and one row for each of the groups and no other row. -/
def Holds (c : Contents) (groups : List Group) : Prop :=
  c.version = some formatVersion ∧ c.rows.entries.Perm (groups.map row)

lemma row_names_nodup (h : (groups.map Group.key).Nodup) :
    ((groups.map row).map Prod.fst).Nodup := by
  have hn : (groups.map row).map Prod.fst = (groups.map Group.key).map GroupingKey.text := by
    rw [List.map_map, List.map_map]
    rfl
  rw [hn]
  exact h.map GroupingKey.text_injective

lemma holds_ofGroups (h : (groups.map Group.key).Nodup) :
    (ofGroups groups).Holds groups :=
  ⟨rfl, SortedMap.ofList_perm (row_names_nodup h)⟩

lemma Holds.exists_rows (h : c.Holds groups) :
    ∃ sorted : List Group, c.rows.entries = sorted.map row ∧ sorted.Perm groups := by
  have hc : Relation.Comp (· = List.map row ·) List.Perm c.rows.entries groups := by
    rw [List.eq_map_comp_perm]
    exact h.2
  exact hc

lemma decodeRow_row {g : Group} (hv : g.Valid) : decodeRow (row g).2 = .ok g.collapse := by
  rw [decodeRow, row, Json.readGroup?_render (Json.kept g.numbers)]
  dsimp only
  rw [hv.collapse.build_values]

end Rows

/-- Loading the file gives these groups and no others, each once, in the order of the texts of their
keys. It does not tell one NaN from another. -/
def Gives (c : Contents) (groups : List Group) : Prop :=
  ∃ sorted : List Group, c.load = .ok (sorted.map Group.collapse) ∧ sorted.Perm groups ∧
    sorted.Pairwise fun g h => before g.key.text h.key.text = true

lemma Holds.gives (h : c.Holds groups) (hv : ∀ g ∈ groups, g.Valid) : c.Gives groups := by
  obtain ⟨sorted, hrows, hperm⟩ := h.exists_rows
  refine ⟨sorted, ?_, hperm, ?_⟩
  · have hvalues : c.rows.values = sorted.map fun g => (row g).2 := by
      rw [SortedMap.values, hrows, List.map_map]
      rfl
    have hread : c.rows.values.mapM decodeRow = .ok (sorted.map Group.collapse) := by
      rw [hvalues]
      exact mapM_map_eq_pure fun g hg => decodeRow_row (hv g (hperm.mem_iff.mp hg))
    rw [load, h.1, ← hread]
    rfl
  · have hsorted := c.rows.sorted
    rw [hrows] at hsorted
    exact List.pairwise_map.mp hsorted

lemma gives_ofGroups (hk : (groups.map Group.key).Nodup) (hv : ∀ g ∈ groups, g.Valid) :
    (ofGroups groups).Gives groups :=
  (holds_ofGroups hk).gives hv

end PushGateway.Snapshot.Contents
