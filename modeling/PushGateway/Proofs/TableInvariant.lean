import PushGateway.Proofs.TableRuns
import PushGateway.Snapshot.Contents

/-! What holds of every table, whether it starts empty or from the rows of a file: its groups are
those that pushes could have built, in the order of their keys, and halving finds them. -/

namespace PushGateway

section Search

variable {groups : List Group} {key : GroupingKey}

lemma before_of_lt (hs : groups.Pairwise fun g h => before g.key h.key = true) {i j : Nat}
    {g h : Group} (hij : i < j) (hg : groups[i]? = some g) (hh : groups[j]? = some h) :
    before g.key h.key = true := by
  obtain ⟨hi, rfl⟩ := List.getElem?_eq_some_iff.mp hg
  obtain ⟨hj, rfl⟩ := List.getElem?_eq_some_iff.mp hh
  exact List.pairwise_iff_getElem.mp hs i j hi hj hij

/-- Halving finds what the range holds under the key, and nothing else. -/
lemma findGroup?_eq_some_iff (hs : groups.Pairwise fun g h => before g.key h.key = true)
    {low high : Nat} (hhigh : high ≤ groups.length) {g : Group} :
    findGroup? groups.toArray key low high = some g ↔
      ∃ i, low ≤ i ∧ i < high ∧ groups[i]? = some g ∧ g.key = key := by
  fun_induction findGroup? groups.toArray key low high with
  | case1 low high hlt middle hnone =>
    rw [List.getElem?_toArray, List.getElem?_eq_none_iff] at hnone
    omega
  | case2 low high hlt middle h hmiddle hbefore ih =>
    rw [List.getElem?_toArray] at hmiddle
    rw [ih hhigh]
    constructor
    · rintro ⟨i, hi, hih, hg, rfl⟩
      exact ⟨i, by omega, hih, hg, rfl⟩
    · rintro ⟨i, hi, hih, hg, rfl⟩
      -- up to the middle all keys are too low
      refine ⟨i, Nat.succ_le_of_lt (Nat.lt_of_not_le fun hle => ?_), hih, hg, rfl⟩
      rcases Nat.lt_or_eq_of_le hle with hi' | rfl
      · simp [before_asymm (before_of_lt hs hi' hg hmiddle)] at hbefore
      · obtain rfl := Option.some.inj (hg.symm.trans hmiddle)
        simp [before_irrefl] at hbefore
  | case3 low high hlt middle h hmiddle _ hafter ih =>
    rw [List.getElem?_toArray] at hmiddle
    rw [ih (by omega)]
    constructor
    · rintro ⟨i, hi, hih, hg, rfl⟩
      exact ⟨i, hi, by omega, hg, rfl⟩
    · rintro ⟨i, hi, hih, hg, rfl⟩
      -- from the middle on all keys are too high
      refine ⟨i, hi, Nat.lt_of_not_le fun hle => ?_, hg, rfl⟩
      rcases Nat.lt_or_eq_of_le hle with hi' | hi'
      · simp [before_asymm (before_of_lt hs hi' hmiddle hg)] at hafter
      · rw [hi'] at hmiddle
        obtain rfl := Option.some.inj (hg.symm.trans hmiddle)
        simp [before_irrefl] at hafter
  | case4 low high hlt middle h hmiddle hbefore hafter =>
    rw [List.getElem?_toArray] at hmiddle
    have hkey : h.key = key :=
      eq_of_not_before _ _ (by simpa using hbefore) (by simpa using hafter)
    constructor
    · intro heq
      obtain rfl := Option.some.inj heq
      exact ⟨middle, by omega, by omega, hmiddle, hkey⟩
    · rintro ⟨i, -, -, hg, rfl⟩
      rcases Nat.lt_trichotomy i middle with hi | rfl | hi
      · exact absurd hkey.symm (ne_of_before (before_of_lt hs hi hg hmiddle))
      · exact hmiddle.symm.trans hg
      · exact absurd hkey (ne_of_before (before_of_lt hs hi hmiddle hg))
  | case5 low high hlt =>
    constructor
    · intro h
      cases h
    · rintro ⟨i, hi, hih, -⟩
      omega

lemma snapshotGet?_eq_some_iff (hs : groups.Pairwise fun g h => before g.key h.key = true)
    {g : Group} : snapshotGet? groups key = some g ↔ g ∈ groups ∧ g.key = key := by
  rw [snapshotGet?, findGroup?_eq_some_iff hs (Nat.le_refl _), List.mem_iff_getElem?]
  constructor
  · rintro ⟨i, -, -, hg, hkey⟩
    exact ⟨⟨i, hg⟩, hkey⟩
  · rintro ⟨⟨i, hg⟩, hkey⟩
    exact ⟨i, Nat.zero_le i, (List.getElem?_eq_some_iff.mp hg).1, hg, hkey⟩

end Search

namespace Table

variable {t : Table}

lemma Keyed.snapshot_sorted (h : t.Keyed) :
    t.snapshot.Pairwise fun g h => before g.key h.key = true := by
  have hsorted := t.groups.keys_sorted
  rw [← h.snapshot_keys] at hsorted
  exact List.pairwise_map.mp hsorted

lemma Keyed.get?_eq_some_iff (h : t.Keyed) {key : GroupingKey} {g : Group} :
    t.get? key = some g ↔ g ∈ t.snapshot ∧ g.key = key := by
  rw [get?, SortedMap.get?_eq_some_iff, snapshot, SortedMap.values, List.mem_map]
  constructor
  · intro hg
    exact ⟨⟨_, hg, rfl⟩, h _ hg⟩
  · rintro ⟨⟨p, hp, rfl⟩, rfl⟩
    rw [h p hp]
    exact hp

structure Consistent (t : Table) : Prop where
  keyed : ∀ p ∈ t.groups.entries, p.2.key = p.1
  named : ∀ g ∈ t.snapshot, ∀ p ∈ g.families.entries, p.2.name = p.1
  validates : ∀ g ∈ t.snapshot, ∀ f ∈ g.families.values, f.validate = .ok ()
  apart : ∀ g ∈ t.snapshot, ∀ f ∈ g.families.values, ∀ s ∈ f.samples, ∀ n ∈ s.labels.keys,
    g.key.containsLabel n = false
  ascending : t.snapshot.Pairwise fun g h => before g.key h.key = true
  found : ∀ key, snapshotGet? t.snapshot key = t.get? key

lemma Keyed.consistent (h : t.Keyed) (hv : ∀ g ∈ t.snapshot, g.Valid) : t.Consistent where
  keyed := h
  named g hg := (hv g hg).named
  validates g hg f hf := f.validate_eq_ok_iff.mpr ((hv g hg).valid f hf)
  apart g hg := (hv g hg).apart
  ascending := h.snapshot_sorted
  found key := by
    ext g
    rw [snapshotGet?_eq_some_iff h.snapshot_sorted, h.get?_eq_some_iff]

end Table

namespace Snapshot.Contents

lemma valid_of_decodeRow {text : String} {g : Group} (h : decodeRow text = .ok g) : g.Valid := by
  unfold decodeRow at h
  split at h
  · cases h
  · split at h
    · next hbuild =>
      obtain rfl := Except.ok.inj h
      exact Group.valid_of_build hbuild
    · cases h

lemma valid_of_load {c : Contents} {groups : List Group} (h : c.load = .ok groups) :
    ∀ g ∈ groups, g.Valid := by
  unfold load at h
  split at h
  · obtain rfl := Except.ok.inj h
    intro g hg
    cases hg
  · split_ifs at h
    intro g hg
    obtain ⟨text, -, htext⟩ := mem_of_mapM_eq_ok h g hg
    exact valid_of_decodeRow htext

end Snapshot.Contents

namespace Table

lemma Numbered.pushSeq_nodup {t : Table} (h : t.Numbered) :
    (t.snapshot.map Group.pushSeq).Nodup := by
  have hkeys := List.pairwise_map.mp (SortedMap.nodup_of_sorted t.groups.keys_sorted)
  rw [snapshot, SortedMap.values, List.map_map]
  refine List.pairwise_map.mpr (hkeys.imp_of_mem ?_)
  intro p q hp hq hne heq
  exact hne (h.distinct p hp q hq heq)

/-- Whatever a file held, and whatever was pushed and deleted since. -/
theorem consistent_after {start : Table}
    (hs : start = .empty ∨ ∃ c groups, Snapshot.Contents.load c = .ok groups ∧
      ofGroups? groups = some start) (changes : List Change) :
    (start.after changes).Consistent ∧
      (start = .empty → ((start.after changes).snapshot.map Group.pushSeq).Nodup ∧
        ∀ g ∈ (start.after changes).snapshot, g.pushSeq < (start.after changes).nextSeq) := by
  have hstart : start.Keyed ∧ ∀ g ∈ start.snapshot, g.Valid := by
    rcases hs with rfl | ⟨c, groups, hload, hgroups⟩
    · exact ⟨keyed_empty, valid_empty⟩
    · exact ⟨keyed_ofGroups hgroups, fun g hg =>
        Snapshot.Contents.valid_of_load hload g (mem_snapshot_ofGroups hgroups hg)⟩
  refine ⟨(hstart.1.after changes).consistent (valid_after hstart.2 changes), ?_⟩
  rintro rfl
  have hnumbered : (empty.after changes).Numbered := numbered_empty.after changes
  exact ⟨hnumbered.pushSeq_nodup, List.forall_mem_map.mpr hnumbered.below⟩

/-- Two rows of one key, neither named by it, and in the later one a family under another name. -/
theorem consistent_after_edited_rows :
    let x : GroupingKey := ⟨.ofList [("job", "x")], by decide, by decide⟩
    let y : GroupingKey := ⟨.ofList [("job", "y")], by decide, by decide⟩
    let down : Family := ⟨"down", "", .gauge, []⟩
    let owned : Family := ⟨"up", "", .gauge, [⟨.ofList [("job", "z")], .gauge .zero, none⟩]⟩
    let c : Snapshot.Contents := ⟨some 1, .ofList [("a", (Json.ofGroup ⟨x, .empty, 1, 7⟩).render),
      ("b", (Json.ofGroup ⟨x, .ofList [("up", down)], 2, 3⟩).render)]⟩
    let loaded : List Group := [⟨x, .empty, 1, 7⟩, ⟨x, .ofList [("down", down)], 2, 3⟩]
    let start : Table := ⟨.ofList [(x, ⟨x, .ofList [("down", down)], 2, 3⟩)], 8⟩
    let changes : List Change := [.push ⟨y, [down], 4⟩, .push ⟨y, [owned], 5⟩, .delete x]
    c.load = .ok loaded ∧ ofGroups? loaded = some start ∧ (start.after changes).Consistent ∧
      empty.accepted changes = 1 ∧ ((empty.after changes).snapshot.map Group.pushSeq).Nodup ∧
      ∀ g ∈ (empty.after changes).snapshot, g.pushSeq < (empty.after changes).nextSeq := by
  intro x y down owned c loaded start changes
  have hload : c.load = .ok loaded := by decide +kernel
  have hstart : ofGroups? loaded = some start := by decide +kernel
  have hone : empty.accepted changes = 1 := by decide +kernel
  have hloaded := consistent_after (.inr ⟨c, loaded, hload, hstart⟩) changes
  have hempty := consistent_after (.inl rfl) changes
  obtain ⟨hdistinct, hbelow⟩ := hempty.2 rfl
  exact ⟨hload, hstart, hloaded.1, hone, hdistinct, hbelow⟩

end Table

end PushGateway
