import PushGateway.Merge
import PushGateway.Proofs.GroupValidity

/-! The order of the pushes. It is strict and total on groups of distinct keys, so what is found
first in the ranked groups belongs to the lowest of those that have it. -/

namespace PushGateway.Merge

section Order

variable {g h i : Group}

lemma ranksBefore_iff : ranksBefore g h = true ↔
    g.pushSeq < h.pushSeq ∨ g.pushSeq = h.pushSeq ∧ before g.key h.key = true := by
  simp [ranksBefore]

lemma ranksBefore_irrefl (g : Group) : ranksBefore g g = false := by
  rw [← Bool.not_eq_true, ranksBefore_iff]
  rintro (hlt | ⟨-, hb⟩)
  · exact absurd hlt (UInt64.lt_irrefl _)
  · simp [before_irrefl] at hb

lemma ranksBefore_trans (hgh : ranksBefore g h = true) (hhi : ranksBefore h i = true) :
    ranksBefore g i = true := by
  rw [ranksBefore_iff] at *
  rcases hgh with hgh | ⟨hgh, hb⟩
  · rcases hhi with hhi | ⟨hhi, -⟩
    · exact .inl (UInt64.lt_trans hgh hhi)
    · exact .inl (hhi ▸ hgh)
  · rcases hhi with hhi | ⟨hhi, hb'⟩
    · exact .inl (hgh ▸ hhi)
    · exact .inr ⟨hgh.trans hhi, before_trans _ _ _ hb hb'⟩

lemma ranksBefore_asymm (hgh : ranksBefore g h = true) : ranksBefore h g = false := by
  rw [← Bool.not_eq_true]
  intro hhg
  have hgg := ranksBefore_trans hgh hhg
  simp [ranksBefore_irrefl] at hgg

lemma ranksBefore_total (hne : g.key ≠ h.key) :
    ranksBefore g h = true ∨ ranksBefore h g = true := by
  rw [ranksBefore_iff, ranksBefore_iff]
  by_cases hlt : g.pushSeq < h.pushSeq
  · exact .inl (.inl hlt)
  · by_cases hgt : h.pushSeq < g.pushSeq
    · exact .inr (.inl hgt)
    · have heq : g.pushSeq = h.pushSeq :=
        UInt64.le_antisymm (UInt64.not_lt.mp hgt) (UInt64.not_lt.mp hlt)
      cases hb : before g.key h.key with
      | true => exact .inl (.inr ⟨heq, rfl⟩)
      | false =>
        refine .inr (.inr ⟨heq.symm, ?_⟩)
        rw [← Bool.not_eq_false]
        exact fun hb' => hne (eq_of_not_before _ _ hb hb')

/-- A group that ranks before another ranks before or after any third one. -/
lemma ranksBefore_split (i : Group) (hgh : ranksBefore g h = true) :
    ranksBefore g i = true ∨ ranksBefore i h = true := by
  by_cases hi : g.key = i.key
  · rcases ranksBefore_iff.mp hgh with hlt | ⟨heq, hb⟩
    · by_cases hs : g.pushSeq < i.pushSeq
      · exact .inl (ranksBefore_iff.mpr (.inl hs))
      · refine .inr (ranksBefore_iff.mpr (.inl ?_))
        exact UInt64.lt_of_le_of_lt (UInt64.not_lt.mp hs) hlt
    · by_cases hs : g.pushSeq < i.pushSeq
      · exact .inl (ranksBefore_iff.mpr (.inl hs))
      · refine .inr (ranksBefore_iff.mpr ?_)
        rcases UInt64.le_iff_lt_or_eq.mp (UInt64.not_lt.mp hs) with hlt | heq'
        · exact .inl (heq ▸ hlt)
        · exact .inr ⟨heq'.trans heq, hi ▸ hb⟩
  · rcases ranksBefore_total hi with hgi | hig
    · exact .inl hgi
    · exact .inr (ranksBefore_trans hig hgh)

end Order

lemma ranked_perm (groups : List Group) : (ranked groups).Perm groups :=
  List.mergeSort_perm groups _

lemma ranked_sorted {groups : List Group} (hk : (groups.map Group.key).Nodup) :
    (ranked groups).Pairwise fun g h => ranksBefore g h = true := by
  have hsorted : (ranked groups).Pairwise fun g h => (!ranksBefore h g) = true := by
    apply List.pairwise_mergeSort
    · intro g h i hgh hhi
      rw [Bool.not_eq_true', ← Bool.not_eq_true] at *
      intro hig
      exact (ranksBefore_split h hig).elim hhi hgh
    · intro g h
      cases hgh : ranksBefore g h with
      | false => simp
      | true => simp [ranksBefore_asymm hgh]
  have hkeys : (ranked groups).Pairwise fun g h => g.key ≠ h.key :=
    List.pairwise_map.mp (((ranked_perm groups).map Group.key).nodup_iff.mpr hk)
  refine (hsorted.and hkeys).imp ?_
  intro g h hgh
  rw [Bool.not_eq_true'] at hgh
  exact (ranksBefore_total hgh.2).resolve_right (by simp [hgh.1])

lemma ranked_eq_of_sorted {groups sorted : List Group} (hk : (groups.map Group.key).Nodup)
    (hp : sorted.Perm groups) (hs : sorted.Pairwise fun g h => ranksBefore g h = true) :
    ranked groups = sorted :=
  List.Perm.eq_of_pairwise (fun _ _ _ _ hgh hhg => absurd hhg (by simp [ranksBefore_asymm hgh]))
    (ranked_sorted hk) hs ((ranked_perm groups).trans hp.symm)

/-- A search in the order of the ranks finds what the lowest group gives that gives anything. -/
lemma findSome?_ranked {A : Type} {groups : List Group} (hk : (groups.map Group.key).Nodup)
    {f : Group → Option A} {a : A} : (ranked groups).findSome? f = some a ↔
      ∃ g ∈ groups, f g = some a ∧
        ∀ h ∈ groups, (f h).isSome = true → h = g ∨ ranksBefore g h = true := by
  have hsorted := ranked_sorted hk
  have hmem (g : Group) : g ∈ ranked groups ↔ g ∈ groups := (ranked_perm groups).mem_iff
  constructor
  · intro hfind
    obtain ⟨before, g, after, hr, hg, hnone⟩ := List.findSome?_eq_some_iff.mp hfind
    rw [hr] at hsorted hmem
    refine ⟨g, (hmem g).mp (by simp), hg, fun h hh hs => ?_⟩
    rcases List.mem_append.mp ((hmem h).mpr hh) with hbefore | hafter
    · rw [hnone h hbefore] at hs
      cases hs
    · rcases List.mem_cons.mp hafter with rfl | hafter
      · exact .inl rfl
      · exact .inr ((List.pairwise_cons.mp (List.pairwise_append.mp hsorted).2.1).1 h hafter)
  · rintro ⟨g, hg, ha, hlow⟩
    obtain ⟨before, after, hr⟩ := List.append_of_mem ((hmem g).mpr hg)
    refine List.findSome?_eq_some_iff.mpr ⟨before, g, after, hr, ha, fun h hh => ?_⟩
    rw [hr] at hsorted hmem
    have hhg : ranksBefore h g = true :=
      (List.pairwise_append.mp hsorted).2.2 h hh g List.mem_cons_self
    rw [← Option.not_isSome_iff_eq_none]
    intro hs
    rcases hlow h ((hmem h).mp (List.mem_append_left _ hh)) hs with rfl | hgh
    · simp [ranksBefore_irrefl] at hhg
    · simp [ranksBefore_asymm hgh] at hhg

end PushGateway.Merge
