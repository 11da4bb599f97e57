import Mathlib.Algebra.Group.Nat.Defs
import PushGateway.Proofs.GroupValidity
import PushGateway.Table

/-! The numbers of pushes. Every number but the highest has a next one, so a table is made of
exactly those groups that leave the highest number free, and it goes on with the least number above
theirs. -/

namespace PushGateway.Table

section Successors

variable {n m : UInt64}

lemma toNat_succ (h : n.toNat + 1 < 2 ^ 64) : (n + 1).toNat = n.toNat + 1 := by
  rw [UInt64.toNat_add]
  exact Nat.mod_eq_of_lt h

lemma succ?_eq_some (h : n.toNat + 1 < 2 ^ 64) : succ? n = some (n + 1) := if_pos h

lemma succ?_eq_none (h : ¬n.toNat + 1 < 2 ^ 64) : succ? n = none := if_neg h

end Successors

section Restored

variable {groups : List Group} {n k bound : UInt64} {t : Table}

lemma raise?_eq_some {g : Group} (h : g.pushSeq.toNat + 1 < 2 ^ 64) :
    raise? n g = some (max n (g.pushSeq + 1)) := by
  rw [raise?, succ?_eq_some h]
  rfl

lemma toNat_max (n m : UInt64) : (max n m).toNat = max n.toNat m.toNat := by
  have hmax : max n m = if n ≤ m then m else n := rfl
  rw [hmax]
  split_ifs with h
  · exact (Nat.max_eq_right (UInt64.le_iff_toNat_le.mp h)).symm
  · exact (Nat.max_eq_left (Nat.le_of_not_le fun hle => h (UInt64.le_iff_toNat_le.mpr hle))).symm

lemma exists_foldlM_raise?_iff (k : UInt64) : (∃ n, groups.foldlM raise? k = some n) ↔
    ∀ g ∈ groups, g.pushSeq.toNat + 1 < 2 ^ 64 := by
  induction groups generalizing k with
  | nil => simp
  | cons g groups ih =>
    rw [List.foldlM_cons, List.forall_mem_cons]
    by_cases hg : g.pushSeq.toNat + 1 < 2 ^ 64
    · rw [raise?_eq_some hg, and_iff_right hg]
      exact ih _
    · have hnone : raise? k g = none := by rw [raise?, succ?_eq_none hg]; rfl
      rw [hnone]
      exact ⟨fun ⟨_, hn⟩ => (nomatch hn), fun hall => absurd hall.1 hg⟩

/-- The number is the least that is above all of those given and not below the first. -/
lemma foldlM_raise?_bounds (h : groups.foldlM raise? k = some n) :
    k.toNat ≤ n.toNat ∧ (∀ g ∈ groups, g.pushSeq.toNat < n.toNat) ∧
      ∀ bound, k.toNat ≤ bound → (∀ g ∈ groups, g.pushSeq.toNat < bound) → n.toNat ≤ bound := by
  induction groups generalizing k with
  | nil =>
    obtain rfl : k = n := Option.some.inj h
    exact ⟨Nat.le_refl _, List.forall_mem_nil _, fun _ hk _ => hk⟩
  | cons g groups ih =>
    have hg : g.pushSeq.toNat + 1 < 2 ^ 64 :=
      (exists_foldlM_raise?_iff k).mp ⟨n, h⟩ g List.mem_cons_self
    rw [List.foldlM_cons, raise?_eq_some hg] at h
    obtain ⟨hle, hlt, hleast⟩ := ih h
    rw [toNat_max, toNat_succ hg] at hle hleast
    refine ⟨by omega, List.forall_mem_cons.mpr ⟨by omega, hlt⟩, fun bound hk hb => ?_⟩
    obtain ⟨hfirst, hrest⟩ := List.forall_mem_cons.mp hb
    exact hleast bound (by omega) hrest

lemma ofGroups?_eq_some_iff :
    ofGroups? groups = some t ↔
      nextSeqAfter? groups = some t.nextSeq ∧ t.groups = byKey groups := by
  rw [ofGroups?, Option.map_eq_some_iff]
  constructor
  · rintro ⟨n, hn, rfl⟩
    exact ⟨hn, rfl⟩
  · rintro ⟨hn, hg⟩
    exact ⟨t.nextSeq, hn, by rw [← hg]⟩

lemma exists_ofGroups?_iff :
    (∃ t, ofGroups? groups = some t) ↔ ∀ g ∈ groups, g.pushSeq.toNat + 1 < 2 ^ 64 := by
  rw [← exists_foldlM_raise?_iff 0, ofGroups?]
  simp only [Option.map_eq_some_iff]
  constructor
  · rintro ⟨t, n, hn, -⟩
    exact ⟨n, hn⟩
  · rintro ⟨n, hn⟩
    exact ⟨_, n, hn, rfl⟩

/-- Numbers go on above all restored ones, and not higher than they have to. -/
lemma nextSeq_of_ofGroups? (h : ofGroups? groups = some t) :
    (∀ g ∈ groups, g.pushSeq < t.nextSeq) ∧
      ∀ bound : Nat, (∀ g ∈ groups, g.pushSeq.toNat < bound) → t.nextSeq.toNat ≤ bound := by
  have hnext : groups.foldlM raise? 0 = some t.nextSeq := (ofGroups?_eq_some_iff.mp h).1
  obtain ⟨-, hlt, hleast⟩ := foldlM_raise?_bounds hnext
  exact ⟨fun g hg => UInt64.lt_iff_toNat_lt.mpr (hlt g hg),
    fun bound => hleast bound (Nat.zero_le _)⟩

end Restored

end PushGateway.Table
