import PushGateway.Proofs.SequenceNumbers

/-! A table keeps each group under the key of the group, so a snapshot never has a key twice. -/

namespace PushGateway.Table

def Keyed (t : Table) : Prop := ∀ p ∈ t.groups.entries, p.2.key = p.1

lemma Keyed.snapshot_keys {t : Table} (h : t.Keyed) : t.snapshot.map Group.key = t.groups.keys := by
  rw [snapshot, SortedMap.values, List.map_map]
  exact List.map_congr_left h

lemma Keyed.keys_nodup {t : Table} (h : t.Keyed) : (t.snapshot.map Group.key).Nodup := by
  rw [h.snapshot_keys]
  exact SortedMap.nodup_of_sorted t.groups.keys_sorted

lemma keyed_empty : empty.Keyed := by
  intro p hp
  cases hp

lemma key_of_mem_byKey {groups : List Group} {p : GroupingKey × Group}
    (hp : p ∈ (byKey groups).entries) : p.2.key = p.1 := by
  obtain ⟨g, -, rfl⟩ := List.mem_map.mp (SortedMap.mem_ofList hp)
  rfl

lemma keyed_ofGroups {groups : List Group} {t : Table} (h : ofGroups? groups = some t) :
    t.Keyed := by
  intro p hp
  rw [(ofGroups?_eq_some_iff.mp h).2] at hp
  exact key_of_mem_byKey hp

lemma mem_snapshot_ofGroups {groups : List Group} {t : Table} {g : Group}
    (h : ofGroups? groups = some t) (hg : g ∈ t.snapshot) : g ∈ groups := by
  rw [snapshot, (ofGroups?_eq_some_iff.mp h).2] at hg
  obtain ⟨p, hp, rfl⟩ := List.mem_map.mp hg
  obtain ⟨i, hi, rfl⟩ := List.mem_map.mp (SortedMap.mem_ofList hp)
  exact hi

section Push

variable (t : Table) (key : GroupingKey) (fs : List Family) (now : UInt64)

/-- All that a push can do. -/
lemma push_eq : t.push key fs now = match Group.build key fs now t.nextSeq with
    | .error e => .error (.invalid e)
    | .ok g => if t.nextSeq.toNat + 1 < 2 ^ 64
        then .ok (⟨t.groups.insert key g, t.nextSeq + 1⟩, t.groups.contains key)
        else .error .overflow := by
  rw [push]
  cases Group.build key fs now t.nextSeq with
  | error e => rfl
  | ok g =>
    by_cases h : t.nextSeq.toNat + 1 < 2 ^ 64
    · dsimp only
      rw [if_pos h, succ?_eq_some h]
      rfl
    · dsimp only
      rw [if_neg h, succ?_eq_none h]
      rfl

variable {t key fs now} {t' : Table} {replaced : Bool}

lemma push_eq_ok_iff : t.push key fs now = .ok (t', replaced) ↔
    ∃ g, Group.build key fs now t.nextSeq = .ok g ∧ t.nextSeq.toNat + 1 < 2 ^ 64 ∧
      t' = ⟨t.groups.insert key g, t.nextSeq + 1⟩ ∧ replaced = t.groups.contains key := by
  rw [push_eq]
  cases Group.build key fs now t.nextSeq with
  | error e => simp
  | ok g =>
    dsimp only
    by_cases h : t.nextSeq.toNat + 1 < 2 ^ 64
    · rw [if_pos h]
      constructor
      · intro heq
        obtain ⟨rfl, rfl⟩ := Prod.mk.inj (Except.ok.inj heq)
        exact ⟨g, rfl, h, rfl, rfl⟩
      · rintro ⟨_, hg, -, rfl, rfl⟩
        cases hg
        rfl
    · rw [if_neg h]
      exact ⟨fun heq => (nomatch heq), fun ⟨_, _, hlt, _⟩ => absurd hlt h⟩

end Push

lemma Keyed.push {t t' : Table} (h : t.Keyed) {key : GroupingKey} {fs : List Family} {now : UInt64}
    {replaced : Bool} (hp : t.push key fs now = .ok (t', replaced)) : t'.Keyed := by
  obtain ⟨g, hg, -, rfl, -⟩ := push_eq_ok_iff.mp hp
  intro p hm
  rcases SortedMap.mem_insertEntry hm with rfl | hm
  · exact Group.key_of_build hg
  · exact h p hm

lemma Keyed.delete {t : Table} (h : t.Keyed) (key : GroupingKey) : (t.delete key).1.Keyed :=
  fun p hm => h p (SortedMap.mem_of_mem_eraseEntry hm)

/-- Each group is kept under its key, and is one that a push could have built. -/
structure Built (t : Table) : Prop where
  keyed : t.Keyed
  valid : ∀ g ∈ t.snapshot, g.Valid

lemma built_ofGroups {groups : List Group} {t : Table} (h : ofGroups? groups = some t)
    (hv : ∀ g ∈ groups, g.Valid) : t.Built :=
  ⟨keyed_ofGroups h, fun g hg => hv g (mem_snapshot_ofGroups h hg)⟩

lemma Built.push {t t' : Table} (h : t.Built) {key : GroupingKey} {fs : List Family} {now : UInt64}
    {replaced : Bool} (hp : t.push key fs now = .ok (t', replaced)) : t'.Built := by
  refine ⟨h.keyed.push hp, fun g hg => ?_⟩
  obtain ⟨new, hnew, -, rfl, -⟩ := push_eq_ok_iff.mp hp
  obtain ⟨p, hm, rfl⟩ := List.mem_map.mp hg
  rcases SortedMap.mem_insertEntry hm with rfl | hm
  · exact Group.valid_of_build hnew
  · exact h.valid p.2 (List.mem_map_of_mem hm)

lemma Built.delete {t : Table} (h : t.Built) (key : GroupingKey) : (t.delete key).1.Built := by
  refine ⟨h.keyed.delete key, fun g hg => ?_⟩
  obtain ⟨p, hm, rfl⟩ := List.mem_map.mp hg
  exact h.valid p.2 (List.mem_map_of_mem (SortedMap.mem_of_mem_eraseEntry hm))

lemma delete_absent {t : Table} {key : GroupingKey} (h : (t.delete key).2 = false) :
    (t.delete key).1 = t := by
  have hn : t.groups.get? key = none := by
    simpa [Table.delete, SortedMap.contains] using h
  simp only [Table.delete, SortedMap.erase_eq_self hn]

end PushGateway.Table
