import Mathlib.Data.List.Sort
import PushGateway.SortedMap

/-! A sorted map is known by what each key leads to, and one that is made of a list with distinct
keys holds exactly the entries of the list. -/

namespace PushGateway.SortedMap

variable {α β : Type} [Ordered α]

lemma lookup_eq_some_iff {k : α} {v : β} {l : List (α × β)}
    (h : l.Pairwise fun p q => before p.1 q.1 = true) : lookup k l = some v ↔ (k, v) ∈ l := by
  induction l with
  | nil => simp [lookup]
  | cons p l ih =>
    obtain ⟨j, w⟩ := p
    obtain ⟨hj, hl⟩ := List.pairwise_cons.mp h
    simp only [lookup, List.mem_cons, Prod.mk.injEq]
    by_cases hjk : before j k = true
    · rw [if_pos hjk, ih hl]
      have hne : k ≠ j := (ne_of_before hjk).symm
      simp [hne]
    · rw [if_neg hjk]
      by_cases hkj : before k j = true
      · rw [if_pos hkj]
        have hnot : (k, v) ∉ l := fun hm =>
          absurd (before_trans _ _ _ (hj _ hm) hkj) (by simp [before_irrefl])
        simp [ne_of_before hkj, hnot]
      · rw [if_neg hkj]
        obtain rfl := eq_of_not_before k j (by simpa using hkj) (by simpa using hjk)
        have hnot : (k, v) ∉ l := fun hm => absurd (hj _ hm) (by simp [before_irrefl])
        simp [hnot, eq_comm]

lemma get?_eq_some_iff {m : SortedMap α β} {k : α} {v : β} :
    m.get? k = some v ↔ (k, v) ∈ m.entries :=
  lookup_eq_some_iff m.sorted

lemma get?_eq_none_iff {m : SortedMap α β} {k : α} : m.get? k = none ↔ k ∉ m.keys := by
  rw [← not_iff_not, ← ne_eq, Option.ne_none_iff_exists']
  simp [get?_eq_some_iff, keys]

lemma contains_eq_true_iff {m : SortedMap α β} {k : α} : m.contains k = true ↔ k ∈ m.keys := by
  rw [contains, Option.isSome_iff_ne_none, ne_eq, get?_eq_none_iff, not_not]

lemma mem_values_iff {m : SortedMap α β} {v : β} : v ∈ m.values ↔ ∃ k, m.get? k = some v := by
  simp [values, get?_eq_some_iff]

lemma keys_sorted (m : SortedMap α β) : m.keys.Pairwise fun j k => before j k = true :=
  List.pairwise_map.mpr m.sorted

lemma nodup_of_sorted {l : List α} (h : l.Pairwise fun j k => before j k = true) : l.Nodup :=
  h.imp ne_of_before

lemma entries_nodup (m : SortedMap α β) : m.entries.Nodup :=
  List.Pairwise.of_map Prod.fst (fun _ _ hne h => hne (congrArg Prod.fst h))
    (nodup_of_sorted m.keys_sorted)

lemma eq_of_perm {l l' : List (α × β)} (h : l.Perm l')
    (hl : l.Pairwise fun p q => before p.1 q.1 = true)
    (hl' : l'.Pairwise fun p q => before p.1 q.1 = true) : l = l' :=
  List.Perm.eq_of_pairwise
    (fun _ _ _ _ hab hba => absurd hba (by simp [before_asymm hab])) hl hl' h

lemma ext_get? {m n : SortedMap α β} (h : ∀ k, m.get? k = n.get? k) : m = n := by
  apply SortedMap.ext
  refine eq_of_perm ?_ m.sorted n.sorted
  rw [List.perm_ext_iff_of_nodup m.entries_nodup n.entries_nodup]
  rintro ⟨k, v⟩
  rw [← get?_eq_some_iff, ← get?_eq_some_iff, h]

/-- A map that leads each key where another one does holds its entries in their order. -/
lemma entries_sublist {m n : SortedMap α β} (h : ∀ k v, m.get? k = some v → n.get? k = some v) :
    m.entries.Sublist n.entries := by
  have : Std.Antisymm fun p q : α × β => before p.1 q.1 = true :=
    ⟨fun _ _ hpq hqp => absurd hqp (by simp [before_asymm hpq])⟩
  refine List.sublist_of_subperm_of_pairwise (List.subperm_of_subset m.entries_nodup ?_)
    m.sorted n.sorted
  rintro ⟨k, v⟩ hp
  exact get?_eq_some_iff.mp (h k v (get?_eq_some_iff.mpr hp))

lemma get?_insert (m : SortedMap α β) (k j : α) (v : β) [DecidableEq α] :
    (m.insert k v).get? j = if j = k then some v else m.get? j := by
  by_cases h : j = k
  · rw [if_pos h, h, get?_insert_self]
  · rw [if_neg h, get?_insert_of_ne m v h]

lemma get?_erase_eq_some_iff {m : SortedMap α β} {k j : α} {v : β} :
    (m.erase k).get? j = some v ↔ j ≠ k ∧ m.get? j = some v := by
  by_cases h : j = k
  · rw [h, get?_erase_self]
    simp
  · rw [get?_erase_of_ne m h, and_iff_right h]

/-- A value is that of the key, or it stays when the key is removed. -/
lemma mem_values_erase {m n : SortedMap α β} {k : α} {v w : β} (hk : n.get? k = some v)
    (h : ∀ j, j ≠ k → n.get? j = m.get? j) (hw : w ∈ n.values) :
    w = v ∨ w ∈ (m.erase k).values := by
  obtain ⟨j, hj⟩ := mem_values_iff.mp hw
  by_cases hjk : j = k
  · exact .inl (Option.some.inj ((hjk ▸ hj).symm.trans hk))
  · exact .inr (mem_values_iff.mpr ⟨j, get?_erase_eq_some_iff.mpr ⟨hjk, (h j hjk).symm.trans hj⟩⟩)

lemma entries_sublist_insert {m : SortedMap α β} {k : α} (v : β) (h : m.get? k = none) :
    m.entries.Sublist (m.insert k v).entries := by
  refine entries_sublist fun j w hw => ?_
  have hne : j ≠ k := by
    rintro rfl
    cases h.symm.trans hw
  rw [get?_insert_of_ne _ _ hne]
  exact hw

lemma mem_insert_iff {m : SortedMap α β} {k : α} {v : β} {p : α × β} :
    p ∈ (m.insert k v).entries ↔ p = (k, v) ∨ p.1 ≠ k ∧ p ∈ m.entries := by
  obtain ⟨j, w⟩ := p
  rw [← get?_eq_some_iff, ← get?_eq_some_iff, Prod.mk.injEq]
  by_cases h : j = k
  · subst h
    rw [get?_insert_self, Option.some.injEq]
    simp [eq_comm]
  · rw [get?_insert_of_ne m v h]
    simp [h]

lemma insert_perm {m : SortedMap α β} {k : α} {v : β} (h : m.get? k = none) :
    (m.insert k v).entries.Perm ((k, v) :: m.entries) := by
  obtain ⟨l, hl⟩ := m
  change (insertEntry k v l).Perm ((k, v) :: l)
  change lookup k l = none at h
  clear hl
  fun_induction insertEntry k v l with
  | case1 => exact .refl _
  | case2 => exact .refl _
  | case3 j w l _ hj ih =>
    simp only [lookup, hj, if_true] at h
    exact ((ih h).cons _).trans (.swap ..)
  | case4 j w l hk hj => simp [lookup, hk, hj] at h

lemma erase_eq_self {m : SortedMap α β} {k : α} (h : m.get? k = none) : m.erase k = m := by
  apply ext_get?
  intro j
  by_cases hj : j = k
  · rw [hj, get?_erase_self, h]
  · rw [get?_erase_of_ne m hj]

lemma foldl_insert_perm {l : List (α × β)} {m : SortedMap α β} (hl : (l.map Prod.fst).Nodup)
    (hm : ∀ p ∈ l, m.get? p.1 = none) :
    (l.foldl (fun m p => m.insert p.1 p.2) m).entries.Perm (l ++ m.entries) := by
  induction l generalizing m with
  | nil => exact .refl _
  | cons p l ih =>
    rw [List.map_cons] at hl
    obtain ⟨hp, hl⟩ := List.nodup_cons.mp hl
    have hfree : ∀ q ∈ l, (m.insert p.1 p.2).get? q.1 = none := by
      intro q hq
      have hne : q.1 ≠ p.1 := fun he => hp (he ▸ List.mem_map_of_mem hq)
      rw [get?_insert_of_ne m p.2 hne]
      exact hm q (List.mem_cons_of_mem _ hq)
    refine (ih hl hfree).trans ?_
    exact ((insert_perm (hm p List.mem_cons_self)).append_left l).trans List.perm_middle

lemma ofList_perm {l : List (α × β)} (h : (l.map Prod.fst).Nodup) : (ofList l).entries.Perm l := by
  have hp := foldl_insert_perm (m := empty) h (fun _ _ => rfl)
  simpa [ofList, empty] using hp

lemma get?_ofList {l : List (α × β)} (h : (l.map Prod.fst).Nodup) {k : α} {v : β} :
    (ofList l).get? k = some v ↔ (k, v) ∈ l := by
  rw [get?_eq_some_iff, (ofList_perm h).mem_iff]

lemma ofList_congr {l l' : List (α × β)} (hp : l.Perm l') (h : (l.map Prod.fst).Nodup) :
    ofList l = ofList l' := by
  have h' : (l'.map Prod.fst).Nodup := (hp.map Prod.fst).nodup_iff.mp h
  apply SortedMap.ext
  exact eq_of_perm (((ofList_perm h).trans hp).trans (ofList_perm h').symm)
    (ofList l).sorted (ofList l').sorted

lemma entries_ofList {l : List (α × β)} (h : l.Pairwise fun p q => before p.1 q.1 = true) :
    (ofList l).entries = l :=
  eq_of_perm (ofList_perm (nodup_of_sorted (List.pairwise_map.mpr h))) (ofList l).sorted h

lemma ofList_entries (m : SortedMap α β) : ofList m.entries = m :=
  SortedMap.ext (entries_ofList m.sorted)

lemma ofList_map (f : β → β) {l : List (α × β)} (h : (l.map Prod.fst).Nodup) :
    ofList (l.map fun p => (p.1, f p.2)) = (ofList l).mapValues f := by
  apply SortedMap.ext
  have h' : ((l.map fun p => (p.1, f p.2)).map Prod.fst).Nodup := by
    simpa [Function.comp_def] using h
  refine eq_of_perm ((ofList_perm h').trans ?_) (SortedMap.sorted _) (SortedMap.sorted _)
  exact ((ofList_perm h).map fun p => (p.1, f p.2)).symm

lemma mem_keys_insert {m : SortedMap α β} {k j : α} {v : β} :
    j ∈ (m.insert k v).keys ↔ j = k ∨ j ∈ m.keys := by
  rw [← contains_eq_true_iff, ← contains_eq_true_iff, contains, contains]
  by_cases h : j = k
  · simp [h, get?_insert_self]
  · simp [h, get?_insert_of_ne m v h]

lemma mem_keys_foldl_insert {l : List (α × β)} {m : SortedMap α β} {k : α} :
    k ∈ (l.foldl (fun m p => m.insert p.1 p.2) m).keys ↔ k ∈ l.map Prod.fst ∨ k ∈ m.keys := by
  induction l generalizing m with
  | nil => simp
  | cons p l ih => rw [List.foldl_cons, ih, mem_keys_insert, List.map_cons, List.mem_cons,
      or_left_comm, or_assoc]

/-- Each name of the list leads somewhere, also where it comes more than once. -/
lemma mem_keys_ofList {l : List (α × β)} {k : α} : k ∈ (ofList l).keys ↔ k ∈ l.map Prod.fst := by
  rw [ofList, mem_keys_foldl_insert]
  simp [keys, empty]

lemma get?_eq_find? (m : SortedMap α β) (k : α) [DecidableEq α] :
    m.get? k = (m.entries.find? fun p => p.1 == k).map Prod.snd := by
  cases hf : m.entries.find? fun p => p.1 == k with
  | none =>
    rw [Option.map_none, get?_eq_none_iff]
    intro hk
    obtain ⟨p, hp, rfl⟩ := List.mem_map.mp hk
    simpa using List.find?_eq_none.mp hf p hp
  | some p =>
    have hp := List.mem_of_find?_eq_some hf
    have hk : p.1 = k := by simpa using List.find?_some hf
    exact get?_eq_some_iff.mpr (hk ▸ hp)

lemma get?_foldl_insert [DecidableEq α] {l : List (α × β)} (h : (l.map Prod.fst).Nodup)
    (m : SortedMap α β) (k : α) : (l.foldl (fun m p => m.insert p.1 p.2) m).get? k
      = ((l.find? fun p => p.1 == k).map Prod.snd).or (m.get? k) := by
  induction l generalizing m with
  | nil => rfl
  | cons p l ih =>
    obtain ⟨hp, hl⟩ := List.nodup_cons.mp h
    rw [List.foldl_cons, ih hl, get?_insert]
    by_cases hk : p.1 = k
    · have hnone : l.find? (fun q => q.1 == k) = none := by
        refine List.find?_eq_none.mpr fun q hq he => hp ?_
        exact List.mem_map.mpr ⟨q, hq, by rw [hk]; simpa using he⟩
      simp [hnone, hk]
    · simp [hk, Ne.symm hk]

@[simp] lemma values_mapValues (m : SortedMap α β) (f : β → β) :
    (m.mapValues f).values = m.values.map f := by
  simp [values, mapValues, Function.comp_def]

section MapEntries

variable {γ : Type}

def mapEntries (m : SortedMap α β) (f : α → β → γ) : SortedMap α γ :=
  ⟨m.entries.map fun p => (p.1, f p.1 p.2), List.pairwise_map.mpr m.sorted⟩

@[simp] lemma get?_mapEntries (m : SortedMap α β) (f : α → β → γ) (k : α) :
    (m.mapEntries f).get? k = (m.get? k).map (f k) := by
  ext v
  rw [get?_eq_some_iff, Option.map_eq_some_iff]
  simp only [mapEntries, List.mem_map, Prod.mk.injEq]
  constructor
  · rintro ⟨⟨j, w⟩, hp, rfl, rfl⟩
    exact ⟨w, get?_eq_some_iff.mpr hp, rfl⟩
  · rintro ⟨w, hw, rfl⟩
    exact ⟨(k, w), get?_eq_some_iff.mp hw, rfl, rfl⟩

lemma mapEntries_insert (m : SortedMap α β) (f : α → β → γ) (k : α) (v : β) :
    (m.insert k v).mapEntries f = (m.mapEntries f).insert k (f k v) := by
  apply ext_get?
  intro j
  by_cases hj : j = k
  · subst hj
    rw [get?_mapEntries, get?_insert_self, get?_insert_self, Option.map_some]
  · rw [get?_mapEntries, get?_insert_of_ne m v hj, get?_insert_of_ne _ _ hj, get?_mapEntries]

lemma mapEntries_erase (m : SortedMap α β) (f : α → β → γ) (k : α) :
    (m.erase k).mapEntries f = (m.mapEntries f).erase k := by
  apply ext_get?
  intro j
  by_cases hj : j = k
  · subst hj
    rw [get?_mapEntries, get?_erase_self, get?_erase_self, Option.map_none]
  · rw [get?_mapEntries, get?_erase_of_ne m hj, get?_erase_of_ne _ hj, get?_mapEntries]

lemma contains_mapEntries (m : SortedMap α β) (f : α → β → γ) (k : α) :
    (m.mapEntries f).contains k = m.contains k := by
  rw [contains, contains, get?_mapEntries, Option.isSome_map]

end MapEntries

end PushGateway.SortedMap
