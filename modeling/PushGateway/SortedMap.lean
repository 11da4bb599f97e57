import PushGateway.Ordered

/-!
Finite maps kept as lists of entries in strictly ascending key order, so that two maps are equal
exactly when they hold the same entries. Each operation is described through `get?`.
-/

namespace PushGateway

structure SortedMap (α β : Type) [Ordered α] where
  entries : List (α × β)
  sorted : entries.Pairwise fun p q => before p.1 q.1 = true
  deriving DecidableEq

namespace SortedMap

variable {α β γ : Type} [Ordered α]

@[ext] theorem ext {m n : SortedMap α β} (h : m.entries = n.entries) : m = n := by
  cases m
  cases n
  cases h
  rfl

def empty : SortedMap α β := ⟨[], .nil⟩

instance : Inhabited (SortedMap α β) := ⟨empty⟩

def lookup (k : α) : List (α × β) → Option β
  | [] => none
  | (j, v) :: l => if before j k then lookup k l else if before k j then none else some v

def insertEntry (k : α) (v : β) : List (α × β) → List (α × β)
  | [] => [(k, v)]
  | (j, w) :: l =>
    if before k j then (k, v) :: (j, w) :: l
    else if before j k then (j, w) :: insertEntry k v l
    else (k, v) :: l

def eraseEntry (k : α) : List (α × β) → List (α × β)
  | [] => []
  | (j, w) :: l => if before j k then (j, w) :: eraseEntry k l
    else if before k j then (j, w) :: l else l

theorem mem_insertEntry {k : α} {v : β} {l : List (α × β)} {p : α × β}
    (h : p ∈ insertEntry k v l) : p = (k, v) ∨ p ∈ l := by
  fun_induction insertEntry k v l <;> grind

theorem mem_of_mem_eraseEntry {k : α} {l : List (α × β)} {p : α × β}
    (h : p ∈ eraseEntry k l) : p ∈ l := by
  fun_induction eraseEntry k l <;> grind

theorem pairwise_insertEntry {k : α} {v : β} {l : List (α × β)}
    (h : l.Pairwise fun p q => before p.1 q.1 = true) :
    (insertEntry k v l).Pairwise fun p q => before p.1 q.1 = true := by
  fun_induction insertEntry k v l with
  | case1 => simp
  | case2 j w l hk =>
    refine List.pairwise_cons.mpr ⟨?_, h⟩
    intro p hp
    rcases List.mem_cons.mp hp with rfl | hp
    · exact hk
    · exact before_trans _ _ _ hk ((List.pairwise_cons.mp h).1 p hp)
  | case3 j w l _ hj ih =>
    have h' := List.pairwise_cons.mp h
    refine List.pairwise_cons.mpr ⟨?_, ih h'.2⟩
    intro p hp
    rcases mem_insertEntry hp with rfl | hp
    · exact hj
    · exact h'.1 p hp
  | case4 j w l hk hj =>
    have h' := List.pairwise_cons.mp h
    have := eq_of_not_before k j (by simpa using hk) (by simpa using hj)
    subst this
    exact List.pairwise_cons.mpr h'

theorem pairwise_eraseEntry {k : α} {l : List (α × β)}
    (h : l.Pairwise fun p q => before p.1 q.1 = true) :
    (eraseEntry k l).Pairwise fun p q => before p.1 q.1 = true := by
  fun_induction eraseEntry k l with
  | case1 => exact h
  | case2 j w l _ ih =>
    have h' := List.pairwise_cons.mp h
    exact List.pairwise_cons.mpr ⟨fun p hp => h'.1 p (mem_of_mem_eraseEntry hp), ih h'.2⟩
  | case3 => exact h
  | case4 => exact (List.pairwise_cons.mp h).2

def get? (m : SortedMap α β) (k : α) : Option β := lookup k m.entries

def contains (m : SortedMap α β) (k : α) : Bool := (m.get? k).isSome

def insert (m : SortedMap α β) (k : α) (v : β) : SortedMap α β :=
  ⟨insertEntry k v m.entries, pairwise_insertEntry m.sorted⟩

def erase (m : SortedMap α β) (k : α) : SortedMap α β :=
  ⟨eraseEntry k m.entries, pairwise_eraseEntry m.sorted⟩

def mapValues (f : β → β) (m : SortedMap α β) : SortedMap α β :=
  ⟨m.entries.map fun p => (p.1, f p.2), List.pairwise_map.mpr m.sorted⟩

/-- Of several entries with one key the last stays. -/
def ofList (l : List (α × β)) : SortedMap α β := l.foldl (fun m p => m.insert p.1 p.2) empty

def keys (m : SortedMap α β) : List α := m.entries.map Prod.fst

def values (m : SortedMap α β) : List β := m.entries.map Prod.snd

def size (m : SortedMap α β) : Nat := m.entries.length

def isEmpty (m : SortedMap α β) : Bool := m.entries.isEmpty

theorem lookup_insertEntry {k j : α} {v : β} {l : List (α × β)} :
    lookup j (insertEntry k v l)
      = if before j k = false ∧ before k j = false then some v else lookup j l := by
  fun_induction insertEntry k v l with
  | case1 => simp only [lookup]; grind
  | case2 i w l hk =>
    simp only [lookup]
    have h₁ := before_trans k i j
    have h₂ := before_trans j k i
    grind
  | case3 i w l _ hi ih =>
    simp only [lookup, ih]
    have h₁ := before_trans i k j
    have h₂ := before_trans j i k
    have h₃ := eq_of_not_before k j
    grind
  | case4 i w l hk hi =>
    have := eq_of_not_before k i (by simpa using hk) (by simpa using hi)
    subst this
    simp only [lookup]
    grind

theorem lookup_eq_none_of_before {k : α} {l : List (α × β)} (h : ∀ p ∈ l, before k p.1 = true) :
    lookup k l = none := by
  cases l with
  | nil => rfl
  | cons p l =>
    have hp := h p (by simp)
    simp [lookup, before_asymm hp, hp]

theorem lookup_eraseEntry {k j : α} {l : List (α × β)}
    (h : l.Pairwise fun p q => before p.1 q.1 = true) :
    lookup j (eraseEntry k l)
      = if before j k = false ∧ before k j = false then none else lookup j l := by
  fun_induction eraseEntry k l with
  | case1 => simp [lookup]
  | case2 i w l hi ih =>
    have h' := List.pairwise_cons.mp h
    simp only [lookup, ih h'.2]
    have h₁ := eq_of_not_before k j
    have h₂ := @before_asymm α _ i j
    grind
  | case3 i w l hi hk =>
    have h₁ := eq_of_not_before k j
    simp only [lookup]
    grind
  | case4 i w l hi hk =>
    have h' := List.pairwise_cons.mp h
    have hik := eq_of_not_before i k (by simpa using hi) (by simpa using hk)
    subst hik
    have h₁ := eq_of_not_before i j
    have h₂ : before j i = true → lookup j l = none := fun hj =>
      lookup_eq_none_of_before fun p hp => before_trans _ _ _ hj (h'.1 p hp)
    have h₃ : lookup i l = none := lookup_eq_none_of_before h'.1
    simp only [lookup]
    grind

@[simp] theorem get?_empty (k : α) : (empty : SortedMap α β).get? k = none := rfl

theorem get?_insert_self (m : SortedMap α β) (k : α) (v : β) : (m.insert k v).get? k = some v := by
  simp [get?, insert, lookup_insertEntry, before_irrefl]

theorem get?_insert_of_ne (m : SortedMap α β) {k j : α} (v : β) (h : j ≠ k) :
    (m.insert k v).get? j = m.get? j := by
  simp only [get?, insert, lookup_insertEntry]
  rw [if_neg]
  exact fun hb => h (eq_of_not_before _ _ hb.1 hb.2)

theorem get?_erase_self (m : SortedMap α β) (k : α) : (m.erase k).get? k = none := by
  simp [get?, erase, lookup_eraseEntry m.sorted, before_irrefl]

theorem get?_erase_of_ne (m : SortedMap α β) {k j : α} (h : j ≠ k) :
    (m.erase k).get? j = m.get? j := by
  simp only [get?, erase, lookup_eraseEntry m.sorted]
  rw [if_neg]
  exact fun hb => h (eq_of_not_before _ _ hb.1 hb.2)

theorem lookup_map (f : β → β) (k : α) (l : List (α × β)) :
    lookup k (l.map fun p => (p.1, f p.2)) = (lookup k l).map f := by
  induction l with
  | nil => rfl
  | cons p l ih => grind [lookup]

@[simp]
theorem get?_mapValues (m : SortedMap α β) (f : β → β) (k : α) :
    (m.mapValues f).get? k = (m.get? k).map f := lookup_map f k m.entries

theorem insertEntry_ne_nil (k : α) (v : β) (l : List (α × β)) : insertEntry k v l ≠ [] := by
  fun_cases insertEntry k v l <;> simp

theorem mem_foldl_insert {l : List (α × β)} {m : SortedMap α β} {p : α × β}
    (h : p ∈ (l.foldl (fun m q => m.insert q.1 q.2) m).entries) : p ∈ m.entries ∨ p ∈ l := by
  induction l generalizing m with
  | nil => exact .inl h
  | cons q l ih =>
    rcases ih h with h | h
    · rcases mem_insertEntry h with rfl | h
      · exact .inr (by simp)
      · exact .inl h
    · exact .inr (by simp [h])

theorem mem_ofList {l : List (α × β)} {p : α × β} (h : p ∈ (ofList l).entries) : p ∈ l := by
  rcases mem_foldl_insert h with h | h
  · simp [empty] at h
  · exact h

theorem foldl_insert_ne_nil {l : List (α × β)} {m : SortedMap α β} (h : m.entries ≠ []) :
    (l.foldl (fun m q => m.insert q.1 q.2) m).entries ≠ [] := by
  induction l generalizing m with
  | nil => exact h
  | cons q l ih => exact ih (insertEntry_ne_nil _ _ _)

theorem ofList_ne_nil {l : List (α × β)} (h : l ≠ []) : (ofList l).entries ≠ [] := by
  cases l with
  | nil => simp at h
  | cons q l =>
    exact foldl_insert_ne_nil (m := empty.insert q.1 q.2) (insertEntry_ne_nil _ _ _)

end SortedMap

end PushGateway
