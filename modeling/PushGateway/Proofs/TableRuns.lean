import Mathlib.Algebra.Order.Ring.Nat
import PushGateway.Proofs.SeriesOwners
import PushGateway.Proofs.TableKeys

/-! Runs of pushes and deletes. A refused push changes nothing, and an accepted one puts a group
that was checked under its key, with the next number. -/

namespace PushGateway.Table

section Runs

structure Push where
  key : GroupingKey
  families : List Family
  now : UInt64
  deriving DecidableEq

inductive Change
  | push (p : Push)
  | delete (key : GroupingKey)
  deriving DecidableEq

def accepts (t : Table) : Change → Bool
  | .push p => (t.push p.key p.families p.now).isOk
  | .delete _ => false

def apply (t : Table) : Change → Table
  | .push p => match t.push p.key p.families p.now with
    | .ok (t, _) => t
    | .error _ => t
  | .delete key => (t.delete key).1

def after (t : Table) (changes : List Change) : Table := changes.foldl apply t

lemma after_append (t : Table) (before last : List Change) :
    t.after (before ++ last) = (t.after before).after last :=
  List.foldl_append

/-- How many of the pushes are accepted, one after the other. -/
def accepted (t : Table) : List Change → Nat
  | [] => 0
  | c :: changes => (t.accepts c).toNat + (t.apply c).accepted changes

variable {t : Table} {c : Change}

lemma apply_of_accepts (h : t.accepts c = true) : ∃ p g, c = .push p ∧
    Group.build p.key p.families p.now t.nextSeq = .ok g ∧ t.nextSeq.toNat + 1 < 2 ^ 64 ∧
    t.apply c = ⟨t.groups.insert p.key g, t.nextSeq + 1⟩ := by
  cases c with
  | push p =>
    rw [accepts] at h
    rw [apply]
    cases hp : t.push p.key p.families p.now with
    | error e =>
      rw [hp] at h
      cases h
    | ok r =>
      obtain ⟨g, hg, hnext, ht, -⟩ := push_eq_ok_iff.mp hp
      exact ⟨p, g, rfl, hg, hnext, ht⟩
  | delete key => cases h

lemma apply_of_not_accepts (h : t.accepts c = false) : (t.apply c).nextSeq = t.nextSeq ∧
    ∀ p ∈ (t.apply c).groups.entries, p ∈ t.groups.entries := by
  cases c with
  | push p =>
    rw [accepts] at h
    rw [apply]
    cases hp : t.push p.key p.families p.now with
    | error e => exact ⟨rfl, fun _ hp => hp⟩
    | ok r =>
      rw [hp] at h
      cases h
  | delete key => exact ⟨rfl, fun _ hp => SortedMap.mem_of_mem_eraseEntry hp⟩

/-- What holds of every group that is built holds of the groups of a table at any time. -/
lemma entries_after {P : GroupingKey × Group → Prop} (h : ∀ p ∈ t.groups.entries, P p)
    (hb : ∀ key families now seq g, Group.build key families now seq = .ok g → P (key, g))
    (changes : List Change) : ∀ p ∈ (t.after changes).groups.entries, P p := by
  induction changes generalizing t with
  | nil => exact h
  | cons c changes ih =>
    refine ih fun p hp => ?_
    cases hc : t.accepts c with
    | false => exact h p ((apply_of_not_accepts hc).2 p hp)
    | true =>
      obtain ⟨q, g, -, hg, -, happly⟩ := apply_of_accepts hc
      rw [happly] at hp
      rcases SortedMap.mem_insertEntry hp with rfl | hp
      · exact hb q.key q.families q.now t.nextSeq g hg
      · exact h p hp

lemma Keyed.after (h : t.Keyed) (changes : List Change) : (t.after changes).Keyed :=
  entries_after h (fun _ _ _ _ _ hg => Group.key_of_build hg) changes

lemma valid_after (h : ∀ g ∈ t.snapshot, g.Valid) (changes : List Change) :
    ∀ g ∈ (t.after changes).snapshot, g.Valid :=
  List.forall_mem_map.mpr <| entries_after (P := fun p => p.2.Valid) (List.forall_mem_map.mp h)
    (fun _ _ _ _ _ hg => Group.valid_of_build hg) changes

lemma valid_empty : ∀ g ∈ empty.snapshot, g.Valid := by
  intro g hg
  cases hg

lemma distinct_after (changes : List Change) : Merge.Distinct (empty.after changes).snapshot :=
  ⟨valid_after valid_empty changes, (keyed_empty.after changes).keys_nodup⟩

end Runs

section Numbers

/-- The groups have different numbers, and all of them are below the next one. -/
structure Numbered (t : Table) : Prop where
  below : ∀ p ∈ t.groups.entries, p.2.pushSeq < t.nextSeq
  distinct : ∀ p ∈ t.groups.entries, ∀ q ∈ t.groups.entries, p.2.pushSeq = q.2.pushSeq → p.1 = q.1

variable {t : Table}

lemma numbered_empty : empty.Numbered := by
  refine ⟨?_, ?_⟩
  · intro p hp
    cases hp
  · intro p hp
    cases hp

lemma Numbered.of_not_accepts (h : t.Numbered) {c : Change} (hc : t.accepts c = false) :
    (t.apply c).Numbered := by
  obtain ⟨hnext, hkept⟩ := apply_of_not_accepts hc
  refine ⟨fun p hp => ?_, fun p hp q hq => h.distinct p (hkept p hp) q (hkept q hq)⟩
  rw [hnext]
  exact h.below p (hkept p hp)

lemma Numbered.of_accepts (h : t.Numbered) {c : Change} (hc : t.accepts c = true) :
    (t.apply c).Numbered := by
  obtain ⟨q, g, -, hg, hroom, happly⟩ := apply_of_accepts hc
  have hnew : g.pushSeq = t.nextSeq := Group.pushSeq_of_build hg
  have hlt : t.nextSeq < t.nextSeq + 1 := by
    rw [UInt64.lt_iff_toNat_lt, toNat_succ hroom]
    exact Nat.lt_succ_self _
  -- the new group has the next number, which no group had before
  have hold {p : GroupingKey × Group} (hp : p ∈ t.groups.entries) : p.2.pushSeq ≠ g.pushSeq := by
    rw [hnew]
    exact UInt64.ne_of_lt (h.below p hp)
  rw [happly]
  refine ⟨fun p hp => ?_, fun p hp p' hp' heq => ?_⟩
  · rcases SortedMap.mem_insertEntry hp with rfl | hp
    · exact hnew ▸ hlt
    · exact UInt64.lt_trans (h.below p hp) hlt
  · rcases SortedMap.mem_insertEntry hp with rfl | hp
    · rcases SortedMap.mem_insertEntry hp' with rfl | hp'
      · rfl
      · exact absurd heq.symm (hold hp')
    · rcases SortedMap.mem_insertEntry hp' with rfl | hp'
      · exact absurd heq (hold hp)
      · exact h.distinct p hp p' hp' heq

lemma Numbered.apply (h : t.Numbered) (c : Change) : (t.apply c).Numbered := by
  cases hc : t.accepts c with
  | false => exact h.of_not_accepts hc
  | true => exact h.of_accepts hc

lemma Numbered.after (h : t.Numbered) (changes : List Change) : (t.after changes).Numbered := by
  induction changes generalizing t with
  | nil => exact h
  | cons c changes ih => exact ih (h.apply c)

section Counted

/-- Whether it is a push of what passes the checks. They do not look at the table. -/
def Change.passes : Change → Bool
  | .push p => (Group.build p.key p.families p.now 0).isOk
  | .delete _ => false

def passing (changes : List Change) : Nat := changes.countP Change.passes

variable (t : Table) (c : Change) (changes : List Change)

lemma passing_cons : passing (c :: changes) = passing changes + if c.passes then 1 else 0 :=
  List.countP_cons

lemma exists_build_iff (p : Push) (seq : UInt64) :
    (∃ g, Group.build p.key p.families p.now seq = .ok g) ↔ Change.passes (.push p) = true := by
  rw [Change.passes]
  cases h : Group.build p.key p.families p.now 0 with
  | ok g => exact iff_of_true ⟨_, Group.build_restamp h p.now seq⟩ rfl
  | error e =>
    refine iff_of_false ?_ (by simp [Except.isOk, Except.toBool])
    rintro ⟨g, hg⟩
    cases h.symm.trans (Group.build_restamp hg p.now 0)

lemma accepts_iff : t.accepts c = true ↔ c.passes = true ∧ t.nextSeq.toNat + 1 < 2 ^ 64 := by
  cases c with
  | push p =>
    rw [← exists_build_iff p t.nextSeq, accepts, push_eq]
    cases Group.build p.key p.families p.now t.nextSeq with
    | error e => simp [Except.isOk, Except.toBool]
    | ok g =>
      dsimp only
      by_cases h : t.nextSeq.toNat + 1 < 2 ^ 64
      · rw [if_pos h]
        exact iff_of_true rfl ⟨⟨g, rfl⟩, h⟩
      · rw [if_neg h]
        exact iff_of_false Bool.false_ne_true fun hroom => h hroom.2
  | delete key => simp [accepts, Change.passes]

/-- Each accepted push counts the next number up by one. -/
lemma nextSeq_apply :
    (t.apply c).nextSeq.toNat = t.nextSeq.toNat + (t.accepts c).toNat := by
  cases hc : t.accepts c with
  | true =>
    obtain ⟨p, g, -, -, hroom, happly⟩ := apply_of_accepts hc
    rw [happly]
    exact toNat_succ hroom
  | false =>
    rw [(apply_of_not_accepts hc).1]
    rfl

lemma nextSeq_after :
    (t.after changes).nextSeq.toNat = t.nextSeq.toNat + t.accepted changes := by
  induction changes generalizing t with
  | nil => rfl
  | cons c changes ih =>
    rw [accepted, ← Nat.add_assoc, ← nextSeq_apply]
    exact ih (t.apply c)

/-- What passes the checks is accepted until the numbers are at their end. -/
lemma accepted_eq_min :
    t.accepted changes = min (passing changes) (2 ^ 64 - 1 - t.nextSeq.toNat) := by
  induction changes generalizing t with
  | nil => exact (Nat.zero_min _).symm
  | cons c changes ih =>
    have hnext := t.nextSeq_apply c
    have hbound := t.nextSeq.toNat_lt
    rw [accepted, ih, passing_cons]
    cases hc : t.accepts c with
    | true =>
      obtain ⟨hpasses, hroom⟩ := (t.accepts_iff c).mp hc
      rw [hc, Bool.toNat_true] at hnext
      rw [if_pos hpasses, Bool.toNat_true, hnext]
      omega
    | false =>
      rw [hc, Bool.toNat_false, Nat.add_zero] at hnext
      have hnot := fun h => Bool.false_ne_true (hc.symm.trans ((t.accepts_iff c).mpr h))
      rw [Bool.toNat_false, hnext]
      by_cases hpasses : c.passes = true
      · have hfull : ¬t.nextSeq.toNat + 1 < 2 ^ 64 := fun h => hnot ⟨hpasses, h⟩
        rw [if_pos hpasses]
        omega
      · rw [if_neg hpasses]
        omega

end Counted

end Numbers

end PushGateway.Table
