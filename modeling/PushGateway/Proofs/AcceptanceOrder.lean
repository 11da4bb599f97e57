import Mathlib.Data.List.Induction
import Mathlib.Logic.Function.Basic
import PushGateway.Proofs.TableRuns

/-! The order in which payloads were accepted. It is the order of the numbers of the groups, also
after restarts from earlier snapshots, which give numbers again that were forgotten. -/

namespace PushGateway

namespace Table

section Restored

variable {t : Table}

lemma Keyed.byKey_snapshot (h : t.Keyed) : byKey t.snapshot = t.groups := by
  have hentries : t.snapshot.map (fun g => (g.key, g)) = t.groups.entries := by
    rw [snapshot, SortedMap.values, List.map_map]
    refine (List.map_congr_left fun p hp => ?_).trans (List.map_id _)
    exact Prod.ext (h p hp) rfl
  rw [byKey, hentries, SortedMap.ofList_entries]

/-- A table whose groups are below its next number can be made again of its snapshot. -/
lemma Numbered.ofGroups? (hk : t.Keyed) (h : t.Numbered) :
    ∃ t', Table.ofGroups? t.snapshot = some t' ∧ t'.groups = t.groups ∧ t'.Numbered := by
  have hroom : ∀ g ∈ t.snapshot, g.pushSeq.toNat + 1 < 2 ^ 64 := by
    refine List.forall_mem_map.mpr fun p hp => ?_
    have hlt := UInt64.lt_iff_toNat_lt.mp (h.below p hp)
    have hbound := t.nextSeq.toNat_lt
    omega
  obtain ⟨t', ht'⟩ := exists_ofGroups?_iff.mpr hroom
  have hgroups : t'.groups = t.groups := (ofGroups?_eq_some_iff.mp ht').2.trans hk.byKey_snapshot
  refine ⟨t', ht', hgroups, fun p hp => ?_, hgroups ▸ h.distinct⟩
  rw [hgroups] at hp
  exact (nextSeq_of_ofGroups? ht').1 p.2 (List.mem_map_of_mem hp)

end Restored

section Dates

/-- A table with the number of pushes that were accepted before the payload that a key has. -/
structure Dated where
  table : Table
  date : GroupingKey → Nat

namespace Dated

def apply (d : Dated) (n : Nat) (c : Change) : Dated :=
  ⟨d.table.apply c, match c with
    | .push p => if d.table.accepts c then Function.update d.date p.key n else d.date
    | .delete _ => d.date⟩

/-- What a restart makes of a snapshot, if it makes anything of it. -/
def reopen? (d : Dated) : Option Dated :=
  (ofGroups? d.table.snapshot).map fun t => ⟨t, d.date⟩

structure InOrder (d : Dated) (n : Nat) : Prop where
  keyed : d.table.Keyed
  valid : ∀ g ∈ d.table.snapshot, g.Valid
  numbered : d.table.Numbered
  date_lt : ∀ p ∈ d.table.groups.entries, d.date p.1 < n
  ordered : ∀ p ∈ d.table.groups.entries, ∀ q ∈ d.table.groups.entries,
    d.date p.1 < d.date q.1 ↔ p.2.pushSeq < q.2.pushSeq

variable {d : Dated} {n m : Nat}

lemma InOrder.mono (h : d.InOrder n) (hnm : n ≤ m) : d.InOrder m where
  keyed := h.keyed
  valid := h.valid
  numbered := h.numbered
  date_lt p hp := Nat.lt_of_lt_of_le (h.date_lt p hp) hnm
  ordered := h.ordered

lemma inOrder_empty : (⟨empty, fun _ => 0⟩ : Dated).InOrder 0 where
  keyed := keyed_empty
  valid := valid_empty
  numbered := numbered_empty
  date_lt p hp := by cases hp
  ordered p hp := by cases hp

/-- A restart never fails, and it keeps the order. -/
lemma InOrder.reopen? (h : d.InOrder n) : ∃ d', d.reopen? = some d' ∧ d'.InOrder n := by
  obtain ⟨t, ht, hgroups, hnumbered⟩ := h.numbered.ofGroups? h.keyed
  refine ⟨⟨t, d.date⟩, by rw [Dated.reopen?, ht]; rfl, keyed_ofGroups ht, ?_, hnumbered, ?_, ?_⟩
  · rw [snapshot, hgroups]
    exact h.valid
  · rw [hgroups]
    exact h.date_lt
  · rw [hgroups]
    exact h.ordered

lemma InOrder.of_not_accepts (h : d.InOrder n) {c : Change} (hc : d.table.accepts c = false) :
    (d.apply n c).InOrder n := by
  have hdate : (d.apply n c).date = d.date := by
    cases c with
    | push p => simp [Dated.apply, hc]
    | delete key => rfl
  obtain ⟨-, hkept⟩ := apply_of_not_accepts hc
  refine ⟨h.keyed.after [c], valid_after h.valid [c], h.numbered.of_not_accepts hc, ?_, ?_⟩
  · rw [hdate]
    exact fun p hp => h.date_lt p (hkept p hp)
  · rw [hdate]
    exact fun p hp q hq => h.ordered p (hkept p hp) q (hkept q hq)

lemma InOrder.of_accepts (h : d.InOrder n) {c : Change} (hc : d.table.accepts c = true) :
    (d.apply n c).InOrder (n + 1) := by
  have hkeyed : (d.table.apply c).Keyed := h.keyed.after [c]
  have hvalid : ∀ g ∈ (d.table.apply c).snapshot, g.Valid := valid_after h.valid [c]
  have hnumbered := h.numbered.of_accepts hc
  obtain ⟨p, g, rfl, hg, -, happly⟩ := apply_of_accepts hc
  have hnew : g.pushSeq = d.table.nextSeq := Group.pushSeq_of_build hg
  have hdate : (d.apply n (.push p)).date = Function.update d.date p.key n := if_pos hc
  have hentries {q : GroupingKey × Group}
      (hq : q ∈ (d.apply n (.push p)).table.groups.entries) :
      q = (p.key, g) ∨ q.1 ≠ p.key ∧ q ∈ d.table.groups.entries := by
    rw [Dated.apply, happly] at hq
    exact SortedMap.mem_insert_iff.mp hq
  refine ⟨hkeyed, hvalid, hnumbered, fun q hq => ?_, fun q hq r hr => ?_⟩
  · rcases hentries hq with rfl | ⟨hne, hq⟩
    · simp [hdate]
    · rw [hdate, Function.update_of_ne hne]
      exact Nat.lt_succ_of_lt (h.date_lt q hq)
  · -- the new group is later than all others and has the highest number
    rcases hentries hq with rfl | ⟨hne, hq⟩
    · rcases hentries hr with rfl | ⟨hne', hr⟩
      · simp
      · have hseq := UInt64.not_lt.mpr (UInt64.le_of_lt (h.numbered.below r hr))
        have hlt := Nat.le_of_lt (h.date_lt r hr)
        rw [hdate, Function.update_self, Function.update_of_ne hne', hnew]
        simp [hseq, hlt]
    · rcases hentries hr with rfl | ⟨hne', hr⟩
      · have hseq := h.numbered.below q hq
        have hlt := h.date_lt q hq
        rw [hdate, Function.update_self, Function.update_of_ne hne, hnew]
        simp [hseq, hlt]
      · rw [hdate, Function.update_of_ne hne, Function.update_of_ne hne']
        exact h.ordered q hq r hr

lemma InOrder.apply (h : d.InOrder n) (c : Change) :
    (d.apply n c).InOrder (n + (d.table.accepts c).toNat) := by
  cases hc : d.table.accepts c with
  | false => exact h.of_not_accepts hc
  | true => exact h.of_accepts hc

end Dated

end Dates

section Runs

inductive Event
  | change (c : Change)
  | restart (moment : Nat)
  deriving DecidableEq

/-- A run with restarts: the tables it went through, from the first on, and its accepted pushes. -/
structure Chronicle where
  past : List Dated
  present : Dated
  accepted : Nat

namespace Chronicle

def moments (r : Chronicle) : List Dated := r.past ++ [r.present]

def start : Chronicle := ⟨[], ⟨empty, fun _ => 0⟩, 0⟩

/-- A restart goes on from the snapshot of an earlier moment, or of the present one. If it fails
nothing is changed. -/
def step (r : Chronicle) : Event → Chronicle
  | .change c =>
    ⟨r.moments, r.present.apply r.accepted c, r.accepted + (r.present.table.accepts c).toNat⟩
  | .restart moment =>
    ⟨r.moments, (r.moments[moment]?.getD r.present).reopen?.getD r.present, r.accepted⟩

def after (r : Chronicle) (events : List Event) : Chronicle := events.foldl step r

variable {r : Chronicle}

lemma after_concat (r : Chronicle) (events : List Event) (e : Event) :
    r.after (events ++ [e]) = (r.after events).step e := by
  rw [after, List.foldl_append]
  rfl

lemma accepted_le_step (r : Chronicle) (e : Event) : r.accepted ≤ (r.step e).accepted := by
  cases e with
  | change c => exact Nat.le_add_right _ _
  | restart moment => exact Nat.le_refl _

lemma inOrder_step (h : ∀ d ∈ r.moments, d.InOrder r.accepted) (e : Event) :
    ∀ d ∈ (r.step e).moments, d.InOrder (r.step e).accepted := by
  have hpresent : r.present.InOrder r.accepted := h r.present (by simp [moments])
  intro d hd
  rcases List.mem_append.mp hd with hd | hd
  · have hpast : (r.step e).past = r.moments := by cases e <;> rfl
    rw [hpast] at hd
    exact (h d hd).mono (r.accepted_le_step e)
  · rw [List.mem_singleton.mp hd]
    cases e with
    | change c => exact hpresent.apply c
    | restart moment =>
      have hpast : (r.moments[moment]?.getD r.present).InOrder r.accepted := by
        cases hm : r.moments[moment]? with
        | none => exact hpresent
        | some d => exact h d (List.mem_of_getElem? hm)
      obtain ⟨d', hd', horder⟩ := hpast.reopen?
      change ((r.moments[moment]?.getD r.present).reopen?.getD r.present).InOrder r.accepted
      rw [hd']
      exact horder

lemma inOrder_after (events : List Event) :
    ∀ d ∈ (start.after events).moments, d.InOrder (start.after events).accepted := by
  induction events using List.reverseRecOn with
  | nil =>
    intro d hd
    rw [List.mem_singleton.mp hd]
    exact Dated.inOrder_empty
  | append_singleton events e ih =>
    rw [after_concat]
    exact inOrder_step ih e

end Chronicle

end Runs

end Table

end PushGateway
