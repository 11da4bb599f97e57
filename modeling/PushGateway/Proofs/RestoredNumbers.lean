import PushGateway.Proofs.AcceptanceOrder
import PushGateway.Proofs.ChangeLog
import PushGateway.Proofs.TableInvariant

/-! The numbers of the pushes that follow a restart. They rise above the restored ones for as long
as the highest restored number leaves room for them below the highest number there is; without this
room there is no table, or a push that passes the checks is not accepted. -/

namespace PushGateway.Table

section Given

/-- The group that a change puts in. -/
def newGroup? (t : Table) : Change → Option Group
  | .push p => if t.accepts (.push p) then (t.apply (.push p)).get? p.key else none
  | .delete _ => none

/-- The groups that the changes put in, one after the other. -/
def installed (t : Table) : List Change → List Group
  | [] => []
  | c :: changes => (t.newGroup? c).toList ++ (t.apply c).installed changes

variable {t : Table} {c : Change} {changes : List Change}

lemma newGroup?_of_accepts (h : t.accepts c = true) :
    ∃ g, t.newGroup? c = some g ∧ g.pushSeq = t.nextSeq := by
  obtain ⟨p, g, rfl, hg, -, happly⟩ := apply_of_accepts h
  refine ⟨g, ?_, Group.pushSeq_of_build hg⟩
  rw [newGroup?, if_pos h, happly]
  exact SortedMap.get?_insert_self t.groups p.key g

lemma newGroup?_of_not_accepts (h : t.accepts c = false) : t.newGroup? c = none := by
  cases c with
  | push p => simp [newGroup?, h]
  | delete key => rfl

/-- The numbers of what is put in rise from the next one on, and stay below the one that is next
then. -/
lemma installed_rise (t : Table) (changes : List Change) :
    ((t.installed changes).Pairwise fun g h => g.pushSeq < h.pushSeq) ∧
      ∀ g ∈ t.installed changes, t.nextSeq ≤ g.pushSeq := by
  induction changes generalizing t with
  | nil => exact ⟨.nil, List.forall_mem_nil _⟩
  | cons c changes ih =>
    have hnext := t.nextSeq_apply c
    obtain ⟨hrise, hlater⟩ := ih (t.apply c)
    simp only [UInt64.le_iff_toNat_le] at hlater ⊢
    rw [installed]
    cases hc : t.accepts c with
    | true =>
      obtain ⟨g, hg, hseq⟩ := newGroup?_of_accepts hc
      rw [hc, Bool.toNat_true] at hnext
      rw [hg, Option.toList_some, List.singleton_append]
      have hlt : ∀ h ∈ (t.apply c).installed changes, t.nextSeq.toNat < h.pushSeq.toNat := by
        intro h hh
        have hle := hlater h hh
        omega
      refine ⟨List.pairwise_cons.mpr ⟨fun h hh => ?_, hrise⟩,
        List.forall_mem_cons.mpr ⟨?_, fun h hh => Nat.le_of_lt (hlt h hh)⟩⟩
      · rw [hseq, UInt64.lt_iff_toNat_lt]
        exact hlt h hh
      · rw [hseq]
    | false =>
      rw [hc, Bool.toNat_false, Nat.add_zero] at hnext
      rw [newGroup?_of_not_accepts hc, Option.toList_none, List.nil_append, ← hnext]
      exact ⟨hrise, hlater⟩

end Given

section Restored

/-- No push runs into the end of the numbers, and every accepted one gets a number above those of
the restored groups and of the pushes before it. -/
structure Rising (groups : List Group) (start : Table) (changes : List Change) : Prop where
  answered : ∀ e ∈ start.log changes, e.answer ≠ .overflowed
  later : ∀ g ∈ groups, ∀ h ∈ start.installed changes, g.pushSeq < h.pushSeq
  ascending : (start.installed changes).Pairwise fun g h => g.pushSeq < h.pushSeq
  outranked : ∀ g ∈ groups, ∀ h ∈ start.installed changes, Merge.ranksBefore g h = true

variable {groups : List Group} {start : Table} {changes : List Change}

lemma rising_of_room (hs : ofGroups? groups = some start)
    (h : start.nextSeq.toNat + passing changes < 2 ^ 64) : Rising groups start changes := by
  obtain ⟨hrise, hlater⟩ := start.installed_rise changes
  have habove : ∀ g ∈ groups, ∀ i ∈ start.installed changes, g.pushSeq < i.pushSeq :=
    fun g hg i hi => UInt64.lt_of_lt_of_le ((nextSeq_of_ofGroups? hs).1 g hg) (hlater i hi)
  exact ⟨(all_answered_iff start changes).mpr h, habove, hrise,
    fun g hg i hi => Merge.ranksBefore_iff.mpr (.inl (habove g hg i hi))⟩

/-- Whatever the restored groups are. Some of the pushes may be refused for what they push. -/
theorem numbers_rise_iff (groups : List Group) (changes : List Change)
    (hn : passing changes < 2 ^ 63) :
    (∃ start, ofGroups? groups = some start ∧ Rising groups start changes) ↔
      ∀ g ∈ groups, g.pushSeq.toNat + passing changes + 1 < 2 ^ 64 := by
  constructor
  · rintro ⟨start, hs, h⟩ g hg
    have hlt := UInt64.lt_iff_toNat_lt.mp ((nextSeq_of_ofGroups? hs).1 g hg)
    have hroom := (all_answered_iff start changes).mp h.answered
    omega
  · intro h
    have hfits : ∀ g ∈ groups, g.pushSeq.toNat + 1 < 2 ^ 64 := by
      intro g hg
      have hroom := h g hg
      omega
    obtain ⟨start, hs⟩ := exists_ofGroups?_iff.mpr hfits
    have hnext : start.nextSeq.toNat ≤ 2 ^ 64 - 1 - passing changes := by
      refine (nextSeq_of_ofGroups? hs).2 _ fun g hg => ?_
      have hroom := h g hg
      omega
    exact ⟨start, hs, rising_of_room hs (by omega)⟩

/-- Two pushes that use up what a restored number leaves, among changes that use nothing up. -/
theorem numbers_rise_iff_last_numbers :
    let x : GroupingKey := ⟨.ofList [("job", "x")], by decide, by decide⟩
    let y : GroupingKey := ⟨.ofList [("job", "y")], by decide, by decide⟩
    let down : Family := ⟨"down", "", .gauge, []⟩
    let owned : Family := ⟨"up", "", .gauge, [⟨.ofList [("job", "z")], .gauge .zero, none⟩]⟩
    let loaded : List Group := [⟨x, .empty, 1, 0xFFFFFFFFFFFFFFFC⟩, ⟨y, .empty, 2, 7⟩]
    let c : Snapshot.Contents := .ofGroups loaded
    let changes : List Change := [.push ⟨y, [down], 4⟩, .push ⟨y, [owned], 5⟩, .delete x,
      .push ⟨x, [], 6⟩]
    c.load = .ok loaded ∧ passing changes = 2 ∧
      ∃ start, ofGroups? loaded = some start ∧ Rising loaded start changes ∧
        (start.installed changes).map Group.pushSeq = [0xFFFFFFFFFFFFFFFD, 0xFFFFFFFFFFFFFFFE] := by
  intro x y down owned loaded c changes
  have hload : c.load = .ok loaded := by decide +kernel
  have hn : passing changes = 2 := by decide +kernel
  have hsmall : passing changes < 2 ^ 63 := by
    rw [hn]
    decide
  obtain ⟨start, hs, hrising⟩ := (numbers_rise_iff loaded changes hsmall).mpr (by decide +kernel)
  obtain rfl : start = ⟨byKey loaded, 0xFFFFFFFFFFFFFFFD⟩ := by
    rw [ofGroups?, Option.map_eq_some_iff] at hs
    obtain ⟨n, hnext, rfl⟩ := hs
    have hlast : nextSeqAfter? loaded = some 0xFFFFFFFFFFFFFFFD := by decide +kernel
    rw [hlast] at hnext
    rw [← Option.some.inj hnext]
  exact ⟨hload, hn, _, hs, hrising, by decide +kernel⟩

/-- A file whose only group has the highest number is loaded, and no table is made of it. With the
number below that there is a table, and the first push to it is not accepted. -/
theorem last_number_not_restored :
    let x : GroupingKey := ⟨.ofList [("job", "x")], by decide, by decide⟩
    let y : GroupingKey := ⟨.ofList [("job", "y")], by decide, by decide⟩
    let up (help : String) : Family := ⟨"up", help, .gauge, []⟩
    let old (seq : UInt64) : Group := ⟨x, .ofList [("up", up "first")], 1, seq⟩
    let c (seq : UInt64) : Snapshot.Contents := .ofGroups [old seq]
    let changes : List Change := [.push ⟨y, [up "second"], 2⟩]
    passing changes = 1 ∧
      (c 0xFFFFFFFFFFFFFFFF).load = .ok [old 0xFFFFFFFFFFFFFFFF] ∧
      ofGroups? [old 0xFFFFFFFFFFFFFFFF] = none ∧
      (c 0xFFFFFFFFFFFFFFFE).load = .ok [old 0xFFFFFFFFFFFFFFFE] ∧
      ∃ start, ofGroups? [old 0xFFFFFFFFFFFFFFFE] = some start ∧
        ¬Rising [old 0xFFFFFFFFFFFFFFFE] start changes ∧
        (start.log changes).map Entry.answer = [.overflowed] := by
  intro x y up old c changes
  have hs : ofGroups? [old 0xFFFFFFFFFFFFFFFE]
      = some ⟨byKey [old 0xFFFFFFFFFFFFFFFE], 0xFFFFFFFFFFFFFFFF⟩ := by decide +kernel
  have hlog : ((⟨byKey [old 0xFFFFFFFFFFFFFFFE], 0xFFFFFFFFFFFFFFFF⟩ : Table).log changes).map
      Entry.answer = [.overflowed] := by decide +kernel
  refine ⟨by decide +kernel, by decide +kernel, by decide +kernel, by decide +kernel, _, hs,
    fun h => ?_, hlog⟩
  have hmem := List.mem_map.mp (hlog ▸ List.mem_singleton_self Answer.overflowed)
  obtain ⟨e, he, hover⟩ := hmem
  exact h.answered e he hover

end Restored

end PushGateway.Table
