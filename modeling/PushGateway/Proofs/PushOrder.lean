import PushGateway.Exposition.Render
import PushGateway.Proofs.AgreeingGroups
import PushGateway.Proofs.TableRuns

/-! Pushes to different keys in any order. Whether a push is accepted depends on the table only
through the numbers it has left, and what it leaves there but for its number does not depend on the
pushes to other keys. -/

namespace PushGateway

namespace SortedMap

variable {α β : Type} [Ordered α] [DecidableEq α]

lemma insert_comm (m : SortedMap α β) {j k : α} (v w : β) (h : j ≠ k) :
    (m.insert j v).insert k w = (m.insert k w).insert j v := by
  apply ext_get?
  intro i
  simp only [get?_insert]
  by_cases hj : i = j
  · rw [if_pos hj, if_pos hj, if_neg (hj ▸ h)]
  · rw [if_neg hj, if_neg hj]

lemma foldl_insert_congr {l l' : List (α × β)} (hp : l.Perm l') (h : (l.map Prod.fst).Nodup)
    (m : SortedMap α β) : l.foldl (fun m p => m.insert p.1 p.2) m
      = l'.foldl (fun m p => m.insert p.1 p.2) m := by
  refine hp.foldl_eq' (fun p hp q hq m => ?_) m
  by_cases hpq : p.1 = q.1
  · rw [List.inj_on_of_nodup_map h hp hq hpq]
  · exact insert_comm m p.2 q.2 hpq

end SortedMap

namespace Table

section Acceptance

def Push.group (p : Push) : Group := ⟨p.key, .ofList (p.families.map fun f => (f.name, f)), 0, 0⟩

/-- All of the pushes are accepted if each of them passes the checks and there are numbers
for all. -/
lemma accepted_eq_length_iff (t : Table) (ps : List Push) :
    t.accepted (ps.map .push) = ps.length ↔
      (∀ p ∈ ps, Change.passes (.push p) = true) ∧ t.nextSeq.toNat + ps.length < 2 ^ 64 := by
  have hcount : passing (ps.map .push) = ps.countP fun p => Change.passes (.push p) :=
    List.countP_map
  have hle : ps.countP (fun p => Change.passes (.push p)) ≤ ps.length := List.countP_le_length
  have hbound := t.nextSeq.toNat_lt
  rw [accepted_eq_min, hcount, ← List.countP_eq_length]
  omega

end Acceptance

section Contents

variable {t : Table} {p : Push}

/-- What the keys hold, whenever it was pushed. -/
def contents (t : Table) : SortedMap GroupingKey Group := t.groups.mapEntries fun _ g => g.undated

lemma contents_push (h : t.accepts (.push p) = true) :
    (t.apply (.push p)).contents = t.contents.insert p.key p.group := by
  obtain ⟨q, g, heq, hg, -, happly⟩ := apply_of_accepts h
  obtain rfl := Change.push.inj heq
  obtain ⟨-, -, rfl⟩ := Group.build_eq_ok_iff.mp hg
  rw [happly, contents, SortedMap.mapEntries_insert]
  rfl

lemma contents_pushes {ps : List Push} (h : t.accepted (ps.map .push) = ps.length) :
    (t.after (ps.map .push)).contents
      = (ps.map fun p => (p.key, p.group)).foldl (fun m p => m.insert p.1 p.2) t.contents := by
  induction ps generalizing t with
  | nil => rfl
  | cons p ps ih =>
    rw [accepted_eq_length_iff, List.forall_mem_cons, List.length_cons] at h
    obtain ⟨⟨hp, hps⟩, hroom⟩ := h
    have hpush : t.accepts (.push p) = true := (t.accepts_iff _).mpr ⟨hp, by omega⟩
    have hnext := t.nextSeq_apply (.push p)
    rw [hpush, Bool.toNat_true] at hnext
    have hrest := ih ((accepted_eq_length_iff (t.apply (.push p)) ps).mpr ⟨hps, by omega⟩)
    rw [contents_push hpush] at hrest
    exact hrest

lemma snapshot_undated (t : Table) : t.snapshot.map Group.undated = t.contents.values := by
  rw [snapshot, contents, SortedMap.values, SortedMap.values, SortedMap.mapEntries, List.map_map,
    List.map_map]
  rfl

lemma families_contents (t : Table) (key : GroupingKey) :
    (t.get? key).map Group.families = (t.contents.get? key).map Group.families := by
  rw [get?, contents, SortedMap.get?_mapEntries, Option.map_map]
  rfl

lemma keys_contents (t : Table) : t.contents.keys = t.groups.keys := by
  rw [contents, SortedMap.keys, SortedMap.keys, SortedMap.mapEntries, List.map_map]
  rfl

end Contents

/-- The order of accepted pushes to different keys shows only in what is reported of a conflict. -/
theorem independent_pushes_commute (changes : List Change) {ps qs : List Push} (hp : ps.Perm qs)
    (hk : (ps.map Push.key).Nodup)
    (ha : (empty.after changes).accepted (ps.map .push) = ps.length) :
    let t := (empty.after changes).after (ps.map .push)
    let t' := (empty.after changes).after (qs.map .push)
    (empty.after changes).accepted (qs.map .push) = qs.length ∧
    t.groups.keys = t'.groups.keys ∧
    (∀ key, (t.get? key).map Group.families = (t'.get? key).map Group.families) ∧
    ((merge t.snapshot).conflicts = [] ↔ (merge t'.snapshot).conflicts = []) ∧
    ((merge t.snapshot).conflicts = [] →
      Exposition.render (merge t.snapshot).families
        = Exposition.render (merge t'.snapshot).families) := by
  intro t t'
  have ha' : (empty.after changes).accepted (qs.map .push) = qs.length := by
    rw [accepted_eq_length_iff] at ha ⊢
    exact ⟨fun p hq => ha.1 p (hp.mem_iff.mpr hq), hp.length_eq ▸ ha.2⟩
  have hcontents : t.contents = t'.contents := by
    rw [contents_pushes ha, contents_pushes ha']
    refine SortedMap.foldl_insert_congr (hp.map _) ?_ _
    rw [List.map_map]
    exact hk
  have hundated : t.snapshot.map Group.undated = t'.snapshot.map Group.undated := by
    rw [snapshot_undated, snapshot_undated, hcontents]
  have hd : Merge.Distinct t.snapshot := by
    have h := distinct_after (changes ++ ps.map .push)
    rwa [after_append] at h
  have hd' : Merge.Distinct t'.snapshot := by
    have h := distinct_after (changes ++ qs.map .push)
    rwa [after_append] at h
  have hagree : Merge.Agree t.snapshot ↔ Merge.Agree t'.snapshot := by
    rw [← Merge.agree_undated, hundated, Merge.agree_undated]
  refine ⟨ha', ?_, fun key => ?_, ?_, fun hc => ?_⟩
  · rw [← keys_contents, hcontents, keys_contents]
  · rw [families_contents, hcontents, families_contents]
  · rw [Merge.conflicts_eq_nil_iff hd, Merge.conflicts_eq_nil_iff hd', hagree]
  · have ha := (Merge.conflicts_eq_nil_iff hd).mp hc
    rw [← ha.families_undated hd, ← (hagree.mp ha).families_undated hd', hundated]

/-- Two orders of pushes to a family that is there already, one of them to a key that
was deleted. -/
theorem independent_pushes_commute_shared_family :
    let a : GroupingKey := ⟨.ofList [("job", "a")], by decide, by decide⟩
    let b : GroupingKey := ⟨.ofList [("job", "b")], by decide, by decide⟩
    let c : GroupingKey := ⟨.ofList [("job", "c")], by decide, by decide⟩
    let up (help : String) (x : Binary64) : Family :=
      ⟨"up", help, .gauge, [⟨.empty, .gauge x, none⟩]⟩
    let changes : List Change :=
      [.push ⟨b, [up "old" .nan], 1⟩, .push ⟨a, [up "" .zero], 2⟩, .delete b]
    let p : Push := ⟨b, [up "" .infinity], 3⟩
    let q : Push := ⟨c, [up "" .nan], 4⟩
    let t := (empty.after changes).after [.push p, .push q]
    let t' := (empty.after changes).after [.push q, .push p]
    (empty.after changes).accepted [.push p, .push q] = 2 ∧ t ≠ t' ∧
      (∀ key, (t.get? key).map Group.families = (t'.get? key).map Group.families) ∧
      (merge t.snapshot).conflicts = [] ∧ (merge t'.snapshot).conflicts = [] ∧
      Exposition.render (merge t.snapshot).families
        = Exposition.render (merge t'.snapshot).families := by
  intro a b c up changes p q t t'
  have haccepted : (empty.after changes).accepted [.push p, .push q] = 2 := by decide +kernel
  have hne : t ≠ t' := by decide +kernel
  have hranked : Merge.ranked t.snapshot = t.snapshot :=
    List.mergeSort_of_pairwise (by decide +kernel)
  have hsilent : (merge t.snapshot).conflicts = [] := by
    rw [merge, hranked]
    decide +kernel
  obtain ⟨-, -, hfamilies, hconflicts, hrender⟩ :=
    independent_pushes_commute changes (List.Perm.swap q p []) (by decide) haccepted
  exact ⟨haccepted, hne, hfamilies, hsilent, hconflicts.mp hsilent, hrender hsilent⟩

end Table

end PushGateway
