import Mathlib.Data.List.Induction
import PushGateway.Proofs.SerializerRuns
import PushGateway.Store.Queue

/-! Requests as operations on a table alone. The owner of the table answers each of them as the
table does; only what it says about the file is its own. -/

namespace PushGateway

/-- One operation on a table: what it makes of the table and, unless it is about the file, the
answer. A push that runs into the end of the numbers has none but that of a store that is gone. -/
def Table.perform (t : Table) (now : UInt64) : Store.Request → Table × Option Store.Reply
  | .push key families => match t.push key families now with
    | .ok (t, _) => (t, some (.ok .done))
    | .error (.invalid e) => (t, some (.error (.invalid e)))
    | .error .overflow => (t, some (.error .shutDown))
  | .delete key => ((t.delete key).1, some (.ok (.deleted (t.delete key).2)))
  | .snapshot => (t, some (.ok (.groups t.snapshot)))
  | .flush | .shutdown => (t, none)

/-- Whether nothing is handled after the request: it is a shutdown, or a push that runs into the end
of the numbers. -/
def Table.ends (t : Table) (now : UInt64) : Store.Request → Bool
  | .push key families => match t.push key families now with
    | .error .overflow => true
    | .error (.invalid _) | .ok _ => false
  | .shutdown => true
  | .delete _ | .snapshot | .flush => false

def Table.replay (t : Table) (calls : List (Store.Call × UInt64)) : Table :=
  calls.foldl (fun t p => (t.perform p.2 p.1.request).1) t

/-- Whether none of the requests is the last. -/
def Table.goesOn (t : Table) : List (Store.Call × UInt64) → Bool
  | [] => true
  | p :: calls => !t.ends p.2 p.1.request && (t.perform p.2 p.1.request).1.goesOn calls

lemma Table.replay_append (t : Table) (xs ys : List (Store.Call × UInt64)) :
    t.replay (xs ++ ys) = (t.replay xs).replay ys :=
  List.foldl_append

@[simp] lemma Table.replay_concat (t : Table) (calls : List (Store.Call × UInt64))
    (p : Store.Call × UInt64) :
    t.replay (calls ++ [p]) = ((t.replay calls).perform p.2 p.1.request).1 := by
  rw [replay_append]
  rfl

lemma Table.goesOn_append (t : Table) (xs ys : List (Store.Call × UInt64)) :
    t.goesOn (xs ++ ys) = (t.goesOn xs && (t.replay xs).goesOn ys) := by
  induction xs generalizing t with
  | nil => rfl
  | cons p xs ih =>
    rw [List.cons_append, goesOn, goesOn, ih, Bool.and_assoc]
    rfl

lemma Table.goesOn_concat (t : Table) (calls : List (Store.Call × UInt64))
    (p : Store.Call × UInt64) :
    t.goesOn (calls ++ [p]) = (t.goesOn calls && !(t.replay calls).ends p.2 p.1.request) := by
  rw [goesOn_append, goesOn, goesOn, Bool.and_true]

lemma Table.ends_eq_true_iff {t : Table} {now : UInt64} {r : Store.Request} :
    t.ends now r = true ↔ r = .shutdown ∨
      ∃ key families, r = .push key families ∧ t.push key families now = .error .overflow := by
  cases r with
  | push key families =>
    rw [ends]
    cases h : t.push key families now with
    | ok p => simp [h]
    | error e => cases e <;> simp [h]
  | _ => simp [ends]

/-- The only answers of a store that is gone are those to pushes that nothing can be
numbered for. -/
lemma Table.perform_eq_shutDown_iff {t : Table} {now : UInt64} {r : Store.Request} :
    (t.perform now r).2 = some (.error .shutDown) ↔
      ∃ key families, r = .push key families ∧ t.push key families now = .error .overflow := by
  cases r with
  | push key families =>
    rw [perform]
    cases h : t.push key families now with
    | ok p => simp [h]
    | error e => cases e <;> simp [h]
  | _ => simp [perform]

section Groups

variable {t : Table} {key : GroupingKey} {g : Group}

lemma Table.get?_perform (hg : t.get? key = some g) (now : UInt64) {r : Store.Request}
    (hd : r ≠ .delete key)
    (hp : ∀ families, r = .push key families → (t.perform now r).2 ≠ some (.ok .done)) :
    (t.perform now r).1.get? key = some g := by
  cases r with
  | push key' families =>
    have hp' := hp families
    rw [perform] at hp' ⊢
    cases hpush : t.push key' families now with
    | error e => cases e <;> exact hg
    | ok result =>
      obtain ⟨t', replaced⟩ := result
      obtain ⟨g', -, -, rfl, -⟩ := push_eq_ok_iff.mp hpush
      have hne : key ≠ key' := by
        rintro rfl
        exact hp' rfl (by simp [hpush])
      exact (SortedMap.get?_insert_of_ne t.groups g' hne).trans hg
  | delete key' =>
    have hne : key ≠ key' := by
      rintro rfl
      exact hd rfl
    exact (SortedMap.get?_erase_of_ne t.groups hne).trans hg
  | snapshot => exact hg
  | flush => exact hg
  | shutdown => exact hg

/-- A group stays while its key is neither deleted nor pushed with success. -/
lemma Table.get?_replay (hg : t.get? key = some g) {calls : List (Store.Call × UInt64)}
    (h : ∀ before e rest, calls = before ++ e :: rest → e.1.request ≠ .delete key ∧
      ∀ families, e.1.request = .push key families →
        ((t.replay before).perform e.2 e.1.request).2 ≠ some (.ok .done)) :
    (t.replay calls).get? key = some g := by
  induction calls using List.reverseRecOn with
  | nil => exact hg
  | append_singleton calls e ih =>
    rw [replay_concat]
    have hcalls := ih fun before e' rest he => h before e' (rest ++ [e]) (by simp [he])
    obtain ⟨hd, hp⟩ := h calls e [] rfl
    exact get?_perform hcalls e.2 hd hp

lemma Table.get?_perform_push {now : UInt64} {families : List Family}
    (h : (t.perform now (.push key families)).2 = some (.ok .done)) :
    ∃ g, (t.perform now (.push key families)).1.get? key = some g ∧
      Group.build key families now g.pushSeq = .ok g := by
  rw [perform] at h ⊢
  cases hpush : t.push key families now with
  | error e => cases e <;> simp [hpush] at h
  | ok result =>
    obtain ⟨t', replaced⟩ := result
    obtain ⟨g, hb, -, rfl, -⟩ := push_eq_ok_iff.mp hpush
    have hseq : g.pushSeq = t.nextSeq := Group.pushSeq_of_build hb
    exact ⟨g, SortedMap.get?_insert_self t.groups key g, hseq ▸ hb⟩

end Groups

namespace Serializer

variable (s : Serializer) (now : Moment) (succeeds : Bool) (r : Store.Request)

lemma writeNow_keeps (elapsed : Nat) : (s.writeNow elapsed succeeds).1.table = s.table ∧
    (s.writeNow elapsed succeeds).1.stopped = s.stopped := by
  cases hf : s.file.isSome with
  | false =>
    rw [writeNow_without_file (by simpa using hf)]
    exact ⟨rfl, rfl⟩
  | true =>
    cases succeeds with
    | true =>
      rw [writeNow_true hf]
      exact ⟨rfl, rfl⟩
    | false =>
      rw [writeNow_false hf]
      exact ⟨markDirty_table _ _, markDirty_stopped _ _⟩

lemma fire_keeps (elapsed : Nat) : (s.fire elapsed succeeds).table = s.table ∧
    (s.fire elapsed succeeds).stopped = s.stopped := by
  unfold fire
  split_ifs
  · exact s.writeNow_keeps succeeds elapsed
  · exact ⟨rfl, rfl⟩

lemma handle_table :
    (s.handle now succeeds r).1.table = (s.table.perform now.unixMillis r).1 := by
  cases r with
  | push key families =>
    rw [handle, Table.perform]
    cases s.table.push key families now.unixMillis with
    | error e => cases e <;> rfl
    | ok p => exact markDirty_table _ _
  | delete key =>
    rw [handle, Table.perform]
    dsimp only
    split_ifs
    · exact markDirty_table _ _
    · rfl
  | snapshot => rfl
  | flush => exact (s.writeNow_keeps succeeds now.elapsed).1
  | shutdown => exact (s.writeNow_keeps succeeds now.elapsed).1

lemma handle_stopped :
    (s.handle now succeeds r).1.stopped = (s.stopped || s.table.ends now.unixMillis r) := by
  cases r with
  | push key families =>
    rw [handle, Table.ends]
    cases s.table.push key families now.unixMillis with
    | error e => cases e <;> simp [fail]
    | ok p => simp
  | delete key =>
    rw [handle]
    dsimp only
    split_ifs <;> simp [Table.ends]
  | snapshot => simp [handle, Table.ends]
  | flush => simpa [Table.ends] using! (s.writeNow_keeps succeeds now.elapsed).2
  | shutdown => simp [handle, finish, Table.ends]

/-- The answer is that of the table; the file may only add an error of its own. -/
lemma handle_reply : (s.handle now succeeds r).2 ≠ .error .timeout ∧
    ((s.handle now succeeds r).2 = .error .shutDown →
      (s.table.perform now.unixMillis r).2 = some (.error .shutDown)) ∧
    ∀ a, (s.table.perform now.unixMillis r).2 = some a → (s.handle now succeeds r).2 = a := by
  have hfile (x : Except SnapshotError Unit) :
      replyOf x ≠ .error .timeout ∧ replyOf x ≠ .error .shutDown := by
    cases x <;> simp [replyOf]
  cases r with
  | push key families =>
    rw [handle, Table.perform]
    cases s.table.push key families now.unixMillis with
    | ok p => simp
    | error e => cases e <;> simp
  | delete key => simp [handle, Table.perform]
  | snapshot => simp [handle, Table.perform]
  | flush => exact ⟨(hfile _).1, fun h => absurd h (hfile _).2, fun a ha => by cases ha⟩
  | shutdown => exact ⟨(hfile _).1, fun h => absurd h (hfile _).2, fun a ha => by cases ha⟩

end Serializer

end PushGateway
