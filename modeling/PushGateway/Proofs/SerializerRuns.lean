import PushGateway.Proofs.TableKeys
import PushGateway.Store.Serializer

/-! Runs of the owner of the table. Whatever it meets, its next state is one of a few kinds, so a
property of runs is proved by one look at each kind. -/

namespace PushGateway.Serializer

/-- What the owner can meet: a request, the alarm of its deadline, or that nobody can call any
more. -/
inductive Event
  | request (r : Store.Request)
  | alarm
  | abandoned
  deriving DecidableEq

/-- An event, its moment, and whether a write that is tried then succeeds. -/
structure Step where
  event : Event
  now : Moment
  succeeds : Bool
  deriving DecidableEq

def step (s : Serializer) (p : Step) : Serializer :=
  match p.event with
  | .request r => (s.handle p.now p.succeeds r).1
  | .alarm => s.fire p.now.elapsed p.succeeds
  | .abandoned => (s.finish p.now.elapsed p.succeeds).1

def after (s : Serializer) (steps : List Step) : Serializer := steps.foldl step s

@[simp] lemma after_nil (s : Serializer) : s.after [] = s := rfl

lemma after_append (s : Serializer) (before last : List Step) :
    s.after (before ++ last) = (s.after before).after last := List.foldl_append

lemma after_concat (s : Serializer) (before : List Step) (p : Step) :
    s.after (before ++ [p]) = (s.after before).step p := by
  rw [after_append]
  rfl

section MarkDirty

variable (s : Serializer) (now : Nat)

lemma markDirty_eq : s.markDirty now =
    { s with
      dirty := true
      deadline := if s.file.isSome && s.deadline.isNone then deadlineAfter s.interval now
        else s.deadline } := by
  unfold markDirty arm
  dsimp only
  split <;> rfl

@[simp] lemma markDirty_table : (s.markDirty now).table = s.table := by rw [markDirty_eq]

@[simp] lemma markDirty_file : (s.markDirty now).file = s.file := by rw [markDirty_eq]

@[simp] lemma markDirty_writes : (s.markDirty now).writes = s.writes := by rw [markDirty_eq]

@[simp] lemma markDirty_interval : (s.markDirty now).interval = s.interval := by rw [markDirty_eq]

@[simp] lemma markDirty_dirty : (s.markDirty now).dirty = true := by rw [markDirty_eq]

@[simp] lemma markDirty_stopped : (s.markDirty now).stopped = s.stopped := by rw [markDirty_eq]

lemma markDirty_deadline : (s.markDirty now).deadline =
    if s.file.isSome && s.deadline.isNone then deadlineAfter s.interval now else s.deadline := by
  rw [markDirty_eq]

end MarkDirty

/-- The table is the one that an accepted push or a delete of a group makes. -/
def Changes (s : Serializer) (t : Table) : Prop :=
  (∃ key families now replaced, s.table.push key families now = .ok (t, replaced)) ∨
    ∃ key, s.table.delete key = (t, true)

def saved (s : Serializer) : Serializer :=
  { s with
    file := some (.ofGroups s.table.snapshot)
    writes := s.writes + 1
    dirty := false
    deadline := none }

def calm (s : Serializer) : Serializer := { s with deadline := none }

def stop (s : Serializer) : Serializer := { s with deadline := none, stopped := true }

/-- The states that one event at the given moment can lead to. -/
inductive Outcome (s : Serializer) (now : Nat) : Serializer → Prop
  | kept : Outcome s now s
  | changed (t : Table) : s.Changes t → Outcome s now ({ s with table := t }.markDirty now)
  | written : s.file.isSome = true → Outcome s now s.saved
  | unwritten : s.file.isSome = true → Outcome s now (s.calm.markDirty now)
  | calmed : s.file = none ∨ s.dirty = false → Outcome s now s.calm
  | stopped (s' : Serializer) : Outcome s now s' → Outcome s now s'.stop
  | failed : Outcome s now s.fail

lemma writeNow_without_file {s : Serializer} (h : s.file = none) (now : Nat) (succeeds : Bool) :
    s.writeNow now succeeds = (s.calm, .ok ()) := by
  have hn : s.file.isNone = true := by rw [h]; rfl
  simp [writeNow, write, calm, hn]

lemma writeNow_true {s : Serializer} (h : s.file.isSome = true) (now : Nat) :
    s.writeNow now true = (s.saved, .ok ()) := by
  have hn : s.file.isNone = false := by rw [← Option.not_isSome, h]; rfl
  simp [writeNow, write, saved, hn]

lemma writeNow_false {s : Serializer} (h : s.file.isSome = true) (now : Nat) :
    s.writeNow now false = (s.calm.markDirty now, .error .unwritten) := by
  have hn : s.file.isNone = false := by rw [← Option.not_isSome, h]; rfl
  simp [writeNow, write, calm, hn]

lemma writeNow_outcome (s : Serializer) (now : Nat) (succeeds : Bool) :
    Outcome s now (s.writeNow now succeeds).1 := by
  cases hf : s.file.isSome with
  | false =>
    have hn : s.file = none := by simpa using hf
    rw [writeNow_without_file hn]
    exact .calmed (.inl hn)
  | true =>
    cases succeeds with
    | true =>
      rw [writeNow_true hf]
      exact .written hf
    | false =>
      rw [writeNow_false hf]
      exact .unwritten hf

lemma finish_outcome (s : Serializer) (now : Nat) (succeeds : Bool) :
    Outcome s now (s.finish now succeeds).1 :=
  .stopped _ (writeNow_outcome s now succeeds)

lemma fire_outcome (s : Serializer) (now : Nat) (succeeds : Bool) :
    Outcome s now (s.fire now succeeds) := by
  unfold fire
  by_cases hd : s.dirty = true
  · rw [if_pos hd]
    exact writeNow_outcome s now succeeds
  · rw [if_neg hd]
    exact .calmed (.inr (by simpa using hd))

lemma handle_outcome (s : Serializer) (now : Moment) (succeeds : Bool) (r : Store.Request) :
    Outcome s now.elapsed (s.handle now succeeds r).1 := by
  cases r with
  | push key families =>
    rw [handle]
    cases hp : s.table.push key families now.unixMillis with
    | error e =>
      cases e with
      | invalid e => exact .kept
      | overflow => exact .failed
    | ok p => exact .changed p.1 (.inl ⟨key, families, now.unixMillis, p.2, hp⟩)
  | delete key =>
    rw [handle]
    cases hd : (s.table.delete key).2 with
    | true =>
      have hc : s.Changes (s.table.delete key).1 := .inr ⟨key, Prod.ext rfl hd⟩
      simpa [hd] using! Outcome.changed (s.table.delete key).1 hc
    | false => simpa [hd, Table.delete_absent hd] using! Outcome.kept
  | snapshot => exact .kept
  | flush => exact writeNow_outcome s now.elapsed succeeds
  | shutdown => exact finish_outcome s now.elapsed succeeds

lemma step_outcome (s : Serializer) (p : Step) : Outcome s p.now.elapsed (s.step p) := by
  unfold step
  cases p.event with
  | request r => exact handle_outcome s p.now p.succeeds r
  | alarm => exact fire_outcome s p.now.elapsed p.succeeds
  | abandoned => exact finish_outcome s p.now.elapsed p.succeeds

section Built

variable {s s' : Serializer} {now : Nat}

lemma Outcome.built (h : Outcome s now s') (hs : s.table.Built) : s'.table.Built := by
  induction h with
  | changed t ht =>
    rw [markDirty_table]
    rcases ht with ⟨key, families, ms, replaced, hp⟩ | ⟨key, hd⟩
    · exact hs.push hp
    · simpa [hd] using hs.delete key
  | unwritten => simpa [calm] using hs
  | stopped _ _ ih => exact ih
  | _ => exact hs

lemma built_after (h : s.table.Built) (steps : List Step) : (s.after steps).table.Built := by
  induction steps generalizing s with
  | nil => exact h
  | cons p steps ih => exact ih ((step_outcome s p).built h)

end Built

end PushGateway.Serializer
