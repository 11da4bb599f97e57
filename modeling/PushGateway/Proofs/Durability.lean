import Mathlib.Data.List.Induction
import PushGateway.Proofs.SerializerRuns
import PushGateway.Proofs.SnapshotRows
import PushGateway.Proofs.TableInvariant
import PushGateway.Store.Host

/-! What is on disk. At every moment of a run the file holds one whole table: the one of the last
write that succeeded, or what was found when the store was opened. As long as the clock can show
the deadline, a change that is not on disk has a write scheduled. -/

namespace PushGateway

open Snapshot (Contents Disk Lease Restored)

section Found

lemma valid_ofOpened (d : Disk) (l : Lease) : ∀ g ∈ (Restored.ofOpened d l).groups, g.Valid := by
  rw [Restored.ofOpened]
  cases h : l.contents.load with
  | ok groups => exact Contents.valid_of_load h
  | error e => exact List.forall_mem_nil _

lemma valid_restore (d : Disk) (file : String) :
    ∀ g ∈ (Snapshot.restore d file).groups, g.Valid := by
  unfold Snapshot.restore
  split
  · exact valid_ofOpened _ _
  · exact List.forall_mem_nil _
  · split
    · unfold Snapshot.reopen
      split
      · exact valid_ofOpened _ _
      · exact List.forall_mem_nil _
    · exact List.forall_mem_nil _

lemma valid_restored (d : Disk) (file : Option String) :
    ∀ g ∈ (Host.restored d file).groups, g.Valid := by
  cases file with
  | none => exact List.forall_mem_nil _
  | some file => exact valid_restore d file

end Found

namespace Serializer

/-- The owner of the table of a store that was just opened. -/
def opened? (o : StoreOptions) (d : Disk) : Option Serializer :=
  (Host.tenant? o (Host.restored d o.persistenceFile)).map fun t => t.store.serializer

lemma opened?_eq_some {o : StoreOptions} {d : Disk} {start : Serializer}
    (h : opened? o d = some start) :
    let found := Host.restored d o.persistenceFile
    ∃ table, Table.ofGroups? found.groups = some table ∧
      start = .start table (found.file.map Lease.contents) o.persistenceInterval := by
  obtain ⟨tenant, ht, rfl⟩ := Option.map_eq_some_iff.mp h
  obtain ⟨table, htable, hdepth⟩ := Option.bind_eq_some_iff.mp ht
  split_ifs at hdepth
  obtain rfl := Option.some.inj hdepth
  exact ⟨table, htable, rfl⟩

/-- The last write of the run that succeeded wrote this table. -/
def LastWrote (start : Serializer) (steps : List Step) (t : Table) : Prop :=
  ∃ before last rest, steps = before ++ last :: rest ∧
    (start.after (before ++ [last])).writes = (start.after before).writes + 1 ∧
    (start.after steps).writes = (start.after (before ++ [last])).writes ∧
    (start.after before).table = t

section Outcome

variable {s s' : Serializer} {now : Nat}

lemma Outcome.interval_eq (h : Outcome s now s') : s'.interval = s.interval := by
  induction h with
  | stopped _ _ ih => exact ih
  | changed => simp
  | unwritten => simp [calm]
  | _ => rfl

/-- A write that succeeds puts the table into the file, and nothing else touches the file. -/
lemma Outcome.file_cases (h : Outcome s now s') :
    (s'.file = s.file ∧ s'.writes = s.writes) ∨
      (s'.file = some (.ofGroups s.table.snapshot) ∧ s'.writes = s.writes + 1 ∧
        s'.table = s.table) := by
  induction h with
  | written => exact .inr ⟨rfl, rfl, rfl⟩
  | stopped _ _ ih => exact ih
  | _ => simp [calm, fail]

lemma Outcome.clean_cases (h : Outcome s now s') (hd : s'.dirty = false) :
    (s'.file = some (.ofGroups s.table.snapshot) ∧ s'.table = s.table) ∨
      (s.dirty = false ∧ s'.file = s.file ∧ s'.writes = s.writes ∧ s'.table = s.table) := by
  induction h with
  | written => exact .inl ⟨rfl, rfl⟩
  | kept => exact .inr ⟨hd, rfl, rfl, rfl⟩
  | failed => exact .inr ⟨hd, rfl, rfl, rfl⟩
  | calmed => exact .inr ⟨hd, rfl, rfl, rfl⟩
  | stopped _ _ ih => exact ih hd
  | _ => simp at hd

lemma Outcome.held (h : Outcome s now s') : s'.file.isSome = s.file.isSome := by
  induction h with
  | written hf => exact hf.symm
  | stopped _ _ ih => exact ih
  | _ => simp [calm, fail]

lemma Outcome.dirty_of_deadline (h : Outcome s now s')
    (hs : s.deadline.isSome = true → s.dirty = true) :
    s'.deadline.isSome = true → s'.dirty = true := by
  induction h with
  | kept => exact hs
  | changed => simp
  | unwritten => simp
  | written => simp [saved]
  | calmed => simp [calm]
  | stopped => simp [stop]
  | failed => exact hs

/-- Whatever leaves the table dirty sets a deadline, if the clock can show it. -/
lemma Outcome.scheduled (h : Outcome s now s') (hf : s.file.isSome = true)
    (hs : s.stopped = false → s.dirty = true → s.deadline.isSome = true)
    (hn : now + s.interval.nanos < Moment.limit) :
    s'.stopped = false → s'.dirty = true → s'.deadline.isSome = true := by
  have harm : (deadlineAfter s.interval now).isSome = true := by
    rw [deadlineAfter, if_pos hn]
    rfl
  induction h with
  | kept => exact hs
  | changed t ht =>
    intro _ _
    rw [markDirty_deadline]
    cases s.deadline <;> simp [hf, harm]
  | unwritten =>
    intro _ _
    rw [markDirty_deadline]
    simp [calm, hf, harm]
  | written => simp [saved]
  | calmed hc =>
    intro _ hd
    rcases hc with hn | hc
    · simp [hn] at hf
    · simp [calm, hc] at hd
  | stopped => simp [stop]
  | failed => simp [fail]

end Outcome

lemma LastWrote.concat {start : Serializer} {steps : List Step} {t : Table} {p : Step}
    (h : LastWrote start steps t)
    (hw : (start.after (steps ++ [p])).writes = (start.after steps).writes) :
    LastWrote start (steps ++ [p]) t := by
  obtain ⟨before, last, rest, rfl, hlast, hrest, ht⟩ := h
  exact ⟨before, last, rest ++ [p], by simp, hlast, hw.trans hrest, ht⟩

structure Durable (start : Serializer) (steps : List Step) : Prop where
  interval : (start.after steps).interval = start.interval
  clean : (start.after steps).dirty = false → ∀ c, (start.after steps).file = some c →
    c.Gives (start.after steps).table.snapshot ∨
      ((start.after steps).writes = 0 ∧ (start.after steps).table = start.table)
  committed : ∀ c, (start.after steps).file = some c →
    ((start.after steps).writes = 0 ∧ start.file = some c) ∨
      ∃ t, LastWrote start steps t ∧ c.Gives t.snapshot
  pending : (start.after steps).deadline.isSome = true → (start.after steps).dirty = true
  scheduled : ∀ now, (∀ p ∈ steps, p.now.elapsed ≤ now) →
    now + start.interval.nanos < Moment.limit → (start.after steps).file.isSome = true →
    (start.after steps).stopped = false → (start.after steps).dirty = true →
    (start.after steps).deadline.isSome = true

lemma Durable.concat {start : Serializer} {steps : List Step} (hb : start.table.Built)
    (h : Durable start steps) (p : Step) : Durable start (steps ++ [p]) := by
  have ho := step_outcome (start.after steps) p
  rw [← after_concat] at ho
  have hgives : (Contents.ofGroups (start.after steps).table.snapshot).Gives
      (start.after steps).table.snapshot :=
    Contents.gives_ofGroups (built_after hb steps).keyed.keys_nodup (built_after hb steps).valid
  refine ⟨ho.interval_eq.trans h.interval, ?_, ?_,
    ho.dirty_of_deadline h.pending, ?_⟩
  · intro hd c hc
    rcases ho.clean_cases hd with ⟨hf, ht⟩ | ⟨hd, hf, hw, ht⟩
    · obtain rfl := Option.some.inj (hf.symm.trans hc)
      rw [ht]
      exact .inl hgives
    · rw [hw, ht]
      exact h.clean hd c (hf.symm.trans hc)
  · intro c hc
    -- the last successful write is the old one, or this very step
    rcases ho.file_cases with ⟨hf, hw⟩ | ⟨hf, hw, ht⟩
    · rcases h.committed c (hf.symm.trans hc) with ⟨h₀, hs⟩ | ⟨t, ht, hct⟩
      · exact .inl ⟨hw.trans h₀, hs⟩
      · exact .inr ⟨t, ht.concat hw, hct⟩
    · obtain rfl := Option.some.inj (hf.symm.trans hc)
      exact .inr ⟨_, ⟨steps, p, [], rfl, hw, rfl, rfl⟩, hgives⟩
  · intro now hnow hlim hfile
    have hsteps : ∀ q ∈ steps, q.now.elapsed ≤ now := fun q hq => hnow q (List.mem_append_left _ hq)
    have hp : p.now.elapsed ≤ now := hnow p (by simp)
    have hf : (start.after steps).file.isSome = true := by rwa [← ho.held]
    refine ho.scheduled hf (h.scheduled now hsteps hlim hf) ?_
    rw [h.interval]
    omega

lemma durable_after {table : Table} (hb : table.Built) (file : Option Contents)
    (interval : Duration) (steps : List Step) : Durable (.start table file interval) steps := by
  induction steps using List.reverseRecOn with
  | nil =>
    refine ⟨rfl, fun _ _ _ => .inr ⟨rfl, rfl⟩, fun _ hc => .inl ⟨rfl, hc⟩, ?_, ?_⟩
    · simp [start]
    · simp [start]
  | append_singleton steps p ih => exact ih.concat hb p

/-- Nobody reads the file but by loading it, so what it holds is what loading it gives. -/
theorem run_durable {o : StoreOptions} {d : Disk} {start : Serializer}
    (hs : opened? o d = some start) (steps : List Step) {c : Contents}
    (hc : (start.after steps).file = some c) :
    let found := Host.restored d o.persistenceFile
    let s := start.after steps
    (s.dirty = false → c.Gives s.table.snapshot ∨
      (s.writes = 0 ∧ Table.ofGroups? found.groups = some s.table)) ∧
    ((s.deadline.isSome = true → s.dirty = true) ∧
      ∀ now, s.stopped = false → (∀ p ∈ steps, p.now.elapsed ≤ now) →
        now + o.persistenceInterval.nanos < Moment.limit →
        (s.deadline.isSome = true ↔ s.dirty = true)) ∧
    ((s.writes = 0 ∧ found.file.map Lease.contents = some c) ∨
      ∃ t, LastWrote start steps t ∧ c.Gives t.snapshot) := by
  intro found s
  obtain ⟨table, htable, rfl⟩ := opened?_eq_some hs
  have hb := Table.built_ofGroups htable (valid_restored d o.persistenceFile)
  have h := durable_after hb (found.file.map Lease.contents) o.persistenceInterval steps
  refine ⟨fun hd => ?_, ⟨h.pending, fun now hs hnow hlim => ⟨h.pending, ?_⟩⟩, h.committed c hc⟩
  · rcases h.clean hd c hc with hgives | ⟨hw, ht⟩
    · exact .inl hgives
    · exact .inr ⟨hw, htable.trans (congrArg some ht.symm)⟩
  · have hf : s.file.isSome = true := by rw [hc]; rfl
    exact h.scheduled now hnow hlim hf hs

/-- A store that finds a group in its file. A push is flushed, and the write of the next
one fails. -/
theorem run_durable_failed_alarm :
    let a : GroupingKey := ⟨.ofList [("job", "a")], by decide, by decide⟩
    let b : GroupingKey := ⟨.ofList [("job", "b")], by decide, by decide⟩
    let old : Group := ⟨b, .empty, 1, 5⟩
    let new : Group := ⟨a, .empty, 3, 6⟩
    let d : Disk := (Disk.empty ["srv"]).set ["srv", "state"] (.database (.ofGroups [old]))
    let o : StoreOptions := { StoreOptions.default with persistenceFile := some "/srv/state" }
    let steps : List Step := [⟨.request (.push a []), ⟨5, 3⟩, true⟩,
      ⟨.request .flush, ⟨7, 3⟩, true⟩, ⟨.request (.delete b), ⟨8, 3⟩, true⟩,
      ⟨.alarm, ⟨300000000008, 300000⟩, false⟩]
    ∃ start c, opened? o d = some start ∧ start.table.snapshot = [old] ∧
      (start.after steps).file = some c ∧ c.load = .ok [new, old] ∧
      (start.after steps).table.snapshot = [new] ∧ (start.after steps).dirty = true ∧
      (start.after steps).deadline.isSome = true ∧
      ∃ t, LastWrote start steps t ∧ c.Gives t.snapshot := by
  intro a b old new d o steps
  let start : Serializer := .start ⟨.ofList [(b, old)], 6⟩ (some (.ofGroups [old])) ⟨300000000000⟩
  let c : Contents := .ofGroups [new, old]
  have hs : opened? o d = some start := by decide +kernel
  have hc : (start.after steps).file = some c := by decide +kernel
  obtain ⟨-, ⟨-, hb⟩, hfile⟩ := run_durable hs steps hc
  refine ⟨start, c, hs, rfl, hc, by decide +kernel, by decide +kernel, rfl,
    (hb 300000000008 rfl (by decide) (by decide)).mpr rfl, ?_⟩
  exact hfile.resolve_left fun h => absurd h.1 (by decide)

end Serializer

end PushGateway
