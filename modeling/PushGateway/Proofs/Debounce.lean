import Mathlib.Data.List.Induction
import PushGateway.Proofs.SerializerRuns
import PushGateway.Proofs.SnapshotRows

/-! Writes are spread in time. The alarm tries to write no sooner than one interval after the last
attempt and after the change that it was set for, and a change waits at most one interval for the
next attempt. -/

namespace PushGateway.Serializer

open Snapshot (Contents)

/-- Whether a push is accepted or a delete removes a group. -/
def changes (s : Serializer) (p : Step) : Bool :=
  match p.event with
  | .request (.push key families) => (s.table.push key families p.now.unixMillis).toBool
  | .request (.delete key) => (s.table.delete key).2
  | _ => false

/-- Whether a push is rejected, a delete finds no group, or the groups are only asked for. -/
def idles (s : Serializer) (p : Step) : Bool :=
  match p.event with
  | .request (.push key families) => match s.table.push key families p.now.unixMillis with
    | .error (.invalid _) => true
    | .error .overflow | .ok _ => false
  | .request (.delete key) => !(s.table.delete key).2
  | .request .snapshot => true
  | _ => false

/-- Whether the step tries to write: with a willing disk it would count one more write. -/
def attempts (s : Serializer) (p : Step) : Bool :=
  (s.step { p with succeeds := true }).writes == s.writes + 1

/-- What follows an attempt to write. -/
def tried (s : Serializer) (now : Nat) (succeeds : Bool) : Serializer :=
  if succeeds then s.saved else s.calm.markDirty now

/-- What a step of an owner with a file is: nothing, a change, an alarm without need, an attempt to
write, the last attempt, or the end without one. -/
inductive Turn (s : Serializer) (p : Step) : Serializer → Prop
  | idle : s.idles p = true → s.changes p = false → s.attempts p = false → Turn s p s
  | changed (t : Table) : s.idles p = false → s.changes p = true → s.attempts p = false →
      Turn s p ({ s with table := t }.markDirty p.now.elapsed)
  | spared : s.idles p = false → s.changes p = false → s.attempts p = false → s.dirty = false →
      Turn s p s.calm
  | tried : s.idles p = false → s.changes p = false → s.attempts p = true →
      Turn s p (s.tried p.now.elapsed p.succeeds)
  | last : s.idles p = false → s.changes p = false → s.attempts p = true →
      Turn s p (s.tried p.now.elapsed p.succeeds).stop
  | failed : s.idles p = false → s.changes p = false → s.attempts p = false → Turn s p s.fail

lemma writeNow_eq_tried {s : Serializer} (h : s.file.isSome = true) (now : Nat) (succeeds : Bool) :
    (s.writeNow now succeeds).1 = s.tried now succeeds := by
  cases succeeds with
  | true => rw [writeNow_true h]; rfl
  | false => rw [writeNow_false h]; rfl

lemma step_turn {s : Serializer} (h : s.file.isSome = true) (p : Step) : Turn s p (s.step p) := by
  have hsaved (now : Nat) : (s.writeNow now true).1.writes = s.writes + 1 := by
    rw [writeNow_true h]
    rfl
  obtain ⟨event, now, succeeds⟩ := p
  cases event with
  | request r =>
    cases r with
    | push key families =>
      cases hp : s.table.push key families now.unixMillis with
      | error e =>
        cases e with
        | invalid e =>
          have hs (b : Bool) : s.step ⟨.request (.push key families), now, b⟩ = s := by
            simp [step, handle, hp]
          rw [hs]
          exact .idle (by simp [idles, hp]) (by simp [changes, hp, Except.toBool])
            (by simp [attempts, hs])
        | overflow =>
          have hs (b : Bool) : s.step ⟨.request (.push key families), now, b⟩ = s.fail := by
            simp [step, handle, hp]
          rw [hs]
          exact .failed (by simp [idles, hp]) (by simp [changes, hp, Except.toBool])
            (by simp [attempts, hs, fail])
      | ok result =>
        have hs (b : Bool) : s.step ⟨.request (.push key families), now, b⟩
            = { s with table := result.1 }.markDirty now.elapsed := by
          simp [step, handle, hp]
        rw [hs]
        exact .changed result.1 (by simp [idles, hp])
          (by simp [changes, hp, Except.toBool]) (by simp [attempts, hs])
    | delete key =>
      cases hd : (s.table.delete key).2 with
      | false =>
        have hs (b : Bool) : s.step ⟨.request (.delete key), now, b⟩ = s := by
          simp [step, handle, hd, Table.delete_absent hd]
        rw [hs]
        exact .idle (by simp [idles, hd]) (by simp [changes, hd]) (by simp [attempts, hs])
      | true =>
        have hs (b : Bool) : s.step ⟨.request (.delete key), now, b⟩
            = { s with table := (s.table.delete key).1 }.markDirty now.elapsed := by
          simp [step, handle, hd]
        rw [hs]
        exact .changed _ (by simp [idles, hd]) (by simp [changes, hd]) (by simp [attempts, hs])
    | snapshot => exact .idle rfl rfl (by simp [attempts, step, handle])
    | flush =>
      have hs : s.step ⟨.request .flush, now, succeeds⟩ = s.tried now.elapsed succeeds :=
        writeNow_eq_tried h now.elapsed succeeds
      rw [hs]
      exact .tried rfl rfl (beq_iff_eq.mpr (hsaved now.elapsed))
    | shutdown =>
      have hs : s.step ⟨.request .shutdown, now, succeeds⟩ = (s.tried now.elapsed succeeds).stop :=
        congrArg stop (writeNow_eq_tried h now.elapsed succeeds)
      rw [hs]
      exact .last rfl rfl (beq_iff_eq.mpr (hsaved now.elapsed))
  | alarm =>
    cases hd : s.dirty with
    | false =>
      have hs (b : Bool) : s.step ⟨.alarm, now, b⟩ = s.calm := by simp [step, fire, hd, calm]
      rw [hs]
      exact .spared rfl rfl (by simp [attempts, hs, calm]) hd
    | true =>
      have hs (b : Bool) : s.step ⟨.alarm, now, b⟩ = (s.writeNow now.elapsed b).1 := by
        simp [step, fire, hd]
      rw [hs, writeNow_eq_tried h]
      exact .tried rfl rfl (by simp [attempts, hs, hsaved])
  | abandoned =>
    have hs : s.step ⟨.abandoned, now, succeeds⟩ = (s.tried now.elapsed succeeds).stop :=
      congrArg stop (writeNow_eq_tried h now.elapsed succeeds)
    rw [hs]
    exact .last rfl rfl (beq_iff_eq.mpr (hsaved now.elapsed))

/-- Runs in time. Nobody is heard once the owner has stopped, the clock never goes back, it can show
every moment one interval on, and the alarm is not heard before the deadline. -/
inductive Timed (start : Serializer) : List Step → Prop
  | nil : Timed start []
  | concat {steps : List Step} (p : Step) : Timed start steps →
      (start.after steps).stopped = false →
      (∀ q ∈ steps, q.now.elapsed ≤ p.now.elapsed) →
      p.now.elapsed + start.interval.nanos < Moment.limit →
      (p.event = .alarm → ∃ due, (start.after steps).deadline = some due ∧ due ≤ p.now.elapsed) →
      Timed start (steps ++ [p])

/-- The alarm is heard exactly when it is due: no step is later than the deadline that is pending,
and `now` none that is pending has come. -/
def Prompt (now : Nat) (s : Serializer) : List Step → Prop
  | [] => ∀ due, s.deadline = some due → now < due
  | p :: steps => (∀ due, s.deadline = some due → p.now.elapsed ≤ due) ∧ Prompt now (s.step p) steps

def note (r : Serializer × List Step) (p : Step) : Serializer × List Step :=
  (r.1.step p,
    if (r.1.step p).writes = r.1.writes then if r.1.changes p then r.2 ++ [p] else r.2 else [])

/-- The changes since the last write that succeeded, in their order. -/
def unwritten (start : Serializer) (steps : List Step) : List Step :=
  (steps.foldl note (start, [])).2

/-- At `q` the deadline `due` is set, because there is none or because a write failed, and it is
kept up to the end without an attempt to write. -/
structure Arms (start : Serializer) (before : List Step) (q : Step) (rest : List Step)
    (due : Nat) : Prop where
  due_eq : due = q.now.elapsed + start.interval.nanos
  fresh : (start.after before).deadline = none ∨ (start.after before).attempts q = true
  stays : ∀ more, more <+: rest → (start.after (before ++ q :: more)).deadline = some due
  quiet : ∀ more p others, rest = more ++ p :: others →
    (start.after (before ++ q :: more)).attempts p = false

lemma foldl_note_fst (start : Serializer) (noted steps : List Step) :
    (steps.foldl note (start, noted)).1 = start.after steps := by
  induction steps generalizing start noted with
  | nil => rfl
  | cons p steps ih => exact ih (start.step p) _

lemma unwritten_concat (start : Serializer) (steps : List Step) (p : Step) :
    start.unwritten (steps ++ [p]) =
      if ((start.after steps).step p).writes = (start.after steps).writes then
        if (start.after steps).changes p then start.unwritten steps ++ [p]
        else start.unwritten steps
      else [] := by
  rw [unwritten, List.foldl_append, List.foldl_cons, List.foldl_nil, note, foldl_note_fst]
  rfl

lemma Arms.concat {start : Serializer} {before rest : List Step} {q p : Step} {due : Nat}
    (h : Arms start before q rest due)
    (hd : (start.after (before ++ q :: (rest ++ [p]))).deadline = some due)
    (hp : (start.after (before ++ q :: rest)).attempts p = false) :
    Arms start before q (rest ++ [p]) due := by
  refine ⟨h.due_eq, h.fresh, ?_, ?_⟩
  · intro more hm
    rcases List.prefix_concat_iff.mp hm with rfl | hm
    · exact hd
    · exact h.stays more hm
  · intro more x others heq
    rcases List.eq_nil_or_concat others with rfl | ⟨others, y, rfl⟩
    · obtain ⟨rfl, hx⟩ := List.append_inj' heq rfl
      obtain rfl : p = x := (List.cons.inj hx).1
      exact hp
    · have heq' : rest ++ [p] = (more ++ x :: others) ++ [y] := by simpa using heq
      exact h.quiet more x others (List.append_inj_left' heq' rfl)

lemma Arms.single {start : Serializer} {before : List Step} {p : Step}
    (hf : (start.after before).deadline = none ∨ (start.after before).attempts p = true)
    (hd : (start.after (before ++ [p])).deadline
      = some (p.now.elapsed + start.interval.nanos)) :
    Arms start before p [] (p.now.elapsed + start.interval.nanos) := by
  refine ⟨rfl, hf, ?_, ?_⟩
  · intro more hm
    rw [List.prefix_nil.mp hm]
    exact hd
  · intro more x others heq
    simp at heq

/-- The owner has its file, and a deadline that is pending was set one interval before it. -/
structure Spaced (start : Serializer) (steps : List Step) : Prop where
  held : (start.after steps).file.isSome = true
  interval : (start.after steps).interval = start.interval
  armed : ∀ due, (start.after steps).deadline = some due →
    ∃ before q rest, steps = before ++ q :: rest ∧ Arms start before q rest due

section Turns

variable {s s' : Serializer} {p : Step}

lemma tried_file (s : Serializer) (now : Nat) (succeeds : Bool) : (s.tried now succeeds).file =
    if succeeds then some (.ofGroups s.table.snapshot) else s.file := by
  cases succeeds with
  | true => rfl
  | false => exact markDirty_file s.calm now

lemma tried_interval (s : Serializer) (now : Nat) (succeeds : Bool) :
    (s.tried now succeeds).interval = s.interval := by
  cases succeeds with
  | true => rfl
  | false => exact markDirty_interval s.calm now

lemma Turn.file_eq (h : Turn s p s') : s'.file =
    if s.attempts p && p.succeeds then some (.ofGroups s.table.snapshot) else s.file := by
  cases h with
  | idle _ _ ha => simp [ha]
  | changed t _ _ ha => simp [ha]
  | spared _ _ ha => simp [ha, calm]
  | tried _ _ ha => simp [ha, tried_file]
  | last _ _ ha => simp [ha, stop, tried_file]
  | failed _ _ ha => simp [ha, fail]

lemma Turn.held (h : Turn s p s') (hf : s.file.isSome = true) : s'.file.isSome = true := by
  rw [h.file_eq]
  split_ifs
  · rfl
  · exact hf

lemma Turn.interval_eq (h : Turn s p s') : s'.interval = s.interval := by
  cases h with
  | idle => rfl
  | changed => simp
  | spared => rfl
  | tried => exact tried_interval s _ _
  | last => exact tried_interval s _ _
  | failed => rfl

/-- A deadline that is pending after a step was pending before it, or the step set it. -/
lemma Turn.deadline_cases (h : Turn s p s') (hf : s.file.isSome = true)
    (hn : p.now.elapsed + s.interval.nanos < Moment.limit) {due : Nat}
    (hd : s'.deadline = some due) :
    (s.deadline = some due ∧ s.attempts p = false) ∨
      (due = p.now.elapsed + s.interval.nanos ∧ (s.deadline = none ∨ s.attempts p = true)) := by
  have hset : deadlineAfter s.interval p.now.elapsed
      = some (p.now.elapsed + s.interval.nanos) := if_pos hn
  cases h with
  | idle _ _ ha => exact .inl ⟨hd, ha⟩
  | changed t _ _ ha =>
    rw [markDirty_deadline] at hd
    cases hs : s.deadline with
    | none =>
      simp only [hs, hf, hset, Option.isNone_none, Bool.and_self, if_true] at hd
      exact .inr ⟨(Option.some.inj hd).symm, .inl rfl⟩
    | some d =>
      simp only [hs, Option.isNone_some, Bool.and_false, Bool.false_eq_true, if_false] at hd
      exact .inl ⟨hd, ha⟩
  | spared => cases hd
  | tried _ _ ha =>
    cases hp : p.succeeds with
    | true =>
      rw [hp] at hd
      cases hd
    | false =>
      rw [hp, Serializer.tried, if_neg Bool.false_ne_true, markDirty_deadline] at hd
      simp only [calm, hf, hset, Option.isNone_none, Bool.and_self, if_true] at hd
      exact .inr ⟨(Option.some.inj hd).symm, .inr ha⟩
  | last => cases hd
  | failed _ _ ha => exact .inl ⟨hd, ha⟩

end Turns

lemma Timed.spaced {start : Serializer} (hf : start.file.isSome = true)
    (hd : start.deadline = none) {steps : List Step} (h : Timed start steps) :
    Spaced start steps := by
  induction h with
  | nil => exact ⟨hf, rfl, fun due hdue => by rw [after_nil, hd] at hdue; cases hdue⟩
  | @concat steps p _ _ _ hlim _ ih =>
    have ht := step_turn ih.held p
    rw [← after_concat] at ht
    refine ⟨ht.held ih.held, ht.interval_eq.trans ih.interval, fun due hdue => ?_⟩
    rcases ht.deadline_cases ih.held (ih.interval.symm ▸ hlim) hdue with ⟨hs, ha⟩ | ⟨hs, ha⟩
    · obtain ⟨before, q, rest, rfl, harms⟩ := ih.armed due hs
      exact ⟨before, q, rest ++ [p], by simp, harms.concat (by simpa using hdue) ha⟩
    · rw [ih.interval] at hs
      subst hs
      exact ⟨steps, p, [], rfl, .single ha hdue⟩

section Bounds

variable {start : Serializer} {steps before rest : List Step} {p : Step}

lemma Timed.of_concat (h : Timed start (steps ++ [p])) :
    Timed start steps ∧ (∀ q ∈ steps, q.now.elapsed ≤ p.now.elapsed) ∧
      p.now.elapsed + start.interval.nanos < Moment.limit ∧
      (p.event = .alarm →
        ∃ due, (start.after steps).deadline = some due ∧ due ≤ p.now.elapsed) := by
  generalize hs : steps ++ [p] = all at h
  cases h with
  | nil => simp at hs
  | concat q h _ hnow hlim halarm =>
    obtain ⟨rfl, hq⟩ := List.append_inj' hs rfl
    obtain rfl : p = q := (List.cons.inj hq).1
    exact ⟨h, hnow, hlim, halarm⟩

lemma Timed.initial (h : Timed start (before ++ rest)) : Timed start before := by
  induction rest using List.reverseRecOn with
  | nil => simpa using h
  | append_singleton rest p ih =>
    rw [← List.append_assoc] at h
    exact ih h.of_concat.1

lemma Timed.at_step (h : Timed start (before ++ p :: rest)) : Timed start (before ++ [p]) := by
  rw [← List.singleton_append, ← List.append_assoc] at h
  exact h.initial

lemma Arms.le_due {q x : Step} {due : Nat} (h : Arms start before q rest due)
    (ht : Timed start (before ++ q :: rest)) (hx : x ∈ before ++ [q]) :
    x.now.elapsed + start.interval.nanos ≤ due := by
  rw [h.due_eq]
  rcases List.mem_append.mp hx with hx | hx
  · have hle := ht.at_step.of_concat.2.1 x hx
    omega
  · obtain rfl := List.mem_singleton.mp hx
    exact Nat.le_refl _

/-- Attempts to write are no later than the step at which the pending deadline was set. -/
lemma Arms.mem_of_attempts {before' rest' : List Step} {q x : Step} {due : Nat}
    (h : Arms start before q rest due) (heq : before ++ q :: rest = before' ++ x :: rest')
    (hx : (start.after before').attempts x = true) : x ∈ before ++ [q] := by
  rcases List.append_eq_append_iff.mp heq with ⟨more, rfl, hm⟩ | ⟨more, rfl, hm⟩
  · cases more with
    | nil => simp [(List.cons.inj hm).1]
    | cons y more =>
      obtain ⟨rfl, hrest⟩ := List.cons.inj hm
      rw [h.quiet more x rest' hrest] at hx
      cases hx
  · cases more with
    | nil => simp [(List.cons.inj hm).1]
    | cons y more =>
      obtain ⟨rfl, -⟩ := List.cons.inj hm
      simp

lemma Prompt.last {now : Nat} (h : Prompt now start steps) :
    ∀ due, (start.after steps).deadline = some due → now < due := by
  induction steps generalizing start with
  | nil => exact h
  | cons p steps ih => exact ih h.2

lemma Prompt.step {now : Nat} (h : Prompt now start (before ++ p :: rest)) :
    ∀ due, (start.after before).deadline = some due → p.now.elapsed ≤ due := by
  induction before generalizing start with
  | nil => exact h.1
  | cons q before ih => exact ih h.2

lemma mem_of_mem_unwritten {c : Step} (h : c ∈ start.unwritten steps) : c ∈ steps := by
  induction steps using List.reverseRecOn with
  | nil => cases h
  | append_singleton steps p ih =>
    rw [unwritten_concat] at h
    split_ifs at h
    · rcases List.mem_append.mp h with h | h
      · exact List.mem_append_left _ (ih h)
      · exact List.mem_append_right _ h
    · exact List.mem_append_left _ (ih h)
    · cases h

lemma Turn.waits {s s' : Serializer} {due : Nat} (h : Turn s p s') (ha : s.attempts p = false)
    (hdirty : s.dirty = true) (hd : s.deadline = some due) :
    s'.dirty = true ∧ s'.deadline = some due := by
  cases h with
  | idle => exact ⟨hdirty, hd⟩
  | changed => exact ⟨markDirty_dirty _ _, by simp [markDirty_deadline, hd]⟩
  | spared _ _ _ hclean => rw [hclean] at hdirty; cases hdirty
  | tried _ _ ht => rw [ht] at ha; cases ha
  | last _ _ ht => rw [ht] at ha; cases ha
  | failed => exact ⟨hdirty, hd⟩

lemma Spaced.after_change (h : Spaced start steps) (ht : Timed start (steps ++ [p]))
    (hc : (start.after steps).changes p = true) :
    ∃ due, (start.after (steps ++ [p])).dirty = true ∧
      (start.after (steps ++ [p])).deadline = some due ∧
      due ≤ p.now.elapsed + start.interval.nanos := by
  obtain ⟨hsteps, hnow, hlim, -⟩ := ht.of_concat
  have hset : deadlineAfter (start.after steps).interval p.now.elapsed
      = some (p.now.elapsed + start.interval.nanos) := by
    rw [h.interval]
    exact if_pos hlim
  have hturn := step_turn h.held p
  rw [← after_concat] at hturn
  generalize start.after (steps ++ [p]) = s' at hturn
  cases hturn with
  | changed t =>
    rw [markDirty_dirty, markDirty_deadline]
    cases hd : (start.after steps).deadline with
    | none => exact ⟨_, rfl, by simp [h.held, hset], Nat.le_refl _⟩
    | some due =>
      obtain ⟨before, q, rest, rfl, harms⟩ := h.armed due hd
      refine ⟨due, rfl, by simp, ?_⟩
      have hq := hnow q (by simp)
      rw [harms.due_eq]
      omega
  | idle _ hn => rw [hn] at hc; cases hc
  | spared _ hn => rw [hn] at hc; cases hc
  | tried _ hn => rw [hn] at hc; cases hc
  | last _ hn => rw [hn] at hc; cases hc
  | failed _ hn => rw [hn] at hc; cases hc

/-- A change is in an attempt to write within an interval, or a deadline within the interval is
still to come. -/
lemma Timed.attempted_or_waits {c : Step} (hf : start.file.isSome = true)
    (hd : start.deadline = none) (h : Timed start (before ++ c :: rest))
    (hp : ∀ before' p rest', before ++ c :: rest = before' ++ p :: rest' →
      ∀ due, (start.after before').deadline = some due → p.now.elapsed ≤ due)
    (hc : (start.after before).changes c = true) :
    (∃ between q later, rest = between ++ q :: later ∧
      (start.after (before ++ c :: between)).attempts q = true ∧
      q.now.elapsed ≤ c.now.elapsed + start.interval.nanos) ∨
    ∃ due, (start.after (before ++ c :: rest)).dirty = true ∧
      (start.after (before ++ c :: rest)).deadline = some due ∧
      due ≤ c.now.elapsed + start.interval.nanos := by
  induction rest using List.reverseRecOn with
  | nil => exact .inr ((h.initial.spaced hf hd).after_change h hc)
  | append_singleton rest p ih =>
    have hassoc : before ++ c :: (rest ++ [p]) = (before ++ c :: rest) ++ [p] := by simp
    rw [hassoc] at h hp ⊢
    have hrest := h.of_concat.1
    have hinit : ∀ before' x rest', before ++ c :: rest = before' ++ x :: rest' →
        ∀ due, (start.after before').deadline = some due → x.now.elapsed ≤ due :=
      fun before' x rest' heq => hp before' x (rest' ++ [p]) (by simp [heq])
    rcases ih hrest hinit with ⟨between, q, later, rfl, hq, hle⟩ | ⟨due, hdirty, hdue, hle⟩
    · exact .inl ⟨between, q, later ++ [p], by simp, hq, hle⟩
    · cases ha : (start.after (before ++ c :: rest)).attempts p with
      | true => exact .inl ⟨rest, p, [], rfl, ha, Nat.le_trans (hp _ p [] rfl due hdue) hle⟩
      | false =>
        have hturn := step_turn (hrest.spaced hf hd).held p
        rw [← after_concat] at hturn
        obtain ⟨hdirty', hdue'⟩ := hturn.waits ha hdirty hdue
        exact .inr ⟨due, hdirty', hdue', hle⟩

end Bounds

lemma Turn.eq_of_idles {s s' : Serializer} {p : Step} (h : Turn s p s') (hi : s.idles p = true) :
    s' = s ∧ s.attempts p = false := by
  cases h with
  | idle _ _ ha => exact ⟨rfl, ha⟩
  | changed t hn => rw [hn] at hi; cases hi
  | spared hn => rw [hn] at hi; cases hi
  | tried hn => rw [hn] at hi; cases hi
  | last hn => rw [hn] at hi; cases hi
  | failed hn => rw [hn] at hi; cases hi

/-- What an attempt that succeeds puts into the file is told by loading it. -/
theorem writes_debounced (table : Table) (file : Contents) (interval : Duration)
    (steps : List Step) (h : Timed (.start table (some file) interval) steps) :
    let start := Serializer.start table (some file) interval
    (∀ before p rest, steps = before ++ p :: rest → p.event = .alarm →
      (∀ earlier q later, before = earlier ++ q :: later →
        (start.after earlier).attempts q = true →
        q.now.elapsed + interval.nanos ≤ p.now.elapsed) ∧
      ∃ earlier q later due, before = earlier ++ q :: later ∧ Arms start earlier q later due ∧
        ∀ c ∈ start.unwritten (earlier ++ [q]),
          c.now.elapsed + interval.nanos ≤ p.now.elapsed) ∧
    (∀ now, Prompt now start steps → ∀ before c rest, steps = before ++ c :: rest →
      (start.after before).changes c = true → c.now.elapsed + interval.nanos ≤ now →
      ∃ between q later, rest = between ++ q :: later ∧
        (start.after (before ++ c :: between)).attempts q = true ∧
        q.now.elapsed ≤ c.now.elapsed + interval.nanos) ∧
    (∀ before p rest, steps = before ++ p :: rest →
      (if (start.after before).attempts p && p.succeeds
        then table.Built → ∃ c, (start.after (before ++ [p])).file = some c ∧
          c.Gives (start.after before).table.snapshot
        else (start.after (before ++ [p])).file = (start.after before).file) ∧
      ((start.after before).idles p = true → (start.after before).attempts p = false ∧
        start.after (before ++ p :: rest) = start.after (before ++ rest))) := by
  intro start
  have hspaced {before rest : List Step} (heq : steps = before ++ rest) : Spaced start before := by
    rw [heq] at h
    exact h.initial.spaced rfl rfl
  refine ⟨?_, ?_, ?_⟩
  · intro before p rest heq ha
    have htimed := (heq ▸ h).at_step
    obtain ⟨hbefore, -, -, halarm⟩ := htimed.of_concat
    obtain ⟨due, hdue, hle⟩ := halarm ha
    obtain ⟨earlier, q, later, rfl, harms⟩ := (hspaced heq).armed due hdue
    refine ⟨?_, earlier, q, later, due, rfl, harms, ?_⟩
    · intro earlier' x later' hx hattempt
      exact Nat.le_trans (harms.le_due hbefore (harms.mem_of_attempts hx hattempt)) hle
    · intro c hc
      exact Nat.le_trans (harms.le_due hbefore (mem_of_mem_unwritten hc)) hle
  · rintro now hp before c rest rfl hc hnow
    have hstep : ∀ before' p rest', before ++ c :: rest = before' ++ p :: rest' →
        ∀ due, (start.after before').deadline = some due → p.now.elapsed ≤ due :=
      fun _ _ _ heq => (heq ▸ hp).step
    rcases h.attempted_or_waits rfl rfl hstep hc with ha | ⟨due, -, hdue, hle⟩
    · exact ha
    · exact absurd (hp.last due hdue) (Nat.not_lt.mpr (Nat.le_trans hle hnow))
  · intro before p rest heq
    have hturn := step_turn (hspaced heq).held p
    rw [← after_concat] at hturn
    refine ⟨?_, fun hi => ?_⟩
    · have hfile := hturn.file_eq
      split_ifs at hfile ⊢
      · intro hb
        have hbefore : (start.after before).table.Built := built_after hb before
        exact ⟨_, hfile, Contents.gives_ofGroups hbefore.keyed.keys_nodup hbefore.valid⟩
      · exact hfile
    · obtain ⟨hs, ha⟩ := hturn.eq_of_idles hi
      refine ⟨ha, ?_⟩
      rw [← List.singleton_append, ← List.append_assoc, after_append, hs, ← after_append]

/-- A change is flushed, the next one waits for the alarm, that write fails and is tried again. -/
theorem writes_debounced_second_alarm :
    let a : GroupingKey := ⟨.ofList [("job", "a")], by decide, by decide⟩
    let b : GroupingKey := ⟨.ofList [("job", "b")], by decide, by decide⟩
    let old : Group := ⟨a, .empty, 0, 4⟩
    let new : Group := ⟨a, .empty, 1, 5⟩
    let start := Serializer.start ⟨.ofList [(a, old)], 5⟩ (some ⟨none, .empty⟩) ⟨10⟩
    let flushed : List Step := [⟨.request (.push a []), ⟨1, 1⟩, true⟩,
      ⟨.request .flush, ⟨2, 2⟩, true⟩]
    let change : Step := ⟨.request (.push b []), ⟨3, 3⟩, true⟩
    let failed : List Step := [⟨.alarm, ⟨13, 13⟩, false⟩,
      ⟨.request (.delete b), ⟨14, 14⟩, true⟩]
    let retry : Step := ⟨.alarm, ⟨23, 23⟩, true⟩
    let steps := (flushed ++ change :: failed) ++ [retry]
    Timed start steps ∧ Prompt 24 start steps ∧
      (∀ earlier q later, flushed ++ change :: failed = earlier ++ q :: later →
        (start.after earlier).attempts q = true → q.now.elapsed + 10 ≤ 23) ∧
      (∃ between q later, failed ++ [retry] = between ++ q :: later ∧
        (start.after (flushed ++ change :: between)).attempts q = true ∧
        q.now.elapsed ≤ 13) ∧
      ∃ c, (start.after steps).file = some c ∧ c.Gives [new] ∧ c.load = .ok [new] := by
  intro a b old new start flushed change failed retry steps
  have ht : Timed start steps := by
    refine @Timed.concat _ (steps.take 5) _ (@Timed.concat _ (steps.take 4) _
      (@Timed.concat _ (steps.take 3) _ (@Timed.concat _ (steps.take 2) _
        (@Timed.concat _ (steps.take 1) _ (@Timed.concat _ [] _ .nil
          ?_ ?_ ?_ ?_) ?_ ?_ ?_ ?_) ?_ ?_ ?_ ?_) ?_ ?_ ?_ ?_) ?_ ?_ ?_ ?_) ?_ ?_ ?_ ?_
    all_goals decide
  have hp : Prompt 24 start steps := by
    refine ⟨?_, ?_, ?_, ?_, ?_, ?_, fun due hdue => by cases hdue⟩
    all_goals decide
  have hbuild : Group.build a [] 0 4 = .ok old := rfl
  have hone : Table.ofGroups? [old] = some ⟨.ofList [(a, old)], 5⟩ := rfl
  have hb : Table.Built ⟨.ofList [(a, old)], 5⟩ :=
    Table.built_ofGroups hone (List.forall_mem_singleton.mpr (Group.valid_of_build hbuild))
  obtain ⟨hlower, hupper, hwrites⟩ := writes_debounced _ ⟨none, .empty⟩ ⟨10⟩ _ ht
  obtain ⟨c, hc, hgives⟩ := (hwrites _ retry [] rfl).1 hb
  have hfile : (start.after steps).file = some (.ofGroups [new]) := by decide +kernel
  obtain rfl := Option.some.inj (hfile.symm.trans hc)
  refine ⟨ht, hp, (hlower _ retry [] rfl rfl).1, ?_, _, hc, hgives, by decide +kernel⟩
  exact hupper 24 hp flushed change (failed ++ [retry]) rfl rfl (by decide)

end PushGateway.Serializer
