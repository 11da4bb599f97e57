import PushGateway.Proofs.TableRuns

/-! The log of a run of pushes and deletes. A key holds what the last change says that settled it,
and a change that was refused or that found nothing to remove might as well not have been made. A
push that passes the checks is refused as well once the numbers are at their end. -/

namespace PushGateway.Table

section Log

inductive Answer
  | replaced (existed : Bool)
  | refused (e : ValidationError)
  | overflowed
  | deleted (existed : Bool)
  deriving DecidableEq

/-- A change with its answer. -/
structure Entry where
  change : Change
  answer : Answer
  deriving DecidableEq

def answer (t : Table) : Change → Answer
  | .push p => match t.push p.key p.families p.now with
    | .ok (_, existed) => .replaced existed
    | .error (.invalid e) => .refused e
    | .error .overflow => .overflowed
  | .delete key => .deleted (t.delete key).2

def log (t : Table) : List Change → List Entry
  | [] => []
  | c :: changes => ⟨c, t.answer c⟩ :: (t.apply c).log changes

namespace Answer

/-- The answer to a change that the table shows. -/
def effective : Answer → Bool
  | .replaced _ => true
  | .refused _ | .overflowed => false
  | .deleted existed => existed

end Answer

namespace Entry

/-- An accepted push to the key, or a delete of it. -/
def settles (key : GroupingKey) : Entry → Bool
  | ⟨.push p, .replaced _⟩ => p.key == key
  | ⟨.push _, .refused _⟩ | ⟨.push _, .overflowed⟩ | ⟨.push _, .deleted _⟩ => false
  | ⟨.delete k, _⟩ => k == key

/-- The entry is what a table answers, and nothing but what is there under the key and whether a
number follows the next one matters for it. -/
def AnswersOf (t : Table) : Entry → Prop
  | ⟨.push p, a⟩ => match Group.build p.key p.families p.now t.nextSeq with
    | .ok _ => a = if t.nextSeq.toNat + 1 < 2 ^ 64 then .replaced (t.get? p.key).isSome
        else .overflowed
    | .error e => a = .refused e
  | ⟨.delete key, a⟩ => a = .deleted (t.get? key).isSome

/-- What the change leaves under its key: nothing, or the families of the push and no others. -/
def Leaves (t : Table) (held : Option Group) : Entry → Prop
  | ⟨.push p, _⟩ => ∃ g, held = some g ∧ Group.build p.key p.families p.now t.nextSeq = .ok g ∧
      g.lastPush = p.now ∧ ∀ name f, g.families.get? name = some f ↔ f ∈ p.families ∧ f.name = name
  | ⟨.delete _, _⟩ => held = none

end Entry

variable {t : Table} {c : Change} {changes : List Change} {key : GroupingKey} {e : Entry}
  {before rest : List Entry}

lemma map_change_log (t : Table) (changes : List Change) :
    (t.log changes).map Entry.change = changes := by
  induction changes generalizing t with
  | nil => rfl
  | cons c changes ih => exact congrArg (c :: ·) (ih (t.apply c))

/-- A log from one of its entries on is a log of the table at that moment. -/
lemma log_eq_append (h : t.log changes = before ++ e :: rest) :
    let s := t.after (before.map Entry.change)
    e = ⟨e.change, s.answer e.change⟩ ∧ rest = (s.apply e.change).log (rest.map Entry.change) ∧
      t.after changes = (s.apply e.change).after (rest.map Entry.change) := by
  induction before generalizing t changes with
  | nil =>
    cases changes with
    | nil => cases h
    | cons c changes =>
      obtain ⟨rfl, rfl⟩ := List.cons.inj h
      rw [map_change_log]
      exact ⟨rfl, rfl, rfl⟩
  | cons d before ih =>
    cases changes with
    | nil => cases h
    | cons c changes =>
      obtain ⟨rfl, hrest⟩ := List.cons.inj h
      exact ih hrest

end Log

section Steps

variable {t : Table} {c : Change} {changes : List Change} {key : GroupingKey}

/-- All that a push in a run can do. -/
lemma push_cases (t : Table) (p : Push) :
    (∃ g, Group.build p.key p.families p.now t.nextSeq = .ok g ∧ t.nextSeq.toNat + 1 < 2 ^ 64 ∧
      t.answer (.push p) = .replaced (t.get? p.key).isSome ∧
      t.apply (.push p) = ⟨t.groups.insert p.key g, t.nextSeq + 1⟩) ∨
    (∃ g, Group.build p.key p.families p.now t.nextSeq = .ok g ∧ ¬t.nextSeq.toNat + 1 < 2 ^ 64 ∧
      t.answer (.push p) = .overflowed ∧ t.apply (.push p) = t) ∨
    ∃ e, Group.build p.key p.families p.now t.nextSeq = .error e ∧
      t.answer (.push p) = .refused e ∧ t.apply (.push p) = t := by
  rw [answer, apply, push_eq]
  cases hb : Group.build p.key p.families p.now t.nextSeq with
  | error e => exact .inr (.inr ⟨e, rfl, rfl, rfl⟩)
  | ok g =>
    dsimp only
    by_cases h : t.nextSeq.toNat + 1 < 2 ^ 64
    · rw [if_pos h]
      exact .inl ⟨g, rfl, h, rfl, rfl⟩
    · rw [if_neg h]
      exact .inr (.inl ⟨g, rfl, h, rfl, rfl⟩)

lemma answersOf (t : Table) (c : Change) : Entry.AnswersOf t ⟨c, t.answer c⟩ := by
  cases c with
  | push p =>
    rcases t.push_cases p with ⟨g, hb, h, ha, -⟩ | ⟨g, hb, h, ha, -⟩ | ⟨e, hb, ha, -⟩
    · rw [ha, Entry.AnswersOf, hb]
      exact (if_pos h).symm
    · rw [ha, Entry.AnswersOf, hb]
      exact (if_neg h).symm
    · rw [ha, Entry.AnswersOf, hb]
  | delete key => rfl

/-- What the change does not settle stays. -/
lemma get?_apply (h : Entry.settles key ⟨c, t.answer c⟩ = false) :
    (t.apply c).get? key = t.get? key := by
  cases c with
  | push p =>
    rcases t.push_cases p with ⟨g, -, -, ha, happly⟩ | ⟨g, -, -, -, happly⟩ | ⟨e, -, -, happly⟩
    · rw [ha] at h
      have hne : key ≠ p.key := Ne.symm (beq_eq_false_iff_ne.mp h)
      rw [happly]
      exact SortedMap.get?_insert_of_ne t.groups g hne
    · rw [happly]
    · rw [happly]
  | delete k =>
    have hne : key ≠ k := Ne.symm (beq_eq_false_iff_ne.mp h)
    exact SortedMap.get?_erase_of_ne t.groups hne

lemma get?_after (h : ∀ e ∈ t.log changes, e.settles key = false) :
    (t.after changes).get? key = t.get? key := by
  induction changes generalizing t with
  | nil => rfl
  | cons c changes ih =>
    obtain ⟨hc, h⟩ := List.forall_mem_cons.mp h
    exact (ih h).trans (get?_apply hc)

lemma leaves_apply (h : Entry.settles key ⟨c, t.answer c⟩ = true) :
    Entry.Leaves t ((t.apply c).get? key) ⟨c, t.answer c⟩ := by
  cases c with
  | push p =>
    rcases t.push_cases p with ⟨g, hb, -, ha, happly⟩ | ⟨g, -, -, ha, -⟩ | ⟨e, -, ha, -⟩
    · rw [ha] at h
      obtain rfl : p.key = key := eq_of_beq h
      obtain ⟨-, -, hg⟩ := Group.build_eq_ok_iff.mp hb
      refine ⟨g, ?_, hb, by rw [hg], Group.get?_of_build hb⟩
      rw [happly]
      exact SortedMap.get?_insert_self t.groups p.key g
    · rw [ha] at h
      cases h
    · rw [ha] at h
      cases h
  | delete k =>
    obtain rfl : k = key := eq_of_beq h
    exact SortedMap.get?_erase_self t.groups k

end Steps

section Effects

variable {t : Table} {c : Change}

lemma apply_eq_self (h : (t.answer c).effective = false) : t.apply c = t := by
  cases c with
  | push p =>
    rcases t.push_cases p with ⟨g, -, -, ha, -⟩ | ⟨g, -, -, -, happly⟩ | ⟨e, -, -, happly⟩
    · rw [ha] at h
      cases h
    · exact happly
    · exact happly
  | delete key => exact delete_absent h

lemma answer_eq_overflowed_iff (t : Table) (c : Change) :
    t.answer c = .overflowed ↔ c.passes = true ∧ ¬t.nextSeq.toNat + 1 < 2 ^ 64 := by
  cases c with
  | push p =>
    rw [← exists_build_iff p t.nextSeq]
    rcases t.push_cases p with ⟨g, hb, h, ha, -⟩ | ⟨g, hb, h, ha, -⟩ | ⟨e, hb, ha, -⟩
    · rw [ha]
      exact iff_of_false nofun fun hfull => hfull.2 h
    · rw [ha]
      exact iff_of_true rfl ⟨⟨g, hb⟩, h⟩
    · rw [ha, hb]
      exact iff_of_false nofun fun ⟨⟨g, hg⟩, _⟩ => by cases hg
  | delete key => exact iff_of_false nofun fun hfull => Bool.false_ne_true hfull.1

/-- Every change is answered exactly if there are numbers for all that passes the checks. -/
lemma all_answered_iff (t : Table) (changes : List Change) :
    (∀ e ∈ t.log changes, e.answer ≠ .overflowed) ↔
      t.nextSeq.toNat + passing changes < 2 ^ 64 := by
  induction changes generalizing t with
  | nil => exact iff_of_true (List.forall_mem_nil _) t.nextSeq.toNat_lt
  | cons c changes ih =>
    have hnext := t.nextSeq_apply c
    have haccepts := t.accepts_iff c
    rw [log, List.forall_mem_cons, ih, ne_eq, answer_eq_overflowed_iff, passing_cons]
    by_cases hp : c.passes = true
    · by_cases h : t.nextSeq.toNat + 1 < 2 ^ 64
      · rw [haccepts.mpr ⟨hp, h⟩, Bool.toNat_true] at hnext
        rw [hnext, if_pos hp]
        omega
      · refine iff_of_false (fun hall => hall.1 ⟨hp, h⟩) ?_
        rw [if_pos hp]
        omega
    · have hfalse : t.accepts c = false := Bool.eq_false_iff.mpr fun ha => hp (haccepts.mp ha).1
      rw [hfalse, Bool.toNat_false] at hnext
      rw [hnext, if_neg hp, and_iff_right fun hfull => hp hfull.1]
      rfl

/-- The changes that the table shows, on their own, are answered as they were among the others. -/
lemma log_filter_effective (t : Table) (changes : List Change) :
    let shown := (t.log changes).filter fun e => e.answer.effective
    t.after (shown.map Entry.change) = t.after changes ∧
      t.log (shown.map Entry.change) = shown := by
  induction changes generalizing t with
  | nil => exact ⟨rfl, rfl⟩
  | cons c changes ih =>
    obtain ⟨hafter, hlog⟩ := ih (t.apply c)
    dsimp only
    rw [log]
    cases hc : (t.answer c).effective with
    | true =>
      rw [List.filter_cons_of_pos (by exact hc)]
      refine ⟨hafter, ?_⟩
      rw [List.map_cons, log, hlog]
    | false =>
      rw [List.filter_cons_of_neg (by simp [hc])]
      have hsame : (t.apply c).after changes = t.after (c :: changes) := rfl
      rw [← hsame, apply_eq_self hc] at *
      exact ⟨hafter, hlog⟩

end Effects

/-- After any run from any table. -/
theorem run_refines_map (t : Table) (changes : List Change) :
    let log := t.log changes
    let shown := log.filter fun e => e.answer.effective
    log.map Entry.change = changes ∧
    (∀ key, (∀ e ∈ log, e.settles key = false) → (t.after changes).get? key = t.get? key) ∧
    (∀ before e rest, log = before ++ e :: rest →
      e.AnswersOf (t.after (before.map Entry.change)) ∧
      ∀ key, e.settles key = true → (∀ e' ∈ rest, e'.settles key = false) →
        e.Leaves (t.after (before.map Entry.change)) ((t.after changes).get? key)) ∧
    (t.after changes).nextSeq.toNat = t.nextSeq.toNat + t.accepted changes ∧
    t.after (shown.map Entry.change) = t.after changes ∧ t.log (shown.map Entry.change) = shown ∧
    ((∀ e ∈ log, e.answer ≠ .overflowed) ↔ t.nextSeq.toNat + passing changes < 2 ^ 64) := by
  intro log shown
  obtain ⟨hafter, hlog⟩ := log_filter_effective t changes
  refine ⟨map_change_log t changes, fun key => get?_after, fun before e rest hlog => ?_,
    nextSeq_after t changes, hafter, hlog, all_answered_iff t changes⟩
  obtain ⟨hanswer, hrest, hafter⟩ := log_eq_append hlog
  rw [hanswer]
  refine ⟨answersOf _ _, fun key he hsilent => ?_⟩
  rw [hrest] at hsilent
  rw [hafter, get?_after hsilent]
  exact leaves_apply he

/-- A table of one restored group that leaves a single number: a push of what passes the checks has
no answer, and no later one has. -/
theorem last_number_unanswered :
    let x : GroupingKey := ⟨.ofList [("job", "x")], by decide, by decide⟩
    let y : GroupingKey := ⟨.ofList [("job", "y")], by decide, by decide⟩
    let t : Table := ⟨.ofList [(x, ⟨x, .empty, 1, 0xFFFFFFFFFFFFFFFE⟩)], 0xFFFFFFFFFFFFFFFF⟩
    let first : Change := .push ⟨y, [⟨"up", "", .gauge, []⟩], 2⟩
    ofGroups? [⟨x, .empty, 1, 0xFFFFFFFFFFFFFFFE⟩] = some t ∧
      t.push y [⟨"up", "", .gauge, []⟩] 2 = .error .overflow ∧
      (t.log [first, .delete x, first]).map Entry.answer
        = [.overflowed, .deleted true, .overflowed] ∧
      (t.after [first]).get? y = none := by
  decide +kernel

end PushGateway.Table
