import PushGateway.Gateway
import PushGateway.Proofs.GroupValidity

/-! What the gateway is to its callers: a map that leads from the job, or the instance of a
job, that a route names to the payload that was last accepted there, with answers that are
written out. -/

namespace PushGateway.Gateway

open Http (Response)

structure Place where
  job : String
  inst : Option String
  deriving DecidableEq

/-- The calls of the handlers, with texts as the routes hand them over. -/
inductive Call
  | push (place : Place) (body : String)
  | delete (place : Place)
  | scrape
  deriving DecidableEq

def Call.place? : Call → Option Place
  | .push place _ | .delete place => some place
  | .scrape => none

namespace Place

def pairs (p : Place) : List (String × String) :=
  (Name.jobLabel, p.job) :: p.inst.toList.map fun i => (Name.instanceLabel, i)

/-- The labels that no sample pushed to the place may have. -/
def labels (p : Place) : List String := p.pairs.map Prod.fst

lemma isKeyLabel_jobLabel : isKeyLabel Name.jobLabel = true := by decide

lemma isKeyLabel_instanceLabel : isKeyLabel Name.instanceLabel = true := by decide

lemma isKeyLabel_of_mem {p : Place} {q : String × String} (h : q ∈ p.pairs) :
    isKeyLabel q.1 = true := by
  rcases List.mem_cons.mp h with rfl | h
  · exact isKeyLabel_jobLabel
  · obtain ⟨i, -, rfl⟩ := List.mem_map.mp h
    exact isKeyLabel_instanceLabel

def key (p : Place) : GroupingKey where
  labels := .ofList p.pairs
  nonempty := SortedMap.ofList_ne_nil (List.cons_ne_nil _ _)
  keyLabels := fun _ hq => isKeyLabel_of_mem (SortedMap.mem_ofList hq)

/-- The first label of the payload that is one of the place. -/
def clash? (p : Place) (families : List Family) : Option ValidationError :=
  families.findSome? fun f =>
    (f.samples.findSome? fun s => s.labels.keys.find? (· ∈ p.labels)).map (.labelCollision f.name)

def value (s : String) : String := "\"" ++ String.ofList (Text.escapeValue s.toList) ++ "\""

/-- What the place is called in an answer. -/
def name (p : Place) : String := match p.inst with
  | none => "job=" ++ value p.job
  | some i => "instance=" ++ value i ++ ",job=" ++ value p.job

def Accepts (p : Place) (body : String) : Prop :=
  ∃ families, Exposition.parse body = .ok families ∧
    ∀ f ∈ families, ∀ s ∈ f.samples, ∀ n ∈ s.labels.keys, n ∉ p.labels

end Place

structure Ledger.Entry where
  families : List Family
  number : Nat

/-- The last payload of each place, with the number of payloads that were accepted before it. -/
structure Ledger where
  payloads : SortedMap GroupingKey Ledger.Entry
  accepted : Nat

namespace Ledger

def empty : Ledger := ⟨.empty, 0⟩

def Entry.group (key : GroupingKey) (e : Entry) : Group :=
  ⟨key, .ofList (e.families.map fun f => (f.name, f)), 0, .ofNat e.number⟩

def record (l : Ledger) (p : Place) (families : List Family) : Ledger :=
  ⟨l.payloads.insert p.key ⟨families, l.accepted⟩, l.accepted + 1⟩

def groups (l : Ledger) : List Group := (l.payloads.mapEntries Entry.group).values

section Responses

def answered (status : Nat) (body : String) : Response :=
  ⟨status, some "application/json", none, body⟩

def stored (p : Place) : Response := answered 202 <|
  "\x7b\"success\":true,\"data\":\x7b\"group\":" ++ (Json.str p.name).render ++ "\x7d\x7d"

def deleted (p : Place) (existed : Bool) : Response := answered 202 <|
  "\x7b\"success\":true,\"data\":\x7b\"group\":" ++ (Json.str p.name).render ++ ",\"existed\":"
    ++ (if existed then "true" else "false") ++ "\x7d\x7d"

def refused (message : String) : Response := answered 400 <|
  "\x7b\"success\":false,\"error\":" ++ (Json.str message).render ++ "\x7d"

def scraped (text : String) : Response :=
  ⟨200, some "text/plain; version=0.0.4; charset=utf-8", none, text⟩

end Responses

def respond (l : Ledger) : Call → Ledger × Response
  | .push p body => match Exposition.parse body with
    | .error e => (l, refused e.message)
    | .ok families => match p.clash? families with
      | some e => (l, refused ("invalid push: " ++ e.message))
      | none => (l.record p families, stored p)
  | .delete p => ({ l with payloads := l.payloads.erase p.key },
      deleted p (l.payloads.contains p.key))
  | .scrape => (l, scraped (Exposition.render (merge l.groups).families))

def after (l : Ledger) (calls : List Call) : Ledger := calls.foldl (fun l c => (l.respond c).1) l

def responses (l : Ledger) : List Call → List Response
  | [] => []
  | c :: calls => (l.respond c).2 :: (l.respond c).1.responses calls

end Ledger

namespace Place

variable {p q : Place} {families : List Family} {body : String}

lemma pairs_nodup (p : Place) : (p.pairs.map Prod.fst).Nodup := by
  obtain ⟨job, inst⟩ := p
  cases inst with
  | none => simp [pairs]
  | some i =>
    have hne : Name.jobLabel ≠ Name.instanceLabel := by decide
    simpa [pairs] using hne

lemma keyOf_eq (p : Place) : keyOf p.job p.inst = .ok p.key := by
  have hpairs := GroupingKey.ofPairs_eq_ok (List.cons_ne_nil _ _)
    (fun _ h => p.isKeyLabel_of_mem h) p.pairs_nodup
  obtain ⟨job, inst⟩ := p
  cases inst with
  | none => exact hpairs
  | some i => exact hpairs

lemma get?_key (p : Place) (n : String) :
    p.key.get? n = (p.pairs.find? fun q => q.1 == n).map Prod.snd := by
  have hget := SortedMap.get?_foldl_insert p.pairs_nodup SortedMap.empty n
  rw [SortedMap.get?_empty, Option.or_none] at hget
  exact hget

lemma get?_key_job (p : Place) : p.key.get? Name.jobLabel = some p.job := by
  simp [get?_key, pairs]

lemma get?_key_instance (p : Place) : p.key.get? Name.instanceLabel = p.inst := by
  have hne : (Name.jobLabel == Name.instanceLabel) = false := by decide
  obtain ⟨job, inst⟩ := p
  cases inst <;> simp [get?_key, pairs, hne]

lemma key_injective : Function.Injective key := by
  intro p q h
  have hjob := congrArg (fun k => k.get? Name.jobLabel) h
  have hinst := congrArg (fun k => k.get? Name.instanceLabel) h
  simp only [get?_key_job, get?_key_instance, Option.some.injEq] at hjob hinst
  cases p
  cases q
  cases hjob
  cases hinst
  rfl

lemma containsLabel_key (p : Place) : p.key.containsLabel = fun n => decide (n ∈ p.labels) := by
  funext n
  rw [Bool.eq_iff_iff, decide_eq_true_iff]
  change (p.key.get? n).isSome = true ↔ _
  rw [get?_key, Option.isSome_map, List.find?_isSome, labels, List.mem_map]
  simp only [beq_iff_eq]

/-- The label of the instance comes before that of the job. -/
lemma text_key (p : Place) : p.key.text = p.name := by
  have hbefore : before Name.instanceLabel Name.jobLabel = true := by decide
  have hjob : Name.jobLabel.toList = ['j', 'o', 'b'] := by decide
  have hinst : Name.instanceLabel.toList = ['i', 'n', 's', 't', 'a', 'n', 'c', 'e'] := by decide
  obtain ⟨job, inst⟩ := p
  apply String.toList_injective
  cases inst with
  | none =>
    have hpairs : (key ⟨job, none⟩).pairs = [(Name.jobLabel, job)] := rfl
    rw [GroupingKey.text, hpairs]
    simp [Labels.pairsText, Labels.pairText, hjob, name, value]
  | some i =>
    have hpairs : (key ⟨job, some i⟩).pairs = [(Name.instanceLabel, i), (Name.jobLabel, job)] :=
      if_pos hbefore
    rw [GroupingKey.text, hpairs]
    simp [Labels.pairsText, Labels.pairText, hjob, hinst, List.intercalate, name, value]

lemma clash?_eq_none_iff : p.clash? families = none ↔
    ∀ f ∈ families, ∀ s ∈ f.samples, ∀ n ∈ s.labels.keys, n ∉ p.labels := by
  simp [clash?, List.findSome?_eq_none_iff, List.find?_eq_none]

end Place

namespace Ledger

variable {l l' : Ledger} {p : Place} {body : String} {c : Call} {calls : List Call}

lemma respond_accepted (l : Ledger) {families : List Family}
    (hparse : Exposition.parse body = .ok families)
    (hapart : ∀ f ∈ families, ∀ s ∈ f.samples, ∀ n ∈ s.labels.keys, n ∉ p.labels) :
    l.respond (.push p body) = (l.record p families, stored p) := by
  simp only [respond, hparse, Place.clash?_eq_none_iff.mpr hapart]

lemma respond_refused (l : Ledger) (h : ¬p.Accepts body) :
    ∃ message, l.respond (.push p body) = (l, refused message) := by
  rw [respond]
  cases hparse : Exposition.parse body with
  | error e => exact ⟨_, rfl⟩
  | ok families =>
    cases hclash : p.clash? families with
    | none => exact absurd ⟨families, hparse, Place.clash?_eq_none_iff.mp hclash⟩ h
    | some e => exact ⟨"invalid push: " ++ e.message, by simp only [hclash]⟩

lemma respond_push (l : Ledger) (p : Place) (body : String) :
    (l.respond (.push p body)).2.status = 202 ∧ p.Accepts body ∨
      (l.respond (.push p body)).2.status = 400 ∧ ¬p.Accepts body ∧
        (l.respond (.push p body)).1 = l := by
  by_cases ha : p.Accepts body
  · obtain ⟨families, hparse, hapart⟩ := id ha
    rw [l.respond_accepted hparse hapart]
    exact .inl ⟨rfl, ha⟩
  · obtain ⟨message, hr⟩ := l.respond_refused ha
    rw [hr]
    exact .inr ⟨rfl, ha, rfl⟩

lemma status_respond (l : Ledger) (c : Call) : (l.respond c).2.status = 200 ∨
    (l.respond c).2.status = 202 ∨ (l.respond c).2.status = 400 := by
  cases c with
  | push p body =>
    rcases l.respond_push p body with ⟨h, -⟩ | ⟨h, -⟩
    · exact .inr (.inl h)
    · exact .inr (.inr h)
  | delete p => exact .inr (.inl rfl)
  | scrape => exact .inl rfl

lemma status_of_mem_responses {r : Response} (h : r ∈ l.responses calls) :
    r.status = 200 ∨ r.status = 202 ∨ r.status = 400 := by
  induction calls generalizing l with
  | nil => cases h
  | cons c calls ih =>
    rcases List.mem_cons.mp h with rfl | h
    · exact l.status_respond c
    · exact ih h

section Accepted

/-- What is accepted does not depend on what was accepted before. -/
lemma accepted_respond (l : Ledger) (c : Call) : (l.respond c).1.accepted = l.accepted ∧
      (∀ l', (respond l' c).1.accepted = l'.accepted) ∨
    (l.respond c).1.accepted = l.accepted + 1 ∧
      ∀ l', (respond l' c).1.accepted = l'.accepted + 1 := by
  cases c with
  | push p body =>
    by_cases ha : p.Accepts body
    · obtain ⟨families, hparse, hapart⟩ := ha
      have hone (l : Ledger) : (l.respond (.push p body)).1.accepted = l.accepted + 1 := by
        rw [respond_accepted l hparse hapart]
        rfl
      exact .inr ⟨hone l, hone⟩
    · have hnone (l : Ledger) : (l.respond (.push p body)).1.accepted = l.accepted := by
        obtain ⟨message, hr⟩ := l.respond_refused ha
        rw [hr]
      exact .inl ⟨hnone l, hnone⟩
  | delete p => exact .inl ⟨rfl, fun _ => rfl⟩
  | scrape => exact .inl ⟨rfl, fun _ => rfl⟩

lemma accepted_le_after (l : Ledger) (calls : List Call) :
    l.accepted ≤ (l.after calls).accepted := by
  induction calls generalizing l with
  | nil => exact Nat.le_refl _
  | cons c calls ih =>
    refine Nat.le_trans ?_ (ih (l.respond c).1)
    rcases l.accepted_respond c with ⟨h, -⟩ | ⟨h, -⟩ <;> omega

lemma accepted_after_filter_le (keep : Call → Bool) (calls : List Call)
    (h : l'.accepted ≤ l.accepted) :
    (l'.after (calls.filter keep)).accepted ≤ (l.after calls).accepted := by
  induction calls generalizing l l' with
  | nil => exact h
  | cons c calls ih =>
    have hstep : l'.accepted ≤ (l.respond c).1.accepted ∧
        (l'.respond c).1.accepted ≤ (l.respond c).1.accepted := by
      rcases l.accepted_respond c with ⟨hc, hall⟩ | ⟨hc, hall⟩ <;>
      · have hc' := hall l'
        omega
    by_cases hc : keep c = true
    · rw [List.filter_cons_of_pos hc]
      exact ih hstep.2
    · rw [List.filter_cons_of_neg hc]
      exact ih hstep.1

end Accepted

section Presence

lemma contains_insert (m : SortedMap GroupingKey Entry) (p q : Place) (e : Entry) :
    (m.insert q.key e).contains p.key = (decide (p = q) || m.contains p.key) := by
  by_cases h : p = q
  · subst h
    simp [SortedMap.contains, SortedMap.get?_insert_self]
  · have hk : p.key ≠ q.key := fun hk => h (Place.key_injective hk)
    simp [SortedMap.contains, SortedMap.get?_insert_of_ne m e hk, h]

lemma contains_erase (m : SortedMap GroupingKey Entry) (p q : Place) :
    (m.erase q.key).contains p.key = (!decide (p = q) && m.contains p.key) := by
  by_cases h : p = q
  · subst h
    simp [SortedMap.contains, SortedMap.get?_erase_self]
  · have hk : p.key ≠ q.key := fun hk => h (Place.key_injective hk)
    simp [SortedMap.contains, SortedMap.get?_erase_of_ne m hk, h]

lemma contains_respond_congr (c : Call)
    (h : l.payloads.contains p.key = l'.payloads.contains p.key) :
    (l.respond c).1.payloads.contains p.key = (l'.respond c).1.payloads.contains p.key := by
  cases c with
  | push q body =>
    by_cases ha : q.Accepts body
    · obtain ⟨families, hparse, hapart⟩ := ha
      rw [respond_accepted l hparse hapart, respond_accepted l' hparse hapart]
      simp only [record, contains_insert, h]
    · obtain ⟨message, hr⟩ := l.respond_refused ha
      obtain ⟨message', hr'⟩ := l'.respond_refused ha
      rw [hr, hr']
      exact h
  | delete q => simp only [respond, contains_erase, h]
  | scrape => exact h

lemma contains_respond_apart (l : Ledger) (h : c.place? ≠ some p) :
    (l.respond c).1.payloads.contains p.key = l.payloads.contains p.key := by
  cases c with
  | push q body =>
    have hne : p ≠ q := fun he => h (congrArg some he.symm)
    by_cases ha : q.Accepts body
    · obtain ⟨families, hparse, hapart⟩ := ha
      simp [respond_accepted l hparse hapart, record, contains_insert, hne]
    · obtain ⟨message, hr⟩ := l.respond_refused ha
      rw [hr]
  | delete q =>
    have hne : p ≠ q := fun he => h (congrArg some he.symm)
    simp [respond, contains_erase, hne]
  | scrape => rfl

/-- Only the calls at a place matter for whether it has a payload. -/
lemma contains_after_filter (calls : List Call)
    (h : l.payloads.contains p.key = l'.payloads.contains p.key) :
    (l.after calls).payloads.contains p.key
      = (l'.after (calls.filter fun c => c.place? = some p)).payloads.contains p.key := by
  induction calls generalizing l l' with
  | nil => exact h
  | cons c calls ih =>
    by_cases hc : c.place? = some p
    · rw [List.filter_cons_of_pos (by simpa using hc)]
      exact ih (contains_respond_congr c h)
    · rw [List.filter_cons_of_neg (by simpa using hc)]
      exact ih ((l.contains_respond_apart hc).trans h)

end Presence

end Ledger

end PushGateway.Gateway
