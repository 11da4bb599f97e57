import Mathlib.Data.List.Induction
import Mathlib.Data.List.Nodup
import PushGateway.Proofs.StoreSessions

/-! Records that fit together: each note follows from those before it. From this alone the order in
which requests are handled is one that the answers, the clock and the queue agree with. -/

namespace PushGateway.Store

/-- The answer of a handled request is that of the table, unless the file has to say something. -/
def Agrees (t : Table) (now : UInt64) (r : Request) (reply : Reply) : Prop :=
  reply ≠ .error .timeout ∧
    (reply = .error .shutDown → (t.perform now r).2 = some (.error .shutDown)) ∧
    ∀ a, (t.perform now r).2 = some a → reply = a

/-- What a note asks of the record before it. Places are served in order, nothing after what ends
the owner, and an answer comes right after its request is handled or turns the request away. -/
def Fits (t₀ : Table) (log : List Note) : Note → Prop
  | .issued c => c.id ∉ (issued log).map Call.id
  | .queued c => c ∈ issued log ∧ c ∉ queued log ∧ c.id ∉ (answered log).map Prod.fst
  | .handled c _ =>
    (∃ rest, queued log = (handled log).map Prod.fst ++ c :: rest) ∧
      t₀.goesOn (handled log) = true ∧ c.id ∉ (answered log).map Prod.fst
  | .answered id reply =>
    id ∉ (answered log).map Prod.fst ∧
      ((∃ log' c now, log = log' ++ [.handled c now] ∧ c.id = id ∧
          Agrees (t₀.replay (handled log')) now c.request reply) ∨
        (∀ p ∈ handled log, p.1.id ≠ id) ∧
          (reply = .error .shutDown ∨
            reply = .error .timeout ∧ ∀ c ∈ queued log, c.id ≠ id))

def Follows (t₀ : Table) (log : List Note) : List Note → Prop
  | [] => True
  | x :: more => Fits t₀ log x ∧ Follows t₀ (log ++ [x]) more

variable {t₀ : Table} {log : List Note}

lemma follows_append {xs ys : List Note} :
    Follows t₀ log (xs ++ ys) ↔ Follows t₀ log xs ∧ Follows t₀ (log ++ xs) ys := by
  induction xs generalizing log with
  | nil => simp [Follows]
  | cons x xs ih => simp [Follows, ih, and_assoc]

lemma fits_of_follows {pre post : List Note} {x : Note} (h : Follows t₀ [] (pre ++ x :: post)) :
    Fits t₀ pre x := by
  have hx := (follows_append.mp h).2
  exact hx.1

section Members

variable {α : Type} {f : Note → Option α} {g : α → Note}

lemma mem_filterMap_iff (hf : ∀ x a, f x = some a ↔ x = g a) {a : α} :
    a ∈ log.filterMap f ↔ g a ∈ log := by
  simp [List.mem_filterMap, hf]

lemma mem_queued {c : Call} : c ∈ queued log ↔ .queued c ∈ log :=
  mem_filterMap_iff fun x _ => by cases x <;> simp

lemma mem_handled {p : Call × UInt64} : p ∈ handled log ↔ .handled p.1 p.2 ∈ log :=
  mem_filterMap_iff (f := Note.handled?) (g := fun p => .handled p.1 p.2) fun x _ => by
    cases x <;> simp [Prod.ext_iff]

lemma mem_answered {p : Nat × Reply} : p ∈ answered log ↔ .answered p.1 p.2 ∈ log :=
  mem_filterMap_iff (f := Note.answered?) (g := fun p => .answered p.1 p.2) fun x _ => by
    cases x <;> simp [Prod.ext_iff]

/-- Notes whose mark is new each time have each mark once. -/
lemma nodup_filterMap (h : Follows t₀ [] log)
    (hf : ∀ log x a, Fits t₀ log x → f x = some a → a ∉ log.filterMap f) :
    (log.filterMap f).Nodup := by
  induction log using List.reverseRecOn with
  | nil => exact List.nodup_nil
  | append_singleton log x ih =>
    have hlog := ih (follows_append.mp h).1
    rw [List.filterMap_append]
    cases hx : f x with
    | none => simpa [hx] using hlog
    | some a =>
      have ha := hf log x a (fits_of_follows h) hx
      rw [List.filterMap_cons_some hx, List.filterMap_nil, List.nodup_append_comm]
      exact List.nodup_cons.mpr ⟨ha, hlog⟩

end Members

section Order

variable (h : Follows t₀ [] log)

include h

lemma answered_nodup : ((answered log).map Prod.fst).Nodup := by
  rw [answered, List.map_filterMap]
  refine nodup_filterMap h fun log x id hx hid => ?_
  rw [← List.map_filterMap]
  cases x <;> cases hid
  exact hx.1

lemma issued_nodup : ((issued log).map Call.id).Nodup := by
  rw [issued, List.map_filterMap]
  refine nodup_filterMap h fun log x id hx hid => ?_
  rw [← List.map_filterMap]
  cases x <;> cases hid
  exact hx

lemma eq_of_id {c d : Call} (hc : c ∈ issued log) (hd : d ∈ issued log) (hid : c.id = d.id) :
    c = d :=
  List.inj_on_of_nodup_map (issued_nodup h) hc hd hid

lemma queued_nodup : (queued log).Nodup := by
  refine nodup_filterMap h fun log x c hx hc => ?_
  cases x <;> cases hc
  exact hx.2.1

lemma handled_prefix_queued : (handled log).map Prod.fst <+: queued log := by
  induction log using List.reverseRecOn with
  | nil => exact List.prefix_refl _
  | append_singleton log x ih =>
    have hx := fits_of_follows h
    have hlog := ih (follows_append.mp h).1
    cases x with
    | issued c => simpa using hlog
    | queued c => simpa using hlog.trans (List.prefix_append _ [c])
    | handled c now =>
      obtain ⟨rest, hrest⟩ := hx.1
      exact ⟨rest, by simp [hrest]⟩
    | answered id reply => simpa using hlog

lemma issued_of_queued {c : Call} (hc : c ∈ queued log) : c ∈ issued log := by
  obtain ⟨pre, post, rfl⟩ := List.append_of_mem (mem_queued.mp hc)
  have hx := (fits_of_follows h).1
  simp [hx]

lemma queued_of_handled {p : Call × UInt64} (hp : p ∈ handled log) : p.1 ∈ queued log :=
  (handled_prefix_queued h).subset (List.mem_map_of_mem hp)

lemma issued_of_handled {p : Call × UInt64} (hp : p ∈ handled log) : p.1 ∈ issued log :=
  issued_of_queued h (queued_of_handled h hp)

lemma handled_nodup : ((handled log).map Prod.fst).Nodup :=
  (queued_nodup h).sublist (handled_prefix_queued h).sublist

lemma not_handled_after {pre post : List Note} {id : Nat} {reply : Reply}
    (hlog : log = pre ++ .answered id reply :: post) {p : Call × UInt64} (hp : p ∈ handled post) :
    p.1.id ≠ id := by
  rintro rfl
  obtain ⟨mid, post', rfl⟩ := List.append_of_mem (mem_handled.mp hp)
  have hx : Follows t₀ []
      ((pre ++ .answered p.1.id reply :: mid) ++ .handled p.1 p.2 :: post') := by
    simpa [hlog] using h
  exact (fits_of_follows hx).2.2 (by simp)

lemma not_queued_after {pre post : List Note} {id : Nat} {reply : Reply}
    (hlog : log = pre ++ .answered id reply :: post) {c : Call} (hc : c ∈ queued post) :
    c.id ≠ id := by
  rintro rfl
  obtain ⟨mid, post', rfl⟩ := List.append_of_mem (mem_queued.mp hc)
  have hx : Follows t₀ [] ((pre ++ .answered c.id reply :: mid) ++ .queued c :: post') := by
    simpa [hlog] using h
  exact (fits_of_follows hx).2.2 (by simp)

lemma not_handled_before {pre post : List Note} {c : Call} (hlog : log = pre ++ .issued c :: post)
    {p : Call × UInt64} (hp : p ∈ handled pre) : p.1 ≠ c := by
  rintro rfl
  rw [hlog] at h
  have hpre := (follows_append.mp h).1
  exact fits_of_follows h (List.mem_map_of_mem (issued_of_handled hpre hp))

/-- An answer is that of a handled request, or turns away one that is never handled. -/
lemma answer_cases {id : Nat} {reply : Reply} (ha : (id, reply) ∈ answered log) :
    (∃ pre c now post, log = pre ++ .handled c now :: post ∧ c.id = id ∧
        Agrees (t₀.replay (handled pre)) now c.request reply) ∨
      (∀ p ∈ handled log, p.1.id ≠ id) ∧
        (reply = .error .shutDown ∨ reply = .error .timeout ∧ ∀ c ∈ queued log, c.id ≠ id) := by
  obtain ⟨pre, post, rfl⟩ := List.append_of_mem (mem_answered.mp ha)
  rcases (fits_of_follows h).2 with ⟨pre', c, now, rfl, hid, hagrees⟩ | ⟨hpre, hreply⟩
  · exact .inl ⟨pre', c, now, .answered id reply :: post, by simp, hid, hagrees⟩
  · refine .inr ⟨fun p hp => ?_, hreply.imp_right fun ht => ⟨ht.1, fun c hc => ?_⟩⟩
    · rw [handled_append, handled_cons] at hp
      exact (List.mem_append.mp hp).elim (hpre p) (not_handled_after h rfl)
    · rw [queued_append, queued_cons] at hc
      exact (List.mem_append.mp hc).elim (ht.2 c) (not_queued_after h rfl)

lemma answer_agrees {before rest : List (Call × UInt64)} {c : Call} {now : UInt64} {reply : Reply}
    (hh : handled log = before ++ (c, now) :: rest) (ha : (c.id, reply) ∈ answered log) :
    Agrees (t₀.replay before) now c.request reply := by
  have hc : (c, now) ∈ handled log := by simp [hh]
  rcases answer_cases h ha with ⟨pre, d, now', post, hlog, hid, hagrees⟩ | ⟨hnot, -⟩
  · have hd : (d, now') ∈ handled log := by simp [hlog]
    obtain rfl := eq_of_id h (issued_of_handled h hd) (issued_of_handled h hc) hid
    have hsplit : handled log = handled pre ++ (d, now') :: handled post := by simp [hlog]
    have hnodup := handled_nodup h
    rw [hsplit, List.map_append, List.map_cons, List.nodup_middle, List.nodup_cons,
      List.mem_append, not_or] at hnodup
    have hcalls : (handled pre).map Prod.fst ++ d :: (handled post).map Prod.fst
        = before.map Prod.fst ++ d :: rest.map Prod.fst := by
      have hmap := congrArg (List.map Prod.fst) (hsplit.symm.trans hh)
      rwa [List.map_append, List.map_append] at hmap
    have hlength := congrArg List.length
      ((List.append_cons_inj_of_notMem hnodup.1.1 hnodup.1.2).mp hcalls).1
    rw [List.length_map, List.length_map] at hlength
    obtain ⟨rfl, htail⟩ := List.append_inj (hsplit.symm.trans hh) hlength
    obtain ⟨-, rfl⟩ := Prod.mk.inj (List.cons.inj htail).1
    exact hagrees
  · exact absurd rfl (hnot _ hc)

lemma goesOn_of_handled {before rest : List (Call × UInt64)} {p : Call × UInt64}
    (hh : handled log = before ++ p :: rest) : t₀.goesOn before = true := by
  induction log using List.reverseRecOn generalizing rest with
  | nil => simp at hh
  | append_singleton log x ih =>
    have hlog := (follows_append.mp h).1
    cases x with
    | handled d now =>
      rw [handled_append] at hh
      rcases List.eq_nil_or_concat rest with rfl | ⟨init, last, rfl⟩
      · rw [← (List.append_inj' hh rfl).1]
        exact (fits_of_follows h).2.1
      · rw [List.concat_eq_append, ← List.cons_append, ← List.append_assoc] at hh
        exact ih hlog (List.append_inj' hh rfl).1
    | _ => exact ih hlog (by simpa using hh)

/-- Nothing is handled after what ends the owner. -/
lemma ends_last {before rest : List (Call × UInt64)} {c : Call} {now : UInt64}
    (hh : handled log = before ++ (c, now) :: rest)
    (hc : (t₀.replay before).ends now c.request = true) : rest = [] := by
  cases rest with
  | nil => rfl
  | cons q rest =>
    have hsplit : handled log = (before ++ [(c, now)]) ++ q :: rest := by
      rw [hh, List.append_assoc, List.singleton_append]
    have hgoes : t₀.goesOn (before ++ [(c, now)]) = true := goesOn_of_handled h hsplit
    rw [Table.goesOn_concat, hc, Bool.not_true, Bool.and_false] at hgoes
    cases hgoes

lemma shutdown_last {before rest : List Call} {c : Call}
    (hh : (handled log).map Prod.fst = before ++ c :: rest) (hc : c.request = .shutdown) :
    rest = [] := by
  obtain ⟨xs, ys, hsplit, -, hys⟩ := List.map_eq_append_iff.mp hh
  obtain ⟨p, zs, rfl, rfl, rfl⟩ := List.map_eq_cons_iff.mp hys
  have hends : (t₀.replay xs).ends p.2 p.1.request = true := Table.ends_eq_true_iff.mpr (.inl hc)
  rw [ends_last h hsplit hends, List.map_nil]

/-- What is handled stops at the first shutdown in the queue. -/
lemma handled_cases {before rest : List Call} {c : Call} (hq : queued log = before ++ c :: rest)
    (hc : c.request = .shutdown) : (handled log).map Prod.fst <+: before ∨
      (handled log).map Prod.fst = before ++ [c] := by
  obtain ⟨tail, htail⟩ := handled_prefix_queued h
  rcases List.append_eq_append_iff.mp (htail.trans hq) with ⟨more, hbefore, -⟩ | ⟨more, hh, hmore⟩
  · exact .inl ⟨more, hbefore.symm⟩
  · cases more with
    | nil => exact .inl ⟨[], by simpa using hh⟩
    | cons d more =>
      obtain rfl : c = d := (List.cons.inj hmore).1
      rw [shutdown_last h hh hc] at hh
      exact .inr hh

end Order

end PushGateway.Store
