import Mathlib.Data.List.Perm.Basic
import PushGateway.Proofs.StoreLogs

/-! What every session keeps: its record fits together, and the record, the queue and the table
agree with each other. -/

namespace PushGateway.Store

open Session (Event)

/-- The calls that are neither answered nor handled yet. -/
def pending (s : Store) : List Call := s.queue ++ (s.reserved ++ s.waiting)

/-- Every call is answered once or is pending. The queue is what entered it and was not taken out,
and after the end of the owner what entered it since then. The table is what the handled requests
made of it. -/
structure Sound (t₀ : Table) (s : Session) : Prop where
  follows : Follows t₀ [] s.log
  table : s.store.serializer.table = t₀.replay (handled s.log)
  numbered : (issued s.log).map Call.id = List.range s.count
  known : ∀ c ∈ s.store.pending, c ∈ issued s.log
  accounted : ((answered s.log).map Prod.fst ++ s.store.pending.map Call.id).Perm
    (List.range s.count)
  replied : ∀ p ∈ handled s.log, p.1.id ∈ (answered s.log).map Prod.fst
  fresh : ∀ c ∈ s.store.reserved ++ s.store.waiting, c ∉ queued s.log
  running : s.store.isShutDown = false →
    queued s.log = (handled s.log).map Prod.fst ++ s.store.queue ∧
      t₀.goesOn (handled s.log) = true
  stopped : s.store.isShutDown = true → s.store.waiting = [] ∧
    ∃ pre c now post, s.log = pre ++ .handled c now :: post ∧
      (t₀.replay (handled pre)).ends now c.request = true ∧ queued post = s.store.queue

namespace Sound

variable {t₀ : Table} {s : Session}

section Facts

variable (h : Sound t₀ s)

include h

lemma pending_nodup : (s.store.pending.map Call.id).Nodup :=
  (List.nodup_append.mp (h.accounted.nodup_iff.mpr List.nodup_range)).2.1

lemma not_answered {c : Call} (hc : c ∈ s.store.pending) :
    c.id ∉ (answered s.log).map Prod.fst := by
  intro ha
  have hnodup := List.nodup_append.mp (h.accounted.nodup_iff.mpr List.nodup_range)
  exact hnodup.2.2 _ ha _ (List.mem_map_of_mem hc) rfl

lemma not_handled {id : Nat} (ha : id ∉ (answered s.log).map Prod.fst) :
    ∀ p ∈ handled s.log, p.1.id ≠ id := by
  rintro p hp rfl
  exact ha (h.replied p hp)

lemma open_of_waiting {c : Call} (hc : c ∈ s.store.waiting) : s.store.isShutDown = false := by
  rw [← Bool.not_eq_true]
  intro hst
  rw [(h.stopped hst).1] at hc
  cases hc

lemma count_notMem_answered : s.count ∉ (answered s.log).map Prod.fst := by
  intro ha
  have hr := h.accounted.mem_iff.mp (List.mem_append_left _ ha)
  exact absurd (List.mem_range.mp hr) (Nat.lt_irrefl _)

lemma count_notMem_issued : s.count ∉ (issued s.log).map Call.id := by
  rw [h.numbered]
  exact List.not_mem_range_self

lemma not_queued_of_count {c : Call} (hc : c.id = s.count) : c ∉ queued s.log := by
  intro hq
  have hi := List.mem_map_of_mem (f := Call.id) (issued_of_queued h.follows hq)
  rw [hc] at hi
  exact h.count_notMem_issued hi

end Facts

lemma opened (o : StoreOptions) (table : Table) (file : Option Snapshot.Contents) :
    Sound table (Session.opened o table file) where
  follows := trivial
  table := rfl
  numbered := rfl
  known := by simp [Session.opened, start, pending]
  accounted := by simp [Session.opened, start, pending]
  replied := by simp [Session.opened]
  fresh := by simp [Session.opened, start]
  running := fun _ => ⟨rfl, rfl⟩
  stopped := fun hs => by cases hs

section Call

lemma call_refused (h : Sound t₀ s) (r : Request) (hs : s.store.isShutDown = true) :
    Sound t₀ { s with
      count := s.count + 1
      log := s.log ++ [.issued ⟨s.count, r⟩, .answered s.count (.error .shutDown)] } := by
  obtain ⟨hw, pre, c, now, post, hlog, hends, hqueue⟩ := h.stopped hs
  refine ⟨?_, ?_, ?_, ?_, ?_, ?_, ?_, ?_, fun _ => ⟨hw, pre, c, now,
    post ++ [.issued ⟨s.count, r⟩, .answered s.count (.error .shutDown)], ?_, hends, ?_⟩⟩
  · refine follows_append.mpr ⟨h.follows, h.count_notMem_issued, ⟨?_, .inr ⟨?_, .inl rfl⟩⟩, trivial⟩
    · simpa using h.count_notMem_answered
    · simpa using h.not_handled h.count_notMem_answered
  · simpa using h.table
  · simp [h.numbered, List.range_succ]
  · intro c hc
    rw [issued_append]
    exact List.mem_append_left _ (h.known c hc)
  · rw [List.range_succ]
    refine List.Perm.trans ?_ (h.accounted.append_right [s.count])
    have hcomm := @List.perm_append_comm _ [s.count]
    simpa using hcomm.append_left ((answered s.log).map Prod.fst)
  · intro p hp
    have ha := h.replied p (by simpa using hp)
    simp only [answered_append, List.map_append]
    exact List.mem_append_left _ ha
  · simpa using h.fresh
  · intro hr
    exact absurd (hs.symm.trans hr) (by decide)
  · simp [hlog]
  · simp [hqueue]

/-- The new call is pending, behind those who wait or with a place. -/
lemma call_taken (h : Sound t₀ s) {r : Request} (hs : s.store.isShutDown = false) {store : Store}
    (hserializer : store.serializer = s.store.serializer) (hqueue : store.queue = s.store.queue)
    (hp : (store.reserved ++ store.waiting).Perm
      (s.store.reserved ++ s.store.waiting ++ [⟨s.count, r⟩])) :
    Sound t₀ { s with store, count := s.count + 1, log := s.log ++ [.issued ⟨s.count, r⟩] } := by
  have hpending : store.pending.Perm (s.store.pending ++ [⟨s.count, r⟩]) := by
    rw [pending, pending, hqueue, List.append_assoc]
    exact hp.append_left _
  have hst : store.isShutDown = false := by rw [isShutDown, hserializer]; exact hs
  refine ⟨?_, ?_, ?_, ?_, ?_, ?_, ?_, ?_, ?_⟩
  · exact follows_append.mpr ⟨h.follows, h.count_notMem_issued, trivial⟩
  · simpa [hserializer] using h.table
  · simp [h.numbered, List.range_succ]
  · intro c hc
    rw [issued_append]
    rcases List.mem_append.mp (hpending.mem_iff.mp hc) with hc | hc
    · exact List.mem_append_left _ (h.known c hc)
    · exact List.mem_append_right _ hc
  · rw [List.range_succ]
    refine List.Perm.trans ?_ (h.accounted.append_right [s.count])
    simpa using (hpending.map Call.id).append_left ((answered s.log).map Prod.fst)
  · simpa using h.replied
  · intro c hc
    suffices hnot : c ∉ queued s.log by simpa using hnot
    rcases List.mem_append.mp (hp.mem_iff.mp hc) with hc | hc
    · exact h.fresh c hc
    · rw [List.mem_singleton.mp hc]
      exact h.not_queued_of_count rfl
  · intro _
    simpa [hqueue] using h.running hs
  · intro hr
    exact absurd (hst.symm.trans hr) (by decide)

lemma call (h : Sound t₀ s) (r : Request) : Sound t₀ (s.call r) := by
  unfold Session.call reserve
  cases hs : s.store.isShutDown with
  | true =>
    simp only [if_true]
    exact h.call_refused r hs
  | false =>
    simp only [Bool.false_eq_true, if_false]
    split_ifs
    · refine h.call_taken hs rfl rfl ?_
      rw [List.append_assoc, List.append_assoc]
      exact List.perm_append_comm.append_left s.store.reserved
    · exact h.call_taken hs rfl rfl (by simp)

end Call

section Places

lemma enter (h : Sound t₀ s) (i : Nat) : Sound t₀ { s with store := s.store.enter i } := by
  unfold Store.enter
  split
  · exact h
  · next c hc =>
    split_ifs
    · have hmoved : (s.store.reserved ++ [c] ++ s.store.waiting.eraseIdx i).Perm
          (s.store.reserved ++ s.store.waiting) := by
        obtain ⟨hi, rfl⟩ := List.getElem?_eq_some_iff.mp hc
        simpa using (List.getElem_cons_eraseIdx_perm hi).append_left s.store.reserved
      have hs := h.open_of_waiting (List.mem_of_getElem? hc)
      refine ⟨h.follows, h.table, h.numbered, fun d hd => ?_, ?_, h.replied, fun d hd => ?_,
        h.running, fun hst => absurd (hs.symm.trans hst) (by decide)⟩
      · exact h.known d ((hmoved.append_left s.store.queue).mem_iff.mp hd)
      · exact (((hmoved.append_left s.store.queue).map Call.id).append_left _).trans h.accounted
      · exact h.fresh d (hmoved.mem_iff.mp hd)
    · exact h

lemma send (h : Sound t₀ s) (i : Nat) : Sound t₀ (s.send i) := by
  unfold Session.send
  split
  · exact h
  · next c hc =>
    have hreserved : c ∈ s.store.reserved := List.mem_of_getElem? hc
    have hmem : c ∈ s.store.pending :=
      List.mem_append_right _ (List.mem_append_left _ hreserved)
    have hmoved : (c :: (s.store.reserved.eraseIdx i ++ s.store.waiting)).Perm
        (s.store.reserved ++ s.store.waiting) := by
      obtain ⟨hi, rfl⟩ := List.getElem?_eq_some_iff.mp hc
      exact (List.getElem_cons_eraseIdx_perm hi).append_right s.store.waiting
    have hpending : (s.store.send i).pending.Perm s.store.pending := by
      rw [Store.send, hc, pending, pending, List.append_assoc]
      exact hmoved.append_left s.store.queue
    have hstore : s.store.send i = { s.store with
        queue := s.store.queue ++ [c]
        reserved := s.store.reserved.eraseIdx i } := by rw [Store.send, hc]
    have hnodup := h.pending_nodup.of_map
    rw [pending, ← (hmoved.append_left s.store.queue).nodup_iff] at hnodup
    have hother := (List.nodup_cons.mp (List.nodup_append.mp hnodup).2.1).1
    refine ⟨?_, ?_, ?_, ?_, ?_, ?_, ?_, ?_, ?_⟩
    · refine follows_append.mpr ⟨h.follows, ⟨h.known c hmem, ?_, h.not_answered hmem⟩, trivial⟩
      exact h.fresh c (List.mem_append_left _ hreserved)
    · simpa [hstore] using h.table
    · simpa using h.numbered
    · intro d hd
      simpa using h.known d (hpending.mem_iff.mp hd)
    · refine List.Perm.trans ?_ h.accounted
      simpa using (hpending.map Call.id).append_left ((answered s.log).map Prod.fst)
    · simpa using h.replied
    · intro d hd
      rw [hstore] at hd
      have hnot : d ∉ queued s.log := h.fresh d (hmoved.mem_iff.mp (List.mem_cons_of_mem c hd))
      have hne : d ≠ c := by
        rintro rfl
        exact hother hd
      simpa using ⟨hnot, hne⟩
    · intro hr
      rw [hstore] at hr ⊢
      obtain ⟨hq, hgoes⟩ := h.running hr
      exact ⟨by simp [hq], by simpa using hgoes⟩
    · intro hst
      rw [hstore] at hst ⊢
      obtain ⟨hw, pre, d, now, post, hlog, hends, hqueue⟩ := h.stopped hst
      exact ⟨hw, pre, d, now, post ++ [.queued c], by simp [hlog], hends, by simp [hqueue]⟩

end Places

lemma filter_id_perm {cs : List Call} (hn : (cs.map Call.id).Nodup) {id : Nat}
    (hid : id ∈ cs.map Call.id) :
    (id :: (cs.filter fun c => c.id != id).map Call.id).Perm (cs.map Call.id) := by
  have hfilter : (cs.filter fun c => c.id != id).map Call.id = (cs.map Call.id).erase id := by
    rw [hn.erase_eq_filter, List.filter_map]
    rfl
  rw [hfilter]
  exact (List.perm_cons_erase hid).symm

lemma expire (h : Sound t₀ s) (id : Nat) : Sound t₀ (s.expire id) := by
  unfold Session.expire Store.expire
  by_cases hany : (s.store.waiting.any fun c => c.id == id) = true
  · rw [if_pos hany]
    obtain ⟨c, hc, hid⟩ := List.any_eq_true.mp hany
    obtain rfl : c.id = id := by simpa using hid
    have hmem : c ∈ s.store.pending := List.mem_append_right _ (List.mem_append_right _ hc)
    have hwaiting : (s.store.waiting.map Call.id).Nodup := by
      refine h.pending_nodup.sublist (List.Sublist.map _ ?_)
      exact (List.sublist_append_right _ _).trans (List.sublist_append_right _ _)
    have hperm := filter_id_perm hwaiting (List.mem_map_of_mem hc)
    have hsub {d : Call} {l : List Call}
        (hd : d ∈ l ++ s.store.waiting.filter fun e => e.id != c.id) :
        d ∈ l ++ s.store.waiting :=
      (List.filter_sublist.append_left l).subset hd
    have hs := h.open_of_waiting hc
    refine ⟨?_, ?_, ?_, ?_, ?_, ?_, ?_, ?_, ?_⟩
    · have hnot := h.not_answered hmem
      refine follows_append.mpr ⟨h.follows,
        ⟨hnot, .inr ⟨h.not_handled hnot, .inr ⟨rfl, fun d hd hid => ?_⟩⟩⟩, trivial⟩
      have heq := eq_of_id h.follows (issued_of_queued h.follows hd) (h.known c hmem) hid
      exact h.fresh c (List.mem_append_right _ hc) (heq ▸ hd)
    · simpa using h.table
    · simpa using h.numbered
    · intro d hd
      rw [pending, ← List.append_assoc] at hd
      have hd' := hsub hd
      rw [List.append_assoc] at hd'
      simpa using h.known d hd'
    · refine List.Perm.trans ?_ h.accounted
      have hmiddle := (((hperm.append_left (s.store.reserved.map Call.id)).append_left
        (s.store.queue.map Call.id)).append_left ((answered s.log).map Prod.fst))
      refine List.Perm.trans ?_ (by simpa [pending] using hmiddle)
      have hfront := @List.perm_middle _ c.id
        (s.store.queue.map Call.id ++ s.store.reserved.map Call.id)
        ((s.store.waiting.filter fun e => e.id != c.id).map Call.id)
      simpa [pending] using hfront.symm.append_left ((answered s.log).map Prod.fst)
    · intro p hp
      have ha := h.replied p (by simpa using hp)
      rw [answered_append, List.map_append]
      exact List.mem_append_left _ ha
    · intro d hd
      simpa using h.fresh d (hsub hd)
    · intro hr
      simpa using h.running hr
    · intro hst
      exact absurd (hs.symm.trans hst) (by decide)
  · rw [if_neg hany]
    simpa [notes] using! h

lemma tick (h : Sound t₀ s) (now : Nat) (succeeds : Bool) :
    Sound t₀ { s with store := s.store.tick now succeeds } := by
  have hfired (alarm : Nat) : Sound t₀ { s with
      store := { s.store with serializer := s.store.serializer.fire alarm succeeds } } := by
    obtain ⟨htable, hshut⟩ := s.store.serializer.fire_keeps succeeds alarm
    refine ⟨h.follows, ?_, h.numbered, h.known, h.accounted, h.replied, h.fresh, ?_, ?_⟩
    · exact htable.trans h.table
    · exact fun hr => h.running (hshut.symm.trans hr)
    · exact fun hst => h.stopped (hshut.symm.trans hst)
  unfold Store.tick
  by_cases hs : s.store.isShutDown = true
  · rw [if_pos hs]
    exact h
  · rw [if_neg hs]
    cases s.store.serializer.deadline with
    | none => exact h
    | some due =>
      dsimp only
      split_ifs
      · exact hfired _
      · exact h

section Serve

/-- Turning calls away is always allowed: each of them is asked and neither handled nor answered. -/
lemma follows_turnedAway {log : List Note} {cs : List Call} (hn : (cs.map Call.id).Nodup)
    (ha : ∀ c ∈ cs, c.id ∉ (answered log).map Prod.fst)
    (hh : ∀ c ∈ cs, ∀ p ∈ handled log, p.1.id ≠ c.id) :
    Follows t₀ log (notes (cs.map fun c => (c.id, .error .shutDown))) := by
  induction cs generalizing log with
  | nil => trivial
  | cons c cs ih =>
    obtain ⟨hc, hn⟩ := List.nodup_cons.mp hn
    refine ⟨⟨ha c List.mem_cons_self, .inr ⟨hh c List.mem_cons_self, .inl rfl⟩⟩, ih hn ?_ ?_⟩
    · intro d hd
      have hne : d.id ≠ c.id := fun he => hc (List.mem_map.mpr ⟨d, hd, he⟩)
      simpa using ⟨by simpa using ha d (List.mem_cons_of_mem _ hd), hne⟩
    · intro d hd
      simpa using hh d (List.mem_cons_of_mem _ hd)

variable {c : Call} {q : List Call}

lemma follows_served (h : Sound t₀ s) (hq : s.store.queue = c :: q)
    (hs : s.store.isShutDown = false) (now : Moment) (succeeds : Bool) :
    Follows t₀ [] (s.log ++ [.handled c now.unixMillis,
      .answered c.id (s.store.serializer.handle now succeeds c.request).2]) := by
  obtain ⟨hqueued, hgoes⟩ := h.running hs
  have hnot := h.not_answered (c := c) (by simp [pending, hq])
  have hagrees : Agrees (t₀.replay (handled s.log)) now.unixMillis c.request
      (s.store.serializer.handle now succeeds c.request).2 := by
    rw [← h.table]
    exact s.store.serializer.handle_reply now succeeds c.request
  rw [hq] at hqueued
  refine follows_append.mpr ⟨h.follows, ⟨⟨_, hqueued⟩, hgoes, hnot⟩, ⟨?_, ?_⟩, trivial⟩
  · simpa using hnot
  · exact .inl ⟨s.log, c, now.unixMillis, by simp, rfl, hagrees⟩

lemma table_served (h : Sound t₀ s) (c : Call) (now : Moment) (succeeds : Bool) :
    (s.store.serializer.handle now succeeds c.request).1.table
      = t₀.replay (handled s.log ++ [(c, now.unixMillis)]) := by
  rw [Serializer.handle_table, Table.replay_concat, h.table]

lemma replied_served (h : Sound t₀ s) {now : UInt64} {more : List Note}
    (hc : c.id ∈ (answered more).map Prod.fst) :
    ∀ p ∈ handled s.log ++ [(c, now)], p.1.id ∈ (answered (s.log ++ more)).map Prod.fst := by
  intro p hp
  rw [answered_append, List.map_append]
  rcases List.mem_append.mp hp with hp | hp
  · exact List.mem_append_left _ (h.replied p hp)
  · rw [List.mem_singleton.mp hp]
    exact List.mem_append_right _ hc

/-- After the request the owner goes on, and the others stay where they are. -/
lemma serve_running (h : Sound t₀ s) (hq : s.store.queue = c :: q)
    (hs : s.store.isShutDown = false) (now : Moment) (succeeds : Bool)
    (hends : s.store.serializer.table.ends now.unixMillis c.request = false) :
    Sound t₀ { s with
      store := { s.store with
        serializer := (s.store.serializer.handle now succeeds c.request).1
        queue := q }
      log := s.log ++ [.handled c now.unixMillis,
        .answered c.id (s.store.serializer.handle now succeeds c.request).2] } := by
  obtain ⟨hqueued, hgoes⟩ := h.running hs
  have hpending : s.store.pending = c :: (q ++ (s.store.reserved ++ s.store.waiting)) := by
    rw [pending, hq, List.cons_append]
  have hst : (s.store.serializer.handle now succeeds c.request).1.stopped = false := by
    rw [Serializer.handle_stopped, hends, Bool.or_false]
    exact hs
  refine ⟨h.follows_served hq hs now succeeds, ?_, ?_, ?_, ?_, ?_, ?_, ?_, ?_⟩
  · simpa using h.table_served c now succeeds
  · simpa using h.numbered
  · intro d hd
    simpa using h.known d (by rw [hpending]; exact List.mem_cons_of_mem c hd)
  · have haccounted := h.accounted
    rw [hpending] at haccounted
    simpa [pending] using haccounted
  · intro p hp
    exact h.replied_served List.mem_cons_self p (by simpa using hp)
  · simpa using h.fresh
  · intro _
    refine ⟨by simp [hqueued, hq], ?_⟩
    rw [h.table] at hends
    simp [Table.goesOn_concat, hgoes, hends]
  · intro hr
    exact absurd (hst.symm.trans hr) (by decide)

/-- After the request the owner is gone. Who is in the queue or waits is turned away, and who has a
place keeps it. -/
lemma serve_last (h : Sound t₀ s) (hq : s.store.queue = c :: q)
    (hs : s.store.isShutDown = false) (now : Moment) (succeeds : Bool)
    (hends : s.store.serializer.table.ends now.unixMillis c.request = true) :
    Sound t₀ { s with
      store := { s.store with
        serializer := (s.store.serializer.handle now succeeds c.request).1
        queue := []
        waiting := [] }
      log := s.log ++ .handled c now.unixMillis ::
        notes ((c.id, (s.store.serializer.handle now succeeds c.request).2) ::
          (q ++ s.store.waiting).map fun d => (d.id, .error .shutDown)) } := by
  have hmoved : (c :: (q ++ s.store.waiting) ++ s.store.reserved).Perm s.store.pending := by
    rw [pending, hq, List.cons_append, List.cons_append, List.append_assoc]
    exact (List.perm_append_comm.append_left q).cons c
  have hnodup := (hmoved.map Call.id).nodup_iff.mpr h.pending_nodup
  rw [List.cons_append, List.map_cons, List.map_append, List.nodup_cons,
    List.nodup_append] at hnodup
  obtain ⟨hc, hturned, -⟩ := hnodup
  have hmem {d : Call} (hd : d ∈ q ++ s.store.waiting) : d ∈ s.store.pending :=
    hmoved.mem_iff.mp (List.mem_cons_of_mem c (List.mem_append_left _ hd))
  have hne {d : Call} (hd : d ∈ q ++ s.store.waiting) : c.id ≠ d.id := fun he =>
    hc (List.mem_append_left _ (List.mem_map.mpr ⟨d, hd, he.symm⟩))
  have hst : (s.store.serializer.handle now succeeds c.request).1.stopped = true := by
    rw [Serializer.handle_stopped, hends, Bool.or_true]
  refine ⟨?_, ?_, ?_, ?_, ?_, ?_, ?_, ?_, fun _ => ⟨rfl, s.log, c, now.unixMillis, _, rfl, ?_, ?_⟩⟩
  · have hfollows := follows_append.mpr ⟨h.follows_served hq hs now succeeds,
      follows_turnedAway hturned ?_ ?_⟩
    · simpa [notes] using hfollows
    · intro d hd
      simpa using ⟨by simpa using h.not_answered (hmem hd), (hne hd).symm⟩
    · intro d hd p hp
      obtain hp | rfl : p ∈ handled s.log ∨ p = (c, now.unixMillis) := by simpa using hp
      · exact h.not_handled (h.not_answered (hmem hd)) p hp
      · exact hne hd
  · simpa using h.table_served c now succeeds
  · simpa using h.numbered
  · intro d hd
    have hreserved : d ∈ s.store.reserved := by simpa [pending] using hd
    simpa using h.known d (hmoved.mem_iff.mp (List.mem_append_right _ hreserved))
  · refine List.Perm.trans ?_ h.accounted
    simpa [pending, Function.comp_def] using
      (hmoved.map Call.id).append_left ((answered s.log).map Prod.fst)
  · intro p hp
    exact h.replied_served List.mem_cons_self p (by simpa using hp)
  · intro d hd
    have hreserved : d ∈ s.store.reserved := by simpa using hd
    simpa using h.fresh d (List.mem_append_left _ hreserved)
  · intro hr
    exact absurd (hst.symm.trans hr) (by decide)
  · rwa [← h.table]
  · simp

lemma serve (h : Sound t₀ s) (now : Moment) (succeeds : Bool) :
    Sound t₀ (s.serve now succeeds) := by
  unfold Session.serve
  cases hs : s.store.isShutDown with
  | true =>
    rw [if_pos rfl]
    exact h
  | false =>
    rw [if_neg Bool.false_ne_true]
    split
    · exact h
    · next c q hq =>
      have hst := s.store.serializer.handle_stopped now succeeds c.request
      rw [show s.store.serializer.stopped = false from hs, Bool.false_or] at hst
      rw [Store.serve, hs, if_neg Bool.false_ne_true, hq]
      dsimp only
      cases hends : s.store.serializer.table.ends now.unixMillis c.request with
      | true =>
        rw [hst, hends, if_pos rfl]
        exact h.serve_last hq hs now succeeds hends
      | false =>
        rw [hst, hends, if_neg Bool.false_ne_true]
        exact h.serve_running hq hs now succeeds hends

end Serve

lemma step (h : Sound t₀ s) (e : Event) : Sound t₀ (s.step e) := by
  cases e with
  | call r => exact h.call r
  | enter i => exact h.enter i
  | send i => exact h.send i
  | expire id => exact h.expire id
  | serve now succeeds => exact h.serve now succeeds
  | tick now succeeds => exact h.tick now succeeds

end Sound

theorem sound_after {t₀ : Table} {s : Session} (h : Sound t₀ s) (events : List Event) :
    Sound t₀ (s.after events) := by
  induction events generalizing s with
  | nil => exact h
  | cons e events ih => exact ih (h.step e)

end PushGateway.Store
