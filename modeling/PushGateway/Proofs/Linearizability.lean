import PushGateway.Proofs.SessionInvariant

/-! The store is linearizable. In every session the requests are handled in one order that agrees
with the clock and with the queue, and the answers are those of one table that performs the same
requests in that order. Two things end it: a shutdown, and a push that no number is left for. What
is queued by then is turned away, and what a caller with a place sends later is never answered. -/

namespace PushGateway

namespace Store

open Session (Event)

/-- The last request that was handled is a push that ran into the end of the numbers. -/
def Overflowed (t₀ : Table) (calls : List (Call × UInt64)) : Prop :=
  ∃ before c now key families, calls = before ++ [(c, now)] ∧ c.request = .push key families ∧
    (t₀.replay before).push key families now = .error .overflow

/-- What it is for a session to be linearizable, with the requests in the order in which they were
handled. -/
structure Linearized (t₀ : Table) (s : Session) : Prop where
  table : s.store.serializer.table = t₀.replay (handled s.log)
  answers : ∀ before c now rest, handled s.log = before ++ (c, now) :: rest →
    ∃ reply, (c.id, reply) ∈ answered s.log ∧
      ∀ a, ((t₀.replay before).perform now c.request).2 = some a → reply = a
  /-- No request is handled twice or answered twice. -/
  once : ((handled s.log).map Prod.fst).Nodup ∧ ((answered s.log).map Prod.fst).Nodup
  /-- A request that is answered before another one is asked is handled before it. -/
  realTime : ∀ pre id reply mid c post,
    s.log = pre ++ .answered id reply :: (mid ++ .issued c :: post) →
      ∀ p ∈ handled s.log, ∀ q ∈ handled s.log, p.1.id = id → q.1 = c →
        [p, q].Sublist (handled s.log)
  /-- A request that is turned away is not handled, but for the push that ends the owner, and that
  leaves the table as it was. -/
  refused : ∀ id reply, (id, reply) ∈ answered s.log →
    reply = .error .timeout ∨ reply = .error .shutDown →
    ∀ before c now rest, handled s.log = before ++ (c, now) :: rest → c.id = id →
      rest = [] ∧ Overflowed t₀ (handled s.log) ∧ s.store.serializer.table = t₀.replay before
  /-- The queue is served in its order up to the first shutdown. -/
  firstShutdown : ∀ before c rest, queued s.log = before ++ c :: rest → c.request = .shutdown →
    (∀ d ∈ before, d.request ≠ .shutdown) →
      (handled s.log).map Prod.fst <+: before ++ [c] ∧
        (s.store.queue = [] ∨ s.store.isShutDown = true → ¬Overflowed t₀ (handled s.log) →
          (handled s.log).map Prod.fst = before ++ [c])
  noShutdown : (∀ d ∈ queued s.log, d.request ≠ .shutdown) → s.store.queue = [] →
    ¬Overflowed t₀ (handled s.log) → (handled s.log).map Prod.fst = queued s.log
  /-- Of what is queued when the owner is gone, all is handled or turned away. What is queued later
  is neither, whatever happens. -/
  ended : ∀ pre c now post, s.log = pre ++ .handled c now :: post →
    (t₀.replay (handled pre)).ends now c.request = true → handled post = [] ∧
      (∀ d ∈ queued pre, (∃ later, (d, later) ∈ handled s.log) ∨
        (d.id, .error .shutDown) ∈ answered s.log) ∧
      ∀ d ∈ queued post, ∀ more, d.id ∉ (answered (s.after more).log).map Prod.fst
  /-- Serving as many requests as there are in the queue leaves none, or the owner is gone. -/
  drains : ∀ now succeeds,
    let s' := s.after (List.replicate s.store.queue.length (.serve now succeeds))
    s'.store.queue = [] ∨ s'.store.isShutDown = true
  /-- No request is lost but in the queue of an owner that is gone: it has a place, or waits
  for one, or it is handled, or it is turned away, for lack of time only if it never entered
  the queue. -/
  complete : ∀ c ∈ issued s.log, c ∈ s.store.pending ∨ (∃ now, (c, now) ∈ handled s.log) ∨
    (c.id, .error .shutDown) ∈ answered s.log ∨
      (c.id, .error .timeout) ∈ answered s.log ∧ c ∉ queued s.log
  /-- An accepted push is in every snapshot up to the next delete or accepted push of its key. -/
  visible : ∀ before c now between d later rest key families,
    handled s.log = before ++ (c, now) :: (between ++ (d, later) :: rest) →
      c.request = .push key families → (c.id, .ok .done) ∈ answered s.log →
      d.request = .snapshot →
      (∀ e ∈ between, e.1.request ≠ .delete key ∧ ∀ families', e.1.request = .push key families' →
        (e.1.id, .ok .done) ∉ answered s.log) →
      ∃ groups g, (d.id, .ok (.groups groups)) ∈ answered s.log ∧ g ∈ groups ∧
        Group.build key families now g.pushSeq = .ok g

namespace Session

variable {s : Session}

/-- The end of the owner is final, and nothing is taken out of the queue any more. -/
lemma step_of_isShutDown (hs : s.store.isShutDown = true) (e : Event) :
    (s.step e).store.isShutDown = true ∧ s.store.queue <+: (s.step e).store.queue := by
  cases e with
  | call r =>
    have hstore : (s.call r).store = s.store := by simp [Session.call, reserve, hs]
    exact ⟨hstore ▸ hs, hstore ▸ List.prefix_refl _⟩
  | enter i =>
    rw [step, Store.enter]
    split
    · exact ⟨hs, List.prefix_refl _⟩
    · split_ifs <;> exact ⟨hs, List.prefix_refl _⟩
  | send i =>
    rw [step, Session.send]
    split
    · exact ⟨hs, List.prefix_refl _⟩
    · next c hc =>
      rw [Store.send, hc]
      exact ⟨hs, List.prefix_append _ [c]⟩
  | expire id =>
    rw [step, Session.expire, Store.expire]
    dsimp only
    split_ifs <;> exact ⟨hs, List.prefix_refl _⟩
  | serve now succeeds =>
    have hsame : s.step (.serve now succeeds) = s := if_pos hs
    rw [hsame]
    exact ⟨hs, List.prefix_refl _⟩
  | tick now succeeds =>
    have hsame : s.store.tick now succeeds = s.store := if_pos hs
    rw [step, hsame]
    exact ⟨hs, List.prefix_refl _⟩

lemma after_of_isShutDown (hs : s.store.isShutDown = true) (events : List Event) :
    (s.after events).store.isShutDown = true ∧ s.store.queue <+: (s.after events).store.queue := by
  induction events generalizing s with
  | nil => exact ⟨hs, List.prefix_refl _⟩
  | cons e events ih =>
    obtain ⟨hstep, hqueue⟩ := step_of_isShutDown hs e
    obtain ⟨hst, hrest⟩ := ih hstep
    exact ⟨hst, hqueue.trans hrest⟩

lemma serve_cases (s : Session) (now : Moment) (succeeds : Bool) :
    (s.serve now succeeds).store.isShutDown = true ∨
      (s.serve now succeeds).store.queue = s.store.queue.tail := by
  unfold Session.serve
  cases hs : s.store.isShutDown with
  | true => exact .inl hs
  | false =>
    rw [if_neg Bool.false_ne_true]
    cases hq : s.store.queue with
    | nil => exact .inr hq
    | cons c q =>
      rw [Store.serve, hs, if_neg Bool.false_ne_true, hq]
      dsimp only
      cases hst : (s.store.serializer.handle now succeeds c.request).1.stopped with
      | true => exact .inl hst
      | false => exact .inr rfl

/-- Each time that it is served the queue gets shorter, or the owner is gone. -/
lemma serveMany_drains {n : Nat} (hn : s.store.queue.length ≤ n) (now : Moment) (succeeds : Bool) :
    (s.after (List.replicate n (.serve now succeeds))).store.queue = [] ∨
      (s.after (List.replicate n (.serve now succeeds))).store.isShutDown = true := by
  induction n generalizing s with
  | zero => exact .inl (List.length_eq_zero_iff.mp (Nat.le_zero.mp hn))
  | succ n ih =>
    rcases s.serve_cases now succeeds with hst | htail
    · exact .inr (after_of_isShutDown hst _).1
    · refine ih (s := s.serve now succeeds) ?_
      rw [htail, List.length_tail]
      omega

end Session

namespace Sound

variable {t₀ : Table} {s : Session} (h : Sound t₀ s)

include h

lemma answers {before rest : List (Call × UInt64)} {c : Call} {now : UInt64}
    (hh : handled s.log = before ++ (c, now) :: rest) :
    ∃ reply, (c.id, reply) ∈ answered s.log ∧ Agrees (t₀.replay before) now c.request reply := by
  have hc : (c, now) ∈ handled s.log := by simp [hh]
  obtain ⟨⟨id, reply⟩, ha, hid⟩ := List.mem_map.mp (h.replied _ hc)
  obtain rfl : id = c.id := hid
  exact ⟨reply, ha, answer_agrees h.follows hh ha⟩

lemma reply_unique {id : Nat} {reply reply' : Reply} (ha : (id, reply) ∈ answered s.log)
    (ha' : (id, reply') ∈ answered s.log) : reply = reply' :=
  (Prod.mk.inj (List.inj_on_of_nodup_map (answered_nodup h.follows) ha ha' rfl)).2

lemma realTime {pre mid post : List Note} {id : Nat} {reply : Reply} {c : Call}
    (hlog : s.log = pre ++ .answered id reply :: (mid ++ .issued c :: post))
    {p q : Call × UInt64} (hp : p ∈ handled s.log) (hq : q ∈ handled s.log) (hid : p.1.id = id)
    (hc : q.1 = c) : [p, q].Sublist (handled s.log) := by
  have hsplit : handled s.log = handled (pre ++ .answered id reply :: mid) ++ handled post := by
    simp [hlog]
  have hlog' : s.log = (pre ++ .answered id reply :: mid) ++ .issued c :: post := by simp [hlog]
  have hfirst : p ∈ handled (pre ++ .answered id reply :: mid) := by
    have hafter : p ∉ handled (mid ++ .issued c :: post) := fun hm =>
      not_handled_after h.follows hlog hm hid
    rw [hlog, handled_append, handled_cons, List.mem_append] at hp
    rw [handled_append]
    exact List.mem_append_left _ (hp.resolve_right hafter)
  have hsecond : q ∈ handled post := by
    rw [hsplit, List.mem_append] at hq
    exact hq.resolve_left fun hm => not_handled_before h.follows hlog' hm hc
  rw [hsplit]
  exact (List.singleton_sublist.mpr hfirst).append (List.singleton_sublist.mpr hsecond)

lemma refused {id : Nat} {reply : Reply} (ha : (id, reply) ∈ answered s.log)
    (hreply : reply = .error .timeout ∨ reply = .error .shutDown)
    {before rest : List (Call × UInt64)} {c : Call} {now : UInt64}
    (hh : handled s.log = before ++ (c, now) :: rest) (hid : c.id = id) :
    rest = [] ∧ Overflowed t₀ (handled s.log) ∧
      s.store.serializer.table = t₀.replay before := by
  obtain ⟨reply', ha', htimeout, hshut, -⟩ := h.answers hh
  rw [hid] at ha'
  obtain rfl := h.reply_unique ha ha'
  obtain ⟨key, families, hc, hpush⟩ :=
    Table.perform_eq_shutDown_iff.mp (hshut (hreply.resolve_left htimeout))
  obtain rfl :=
    ends_last h.follows hh (Table.ends_eq_true_iff.mpr (.inr ⟨key, families, hc, hpush⟩))
  refine ⟨rfl, ⟨before, c, now, key, families, hh, hc, hpush⟩, ?_⟩
  rw [h.table, hh, Table.replay_concat, hc, Table.perform]
  dsimp only
  rw [hpush]

lemma complete {c : Call} (hc : c ∈ issued s.log) :
    c ∈ s.store.pending ∨ (∃ now, (c, now) ∈ handled s.log) ∨
      (c.id, .error .shutDown) ∈ answered s.log ∨
        (c.id, .error .timeout) ∈ answered s.log ∧ c ∉ queued s.log := by
  have hid : c.id ∈ List.range s.count := by
    rw [← h.numbered]
    exact List.mem_map_of_mem hc
  rcases List.mem_append.mp (h.accounted.mem_iff.mpr hid) with ha | hpending
  · obtain ⟨⟨id, reply⟩, ha, hid⟩ := List.mem_map.mp ha
    obtain rfl : id = c.id := hid
    rcases answer_cases h.follows ha with ⟨pre, d, now, post, hlog, hid, -⟩ | ⟨-, rfl | ⟨rfl, hq⟩⟩
    · have hd : (d, now) ∈ handled s.log := by simp [hlog]
      obtain rfl := eq_of_id h.follows (issued_of_handled h.follows hd) hc hid
      exact .inr (.inl ⟨now, hd⟩)
    · exact .inr (.inr (.inl ha))
    · exact .inr (.inr (.inr ⟨ha, fun hm => hq c hm rfl⟩))
  · obtain ⟨d, hd, hid⟩ := List.mem_map.mp hpending
    rw [eq_of_id h.follows hc (h.known d hd) hid.symm]
    exact .inl hd

/-- An owner that is gone has handled a shutdown or run into the end of the numbers last. -/
lemma isShutDown_cases (hs : s.store.isShutDown = true) : Overflowed t₀ (handled s.log) ∨
    ∃ before c, (handled s.log).map Prod.fst = before ++ [c] ∧ c.request = .shutdown := by
  obtain ⟨-, pre, c, now, post, hlog, hends, -⟩ := h.stopped hs
  have hh : handled s.log = handled pre ++ (c, now) :: handled post := by simp [hlog]
  rw [ends_last h.follows hh hends] at hh
  rcases Table.ends_eq_true_iff.mp hends with hc | ⟨key, families, hc, hpush⟩
  · exact .inr ⟨(handled pre).map Prod.fst, c, by simp [hh], hc⟩
  · exact .inl ⟨handled pre, c, now, key, families, hh, hc, hpush⟩

/-- A queue that is served and not cut short is handled up to the first shutdown. -/
lemma handled_of_served (hserved : s.store.queue = [] ∨ s.store.isShutDown = true)
    (hno : ¬Overflowed t₀ (handled s.log)) :
    (handled s.log).map Prod.fst = queued s.log ∨
      ∃ before c, (handled s.log).map Prod.fst = before ++ [c] ∧ c.request = .shutdown := by
  cases hs : s.store.isShutDown with
  | true => exact .inr ((h.isShutDown_cases hs).resolve_left hno)
  | false =>
    obtain ⟨hq, -⟩ := h.running hs
    rw [hserved.resolve_right (by simp [hs]), List.append_nil] at hq
    exact .inl hq.symm

lemma firstShutdown {before rest : List Call} {c : Call} (hq : queued s.log = before ++ c :: rest)
    (hc : c.request = .shutdown) (hbefore : ∀ d ∈ before, d.request ≠ .shutdown) :
    (handled s.log).map Prod.fst <+: before ++ [c] ∧
      (s.store.queue = [] ∨ s.store.isShutDown = true → ¬Overflowed t₀ (handled s.log) →
        (handled s.log).map Prod.fst = before ++ [c]) := by
  have hcases := handled_cases h.follows hq hc
  refine ⟨hcases.elim (fun hshort => hshort.trans (List.prefix_append _ _))
    fun hall => hall ▸ List.prefix_refl _, fun hserved hno => ?_⟩
  refine hcases.resolve_left fun hshort => ?_
  have hinit : ∀ d ∈ (handled s.log).map Prod.fst, d.request ≠ .shutdown :=
    fun d hd => hbefore d (hshort.subset hd)
  rcases h.handled_of_served hserved hno with hall | ⟨init, d, hlast, hd⟩
  · exact hinit c (by simp [hall, hq]) hc
  · exact hinit d (by simp [hlast]) hd

/-- What is queued after the end is still in the queue. -/
lemma queued_after_end {pre post : List Note} {c : Call} {now : UInt64}
    (hlog : s.log = pre ++ .handled c now :: post)
    (hends : (t₀.replay (handled pre)).ends now c.request = true) :
    handled post = [] ∧ s.store.isShutDown = true ∧ queued post = s.store.queue := by
  have hlast {pre post : List Note} {c : Call} {now : UInt64}
      (hlog : s.log = pre ++ .handled c now :: post)
      (hends : (t₀.replay (handled pre)).ends now c.request = true) : handled post = [] := by
    have hh : handled s.log = handled pre ++ (c, now) :: handled post := by simp [hlog]
    exact ends_last h.follows hh hends
  have hs : s.store.isShutDown = true := by
    rw [← Bool.not_eq_false]
    intro hr
    have hgoes := (h.running hr).2
    have hh : handled s.log = handled pre ++ [(c, now)] := by simp [hlog, hlast hlog hends]
    rw [hh, Table.goesOn_concat, hends, Bool.not_true, Bool.and_false] at hgoes
    cases hgoes
  obtain ⟨-, pre', c', now', post', hlog', hends', hqueue⟩ := h.stopped hs
  refine ⟨hlast hlog hends, hs, ?_⟩
  -- both are what follows the last note of a handled request
  have hnone := hlast hlog hends
  have hnone' := hlast hlog' hends'
  rcases List.append_eq_append_iff.mp (hlog.symm.trans hlog') with
    ⟨more, -, hmore⟩ | ⟨more, -, hmore⟩
  · cases more with
    | nil => rw [(List.cons.inj hmore).2, hqueue]
    | cons x more =>
      rw [(List.cons.inj hmore).2] at hnone
      simp at hnone
  · cases more with
    | nil => rw [← (List.cons.inj hmore).2, hqueue]
    | cons x more =>
      rw [(List.cons.inj hmore).2] at hnone'
      simp at hnone'

lemma not_answered_after (hs : s.store.isShutDown = true) {c : Call} (hc : c ∈ s.store.queue)
    (more : List Event) : c.id ∉ (answered (s.after more).log).map Prod.fst := by
  have hqueue := (Session.after_of_isShutDown hs more).2
  exact (sound_after h more).not_answered (List.mem_append_left _ (hqueue.subset hc))

lemma ended {pre post : List Note} {c : Call} {now : UInt64}
    (hlog : s.log = pre ++ .handled c now :: post)
    (hends : (t₀.replay (handled pre)).ends now c.request = true) : handled post = [] ∧
      (∀ d ∈ queued pre, (∃ later, (d, later) ∈ handled s.log) ∨
        (d.id, .error .shutDown) ∈ answered s.log) ∧
      ∀ d ∈ queued post, ∀ more, d.id ∉ (answered (s.after more).log).map Prod.fst := by
  obtain ⟨hnone, hs, hqueue⟩ := h.queued_after_end hlog hends
  refine ⟨hnone, fun d hd => ?_, fun d hd => h.not_answered_after hs (hqueue ▸ hd)⟩
  have hqueued : d ∈ queued s.log := by simp [hlog, hd]
  rcases h.complete (issued_of_queued h.follows hqueued) with hp | hp | ha | ⟨-, ha⟩
  · rcases List.mem_append.mp hp with hp | hp
    · -- nothing is queued twice
      have hnodup := queued_nodup h.follows
      rw [hlog, queued_append, queued_cons, List.nodup_append] at hnodup
      exact absurd rfl (hnodup.2.2 d hd d (List.mem_append_right _ (hqueue ▸ hp)))
    · exact absurd hqueued (h.fresh d hp)
  · exact .inl hp
  · exact .inr ha
  · exact absurd hqueued ha

lemma visible {before between rest : List (Call × UInt64)} {c d : Call} {now later : UInt64}
    {key : GroupingKey} {families : List Family}
    (hh : handled s.log = before ++ (c, now) :: (between ++ (d, later) :: rest))
    (hc : c.request = .push key families) (hok : (c.id, .ok .done) ∈ answered s.log)
    (hd : d.request = .snapshot)
    (hbetween : ∀ e ∈ between, e.1.request ≠ .delete key ∧
      ∀ families', e.1.request = .push key families' → (e.1.id, .ok .done) ∉ answered s.log) :
    ∃ groups g, (d.id, .ok (.groups groups)) ∈ answered s.log ∧ g ∈ groups ∧
      Group.build key families now g.pushSeq = .ok g := by
  -- the push made the group
  obtain ⟨reply, hreply, -, -, hagrees⟩ := h.answers hh
  obtain rfl := h.reply_unique hreply hok
  obtain ⟨g, hget, hbuild⟩ : ∃ g, (t₀.replay (before ++ [(c, now)])).get? key = some g ∧
      Group.build key families now g.pushSeq = .ok g := by
    rw [Table.replay_concat, hc]
    apply Table.get?_perform_push
    rw [hc] at hagrees
    cases hp : ((t₀.replay before).perform now (.push key families)).2 with
    | none =>
      rw [Table.perform] at hp
      cases hpush : (t₀.replay before).push key families now with
      | ok result => simp [hpush] at hp
      | error e => cases e <;> simp [hpush] at hp
    | some a => rw [← hagrees a hp]
  -- and nothing until the snapshot takes it away
  have hkept : (t₀.replay (before ++ [(c, now)] ++ between)).get? key = some g := by
    rw [Table.replay_append]
    refine Table.get?_replay hget fun xs e ys hsplit => ?_
    obtain ⟨hdelete, hpush⟩ := hbetween e (by simp [hsplit])
    refine ⟨hdelete, fun families' he hdone => hpush families' he ?_⟩
    have he' : handled s.log
        = (before ++ [(c, now)] ++ xs) ++ (e.1, e.2) :: (ys ++ (d, later) :: rest) := by
      simp [hh, hsplit]
    obtain ⟨reply, hreply, -, -, hagrees⟩ := h.answers he'
    rw [Table.replay_append] at hagrees
    rwa [hagrees _ hdone] at hreply
  have hsnapshot : handled s.log = (before ++ [(c, now)] ++ between) ++ (d, later) :: rest := by
    simp [hh]
  obtain ⟨reply, hreply, -, -, hagrees⟩ := h.answers hsnapshot
  rw [hd] at hagrees
  refine ⟨_, g, hagrees _ rfl ▸ hreply, ?_, hbuild⟩
  exact SortedMap.mem_values_iff.mpr ⟨key, hkept⟩

end Sound

theorem linearizable (o : StoreOptions) (table : Table) (file : Option Snapshot.Contents)
    (events : List Event) :
    Linearized table ((Session.opened o table file).after events) := by
  have h := sound_after (Sound.opened o table file) events
  refine ⟨h.table, ?_, ⟨handled_nodup h.follows, answered_nodup h.follows⟩,
    ?_, ?_, ?_, ?_, ?_, ?_, ?_, ?_⟩
  · intro before c now rest hh
    obtain ⟨reply, ha, -, -, hagrees⟩ := h.answers hh
    exact ⟨reply, ha, hagrees⟩
  · intro pre id reply mid c post hlog p hp q hq hid hc
    exact h.realTime hlog hp hq hid hc
  · intro id reply ha hreply before c now rest hh hid
    exact h.refused ha hreply hh hid
  · intro before c rest hq hc hbefore
    exact h.firstShutdown hq hc hbefore
  · intro hno hqueue hroom
    rcases h.handled_of_served (.inl hqueue) hroom with hall | ⟨before, c, hlast, hc⟩
    · exact hall
    · have hmem : c ∈ before ++ [c] := by simp
      exact absurd hc (hno c ((handled_prefix_queued h.follows).subset (hlast ▸ hmem)))
  · intro pre c now post hlog hends
    exact h.ended hlog hends
  · intro now succeeds
    exact Session.serveMany_drains (Nat.le_refl _) now succeeds
  · exact fun c hc => h.complete hc
  · intro before c now between d later rest key families hh hc hok hd hbetween
    exact h.visible hh hc hok hd hbetween

/-- A push that a snapshot sees, a delete behind a shutdown, a call that gives up, and one that gets
a place before the shutdown is handled and sends its request after it. -/
theorem linearizable_among_shutdown :
    let a : GroupingKey := ⟨.ofList [("job", "a")], by decide, by decide⟩
    let o : StoreOptions := { StoreOptions.default with queueDepth := 4 }
    let events : List Event := [.call (.push a []), .send 0, .call .snapshot, .send 0,
      .call .shutdown, .send 0, .call (.delete a), .send 0, .call .flush, .call .snapshot,
      .expire 5, .serve ⟨1, 5⟩ true, .enter 0, .serve ⟨2, 6⟩ true, .serve ⟨3, 7⟩ true, .send 0]
    let s := (Session.opened o .empty none).after events
    handled s.log = [(⟨0, .push a []⟩, 5), (⟨1, .snapshot⟩, 6), (⟨2, .shutdown⟩, 7)] ∧
      answered s.log = [(5, .error .timeout), (0, .ok .done),
        (1, .ok (.groups [⟨a, .empty, 5, 0⟩])), (2, .ok .done), (3, .error .shutDown)] ∧
      (∃ groups g, (1, .ok (.groups groups)) ∈ answered s.log ∧ g ∈ groups ∧
        Group.build a [] 5 g.pushSeq = .ok g) ∧
      s.store.queue = [⟨4, .flush⟩] ∧
      ∀ more, 4 ∉ (answered (s.after more).log).map Prod.fst := by
  intro a o events s
  have hhandled : handled s.log
      = [(⟨0, .push a []⟩, 5), (⟨1, .snapshot⟩, 6), (⟨2, .shutdown⟩, 7)] := by decide +kernel
  have hqueue : s.store.queue = [⟨4, .flush⟩] := by decide +kernel
  have hlog : s.log = s.log.take 15 ++ .handled ⟨2, .shutdown⟩ 7 :: s.log.drop 16 := by
    decide +kernel
  have h := linearizable o .empty none events
  have hvisible := h.visible [] ⟨0, .push a []⟩ 5 [] ⟨1, .snapshot⟩ 6 [(⟨2, .shutdown⟩, 7)] a []
    hhandled rfl (by decide +kernel) rfl (List.forall_mem_nil _)
  obtain ⟨-, -, hlost⟩ := h.ended _ _ _ _ hlog rfl
  exact ⟨hhandled, by decide +kernel, hvisible, hqueue, hlost ⟨4, .flush⟩ (by decide +kernel)⟩

/-- A push in the queue that no number is left for ends the store, with no shutdown in the queue.
And what is put into a place after the shutdown is never answered. -/
theorem queued_requests_lost :
    let a : GroupingKey := ⟨.ofList [("job", "a")], by decide, by decide⟩
    let b : GroupingKey := ⟨.ofList [("job", "b")], by decide, by decide⟩
    let old : Group := ⟨a, .empty, 1, 0xFFFFFFFFFFFFFFFE⟩
    let table : Table := ⟨.ofList [(a, old)], 0xFFFFFFFFFFFFFFFF⟩
    let s := (Session.opened .default table none).after [.call (.push b []), .send 0,
      .call .snapshot, .send 0, .serve ⟨1, 5⟩ true, .serve ⟨2, 6⟩ true]
    let s' := (Session.opened .default .empty none).after [.call .shutdown, .send 0,
      .call (.push b []), .serve ⟨1, 5⟩ true, .send 0]
    Table.ofGroups? [old] = some table ∧
      queued s.log = [⟨0, .push b []⟩, ⟨1, .snapshot⟩] ∧
      answered s.log = [(0, .error .shutDown), (1, .error .shutDown)] ∧
      s.store.serializer.table.get? b = none ∧
      queued s'.log = [⟨0, .shutdown⟩, ⟨1, .push b []⟩] ∧ answered s'.log = [(0, .ok .done)] ∧
      ∀ more, 1 ∉ (answered (s'.after more).log).map Prod.fst := by
  intro a b old table s s'
  have h : Sound .empty s' := sound_after (Sound.opened .default .empty none) _
  have hs : s'.store.isShutDown = true := by decide +kernel
  have hqueue : (⟨1, .push b []⟩ : Call) ∈ s'.store.queue := by decide +kernel
  exact ⟨by decide +kernel, by decide +kernel, by decide +kernel, by decide +kernel,
    by decide +kernel, by decide +kernel, h.not_answered_after hs hqueue⟩

end Store

end PushGateway
