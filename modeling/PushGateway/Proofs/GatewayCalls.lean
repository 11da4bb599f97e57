import PushGateway.Proofs.Ledger
import PushGateway.Proofs.MergedValues
import PushGateway.Proofs.StorableFamilies
import PushGateway.Proofs.TableKeys
import PushGateway.Proofs.TableReplay

/-! The handlers answer as the ledger does. A payload that is read fails no check of a push but the
one for labels of its place, and what a scrape shows does not depend on the times of the pushes. -/

namespace PushGateway

open Exposition (parse settled_of_parse)

section Checks

variable {key : GroupingKey} {families : List Family}

lemma Table.push_of_parse {body : String} (hparse : parse body = .ok families) (t : Table)
    (now : UInt64) : t.push key families now =
      match families.findSome? (Group.clash? key) with
      | some e => .error (.invalid e)
      | none => if t.nextSeq.toNat + 1 < 2 ^ 64
        then .ok (⟨t.groups.insert key ⟨key, .ofList (families.map fun f => (f.name, f)), now,
          t.nextSeq⟩, t.nextSeq + 1⟩, t.groups.contains key)
        else .error .overflow := by
  rw [push_eq, Group.build_of_parse hparse]
  cases families.findSome? (Group.clash? key) <;> rfl

end Checks

section Idle

/-- No caller waits for an answer. -/
structure Store.Idle (s : Store) : Prop where
  queue : s.queue = []
  reserved : s.reserved = []
  waiting : s.waiting = []

variable {s : Store}

namespace Store.Idle

/-- The only call goes into the queue at once, whether or not callers wait for room. -/
lemma issue (h : s.Idle) (hs : s.isShutDown = false) (c : Store.Call) :
    s.issue c = ({ s with queue := [c] }, []) := by
  have hreserve : s.reserve c = ({ s with reserved := [c] }, []) := by
    have hdepth := s.depth_pos
    simp [Store.reserve, hs, Store.freePlaces, h.queue, h.reserved, h.waiting, hdepth]
  have hsend : Store.send { s with reserved := [c] } 0 = { s with queue := [c] } := by
    simp [Store.send, h.queue, h.reserved]
  have hexpire : Store.expire { s with queue := [c] } c.id = ({ s with queue := [c] }, []) := by
    simp [Store.expire, h.waiting]
  simp [Store.issue, hreserve, hsend, hexpire]

lemma serve (h : s.Idle) (hs : s.isShutDown = false) (c : Store.Call) (now : Moment)
    (succeeds : Bool) : Store.serve { s with queue := [c] } now succeeds =
      ({ s with serializer := (s.serializer.handle now succeeds c.request).1 },
        [(c.id, (s.serializer.handle now succeeds c.request).2)]) := by
  have hopen : Store.isShutDown { s with queue := [c] } = false := hs
  rw [Store.serve, hopen, if_neg Bool.false_ne_true]
  dsimp only
  split_ifs
  · simp [Store.close, h.queue, h.waiting]
  · simp [h.queue]

lemma settle (h : s.Idle) : (s.enter 0).send 0 = s := by
  simp [Store.enter, Store.send, h.reserved, h.waiting]

lemma call (h : s.Idle) (hs : s.isShutDown = false) (now : Moment) (succeeds : Bool)
    (r : Store.Request) : s.call now succeeds r =
      ({ s with serializer := (s.serializer.handle now succeeds r).1 },
        (s.serializer.handle now succeeds r).2) := by
  have hone : [(⟨0, r⟩ : Store.Call)].length + s.waiting.length = 1 := by simp [h.waiting]
  have hafter : Store.Idle { s with serializer := (s.serializer.handle now succeeds r).1 } :=
    ⟨h.queue, h.reserved, h.waiting⟩
  simp only [Store.call, Store.run, Store.issueAll, h.issue hs, hone, Store.serveMany,
    h.serve hs ⟨0, r⟩ now succeeds, hafter.settle, List.nil_append, List.append_nil]

lemma call_of_isShutDown (h : s.Idle) (hs : s.isShutDown = true) (now : Moment) (succeeds : Bool)
    (r : Store.Request) : s.call now succeeds r = (s, .error .shutDown) := by
  have hsend : s.send 0 = s := by simp [Store.send, h.reserved]
  have hexpire (id : Nat) : s.expire id = (s, []) := by simp [Store.expire, h.waiting]
  have hissue : s.issue ⟨0, r⟩ = (s, [(0, .error .shutDown)]) := by
    simp [Store.issue, Store.reserve, hs, hsend, hexpire]
  simp [Store.call, Store.run, Store.issueAll, hissue, h.queue, h.waiting, Store.serveMany]

end Store.Idle

end Idle

namespace Gateway

open Http (Response)

section Bodies

variable (p : Place)

private lemma textOf_success : Json.textOf (some "success") = "\"success\"".toList := by decide

private lemma textOf_data : Json.textOf (some "data") = "\"data\"".toList := by decide

private lemma textOf_group : Json.textOf (some "group") = "\"group\"".toList := by decide

private lemma textOf_existed : Json.textOf (some "existed") = "\"existed\"".toList := by decide

private lemma textOf_error : Json.textOf (some "error") = "\"error\"".toList := by decide

lemma success_stored : success [groupField p.key] = Ledger.stored p := by
  have hbody : (Json.record [("success", .bool true),
      ("data", .record [("group", .str p.name)])]).render
      = "\x7b\"success\":true,\"data\":\x7b\"group\":" ++ (Json.str p.name).render
        ++ "\x7d\x7d" := by
    apply String.toList_injective
    simp only [Json.render, Json.record, Json.text, Json.membersText, List.map_cons, List.map_nil,
      textOf_success, textOf_data, textOf_group, String.toList_append, String.toList_ofList]
    simp
  rw [success, groupField, p.text_key, Response.json, hbody, Ledger.stored, Ledger.answered]

lemma success_deleted (existed : Bool) :
    success [groupField p.key, ("existed", .bool existed)] = Ledger.deleted p existed := by
  have hbody : (Json.record [("success", .bool true),
      ("data", .record [("group", .str p.name), ("existed", .bool existed)])]).render
      = "\x7b\"success\":true,\"data\":\x7b\"group\":" ++ (Json.str p.name).render
        ++ ",\"existed\":" ++ (if existed then "true" else "false") ++ "\x7d\x7d" := by
    apply String.toList_injective
    cases existed <;>
    · simp only [Json.render, Json.record, Json.text, Json.membersText, List.map_cons, List.map_nil,
        textOf_success, textOf_data, textOf_group, textOf_existed, String.toList_append,
        String.toList_ofList]
      simp
  rw [success, groupField, p.text_key, Response.json, hbody, Ledger.deleted, Ledger.answered]

lemma failure_refused (message : String) : failure 400 message = Ledger.refused message := by
  have hbody : (Json.record [("success", .bool false), ("error", .str message)]).render
      = "\x7b\"success\":false,\"error\":" ++ (Json.str message).render ++ "\x7d" := by
    apply String.toList_injective
    simp only [Json.render, Json.record, Json.text, Json.membersText, List.map_cons, List.map_nil,
      textOf_success, textOf_error, String.toList_append, String.toList_ofList]
    simp
  rw [failure, Response.json, hbody, Ledger.refused, Ledger.answered]

end Bodies

section Steps

/-- The table holds what the ledger says, whenever it was pushed. -/
structure Keeps (t : Table) (l : Ledger) : Prop where
  groups : t.groups.mapEntries (fun _ g => g.timeless) = l.payloads.mapEntries Ledger.Entry.group
  number : t.nextSeq.toNat = l.accepted

variable {t : Table} {l : Ledger} {s : Store} {p : Place}

lemma Keeps.contains (h : Keeps t l) (key : GroupingKey) :
    t.groups.contains key = l.payloads.contains key := by
  rw [← SortedMap.contains_mapEntries t.groups fun _ g => g.timeless, h.groups,
    SortedMap.contains_mapEntries]

lemma Keeps.merge_snapshot (h : Keeps t l) : merge t.snapshot = merge l.groups := by
  have hvalues : t.snapshot.map Group.timeless = l.groups := by
    rw [Ledger.groups, ← h.groups, Table.snapshot, SortedMap.values, SortedMap.values,
      SortedMap.mapEntries, List.map_map, List.map_map]
    rfl
  rw [← hvalues, merge_timeless]

lemma Keeps.record (h : Keeps t l) (hroom : t.nextSeq.toNat + 1 < 2 ^ 64) (p : Place)
    (families : List Family) (now : UInt64) :
    Keeps ⟨t.groups.insert p.key ⟨p.key, .ofList (families.map fun f => (f.name, f)), now,
      t.nextSeq⟩, t.nextSeq + 1⟩ (l.record p families) := by
  have hnumber : UInt64.ofNat l.accepted = t.nextSeq := by
    rw [← h.number, UInt64.ofNat_toNat]
  refine ⟨?_, ?_⟩
  · rw [Ledger.record, SortedMap.mapEntries_insert, SortedMap.mapEntries_insert, h.groups]
    simp only [Group.timeless, Ledger.Entry.group, hnumber]
  · rw [Ledger.record, Table.toNat_succ hroom, h.number]

lemma Keeps.remove (h : Keeps t l) (key : GroupingKey) :
    Keeps (t.delete key).1 { l with payloads := l.payloads.erase key } := by
  refine ⟨?_, h.number⟩
  rw [Table.delete, SortedMap.mapEntries_erase, SortedMap.mapEntries_erase, h.groups]

lemma Place.clash?_eq (p : Place) (families : List Family) :
    p.clash? families = families.findSome? (Group.clash? p.key) := by
  change _ = families.findSome? fun f =>
    (f.samples.findSome? fun s => s.labels.keys.find? p.key.containsLabel).map
      (ValidationError.labelCollision f.name)
  rw [p.containsLabel_key]
  rfl

/-- What a handler does with a store, at some moment. -/
def Call.perform (s : Store) (now : Moment) : Call → Store × Response
  | .push p body => Gateway.push s now p.job p.inst body
  | .delete p => Gateway.delete s now p.job p.inst
  | .scrape => Gateway.scrape s now

structure Follows (s : Store) (l : Ledger) : Prop where
  idle : s.Idle
  running : s.isShutDown = false
  table : Keeps s.serializer.table l

/-- The store is shut down, and nobody waits for an answer. -/
structure Gone (s : Store) : Prop where
  idle : s.Idle
  stopped : s.isShutDown = true

lemma Follows.push_refused (h : Follows s l) (now : Moment) {body : String}
    (hbody : ¬p.Accepts body) : ∃ message,
      l.respond (.push p body) = (l, Ledger.refused message) ∧
        Gateway.push s now p.job p.inst body = (s, Ledger.refused message) := by
  rw [Gateway.push, p.keyOf_eq, Ledger.respond]
  cases hparse : parse body with
  | error e => exact ⟨e.message, rfl, by rw [← failure_refused]⟩
  | ok families =>
    have hpush : s.serializer.table.push p.key families now.unixMillis = _ :=
      Table.push_of_parse hparse _ _
    rw [← p.clash?_eq] at hpush
    cases hclash : p.clash? families with
    | some e =>
      refine ⟨"invalid push: " ++ e.message, by simp only [hclash], ?_⟩
      rw [← failure_refused]
      simp only [h.idle.call h.running, Serializer.handle, hpush, hclash]
      rfl
    | none => exact absurd ⟨families, hparse, Place.clash?_eq_none_iff.mp hclash⟩ hbody

/-- A payload that is accepted is stored, unless no number is left for it. -/
lemma Follows.push_accepted (h : Follows s l) (now : Moment) {body : String}
    (hbody : p.Accepts body) :
    (Gateway.push s now p.job p.inst body).2 = (l.respond (.push p body)).2 ∧
        Follows (Gateway.push s now p.job p.inst body).1 (l.respond (.push p body)).1 ∨
      Gone (Gateway.push s now p.job p.inst body).1 ∧
        2 ^ 64 ≤ (l.respond (.push p body)).1.accepted := by
  obtain ⟨families, hparse, hapart⟩ := hbody
  have hclash : p.clash? families = none := Place.clash?_eq_none_iff.mpr hapart
  have hpush : s.serializer.table.push p.key families now.unixMillis = _ :=
    Table.push_of_parse hparse _ _
  rw [← p.clash?_eq, hclash] at hpush
  have hnumber := h.table.number
  rw [l.respond_accepted hparse hapart, Gateway.push, p.keyOf_eq, hparse]
  simp only [h.idle.call h.running, Serializer.handle, hpush]
  by_cases hroom : s.serializer.table.nextSeq.toNat + 1 < 2 ^ 64
  · simp only [if_pos hroom]
    refine .inl ⟨success_stored p, ⟨h.idle.queue, h.idle.reserved, h.idle.waiting⟩, ?_, ?_⟩
    · rw [Store.isShutDown, Serializer.markDirty_stopped]
      exact h.running
    · rw [Serializer.markDirty_table]
      exact h.table.record hroom p families now.unixMillis
  · simp only [if_neg hroom]
    refine .inr ⟨⟨⟨h.idle.queue, h.idle.reserved, h.idle.waiting⟩, rfl⟩, ?_⟩
    change 2 ^ 64 ≤ l.accepted + 1
    omega

lemma Follows.delete (h : Follows s l) (now : Moment) (p : Place) :
    (Gateway.delete s now p.job p.inst).2 = (l.respond (.delete p)).2 ∧
      Follows (Gateway.delete s now p.job p.inst).1 (l.respond (.delete p)).1 := by
  have hanswer : (s.serializer.handle now true (.delete p.key)).2
      = .ok (.deleted (l.payloads.contains p.key)) := by
    rw [← h.table.contains]
    rfl
  rw [Gateway.delete, p.keyOf_eq, Ledger.respond]
  simp only [h.idle.call h.running, hanswer]
  refine ⟨success_deleted p _, ⟨h.idle.queue, h.idle.reserved, h.idle.waiting⟩, ?_, ?_⟩
  · rw [Store.isShutDown, Serializer.handle_stopped]
    simpa [Table.ends] using! h.running
  · rw [Serializer.handle_table]
    exact h.table.remove p.key

lemma Follows.scrape (h : Follows s l) (now : Moment) :
    (Gateway.scrape s now).2 = (l.respond .scrape).2 ∧
      Follows (Gateway.scrape s now).1 (l.respond .scrape).1 := by
  have hanswer : (s.serializer.handle now true .snapshot).2
      = .ok (.groups s.serializer.table.snapshot) := rfl
  rw [Gateway.scrape, Ledger.respond]
  simp only [h.idle.call h.running, hanswer, exposition, h.table.merge_snapshot]
  exact ⟨rfl, h⟩

/-- The handler answers as the ledger does, or the store is gone since no number was left. -/
lemma Follows.perform (h : Follows s l) (now : Moment) (c : Call) :
    (c.perform s now).2 = (l.respond c).2 ∧ Follows (c.perform s now).1 (l.respond c).1 ∨
      Gone (c.perform s now).1 ∧ 2 ^ 64 ≤ (l.respond c).1.accepted := by
  cases c with
  | push p body =>
    by_cases hbody : p.Accepts body
    · exact h.push_accepted now hbody
    · obtain ⟨message, hr, hpush⟩ := h.push_refused now hbody
      rw [Call.perform, hr, hpush]
      exact .inl ⟨rfl, h⟩
  | delete p => exact .inl (h.delete now p)
  | scrape => exact .inl (h.scrape now)

lemma Gone.perform (h : Gone s) (now : Moment) (c : Call) : Gone (c.perform s now).1 := by
  cases c with
  | push p body =>
    rw [Call.perform, Gateway.push, p.keyOf_eq]
    cases parse body with
    | error e => exact h
    | ok families =>
      simp only [h.idle.call_of_isShutDown h.stopped]
      exact h
  | delete p =>
    rw [Call.perform, Gateway.delete, p.keyOf_eq]
    simp only [h.idle.call_of_isShutDown h.stopped]
    exact h
  | scrape =>
    rw [Call.perform, Gateway.scrape]
    simp only [h.idle.call_of_isShutDown h.stopped]
    exact h

end Steps

section Runs

variable {s : Store} {l : Ledger} {calls : List (Moment × Call)}

def after (s : Store) (calls : List (Moment × Call)) : Store :=
  calls.foldl (fun s c => (c.2.perform s c.1).1) s

def responses (s : Store) : List (Moment × Call) → List Response
  | [] => []
  | (now, c) :: calls => (c.perform s now).2 :: responses (c.perform s now).1 calls

lemma Gone.after (h : Gone s) : Gone (after s calls) := by
  induction calls generalizing s with
  | nil => exact h
  | cons c calls ih => exact ih (h.perform c.1 c.2)

lemma Follows.after (h : Follows s l) (calls : List (Moment × Call)) :
    responses s calls = l.responses (calls.map Prod.snd) ∧
        Follows (Gateway.after s calls) (l.after (calls.map Prod.snd)) ∨
      Gone (Gateway.after s calls) ∧ 2 ^ 64 ≤ (l.after (calls.map Prod.snd)).accepted := by
  induction calls generalizing s l with
  | nil => exact .inl ⟨rfl, h⟩
  | cons c calls ih =>
    rcases h.perform c.1 c.2 with ⟨hresponse, hnext⟩ | ⟨hgone, hfull⟩
    · rcases ih hnext with ⟨hresponses, hafter⟩ | hgone
      · exact .inl ⟨congrArg₂ List.cons hresponse hresponses, hafter⟩
      · exact .inr hgone
    · exact .inr ⟨hgone.after, Nat.le_trans hfull (Ledger.accepted_le_after _ _)⟩

lemma follows_start (o : StoreOptions) : Follows (.start o .empty none) .empty :=
  ⟨⟨rfl, rfl, rfl⟩, rfl, rfl, rfl⟩

/-- The store is gone exactly if the ledger counts more payloads than there are numbers. -/
lemma Follows.running_iff (h : Follows s l) : (Gateway.after s calls).isShutDown = false ↔
    (l.after (calls.map Prod.snd)).accepted < 2 ^ 64 := by
  rcases h.after calls with ⟨-, hafter⟩ | ⟨hgone, hfull⟩
  · refine iff_of_true hafter.running ?_
    rw [← hafter.table.number]
    exact UInt64.toNat_lt _
  · exact iff_of_false (by simp [hgone.stopped]) (Nat.not_lt.mpr hfull)

lemma Follows.after_of_running (h : Follows s l)
    (hs : (Gateway.after s calls).isShutDown = false) :
    responses s calls = l.responses (calls.map Prod.snd) ∧
      Follows (Gateway.after s calls) (l.after (calls.map Prod.snd)) := by
  refine (h.after calls).resolve_right fun hgone => ?_
  rw [hgone.1.stopped] at hs
  cases hs

/-- The handlers on a store in memory are the ledger until it is shut down: a push is accepted or,
if it is refused, changes no response, nothing else fails, and the places do not meddle with each
other. -/
theorem responses_eq_ledger (o : StoreOptions) (calls : List (Moment × Call)) :
    let s := Store.start o .empty none
    ((after s calls).isShutDown = false ↔
      (Ledger.empty.after (calls.map Prod.snd)).accepted < 2 ^ 64) ∧
    ((after s calls).isShutDown = false →
      responses s calls = Ledger.empty.responses (calls.map Prod.snd) ∧
      (∀ r ∈ responses s calls, r.status = 200 ∨ r.status = 202 ∨ r.status = 400) ∧
      (∀ now p body,
        let pushed := (Call.push p body).perform (after s calls) now
        (p.Accepts body → pushed.1.isShutDown = false → pushed.2.status = 202) ∧
        (¬p.Accepts body → pushed.2.status = 400 ∧
          ∀ later, responses pushed.1 later = responses (after s calls) later)) ∧
      ∀ now now' p,
        ((Call.delete p).perform (after s calls) now).2 = ((Call.delete p).perform
          (after s (calls.filter fun c => c.2.place? = some p)) now').2) := by
  intro s
  have hstart : Follows s .empty := follows_start o
  refine ⟨hstart.running_iff, fun hs => ?_⟩
  obtain ⟨hresponses, hcalls⟩ := hstart.after_of_running hs
  refine ⟨hresponses, fun r hr => ?_, fun now p body => ⟨fun ha hpushed => ?_, fun hr => ?_⟩,
    fun now now' p => ?_⟩
  · rw [hresponses] at hr
    exact Ledger.status_of_mem_responses hr
  · rcases hcalls.push_accepted now ha with ⟨hresponse, -⟩ | ⟨hgone, -⟩
    · rw [Call.perform, hresponse]
      exact (Ledger.respond_push _ p body).elim And.left fun h => absurd ha h.2.1
    · exact absurd (hgone.stopped.symm.trans hpushed) (by decide)
  · obtain ⟨message, -, hpush⟩ := hcalls.push_refused now hr
    rw [Call.perform, hpush]
    exact ⟨rfl, fun _ => rfl⟩
  · have hfilter : (calls.filter fun c => c.2.place? = some p).map Prod.snd
        = (calls.map Prod.snd).filter fun c => c.place? = some p := by
      rw [List.filter_map]
      rfl
    have hplace : (after s (calls.filter fun c => c.2.place? = some p)).isShutDown = false := by
      rw [hstart.running_iff, hfilter]
      refine Nat.lt_of_le_of_lt (Ledger.accepted_after_filter_le _ _ (Nat.le_refl _)) ?_
      exact hstart.running_iff.mp hs
    have hcontains : (Ledger.empty.after (calls.map Prod.snd)).payloads.contains p.key = _ :=
      Ledger.contains_after_filter (calls.map Prod.snd) rfl
    rw [Call.perform, Call.perform, (hcalls.delete now p).1,
      ((hstart.after_of_running hplace).2.delete now' p).1, hfilter, Ledger.respond,
      Ledger.respond, hcontains]

/-- A push, one that is not read, one with a label of the place, scrapes, and deletes of what is
there and of what is not. -/
theorem responses_eq_ledger_one_place :
    let a : Place := ⟨"a", some "i"⟩
    let b : Place := ⟨"a\"", none⟩
    let calls : List (Moment × Call) := [(⟨1, 1⟩, .push a "up 1\n"), (⟨2, 2⟩, .push a "up"),
      (⟨3, 3⟩, .push a "up\x7binstance=\"j\"\x7d 1"), (⟨4, 4⟩, .scrape),
      (⟨5, 5⟩, .delete b), (⟨6, 6⟩, .delete a), (⟨7, 7⟩, .scrape)]
    let s := Store.start .default .empty none
    (after s calls).isShutDown = false ∧
      (responses s calls).map Response.status = [202, 400, 400, 200, 202, 202, 200] ∧
      ((responses s calls).eraseIdx 2).map Response.body =
        ["\x7b\"success\":true,\"data\":"
            ++ "\x7b\"group\":\"instance=\\\"i\\\",job=\\\"a\\\"\"\x7d\x7d",
          "\x7b\"success\":false,\"error\":\"line 1: missing sample value\"\x7d",
          "# HELP up\n# TYPE up untyped\nup\x7binstance=\"i\",job=\"a\"\x7d 1\n",
          "\x7b\"success\":true,\"data\":"
            ++ "\x7b\"group\":\"job=\\\"a\\\\\\\"\\\"\",\"existed\":false\x7d\x7d",
          "\x7b\"success\":true,\"data\":"
            ++ "\x7b\"group\":\"instance=\\\"i\\\",job=\\\"a\\\"\",\"existed\":true\x7d\x7d",
          ""] := by
  intro a b calls s
  have hledger := responses_eq_ledger .default calls
  have hs : (after s calls).isShutDown = false := hledger.1.mpr (by decide +kernel)
  rw [(hledger.2 hs).1]
  exact ⟨hs, by decide +kernel⟩

end Runs

end Gateway

end PushGateway
