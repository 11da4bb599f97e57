import PushGateway.Proofs.ConsistentPayloads
import PushGateway.Proofs.EarliestAccepted
import PushGateway.Proofs.RenderedText

/-! A push of what a key holds already gives its group a new number, so the group moves behind all
others: it keeps the names and the series that nobody else has. -/

namespace PushGateway

open Exposition

namespace Merge

/-- The groups before and after `g` moves behind the others, where it is `g'`. -/
structure Moves (groups : List Group) (g : Group) (others : List Group) (g' : Group)
    (groups' : List Group) : Prop where
  distinct : Distinct groups
  here : g ∈ groups
  sublist : others.Sublist groups
  mem : ∀ h ∈ groups, h = g ∨ h ∈ others
  apart : ∀ h ∈ others, h.key ≠ g.key
  same : g' = { g with lastPush := g'.lastPush, pushSeq := g'.pushSeq }
  replaced : groups' = groups.map fun h => if h.key = g.key then g' else h
  joins : Joins others g' groups'

/-- Where `g` leads, the type and the help are those of the group that leads without it. -/
def AgreesWithNext (groups : List Group) (g : Group) (others : List Group) : Prop :=
  ∀ name f h e, Leads groups name g f → Leads others name h e →
    e.metricType = f.metricType ∧ e.help = f.help

/-- No other group produces a series of `g`. -/
def Unshared (g : Group) (others : List Group) : Prop :=
  ∀ name, ∀ s ∈ named g name, ∀ h ∈ others, ¬Produces ⟨name, withKey g.key s.labels⟩ h

section Moved

variable {groups others groups' : List Group} {g g' h : Group} {name : String} {e f : Family}

lemma Leads.unique (hd : Distinct groups) (hl : Leads groups name g f)
    (hl' : Leads groups name h e) : g = h ∧ f = e := by
  have hfind := (find?_pairs_ranked hd).mpr hl
  rw [(find?_pairs_ranked hd).mpr hl'] at hfind
  obtain ⟨hg, hf⟩ := Prod.mk.inj (Option.some.inj hfind)
  exact ⟨hg.symm, hf.symm⟩

variable (hm : Moves groups g others g' groups')
include hm

lemma Moves.families : g'.families = g.families := by rw [hm.same]

lemma Moves.key : g'.key = g.key := by rw [hm.same]

lemma Moves.named (name : String) : named g' name = named g name := by
  rw [Merge.named, Merge.named, hm.families]

lemma Moves.here_after : g' ∈ groups' := by
  rw [hm.replaced]
  exact List.mem_map.mpr ⟨g, hm.here, if_pos rfl⟩

lemma Moves.leads_after : Leads groups' name h e ↔ Leads others name h e ∨
    h = g' ∧ g'.families.get? name = some e ∧ ∀ i ∈ others, i.families.get? name = none := by
  constructor
  · rintro ⟨hh, he, hlow⟩
    rcases hm.joins.mem h hh with rfl | ho
    · refine .inr ⟨rfl, he, fun i hi => ?_⟩
      rw [← Option.not_isSome_iff_eq_none]
      intro hs
      have hbehind := hm.joins.last i hi
      rcases hlow i (hm.joins.sublist.mem hi) hs with rfl | hrank
      · simp [ranksBefore_irrefl] at hbehind
      · simp [ranksBefore_asymm hbehind] at hrank
    · exact .inl ⟨ho, he, fun i hi hs => hlow i (hm.joins.sublist.mem hi) hs⟩
  · rintro (hl | ⟨rfl, he, hnone⟩)
    · exact hm.joins.leads hl
    · refine ⟨hm.here_after, he, fun i hi hs => ?_⟩
      rcases hm.joins.mem i hi with rfl | ho
      · exact .inl rfl
      · rw [hnone i ho] at hs
        cases hs

lemma Moves.leads_before (hl : Leads groups name h e) : h = g ∨ Leads others name h e := by
  obtain ⟨hh, he, hlow⟩ := hl
  rcases hm.mem h hh with rfl | ho
  · exact .inl rfl
  · exact .inr ⟨ho, he, fun i hi hs => hlow i (hm.sublist.mem hi) hs⟩

lemma Moves.outranked_after (labels : Labels) : Outranked groups' g' name labels ↔
    ∃ h ∈ others, Produces ⟨name, withKey g.key labels⟩ h := by
  rw [← hm.key]
  constructor
  · rintro ⟨h, hh, hrank, hseries⟩
    rcases hm.joins.mem h hh with rfl | ho
    · simp [ranksBefore_irrefl] at hrank
    · exact ⟨h, ho, hseries⟩
  · rintro ⟨h, ho, hseries⟩
    exact ⟨h, hm.joins.sublist.mem ho, hm.joins.last h ho, hseries⟩

/-- Two groups that lead a name before and after define it alike, unless `g` gives it away. -/
lemma Moves.leads_cases {i : Group} (hl : Leads groups name i f) (hl' : Leads groups' name h e) :
    e = f ∨ i = g ∧ Leads others name h e := by
  rcases hm.leads_before hl with rfl | hi
  · rcases hm.leads_after.mp hl' with hnext | ⟨rfl, he, -⟩
    · exact .inr ⟨rfl, hnext⟩
    · rw [hm.families, hl.2.1] at he
      exact .inl (Option.some.inj he).symm
  · exact .inl (Leads.unique hm.joins.distinct (hm.joins.leads hi) hl').2.symm

lemma Moves.exists_leads_iff :
    (∃ h e, Leads groups' name h e) ↔ ∃ i f, Leads groups name i f := by
  constructor
  · rintro ⟨h, e, hh, he, -⟩
    rcases hm.joins.mem h hh with rfl | ho
    · exact exists_leads hm.distinct hm.here (Option.isSome_iff_exists.mpr ⟨e, hm.families ▸ he⟩)
    · exact exists_leads hm.distinct (hm.sublist.mem ho) (Option.isSome_iff_exists.mpr ⟨e, he⟩)
  · rintro ⟨i, f, hi, hf, -⟩
    have hd' := hm.joins.distinct
    rcases hm.mem i hi with rfl | ho
    · exact exists_leads hd' hm.here_after (Option.isSome_iff_exists.mpr ⟨f, hm.families ▸ hf⟩)
    · exact exists_leads hd' (hm.joins.sublist.mem ho) (Option.isSome_iff_exists.mpr ⟨f, hf⟩)

lemma Moves.definitions_eq_iff : definitions (ranked groups') = definitions (ranked groups) ↔
    AgreesWithNext groups g others := by
  have hd' := hm.joins.distinct
  constructor
  · intro hdefs name f h e hl hnext
    have hbefore := (get?_definitions hm.distinct).mpr ⟨g, f, hl, rfl⟩
    have hafter := (get?_definitions hd').mpr ⟨h, e, hm.joins.leads hnext, rfl⟩
    rw [hdefs, hbefore] at hafter
    obtain ⟨htype, hhelp⟩ := Definition.mk.inj (Option.some.inj hafter)
    exact ⟨htype.symm, hhelp.symm⟩
  · intro hagree
    have hsame {name : String} {i h : Group} {f e : Family} (hl : Leads groups name i f)
        (hl' : Leads groups' name h e) :
        (⟨e.metricType, e.help⟩ : Definition) = ⟨f.metricType, f.help⟩ := by
      rcases hm.leads_cases hl hl' with rfl | ⟨rfl, hnext⟩
      · rfl
      · obtain ⟨htype, hhelp⟩ := hagree name f h e hl hnext
        rw [htype, hhelp]
    refine SortedMap.ext_get? fun name => Option.ext fun d => ?_
    rw [get?_definitions hd', get?_definitions hm.distinct]
    constructor
    · rintro ⟨h, e, hl', rfl⟩
      obtain ⟨i, f, hl⟩ := hm.exists_leads_iff.mp ⟨h, e, hl'⟩
      exact ⟨i, f, hl, hsame hl hl'⟩
    · rintro ⟨i, f, hl, rfl⟩
      obtain ⟨h, e, hl'⟩ := hm.exists_leads_iff.mpr ⟨i, f, hl⟩
      exact ⟨h, e, hl', (hsame hl hl').symm⟩

lemma Moves.survivors_of_unshared (hu : Unshared g others) (name : String) :
    survivors groups' name = survivors groups name := by
  rw [survivors, survivors]
  conv_lhs => arg 2; rw [hm.replaced]
  rw [List.flatMap_map]
  refine List.flatMap_congr fun h hh => ?_
  rcases hm.mem h hh with rfl | ho
  · rw [if_pos rfl, hm.key, hm.named]
    refine congrArg (List.map _) (List.filter_congr fun s hs => ?_)
    have hafter : ¬Outranked groups' g' name s.labels := by
      rw [hm.outranked_after]
      rintro ⟨i, hi, hseries⟩
      exact hu name s hs i hi hseries
    have hbefore : ¬Outranked groups h name s.labels := by
      rintro ⟨i, hi, hrank, hseries⟩
      rcases hm.mem i hi with rfl | ho
      · simp [ranksBefore_irrefl] at hrank
      · exact hu name s hs i ho hseries
    rw [decide_eq_true hafter, decide_eq_true hbefore]
  · rw [if_neg (hm.apart h ho)]
    refine congrArg (List.map _) (List.filter_congr fun s hs => ?_)
    rw [decide_eq_decide, not_iff_not, hm.joins.outranked_iff ho]
    constructor
    · rintro ⟨i, hi, hrank, hseries⟩
      exact ⟨i, hm.sublist.mem hi, hrank, hseries⟩
    · rintro ⟨i, hi, hrank, r, hr, heq⟩
      rcases hm.mem i hi with rfl | hi
      · exact absurd ⟨s, hs, heq.symm⟩ (hu name r hr h ho)
      · exact ⟨i, hi, hrank, r, hr, heq⟩

end Moved

end Merge

namespace SortedMap

variable {α β : Type} [Ordered α] [DecidableEq α]

lemma insert_eq_mapEntries {m : SortedMap α β} {k : α} {w : β} (h : m.get? k = some w) (v : β) :
    m.insert k v = m.mapEntries fun j u => if j = k then v else u := by
  apply ext_get?
  intro j
  rw [get?_insert, get?_mapEntries]
  by_cases hj : j = k
  · rw [if_pos hj, hj, h, Option.map_some, if_pos rfl]
  · rw [if_neg hj]
    simp [hj]

end SortedMap

namespace Table

open Merge

section Steps

variable {t : Table} {key : GroupingKey} {g : Group} {families : List Family}

/-- The group that a push of what is there would put in. -/
lemma build_again (hd : Distinct t.snapshot) (hk : g.key = key) (hg : t.get? key = some g)
    (hf : families.Perm g.families.values) (now : UInt64) :
    Group.build key families now t.nextSeq
      = .ok { g with lastPush := now, pushSeq := t.nextSeq } := by
  subst hk
  have hvalid := hd.valid g (SortedMap.mem_values_iff.mpr ⟨g.key, hg⟩)
  exact (Group.build_congr hf.symm).mp (Group.build_restamp hvalid.build_values now t.nextSeq)

lemma distinct_insert (hkeyed : t.Keyed) (hd : Distinct t.snapshot) {now seq : UInt64}
    (hb : Group.build key families now seq = .ok g) : Distinct (t.groups.insert key g).values := by
  have hkeyed' : Keyed ⟨t.groups.insert key g, t.nextSeq⟩ := by
    intro p hp
    rcases SortedMap.mem_insertEntry hp with rfl | hp
    · exact Group.key_of_build hb
    · exact hkeyed p hp
  refine ⟨fun h hh => ?_, hkeyed'.keys_nodup⟩
  obtain ⟨p, hp, rfl⟩ := List.mem_map.mp hh
  rcases SortedMap.mem_insertEntry hp with rfl | hp
  · exact Group.valid_of_build hb
  · exact hd.valid p.2 (List.mem_map_of_mem hp)

lemma Numbered.moves (h : t.Numbered) (hkeyed : t.Keyed) (hd : Distinct t.snapshot)
    (hg : t.get? key = some g) (now : UInt64)
    (hd' : Distinct
      (t.groups.insert key { g with lastPush := now, pushSeq := t.nextSeq }).values) :
    Moves t.snapshot g (t.delete key).1.snapshot { g with lastPush := now, pushSeq := t.nextSeq }
      (t.groups.insert key { g with lastPush := now, pushSeq := t.nextSeq }).values := by
  have hmem := SortedMap.get?_eq_some_iff.mp hg
  have hk : g.key = key := hkeyed (key, g) hmem
  refine ⟨hd, List.mem_map_of_mem hmem, ?_, fun i hi => ?_, fun i hi => ?_, rfl, ?_, hd', ?_,
    fun i hi => ?_, fun i hi => ?_⟩
  · refine (SortedMap.entries_sublist fun j i hi => ?_).map Prod.snd
    exact (SortedMap.get?_erase_eq_some_iff.mp hi).2
  · exact SortedMap.mem_values_erase hg (fun _ _ => rfl) hi
  · obtain ⟨j, hj⟩ := SortedMap.mem_values_iff.mp hi
    obtain ⟨hne, hj⟩ := SortedMap.get?_erase_eq_some_iff.mp hj
    have hkey := hkeyed (j, i) (SortedMap.get?_eq_some_iff.mp hj)
    rw [hkey, hk]
    exact hne
  · rw [SortedMap.insert_eq_mapEntries hg, SortedMap.values, SortedMap.mapEntries, List.map_map,
      snapshot, SortedMap.values, List.map_map]
    refine List.map_congr_left fun p hp => ?_
    change (if p.1 = key then _ else _) = if p.2.key = g.key then _ else _
    rw [hkeyed p hp, hk]
  · refine (SortedMap.entries_sublist fun j i hi => ?_).map Prod.snd
    obtain ⟨hne, hj⟩ := SortedMap.get?_erase_eq_some_iff.mp hi
    exact (SortedMap.get?_insert_of_ne t.groups _ hne).trans hj
  · exact SortedMap.mem_values_erase (SortedMap.get?_insert_self ..)
      (fun j hj => SortedMap.get?_insert_of_ne t.groups _ hj) hi
  · obtain ⟨p, hp, rfl⟩ := List.mem_map.mp hi
    exact ranksBefore_iff.mpr (.inl (h.below p (SortedMap.mem_of_mem_eraseEntry hp)))

end Steps

/-- The text stays only if the key led no name that another group defines differently and lost no
series to another group. -/
theorem repeated_push_keeps_text_iff {changes : List Change} {key : GroupingKey} {g : Group}
    {families : List Family} (hg : (empty.after changes).get? key = some g)
    (hf : families.Perm g.families.values) (now : UInt64) :
    let t := empty.after changes
    let others := (t.delete key).1.snapshot
    let again : Group := { g with lastPush := now, pushSeq := t.nextSeq }
    let t' : Table := ⟨t.groups.insert key again, t.nextSeq + 1⟩
    let text (t : Table) := render (merge t.snapshot).families
    t.push key families now
      = (if t.nextSeq.toNat + 1 < 2 ^ 64 then .ok (t', true) else .error .overflow) ∧
    (∀ h ∈ others, ranksBefore h again = true) ∧
    (∀ name h e, Leads t'.snapshot name h e ↔ Leads others name h e ∨
      h = again ∧ g.families.get? name = some e ∧ ∀ i ∈ others, i.families.get? name = none) ∧
    (∀ name labels, Outranked t'.snapshot again name labels ↔
      ∃ h ∈ others, Produces ⟨name, withKey key labels⟩ h) ∧
    (text t' = text t ↔ AgreesWithNext t.snapshot g others ∧
      ∀ name, sampleLines name (survivors t'.snapshot name)
        = sampleLines name (survivors t.snapshot name)) ∧
    (Unshared g others → (text t' = text t ↔ AgreesWithNext t.snapshot g others)) := by
  intro t others again t' text
  have hkeyed : t.Keyed := keyed_empty.after changes
  have hd : Distinct t.snapshot := distinct_after changes
  have hk : g.key = key := hkeyed (key, g) (SortedMap.get?_eq_some_iff.mp hg)
  have hb : Group.build key families now t.nextSeq = .ok again := build_again hd hk hg hf now
  have hpush : t.push key families now
      = if t.nextSeq.toNat + 1 < 2 ^ 64 then .ok (t', true) else .error .overflow := by
    have hcontains : t.groups.contains key = true := Option.isSome_iff_exists.mpr ⟨g, hg⟩
    rw [push_eq, hb, hcontains]
  have hd' : Distinct t'.snapshot := distinct_insert hkeyed hd hb
  have hm : Moves t.snapshot g others again t'.snapshot :=
    (numbered_empty.after changes).moves hkeyed hd hg now hd'
  have htext : text t' = text t ↔ AgreesWithNext t.snapshot g others ∧
      ∀ name, sampleLines name (survivors t'.snapshot name)
        = sampleLines name (survivors t.snapshot name) := by
    rw [← hm.definitions_eq_iff]
    exact render_merge_eq_iff hd' hd
  refine ⟨hpush, hm.joins.last, fun name h e => hm.leads_after, fun name labels => ?_, htext,
    fun hu => ?_⟩
  · rw [← hk]
    exact hm.outranked_after labels
  · rw [htext, and_iff_left fun name => congrArg _ (hm.survivors_of_unshared hu name)]

/-- The first of two groups with a common family, pushed again with its families turned round. -/
theorem repeated_push_keeps_text_iff_turned_round :
    let one : Binary64 := ⟨0x3FF0000000000000⟩
    let a : GroupingKey := ⟨.ofList [("job", "a")], by decide, by decide⟩
    let b : GroupingKey := ⟨.ofList [("job", "b")], by decide, by decide⟩
    let up (x : Binary64) : Family := ⟨"up", "common", .gauge, [⟨.empty, .gauge x, none⟩]⟩
    let own : Family := ⟨"own", "", .counter, [⟨.empty, .counter one, some 7⟩]⟩
    let changes : List Change := [.push ⟨a, [up one, own], 1⟩, .push ⟨b, [up .zero], 2⟩]
    let t := empty.after changes
    let g : Group := ⟨a, .ofList [("own", own), ("up", up one)], 1, 0⟩
    let again : Group := { g with lastPush := 3, pushSeq := t.nextSeq }
    t.get? a = some g ∧ t.nextSeq = 2 ∧
      t.push a [up one, own] 3 = .ok (⟨t.groups.insert a again, t.nextSeq + 1⟩, true) ∧
      (∀ h ∈ (t.delete a).1.snapshot, Merge.ranksBefore h again = true) ∧
      render (merge (t.groups.insert a again).values).families
        = render (merge t.snapshot).families := by
  intro one a b up own changes t g again
  have hg : t.get? a = some g := by decide +kernel
  have hvalues : g.families.values = [own, up one] := by decide +kernel
  have hf : [up one, own].Perm g.families.values := hvalues ▸ .swap own (up one) []
  have hothers : (t.delete a).1.snapshot = [⟨b, .ofList [("up", up .zero)], 2, 1⟩] := by
    decide +kernel
  obtain ⟨hpush, hbehind, -, -, -, htext⟩ := repeated_push_keeps_text_iff hg hf 3
  refine ⟨hg, by decide +kernel, hpush.trans (if_pos (by decide +kernel)), hbehind,
    (htext ?_).mpr ?_⟩
  · rintro name s - h hh ⟨r, -, heq⟩
    rw [hothers] at hh
    obtain rfl := List.mem_singleton.mp hh
    have hjob := congrArg (fun l => l.get? "job") heq
    simp only [get?_withKey] at hjob
    have hb : b.get? "job" = some "b" := by decide
    have ha : g.key.get? "job" = some "a" := by decide
    rw [hb, ha] at hjob
    exact absurd (Option.some.inj hjob) (by decide)
  · intro name f h e hl hnext
    obtain ⟨hh, he, -⟩ := hnext
    rw [hothers] at hh
    obtain rfl := List.mem_singleton.mp hh
    obtain ⟨rfl, rfl⟩ := Prod.mk.inj (List.mem_singleton.mp (SortedMap.get?_eq_some_iff.mp he))
    have hup : g.families.get? "up" = some (up one) := by decide +kernel
    obtain rfl := Option.some.inj (hup.symm.trans hl.2.1)
    exact ⟨rfl, rfl⟩

/-- The first group pushes what it holds already, and the second one now decides help and type. -/
theorem repeated_push_changes_text :
    let one : Binary64 := ⟨0x3FF0000000000000⟩
    let two : Binary64 := ⟨0x4000000000000000⟩
    let a : GroupingKey := ⟨.ofList [("job", "a")], by decide, by decide⟩
    let b : GroupingKey := ⟨.ofList [("job", "b")], by decide, by decide⟩
    let first : Family := ⟨"up", "first", .gauge, [⟨.empty, .gauge one, none⟩]⟩
    let second : Family := ⟨"up", "second", .counter, [⟨.empty, .counter two, none⟩]⟩
    let t := empty.after [.push ⟨a, [first], 1⟩, .push ⟨b, [second], 2⟩]
    let lines := "up\x7bjob=\"a\"\x7d 1\nup\x7bjob=\"b\"\x7d 2\n"
    ∃ g t', t.get? a = some g ∧ t.push a g.families.values 3 = .ok (t', true) ∧
      render (merge t.snapshot).families = "# HELP up first\n# TYPE up gauge\n" ++ lines ∧
      render (merge t'.snapshot).families = "# HELP up second\n# TYPE up counter\n" ++ lines := by
  intro one two a b first second t lines
  let g : Group := ⟨a, .ofList [("up", first)], 1, 0⟩
  let h : Group := ⟨b, .ofList [("up", second)], 2, 1⟩
  let again : Group := { g with lastPush := 3, pushSeq := 2 }
  let t' : Table := ⟨.ofList [(a, again), (b, h)], 3⟩
  have hranked : Merge.ranked t.snapshot = t.snapshot :=
    List.mergeSort_of_pairwise (by decide +kernel)
  have hranked' : Merge.ranked t'.snapshot = t'.snapshot.reverse :=
    Merge.ranked_eq_of_sorted (by decide +kernel) (List.reverse_perm _) (by decide +kernel)
  refine ⟨g, t', by decide +kernel, by decide +kernel, ?_, ?_⟩
  · rw [merge, hranked]
    decide +kernel
  · rw [merge, hranked']
    decide +kernel

end Table

end PushGateway
