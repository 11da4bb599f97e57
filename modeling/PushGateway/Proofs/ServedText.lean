import PushGateway.Proofs.FirstPushWins
import PushGateway.Proofs.RenderRoundTrip
import PushGateway.Proofs.TableKeys

/-! What a table that was filled by payloads serves. Where the groups agree about the types of the
families, merging them gives families like those of one payload, and the text is read back. -/

namespace PushGateway

open Exposition

section Fed

/-- The tables that accepted payloads and deletes lead to. -/
inductive Table.Fed : Table → Prop
  | empty : Fed .empty
  | push {t t' : Table} {text : String} {families : List Family} {key : GroupingKey} {now : UInt64}
      {replaced : Bool} (ht : Fed t) (hparse : parse text = .ok families)
      (hpush : t.push key families now = .ok (t', replaced)) : Fed t'
  | delete {t : Table} (ht : Fed t) (key : GroupingKey) : Fed (t.delete key).1

def Group.Settled (g : Group) : Prop := ∀ f ∈ g.families.values, f.Settled

lemma Group.settled_of_build {key : GroupingKey} {families : List Family} {now seq : UInt64}
    {g : Group} (hf : ∀ f ∈ families, f.Settled) (hg : build key families now seq = .ok g) :
    g.Settled := by
  obtain ⟨-, -, rfl⟩ := build_eq_ok_iff.mp hg
  intro f hf'
  obtain ⟨p, hp, rfl⟩ := List.mem_map.mp hf'
  obtain ⟨e, he, rfl⟩ := List.mem_map.mp (SortedMap.mem_ofList hp)
  exact hf e he

namespace Table

variable {t : Table}

lemma Fed.keyed (h : t.Fed) : t.Keyed := by
  induction h with
  | empty => exact keyed_empty
  | push _ _ hpush ih => exact ih.push hpush
  | delete _ key ih => exact ih.delete key

lemma Fed.groups (h : t.Fed) : ∀ g ∈ t.snapshot, g.Valid ∧ g.Settled := by
  suffices hp : ∀ p ∈ t.groups.entries, p.2.Valid ∧ p.2.Settled by
    exact List.forall_mem_map.mpr hp
  induction h with
  | empty =>
    intro p hp
    cases hp
  | push _ hparse hpush ih =>
    obtain ⟨g, hg, -, rfl, -⟩ := push_eq_ok_iff.mp hpush
    intro p hp
    rcases SortedMap.mem_insertEntry hp with rfl | hp
    · exact ⟨Group.valid_of_build hg, Group.settled_of_build (settled_of_parse hparse).1 hg⟩
    · exact ih p hp
  | delete _ key ih => exact fun p hp => ih p (SortedMap.mem_of_mem_eraseEntry hp)

lemma Fed.distinct (h : t.Fed) : Merge.Distinct t.snapshot :=
  ⟨fun g hg => (h.groups g hg).1, h.keyed.keys_nodup⟩

end Table

end Fed

namespace Merge

section Labels

variable {key : GroupingKey} {labels : Labels} {n : String}

lemma mem_keys_withKey :
    n ∈ (withKey key labels).keys ↔ key.containsLabel n = true ∨ n ∈ labels.keys := by
  rw [← SortedMap.contains_eq_true_iff, ← SortedMap.contains_eq_true_iff, SortedMap.contains,
    get?_withKey, Option.isSome_or, Bool.or_eq_true]
  rfl

/-- No label of a key is one that the series lines of a type add. -/
lemma checkLabel_of_containsLabel (f : Family) (h : key.containsLabel n = true) :
    f.checkLabel n = .ok () := by
  obtain ⟨p, hp, rfl⟩ := List.mem_map.mp (SortedMap.contains_eq_true_iff.mp h)
  have hkey := key.keyLabels p hp
  simp only [isKeyLabel, isReservedInKey, Bool.and_eq_true, Bool.not_eq_true',
    Bool.or_eq_false_iff] at hkey
  obtain ⟨hname, ⟨hreserved, hbucket⟩, hquantile⟩ := hkey
  refine checkLabel_eq_ok_iff.mpr ⟨⟨hname, hreserved⟩, ?_⟩
  cases f.metricType with
  | histogram => exact hbucket
  | summary => exact hquantile
  | counter | gauge | untyped => rfl

lemma accepts_withKey {f : Family} {s : Sample} (h : f.Accepts s) :
    f.Accepts { s with labels := withKey key s.labels } := by
  refine ⟨h.1, fun n hn => ?_⟩
  rcases mem_keys_withKey.mp hn with hn | hn
  · exact checkLabel_of_containsLabel f hn
  · exact h.2 n hn

lemma accepts_congr {f m : Family} {s : Sample} (ht : f.metricType = m.metricType)
    (h : f.Accepts s) : m.Accepts s := by
  refine ⟨h.1.trans ht, fun n hn => ?_⟩
  have hlabel := checkLabel_eq_ok_iff.mp (h.2 n hn)
  rw [ht] at hlabel
  exact checkLabel_eq_ok_iff.mpr hlabel

end Labels

section Families

variable {groups : List Group} {m : Family}

lemma mem_survivors {name : String} {s : Sample} (hs : s ∈ survivors groups name) :
    ∃ g ∈ groups, ∃ f, g.families.get? name = some f ∧
      ∃ r ∈ f.samples, s = { r with labels := withKey g.key r.labels } := by
  obtain ⟨g, hg, hs⟩ := List.mem_flatMap.mp hs
  obtain ⟨r, hr, rfl⟩ := List.mem_map.mp hs
  obtain ⟨f, hf, hr⟩ := mem_named_iff.mp (List.mem_filter.mp hr).1
  exact ⟨g, hg, f, hf, r, hr, rfl⟩

/-- A group whose family is not of the merged type is reported. -/
lemma typeConflict_of_ne (hd : Distinct groups) (hm : m ∈ (merge groups).families) {g : Group}
    (hg : g ∈ groups) {f : Family} (hf : g.families.get? m.name = some f)
    (hne : f.metricType ≠ m.metricType) :
    ⟨m.name, g.key, .type m.metricType f.metricType⟩ ∈ (merge groups).conflicts := by
  obtain ⟨h, e, hleads, htype, -⟩ := leads_of_mem_merge hd hm
  exact mem_conflicts_of_reported hd ⟨g, hg, rfl, f, hf, hne.symm, rfl, h, e, hleads, htype⟩

lemma metricType_of_mem_merge (hd : Distinct groups)
    (hc : ∀ c ∈ (merge groups).conflicts, ∀ first found, c.kind ≠ .type first found)
    (hm : m ∈ (merge groups).families) {g : Group} (hg : g ∈ groups) {f : Family}
    (hf : g.families.get? m.name = some f) : f.metricType = m.metricType := by
  by_contra hne
  exact hc _ (typeConflict_of_ne hd hm hg hf hne) _ _ rfl

/-- Each merged sample is one that the family of some payload accepts. -/
lemma source_of_mem_merge (hd : Distinct groups) (hs : ∀ g ∈ groups, g.Settled)
    (hm : m ∈ (merge groups).families) {s : Sample} (hmem : s ∈ m.samples) :
    ∃ g ∈ groups, ∃ f, g.families.get? m.name = some f ∧ f.Accepts s ∧ s.value.Settled := by
  rw [samples_of_mem_merge hd hm] at hmem
  obtain ⟨g, hg, f, hf, r, hr, rfl⟩ := mem_survivors hmem
  have hsettled := hs g hg f (SortedMap.mem_values_iff.mpr ⟨m.name, hf⟩)
  exact ⟨g, hg, f, hf, accepts_withKey (hsettled.valid.samples r hr), hsettled.samples r hr⟩

lemma isMetricName_of_mem_merge (hd : Distinct groups) (hs : ∀ g ∈ groups, g.Settled)
    (hm : m ∈ (merge groups).families) : Name.isMetricName m.name = true := by
  obtain ⟨h, e, ⟨hh, he, -⟩, -⟩ := leads_of_mem_merge hd hm
  rw [← (hd.valid h hh).name_of_get? he]
  exact (hs h hh e (SortedMap.mem_values_iff.mpr ⟨m.name, he⟩)).valid.name

lemma settled_of_mem_merge (hd : Distinct groups) (hs : ∀ g ∈ groups, g.Settled)
    (hc : ∀ c ∈ (merge groups).conflicts, ∀ first found, c.kind ≠ .type first found)
    (hm : m ∈ (merge groups).families) : m.Settled := by
  refine ⟨⟨isMetricName_of_mem_merge hd hs hm, fun s hmem => ?_, ?_⟩, ?_, fun s hmem => ?_⟩
  · obtain ⟨g, hg, f, hf, haccepts, -⟩ := source_of_mem_merge hd hs hm hmem
    exact accepts_congr (metricType_of_mem_merge hd hc hm hg hf) haccepts
  · rw [samples_of_mem_merge hd hm]
    exact survivors_labels_nodup hd m.name
  · obtain ⟨h, e, ⟨hh, he, -⟩, -, hhelp⟩ := leads_of_mem_merge hd hm
    rw [hhelp]
    exact (hs h hh e (SortedMap.mem_values_iff.mpr ⟨m.name, he⟩)).help
  · obtain ⟨g, hg, f, hf, -, hvalue⟩ := source_of_mem_merge hd hs hm hmem
    exact hvalue

lemma names_merge_nodup (groups : List Group) :
    ((merge groups).families.map Family.name).Nodup := by
  rw [names_merge]
  exact SortedMap.nodup_of_sorted (SortedMap.keys_sorted _)

end Families

end Merge

theorem Table.Fed.parse_render_merge {t : Table} (h : t.Fed)
    (hc : ∀ c ∈ (merge t.snapshot).conflicts, ∀ first found, c.kind ≠ .type first found) :
    parse (render (merge t.snapshot).families)
      = .ok ((merge t.snapshot).families.map Family.complete) := by
  refine parse_render (fun m hm => ?_) (Merge.names_merge_nodup t.snapshot)
  exact Merge.settled_of_mem_merge h.distinct (fun g hg => (h.groups g hg).2) hc hm

/-- Groups that agree about the type of a histogram but not about its help. -/
theorem Table.Fed.parse_render_merge_two_helps :
    let one : Binary64 := ⟨0x3FF0000000000000⟩
    let two : Binary64 := ⟨0x4000000000000000⟩
    let a : GroupingKey := ⟨.ofList [("job", "a"), ("instance", "i")], by decide, by decide⟩
    let b : GroupingKey := ⟨.ofList [("job", "\"b\"\n")], by decide, by decide⟩
    let early : Family :=
      ⟨"h", "early", .histogram, [⟨.empty, .histogram [] .zero one, some 7⟩]⟩
    let late : Family :=
      ⟨"h", "", .histogram, [⟨.empty, .histogram [⟨one, one⟩] .zero two, none⟩]⟩
    let t : Table := ⟨.ofList [(a, ⟨a, .ofList [("h", early)], 5, 0⟩),
      (b, ⟨b, .ofList [("h", late)], 6, 1⟩)], 2⟩
    let served : List Family := [⟨"h", "early", .histogram,
      [⟨a.labels, .histogram [⟨.infinity, one⟩] .zero one, some 7⟩,
        ⟨b.labels, .histogram [⟨one, one⟩, ⟨.infinity, two⟩] .zero two, none⟩]⟩]
    t.Fed ∧ (merge t.snapshot).conflicts = [⟨"h", b, .help "early" ""⟩] ∧
      parse (render (merge t.snapshot).families) = .ok served := by
  intro one two a b early late t served
  have hearly : parse "# HELP h early\n# TYPE h histogram\nh_count 1 7" = .ok [early] := by
    decide +kernel
  have hlate : parse "# TYPE h histogram\nh_bucket\x7ble=\"1\"\x7d 1\nh_count 2" = .ok [late] := by
    decide +kernel
  have hfirst : Table.empty.push a [early] 5
      = .ok (⟨.ofList [(a, ⟨a, .ofList [("h", early)], 5, 0⟩)], 1⟩, false) := by decide +kernel
  have hsecond : Table.push ⟨.ofList [(a, ⟨a, .ofList [("h", early)], 5, 0⟩)], 1⟩ b [late] 6
      = .ok (t, false) := by decide +kernel
  have hfed : t.Fed := (Fed.empty.push hearly hfirst).push hlate hsecond
  have hranked : Merge.ranked t.snapshot = t.snapshot :=
    List.mergeSort_of_pairwise (by decide +kernel)
  have hc : (merge t.snapshot).conflicts = [⟨"h", b, .help "early" ""⟩] := by
    rw [merge, hranked]
    decide +kernel
  have hm : (merge t.snapshot).families.map Family.complete = served := by
    rw [merge, hranked]
    decide +kernel
  refine ⟨hfed, hc, ?_⟩
  rw [hfed.parse_render_merge (by simp [hc]), hm]

end PushGateway
