import PushGateway.Proofs.SeriesOwners

/-! Merging is the union in which the first push wins: it decides the type and the help of a family,
and of the samples of one series only its own stays. Each loss is one conflict. -/

namespace PushGateway.Merge

/-- The samples that are kept, in the order of the groups and of their payloads. -/
def survivors (groups : List Group) (name : String) : List Sample :=
  groups.flatMap fun g => ((named g name).filter fun s => ¬Outranked groups g name s.labels).map
    fun s => { s with labels := withKey g.key s.labels }

/-- What there is to report about a group: its type or its help is not that of the first group, or
one of its samples is outranked. -/
def Reported (groups : List Group) (c : Conflict) : Prop :=
  ∃ g ∈ groups, g.key = c.group ∧ ∃ f, g.families.get? c.family = some f ∧
    match c.kind with
    | .type first found => first ≠ found ∧ found = f.metricType ∧
      ∃ h e, Leads groups c.family h e ∧ first = e.metricType
    | .help first found => first ≠ found ∧ found = f.help ∧
      ∃ h e, Leads groups c.family h e ∧ first = e.help
    | .duplicateSeries labels =>
      ∃ s ∈ f.samples, withKey g.key s.labels = labels ∧ Outranked groups g c.family s.labels

section Samples

lemma flatMap_named {A : Type} {fs : List Family} (h : (fs.map Family.name).Nodup) (name : String)
    (k : Family → List A) : fs.flatMap (fun f => if f.name = name then k f else [])
      = ((fs.find? fun f => f.name == name).map k).getD [] := by
  induction fs with
  | nil => rfl
  | cons f fs ih =>
    obtain ⟨hf, hfs⟩ := List.nodup_cons.mp h
    rw [List.flatMap_cons, ih hfs]
    by_cases hn : f.name = name
    · have hnone : fs.find? (fun e => e.name == name) = none := by
        refine List.find?_eq_none.mpr fun e he heq => hf ?_
        exact List.mem_map.mpr ⟨e, he, by rw [hn]; simpa using heq⟩
      simp [hn, hnone]
    · rw [if_neg hn, List.nil_append, List.find?_cons_of_neg (by simpa using hn)]

lemma samplesOf_eq_survivors {groups : List Group} (hd : Distinct groups) (name : String) :
    samplesOf (holdings (ranked groups)) groups name = survivors groups name := by
  rw [samplesOf, pairs, List.flatMap_assoc, survivors]
  refine List.flatMap_congr fun g hg => ?_
  have hv := hd.valid g hg
  rw [List.flatMap_map]
  dsimp only
  rw [flatMap_named hv.names_nodup, find?_values hv, named]
  cases hf : g.families.get? name with
  | none => rfl
  | some f =>
    have hmem : f ∈ g.families.values := SortedMap.mem_values_iff.mpr ⟨name, hf⟩
    have hname := hv.name_of_get? hf
    have hfilter : f.samples.filter (fun s => !lost (holdings (ranked groups)) g (seriesOf g f s))
        = f.samples.filter fun s => ¬Outranked groups g name s.labels := by
      refine List.filter_congr fun s hs => ?_
      have hlost := lost_iff_outranked hd hg hmem hs
      rw [hname] at hlost
      simp [← hlost]
    change kept (holdings (ranked groups)) g f = _
    rw [kept, hfilter]
    rfl

lemma survivors_labels_nodup {groups : List Group} (hd : Distinct groups) (name : String) :
    ((survivors groups name).map Sample.labels).Nodup := by
  rw [survivors, List.map_flatMap, List.nodup_flatMap]
  constructor
  · intro g hg
    rw [List.map_map]
    cases hf : g.families.get? name with
    | none => simp [named, hf]
    | some f =>
      have hmem : f ∈ g.families.values := SortedMap.mem_values_iff.mpr ⟨name, hf⟩
      have hn : named g name = f.samples := by simp [named, hf]
      rw [hn]
      exact (withKey_labels_nodup (hd.valid g hg) hmem).sublist (List.filter_sublist.map _)
  · refine (List.pairwise_map.mp hd.keys).imp_of_mem ?_
    intro g h hg hh hne labels hl hl'
    simp only [List.map_map, List.mem_map, List.mem_filter, Function.comp_apply,
      decide_eq_true_eq] at hl hl'
    obtain ⟨s, ⟨hs, hkept⟩, rfl⟩ := hl
    obtain ⟨t, ⟨ht, hkept'⟩, heq⟩ := hl'
    -- of two groups with the same series the lower one outranks the other
    rcases ranksBefore_total hne with hgh | hhg
    · exact hkept' ⟨g, hg, hgh, s, hs, heq.symm⟩
    · exact hkept ⟨h, hh, hhg, t, ht, heq⟩

end Samples

section Conflicts

lemma pairs_nodup {groups : List Group} (hd : Distinct groups) :
    ((pairs groups).map fun p => (p.1.key, p.2.name)).Nodup := by
  rw [pairs, List.map_flatMap, List.nodup_flatMap]
  constructor
  · intro g hg
    rw [List.map_map]
    have hn := (hd.valid g hg).names_nodup.map_on (f := fun n => (g.key, n))
      fun _ _ _ _ h => (Prod.mk.inj h).2
    rwa [List.map_map] at hn
  · refine (List.pairwise_map.mp hd.keys).imp ?_
    intro g h hne p hp hp'
    simp only [List.map_map, List.mem_map, Function.comp_apply] at hp hp'
    obtain ⟨e, _, rfl⟩ := hp
    obtain ⟨e', _, heq⟩ := hp'
    exact hne (Prod.mk.inj heq).1.symm

/-- Conflicts that name their group and family differ for different groups or families. -/
lemma conflicts_nodup {groups : List Group} (hd : Distinct groups)
    {body : Group × Family → List Conflict} (hb : ∀ p ∈ pairs groups, (body p).Nodup)
    (hname : ∀ p, ∀ c ∈ body p, (c.group, c.family) = (p.1.key, p.2.name)) :
    ((pairs groups).flatMap body).Nodup := by
  refine List.nodup_flatMap.mpr ⟨hb, (List.pairwise_map.mp (pairs_nodup hd)).imp ?_⟩
  intro p q hne c hp hq
  exact hne ((hname p c hp).symm.trans (hname q c hq))

lemma mem_disagreements {d : Definition} {g : Group} {f : Family} {c : Conflict} :
    c ∈ disagreements d g f ↔ c.family = f.name ∧ c.group = g.key ∧
      (d.type ≠ f.metricType ∧ c.kind = .type d.type f.metricType ∨
        d.help ≠ f.help ∧ c.kind = .help d.help f.help) := by
  obtain ⟨family, group, kind⟩ := c
  by_cases ht : d.type = f.metricType <;> by_cases hh : d.help = f.help <;>
    simp [disagreements, ht, hh]
  all_goals grind

lemma disagreements_nodup (d : Definition) (g : Group) (f : Family) :
    (disagreements d g f).Nodup := by
  by_cases ht : d.type = f.metricType <;> by_cases hh : d.help = f.help <;>
    simp [disagreements, ht, hh]

lemma mem_definitionConflicts {groups : List Group} (hd : Distinct groups) {c : Conflict} :
    c ∈ definitionConflicts (definitions (ranked groups)) (ranked groups) ↔
      ∃ g ∈ groups, ∃ f ∈ g.families.values, ∃ h e, Leads groups f.name h e ∧
        c ∈ disagreements ⟨e.metricType, e.help⟩ g f := by
  simp only [definitionConflicts, List.mem_flatMap]
  constructor
  · rintro ⟨⟨g, f⟩, hp, hc⟩
    obtain ⟨hg, hf⟩ := mem_pairs_ranked.mp hp
    dsimp only at hc
    cases hdef : (definitions (ranked groups)).get? f.name with
    | none => simp [hdef] at hc
    | some d =>
      obtain ⟨h, e, hl, rfl⟩ := (get?_definitions hd).mp hdef
      exact ⟨g, hg, f, hf, h, e, hl, by simpa [hdef] using hc⟩
  · rintro ⟨g, hg, f, hf, h, e, hl, hc⟩
    refine ⟨(g, f), mem_pairs_ranked.mpr ⟨hg, hf⟩, ?_⟩
    have hdef := (get?_definitions hd).mpr ⟨h, e, hl, rfl⟩
    dsimp only
    rw [hdef]
    exact hc

lemma mem_seriesConflicts {groups : List Group} (hd : Distinct groups) {c : Conflict} :
    c ∈ seriesConflicts (holdings (ranked groups)) groups ↔
      ∃ g ∈ groups, ∃ f ∈ g.families.values, ∃ s ∈ f.samples,
        Outranked groups g f.name s.labels ∧
          c = ⟨f.name, g.key, .duplicateSeries (withKey g.key s.labels)⟩ := by
  simp only [seriesConflicts, List.mem_flatMap, List.mem_map, List.mem_filter]
  constructor
  · rintro ⟨⟨g, f⟩, hp, -, ⟨⟨s, hs, rfl⟩, hlost⟩, rfl⟩
    obtain ⟨hg, hf⟩ := mem_pairs.mp hp
    exact ⟨g, hg, f, hf, s, hs, (lost_iff_outranked hd hg hf hs).mp hlost, rfl⟩
  · rintro ⟨g, hg, f, hf, s, hs, ho, rfl⟩
    exact ⟨(g, f), mem_pairs.mpr ⟨hg, hf⟩, seriesOf g f s,
      ⟨⟨s, hs, rfl⟩, (lost_iff_outranked hd hg hf hs).mpr ho⟩, rfl⟩

lemma definitionConflicts_nodup {groups : List Group} (hd : Distinct groups) (defs : Definitions) :
    (definitionConflicts defs (ranked groups)).Nodup := by
  refine conflicts_nodup hd.ranked ?_ ?_
  · rintro ⟨g, f⟩ -
    dsimp only
    cases defs.get? f.name with
    | none => exact List.nodup_nil
    | some d => exact disagreements_nodup d g f
  · rintro ⟨g, f⟩ c hc
    dsimp only at hc
    cases hdef : defs.get? f.name with
    | none => simp [hdef] at hc
    | some d =>
      rw [hdef] at hc
      obtain ⟨hfamily, hgroup, -⟩ := mem_disagreements.mp hc
      rw [hfamily, hgroup]

lemma seriesConflicts_nodup {groups : List Group} (hd : Distinct groups) :
    (seriesConflicts (holdings (ranked groups)) groups).Nodup := by
  refine conflicts_nodup hd ?_ ?_
  · rintro ⟨g, f⟩ hp
    obtain ⟨hg, hf⟩ := mem_pairs.mp hp
    have hlabels := withKey_labels_nodup (hd.valid g hg) hf
    have hseries : (f.samples.map fun s => (seriesOf g f s).labels).Nodup := hlabels
    dsimp only
    refine ((List.Nodup.of_map Series.labels ?_).filter _).map_on ?_
    · rw [List.map_map]
      exact hseries
    · intro s hs t ht heq
      obtain ⟨s, -, rfl⟩ := List.mem_map.mp (List.mem_filter.mp hs).1
      obtain ⟨t, -, rfl⟩ := List.mem_map.mp (List.mem_filter.mp ht).1
      have hl := (Conflict.mk.inj heq).2.2
      rw [seriesOf, seriesOf]
      exact congrArg (Series.mk f.name) (ConflictKind.duplicateSeries.inj hl)
  · rintro ⟨g, f⟩ c hc
    obtain ⟨s, -, rfl⟩ := List.mem_map.mp hc
    rfl

lemma reported_of_mem_conflicts {groups : List Group} (hd : Distinct groups) {c : Conflict}
    (hc : c ∈ (merge groups).conflicts) : Reported groups c := by
  obtain ⟨family, group, kind⟩ := c
  rcases List.mem_append.mp hc with hc | hc
  · obtain ⟨g, hg, f, hf, h, e, hl, hc⟩ := (mem_definitionConflicts hd).mp hc
    obtain ⟨rfl, rfl, hkind⟩ := mem_disagreements.mp hc
    refine ⟨g, hg, rfl, f, (hd.valid g hg).get?_name hf, ?_⟩
    rcases hkind with ⟨hne, rfl⟩ | ⟨hne, rfl⟩
    · exact ⟨hne, rfl, h, e, hl, rfl⟩
    · exact ⟨hne, rfl, h, e, hl, rfl⟩
  · obtain ⟨g, hg, f, hf, s, hs, ho, heq⟩ := (mem_seriesConflicts hd).mp hc
    obtain ⟨rfl, rfl, rfl⟩ := Conflict.mk.inj heq
    exact ⟨g, hg, rfl, f, (hd.valid g hg).get?_name hf, s, hs, rfl, ho⟩

lemma mem_conflicts_of_reported {groups : List Group} (hd : Distinct groups) {c : Conflict}
    (hr : Reported groups c) : c ∈ (merge groups).conflicts := by
  obtain ⟨family, group, kind⟩ := c
  obtain ⟨g, hg, rfl, f, hget, hkind⟩ := hr
  obtain rfl : f.name = family := (hd.valid g hg).name_of_get? hget
  have hf : f ∈ g.families.values := SortedMap.mem_values_iff.mpr ⟨_, hget⟩
  apply List.mem_append.mpr
  cases kind with
  | type first found =>
    obtain ⟨hne, rfl, h, e, hl, rfl⟩ := hkind
    refine .inl ((mem_definitionConflicts hd).mpr ⟨g, hg, f, hf, h, e, hl, ?_⟩)
    exact mem_disagreements.mpr ⟨rfl, rfl, .inl ⟨hne, rfl⟩⟩
  | help first found =>
    obtain ⟨hne, rfl, h, e, hl, rfl⟩ := hkind
    refine .inl ((mem_definitionConflicts hd).mpr ⟨g, hg, f, hf, h, e, hl, ?_⟩)
    exact mem_disagreements.mpr ⟨rfl, rfl, .inr ⟨hne, rfl⟩⟩
  | duplicateSeries labels =>
    obtain ⟨s, hs, rfl, ho⟩ := hkind
    exact .inr ((mem_seriesConflicts hd).mpr ⟨g, hg, f, hf, s, hs, ho, rfl⟩)

lemma conflicts_merge_nodup {groups : List Group} (hd : Distinct groups) :
    (merge groups).conflicts.Nodup := by
  refine List.nodup_append.mpr ⟨definitionConflicts_nodup hd _, seriesConflicts_nodup hd, ?_⟩
  intro c hc c' hc' heq
  subst heq
  obtain ⟨g, -, f, -, h, e, -, hc⟩ := (mem_definitionConflicts hd).mp hc
  obtain ⟨g', -, f', -, s, -, -, rfl⟩ := (mem_seriesConflicts hd).mp hc'
  obtain ⟨-, -, hkind⟩ := mem_disagreements.mp hc
  rcases hkind with ⟨-, hk⟩ | ⟨-, hk⟩
  · cases hk
  · cases hk

end Conflicts

lemma names_merge (groups : List Group) :
    (merge groups).families.map Family.name = (definitions (ranked groups)).keys := by
  simp only [merge, List.map_map, SortedMap.keys]
  rfl

lemma leads_of_mem_merge {groups : List Group} (hd : Distinct groups) {m : Family}
    (hm : m ∈ (merge groups).families) :
    ∃ g f, Leads groups m.name g f ∧ m.metricType = f.metricType ∧ m.help = f.help := by
  obtain ⟨⟨name, d⟩, hp, rfl⟩ := List.mem_map.mp hm
  obtain ⟨g, f, hl, rfl⟩ := (get?_definitions hd).mp (SortedMap.get?_eq_some_iff.mpr hp)
  exact ⟨g, f, hl, rfl, rfl⟩

lemma samples_of_mem_merge {groups : List Group} (hd : Distinct groups) {m : Family}
    (hm : m ∈ (merge groups).families) : m.samples = survivors groups m.name := by
  obtain ⟨⟨name, d⟩, -, rfl⟩ := List.mem_map.mp hm
  exact samplesOf_eq_survivors hd name

lemma mem_names_merge {groups : List Group} (hd : Distinct groups) (name : String) :
    name ∈ (merge groups).families.map Family.name ↔
      ∃ g ∈ groups, (g.families.get? name).isSome = true := by
  rw [names_merge, ← SortedMap.contains_eq_true_iff, SortedMap.contains, Option.isSome_iff_exists]
  constructor
  · rintro ⟨d, hdef⟩
    obtain ⟨g, f, ⟨hg, hf, -⟩, -⟩ := (get?_definitions hd).mp hdef
    exact ⟨g, hg, Option.isSome_iff_exists.mpr ⟨f, hf⟩⟩
  · rintro ⟨g, hg, hs⟩
    obtain ⟨h, e, hl⟩ := exists_leads hd hg hs
    exact ⟨_, (get?_definitions hd).mpr ⟨h, e, hl, rfl⟩⟩

theorem merge_first_push_wins (groups : List Group)
    (hb : ∀ g ∈ groups, ∃ families, Group.build g.key families g.lastPush g.pushSeq = .ok g)
    (hk : (groups.map Group.key).Nodup) :
    let names := (merge groups).families.map Family.name
    (names.Pairwise fun m n => before m n = true) ∧
    (∀ name, name ∈ names ↔ ∃ g ∈ groups, (g.families.get? name).isSome = true) ∧
    (∀ m ∈ (merge groups).families,
      (∃ g f, Leads groups m.name g f ∧ m.metricType = f.metricType ∧ m.help = f.help) ∧
      m.samples = survivors groups m.name ∧ (m.samples.map Sample.labels).Nodup) ∧
    (∀ g ∈ groups, ∀ f ∈ g.families.values,
      (f.samples.map fun s => withKey g.key s.labels).Nodup) ∧
    (∀ (key : GroupingKey) (labels : Labels) (n : String),
      (withKey key labels).get? n = (key.get? n).or (labels.get? n)) ∧
    (merge groups).conflicts.Nodup ∧
    ∀ c, c ∈ (merge groups).conflicts ↔ Reported groups c := by
  have hd : Distinct groups := ⟨fun g hg => Group.valid_of_build (hb g hg).choose_spec, hk⟩
  refine ⟨?_, mem_names_merge hd, ?_, ?_, get?_withKey, conflicts_merge_nodup hd, ?_⟩
  · rw [names_merge]
    exact SortedMap.keys_sorted _
  · intro m hm
    have hs := samples_of_mem_merge hd hm
    refine ⟨leads_of_mem_merge hd hm, hs, ?_⟩
    rw [hs]
    exact survivors_labels_nodup hd m.name
  · exact fun g hg f hf => withKey_labels_nodup (hd.valid g hg) hf
  · exact fun c => ⟨reported_of_mem_conflicts hd, mem_conflicts_of_reported hd⟩

/-- Keys of different shapes whose samples become one series; the group listed first came last. -/
theorem merge_first_push_wins_crossed_keys :
    let a : GroupingKey := ⟨.ofList [("job", "x")], by decide, by decide⟩
    let b : GroupingKey := ⟨.ofList [("job", "x"), ("instance", "i")], by decide, by decide⟩
    let e : Family := ⟨"up", "", .gauge, [⟨.ofList [("instance", "i")], .gauge .zero, none⟩,
      ⟨.empty, .gauge .zero, some 7⟩]⟩
    let f : Family := ⟨"up", "", .counter, [⟨.empty, .counter .zero, none⟩]⟩
    let groups : List Group := [⟨a, .ofList [("up", e)], 5, 1⟩, ⟨b, .ofList [("up", f)], 4, 0⟩]
    "up" ∈ (merge groups).families.map Family.name ∧
      (∀ m ∈ (merge groups).families, m.name = "up" → m.samples =
        [⟨.ofList [("job", "x")], .gauge .zero, some 7⟩, ⟨b.labels, .counter .zero, none⟩]) ∧
      (∀ c, c ∈ (merge groups).conflicts ↔ Reported groups c) := by
  intro a b e f groups
  have he : Group.build a [e] 5 1 = .ok ⟨a, .ofList [("up", e)], 5, 1⟩ := by decide +kernel
  have hf : Group.build b [f] 4 0 = .ok ⟨b, .ofList [("up", f)], 4, 0⟩ := by decide +kernel
  have hb : ∀ g ∈ groups, ∃ families, Group.build g.key families g.lastPush g.pushSeq = .ok g := by
    intro g hg
    rcases List.mem_pair.mp hg with rfl | rfl
    · exact ⟨[e], he⟩
    · exact ⟨[f], hf⟩
  obtain ⟨-, hnames, hfamilies, -, -, -, hc⟩ := merge_first_push_wins groups hb (by decide)
  refine ⟨(hnames "up").mpr ⟨_, List.mem_cons_self, by decide⟩, fun m hm hn => ?_, hc⟩
  rw [(hfamilies m hm).2.1, hn]
  decide +kernel

end PushGateway.Merge
