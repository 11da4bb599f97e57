import PushGateway.Proofs.FirstPushWins

/-! Groups that agree. Where merging reports nothing, no group has another definition of a family
than another group and no two produce one series, and so the order of the pushes decides nothing. -/

namespace PushGateway

/-- The group without the time and the place of its push. -/
def Group.undated (g : Group) : Group := { g with lastPush := 0, pushSeq := 0 }

namespace Merge

structure Agree (groups : List Group) : Prop where
  definition : ∀ g ∈ groups, ∀ h ∈ groups, ∀ name f e, g.families.get? name = some f →
    h.families.get? name = some e → f.metricType = e.metricType ∧ f.help = e.help
  series : ∀ g ∈ groups, ∀ h ∈ groups, g.key ≠ h.key → ∀ name, ∀ s ∈ named g name,
    ∀ t ∈ named h name, withKey g.key s.labels ≠ withKey h.key t.labels

variable {groups : List Group}

section Conflicts

lemma definition_of_silent (hd : Distinct groups) (hc : (merge groups).conflicts = [])
    {name : String}
    {g h : Group} {f e : Family} (hg : g ∈ groups) (hf : g.families.get? name = some f)
    (hl : Leads groups name h e) : f.metricType = e.metricType ∧ f.help = e.help := by
  have hnone {c : Conflict} (hr : Reported groups c) : False := by
    have hmem := mem_conflicts_of_reported hd hr
    rw [hc] at hmem
    cases hmem
  constructor
  · by_contra hne
    exact hnone (c := ⟨name, g.key, .type e.metricType f.metricType⟩)
      ⟨g, hg, rfl, f, hf, Ne.symm hne, rfl, h, e, hl, rfl⟩
  · by_contra hne
    exact hnone (c := ⟨name, g.key, .help e.help f.help⟩)
      ⟨g, hg, rfl, f, hf, Ne.symm hne, rfl, h, e, hl, rfl⟩

lemma not_outranked_of_silent (hd : Distinct groups) (hc : (merge groups).conflicts = [])
    {name : String} {g : Group} {s : Sample} (hg : g ∈ groups) (hs : s ∈ named g name) :
    ¬Outranked groups g name s.labels := by
  intro ho
  obtain ⟨f, hf, hs⟩ := mem_named_iff.mp hs
  have hmem := mem_conflicts_of_reported hd
    (c := ⟨name, g.key, .duplicateSeries (withKey g.key s.labels)⟩)
    ⟨g, hg, rfl, f, hf, s, hs, rfl, ho⟩
  rw [hc] at hmem
  cases hmem

lemma agree_of_silent (hd : Distinct groups) (hc : (merge groups).conflicts = []) :
    Agree groups where
  definition g hg h hh name f e hf he := by
    obtain ⟨i, d, hl⟩ := exists_leads hd hg (Option.isSome_iff_exists.mpr ⟨f, hf⟩)
    obtain ⟨hft, hfh⟩ := definition_of_silent hd hc hg hf hl
    obtain ⟨het, heh⟩ := definition_of_silent hd hc hh he hl
    exact ⟨hft.trans het.symm, hfh.trans heh.symm⟩
  series g hg h hh hne name s hs t ht heq := by
    rcases ranksBefore_total hne with hgh | hhg
    · exact not_outranked_of_silent hd hc hh ht ⟨g, hg, hgh, s, hs, heq⟩
    · exact not_outranked_of_silent hd hc hg hs ⟨h, hh, hhg, t, ht, heq.symm⟩

lemma Agree.not_outranked (ha : Agree groups) (hd : Distinct groups) {name : String} {g : Group}
    {s : Sample} (hg : g ∈ groups) (hs : s ∈ named g name) :
    ¬Outranked groups g name s.labels := by
  rintro ⟨h, hh, hhg, t, ht, heq⟩
  refine ha.series h hh g hg (fun hk => ?_) name t ht s hs heq
  obtain rfl := hd.eq_of_key hh hg hk
  simp [ranksBefore_irrefl] at hhg

theorem conflicts_eq_nil_iff (hd : Distinct groups) :
    (merge groups).conflicts = [] ↔ Agree groups := by
  refine ⟨agree_of_silent hd, fun ha => List.eq_nil_iff_forall_not_mem.mpr ?_⟩
  rintro ⟨name, key, kind⟩ hc
  obtain ⟨g, hg, -, f, hf, hkind⟩ := reported_of_mem_conflicts hd hc
  cases kind with
  | type first found =>
    obtain ⟨hne, rfl, h, e, hl, rfl⟩ := hkind
    exact hne (ha.definition h hl.1 g hg name e f hl.2.1 hf).1
  | help first found =>
    obtain ⟨hne, rfl, h, e, hl, rfl⟩ := hkind
    exact hne (ha.definition h hl.1 g hg name e f hl.2.1 hf).2
  | duplicateSeries labels =>
    obtain ⟨s, hs, -, ho⟩ := hkind
    exact ha.not_outranked hd hg (mem_named_iff.mpr ⟨f, hf, hs⟩) ho

end Conflicts

section Undated

lemma Distinct.undated (hd : Distinct groups) : Distinct (groups.map Group.undated) := by
  refine ⟨List.forall_mem_map.mpr fun g hg => ?_, ?_⟩
  · obtain ⟨hnamed, hvalid, hapart⟩ := hd.valid g hg
    exact ⟨hnamed, hvalid, hapart⟩
  · rw [List.map_map]
    exact hd.keys

lemma agree_undated : Agree (groups.map Group.undated) ↔ Agree groups := by
  constructor
  · rintro ⟨hdef, hseries⟩
    simp only [List.forall_mem_map] at hdef hseries
    exact ⟨hdef, hseries⟩
  · rintro ⟨hdef, hseries⟩
    refine ⟨?_, ?_⟩
    · simp only [List.forall_mem_map]
      exact hdef
    · simp only [List.forall_mem_map]
      exact hseries

/-- All samples of the groups in the family of the name. -/
def pooled (groups : List Group) (name : String) : List Sample :=
  groups.flatMap fun g => (named g name).map fun s => { s with labels := withKey g.key s.labels }

lemma Agree.survivors_eq (ha : Agree groups) (hd : Distinct groups) (name : String) :
    survivors groups name = pooled groups name := by
  refine List.flatMap_congr fun g hg => ?_
  rw [List.filter_eq_self.mpr]
  intro s hs
  exact decide_eq_true (ha.not_outranked hd hg hs)

lemma Agree.get?_definitions (ha : Agree groups) (hd : Distinct groups) {name : String}
    {d : Definition} : (definitions (ranked groups)).get? name = some d ↔
      ∃ g ∈ groups, ∃ f, g.families.get? name = some f ∧ d = ⟨f.metricType, f.help⟩ := by
  rw [Merge.get?_definitions hd]
  constructor
  · rintro ⟨g, f, ⟨hg, hf, -⟩, rfl⟩
    exact ⟨g, hg, f, hf, rfl⟩
  · rintro ⟨g, hg, f, hf, rfl⟩
    obtain ⟨h, e, hl⟩ := exists_leads hd hg (Option.isSome_iff_exists.mpr ⟨f, hf⟩)
    obtain ⟨ht, hh⟩ := ha.definition g hg h hl.1 name f e hf hl.2.1
    exact ⟨h, e, hl, by rw [ht, hh]⟩

theorem Agree.families_undated (ha : Agree groups) (hd : Distinct groups) :
    (merge (groups.map Group.undated)).families = (merge groups).families := by
  have ha' : Agree (groups.map Group.undated) := agree_undated.mpr ha
  have hdefs : definitions (ranked (groups.map Group.undated)) = definitions (ranked groups) := by
    apply SortedMap.ext_get?
    intro name
    ext d
    rw [ha'.get?_definitions hd.undated, ha.get?_definitions hd]
    simp only [List.mem_map, exists_exists_and_eq_and]
    rfl
  have hsamples (name : String) :
      samplesOf (holdings (ranked (groups.map Group.undated))) (groups.map Group.undated) name
        = samplesOf (holdings (ranked groups)) groups name := by
    rw [samplesOf_eq_survivors hd.undated, samplesOf_eq_survivors hd, ha'.survivors_eq hd.undated,
      ha.survivors_eq hd, pooled, List.flatMap_map]
    rfl
  simp only [merge, hdefs, hsamples]

end Undated

end Merge

end PushGateway
