import Mathlib.Data.List.Nodup
import PushGateway.Proofs.Ranking

/-! What merging looks up: the definition of a family is that of the lowest group that has it, and a
series belongs to the lowest group that produces it. -/

namespace PushGateway.Merge

def named (g : Group) (name : String) : List Sample :=
  ((g.families.get? name).map Family.samples).getD []

/-- The lowest group that has a family of the name, with its family. -/
def Leads (groups : List Group) (name : String) (g : Group) (f : Family) : Prop :=
  g ∈ groups ∧ g.families.get? name = some f ∧
    ∀ h ∈ groups, (h.families.get? name).isSome = true → h = g ∨ ranksBefore g h = true

/-- A lower group has a sample in the family of the name that becomes the same series. -/
def Outranked (groups : List Group) (g : Group) (name : String) (labels : Labels) : Prop :=
  ∃ h ∈ groups, ranksBefore h g = true ∧
    ∃ t ∈ named h name, withKey h.key t.labels = withKey g.key labels

instance (groups : List Group) (g : Group) (name : String) (labels : Labels) :
    Decidable (Outranked groups g name labels) :=
  inferInstanceAs (Decidable (∃ h ∈ groups, ranksBefore h g = true ∧
    ∃ t ∈ named h name, withKey h.key t.labels = withKey g.key labels))

/-- Groups that pushes could have built, one for each key. -/
structure Distinct (groups : List Group) : Prop where
  valid : ∀ g ∈ groups, g.Valid
  keys : (groups.map Group.key).Nodup

lemma Distinct.eq_of_key {groups : List Group} (hd : Distinct groups) {g h : Group}
    (hg : g ∈ groups) (hh : h ∈ groups) (hk : g.key = h.key) : g = h :=
  List.inj_on_of_nodup_map hd.keys hg hh hk

lemma Distinct.ranked {groups : List Group} (hd : Distinct groups) : Distinct (ranked groups) :=
  ⟨fun g hg => hd.valid g ((ranked_perm groups).mem_iff.mp hg),
    ((ranked_perm groups).map Group.key).nodup_iff.mpr hd.keys⟩

section Labels

lemma get?_withKey (key : GroupingKey) (labels : Labels) (n : String) :
    (withKey key labels).get? n = (key.get? n).or (labels.get? n) := by
  have hn : (key.pairs.map Prod.fst).Nodup := SortedMap.nodup_of_sorted key.labels.keys_sorted
  rw [GroupingKey.get?, SortedMap.get?_eq_find? key.labels]
  exact SortedMap.get?_foldl_insert hn labels n

/-- Labels that the key does not have can be told from what the key makes of them. -/
lemma withKey_inj {key : GroupingKey} {l l' : Labels}
    (hl : ∀ n ∈ l.keys, key.containsLabel n = false)
    (hl' : ∀ n ∈ l'.keys, key.containsLabel n = false) (h : withKey key l = withKey key l') :
    l = l' := by
  have hnone {m : Labels} (hm : ∀ n ∈ m.keys, key.containsLabel n = false) {n : String}
      (hn : (key.get? n).isSome = true) : m.get? n = none := by
    rw [SortedMap.get?_eq_none_iff]
    intro hmem
    have hc := hm n hmem
    rw [GroupingKey.containsLabel, SortedMap.contains] at hc
    exact absurd hn (by rw [GroupingKey.get?, hc]; decide)
  apply SortedMap.ext_get?
  intro n
  have hn := congrArg (fun m => m.get? n) h
  simp only [get?_withKey] at hn
  by_cases hk : (key.get? n).isSome = true
  · rw [hnone hl hk, hnone hl' hk]
  · rw [Bool.not_eq_true, Option.isSome_eq_false_iff, Option.isNone_iff_eq_none] at hk
    simpa [hk] using hn

lemma withKey_labels_nodup {g : Group} (hg : g.Valid) {f : Family} (hf : f ∈ g.families.values) :
    (f.samples.map fun s => withKey g.key s.labels).Nodup := by
  have hlabels := List.pairwise_map.mp (hg.valid f hf).distinct
  refine List.pairwise_map.mpr (hlabels.imp_of_mem ?_)
  intro s t hs ht hne h
  exact hne (withKey_inj (hg.apart f hf s hs) (hg.apart f hf t ht) h)

end Labels

section Families

variable {g : Group}

lemma find?_values (hg : g.Valid) (name : String) :
    (g.families.values.find? fun f => f.name == name) = g.families.get? name := by
  cases hf : g.families.values.find? fun f => f.name == name with
  | none =>
    cases hget : g.families.get? name with
    | none => rfl
    | some f =>
      have hmem : f ∈ g.families.values := SortedMap.mem_values_iff.mpr ⟨name, hget⟩
      have hne := List.find?_eq_none.mp hf f hmem
      exact absurd (hg.name_of_get? hget) (by simpa using hne)
  | some f =>
    have hname : f.name = name := by simpa using List.find?_some hf
    rw [← hname, hg.get?_name (List.mem_of_find?_eq_some hf)]

lemma mem_pairs {groups : List Group} {f : Family} :
    (g, f) ∈ pairs groups ↔ g ∈ groups ∧ f ∈ g.families.values := by
  simp [pairs]

lemma mem_pairs_ranked {groups : List Group} {f : Family} :
    (g, f) ∈ pairs (ranked groups) ↔ g ∈ groups ∧ f ∈ g.families.values := by
  rw [mem_pairs, (ranked_perm groups).mem_iff]

lemma mem_named_iff {g : Group} {name : String} {s : Sample} :
    s ∈ named g name ↔ ∃ f, g.families.get? name = some f ∧ s ∈ f.samples := by
  unfold named
  cases g.families.get? name <;> simp

lemma mem_named (hg : g.Valid) {f : Family} (hf : f ∈ g.families.values) {s : Sample} :
    s ∈ named g f.name ↔ s ∈ f.samples := by
  rw [named, hg.get?_name hf]
  rfl

end Families

section Definitions

lemma get?_define (defs : Definitions) (p : Group × Family) (name : String) :
    (define defs p).get? name = (defs.get? name).or
      (if p.2.name = name then some ⟨p.2.metricType, p.2.help⟩ else none) := by
  unfold define SortedMap.contains
  by_cases hn : p.2.name = name
  · subst hn
    cases hd : defs.get? p.2.name <;> simp [hd, SortedMap.get?_insert]
  · split_ifs
    · simp
    · simp [SortedMap.get?_insert, Ne.symm hn]

lemma get?_foldl_define (ps : List (Group × Family)) (defs : Definitions) (name : String) :
    (ps.foldl define defs).get? name = (defs.get? name).or
      ((ps.find? fun p => p.2.name == name).map fun p => ⟨p.2.metricType, p.2.help⟩) := by
  induction ps generalizing defs with
  | nil => simp
  | cons p ps ih =>
    rw [List.foldl_cons, ih, get?_define, Option.or_assoc]
    by_cases hn : p.2.name = name
    · simp [hn]
    · rw [if_neg hn, Option.none_or, List.find?_cons_of_neg (by simpa using hn)]

lemma find?_pairs_ranked {groups : List Group} (hd : Distinct groups) {name : String} {g : Group}
    {f : Family} : ((pairs (ranked groups)).find? fun p => p.2.name == name) = some (g, f) ↔
      Leads groups name g f := by
  have hfind (h : Group) (hh : h ∈ groups) :
      ((h.families.values.map fun e => (h, e)).find? fun p => p.2.name == name)
        = (h.families.get? name).map fun e => (h, e) := by
    rw [List.find?_map, ← find?_values (hd.valid h hh)]
    rfl
  rw [pairs, List.find?_flatMap, findSome?_ranked hd.keys]
  constructor
  · rintro ⟨g', hg, hfound, hlow⟩
    rw [hfind g' hg] at hfound
    obtain ⟨e, he, heq⟩ := Option.map_eq_some_iff.mp hfound
    obtain ⟨rfl, rfl⟩ := Prod.mk.inj heq
    refine ⟨hg, he, fun h hh hs => hlow h hh ?_⟩
    rw [hfind h hh, Option.isSome_map]
    exact hs
  · rintro ⟨hg, hf, hlow⟩
    refine ⟨g, hg, by rw [hfind g hg, hf]; rfl, fun h hh hs => hlow h hh ?_⟩
    rw [hfind h hh, Option.isSome_map] at hs
    exact hs

lemma get?_definitions {groups : List Group} (hd : Distinct groups) {name : String}
    {d : Definition} : (definitions (ranked groups)).get? name = some d ↔
      ∃ g f, Leads groups name g f ∧ d = ⟨f.metricType, f.help⟩ := by
  rw [definitions, get?_foldl_define, SortedMap.get?_empty, Option.none_or]
  constructor
  · intro h
    obtain ⟨⟨g, f⟩, hp, hdef⟩ := Option.map_eq_some_iff.mp h
    exact ⟨g, f, (find?_pairs_ranked hd).mp hp, hdef.symm⟩
  · rintro ⟨g, f, hl, rfl⟩
    rw [(find?_pairs_ranked hd).mpr hl]
    rfl

lemma exists_leads {groups : List Group} (hd : Distinct groups) {name : String} {g : Group}
    (hg : g ∈ groups) (hs : (g.families.get? name).isSome = true) :
    ∃ h e, Leads groups name h e := by
  obtain ⟨f, hf⟩ := Option.isSome_iff_exists.mp hs
  have hp : (g, f) ∈ pairs (ranked groups) :=
    mem_pairs_ranked.mpr ⟨hg, SortedMap.mem_values_iff.mpr ⟨name, hf⟩⟩
  cases hfind : (pairs (ranked groups)).find? fun p => p.2.name == name with
  | none =>
    have hne := List.find?_eq_none.mp hfind (g, f) hp
    exact absurd ((hd.valid g hg).name_of_get? hf) (by simpa using hne)
  | some p => exact ⟨p.1, p.2, (find?_pairs_ranked hd).mp hfind⟩

end Definitions

section Owners

def heldBy (g : Group) : List (Series × GroupingKey) :=
  g.families.values.flatMap fun f => f.samples.map fun s => (seriesOf g f s, g.key)

lemma holdings_eq (groups : List Group) : holdings groups = groups.flatMap heldBy := by
  rw [holdings, pairs, List.flatMap_assoc]
  exact List.flatMap_congr fun g _ => List.flatMap_map ..

lemma mem_heldBy {g : Group} (hg : g.Valid) {s : Series} {key : GroupingKey} :
    (s, key) ∈ heldBy g ↔
      key = g.key ∧ ∃ t ∈ named g s.family, withKey g.key t.labels = s.labels := by
  simp only [heldBy, List.mem_flatMap, List.mem_map]
  constructor
  · rintro ⟨f, hf, t, ht, heq⟩
    obtain ⟨rfl, rfl⟩ := Prod.mk.inj heq
    exact ⟨rfl, t, (mem_named hg hf).mpr ht, rfl⟩
  · rintro ⟨rfl, t, ht, hl⟩
    obtain ⟨f, hf, ht⟩ := mem_named_iff.mp ht
    refine ⟨f, SortedMap.mem_values_iff.mpr ⟨_, hf⟩, t, ht, ?_⟩
    rw [seriesOf, hg.name_of_get? hf, hl]

lemma owner?_holdings {groups : List Group} (hd : Distinct groups) {s : Series}
    {key : GroupingKey} : owner? (holdings (ranked groups)) s = some key ↔
      ∃ g ∈ groups, (s, key) ∈ heldBy g ∧
        ∀ h ∈ groups, (s, h.key) ∈ heldBy h → h = g ∨ ranksBefore g h = true := by
  have hfind (h : Group) (hh : h ∈ groups) :
      (((heldBy h).find? fun c => c.1 == s).isSome = true) ↔ (s, h.key) ∈ heldBy h := by
    rw [List.find?_isSome]
    constructor
    · rintro ⟨⟨s', key⟩, hmem, heq⟩
      obtain rfl : s' = s := by simpa using heq
      obtain ⟨rfl, -⟩ := (mem_heldBy (hd.valid h hh)).mp hmem
      exact hmem
    · intro hmem
      exact ⟨_, hmem, by simp⟩
  rw [owner?, holdings_eq, List.find?_flatMap, Option.map_eq_some_iff]
  constructor
  · rintro ⟨⟨s', key'⟩, hfound, rfl⟩
    obtain ⟨g, hg, hc, hlow⟩ := (findSome?_ranked hd.keys).mp hfound
    obtain rfl : s' = s := by simpa using List.find?_some hc
    refine ⟨g, hg, List.mem_of_find?_eq_some hc, fun h hh hmem => hlow h hh ((hfind h hh).mpr hmem)⟩
  · rintro ⟨g, hg, hmem, hlow⟩
    obtain ⟨rfl, -⟩ := (mem_heldBy (hd.valid g hg)).mp hmem
    obtain ⟨⟨s', key⟩, hc⟩ := Option.isSome_iff_exists.mp ((hfind g hg).mpr hmem)
    obtain rfl : s' = s := by simpa using List.find?_some hc
    obtain ⟨rfl, -⟩ := (mem_heldBy (hd.valid g hg)).mp (List.mem_of_find?_eq_some hc)
    refine ⟨(s', g.key), (findSome?_ranked hd.keys).mpr ⟨g, hg, hc, fun h hh hs => ?_⟩, rfl⟩
    exact hlow h hh ((hfind h hh).mp hs)

lemma lost_iff_outranked {groups : List Group} (hd : Distinct groups) {g : Group} (hg : g ∈ groups)
    {f : Family} (hf : f ∈ g.families.values) {s : Sample} (hs : s ∈ f.samples) :
    lost (holdings (ranked groups)) g (seriesOf g f s) = true ↔
      Outranked groups g f.name s.labels := by
  have hown : (seriesOf g f s, g.key) ∈ heldBy g :=
    (mem_heldBy (hd.valid g hg)).mpr ⟨rfl, s, (mem_named (hd.valid g hg) hf).mpr hs, rfl⟩
  unfold lost
  cases ho : owner? (holdings (ranked groups)) (seriesOf g f s) with
  | none =>
    rw [owner?, Option.map_eq_none_iff, List.find?_eq_none] at ho
    have hmem : (seriesOf g f s, g.key) ∈ holdings (ranked groups) := by
      rw [holdings_eq]
      exact List.mem_flatMap.mpr ⟨g, (ranked_perm groups).mem_iff.mpr hg, hown⟩
    exact absurd (beq_self_eq_true _) (ho _ hmem)
  | some key =>
    -- `g` has the series as well, so its owner is `g` or ranks before `g`
    obtain ⟨h, hh, hmem, hlow⟩ := (owner?_holdings hd).mp ho
    obtain ⟨rfl, t, ht, hl⟩ := (mem_heldBy (hd.valid h hh)).mp hmem
    simp only [bne_iff_ne, ne_eq]
    constructor
    · intro hne
      rcases hlow g hg hown with rfl | hhg
      · exact absurd rfl hne
      · exact ⟨h, hh, hhg, t, ht, hl⟩
    · rintro ⟨i, hi, hig, u, hu, hul⟩ hk
      obtain rfl := hd.eq_of_key hh hg hk
      rcases hlow i hi ((mem_heldBy (hd.valid i hi)).mpr ⟨rfl, u, hu, hul⟩) with rfl | hgi
      · simp [ranksBefore_irrefl] at hig
      · simp [ranksBefore_asymm hgi] at hig

end Owners

end PushGateway.Merge
