import PushGateway.Group
import PushGateway.Proofs.SortedMapEntries

/-! The checks of a push, as conditions: a group is built exactly from families that are valid,
apart from the key and of distinct names, and it holds each of them under its name. -/

namespace PushGateway

lemma bind_eq_ok_iff {E A B : Type} {x : Except E A} {f : A → Except E B} {b : B} :
    x >>= f = .ok b ↔ ∃ a, x = .ok a ∧ f a = .ok b := by
  cases x with
  | error e => simp [bind, Except.bind]
  | ok a => simp [bind, Except.bind]

lemma mapError_eq_ok_iff {E E' A : Type} {x : Except E A} {f : E → E'} {a : A} :
    x.mapError f = .ok a ↔ x = .ok a := by
  cases x with
  | error e =>
    constructor
    · intro h
      cases h
    · intro h
      cases h
  | ok b =>
    constructor
    · exact fun h => congrArg Except.ok (Except.ok.inj h)
    · exact fun h => congrArg Except.ok (Except.ok.inj h)

lemma map_eq_ok_iff {E A B : Type} {x : Except E A} {f : A → B} {b : B} :
    x.map f = .ok b ↔ ∃ a, x = .ok a ∧ f a = b := by
  cases x <;> simp [Except.map]

/-- Each result beside what it is the result of. -/
lemma exists_pairs_of_mapM {E A B : Type} {f : A → Except E B} {l : List A} {r : List B}
    (h : l.mapM f = .ok r) : ∃ ps : List (A × B), ps.map Prod.fst = l ∧ ps.map Prod.snd = r ∧
      ∀ p ∈ ps, f p.1 = .ok p.2 := by
  induction l generalizing r with
  | nil =>
    obtain rfl : [] = r := Except.ok.inj h
    exact ⟨[], rfl, rfl, by simp⟩
  | cons a l ih =>
    rw [List.mapM_cons, bind_eq_ok_iff] at h
    obtain ⟨b, hb, h⟩ := h
    obtain ⟨bs, hbs, h⟩ := bind_eq_ok_iff.mp h
    obtain rfl : b :: bs = r := Except.ok.inj h
    obtain ⟨ps, rfl, rfl, hps⟩ := ih hbs
    exact ⟨(a, b) :: ps, rfl, rfl, List.forall_mem_cons.mpr ⟨hb, hps⟩⟩

lemma mem_of_mapM_eq_ok {E A B : Type} {f : A → Except E B} {l : List A} {r : List B}
    (h : l.mapM f = .ok r) : ∀ b ∈ r, ∃ a ∈ l, f a = .ok b := by
  obtain ⟨ps, rfl, rfl, hps⟩ := exists_pairs_of_mapM h
  intro b hb
  obtain ⟨p, hp, rfl⟩ := List.mem_map.mp hb
  exact ⟨p.1, List.mem_map_of_mem hp, hps p hp⟩

lemma check_bind_eq_ok_iff {E B : Type} {x : Except E Unit} {f : Unit → Except E B} {b : B} :
    x >>= f = .ok b ↔ x = .ok () ∧ f () = .ok b := by
  rw [bind_eq_ok_iff]
  constructor
  · rintro ⟨⟨⟩, hx, hf⟩
    exact ⟨hx, hf⟩
  · rintro ⟨hx, hf⟩
    exact ⟨(), hx, hf⟩

lemma forM_eq_ok_iff {E A : Type} {f : A → Except E Unit} {l : List A} :
    l.forM f = .ok () ↔ ∀ a ∈ l, f a = .ok () := by
  change forM l f = .ok () ↔ _
  induction l with
  | nil => simp [pure, Except.pure]
  | cons a l ih => rw [List.forM_cons, check_bind_eq_ok_iff, ih, List.forall_mem_cons]

lemma throw_ne_ok {E A : Type} (e : E) (a : A) : (throw e : Except E A) ≠ .ok a := by
  intro h
  cases h

namespace GroupingKey

lemma checkName_eq_none_iff (name : String) : checkName name = none ↔ isKeyLabel name = true := by
  unfold checkName isKeyLabel
  cases Name.isLabelName name <;> cases isReservedInKey name <;> simp

lemma ofPairs_eq_ok {pairs : List (String × String)} (hne : pairs ≠ [])
    (hk : ∀ p ∈ pairs, isKeyLabel p.1 = true) (hn : (pairs.map Prod.fst).Nodup) :
    ofPairs pairs = .ok ⟨.ofList pairs, SortedMap.ofList_ne_nil hne,
      fun p hp => hk p (SortedMap.mem_ofList hp)⟩ := by
  have hnames : checkNames pairs = none :=
    List.findSome?_eq_none_iff.mpr fun p hp => (checkName_eq_none_iff p.1).mpr (hk p hp)
  have hrepeated : repeatedName? pairs = none := by
    refine List.find?_eq_none.mpr fun name _ => ?_
    have hcount := List.nodup_iff_count.mp hn name
    simpa using hcount
  unfold ofPairs
  rw [dif_neg hne]
  split
  · next e he => rw [hnames] at he; cases he
  · rw [hrepeated]

end GroupingKey

namespace Family

def Accepts (f : Family) (s : Sample) : Prop :=
  s.value.metricType = f.metricType ∧ ∀ n ∈ s.labels.keys, f.checkLabel n = .ok ()

structure Valid (f : Family) : Prop where
  name : Name.isMetricName f.name = true
  samples : ∀ s ∈ f.samples, f.Accepts s
  distinct : (f.samples.map Sample.labels).Nodup

lemma checkSamples_cons (f : Family) (seen : List Labels) (s : Sample) (ss : List Sample) :
    f.checkSamples seen (s :: ss) = .ok () ↔
      f.Accepts s ∧ s.labels ∉ seen ∧ f.checkSamples (s.labels :: seen) ss = .ok () := by
  rw [checkSamples, Accepts, ← forM_eq_ok_iff]
  by_cases ht : s.value.metricType = f.metricType
  · by_cases hs : s.labels ∈ seen
    · simp [ht, hs, check_bind_eq_ok_iff, throw_ne_ok]
    · simp [ht, hs, check_bind_eq_ok_iff]
  · simp [ht, check_bind_eq_ok_iff, throw_ne_ok]

lemma checkSamples_eq_ok_iff (f : Family) (seen : List Labels) (ss : List Sample) :
    f.checkSamples seen ss = .ok () ↔
      (∀ s ∈ ss, f.Accepts s) ∧ (ss.map Sample.labels).Nodup ∧ ∀ s ∈ ss, s.labels ∉ seen := by
  induction ss generalizing seen with
  | nil => simp [checkSamples]
  | cons s ss ih =>
    rw [checkSamples_cons, ih, List.forall_mem_cons, List.forall_mem_cons, List.map_cons,
      List.nodup_cons]
    simp only [List.mem_map, List.mem_cons, not_or, not_exists, not_and]
    constructor
    · rintro ⟨ha, hs, has, hn, hseen⟩
      exact ⟨⟨ha, has⟩, ⟨fun t ht => (hseen t ht).1, hn⟩, hs, fun t ht => (hseen t ht).2⟩
    · rintro ⟨⟨ha, has⟩, ⟨hne, hn⟩, hs, hseen⟩
      exact ⟨ha, hs, has, hn, fun t ht => ⟨hne t ht, hseen t ht⟩⟩

lemma validate_eq_ok_iff (f : Family) : f.validate = .ok () ↔ f.Valid := by
  rw [validate]
  by_cases hn : Name.isMetricName f.name = true
  · rw [if_pos hn, checkSamples_eq_ok_iff]
    constructor
    · rintro ⟨hs, hd, _⟩
      exact ⟨hn, hs, hd⟩
    · rintro ⟨_, hs, hd⟩
      exact ⟨hs, hd, by simp⟩
  · rw [if_neg hn]
    constructor
    · intro h
      cases h
    · intro h
      exact absurd h.name hn

end Family

namespace Group

/-- No sample of the family has a label of the key. -/
def Apart (key : GroupingKey) (f : Family) : Prop :=
  ∀ s ∈ f.samples, ∀ n ∈ s.labels.keys, key.containsLabel n = false

lemma collision?_eq_none_iff {key : GroupingKey} {f : Family} :
    collision? key f = none ↔ Apart key f := by
  simp [collision?, Apart, List.findSome?_eq_none_iff, List.find?_eq_none]

lemma checkCollisions_eq_ok_iff (key : GroupingKey) (f : Family) :
    checkCollisions key f = .ok () ↔ Apart key f := by
  rw [← collision?_eq_none_iff, checkCollisions]
  cases collision? key f <;> simp

lemma addFamily_eq_ok_iff {key : GroupingKey} {m m' : SortedMap String Family} {f : Family} :
    addFamily key m f = .ok m' ↔
      f.Valid ∧ Apart key f ∧ m.get? f.name = none ∧ m' = m.insert f.name f := by
  rw [addFamily, ← Family.validate_eq_ok_iff, ← checkCollisions_eq_ok_iff]
  by_cases hm : m.get? f.name = none
  · simp [check_bind_eq_ok_iff, SortedMap.contains, hm, pure, Except.pure, eq_comm (a := m')]
  · have hs : (m.get? f.name).isSome = true := Option.isSome_iff_ne_none.mpr hm
    simp only [check_bind_eq_ok_iff, SortedMap.contains, hs, if_true, hm, false_and, and_false,
      iff_false, not_and]
    rintro _ _ ⟨⟩

lemma foldlM_addFamily_eq_ok_iff {key : GroupingKey} {m m' : SortedMap String Family}
    {fs : List Family} :
    fs.foldlM (addFamily key) m = .ok m' ↔
      (∀ f ∈ fs, f.Valid ∧ Apart key f) ∧ (fs.map Family.name).Nodup ∧
        (∀ f ∈ fs, m.get? f.name = none) ∧
        m' = (fs.map fun f => (f.name, f)).foldl (fun m p => m.insert p.1 p.2) m := by
  induction fs generalizing m with
  | nil => simp [pure, Except.pure, eq_comm]
  | cons f fs ih =>
    rw [List.foldlM_cons, bind_eq_ok_iff]
    constructor
    · rintro ⟨m₁, h₁, h⟩
      obtain ⟨hv, ha, hm, rfl⟩ := addFamily_eq_ok_iff.mp h₁
      obtain ⟨hvs, hn, hms, rfl⟩ := ih.mp h
      have hne : ∀ e ∈ fs, e.name ≠ f.name := by
        intro e he heq
        have h := hms e he
        rw [heq, SortedMap.get?_insert_self] at h
        cases h
      refine ⟨List.forall_mem_cons.mpr ⟨⟨hv, ha⟩, hvs⟩, ?_, List.forall_mem_cons.mpr ⟨hm, ?_⟩, rfl⟩
      · refine List.nodup_cons.mpr ⟨?_, hn⟩
        intro hf
        obtain ⟨e, he, heq⟩ := List.mem_map.mp hf
        exact hne e he heq
      · intro e he
        rw [← SortedMap.get?_insert_of_ne m f (hne e he)]
        exact hms e he
    · rintro ⟨hvs, hn, hms, rfl⟩
      obtain ⟨⟨hv, ha⟩, hvs⟩ := List.forall_mem_cons.mp hvs
      obtain ⟨hm, hms⟩ := List.forall_mem_cons.mp hms
      obtain ⟨hf, hn⟩ := List.nodup_cons.mp hn
      refine ⟨_, addFamily_eq_ok_iff.mpr ⟨hv, ha, hm, rfl⟩, ih.mpr ⟨hvs, hn, ?_, rfl⟩⟩
      intro e he
      have hne : e.name ≠ f.name := fun heq => hf (heq ▸ List.mem_map_of_mem he)
      rw [SortedMap.get?_insert_of_ne m f hne]
      exact hms e he

lemma build_eq_ok_iff {key : GroupingKey} {fs : List Family} {ms seq : UInt64} {g : Group} :
    build key fs ms seq = .ok g ↔
      (∀ f ∈ fs, f.Valid ∧ Apart key f) ∧ (fs.map Family.name).Nodup ∧
        g = ⟨key, .ofList (fs.map fun f => (f.name, f)), ms, seq⟩ := by
  rw [build, bind_eq_ok_iff]
  simp only [foldlM_addFamily_eq_ok_iff, pure, Except.pure, Except.ok.injEq]
  constructor
  · rintro ⟨_, ⟨hvs, hn, _, rfl⟩, rfl⟩
    exact ⟨hvs, hn, rfl⟩
  · rintro ⟨hvs, hn, rfl⟩
    exact ⟨_, ⟨hvs, hn, fun _ _ => rfl, rfl⟩, rfl⟩

structure Valid (g : Group) : Prop where
  named : ∀ p ∈ g.families.entries, p.2.name = p.1
  valid : ∀ f ∈ g.families.values, f.Valid
  apart : ∀ f ∈ g.families.values, Apart g.key f

lemma key_of_build {key : GroupingKey} {fs : List Family} {ms seq : UInt64} {g : Group}
    (h : build key fs ms seq = .ok g) : g.key = key := by
  obtain ⟨-, -, rfl⟩ := build_eq_ok_iff.mp h
  rfl

lemma pushSeq_of_build {key : GroupingKey} {fs : List Family} {ms seq : UInt64} {g : Group}
    (h : build key fs ms seq = .ok g) : g.pushSeq = seq := by
  obtain ⟨-, -, rfl⟩ := build_eq_ok_iff.mp h
  rfl

lemma build_restamp {key : GroupingKey} {fs : List Family} {now seq : UInt64} {g : Group}
    (h : build key fs now seq = .ok g) (now' seq' : UInt64) :
    build key fs now' seq' = .ok { g with lastPush := now', pushSeq := seq' } := by
  obtain ⟨hvalid, hn, rfl⟩ := build_eq_ok_iff.mp h
  exact build_eq_ok_iff.mpr ⟨hvalid, hn, rfl⟩

lemma valid_of_build {key : GroupingKey} {fs : List Family} {ms seq : UInt64} {g : Group}
    (h : build key fs ms seq = .ok g) : g.Valid := by
  obtain ⟨hvs, _, rfl⟩ := build_eq_ok_iff.mp h
  have hmem : ∀ p ∈ (SortedMap.ofList (fs.map fun f => (f.name, f))).entries,
      p.2 ∈ fs ∧ p.2.name = p.1 := by
    intro p hp
    obtain ⟨f, hf, rfl⟩ := List.mem_map.mp (SortedMap.mem_ofList hp)
    exact ⟨hf, rfl⟩
  refine ⟨fun p hp => (hmem p hp).2, ?_, ?_⟩
  · intro f hf
    obtain ⟨p, hp, rfl⟩ := List.mem_map.mp hf
    exact (hvs p.2 (hmem p hp).1).1
  · intro f hf
    obtain ⟨p, hp, rfl⟩ := List.mem_map.mp hf
    exact (hvs p.2 (hmem p hp).1).2

lemma Valid.values_named {g : Group} (h : g.Valid) :
    g.families.values.map (fun f => (f.name, f)) = g.families.entries := by
  rw [SortedMap.values, List.map_map]
  refine (List.map_congr_left ?_).trans (List.map_id _)
  intro p hp
  exact Prod.ext (h.named p hp) rfl

lemma Valid.names_nodup {g : Group} (h : g.Valid) : (g.families.values.map Family.name).Nodup := by
  have hk : g.families.values.map Family.name = g.families.keys := by
    rw [SortedMap.keys, ← h.values_named, List.map_map]
    rfl
  rw [hk]
  exact SortedMap.nodup_of_sorted g.families.keys_sorted

lemma Valid.build_values {g : Group} (h : g.Valid) :
    build g.key g.families.values g.lastPush g.pushSeq = .ok g := by
  refine build_eq_ok_iff.mpr ⟨fun f hf => ⟨h.valid f hf, h.apart f hf⟩, h.names_nodup, ?_⟩
  rw [h.values_named, SortedMap.ofList_entries]

lemma Valid.get?_name {g : Group} (h : g.Valid) {f : Family} (hf : f ∈ g.families.values) :
    g.families.get? f.name = some f := by
  rw [SortedMap.get?_eq_some_iff, ← h.values_named]
  exact List.mem_map.mpr ⟨f, hf, rfl⟩

lemma Valid.name_of_get? {g : Group} (h : g.Valid) {n : String} {f : Family}
    (hf : g.families.get? n = some f) : f.name = n :=
  h.named (n, f) (SortedMap.get?_eq_some_iff.mp hf)

lemma values_perm_of_build {key : GroupingKey} {fs : List Family} {ms seq : UInt64} {g : Group}
    (h : build key fs ms seq = .ok g) : g.families.values.Perm fs := by
  obtain ⟨-, hn, rfl⟩ := build_eq_ok_iff.mp h
  have hkeys : ((fs.map fun f => (f.name, f)).map Prod.fst).Nodup := by
    rw [List.map_map]
    exact hn
  have hvalues := (SortedMap.ofList_perm hkeys).map Prod.snd
  rw [List.map_map] at hvalues
  exact hvalues.trans (.of_eq (List.map_id fs))

lemma get?_of_build {key : GroupingKey} {fs : List Family} {ms seq : UInt64} {g : Group}
    (h : build key fs ms seq = .ok g) (name : String) (f : Family) :
    g.families.get? name = some f ↔ f ∈ fs ∧ f.name = name := by
  have hvalid := valid_of_build h
  rw [← (values_perm_of_build h).mem_iff]
  constructor
  · exact fun hf => ⟨SortedMap.mem_values_iff.mpr ⟨name, hf⟩, hvalid.name_of_get? hf⟩
  · rintro ⟨hf, rfl⟩
    exact hvalid.get?_name hf

end Group

end PushGateway
