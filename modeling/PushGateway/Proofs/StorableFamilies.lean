import PushGateway.Proofs.CompletedSamples

/-! What is read from a payload can be stored. Its families pass each check of a push but the one
for labels of the key, and the bounds of a sample ascend without two that are equal as numbers. -/

namespace PushGateway

open Exposition

section Bounds

variable {x y z : Binary64} {ps : List (Binary64 × Binary64)}

/-- The upper bounds of the buckets, or the quantiles. -/
def SampleValue.bounds (v : SampleValue) : List Binary64 := v.points.map Prod.fst

lemma Binary64.eq_of_rank (h : x.rank = y.rank) : x = y := by
  have hparts : x.negative = y.negative ∧ x.magnitude = y.magnitude := by
    unfold rank at h
    cases hx : x.negative <;> cases hy : y.negative <;> simp [hx, hy] at h ⊢ <;> omega
  rw [← ofMagnitude_magnitude x, ← ofMagnitude_magnitude y, hparts.1, hparts.2]

/-- What lies between two numbers that are equal is equal to them; only the zeros differ. -/
lemma Binary64.same_of_between (h : x.same z = true) (hxy : y.before x = false)
    (hyz : z.before y = false) : x.same y = true := by
  simp only [before, decide_eq_false_iff_not] at hxy hyz
  simp only [same, Bool.and_eq_true, Bool.or_eq_true, Bool.not_eq_true', beq_iff_eq] at h ⊢
  obtain ⟨⟨hx, hz⟩, rfl | ⟨hxm, hzm⟩⟩ := h
  · obtain rfl := eq_of_rank (x := x) (y := y) (by omega)
    exact ⟨⟨hx, hx⟩, .inl rfl⟩
  · have hym : y.magnitude = 0 := by
      unfold rank at hxy hyz
      rw [hxm] at hxy
      rw [hzm] at hyz
      split_ifs at hxy hyz <;> omega
    refine ⟨⟨hx, ?_⟩, .inr ⟨hxm, hym⟩⟩
    rw [isNaN, hym]
    rfl

/-- In ascending order it is enough that no bound is equal to the next one. -/
lemma pairwise_of_hasRepeat (hs : ps.Pairwise fun p q => (!q.1.before p.1) = true)
    (hr : Block.hasRepeat ps = false) :
    ps.Pairwise fun p q => q.1.before p.1 = false ∧ p.1.same q.1 = false := by
  induction ps with
  | nil => exact .nil
  | cons p ps ih =>
    obtain ⟨hp, hs⟩ := List.pairwise_cons.mp hs
    obtain ⟨hnext, hr⟩ := hasRepeat_cons.mp hr
    refine List.pairwise_cons.mpr ⟨fun r hmem => ?_, ih hs hr⟩
    have hpr : r.1.before p.1 = false := by simpa using hp r hmem
    refine ⟨hpr, ?_⟩
    rw [← Bool.not_eq_true]
    intro hsame
    cases ps with
    | nil => cases hmem
    | cons q ps =>
      have hpq : q.1.before p.1 = false := by simpa using hp q List.mem_cons_self
      have hne := hnext q rfl
      rcases List.mem_cons.mp hmem with rfl | hmem
      · exact absurd hsame (by simp [hne])
      · have hqr : r.1.before q.1 = false := by simpa using (List.pairwise_cons.mp hs).1 r hmem
        exact absurd (Binary64.same_of_between hsame hpq hqr) (by simp [hne])

lemma SampleValue.Settled.bounds_ascend {v : SampleValue} (h : v.Settled) :
    v.bounds.Pairwise fun x y => y.before x = false ∧ x.same y = false :=
  List.pairwise_map.mpr (pairwise_of_hasRepeat h.ordered h.distinct)

end Bounds

section Checks

variable {key : GroupingKey} {families : List Family}

def Group.clash? (key : GroupingKey) (f : Family) : Option ValidationError :=
  (collision? key f).map (.labelCollision f.name)

lemma Group.clash?_eq_none_iff {f : Family} : clash? key f = none ↔ Apart key f := by
  rw [clash?, Option.map_eq_none_iff, collision?_eq_none_iff]

lemma Group.clash?_eq_some {f : Family} {e : ValidationError} (h : clash? key f = some e) :
    ∃ s ∈ f.samples, ∃ label ∈ s.labels.keys, key.containsLabel label = true ∧
      e = .labelCollision f.name label := by
  obtain ⟨label, hlabel, rfl⟩ := Option.map_eq_some_iff.mp h
  obtain ⟨s, hs, hfind⟩ := List.exists_of_findSome?_eq_some hlabel
  exact ⟨s, hs, label, List.mem_of_find?_eq_some hfind, List.find?_some hfind, rfl⟩

lemma Group.addFamily_of_clash {f : Family} {e : ValidationError} (hv : f.Valid)
    (hc : clash? key f = some e) (m : SortedMap String Family) :
    addFamily key m f = .error e := by
  obtain ⟨label, hlabel, rfl⟩ := Option.map_eq_some_iff.mp hc
  rw [addFamily, (f.validate_eq_ok_iff).mpr hv, checkCollisions, hlabel]
  rfl

lemma Group.foldlM_addFamily_of_clash {e : ValidationError} (hv : ∀ f ∈ families, f.Valid)
    (hn : (families.map Family.name).Nodup) (hc : families.findSome? (clash? key) = some e)
    {m : SortedMap String Family} (hm : ∀ f ∈ families, m.get? f.name = none) :
    families.foldlM (addFamily key) m = .error e := by
  induction families generalizing m with
  | nil => cases hc
  | cons f families ih =>
    obtain ⟨hvf, hv⟩ := List.forall_mem_cons.mp hv
    obtain ⟨hmf, hm⟩ := List.forall_mem_cons.mp hm
    obtain ⟨hname, hn⟩ := List.nodup_cons.mp hn
    rw [List.findSome?_cons] at hc
    rw [List.foldlM_cons]
    cases hf : clash? key f with
    | some e' =>
      rw [hf] at hc
      rw [addFamily_of_clash hvf hf m, Option.some.inj hc]
      rfl
    | none =>
      -- `f` is added, and no later family has its name
      rw [hf] at hc
      have hadd := addFamily_eq_ok_iff.mpr ⟨hvf, clash?_eq_none_iff.mp hf, hmf, rfl⟩
      rw [hadd]
      refine ih hv hn hc fun g hg => ?_
      have hne : g.name ≠ f.name := fun he => hname (he ▸ List.mem_map_of_mem hg)
      rw [SortedMap.get?_insert_of_ne m f hne]
      exact hm g hg

/-- Of the checks of a push, families that were read can only fail the one for labels of the key. -/
lemma Group.build_of_parse {text : String} (hparse : parse text = .ok families)
    (lastPush pushSeq : UInt64) : build key families lastPush pushSeq =
      match families.findSome? (clash? key) with
      | some e => .error e
      | none => .ok ⟨key, .ofList (families.map fun f => (f.name, f)), lastPush, pushSeq⟩ := by
  obtain ⟨hsettled, hn⟩ := settled_of_parse hparse
  cases hc : families.findSome? (clash? key) with
  | some e =>
    have hfold := foldlM_addFamily_of_clash (fun f hf => (hsettled f hf).valid) hn hc
      (m := .empty) fun _ _ => rfl
    rw [build, hfold]
    rfl
  | none =>
    refine build_eq_ok_iff.mpr ⟨fun f hf => ?_, hn, rfl⟩
    have hapart := List.findSome?_eq_none_iff.mp hc f hf
    exact ⟨(hsettled f hf).valid, clash?_eq_none_iff.mp hapart⟩

end Checks

namespace Exposition

theorem storable_of_parse {text : String} {families : List Family}
    (h : parse text = .ok families) :
    (families.map Family.name).Nodup ∧
    (∀ f ∈ families, f.validate = .ok () ∧ ∀ s ∈ f.samples,
      s.value.bounds.Pairwise fun x y => y.before x = false ∧ x.same y = false) ∧
    ∀ (key : GroupingKey) (lastPush pushSeq : UInt64),
      ((∃ g, Group.build key families lastPush pushSeq = .ok g) ↔
        ∀ f ∈ families, ∀ s ∈ f.samples, ∀ n ∈ s.labels.keys, key.containsLabel n = false) ∧
      ∀ e, Group.build key families lastPush pushSeq = .error e →
        ∃ f ∈ families, ∃ s ∈ f.samples, ∃ n ∈ s.labels.keys, key.containsLabel n = true ∧
          e = .labelCollision f.name n := by
  obtain ⟨hsettled, hn⟩ := settled_of_parse h
  refine ⟨hn, fun f hf => ⟨(f.validate_eq_ok_iff).mpr (hsettled f hf).valid, fun s hs => ?_⟩,
    fun key lastPush pushSeq => ⟨⟨?_, fun hapart => ?_⟩, fun e he => ?_⟩⟩
  · exact ((hsettled f hf).samples s hs).bounds_ascend
  · rintro ⟨g, hg⟩ f hf
    exact ((Group.build_eq_ok_iff.mp hg).1 f hf).2
  · exact ⟨_, Group.build_eq_ok_iff.mpr ⟨fun f hf => ⟨(hsettled f hf).valid, hapart f hf⟩, hn, rfl⟩⟩
  · rw [Group.build_of_parse h] at he
    split at he
    · next e' hclash =>
      obtain rfl := Except.error.inj he
      obtain ⟨f, hf, hsome⟩ := List.exists_of_findSome?_eq_some hclash
      exact ⟨f, hf, Group.clash?_eq_some hsome⟩
    · cases he

/-- Buckets that come in no order, and a label that one key has and another has not. -/
theorem storable_of_parse_job_label :
    let one : Binary64 := ⟨0x3FF0000000000000⟩
    let minusOne : Binary64 := ⟨0xBFF0000000000000⟩
    let buckets : List Bucket := [⟨minusOne, .zero⟩, ⟨one, one⟩, ⟨.infinity, one⟩]
    let up : Family := ⟨"up", "", .untyped, [⟨.empty, .untyped one, none⟩]⟩
    let families : List Family := [up, ⟨"h", "", .histogram,
      [⟨.ofList [("job", "x")], .histogram buckets .zero .zero, none⟩]⟩]
    let a : GroupingKey := ⟨.ofList [("zone", "z")], by decide, by decide⟩
    let b : GroupingKey := ⟨.ofList [("job", "y")], by decide, by decide⟩
    let text : String := "up 1\n# TYPE h histogram\nh_bucket\x7ble=\"+Inf\",job=\"x\"\x7d 1\n" ++
      "h_bucket\x7bjob=\"x\",le=\"1.0\"\x7d 1\nh_bucket\x7bjob=\"x\",le=\"-1\"\x7d 0\n"
    parse text = .ok families ∧
      (buckets.map Bucket.upperBound).Pairwise (fun x y => y.before x = false ∧ x.same y = false) ∧
      (∃ g, Group.build a families 5 0 = .ok g) ∧
      Group.build b families 5 0 = .error (.labelCollision "h" "job") := by
  intro one minusOne buckets up families a b text
  have hsort : Block.sortPoints #[(.infinity, one), (one, one), (minusOne, .zero)]
      = [(minusOne, .zero), (one, one), (.infinity, one)] :=
    sortPoints_eq (by decide +kernel) (by decide +kernel)
  have hlines : (lines text).foldlM fileText (1, .start)
      = .ok (7, ⟨#[up], some ⟨"h", 2, none, some .histogram, #[], [⟨.ofList [("job", "x")],
        #[(.infinity, one), (one, one), (minusOne, .zero)], none, none, none⟩]⟩⟩) := by
    decide +kernel
  have hclose : Assembly.close ⟨#[up], some ⟨"h", 2, none, some .histogram, #[],
      [⟨.ofList [("job", "x")], #[(.infinity, one), (one, one), (minusOne, .zero)], none, none,
        none⟩]⟩⟩ = .ok families.toArray := by
    simp only [Assembly.close, Block.build, Block.allSamples, Block.kind, Option.getD,
      List.mapM_cons, Block.histogramSample, Block.orderedPoints, hsort]
    decide +kernel
  have h : parse text = .ok families := parse_of_close hlines hclose
  obtain ⟨-, hfamilies, hbuild⟩ := storable_of_parse h
  refine ⟨h, (hfamilies _ (.tail _ (.head _))).2 _ (.head _),
    (hbuild a 5 0).1.mpr (by decide +kernel), ?_⟩
  cases hb : Group.build b families 5 0 with
  | ok g => exact absurd ((hbuild b 5 0).1.mp ⟨g, hb⟩) (by decide +kernel)
  | error e =>
    obtain ⟨f, hf, s, hs, n, hn, hkey, rfl⟩ := (hbuild b 5 0).2 e hb
    have honly : ∀ f ∈ families, ∀ s ∈ f.samples, ∀ n ∈ s.labels.keys,
        b.containsLabel n = true → f.name = "h" ∧ n = "job" := by decide +kernel
    obtain ⟨hname, rfl⟩ := honly f hf s hs n hn hkey
    rw [hname]

end Exposition

end PushGateway
