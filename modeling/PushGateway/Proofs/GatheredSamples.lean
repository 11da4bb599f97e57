import PushGateway.Proofs.GatheredLines
import PushGateway.Proofs.StorableFamilies

/-! The samples that the composites of a block become. Whether they are accepted, and what they are
unless a bound is a NaN, does not depend on the order of the points. -/

namespace PushGateway.Exposition

section Points

variable {ps ps' : Array (Binary64 × Binary64)} {qs : List (Binary64 × Binary64)}

lemma hasRepeat_of_pairwise (h : qs.Pairwise fun p q => p.1.same q.1 = false) :
    Block.hasRepeat qs = false := by
  induction qs with
  | nil => rfl
  | cons q qs ih =>
    obtain ⟨hq, hqs⟩ := List.pairwise_cons.mp h
    exact hasRepeat_cons.mpr ⟨fun r hr => hq r (List.mem_of_mem_head? hr), ih hqs⟩

lemma Binary64.same_comm (x y : Binary64) : x.same y = y.same x := by
  rw [Bool.eq_iff_iff]
  simp only [Binary64.same, Bool.and_eq_true, Bool.or_eq_true, Bool.not_eq_true', beq_iff_eq]
  constructor
  · rintro ⟨⟨hx, hy⟩, rfl | ⟨hxm, hym⟩⟩
    · exact ⟨⟨hx, hx⟩, .inl rfl⟩
    · exact ⟨⟨hy, hx⟩, .inr ⟨hym, hxm⟩⟩
  · rintro ⟨⟨hy, hx⟩, rfl | ⟨hym, hxm⟩⟩
    · exact ⟨⟨hy, hy⟩, .inl rfl⟩
    · exact ⟨⟨hx, hy⟩, .inr ⟨hxm, hym⟩⟩

/-- Sorting only brings together the bounds that are equal as numbers. -/
lemma hasRepeat_sortPoints : Block.hasRepeat (Block.sortPoints ps) = false ↔
    ps.toList.Pairwise fun p q => p.1.same q.1 = false := by
  have hsymm {p q : Binary64 × Binary64} (h : p.1.same q.1 = false) : q.1.same p.1 = false :=
    (Binary64.same_comm q.1 p.1).trans h
  rw [← (sortPoints_perm ps).pairwise_iff hsymm]
  refine ⟨fun h => ?_, hasRepeat_of_pairwise⟩
  exact (pairwise_of_hasRepeat (sortPoints_sorted ps) h).imp And.right

lemma hasRepeat_sortPoints_perm (h : ps.toList.Perm ps'.toList)
    (hr : Block.hasRepeat (Block.sortPoints ps) = false) :
    Block.hasRepeat (Block.sortPoints ps') = false := by
  rw [hasRepeat_sortPoints] at hr ⊢
  exact hr.perm h fun {p q} hpq => (Binary64.same_comm q.1 p.1).trans hpq

/-- Bounds that are numbers and differ as numbers have one order. -/
lemma sortPoints_eq_of_perm (h : ps.toList.Perm ps'.toList)
    (hr : Block.hasRepeat (Block.sortPoints ps) = false)
    (hn : ∀ p ∈ Block.sortPoints ps, p.1.isNaN = false) :
    Block.sortPoints ps' = Block.sortPoints ps := by
  refine sortPoints_eq ((sortPoints_perm ps).trans h) ?_
  refine (pairwise_of_hasRepeat (sortPoints_sorted ps) hr).imp_of_mem ?_
  rintro p q hp - ⟨hle, hne⟩
  by_contra hlt
  have heq : p.1 = q.1 := by
    refine Binary64.eq_of_rank ?_
    simp only [Binary64.before, decide_eq_true_eq, decide_eq_false_iff_not] at hle hlt
    omega
  rw [← heq] at hne
  simp [Binary64.same, hn p hp] at hne

end Points

section Samples

/-- The sample that a composite becomes if it is the sample of a histogram or a summary. -/
def Composite.sample (t : MetricType) (c : Composite) : Sample :=
  let points := Block.sortPoints c.points
  let sum := c.sum.getD .zero
  let count := c.count.getD .zero
  let value : SampleValue :=
    if t = .histogram then .histogram (points.map fun p => ⟨p.1, p.2⟩) sum count
    else .summary (points.map fun p => ⟨p.1, p.2⟩) sum count
  ⟨c.labels, value, c.timestamp⟩

variable {b b' : Block} {c c' : Composite} {f : Family} {s : Sample} {ss : List Sample}
  {t : MetricType}

lemma mapM_eq_ok_iff {E A B : Type} {f : A → Except E B} {p : A → Prop} {g : A → B}
    (hf : ∀ a b, f a = .ok b ↔ p a ∧ b = g a) {l : List A} {r : List B} :
    l.mapM f = .ok r ↔ (∀ a ∈ l, p a) ∧ r = l.map g := by
  induction l generalizing r with
  | nil =>
    rw [List.mapM_nil, List.map_nil]
    exact ⟨fun h => ⟨by simp, (Except.ok.inj h).symm⟩, fun h => congrArg _ h.2.symm⟩
  | cons a l ih =>
    rw [List.mapM_cons, bind_eq_ok_iff, List.forall_mem_cons]
    constructor
    · rintro ⟨x, hx, h⟩
      obtain ⟨xs, hxs, h⟩ := bind_eq_ok_iff.mp h
      obtain rfl : x :: xs = r := Except.ok.inj h
      obtain ⟨ha, rfl⟩ := (hf a x).mp hx
      obtain ⟨hl, rfl⟩ := ih.mp hxs
      exact ⟨⟨ha, hl⟩, rfl⟩
    · rintro ⟨⟨ha, hl⟩, rfl⟩
      refine ⟨g a, (hf a _).mpr ⟨ha, rfl⟩, bind_eq_ok_iff.mpr ⟨l.map g, ih.mpr ⟨hl, rfl⟩, rfl⟩⟩

lemma orderedPoints_bind_eq_ok_iff {label : String}
    {g : List (Binary64 × Binary64) → Sample} :
    (b.orderedPoints label c >>= fun ps => pure (g ps)) = .ok s ↔
      Block.hasRepeat (Block.sortPoints c.points) = false ∧ s = g (Block.sortPoints c.points) := by
  rw [bind_eq_ok_iff]
  simp only [orderedPoints_eq_ok_iff]
  constructor
  · rintro ⟨ps, ⟨hr, rfl⟩, hs⟩
    exact ⟨hr, (Except.ok.inj hs).symm⟩
  · rintro ⟨hr, rfl⟩
    exact ⟨_, ⟨hr, rfl⟩, rfl⟩

lemma allSamples_eq_ok_iff (hk : Composed b.kind) : b.allSamples = .ok ss ↔
    (∀ c ∈ b.composites, Block.hasRepeat (Block.sortPoints c.points) = false) ∧
      ss = b.composites.map (Composite.sample b.kind) := by
  unfold Block.allSamples
  rcases List.mem_pair.mp hk with hk | hk
  · rw [hk]
    exact mapM_eq_ok_iff fun c s => orderedPoints_bind_eq_ok_iff
  · rw [hk]
    exact mapM_eq_ok_iff fun c s => orderedPoints_bind_eq_ok_iff

lemma metricType_sample (hk : Composed t) (c : Composite) :
    (c.sample t).value.metricType = t := by
  rcases List.mem_pair.mp hk with rfl | rfl <;> rfl

lemma bounds_sample (t : MetricType) (c : Composite) :
    (c.sample t).value.bounds = (Block.sortPoints c.points).map Prod.fst := by
  unfold Composite.sample SampleValue.bounds
  dsimp only
  split_ifs
  · exact congrArg _ (map_point_bucket _)
  · exact congrArg _ (map_point_quantile _)

lemma target_of_mem (hb : b.keys.Nodup) (hc : c ∈ b.composites) : b.target c.labels = c := by
  have hfound : (b.composite? c.labels).isSome = true := List.find?_isSome.mpr ⟨c, hc, by simp⟩
  obtain ⟨d, hd⟩ := Option.isSome_iff_exists.mp hfound
  have hlabels : d.labels = c.labels := by simpa using List.find?_some hd
  rw [Block.target, hd, Option.getD_some]
  exact List.inj_on_of_nodup_map hb (List.mem_of_find?_eq_some hd) hc hlabels

lemma composites_eq (hb : b.keys.Nodup) : b.composites = b.keys.map b.target := by
  rw [Block.keys, List.map_map]
  conv_lhs => rw [← List.map_id b.composites]
  exact List.map_congr_left fun c hc => (target_of_mem hb hc).symm

/-- Whether a family is valid depends on its labels only, if its samples have its type. -/
lemma valid_gathered_iff (hk : Composed t) {name help : String} {cs : List Composite} :
    Family.Valid ⟨name, help, t, cs.map (Composite.sample t)⟩ ↔
      Name.isMetricName name = true ∧ (cs.map Composite.labels).Nodup ∧
        ∀ labels ∈ cs.map Composite.labels, ∀ n ∈ labels.keys,
          Readable n ∧ Family.addsLabel t n = false := by
  have hlabels : (cs.map (Composite.sample t)).map Sample.labels = cs.map Composite.labels :=
    List.map_map ..
  constructor
  · rintro ⟨hname, hsamples, hd⟩
    refine ⟨hname, hlabels ▸ hd, fun labels hl n hn => ?_⟩
    obtain ⟨c, hc, rfl⟩ := List.mem_map.mp hl
    exact checkLabel_eq_ok_iff.mp ((hsamples _ (List.mem_map_of_mem hc)).2 n hn)
  · rintro ⟨hname, hd, hkeys⟩
    refine ⟨hname, fun s hs => ?_, hlabels ▸ hd⟩
    obtain ⟨c, hc, rfl⟩ := List.mem_map.mp hs
    exact ⟨metricType_sample hk c, fun n hn =>
      checkLabel_eq_ok_iff.mpr (hkeys c.labels (List.mem_map_of_mem hc) n hn)⟩

/-- What the lines of a block come to depends on its composites up to their order. -/
lemma build_gathered_iff (hk : Composed b.kind) (hb : b.keys.Nodup) : b.build = .ok f ↔
    (Name.isMetricName b.name = true ∧ ∀ labels ∈ b.keys,
      Block.hasRepeat (Block.sortPoints (b.target labels).points) = false ∧
        ∀ n ∈ labels.keys, Readable n ∧ Family.addsLabel b.kind n = false) ∧
    f = ⟨b.name, b.help.getD "", b.kind, b.keys.map fun labels =>
      (b.target labels).sample b.kind⟩ := by
  have hrepeat : (∀ c ∈ b.composites, Block.hasRepeat (Block.sortPoints c.points) = false) ↔
      ∀ labels ∈ b.keys, Block.hasRepeat (Block.sortPoints (b.target labels).points) = false := by
    rw [composites_eq hb, List.forall_mem_map]
  have hsamples : b.composites.map (Composite.sample b.kind)
      = b.keys.map fun labels => (b.target labels).sample b.kind := by
    rw [composites_eq hb, List.map_map]
    rfl
  rw [build_eq_ok_iff]
  simp only [allSamples_eq_ok_iff hk]
  constructor
  · rintro ⟨ss, ⟨hr, rfl⟩, rfl, hvalid⟩
    obtain ⟨hname, -, hkeys⟩ := (valid_gathered_iff hk).mp hvalid
    refine ⟨⟨hname, fun labels hl => ⟨hrepeat.mp hr labels hl, hkeys labels hl⟩⟩, by rw [hsamples]⟩
  · rintro ⟨⟨hname, hkeys⟩, rfl⟩
    refine ⟨_, ⟨hrepeat.mpr fun labels hl => (hkeys labels hl).1, rfl⟩, by rw [hsamples], ?_⟩
    rw [← hsamples]
    exact (valid_gathered_iff hk).mpr ⟨hname, hb, fun labels hl => (hkeys labels hl).2⟩

lemma sample_eq_of_alike (h : c.Alike c') (t : MetricType)
    (hr : Block.hasRepeat (Block.sortPoints c.points) = false)
    (hn : ∀ x ∈ (c.sample t).value.bounds, x.isNaN = false) : c.sample t = c'.sample t := by
  have hpoints : Block.sortPoints c'.points = Block.sortPoints c.points := by
    refine sortPoints_eq_of_perm h.points hr fun p hp => hn p.1 ?_
    rw [bounds_sample]
    exact List.mem_map_of_mem hp
  unfold Composite.sample
  rw [hpoints, h.labels, h.sum, h.count, h.timestamp]

lemma Block.Alike.build (h : b.Alike b') (hk : Composed b.kind) (hf : b.build = .ok f) :
    ∃ ss ss', f = ⟨b.name, b.help.getD "", b.kind, ss⟩ ∧
      b'.build = .ok ⟨b.name, b.help.getD "", b.kind, ss'⟩ ∧
      ((∀ s ∈ ss, ∀ x ∈ s.value.bounds, x.isNaN = false) → ss.Perm ss') := by
  have hname : b.name = b'.name := congrArg Heading.family h.heading
  have hkind : b.kind = b'.kind := congrArg Heading.type h.heading
  have hperm : b.keys.Perm b'.keys :=
    (List.perm_ext_iff_of_nodup h.nodup h.nodup').mpr fun labels => h.keys labels
  obtain ⟨⟨hmetric, hkeys⟩, rfl⟩ := (build_gathered_iff hk h.nodup).mp hf
  refine ⟨_, b'.keys.map fun labels => (b'.target labels).sample b'.kind, rfl, ?_, fun hn => ?_⟩
  · rw [hname, h.help, hkind]
    refine (build_gathered_iff (hkind ▸ hk) h.nodup').mpr
      ⟨⟨hname ▸ hmetric, fun labels hl => ?_⟩, rfl⟩
    obtain ⟨hr, hlabels⟩ := hkeys labels ((h.keys labels).mpr hl)
    exact ⟨hasRepeat_sortPoints_perm (h.target labels).points hr, hkind ▸ hlabels⟩
  · have hsame : (b.keys.map fun labels => (b.target labels).sample b.kind)
        = b.keys.map fun labels => (b'.target labels).sample b'.kind := by
      refine List.map_congr_left fun labels hl => ?_
      rw [← hkind]
      exact sample_eq_of_alike (h.target labels) b.kind (hkeys labels hl).1
        (hn _ (List.mem_map_of_mem hl))
    rw [hsame]
    exact hperm.map _

end Samples

end PushGateway.Exposition
