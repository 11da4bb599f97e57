import PushGateway.Proofs.SettledLines

/-! What the families of an accepted payload are like. They are valid and of distinct names, their
help has no blanks at its ends once it is escaped, their bounds ascend, and of the NaNs there is
only the one that is read. -/

namespace PushGateway

namespace Exposition

section Blocks

structure Composite.Settled (c : Composite) : Prop where
  points : ∀ p ∈ c.points, p.1.collapse = p.1 ∧ p.2.collapse = p.2
  sum : ∀ x ∈ c.sum, x.collapse = x
  count : ∀ x ∈ c.count, x.collapse = x

structure Block.Settled (b : Block) : Prop where
  help : ∀ text ∈ b.help, Text.Trimmed (Text.escapeHelp text.toList)
  samples : ∀ s ∈ b.samples, s.value.Settled
  composites : ∀ c ∈ b.composites, c.Settled

variable {b b' : Block} {l : SeriesLine}

lemma mem_updateComposite {labels : Labels} {f : Composite → Composite} {cs : List Composite}
    {c : Composite} (h : c ∈ Block.updateComposite labels f cs) :
    c ∈ cs ∨ c = f ⟨labels, #[], none, none, none⟩ ∨ ∃ d ∈ cs, c = f d := by
  induction cs with
  | nil => exact .inr (.inl (List.mem_singleton.mp h))
  | cons d cs ih =>
    rw [Block.updateComposite] at h
    split_ifs at h
    · rcases List.mem_cons.mp h with rfl | h
      · exact .inr (.inr ⟨d, List.mem_cons_self, rfl⟩)
      · exact .inl (List.mem_cons_of_mem d h)
    · rcases List.mem_cons.mp h with rfl | h
      · exact .inl List.mem_cons_self
      · rcases ih h with hc | hc | ⟨e, he, rfl⟩
        · exact .inl (List.mem_cons_of_mem d hc)
        · exact .inr (.inl hc)
        · exact .inr (.inr ⟨e, List.mem_cons_of_mem d he, rfl⟩)

lemma Block.Settled.update (hb : b.Settled) (labels : Labels) {f : Composite → Composite}
    (hf : ∀ c : Composite, c.Settled → (f c).Settled) : (b.update labels f).Settled := by
  refine ⟨hb.help, hb.samples, fun c hc => ?_⟩
  rcases mem_updateComposite hc with hc | rfl | ⟨d, hd, rfl⟩
  · exact hb.composites c hc
  · exact hf _ ⟨by simp, by simp, by simp⟩
  · exact hf d (hb.composites d hd)

lemma settled_scalar (t : MetricType) {x : Binary64} (h : x.collapse = x) :
    (SampleValue.scalar t x).Settled := by
  cases t <;> exact ⟨by simp [SampleValue.scalar, SampleValue.collapse, h], .nil, rfl⟩

/-- A series line becomes a sample of its own, or a part of the composite of its labels. -/
lemma addSeries_cases (h : b.addSeries l = .ok b') : b' = b.addPlain l ∨
    ∃ labels f, b' = b.update labels f ∧
      ∀ c : Composite, c.Settled → l.value.collapse = l.value → (f c).Settled := by
  have hpoint {label : String} (h : b.addPoint label l = .ok b') : ∃ labels f,
      b' = b.update labels f ∧
        ∀ c : Composite, c.Settled → l.value.collapse = l.value → (f c).Settled := by
    unfold Block.addPoint at h
    dsimp only at h
    split at h
    · cases h
    · split at h
      · cases h
      · next bound hbound =>
        refine ⟨_, _, (Except.ok.inj h).symm, fun c hc hl => ⟨fun p hp => ?_, hc.sum, hc.count⟩⟩
        rcases Array.mem_push.mp hp with hp | rfl
        · exact hc.points p hp
        · exact ⟨collapse_of_readValue? hbound, hl⟩
  unfold Block.addSeries at h
  split at h
  · exact .inr (hpoint h)
  · exact .inr (hpoint h)
  · unfold Block.addSum at h
    dsimp only at h
    split_ifs at h
    exact .inr ⟨_, _, (Except.ok.inj h).symm,
      fun c hc hl => ⟨hc.points, by simpa using hl, hc.count⟩⟩
  · unfold Block.addCount at h
    dsimp only at h
    split_ifs at h
    exact .inr ⟨_, _, (Except.ok.inj h).symm,
      fun c hc hl => ⟨hc.points, hc.sum, by simpa using hl⟩⟩
  · cases h
  · cases h
  · exact .inl (Except.ok.inj h).symm

lemma setHelp_eq_ok {text : String} (h : b.setHelp text = .ok b') :
    b' = { b with help := some text } := by
  unfold Block.setHelp at h
  split_ifs at h
  exact (Except.ok.inj h).symm

lemma setType_eq_ok {t : MetricType} (h : b.setType t = .ok b') :
    b.hasSamples = false ∧ b' = { b with type := some t } := by
  unfold Block.setType at h
  split_ifs at h with hs
  exact ⟨Bool.eq_false_iff.mpr hs, (Except.ok.inj h).symm⟩

lemma name_of_addSeries (h : b.addSeries l = .ok b') : b'.name = b.name := by
  rcases addSeries_cases h with rfl | ⟨labels, f, rfl, -⟩
  · rfl
  · rfl

lemma role?_of_addSeries (h : b.addSeries l = .ok b') (metric : String) :
    b'.role? metric = b.role? metric := by
  rcases addSeries_cases h with rfl | ⟨labels, f, rfl, -⟩
  · rfl
  · rfl

lemma Block.Settled.addSeries (hb : b.Settled) (hl : l.value.collapse = l.value)
    (h : b.addSeries l = .ok b') : b'.Settled := by
  rcases addSeries_cases h with rfl | ⟨labels, f, rfl, hf⟩
  · refine ⟨hb.help, fun s hs => ?_, hb.composites⟩
    rcases Array.mem_push.mp hs with hs | rfl
    · exact hb.samples s hs
    · exact settled_scalar _ hl
  · exact hb.update labels fun c hc => hf c hc hl

section Order

variable (p q r : Binary64 × Binary64)

lemma not_before_trans (hpq : (!q.1.before p.1) = true) (hqr : (!r.1.before q.1) = true) :
    (!r.1.before p.1) = true := by
  simp only [Binary64.before, Bool.not_eq_true', decide_eq_false_iff_not] at *
  omega

lemma not_before_total : ((!q.1.before p.1) || !p.1.before q.1) = true := by
  simp only [Binary64.before, Bool.or_eq_true, Bool.not_eq_true', decide_eq_false_iff_not]
  omega

end Order

lemma sortPoints_sorted (points : Array (Binary64 × Binary64)) :
    (Block.sortPoints points).Pairwise fun p q => (!q.1.before p.1) = true :=
  List.pairwise_mergeSort not_before_trans not_before_total _

lemma sortPoints_perm (points : Array (Binary64 × Binary64)) :
    (Block.sortPoints points).Perm points.toList :=
  List.mergeSort_perm _ _

/-- Distinct bounds have one order only. -/
lemma sortPoints_eq {points : Array (Binary64 × Binary64)} {ps : List (Binary64 × Binary64)}
    (hp : ps.Perm points.toList) (hs : ps.Pairwise fun p q => p.1.before q.1 = true) :
    Block.sortPoints points = ps := by
  have hle : ps.Pairwise fun p q => (!q.1.before p.1) = true := by
    refine hs.imp fun {p q} hpq => ?_
    simp only [Binary64.before, decide_eq_true_eq, Bool.not_eq_true', decide_eq_false_iff_not] at *
    omega
  have hranks : (ps.map fun p => p.1.rank).Nodup :=
    List.pairwise_map.mpr (hs.imp fun hpq => Int.ne_of_lt (of_decide_eq_true hpq))
  have hperm : (Block.sortPoints points).Perm ps := (sortPoints_perm points).trans hp.symm
  refine hperm.eq_of_pairwise (fun p q hp hq hpq hqp => ?_) (sortPoints_sorted points) hle
  refine List.inj_on_of_nodup_map hranks (hperm.mem_iff.mp hp) hq ?_
  simp only [Binary64.before, Bool.not_eq_true', decide_eq_false_iff_not] at hpq hqp
  omega

lemma orderedPoints_eq_ok_iff {label : String} {c : Composite} {ps : List (Binary64 × Binary64)} :
    b.orderedPoints label c = .ok ps ↔
      Block.hasRepeat (Block.sortPoints c.points) = false ∧ ps = Block.sortPoints c.points := by
  unfold Block.orderedPoints
  dsimp only
  split_ifs with h
  · simp [h]
  · simp [h, eq_comm]

lemma Composite.Settled.mem_sortPoints {c : Composite} (hc : c.Settled) {p : Binary64 × Binary64}
    (hp : p ∈ Block.sortPoints c.points) : p.1.collapse = p.1 ∧ p.2.collapse = p.2 := by
  rw [Block.sortPoints, List.mem_mergeSort, Array.mem_toList_iff] at hp
  exact hc.points p hp

lemma collapse_getD {x : Option Binary64} (h : ∀ y ∈ x, y.collapse = y) :
    (x.getD .zero).collapse = x.getD .zero := by
  cases x with
  | none => rfl
  | some y => exact h y rfl

lemma settled_of_points {c : Composite} {v : SampleValue} (hv : v.collapse = v)
    (hp : v.points = Block.sortPoints c.points)
    (hr : Block.hasRepeat (Block.sortPoints c.points) = false) : v.Settled := by
  rw [← hp] at hr
  exact ⟨hv, hp.symm ▸ sortPoints_sorted c.points, hr⟩

lemma Composite.Settled.histogramSample {c : Composite} (hc : c.Settled) {s : Sample}
    (h : b.histogramSample c = .ok s) : s.value.Settled := by
  obtain ⟨ps, hps, h⟩ := bind_eq_ok_iff.mp h
  obtain rfl := Except.ok.inj h
  obtain ⟨hr, rfl⟩ := orderedPoints_eq_ok_iff.mp hps
  refine settled_of_points ?_ (map_point_bucket _) hr
  simp only [SampleValue.collapse, collapse_getD hc.sum, collapse_getD hc.count, List.map_map]
  congr 1
  refine List.map_congr_left fun p hp => ?_
  obtain ⟨hbound, hcount⟩ := hc.mem_sortPoints hp
  simp [Bucket.collapse, hbound, hcount]

lemma Composite.Settled.summarySample {c : Composite} (hc : c.Settled) {s : Sample}
    (h : b.summarySample c = .ok s) : s.value.Settled := by
  obtain ⟨ps, hps, h⟩ := bind_eq_ok_iff.mp h
  obtain rfl := Except.ok.inj h
  obtain ⟨hr, rfl⟩ := orderedPoints_eq_ok_iff.mp hps
  refine settled_of_points ?_ (map_point_quantile _) hr
  simp only [SampleValue.collapse, collapse_getD hc.sum, collapse_getD hc.count, List.map_map]
  congr 1
  refine List.map_congr_left fun p hp => ?_
  obtain ⟨hquantile, hvalue⟩ := hc.mem_sortPoints hp
  simp [Quantile.collapse, hquantile, hvalue]

lemma Block.Settled.allSamples (hb : b.Settled) {ss : List Sample} (h : b.allSamples = .ok ss) :
    ∀ s ∈ ss, s.value.Settled := by
  intro s hs
  unfold Block.allSamples at h
  split at h
  · obtain ⟨c, hc, hsample⟩ := mem_of_mapM_eq_ok h s hs
    exact (hb.composites c hc).histogramSample hsample
  · obtain ⟨c, hc, hsample⟩ := mem_of_mapM_eq_ok h s hs
    exact (hb.composites c hc).summarySample hsample
  all_goals
    obtain rfl := Except.ok.inj h
    exact hb.samples s (Array.mem_toList_iff.mp hs)

lemma build_eq_ok_iff {f : Family} : b.build = .ok f ↔ ∃ ss, b.allSamples = .ok ss ∧
    f = ⟨b.name, b.help.getD "", b.kind, ss⟩ ∧ f.Valid := by
  rw [Block.build, bind_eq_ok_iff]
  simp only [check_bind_eq_ok_iff, mapError_eq_ok_iff, Family.validate_eq_ok_iff]
  constructor
  · rintro ⟨ss, hss, hvalid, hf⟩
    obtain rfl := Except.ok.inj hf
    exact ⟨ss, hss, rfl, hvalid⟩
  · rintro ⟨ss, hss, rfl, hvalid⟩
    exact ⟨ss, hss, hvalid, rfl⟩

lemma Block.Settled.build (hb : b.Settled) {f : Family} (h : b.build = .ok f) : f.Settled := by
  obtain ⟨ss, hss, rfl, hvalid⟩ := build_eq_ok_iff.mp h
  refine ⟨hvalid, ?_, hb.allSamples hss⟩
  cases hhelp : b.help with
  | none => exact ⟨by simp [Text.escapeHelp], by simp [Text.escapeHelp]⟩
  | some text => exact hb.help text hhelp

end Blocks

section Assemblies

variable {a a' : Assembly} {n : Nat}

/-- The names of the families, the open block's last. -/
def Assembly.names (a : Assembly) : List String :=
  a.finished.toList.map Family.name ++ a.open?.toList.map Block.name

structure Assembly.Settled (a : Assembly) : Prop where
  families : ∀ f ∈ a.finished, f.Settled
  block : ∀ b ∈ a.open?, b.Settled
  names : a.names.Nodup

lemma settled_empty (name : String) (start : Nat) : (Block.empty name start).Settled :=
  ⟨by simp [Block.empty], by simp [Block.empty], by simp [Block.empty]⟩

lemma names_of_close {fs : Array Family} (h : a.close = .ok fs) :
    fs.toList.map Family.name = a.names := by
  unfold Assembly.close at h
  unfold Assembly.names
  split at h
  · next hopen =>
    obtain rfl := Except.ok.inj h
    simp [hopen]
  · next b hopen =>
    split at h
    · next f hf =>
      obtain rfl := Except.ok.inj h
      obtain ⟨ss, -, rfl, -⟩ := build_eq_ok_iff.mp hf
      simp [hopen]
    · cases h

lemma Assembly.Settled.close (ha : a.Settled) {fs : Array Family} (h : a.close = .ok fs) :
    ∀ f ∈ fs, f.Settled := by
  unfold Assembly.close at h
  split at h
  · obtain rfl := Except.ok.inj h
    exact ha.families
  · next b hopen =>
    split at h
    · next f hf =>
      obtain rfl := Except.ok.inj h
      intro g hg
      rcases Array.mem_push.mp hg with hg | rfl
      · exact ha.families g hg
      · exact (ha.block b hopen).build hf
    · cases h

lemma enter_open {name : String} {b : Block} (ho : a.open? = some b) (hb : b.name = name) :
    a.enter n name = .ok (a.finished, b) := by
  unfold Assembly.enter
  rw [ho]
  simp only [hb, if_true]
  rfl

lemma enter_new {name : String} (ho : ∀ b ∈ a.open?, b.name ≠ name) :
    a.enter n name = if a.hasFinished name then .error ⟨n, .repeatedBlock name⟩
      else a.close.map fun fs => (fs, .empty name n) := by
  unfold Assembly.enter
  cases hopen : a.open? with
  | none =>
    simp only
    split_ifs
    · rfl
    · cases a.close <;> rfl
  | some b =>
    simp only [if_neg (ho b hopen)]
    split_ifs
    · rfl
    · cases a.close <;> rfl

lemma hasFinished_eq_false_iff {name : String} :
    a.hasFinished name = false ↔ name ∉ a.finished.toList.map Family.name := by
  rw [Assembly.hasFinished, ← Array.any_toList, List.any_eq_false]
  simp

lemma enter_start (name : String) : Assembly.start.enter n name = .ok (#[], .empty name n) := by
  have hnew : Assembly.start.hasFinished name = false :=
    hasFinished_eq_false_iff.mpr (by simp [Assembly.start])
  rw [enter_new (by simp [Assembly.start]), hnew]
  rfl

/-- Either the block is the open one, or the open one is closed and the name is new. -/
lemma enter_eq_ok {name : String} {fs : Array Family} {b : Block}
    (h : a.enter n name = .ok (fs, b)) :
    b.name = name ∧ (a.open? = some b ∧ fs = a.finished ∨
      a.close = .ok fs ∧ b = .empty name n ∧ name ∉ a.names) := by
  by_cases ho : ∀ c ∈ a.open?, c.name ≠ name
  · rw [enter_new ho] at h
    split_ifs at h with hfinished
    obtain ⟨fs', hclose, heq⟩ := map_eq_ok_iff.mp h
    obtain ⟨rfl, rfl⟩ := Prod.mk.inj heq
    refine ⟨rfl, .inr ⟨hclose, rfl, ?_⟩⟩
    rw [Bool.not_eq_true, hasFinished_eq_false_iff] at hfinished
    simp only [Assembly.names, List.mem_append, not_or]
    refine ⟨hfinished, fun hm => ?_⟩
    obtain ⟨c, hc, hname⟩ := List.mem_map.mp hm
    exact ho c (Option.mem_toList.mp hc) hname
  · simp only [not_forall, not_not] at ho
    obtain ⟨c, hc, hname⟩ := ho
    rw [enter_open hc hname] at h
    obtain ⟨rfl, rfl⟩ := Prod.mk.inj (Except.ok.inj h)
    exact ⟨hname, .inl ⟨hc, rfl⟩⟩

lemma amend_eq_ok_iff {name : String} {f : Block → Except ParseCause Block} :
    a.amend n name f = .ok a' ↔
      ∃ fs b b', a.enter n name = .ok (fs, b) ∧ f b = .ok b' ∧ a' = ⟨fs, some b'⟩ := by
  rw [Assembly.amend, bind_eq_ok_iff]
  constructor
  · rintro ⟨⟨fs, b⟩, hb, h⟩
    dsimp only at h
    split at h
    · next b' hb' => exact ⟨fs, b, b', hb, hb', (Except.ok.inj h).symm⟩
    · cases h
  · rintro ⟨fs, b, b', hb, hb', rfl⟩
    refine ⟨(fs, b), hb, ?_⟩
    simp only [hb']
    rfl

lemma Assembly.Settled.amend (ha : a.Settled) {name : String}
    {f : Block → Except ParseCause Block} (hname : ∀ b b', f b = .ok b' → b'.name = b.name)
    (hf : ∀ b b', b.Settled → f b = .ok b' → b'.Settled)
    (h : a.amend n name f = .ok a') : a'.Settled := by
  obtain ⟨fs, b, b', henter, hb', rfl⟩ := amend_eq_ok_iff.mp h
  obtain ⟨-, ⟨hopen, rfl⟩ | ⟨hclose, rfl, hnew⟩⟩ := enter_eq_ok henter
  · -- the open block was changed and kept its name
    refine ⟨ha.families, ?_, ?_⟩
    · rintro c ⟨⟩
      exact hf b b' (ha.block b hopen) hb'
    · have hnames := ha.names
      unfold Assembly.names at hnames ⊢
      simpa [hopen, hname b b' hb'] using hnames
  · -- the open block became a family, and the new one has a name of its own
    refine ⟨ha.close hclose, ?_, ?_⟩
    · rintro c ⟨⟩
      exact hf _ b' (settled_empty name n) hb'
    · have hb := hname _ b' hb'
      unfold Assembly.names
      rw [names_of_close hclose, Option.toList_some, List.map_singleton, hb]
      refine List.nodup_append.mpr ⟨ha.names, List.pairwise_singleton _ _, ?_⟩
      intro x hx y hy hxy
      rw [hxy, List.mem_singleton.mp hy] at hx
      exact hnew hx

lemma Assembly.Settled.file (ha : a.Settled) {line : Line} (hl : line.Settled)
    (h : a.file n line = .ok a') : a'.Settled := by
  cases line with
  | skip =>
    obtain rfl := Except.ok.inj h
    exact ha
  | help family text =>
    rw [Assembly.file] at h
    refine ha.amend (fun b b' h => ?_) (fun b b' hb h => ?_) h
    · rw [setHelp_eq_ok h]
    · rw [setHelp_eq_ok h]
      refine ⟨?_, hb.samples, hb.composites⟩
      rintro t ⟨⟩
      exact hl
  | type family t =>
    rw [Assembly.file] at h
    refine ha.amend (fun b b' h => ?_) (fun b b' hb h => ?_) h
    · rw [(setType_eq_ok h).2]
    · rw [(setType_eq_ok h).2]
      exact ⟨hb.help, hb.samples, hb.composites⟩
  | series l =>
    exact ha.amend (fun b b' h => name_of_addSeries h) (fun b b' hb h => hb.addSeries hl h) h

lemma settled_start : Assembly.start.Settled :=
  ⟨by simp [Assembly.start], by simp [Assembly.start], by simp [Assembly.start, Assembly.names]⟩

lemma fileText_eq_ok_iff {cs : List Char} {r : Nat × Assembly} :
    fileText (n, a) cs = .ok r ↔
      ∃ line a', readLine cs = .ok line ∧ a.file n line = .ok a' ∧ (n + 1, a') = r := by
  unfold fileText
  cases hline : readLine cs with
  | error cause => simp
  | ok line => simp only [map_eq_ok_iff, Except.ok.injEq, exists_and_left, exists_eq_left']

/-- What holds of the lines that were filed, whatever lines come next. -/
lemma Assembly.Settled.fileAll {ls : List (List Char)} {n' : Nat} (ha : a.Settled)
    (hls : ∀ cs ∈ ls, '\n' ∉ cs) (h : ls.foldlM fileText (n, a) = .ok (n', a')) : a'.Settled := by
  induction ls generalizing n a with
  | nil =>
    obtain ⟨-, rfl⟩ := Prod.mk.inj (Except.ok.inj h)
    exact ha
  | cons cs ls ih =>
    obtain ⟨hcs, hls⟩ := List.forall_mem_cons.mp hls
    rw [List.foldlM_cons, bind_eq_ok_iff] at h
    obtain ⟨⟨n₁, a₁⟩, hfile, h⟩ := h
    obtain ⟨line, a₂, hline, ha₂, heq⟩ := fileText_eq_ok_iff.mp hfile
    obtain ⟨-, rfl⟩ := Prod.mk.inj heq
    exact ih (ha.file (settled_of_readLine hline hcs) ha₂) hls h

end Assemblies

lemma newline_notMem_lines (text : String) : ∀ cs ∈ lines text, '\n' ∉ cs := by
  unfold lines
  induction text.toList with
  | nil => simp
  | cons c cs ih =>
    rw [List.splitOn_cons_eq_if_modifyHead]
    split_ifs with hc
    · exact List.forall_mem_cons.mpr ⟨List.not_mem_nil, ih⟩
    · cases hsplit : cs.splitOn '\n' with
      | nil => simp
      | cons line ls =>
        rw [hsplit] at ih
        obtain ⟨hline, hls⟩ := List.forall_mem_cons.mp ih
        refine List.forall_mem_cons.mpr ⟨?_, hls⟩
        rw [List.mem_cons, not_or]
        exact ⟨fun he => hc (by simp [he.symm]), hline⟩

lemma parse_of_close {text : String} {n : Nat} {a : Assembly} {fs : Array Family}
    (hlines : (lines text).foldlM fileText (1, .start) = .ok (n, a)) (hclose : a.close = .ok fs) :
    parse text = .ok fs.toList := by
  rw [parse, hlines]
  change (a.close >>= _) = _
  rw [hclose]
  rfl

theorem settled_of_parse {text : String} {fs : List Family} (h : parse text = .ok fs) :
    (∀ f ∈ fs, f.Settled) ∧ (fs.map Family.name).Nodup := by
  obtain ⟨⟨n, a⟩, hlines, h⟩ := bind_eq_ok_iff.mp h
  obtain ⟨families, hclose, h⟩ := bind_eq_ok_iff.mp h
  obtain rfl := Except.ok.inj h
  have ha := settled_start.fileAll (newline_notMem_lines text) hlines
  refine ⟨fun f hf => ha.close hclose f (Array.mem_toList_iff.mp hf), ?_⟩
  rw [names_of_close hclose]
  exact ha.names

end Exposition

end PushGateway
