import PushGateway.Proofs.SampleReadings

/-! Where the sample lines of a payload go. Each is filed once, into the block of its heading, and
no other line changes what the lines of a block say. -/

namespace PushGateway.Exposition

section Blocks

/-- A type whose lines are gathered by their labels. -/
def Composed (t : MetricType) : Prop := t ∈ [MetricType.summary, .histogram]

instance (t : MetricType) : Decidable (Composed t) := inferInstanceAs (Decidable (_ ∈ _))

def Block.heading (b : Block) : Heading := ⟨b.name, b.kind⟩

/-- What the lines said that a composite was gathered from. -/
def Composite.given (h : Heading) (c : Composite) : List Reading :=
  c.points.toList.map (h.point c.labels) ++
    (c.sum.toList.map (h.total (sumName h.family) c.labels) ++
      c.count.toList.map (h.total (countName h.family) c.labels))

/-- What the lines of a block said. -/
def Block.given (b : Block) : List Reading :=
  if Composed b.kind then b.composites.flatMap (Composite.given b.heading)
  else b.samples.toList.flatMap b.heading.written

variable {b b' : Block} {l : SeriesLine} {labels : Labels} {r : Role} {metric : String}

lemma composed_of_role {t : MetricType} (hr : r ∈ rolesOf t) (h : r ≠ .plain) : Composed t := by
  revert hr h
  cases t <;> cases r <;> decide

lemma role?_suffix (hr : r ∈ rolesOf b.kind) : b.role? (b.name ++ r.suffix) = some r := by
  cases r with
  | plain | quantile =>
    unfold Block.role?
    revert hr
    cases b.kind <;> simp [rolesOf, Role.suffix]
  | bucket =>
    refine role?_bucketName ?_
    revert hr
    cases b.kind <;> decide
  | sum =>
    refine role?_sumName ?_
    revert hr
    cases b.kind <;> decide
  | count =>
    refine role?_countName ?_
    revert hr
    cases b.kind <;> decide

lemma eq_suffix_of_role? (h : b.role? metric = some r) : metric = b.name ++ r.suffix := by
  unfold Block.role? at h
  split at h
  all_goals
    split_ifs at h
    all_goals
      obtain rfl := Option.some.inj h
      simp_all [Role.suffix, bucketName, sumName, countName]

/-- A histogram gives its own name a role that none of its lines has. -/
lemma mem_rolesOf (h : b.role? metric = some r) (hr : r = .plain → ¬Composed b.kind) :
    r ∈ rolesOf b.kind := by
  unfold Block.role? at h
  split at h
  all_goals
    split_ifs at h
    all_goals
      obtain rfl := Option.some.inj h
      simp_all [rolesOf, Composed]

lemma heading_role?_eq_some_iff :
    b.heading.role? metric = some r ↔ b.role? metric = some r ∧ r ∈ rolesOf b.kind := by
  rw [Heading.role?_eq_some_iff]
  constructor
  · rintro ⟨hr, rfl⟩
    exact ⟨role?_suffix hr, hr⟩
  · rintro ⟨h, hr⟩
    exact ⟨hr, eq_suffix_of_role? h⟩

/-- The composite that `update` changes. -/
def Block.target (b : Block) (labels : Labels) : Composite :=
  (b.composite? labels).getD ⟨labels, #[], none, none, none⟩

lemma labels_target : (b.target labels).labels = labels := by
  unfold Block.target Block.composite?
  cases hc : b.composites.find? fun c => c.labels == labels with
  | none => rfl
  | some c => simpa using List.find?_some hc

lemma flatMap_updateComposite {A : Type} {g : Composite → List A} {cs : List Composite}
    {f : Composite → Composite} {x : A}
    (hnew : g ⟨labels, #[], none, none, none⟩ = [])
    (h : let c := (cs.find? fun c => c.labels == labels).getD ⟨labels, #[], none, none, none⟩
      (g (f c)).Perm (x :: g c)) :
    ((Block.updateComposite labels f cs).flatMap g).Perm (x :: cs.flatMap g) := by
  induction cs with
  | nil => simpa [Block.updateComposite, hnew] using h
  | cons c cs ih =>
    rw [Block.updateComposite]
    by_cases hc : c.labels = labels
    · rw [if_pos hc]
      rw [List.find?_cons_of_pos (by simpa using hc)] at h
      exact h.append_right _
    · rw [if_neg hc]
      rw [List.find?_cons_of_neg (by simpa using hc)] at h
      exact ((ih h).append_left (g c)).trans List.perm_middle

lemma sum_target : (b.target labels).sum = (b.composite? labels).bind Composite.sum := by
  unfold Block.target
  cases b.composite? labels <;> rfl

lemma count_target : (b.target labels).count = (b.composite? labels).bind Composite.count := by
  unfold Block.target
  cases b.composite? labels <;> rfl

/-- A line that is filed under a composite says one thing more. -/
lemma given_update {f : Composite → Composite} {x : Reading} (hkind : Composed b.kind)
    (h : ((f (b.target labels)).given b.heading).Perm (x :: (b.target labels).given b.heading)) :
    (b.update labels f).given.Perm (x :: b.given) := by
  have hkind' : Composed (b.update labels f).kind := hkind
  rw [Block.given, Block.given, if_pos hkind, if_pos hkind']
  exact flatMap_updateComposite rfl h

lemma given_addPoint {label : String} (hr : b.heading.role? l.metric = some r)
    (hb : r.bound? = some label) (h : b.addPoint label l = .ok b') :
    b'.given.Perm (l.reading b.heading :: b.given) := by
  obtain ⟨hrole, hmetric⟩ := Heading.role?_eq_some_iff.mp hr
  have hkind : Composed b.kind := composed_of_role hrole (by rintro rfl; cases hb)
  rw [← pointName_eq hrole hb] at hmetric
  unfold Block.addPoint at h
  dsimp only at h
  split at h
  · cases h
  · next raw hraw =>
    split at h
    · cases h
    · next bound hbound =>
      obtain rfl := Except.ok.inj h
      refine given_update hkind ?_
      have hreading : l.reading b.heading
          = b.heading.point ((SortedMap.ofList l.labels : Labels).erase label) (bound, l.value) := by
        rw [reading_of_bound hr hb, hraw, Option.bind_some, hbound, hmetric]
        rfl
      rw [hreading]
      simp only [Composite.given, labels_target, Array.toList_push, List.map_append, List.map_cons,
        List.map_nil, List.append_assoc]
      exact List.perm_middle

lemma given_addSum (hr : b.heading.role? l.metric = some .sum) (h : b.addSum l = .ok b') :
    b'.given.Perm (l.reading b.heading :: b.given) := by
  obtain ⟨hrole, hmetric⟩ := Heading.role?_eq_some_iff.mp hr
  unfold Block.addSum at h
  dsimp only at h
  split_ifs at h with hsum
  obtain rfl := Except.ok.inj h
  refine given_update (composed_of_role hrole nofun) ?_
  rw [Option.not_isSome_iff_eq_none, ← sum_target] at hsum
  rw [reading_total hr rfl, hmetric]
  simp only [Composite.given, labels_target, hsum, Option.toList_some, Option.toList_none,
    List.map_cons, List.map_nil, List.nil_append]
  exact List.perm_middle

lemma given_addCount (hr : b.heading.role? l.metric = some .count) (h : b.addCount l = .ok b') :
    b'.given.Perm (l.reading b.heading :: b.given) := by
  obtain ⟨hrole, hmetric⟩ := Heading.role?_eq_some_iff.mp hr
  unfold Block.addCount at h
  dsimp only at h
  split_ifs at h with hcount
  obtain rfl := Except.ok.inj h
  refine given_update (composed_of_role hrole nofun) ?_
  rw [Option.not_isSome_iff_eq_none, ← count_target] at hcount
  rw [reading_total hr rfl, hmetric]
  simp only [Composite.given, labels_target, hcount, Option.toList_some, Option.toList_none,
    List.map_cons, List.map_nil, List.append_nil, ← List.append_assoc]
  exact List.perm_append_singleton _ _

lemma seriesLines_scalar (family : String) (labels : Labels) (t : MetricType) (x : Binary64)
    (timestamp : Option Int64) : seriesLines family ⟨labels, .scalar t x, timestamp⟩
      = [⟨family, labels.entries, x, timestamp⟩] := by
  cases t <;> rfl

lemma given_addPlain (hr : b.heading.role? l.metric = some .plain) :
    (b.addPlain l).given.Perm (l.reading b.heading :: b.given) := by
  obtain ⟨hrole, hmetric⟩ := Heading.role?_eq_some_iff.mp hr
  rw [Role.suffix, String.append_empty] at hmetric
  have hwritten : b.heading.written ⟨SortedMap.ofList l.labels, .scalar b.kind l.value, l.timestamp⟩
      = [l.reading b.heading] := by
    rw [Heading.written, seriesLines_scalar, List.map_singleton, ← hmetric, reading_entries hr rfl,
      reading_total hr rfl]
  have hgiven : (b.addPlain l).samples.toList.flatMap b.heading.written
      = b.samples.toList.flatMap b.heading.written ++ [l.reading b.heading] := by
    rw [← hwritten]
    simp [Block.addPlain]
  have hscalar : ¬Composed b.kind := scalar_of_plain hrole
  have hscalar' : ¬Composed (b.addPlain l).kind := hscalar
  rw [Block.given, Block.given, if_neg hscalar, if_neg hscalar']
  exact hgiven ▸ List.perm_append_singleton _ _

lemma heading_addSeries (h : b.addSeries l = .ok b') : b'.heading = b.heading := by
  rcases addSeries_cases h with rfl | ⟨labels, f, rfl, -⟩
  · rfl
  · rfl

/-- A line of a metric of the block is filed there once. -/
lemma given_addSeries (hm : (b.role? l.metric).isSome = true) (h : b.addSeries l = .ok b') :
    (b.heading.role? l.metric).isSome = true ∧ b'.given.Perm (l.reading b.heading :: b.given) := by
  obtain ⟨r, hr⟩ := Option.isSome_iff_exists.mp hm
  have hplain : r = .plain → ¬Composed b.kind ∧ b' = b.addPlain l := by
    rintro rfl
    unfold Block.addSeries at h
    rw [hr] at h
    unfold Composed
    cases hk : b.kind <;> simp_all
  have hrole := heading_role?_eq_some_iff.mpr ⟨hr, mem_rolesOf hr fun he => (hplain he).1⟩
  refine ⟨Option.isSome_iff_exists.mpr ⟨r, hrole⟩, ?_⟩
  cases r with
  | plain =>
    rw [(hplain rfl).2]
    exact given_addPlain hrole
  | bucket =>
    simp only [Block.addSeries, hr] at h
    exact given_addPoint hrole rfl h
  | quantile =>
    simp only [Block.addSeries, hr] at h
    exact given_addPoint hrole rfl h
  | sum =>
    simp only [Block.addSeries, hr] at h
    exact given_addSum hrole h
  | count =>
    simp only [Block.addSeries, hr] at h
    exact given_addCount hrole h

end Blocks

section Assemblies

def Assembly.heading? (a : Assembly) : Option Heading := a.open?.map Block.heading

/-- The readings are those of the blocks that became families and of the open one. -/
structure Assembly.Accounts (a : Assembly) (closed : List (Block × Family))
    (rs : List Reading) : Prop where
  built : ∀ p ∈ closed, p.1.build = .ok p.2
  families : closed.map Prod.snd = a.finished.toList
  perm : rs.Perm ((closed.map Prod.fst ++ a.open?.toList).flatMap Block.given)

variable {a a' : Assembly} {closed : List (Block × Family)} {rs more : List Reading} {n : Nat}
  {name : String} {fs : Array Family} {b b' : Block} {line : Line}

lemma accounts_start : Assembly.start.Accounts [] [] :=
  ⟨by simp, rfl, .nil⟩

lemma Assembly.Accounts.close (h : a.Accounts closed rs) (hc : a.close = .ok fs) :
    ∃ closed', Assembly.Accounts ⟨fs, none⟩ closed' rs := by
  unfold Assembly.close at hc
  split at hc
  · next ho =>
    obtain rfl := Except.ok.inj hc
    have hperm := h.perm
    rw [ho] at hperm
    exact ⟨closed, h.built, h.families, hperm⟩
  · next b ho =>
    split at hc
    · next f hf =>
      obtain rfl := Except.ok.inj hc
      refine ⟨closed ++ [(b, f)], ?_, ?_, ?_⟩
      · intro p hp
        rcases List.mem_append.mp hp with hp | hp
        · exact h.built p hp
        · obtain rfl := List.mem_singleton.mp hp
          exact hf
      · simp [h.families]
      · have hperm := h.perm
        rw [ho] at hperm
        simpa using hperm
    · cases hc

lemma given_eq_nil (hs : b.hasSamples = false) : b.given = [] := by
  have hempty : b.samples = #[] ∧ b.composites = [] := by simpa [Block.hasSamples] using hs
  rw [Block.given, hempty.1, hempty.2]
  split_ifs <;> rfl

/-- The block of the named family has all that was filed under it before. -/
lemma Assembly.Accounts.enter (h : a.Accounts closed rs) (he : a.enter n name = .ok (fs, b)) :
    ∃ closed', Assembly.Accounts ⟨fs, some b⟩ closed' rs := by
  obtain ⟨-, ⟨ho, rfl⟩ | ⟨hc, rfl, -⟩⟩ := enter_eq_ok he
  · exact ⟨closed, h.built, h.families, ho ▸ h.perm⟩
  · obtain ⟨closed', hclosed⟩ := h.close hc
    have hnone : (Block.empty name n).given = [] := given_eq_nil rfl
    refine ⟨closed', hclosed.built, hclosed.families, ?_⟩
    simpa [hnone] using hclosed.perm

lemma Assembly.Accounts.change (h : Assembly.Accounts ⟨fs, some b⟩ closed rs)
    (hb : b'.given.Perm (b.given ++ more)) :
    Assembly.Accounts ⟨fs, some b'⟩ closed (rs ++ more) := by
  refine ⟨h.built, h.families, ?_⟩
  have hperm := h.perm
  simp only [Option.toList_some, List.flatMap_append, List.flatMap_singleton] at hperm ⊢
  calc (rs ++ more).Perm _ := hperm.append_right more
    _ = (closed.map Prod.fst).flatMap Block.given ++ (b.given ++ more) := List.append_assoc ..
    List.Perm _ _ := hb.symm.append_left _

lemma heading_of_enter (he : a.enter n name = .ok (fs, b)) :
    b.heading = Heading.ofFamily a.heading? name := by
  obtain ⟨hname, ⟨ho, -⟩ | ⟨-, rfl, hnew⟩⟩ := enter_eq_ok he
  · have hfamily : (b.heading.family == name) = true := beq_iff_eq.mpr hname
    rw [Assembly.heading?, ho, Option.map_some, Heading.ofFamily, Option.filter_some,
      if_pos hfamily, Option.getD_some]
  · have hnone : a.heading?.filter (fun h => h.family == name) = none := by
      refine Option.filter_eq_none_iff.mpr fun h hh heq => hnew ?_
      obtain ⟨c, hc, rfl⟩ := Option.map_eq_some_iff.mp hh
      refine List.mem_append_right _ (List.mem_map.mpr ⟨c, Option.mem_toList.mpr hc, ?_⟩)
      exact beq_iff_eq.mp heq
    rw [Heading.ofFamily, hnone]
    rfl

/-- A series goes to the block of its heading, which has a part for it. -/
lemma heading_of_owner {metric : String} (he : a.enter n (a.owner metric) = .ok (fs, b)) :
    (b.role? metric).isSome = true ∧ ((b.heading.role? metric).isSome = true →
      b.heading = Heading.ofMetric a.heading? metric) := by
  by_cases hopen : ∃ c ∈ a.open?, (c.role? metric).isSome = true
  · obtain ⟨c, ho, hc⟩ := hopen
    have howner : a.owner metric = c.name := by
      unfold Assembly.owner
      rw [ho]
      exact if_pos hc
    rw [howner, enter_open ho rfl] at he
    obtain ⟨-, rfl⟩ := Prod.mk.inj (Except.ok.inj he)
    refine ⟨hc, fun hrole => ?_⟩
    rw [Assembly.heading?, ho, Option.map_some, Heading.ofMetric_of_role? hrole]
  · push Not at hopen
    have howner : a.owner metric = metric := by
      unfold Assembly.owner
      cases ho : a.open? with
      | none => rfl
      | some c => exact if_neg (hopen c ho)
    rw [howner] at he
    obtain ⟨rfl, ⟨ho, -⟩ | ⟨-, hb, -⟩⟩ := enter_eq_ok he
    · exact absurd (role?_name b) (hopen b ho)
    · refine ⟨role?_name b, fun _ => ?_⟩
      have hnone : a.heading?.filter (fun h => (h.role? b.name).isSome) = none := by
        refine Option.filter_eq_none_iff.mpr fun h hh hrole => ?_
        obtain ⟨c, hc, rfl⟩ := Option.map_eq_some_iff.mp hh
        obtain ⟨r, hr⟩ := Option.isSome_iff_exists.mp hrole
        exact hopen c hc (Option.isSome_iff_exists.mpr ⟨r, (heading_role?_eq_some_iff.mp hr).1⟩)
      rw [Heading.ofMetric, hnone, hb]
      rfl

/-- A line says nothing that its block has not, except for the one thing a sample line says. -/
lemma Assembly.Accounts.file (h : a.Accounts closed rs) (hf : a.file n line = .ok a') :
    a'.heading? = Heading.after a.heading? line ∧
      ∃ closed', a'.Accounts closed' (rs ++ (line.reading? a'.heading?).toList) := by
  cases line with
  | skip =>
    obtain rfl := Except.ok.inj hf
    exact ⟨rfl, closed, (List.append_nil rs).symm ▸ h⟩
  | help family text =>
    rw [Assembly.file] at hf
    obtain ⟨fs, b, b', he, hb, rfl⟩ := amend_eq_ok_iff.mp hf
    obtain rfl := setHelp_eq_ok hb
    obtain ⟨closed', hclosed⟩ := h.enter he
    have hheading := heading_of_enter he
    refine ⟨congrArg some hheading, closed', hclosed.change ?_⟩
    exact .of_eq (List.append_nil _).symm
  | type family t =>
    rw [Assembly.file] at hf
    obtain ⟨fs, b, b', he, hb, rfl⟩ := amend_eq_ok_iff.mp hf
    obtain ⟨hempty, rfl⟩ := setType_eq_ok hb
    obtain ⟨closed', hclosed⟩ := h.enter he
    obtain ⟨rfl, -⟩ := enter_eq_ok he
    refine ⟨rfl, closed', hclosed.change ?_⟩
    rw [given_eq_nil hempty, given_eq_nil (b := { b with type := some t }) hempty]
    exact .nil
  | series l =>
    rw [Assembly.file] at hf
    obtain ⟨fs, b, b', he, hb, rfl⟩ := amend_eq_ok_iff.mp hf
    obtain ⟨closed', hclosed⟩ := h.enter he
    obtain ⟨hm, hheading⟩ := heading_of_owner he
    obtain ⟨hrole, hgiven⟩ := given_addSeries hm hb
    have hsame := heading_addSeries hb
    refine ⟨congrArg some (hsame.trans (hheading hrole)), closed', hclosed.change ?_⟩
    have hreading : (Line.reading? (some b'.heading) (.series l)).toList
        = [l.reading b.heading] := by
      rw [hsame]
      rfl
    exact hreading ▸ hgiven.trans (List.perm_append_singleton _ _).symm

/-- The sample lines that were read are those that were filed, each once. -/
lemma Assembly.Accounts.fileAll {ls : List (List Char)} {n' : Nat} (h : a.Accounts closed rs)
    (hf : ls.foldlM fileText (n, a) = .ok (n', a')) :
    ∃ closed', a'.Accounts closed' (rs ++ readings a.heading? (readableLines ls)) := by
  induction ls generalizing n a closed rs with
  | nil =>
    obtain ⟨-, rfl⟩ := Prod.mk.inj (Except.ok.inj hf)
    exact ⟨closed, (List.append_nil rs).symm ▸ h⟩
  | cons cs ls ih =>
    rw [List.foldlM_cons, bind_eq_ok_iff] at hf
    obtain ⟨⟨n₁, a₁⟩, hfile, hf⟩ := hf
    obtain ⟨line, a₂, hline, hstep, heq⟩ := fileText_eq_ok_iff.mp hfile
    obtain ⟨-, rfl⟩ := Prod.mk.inj heq
    obtain ⟨hheading, closed₁, haccounts⟩ := h.file hstep
    obtain ⟨closed', hclosed⟩ := ih haccounts hf
    refine ⟨closed', ?_⟩
    rw [readableLines_cons hline, readings, ← hheading, ← List.append_assoc]
    exact hclosed

lemma exists_line_of_foldlM {ls : List (List Char)} {r : Nat × Assembly}
    (h : ls.foldlM fileText (n, a) = .ok r) : ∀ cs ∈ ls, ∃ line, readLine cs = .ok line := by
  induction ls generalizing n a with
  | nil => simp
  | cons cs ls ih =>
    rw [List.foldlM_cons, bind_eq_ok_iff] at h
    obtain ⟨⟨n₁, a₁⟩, hfile, h⟩ := h
    obtain ⟨line, -, hline, -⟩ := fileText_eq_ok_iff.mp hfile
    exact List.forall_mem_cons.mpr ⟨⟨line, hline⟩, ih h⟩

/-- No line of an accepted payload is passed over. -/
lemma exists_line_of_parse {text : String} {families : List Family}
    (h : parse text = .ok families) : ∀ cs ∈ lines text, ∃ line, readLine cs = .ok line := by
  obtain ⟨r, hlines, -⟩ := bind_eq_ok_iff.mp h
  exact exists_line_of_foldlM hlines

/-- Each family of an accepted payload has the sample lines of one block. -/
lemma exists_blocks_of_parse {text : String} {families : List Family}
    (h : parse text = .ok families) : ∃ closed : List (Block × Family),
      (∀ p ∈ closed, p.1.build = .ok p.2) ∧ closed.map Prod.snd = families ∧
        (sampleReadings text).Perm ((closed.map Prod.fst).flatMap Block.given) := by
  obtain ⟨⟨n, a⟩, hlines, h⟩ := bind_eq_ok_iff.mp h
  obtain ⟨fs, hclose, h⟩ := bind_eq_ok_iff.mp h
  obtain rfl := Except.ok.inj h
  obtain ⟨closed, haccounts⟩ := accounts_start.fileAll hlines
  obtain ⟨closed', hclosed⟩ := haccounts.close hclose
  refine ⟨closed', hclosed.built, hclosed.families, ?_⟩
  have hperm := hclosed.perm
  rw [Option.toList_none, List.append_nil] at hperm
  exact hperm

end Assemblies

end PushGateway.Exposition
