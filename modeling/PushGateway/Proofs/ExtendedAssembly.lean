import PushGateway.Proofs.ParsedFamilies

/-! What lines do after families they have nothing to do with. As long as no line goes to a family
that is finished, the lines are accepted or refused as they are without those families, and what
they make comes after them. -/

namespace PushGateway

section Matching

variable {E A A' B B' : Type} {R : A → B → Prop} {S : A' → B' → Prop} {x : Except E A}
  {y : Except E B}

/-- Two computations that fail together or have related results. -/
structure Matched (R : A → B → Prop) (x : Except E A) (y : Except E B) : Prop where
  forth : ∀ a, x = .ok a → ∃ b, y = .ok b ∧ R a b
  back : ∀ b, y = .ok b → ∃ a, x = .ok a ∧ R a b

lemma Matched.ok {a : A} {b : B} (h : R a b) : Matched R (.ok a : Except E A) (.ok b) := by
  refine ⟨fun a' ha => ⟨b, rfl, ?_⟩, fun b' hb => ⟨a, rfl, ?_⟩⟩
  · exact Except.ok.inj ha ▸ h
  · exact Except.ok.inj hb ▸ h

lemma Matched.error (e e' : E) : Matched R (.error e) (.error e') :=
  ⟨fun _ h => (nomatch h), fun _ h => (nomatch h)⟩

lemma Matched.map {f : A → A'} {g : B → B'} (h : Matched R x y)
    (hfg : ∀ a b, R a b → S (f a) (g b)) : Matched S (x.map f) (y.map g) := by
  constructor
  · intro a' ha'
    obtain ⟨a, ha, rfl⟩ := map_eq_ok_iff.mp ha'
    obtain ⟨b, hb, hab⟩ := h.forth a ha
    exact ⟨g b, map_eq_ok_iff.mpr ⟨b, hb, rfl⟩, hfg a b hab⟩
  · intro b' hb'
    obtain ⟨b, hb, rfl⟩ := map_eq_ok_iff.mp hb'
    obtain ⟨a, ha, hab⟩ := h.back b hb
    exact ⟨f a, map_eq_ok_iff.mpr ⟨a, ha, rfl⟩, hfg a b hab⟩

lemma Matched.bind {f : A → Except E A'} {g : B → Except E B'} (h : Matched R x y)
    (hfg : ∀ a b, R a b → Matched S (f a) (g b)) : Matched S (x >>= f) (y >>= g) := by
  constructor
  · intro a' ha'
    obtain ⟨a, ha, hf⟩ := bind_eq_ok_iff.mp ha'
    obtain ⟨b, hb, hab⟩ := h.forth a ha
    obtain ⟨b', hb', hs⟩ := (hfg a b hab).forth a' hf
    exact ⟨b', bind_eq_ok_iff.mpr ⟨b, hb, hb'⟩, hs⟩
  · intro b' hb'
    obtain ⟨b, hb, hg⟩ := bind_eq_ok_iff.mp hb'
    obtain ⟨a, ha, hab⟩ := h.back b hb
    obtain ⟨a', ha', hs⟩ := (hfg a b hab).back b' hg
    exact ⟨a', bind_eq_ok_iff.mpr ⟨a, ha, ha'⟩, hs⟩

end Matching

namespace Exposition

section Blocks

variable {b : Block} {n : Nat} {l : SeriesLine}

def Block.startingAt (b : Block) (n : Nat) : Block := { b with start := n }

@[simp] lemma Block.role?_startingAt (metric : String) :
    (b.startingAt n).role? metric = b.role? metric := rfl

@[simp] lemma Block.build_startingAt : (b.startingAt n).build = b.build := rfl

/-- A change of a block that does not look at the line the block starts at. -/
def Placeless (f : Block → Except ParseCause Block) : Prop :=
  ∀ b n, f (b.startingAt n) = (f b).map (·.startingAt n)

lemma placeless_setHelp (text : String) : Placeless fun b => b.setHelp text := by
  intro b n
  have hhelp : (b.startingAt n).help = b.help := rfl
  simp only [Block.setHelp, hhelp]
  split_ifs
  · rfl
  · rfl

lemma placeless_setType (t : MetricType) : Placeless fun b => b.setType t := by
  intro b n
  have hsamples : (b.startingAt n).hasSamples = b.hasSamples := rfl
  have htype : (b.startingAt n).type = b.type := rfl
  simp only [Block.setType, hsamples, htype]
  split_ifs
  · rfl
  · rfl
  · rfl

lemma placeless_addPoint (label : String) (l : SeriesLine) :
    Placeless fun b => b.addPoint label l := by
  intro b n
  simp only [Block.addPoint]
  cases (SortedMap.ofList l.labels).get? label with
  | none => rfl
  | some raw =>
    cases hread : readValue? raw.toList with
    | none => simp only [hread]; rfl
    | some bound => simp only [hread]; rfl

lemma placeless_addSum (l : SeriesLine) : Placeless fun b => b.addSum l := by
  intro b n
  have hcomposite : (b.startingAt n).composite? = b.composite? := rfl
  simp only [Block.addSum, hcomposite]
  split_ifs
  · rfl
  · rfl

lemma placeless_addCount (l : SeriesLine) : Placeless fun b => b.addCount l := by
  intro b n
  have hcomposite : (b.startingAt n).composite? = b.composite? := rfl
  simp only [Block.addCount, hcomposite]
  split_ifs
  · rfl
  · rfl

lemma placeless_addSeries (l : SeriesLine) : Placeless fun b => b.addSeries l := by
  intro b n
  have hkind : (b.startingAt n).kind = b.kind := rfl
  simp only [Block.addSeries, Block.role?_startingAt, hkind]
  split
  · exact placeless_addPoint _ l b n
  · exact placeless_addPoint _ l b n
  · exact placeless_addSum l b n
  · exact placeless_addCount l b n
  · rfl
  · rfl
  · rfl

end Blocks

section Assemblies

variable {fs : List Family} {t t' s s' : Assembly} {n m n' m' : Nat} {name : String} {line : Line}
  {gs : Array Family}

/-- The lines seen so far were filed after the given families as they are filed alone. -/
structure Assembly.Extends (fs : List Family) (t s : Assembly) : Prop where
  finished : s.finished.toList = fs ++ t.finished.toList
  block : Option.Rel (fun b c => ∃ n, c = b.startingAt n) t.open? s.open?

def Assembly.Apart (fs : List Family) (t : Assembly) : Prop :=
  ∀ name ∈ t.names, name ∉ fs.map Family.name

namespace Assembly.Extends

lemma close (h : t.Extends fs s) :
    Matched (fun gs gs' => gs'.toList = fs ++ gs.toList) t.close s.close := by
  obtain ⟨finished, block?⟩ := t
  obtain ⟨finished', block'?⟩ := s
  obtain ⟨hfinished, hblock⟩ := h
  cases hblock with
  | none => exact .ok hfinished
  | @some b c hc =>
    obtain ⟨k, rfl⟩ := hc
    simp only [Assembly.close, Block.build_startingAt]
    cases b.build with
    | error cause => exact .error _ _
    | ok f =>
      refine .ok ?_
      simp only at hfinished
      simp [hfinished]

lemma openNames (h : t.Extends fs s) : s.open?.map Block.name = t.open?.map Block.name := by
  obtain ⟨finished, block?⟩ := t
  obtain ⟨finished', block'?⟩ := s
  obtain ⟨-, hblock⟩ := h
  cases hblock with
  | none => rfl
  | some hc =>
    obtain ⟨k, rfl⟩ := hc
    rfl

lemma names (h : t.Extends fs s) : s.names = fs.map Family.name ++ t.names := by
  have hopen : s.open?.toList.map Block.name = t.open?.toList.map Block.name := by
    rw [← Option.toList_map, ← Option.toList_map, h.openNames]
  rw [Assembly.names, Assembly.names, hopen, h.finished, List.map_append, List.append_assoc]

lemma owner (h : t.Extends fs s) (metric : String) : s.owner metric = t.owner metric := by
  obtain ⟨finished, block?⟩ := t
  obtain ⟨finished', block'?⟩ := s
  obtain ⟨-, hblock⟩ := h
  unfold Assembly.owner
  cases hblock with
  | none => rfl
  | some hc =>
    obtain ⟨k, rfl⟩ := hc
    rfl

end Assembly.Extends

/-- Two blocks to enter, each with the families before it. -/
def Entered (fs : List Family) (p q : Array Family × Block) : Prop :=
  q.1.toList = fs ++ p.1.toList ∧ ∃ k, q.2 = p.2.startingAt k

lemma Assembly.Extends.enter (h : t.Extends fs s) (hname : name ∉ fs.map Family.name) :
    Matched (Entered fs) (t.enter n name) (s.enter m name) := by
  have hfinished : s.hasFinished name = t.hasFinished name := by
    rw [Bool.eq_iff_iff, ← not_iff_not, Bool.not_eq_true, Bool.not_eq_true,
      hasFinished_eq_false_iff, hasFinished_eq_false_iff, h.finished, List.map_append,
      List.mem_append, not_or, and_iff_right hname]
  by_cases ho : ∀ b ∈ t.open?, b.name ≠ name
  · have ho' : ∀ c ∈ s.open?, c.name ≠ name := by
      intro c hc hcn
      have hmap := h.openNames
      rw [Option.mem_def.mp hc, Option.map_some, eq_comm, Option.map_eq_some_iff] at hmap
      obtain ⟨b, hb, hbn⟩ := hmap
      exact ho b hb (hbn.trans hcn)
    rw [enter_new ho, enter_new ho', hfinished]
    split_ifs
    · exact .error _ _
    · exact h.close.map fun gs gs' hgs => ⟨hgs, m, rfl⟩
  · simp only [not_forall, not_not] at ho
    obtain ⟨b, hb, hbn⟩ := ho
    have hblock := h.block
    rw [Option.mem_def.mp hb] at hblock
    generalize hc? : s.open? = c? at hblock
    cases hblock with
    | some hc =>
      obtain ⟨k, rfl⟩ := hc
      rw [enter_open hb hbn, enter_open hc? hbn]
      exact .ok ⟨h.finished, k, rfl⟩

lemma matched_amend {f : Block → Except ParseCause Block} (hf : Placeless f)
    (h : Matched (Entered fs) (t.enter n name) (s.enter m name)) :
    Matched (Assembly.Extends fs) (t.amend n name f) (s.amend m name f) := by
  refine h.bind ?_
  rintro ⟨gs, b⟩ ⟨gs', c⟩ ⟨hgs, k, rfl⟩
  simp only [hf b k]
  cases f b with
  | error cause => exact .error _ _
  | ok b' => exact .ok ⟨hgs, .some ⟨k, rfl⟩⟩

/-- The family whose block a line goes to. -/
def Assembly.target (a : Assembly) : Line → Option String
  | .skip => none
  | .help family _ | .type family _ => some family
  | .series l => some (a.owner l.metric)

lemma Assembly.Extends.file (h : t.Extends fs s)
    (hnew : ∀ name ∈ t.target line, name ∉ fs.map Family.name) :
    Matched (Assembly.Extends fs) (t.file n line) (s.file m line) := by
  cases line with
  | skip => exact .ok h
  | help family text => exact matched_amend (placeless_setHelp text) (h.enter (hnew family rfl))
  | type family type => exact matched_amend (placeless_setType type) (h.enter (hnew family rfl))
  | series l =>
    rw [Assembly.file, Assembly.file, h.owner]
    exact matched_amend (placeless_addSeries l) (h.enter (hnew _ rfl))

/-- A line that is filed opens the block it goes to, if that is not open. -/
lemma exists_amend (h : t.file n line = .ok t') : line = .skip ∧ t' = t ∨
    ∃ name f, t.target line = some name ∧ (∀ b b', f b = .ok b' → b'.name = b.name) ∧
      t.amend n name f = .ok t' := by
  cases line with
  | skip => exact .inl ⟨rfl, (Except.ok.inj h).symm⟩
  | help family text =>
    refine .inr ⟨family, fun b => b.setHelp text, rfl, fun b b' hb => ?_, h⟩
    rw [setHelp_eq_ok hb]
  | type family type =>
    refine .inr ⟨family, fun b => b.setType type, rfl, fun b b' hb => ?_, h⟩
    rw [(setType_eq_ok hb).2]
  | series l => exact .inr ⟨_, _, rfl, fun b b' hb => name_of_addSeries hb, h⟩

lemma mem_names_of_file (h : t.file n line = .ok t') :
    name ∈ t'.names ↔ name ∈ t.names ∨ name ∈ t.target line := by
  rcases exists_amend h with ⟨rfl, rfl⟩ | ⟨target, f, htarget, hf, hamend⟩
  · simp [Assembly.target]
  · obtain ⟨gs, b, b', henter, hb', rfl⟩ := amend_eq_ok_iff.mp hamend
    obtain ⟨hb, hcases⟩ := enter_eq_ok henter
    have hname : b'.name = target := (hf b b' hb').trans hb
    have hnames : name ∈ Assembly.names ⟨gs, some b'⟩ ↔
        name ∈ gs.toList.map Family.name ∨ name = target := by
      simp [Assembly.names, hname]
    rw [hnames, htarget, Option.mem_some, eq_comm (a := target)]
    rcases hcases with ⟨hopen, rfl⟩ | ⟨hclose, -, -⟩
    · -- the block was open, so its name was there
      simp [Assembly.names, hopen, hb]
    · rw [names_of_close hclose]

lemma mem_names_of_foldlM {ls : List (List Char)}
    (h : ls.foldlM fileText (n, t) = .ok (n', t')) (hname : name ∈ t.names) : name ∈ t'.names := by
  induction ls generalizing n t with
  | nil =>
    obtain ⟨-, rfl⟩ := Prod.mk.inj (Except.ok.inj h)
    exact hname
  | cons cs ls ih =>
    rw [List.foldlM_cons, bind_eq_ok_iff] at h
    obtain ⟨r, hfirst, h⟩ := h
    obtain ⟨line, t₁, -, hfile, rfl⟩ := fileText_eq_ok_iff.mp hfirst
    exact ih h ((mem_names_of_file hfile).mpr (.inl hname))

/-- A line that is filed after the families goes to none of them. -/
lemma Assembly.Extends.notMem_of_file (h : t.Extends fs s) (hapart : t.Apart fs)
    (hfile : s.file m line = .ok s') : ∀ name ∈ t.target line, name ∉ fs.map Family.name := by
  have htarget : s.target line = t.target line := by
    cases line <;> simp [Assembly.target, h.owner]
  intro name hname
  rcases exists_amend hfile with ⟨rfl, -⟩ | ⟨name', f, hname', -, hamend⟩
  · cases hname
  · rw [htarget, Option.mem_def.mp hname] at hname'
    obtain rfl := Option.some.inj hname'
    obtain ⟨gs, c, c', henter, -, -⟩ := amend_eq_ok_iff.mp hamend
    obtain ⟨hc, ⟨hopen, -⟩ | ⟨-, -, hnew⟩⟩ := enter_eq_ok henter
    · have hmap := h.openNames
      rw [hopen, Option.map_some, hc] at hmap
      apply hapart
      have hmem : name ∈ t.open?.toList.map Block.name := by
        rw [← Option.toList_map, ← hmap]
        simp
      exact List.mem_append_right _ hmem
    · rw [h.names, List.mem_append, not_or] at hnew
      exact hnew.1

lemma Assembly.Extends.foldlM_forth {ls : List (List Char)} (h : t.Extends fs s)
    (hrun : ls.foldlM fileText (n, t) = .ok (n', t')) (hapart : t'.Apart fs) (m : Nat) :
    ∃ m' s', ls.foldlM fileText (m, s) = .ok (m', s') ∧ t'.Extends fs s' := by
  induction ls generalizing n m t s with
  | nil =>
    obtain ⟨-, rfl⟩ := Prod.mk.inj (Except.ok.inj hrun)
    exact ⟨m, s, rfl, h⟩
  | cons cs ls ih =>
    rw [List.foldlM_cons, bind_eq_ok_iff] at hrun
    obtain ⟨r, hfirst, hrun⟩ := hrun
    obtain ⟨line, t₁, hline, hfile, rfl⟩ := fileText_eq_ok_iff.mp hfirst
    have hnew : ∀ name ∈ t.target line, name ∉ fs.map Family.name := fun name hname =>
      hapart name (mem_names_of_foldlM hrun ((mem_names_of_file hfile).mpr (.inr hname)))
    obtain ⟨s₁, hfile', h₁⟩ := (h.file (m := m) hnew).forth t₁ hfile
    obtain ⟨m', s', hrun', h'⟩ := ih h₁ hrun (m + 1)
    refine ⟨m', s', ?_, h'⟩
    rw [List.foldlM_cons, fileText_eq_ok_iff.mpr ⟨line, s₁, hline, hfile', rfl⟩]
    exact hrun'

lemma Assembly.Extends.foldlM_back {ls : List (List Char)} (h : t.Extends fs s)
    (hapart : t.Apart fs) (hrun : ls.foldlM fileText (m, s) = .ok (m', s')) (n : Nat) :
    ∃ n' t', ls.foldlM fileText (n, t) = .ok (n', t') ∧ t'.Extends fs s' := by
  induction ls generalizing n m t s with
  | nil =>
    obtain ⟨-, rfl⟩ := Prod.mk.inj (Except.ok.inj hrun)
    exact ⟨n, t, rfl, h⟩
  | cons cs ls ih =>
    rw [List.foldlM_cons, bind_eq_ok_iff] at hrun
    obtain ⟨r, hfirst, hrun⟩ := hrun
    obtain ⟨line, s₁, hline, hfile, rfl⟩ := fileText_eq_ok_iff.mp hfirst
    have hnew := h.notMem_of_file hapart hfile
    obtain ⟨t₁, hfile', h₁⟩ := (h.file (n := n) hnew).back s₁ hfile
    have hapart₁ : t₁.Apart fs := fun name hname =>
      ((mem_names_of_file hfile').mp hname).elim (hapart name) (hnew name)
    obtain ⟨n', t', hrun', h'⟩ := ih h₁ hapart₁ hrun (n + 1)
    refine ⟨n', t', ?_, h'⟩
    rw [List.foldlM_cons, fileText_eq_ok_iff.mpr ⟨line, t₁, hline, hfile', rfl⟩]
    exact hrun'

end Assemblies

end Exposition

end PushGateway
