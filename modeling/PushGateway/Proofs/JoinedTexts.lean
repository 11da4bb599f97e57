import PushGateway.Proofs.ExtendedAssembly

/-! One text after another. What the lines of the second text do does not depend on the first, as
long as they start with a block of their own and open none that the first one has. Lines without
meaning may stand anywhere. -/

namespace PushGateway.Exposition

section Lines

open Text

variable {cs : List Char} {line : Line} {a b : String}

/-- The word that may give a comment its meaning. -/
def keyword? (cs : List Char) : Option (List Char) :=
  match trim cs with
  | '#' :: rest => (splitAtBlank? (trimStart rest)).map Prod.fst
  | _ => none

/-- A HELP or a TYPE line. -/
def isHeading (cs : List Char) : Bool :=
  keyword? cs == some "HELP".toList || keyword? cs == some "TYPE".toList

/-- A blank line, or a comment that is neither a HELP nor a TYPE line. -/
def isIgnored (cs : List Char) : Bool :=
  (trim cs).isEmpty || (trim cs).head? == some '#' && !isHeading cs

/-- The first line of a text that is not ignored. -/
def firstLine? (text : String) : Option (List Char) := (lines text).find? fun cs => !isIgnored cs

def Line.family? : Line → Option String
  | .help family _ | .type family _ => some family
  | .skip | .series _ => none

lemma keyword?_comment {rest : List Char} (h : trim cs = '#' :: rest) :
    keyword? cs = (splitAtBlank? (trimStart rest)).map Prod.fst := by
  simp only [keyword?, h]

lemma isHeading_iff :
    isHeading cs = true ↔ keyword? cs = some "HELP".toList ∨ keyword? cs = some "TYPE".toList := by
  simp [isHeading]

lemma readLine_of_isIgnored (h : isIgnored cs = true) : readLine cs = .ok .skip := by
  unfold readLine
  cases htrim : trim cs with
  | nil => rfl
  | cons c rest =>
    simp only [isIgnored, htrim, List.isEmpty_cons, List.head?_cons, Bool.false_or,
      Bool.and_eq_true, beq_iff_eq, Option.some.injEq] at h
    obtain ⟨rfl, h⟩ := h
    rw [Bool.not_eq_true', ← Bool.not_eq_true, isHeading_iff, keyword?_comment htrim, not_or] at h
    simp only [readComment]
    cases hsplit : splitAtBlank? (trimStart rest) with
    | none => rfl
    | some p =>
      simp only [hsplit, Option.map_some, Option.some.injEq] at h
      simp only [if_neg h.1, if_neg h.2]

lemma exists_family_of_readHelp {name tail : List Char} (h : readHelp name tail = .ok line) :
    ∃ family, line.family? = some family := by
  unfold readHelp at h
  rw [check_bind_eq_ok_iff] at h
  obtain ⟨-, h⟩ := h
  split at h
  · obtain rfl := Except.ok.inj h
    exact ⟨_, rfl⟩
  · cases h
  · cases h

lemma exists_family_of_readType {name tail : List Char} (h : readType name tail = .ok line) :
    ∃ family, line.family? = some family := by
  unfold readType at h
  rw [check_bind_eq_ok_iff] at h
  obtain ⟨-, h⟩ := h
  split at h
  · obtain rfl := Except.ok.inj h
    exact ⟨_, rfl⟩
  · cases h

lemma exists_family_of_isHeading (h : isHeading cs = true) (hline : readLine cs = .ok line) :
    ∃ family, line.family? = some family := by
  rw [isHeading_iff] at h
  obtain ⟨rest, hrest⟩ : ∃ rest, trim cs = '#' :: rest := by
    unfold keyword? at h
    split at h
    · next rest hrest => exact ⟨rest, hrest⟩
    · simp at h
  rw [keyword?_comment hrest] at h
  unfold readLine at hline
  simp only [hrest, readComment] at hline
  cases hsplit : splitAtBlank? (trimStart rest) with
  | none => simp [hsplit] at h
  | some p =>
    simp only [hsplit, Option.map_some, Option.some.injEq] at h hline
    rcases h with h | h
    · rw [if_pos h] at hline
      exact exists_family_of_readHelp hline
    · rw [if_neg (by simp [h]), if_pos h] at hline
      exact exists_family_of_readType hline

lemma isIgnored_of_isHeading (h : isHeading cs = true) : isIgnored cs = false := by
  have hne : trim cs ≠ [] := by
    intro htrim
    simp [isHeading, keyword?, htrim] at h
  simp [isIgnored, h, hne]

/-- A text that can be followed by another without joining two lines. -/
def EndsLine (text : String) : Prop := ∀ c ∈ text.toList.getLast?, c = '\n'

instance (text : String) : Decidable (EndsLine text) :=
  decidable_of_iff (text.toList.getLast?.all (· == '\n') = true) (by
    cases h : text.toList.getLast? <;> simp [EndsLine, h])

lemma exists_lines_append (h : EndsLine a) :
    ∃ ls, lines a = ls ++ [[]] ∧ ∀ b, lines (a ++ b) = ls ++ lines b := by
  simp only [lines, String.toList_append]
  unfold EndsLine at h
  rcases List.eq_nil_or_concat a.toList with hnil | ⟨cs, c, hcs⟩
  · exact ⟨[], by simp [hnil], fun b => by simp [hnil]⟩
  · obtain rfl : c = '\n' := h c (by simp [hcs])
    refine ⟨cs.splitOn '\n', ?_, fun b => ?_⟩
    · rw [hcs, List.concat_eq_append, List.splitOn_append_cons_self, List.splitOn_nil]
    · rw [hcs, List.concat_eq_append, List.append_assoc, List.singleton_append,
        List.splitOn_append_cons_self]

end Lines

section Runs

variable {n n' m m' : Nat} {t' s s' : Assembly} {gs : Array Family} {line : Line} {name : String}
  {ls : List (List Char)} {a b c : String} {A B F : List Family}

/-- No lines that matter, or ones that start with a HELP or TYPE line. -/
def StartsBlock (ls : List (List Char)) : Prop :=
  ∀ cs ∈ ls.find? fun cs => !isIgnored cs, isHeading cs = true

/-- Where the first block is not open yet, what came before may still have an open one. -/
def Assembly.Follows (gs : Array Family) (t s : Assembly) : Prop :=
  t = .start ∧ s.close = .ok gs ∨ t.Extends gs.toList s

lemma Assembly.Follows.close {t : Assembly} (h : t.Follows gs s) :
    Matched (fun fs fs' => fs'.toList = gs.toList ++ fs.toList) t.close s.close := by
  rcases h with ⟨rfl, hclose⟩ | h
  · rw [hclose]
    exact .ok (by simp [Assembly.start])
  · exact h.close

lemma target_of_family? {t : Assembly} (hline : line.family? = some name) :
    t.target line = some name := by
  cases line with
  | skip => cases hline
  | help family text => exact hline
  | type family type => exact hline
  | series l => cases hline

lemma matched_file_start (hclose : s.close = .ok gs) (hline : line.family? = some name)
    (hname : name ∉ gs.toList.map Family.name) :
    Matched (Assembly.Extends gs.toList) (Assembly.start.file n line) (s.file m line) := by
  have henter : Matched (Entered gs.toList) (Assembly.start.enter n name) (s.enter m name) := by
    rw [names_of_close hclose, Assembly.names, List.mem_append, not_or] at hname
    have hopen : ∀ b ∈ s.open?, b.name ≠ name := by
      intro b hb hbn
      exact hname.2 (List.mem_map.mpr ⟨b, Option.mem_toList.mpr hb, hbn⟩)
    rw [enter_start, enter_new hopen, hasFinished_eq_false_iff.mpr hname.1, hclose]
    exact .ok ⟨by simp, m, rfl⟩
  cases line with
  | skip => cases hline
  | help family text =>
    obtain rfl := Option.some.inj hline
    exact matched_amend (placeless_setHelp text) henter
  | type family type =>
    obtain rfl := Option.some.inj hline
    exact matched_amend (placeless_setType type) henter
  | series l => cases hline

lemma StartsBlock.cons_cases {cs : List Char} (h : StartsBlock (cs :: ls)) :
    isIgnored cs = true ∧ StartsBlock ls ∨ isHeading cs = true := by
  cases hcs : isIgnored cs with
  | true => exact .inl ⟨rfl, fun ds hds => h ds (by simpa [hcs] using hds)⟩
  | false => exact .inr (h cs (by simp [hcs]))

lemma foldlM_ignored {cs : List Char} (h : isIgnored cs = true) (r : Nat × Assembly) :
    (cs :: ls).foldlM fileText r = ls.foldlM fileText (r.1 + 1, r.2) := by
  rw [List.foldlM_cons, fileText_eq_ok_iff.mpr ⟨.skip, r.2, readLine_of_isIgnored h, rfl, rfl⟩]
  rfl

lemma foldlM_after (hclose : s.close = .ok gs) (hls : StartsBlock ls)
    (hrun : ls.foldlM fileText (n, .start) = .ok (n', t')) (hapart : t'.Apart gs.toList) (m : Nat) :
    ∃ m' s', ls.foldlM fileText (m, s) = .ok (m', s') ∧ t'.Follows gs s' := by
  induction ls generalizing n m with
  | nil =>
    obtain ⟨-, rfl⟩ := Prod.mk.inj (Except.ok.inj hrun)
    exact ⟨m, s, rfl, .inl ⟨rfl, hclose⟩⟩
  | cons cs ls ih =>
    rcases hls.cons_cases with ⟨hcs, hls⟩ | hcs
    · rw [foldlM_ignored hcs] at hrun ⊢
      exact ih hls hrun (m + 1)
    · rw [List.foldlM_cons, bind_eq_ok_iff] at hrun
      obtain ⟨r, hfirst, hrun⟩ := hrun
      obtain ⟨line, t₁, hline, hfile, rfl⟩ := fileText_eq_ok_iff.mp hfirst
      obtain ⟨name, hname⟩ := exists_family_of_isHeading hcs hline
      have hnew : name ∉ gs.toList.map Family.name := by
        have htarget : name ∈ Assembly.start.target line := target_of_family? hname
        exact hapart name (mem_names_of_foldlM hrun ((mem_names_of_file hfile).mpr (.inr htarget)))
      obtain ⟨s₁, hfile', h₁⟩ := (matched_file_start (m := m) hclose hname hnew).forth t₁ hfile
      obtain ⟨m', s', hrun', h'⟩ := h₁.foldlM_forth hrun hapart (m + 1)
      refine ⟨m', s', ?_, .inr h'⟩
      rw [List.foldlM_cons, fileText_eq_ok_iff.mpr ⟨line, s₁, hline, hfile', rfl⟩]
      exact hrun'

lemma foldlM_before (hclose : s.close = .ok gs) (hls : StartsBlock ls)
    (hnew : ∀ cs ∈ ls.find? fun cs => !isIgnored cs, ∀ line, readLine cs = .ok line →
      ∀ name ∈ line.family?, name ∉ gs.toList.map Family.name)
    (hrun : ls.foldlM fileText (m, s) = .ok (m', s')) (n : Nat) :
    ∃ n' t', ls.foldlM fileText (n, .start) = .ok (n', t') ∧ t'.Follows gs s' := by
  induction ls generalizing n m with
  | nil =>
    obtain ⟨-, rfl⟩ := Prod.mk.inj (Except.ok.inj hrun)
    exact ⟨n, .start, rfl, .inl ⟨rfl, hclose⟩⟩
  | cons cs ls ih =>
    rcases hls.cons_cases with ⟨hcs, hls⟩ | hcs
    · rw [foldlM_ignored hcs] at hrun ⊢
      refine ih hls (fun ds hds => hnew ds ?_) hrun (n + 1)
      simpa [hcs] using hds
    · rw [List.foldlM_cons, bind_eq_ok_iff] at hrun
      obtain ⟨r, hfirst, hrun⟩ := hrun
      obtain ⟨line, s₁, hline, hfile, rfl⟩ := fileText_eq_ok_iff.mp hfirst
      obtain ⟨name, hname⟩ := exists_family_of_isHeading hcs hline
      have hnew := hnew cs (by simp [isIgnored_of_isHeading hcs]) line hline name hname
      obtain ⟨t₁, hfile', h₁⟩ := (matched_file_start (n := n) hclose hname hnew).back s₁ hfile
      have hapart : t₁.Apart gs.toList := by
        intro other hother
        rcases (mem_names_of_file hfile').mp hother with hother | hother
        · simp [Assembly.names, Assembly.start] at hother
        · obtain rfl := Option.mem_unique (target_of_family? hname) hother
          exact hnew
      obtain ⟨n', t', hrun', h'⟩ := h₁.foldlM_back hapart hrun (n + 1)
      refine ⟨n', t', ?_, .inr h'⟩
      rw [List.foldlM_cons, fileText_eq_ok_iff.mpr ⟨line, t₁, hline, hfile', rfl⟩]
      exact hrun'

/-- What the families are once the lines are filed and the last block is closed. -/
def Yields (ls : List (List Char)) (r : Nat × Assembly) (F : List Family) : Prop :=
  ∃ n t gs, ls.foldlM fileText r = .ok (n, t) ∧ t.close = .ok gs ∧ gs.toList = F

lemma parse_eq_ok_iff {text : String} : parse text = .ok F ↔ Yields (lines text) (1, .start) F := by
  constructor
  · intro h
    obtain ⟨⟨n, t⟩, hrun, h⟩ := bind_eq_ok_iff.mp h
    obtain ⟨gs, hclose, h⟩ := bind_eq_ok_iff.mp h
    exact ⟨n, t, gs, hrun, hclose, Except.ok.inj h⟩
  · rintro ⟨n, t, gs, hrun, hclose, rfl⟩
    exact parse_of_close hrun hclose

lemma yields_append {ls ls' : List (List Char)} {r : Nat × Assembly} :
    Yields (ls ++ ls') r F ↔ ∃ r', ls.foldlM fileText r = .ok r' ∧ Yields ls' r' F := by
  constructor
  · rintro ⟨n, t, gs, hrun, hclose, hF⟩
    rw [List.foldlM_append, bind_eq_ok_iff] at hrun
    obtain ⟨r', hr', hrun⟩ := hrun
    exact ⟨r', hr', n, t, gs, hrun, hclose, hF⟩
  · rintro ⟨r', hr', n, t, gs, hrun, hclose, hF⟩
    refine ⟨n, t, gs, ?_, hclose, hF⟩
    rw [List.foldlM_append, hr']
    exact hrun

lemma Assembly.Extends.refl (t : Assembly) : t.Extends [] t := by
  refine ⟨rfl, ?_⟩
  cases t.open? with
  | none => exact .none
  | some b => exact .some ⟨b.start, rfl⟩

/-- The numbers of the lines are for errors only. -/
lemma Yields.renumber {t : Assembly} (h : Yields ls (n, t) F) (m : Nat) : Yields ls (m, t) F := by
  obtain ⟨n', t', gs, hrun, hclose, rfl⟩ := h
  have hapart : t'.Apart [] := fun name _ => List.not_mem_nil
  obtain ⟨m', s', hrun', h'⟩ := (Assembly.Extends.refl t).foldlM_forth hrun hapart m
  obtain ⟨gs', hclose', hgs'⟩ := h'.close.forth gs hclose
  exact ⟨m', s', gs', hrun', hclose', hgs'⟩

lemma yields_ignored {t : Assembly} {ls' : List (List Char)}
    (h : ∀ cs ∈ ls, isIgnored cs = true) :
    Yields (ls ++ ls') (n, t) F ↔ Yields ls' (n, t) F := by
  induction ls with
  | nil => rfl
  | cons cs ls ih =>
    obtain ⟨hcs, hls⟩ := List.forall_mem_cons.mp h
    have hcons : Yields (cs :: ls ++ ls') (n, t) F ↔ Yields (ls ++ ls') (n + 1, t) F := by
      unfold Yields
      rw [List.cons_append, foldlM_ignored hcs]
    rw [hcons, ← ih hls]
    exact ⟨fun h => h.renumber n, fun h => h.renumber (n + 1)⟩

/-- Where the lines of the second text start from. -/
lemma exists_parse_append (ha : EndsLine a) (h : parse a = .ok A) :
    ∃ n s gs, s.close = .ok gs ∧ gs.toList = A ∧
      ∀ b F, parse (a ++ b) = .ok F ↔ Yields (lines b) (n, s) F := by
  obtain ⟨ls, hls, happend⟩ := exists_lines_append ha
  rw [parse_eq_ok_iff, hls, yields_append] at h
  obtain ⟨⟨n, s⟩, hrun, n', s', gs, hlast, hclose, hgs⟩ := h
  rw [foldlM_ignored (by decide)] at hlast
  obtain ⟨-, rfl⟩ := Prod.mk.inj (Except.ok.inj hlast)
  refine ⟨n, s, gs, hclose, hgs, fun b F => ?_⟩
  rw [parse_eq_ok_iff, happend b, yields_append]
  constructor
  · rintro ⟨r, hr, h⟩
    obtain rfl := Except.ok.inj (hrun.symm.trans hr)
    exact h
  · exact fun h => ⟨(n, s), hrun, h⟩

lemma parse_append (ha : EndsLine a) (hA : parse a = .ok A) (hB : parse b = .ok B)
    (hb : StartsBlock (lines b)) (hdisjoint : (A.map Family.name).Disjoint (B.map Family.name)) :
    parse (a ++ b) = .ok (A ++ B) := by
  obtain ⟨n, s, gs, hclose, rfl, hjoined⟩ := exists_parse_append ha hA
  obtain ⟨m, t, fs, hrun, hclose', rfl⟩ := parse_eq_ok_iff.mp hB
  have hapart : t.Apart gs.toList := by
    intro name hname hmem
    rw [← names_of_close hclose'] at hname
    exact hdisjoint hmem hname
  obtain ⟨n', s', hrun', hfollows⟩ := foldlM_after hclose hb hrun hapart n
  obtain ⟨gs', hclose'', hgs'⟩ := hfollows.close.forth fs hclose'
  exact (hjoined b _).mpr ⟨n', s', gs', hrun', hclose'', hgs'⟩

lemma exists_of_parse_append (ha : EndsLine a) (hA : parse a = .ok A)
    (hb : StartsBlock (lines b))
    (hnew : ∀ cs ∈ firstLine? b, ∀ line, readLine cs = .ok line → ∀ name ∈ line.family?,
      name ∉ A.map Family.name)
    (hF : parse (a ++ b) = .ok F) : ∃ B, parse b = .ok B ∧ F = A ++ B := by
  obtain ⟨n, s, gs, hclose, rfl, hjoined⟩ := exists_parse_append ha hA
  obtain ⟨n', s', gs', hrun, hclose', rfl⟩ := (hjoined b F).mp hF
  obtain ⟨m, t, hrun', hfollows⟩ := foldlM_before hclose hb hnew hrun 1
  obtain ⟨fs, hclose'', hgs'⟩ := hfollows.close.back gs' hclose'
  exact ⟨fs.toList, parse_eq_ok_iff.mpr ⟨m, t, fs, hrun', hclose'', rfl⟩, hgs'⟩

lemma parse_append_ignored (ha : EndsLine a) (hc : EndsLine c)
    (hignored : ∀ cs ∈ lines c, isIgnored cs = true) :
    parse (a ++ (c ++ b)) = .ok F ↔ parse (a ++ b) = .ok F := by
  obtain ⟨ls, -, happend⟩ := exists_lines_append ha
  obtain ⟨ls', hls', happend'⟩ := exists_lines_append hc
  have hls : ∀ cs ∈ ls', isIgnored cs = true := fun cs hcs =>
    hignored cs (hls' ▸ List.mem_append_left _ hcs)
  rw [parse_eq_ok_iff, parse_eq_ok_iff, happend, happend, happend', yields_append, yields_append]
  simp only [Prod.exists, yields_ignored hls]

end Runs

/-- A text that ends its last line can be followed by one that starts with a block of its own: if
both are accepted and share no family, so are they joined, with the families of the one after those
of the other. The second text is read there as it is read alone, since the joined text is accepted
for no other reason. Blank lines and comments without meaning may come in between. -/
theorem parse_joined_texts (a b : String) (ha : EndsLine a) :
    (∀ A B, parse a = .ok A → parse b = .ok B → (A.map Family.name).Disjoint (B.map Family.name) →
      (∀ cs ∈ firstLine? b, isHeading cs = true) → parse (a ++ b) = .ok (A ++ B)) ∧
    (∀ A F, parse a = .ok A →
      (∀ cs ∈ firstLine? b, isHeading cs = true ∧ ∀ line, readLine cs = .ok line →
        ∀ name ∈ line.family?, name ∉ A.map Family.name) →
      parse (a ++ b) = .ok F → ∃ B, parse b = .ok B ∧ F = A ++ B) ∧
    ∀ c F, EndsLine c → (∀ cs ∈ lines c, isIgnored cs = true) →
      (parse (a ++ (c ++ b)) = .ok F ↔ parse (a ++ b) = .ok F) := by
  refine ⟨fun A B hA hB hdisjoint hb => ?_, fun A F hA hb hF => ?_, fun c F hc hignored => ?_⟩
  · exact parse_append ha hA hB hb hdisjoint
  · exact exists_of_parse_append ha hA (fun cs hcs => (hb cs hcs).1) (fun cs hcs => (hb cs hcs).2)
      hF
  · exact parse_append_ignored ha hc hignored

/-- A summary is open when the second text starts, and the family of that text has the name of the
summary's count. -/
theorem parse_joined_texts_count :
    let one : Binary64 := ⟨0x3FF0000000000000⟩
    let summary : Family := ⟨"s", "", .summary, [⟨.empty, .summary [] one .zero, none⟩]⟩
    let gauge : Family := ⟨"s_count", "", .gauge, [⟨.empty, .gauge one, none⟩]⟩
    let a : String := "# TYPE s summary\ns_sum 1\n"
    let b : String := "# TYPE s_count gauge\ns_count 1\n"
    parse (a ++ b) = .ok [summary, gauge] ∧
      parse (a ++ ("\n# a remark\n" ++ b)) = .ok [summary, gauge] ∧
      ∃ B, parse b = .ok B ∧ [summary, gauge] = [summary] ++ B := by
  intro one summary gauge a b
  have hlines : (lines a).foldlM fileText (1, .start) = .ok (4, ⟨#[], some ⟨"s", 1, none,
      some .summary, #[], [⟨.empty, #[], some one, none, none⟩]⟩⟩) := by
    decide +kernel
  have hclose : Assembly.close ⟨#[], some ⟨"s", 1, none, some .summary, #[],
      [⟨.empty, #[], some one, none, none⟩]⟩⟩ = .ok #[summary] := by
    have hsort : Block.sortPoints #[] = [] := List.mergeSort_nil
    simp only [Assembly.close, Block.build, Block.allSamples, Block.kind, Option.getD,
      List.mapM_cons, Block.summarySample, Block.orderedPoints, hsort]
    decide +kernel
  have ha : parse a = .ok [summary] := parse_of_close hlines hclose
  have hb : parse b = .ok [gauge] := by decide +kernel
  obtain ⟨hjoin, hsplit, hinsert⟩ := parse_joined_texts a b (by decide +kernel)
  have hjoined : parse (a ++ b) = .ok [summary, gauge] :=
    hjoin [summary] [gauge] ha hb (by simp [summary, gauge]) (by decide +kernel)
  have hfirst : firstLine? b = some "# TYPE s_count gauge".toList := by decide +kernel
  have hline : readLine "# TYPE s_count gauge".toList = .ok (.type "s_count" .gauge) := by
    decide +kernel
  refine ⟨hjoined, ?_, ?_⟩
  · exact (hinsert _ _ (by decide +kernel) (by decide +kernel)).mpr hjoined
  · refine hsplit [summary] [summary, gauge] ha (fun cs hcs => ?_) hjoined
    obtain rfl := Option.some.inj (hfirst.symm.trans hcs)
    refine ⟨by decide +kernel, fun line hread name hname => ?_⟩
    obtain rfl := Except.ok.inj (hline.symm.trans hread)
    obtain rfl := Option.some.inj hname
    decide

end PushGateway.Exposition
