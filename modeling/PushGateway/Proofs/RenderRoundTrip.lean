import PushGateway.Proofs.FiledSamples

/-! The text of families is read back as these families, each histogram with its infinite bucket. So
the text of what was read from a payload loses nothing of it. -/

namespace PushGateway.Exposition

section Filing

variable {a a' : Assembly} {fs : Array Family} {f : Family} {b b' : Block} {n : Nat}

lemma fileText_eq_ok {cs : List Char} {line : Line} (hl : readLine cs = .ok line)
    (hf : a.file n line = .ok a') : fileText (n, a) cs = .ok (n + 1, a') :=
  fileText_eq_ok_iff.mpr ⟨line, a', hl, hf, rfl⟩

/-- The block of a family of which only the help was filed. -/
def headed (f : Family) (start : Nat) : Block :=
  { Block.empty f.name start with help := some f.help }

lemma file_help (hc : a.close = .ok fs) (hnew : f.name ∉ fs.toList.map Family.name) :
    a.file n (.help f.name f.help) = .ok ⟨fs, some (headed f n)⟩ := by
  rw [names_of_close hc, Assembly.names, List.mem_append, not_or] at hnew
  have hopen : ∀ b ∈ a.open?, b.name ≠ f.name := by
    intro b hb he
    exact hnew.2 (List.mem_map.mpr ⟨b, Option.mem_toList.mpr hb, he⟩)
  have henter : a.enter n f.name = .ok (fs, .empty f.name n) := by
    rw [enter_new hopen, hasFinished_eq_false_iff.mpr hnew.1, hc]
    rfl
  rw [Assembly.file]
  exact amend_eq_ok_iff.mpr ⟨fs, _, _, henter, rfl, rfl⟩

lemma file_type (start : Nat) :
    Assembly.file ⟨fs, some (headed f start)⟩ n (.type f.name f.metricType)
      = .ok ⟨fs, some (filed f start [])⟩ := by
  have henter : Assembly.enter ⟨fs, some (headed f start)⟩ n f.name = .ok (fs, headed f start) :=
    enter_open rfl rfl
  have hset : (headed f start).setType f.metricType = .ok (filed f start []) := by
    unfold filed
    cases f.metricType <;> rfl
  rw [Assembly.file]
  exact amend_eq_ok_iff.mpr ⟨fs, _, _, henter, hset, rfl⟩

lemma file_series {l : SeriesLine} (hr : (b.role? l.metric).isSome = true)
    (h : b.addSeries l = .ok b') :
    Assembly.file ⟨fs, some b⟩ n (.series l) = .ok ⟨fs, some b'⟩ := by
  have howner : Assembly.owner ⟨fs, some b⟩ l.metric = b.name := if_pos hr
  rw [Assembly.file, howner]
  exact amend_eq_ok_iff.mpr ⟨fs, _, _, enter_open rfl rfl, h, rfl⟩

lemma foldlM_texts {ls : List SeriesLine} (hl : ∀ l ∈ ls, l.Readable ∧ l.collapse = l)
    (hr : ∀ l ∈ ls, (b.role? l.metric).isSome = true)
    (h : ls.foldlM Block.addSeries b = .ok b') :
    ∃ n', (ls.map SeriesLine.text).foldlM fileText (n, ⟨fs, some b⟩)
      = .ok (n', ⟨fs, some b'⟩) := by
  induction ls generalizing n b with
  | nil =>
    obtain rfl := Except.ok.inj h
    exact ⟨n, rfl⟩
  | cons l ls ih =>
    obtain ⟨⟨hread, hsame⟩, hl⟩ := List.forall_mem_cons.mp hl
    obtain ⟨hrole, hr⟩ := List.forall_mem_cons.mp hr
    rw [List.foldlM_cons] at h
    obtain ⟨b₁, hb₁, h⟩ := bind_eq_ok_iff.mp h
    have hr₁ : ∀ l ∈ ls, (b₁.role? l.metric).isSome = true := by
      intro l hl
      rw [role?_of_addSeries hb₁]
      exact hr l hl
    obtain ⟨n', hn'⟩ := @ih b₁ (n + 1) hl hr₁ h
    refine ⟨n', ?_⟩
    have hline := readLine_text hread
    rw [hsame] at hline
    rw [List.map_cons, List.foldlM_cons, fileText_eq_ok hline (file_series hrole hb₁)]
    exact hn'

lemma readable_of_settled (hf : f.Settled) :
    ∀ l ∈ f.samples.flatMap (seriesLines f.name), l.Readable ∧ l.collapse = l := by
  intro l hl
  obtain ⟨s, hs, hl⟩ := List.mem_flatMap.mp hl
  exact ⟨readable_of_mem_seriesLines hf.valid.name (hf.valid.samples s hs) hl,
    collapse_of_mem_seriesLines (hf.samples s hs).numbers hl⟩

lemma foldlM_familyLines (hf : f.Settled) (hc : a.close = .ok fs)
    (hnew : f.name ∉ fs.toList.map Family.name) :
    ∃ n' a', (familyLines f).foldlM fileText (n, a) = .ok (n', a') ∧
      a'.close = .ok (fs.push f.complete) := by
  have hhelp :=
    fileText_eq_ok (readLine_helpLine hf.valid.name hf.help) (file_help (n := n) hc hnew)
  have htype := fileText_eq_ok (readLine_typeLine (f := f) hf.valid.name)
    (@file_type fs f (n + 1) n)
  have hroles : ∀ l ∈ f.samples.flatMap (seriesLines f.name),
      ((filed f n []).role? l.metric).isSome = true := by
    intro l hl
    obtain ⟨s, hs, hl⟩ := List.mem_flatMap.mp hl
    refine role?_of_mem_seriesLines (s := s) ?_ (name_filed ▸ hl)
    exact (hf.valid.samples s hs).1.trans kind_filed.symm
  have hadd : (f.samples.flatMap (seriesLines f.name)).foldlM Block.addSeries (filed f n [])
      = .ok (filed f n f.samples) :=
    foldlM_samples hf.valid.samples (fun s hs => (hf.samples s hs).numbers) hf.valid.distinct
  obtain ⟨n', hn'⟩ := @foldlM_texts fs _ _ (n + 1 + 1) _ (readable_of_settled hf) hroles hadd
  refine ⟨n', ⟨fs, some (filed f n f.samples)⟩, ?_, ?_⟩
  · rw [familyLines, List.foldlM_cons, hhelp]
    change List.foldlM _ _ _ = _
    rw [List.foldlM_cons, htype]
    exact hn'
  · simp only [Assembly.close, build_filed hf]

lemma foldlM_renderLines {families : List Family} (hf : ∀ f ∈ families, f.Settled)
    (hc : a.close = .ok fs) (hn : ((fs.toList ++ families).map Family.name).Nodup) :
    ∃ n' a' fs', (renderLines families).foldlM fileText (n, a) = .ok (n', a') ∧
      a'.close = .ok fs' ∧ fs'.toList = fs.toList ++ families.map Family.complete := by
  induction families generalizing n a fs with
  | nil => exact ⟨n, a, fs, rfl, hc, (List.append_nil _).symm⟩
  | cons f families ih =>
    obtain ⟨hsettled, hf⟩ := List.forall_mem_cons.mp hf
    have hnew : f.name ∉ fs.toList.map Family.name := by
      rw [List.map_append, List.map_cons] at hn
      exact fun hm => (List.nodup_append.mp hn).2.2 _ hm _ List.mem_cons_self rfl
    -- the block of `f` stays open until the next family is entered
    obtain ⟨n₁, a₁, hfold, hclose⟩ := foldlM_familyLines (n := n) hsettled hc hnew
    have hnames : (((fs.push f.complete).toList ++ families).map Family.name).Nodup := by
      simpa [Family.complete] using hn
    obtain ⟨n', a', fs', hrest, hclose', hfs'⟩ := @ih a₁ _ n₁ hf hclose hnames
    refine ⟨n', a', fs', ?_, hclose', ?_⟩
    · rw [renderLines, List.flatMap_cons, List.foldlM_append, hfold]
      exact hrest
    · rw [hfs', Array.toList_push, List.append_assoc]
      rfl

end Filing

lemma lines_render_of_readable {families : List Family}
    (hn : ∀ f ∈ families, Name.isMetricName f.name = true)
    (hl : ∀ f ∈ families, ∀ s ∈ f.samples, ∀ l ∈ seriesLines f.name s, l.Readable) :
    lines (render families) = renderLines families ++ [[]] := by
  refine lines_render fun line hline => ?_
  obtain ⟨f, hf, hline⟩ := List.mem_flatMap.mp hline
  rcases List.mem_cons.mp hline with rfl | hline
  · exact newline_notMem_helpLine (hn f hf)
  · rcases List.mem_cons.mp hline with rfl | hline
    · exact newline_notMem_typeLine (hn f hf)
    · obtain ⟨l, hmem, rfl⟩ := List.mem_map.mp hline
      obtain ⟨s, hs, hmem⟩ := List.mem_flatMap.mp hmem
      exact newline_notMem_text (hl f hf s hs l hmem)

lemma lines_render_of_settled {families : List Family} (hf : ∀ f ∈ families, f.Settled) :
    lines (render families) = renderLines families ++ [[]] :=
  lines_render_of_readable (fun f hmem => (hf f hmem).valid.name) fun f hmem s hs l hl =>
    (readable_of_settled (hf f hmem) l (List.mem_flatMap.mpr ⟨s, hs, hl⟩)).1

theorem parse_render {families : List Family} (hf : ∀ f ∈ families, f.Settled)
    (hn : (families.map Family.name).Nodup) :
    parse (render families) = .ok (families.map Family.complete) := by
  obtain ⟨n, a, fs, hfold, hclose, hfs⟩ := foldlM_renderLines (n := 1) (a := .start) hf rfl hn
  -- the text ends in a newline, so an empty line comes last
  have hlast : fileText (n, a) [] = .ok (n + 1, a) := rfl
  rw [parse, lines_render_of_settled hf, List.foldlM_append, hfold]
  change (List.foldlM _ _ _ >>= _) = _
  rw [List.foldlM_cons, hlast]
  change (a.close >>= _) = _
  rw [hclose]
  exact congrArg Except.ok hfs

theorem parse_render_of_parse {text : String} {families : List Family}
    (h : parse text = .ok families) :
    parse (render families) = .ok (families.map Family.complete) := by
  obtain ⟨hf, hn⟩ := settled_of_parse h
  exact parse_render hf hn

/-- A series line that belongs to no family yet has the name of the sum of the next one. -/
theorem parse_render_of_parse_sum_apart :
    let one : Binary64 := ⟨0x3FF0000000000000⟩
    let two : Binary64 := ⟨0x4000000000000000⟩
    let four : Binary64 := ⟨0x4010000000000000⟩
    let apart : Family := ⟨"h_sum", "", .untyped, [⟨.empty, .untyped two, none⟩]⟩
    let families : List Family :=
      [apart, ⟨"h", "", .histogram, [⟨.empty, .histogram [⟨one, two⟩] .zero four, some 7⟩]⟩]
    parse "h_sum 2\n# TYPE h histogram\nh_bucket\x7ble=\"1\"\x7d 2 7\r\nh_count 4" = .ok families ∧
      parse (render families) = .ok [apart, ⟨"h", "", .histogram,
        [⟨.empty, .histogram [⟨one, two⟩, ⟨.infinity, four⟩] .zero four, some 7⟩]⟩] := by
  intro one two four apart families
  have h : parse "h_sum 2\n# TYPE h histogram\nh_bucket\x7ble=\"1\"\x7d 2 7\r\nh_count 4"
      = .ok families := by decide +kernel
  exact ⟨h, (parse_render_of_parse h).trans (by decide +kernel)⟩

end PushGateway.Exposition
