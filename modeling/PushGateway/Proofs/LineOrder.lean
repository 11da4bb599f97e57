import PushGateway.Proofs.GatheredSamples

/-! The lines of a histogram or a summary may come in any order. Label sets may be interleaved, and
whether a bound, a sum or a count is given twice does not depend on which line comes first. -/

namespace PushGateway.Exposition

section Texts

/-- The lines that open a block: its help, if it has any, and its type. -/
inductive Opens (h : Heading) : Option String → List (List Char) → Prop
  | typed {cs : List Char} (type : readLine cs = .ok (.type h.family h.type)) : Opens h none [cs]
  | helped {cs cs' : List Char} {text : String} (help : readLine cs = .ok (.help h.family text))
      (type : readLine cs' = .ok (.type h.family h.type)) : Opens h (some text) [cs, cs']

/-- A line of a block: a sample line without a time, or a line that says nothing. -/
def Heading.Gathers (h : Heading) : Line → Prop
  | .skip => True
  | .series l => h.Untimed l
  | .help .. | .type .. => False

instance (h : Heading) : DecidablePred h.Gathers
  | .skip => isTrue trivial
  | .series l => inferInstanceAs (Decidable (h.Untimed l))
  | .help .. | .type .. => isFalse id

def Line.series? : Line → Option SeriesLine
  | .series l => some l
  | .skip | .help .. | .type .. => none

/-- The sample lines among the lines of a text. -/
def seriesIn (ls : List (List Char)) : List SeriesLine := (readableLines ls).filterMap Line.series?

/-- The block of the heading before its first sample line. -/
def Heading.block (h : Heading) (help : Option String) : Block :=
  ⟨h.family, 1, help, some h.type, #[], []⟩

variable {h : Heading} {help : Option String} {head ls ls' : List (List Char)} {b c : Block}
  {fs : Array Family} {n : Nat} {r : Nat × Assembly} {l : SeriesLine} {text text' : String}

lemma file_series_eq_ok_iff {a : Assembly} (hm : (b.role? l.metric).isSome = true) :
    Assembly.file ⟨fs, some b⟩ n (.series l) = .ok a ↔
      ∃ c, b.addSeries l = .ok c ∧ a = ⟨fs, some c⟩ := by
  have howner : Assembly.owner ⟨fs, some b⟩ l.metric = b.name := if_pos hm
  rw [Assembly.file, howner, amend_eq_ok_iff, enter_open rfl rfl]
  constructor
  · rintro ⟨fs', b', c, he, hc, rfl⟩
    obtain ⟨rfl, rfl⟩ := Prod.mk.inj (Except.ok.inj he)
    exact ⟨c, hc, rfl⟩
  · rintro ⟨c, hc, rfl⟩
    exact ⟨fs, b, c, rfl, hc, rfl⟩

lemma isSome_role?_of_untimed (hl : b.heading.Untimed l) : (b.role? l.metric).isSome = true := by
  obtain ⟨-, r, hr, hmetric⟩ := hl
  have hrole : b.role? (b.name ++ r.suffix) = some r := role?_suffix hr
  rw [hmetric]
  exact Option.isSome_iff_exists.mpr ⟨r, hrole⟩

lemma foldlM_opens (ho : Opens h help head) :
    ∃ n, head.foldlM fileText (1, .start) = .ok (n, ⟨#[], some (h.block help)⟩) := by
  cases ho with
  | @typed cs htype =>
    have hfile : Assembly.start.file 1 (.type h.family h.type)
        = .ok ⟨#[], some (h.block none)⟩ := by
      rw [Assembly.file, amend_eq_ok_iff]
      exact ⟨#[], .empty h.family 1, h.block none, enter_start _, rfl, rfl⟩
    refine ⟨2, ?_⟩
    rw [List.foldlM_cons, fileText_eq_ok_iff.mpr ⟨_, _, htype, hfile, rfl⟩]
    rfl
  | @helped cs cs' text hhelp htype =>
    let b : Block := ⟨h.family, 1, some text, none, #[], []⟩
    have hfirst : Assembly.start.file 1 (.help h.family text) = .ok ⟨#[], some b⟩ := by
      rw [Assembly.file, amend_eq_ok_iff]
      exact ⟨#[], .empty h.family 1, b, enter_start _, rfl, rfl⟩
    have hsecond : Assembly.file ⟨#[], some b⟩ 2 (.type h.family h.type)
        = .ok ⟨#[], some (h.block (some text))⟩ := by
      rw [Assembly.file, amend_eq_ok_iff]
      exact ⟨#[], b, h.block (some text), enter_open rfl rfl, rfl, rfl⟩
    refine ⟨3, ?_⟩
    rw [List.foldlM_cons, fileText_eq_ok_iff.mpr ⟨_, _, hhelp, hfirst, rfl⟩]
    change List.foldlM fileText (2, _) [cs'] = _
    rw [List.foldlM_cons, fileText_eq_ok_iff.mpr ⟨_, _, htype, hsecond, rfl⟩]
    rfl

lemma frame_foldlM {ls : List SeriesLine} (hc : ls.foldlM Block.addSeries b = .ok c) :
    c.heading = b.heading ∧ c.help = b.help := by
  induction ls generalizing b with
  | nil =>
    obtain rfl := Except.ok.inj hc
    exact ⟨rfl, rfl⟩
  | cons l ls ih =>
    rw [List.foldlM_cons, bind_eq_ok_iff] at hc
    obtain ⟨d, hd, hc⟩ := hc
    obtain ⟨hheading, hhelp⟩ := ih hc
    have hsame : d.help = b.help := by
      rcases addSeries_cases hd with rfl | ⟨labels, f, rfl, -⟩ <;> rfl
    exact ⟨hheading.trans (heading_addSeries hd), hhelp.trans hsame⟩

lemma seriesIn_cons {cs : List Char} {line : Line} (hread : readLine cs = .ok line) :
    seriesIn (cs :: ls) = line.series?.toList ++ seriesIn ls := by
  rw [seriesIn, readableLines_cons hread, List.filterMap_cons]
  cases line <;> rfl

lemma fileText_gathered {cs : List Char} {line : Line} (hread : readLine cs = .ok line)
    (hline : b.heading.Gathers line) : fileText (n, ⟨fs, some b⟩) cs = .ok r ↔
      ∃ c, line.series?.toList.foldlM Block.addSeries b = .ok c ∧ r = (n + 1, ⟨fs, some c⟩) := by
  rw [fileText_eq_ok_iff]
  constructor
  · rintro ⟨line', a, hread', hfile, rfl⟩
    obtain rfl := Except.ok.inj (hread.symm.trans hread')
    cases line with
    | skip =>
      obtain rfl := Except.ok.inj hfile
      exact ⟨b, rfl, rfl⟩
    | series l =>
      obtain ⟨c, hc, rfl⟩ := (file_series_eq_ok_iff (isSome_role?_of_untimed hline)).mp hfile
      exact ⟨c, bind_eq_ok_iff.mpr ⟨c, hc, rfl⟩, rfl⟩
    | help family text => cases hline
    | type family t => cases hline
  · rintro ⟨c, hc, rfl⟩
    refine ⟨line, ⟨fs, some c⟩, hread, ?_, rfl⟩
    cases line with
    | skip =>
      obtain rfl := Except.ok.inj hc
      rfl
    | series l =>
      obtain ⟨d, hd, hdc⟩ := bind_eq_ok_iff.mp hc
      obtain rfl := Except.ok.inj hdc
      exact (file_series_eq_ok_iff (isSome_role?_of_untimed hline)).mpr ⟨d, hd, rfl⟩
    | help family text => cases hline
    | type family t => cases hline

/-- Under its heading a block takes the sample lines and nothing else. -/
lemma foldlM_gathered {a : Assembly}
    (hls : ∀ line ∈ readableLines ls, b.heading.Gathers line) :
    (∃ n', ls.foldlM fileText (n, ⟨fs, some b⟩) = .ok (n', a)) ↔
      (∀ cs ∈ ls, ∃ line, readLine cs = .ok line) ∧
      ∃ c, (seriesIn ls).foldlM Block.addSeries b = .ok c ∧ a = ⟨fs, some c⟩ := by
  induction ls generalizing n b with
  | nil =>
    constructor
    · rintro ⟨n', h⟩
      obtain ⟨-, rfl⟩ := Prod.mk.inj (Except.ok.inj h)
      exact ⟨by simp, b, rfl, rfl⟩
    · rintro ⟨-, c, hc, rfl⟩
      obtain rfl := Except.ok.inj hc
      exact ⟨n, rfl⟩
  | cons cs ls ih =>
    cases hread : readLine cs with
    | error e =>
      constructor
      · rintro ⟨n', h⟩
        obtain ⟨line, hline⟩ := exists_line_of_foldlM h cs List.mem_cons_self
        rw [hread] at hline
        cases hline
      · rintro ⟨hall, -⟩
        obtain ⟨line, hline⟩ := hall cs List.mem_cons_self
        rw [hread] at hline
        cases hline
    | ok line =>
      rw [readableLines_cons hread, List.forall_mem_cons] at hls
      have hrest {d : Block} (hd : line.series?.toList.foldlM Block.addSeries b = .ok d) :
          ∀ line ∈ readableLines ls, d.heading.Gathers line := (frame_foldlM hd).1 ▸ hls.2
      rw [seriesIn_cons hread, List.foldlM_cons]
      simp only [List.foldlM_append, bind_eq_ok_iff]
      constructor
      · rintro ⟨n', r, hr, h⟩
        obtain ⟨d, hd, rfl⟩ := (fileText_gathered hread hls.1).mp hr
        obtain ⟨hall, c, hc, rfl⟩ := (ih (hrest hd)).mp ⟨n', h⟩
        exact ⟨List.forall_mem_cons.mpr ⟨⟨line, hread⟩, hall⟩, c, ⟨d, hd, hc⟩, rfl⟩
      · rintro ⟨hall, c, ⟨d, hd, hc⟩, rfl⟩
        obtain ⟨n', h⟩ :=
          (ih (n := n + 1) (hrest hd)).mpr ⟨(List.forall_mem_cons.mp hall).2, c, hc, rfl⟩
        exact ⟨n', _, (fileText_gathered hread hls.1).mpr ⟨d, hd, rfl⟩, h⟩

lemma parse_gathered_iff {families : List Family} (ho : Opens h help head)
    (hls : ∀ line ∈ readableLines ls, h.Gathers line) (hl : lines text = head ++ ls) :
    parse text = .ok families ↔ (∀ cs ∈ ls, ∃ line, readLine cs = .ok line) ∧
      ∃ c f, (seriesIn ls).foldlM Block.addSeries (h.block help) = .ok c ∧ c.build = .ok f ∧
        families = [f] := by
  obtain ⟨n, hn⟩ := foldlM_opens ho
  have hfold (n' : Nat) (a : Assembly) : (lines text).foldlM fileText (1, .start) = .ok (n', a) ↔
      ls.foldlM fileText (n, ⟨#[], some (h.block help)⟩) = .ok (n', a) := by
    rw [hl, List.foldlM_append, hn]
    rfl
  have hgathered {a : Assembly} :
      (∃ n', ls.foldlM fileText (n, ⟨#[], some (h.block help)⟩) = .ok (n', a)) ↔
        (∀ cs ∈ ls, ∃ line, readLine cs = .ok line) ∧
        ∃ c, (seriesIn ls).foldlM Block.addSeries (h.block help) = .ok c ∧ a = ⟨#[], some c⟩ :=
    foldlM_gathered hls
  constructor
  · intro hparse
    obtain ⟨⟨n', a⟩, hlines, hparse⟩ := bind_eq_ok_iff.mp hparse
    obtain ⟨hall, c, hc, rfl⟩ := hgathered.mp ⟨n', (hfold n' a).mp hlines⟩
    obtain ⟨fs, hclose, hparse⟩ := bind_eq_ok_iff.mp hparse
    obtain rfl := Except.ok.inj hparse
    unfold Assembly.close at hclose
    dsimp only at hclose
    split at hclose
    · next f hf =>
      obtain rfl := Except.ok.inj hclose
      exact ⟨hall, c, f, hc, hf, rfl⟩
    · cases hclose
  · rintro ⟨hall, c, f, hc, hf, rfl⟩
    obtain ⟨n', h⟩ := hgathered.mpr ⟨hall, c, hc, rfl⟩
    have hclose : Assembly.close ⟨#[], some c⟩ = .ok #[f] := by
      simp only [Assembly.close, hf]
      rfl
    exact parse_of_close ((hfold n' _).mpr h) hclose

/-- The series lines that a block gathers belong to it. -/
lemma untimed_of_mem_seriesIn (hls : ∀ line ∈ readableLines ls, h.Gathers line)
    (hl : l ∈ seriesIn ls) : h.Untimed l := by
  obtain ⟨line, hline, hseries⟩ := List.mem_filterMap.mp hl
  have hgathers := hls line hline
  cases line with
  | series l' =>
    obtain rfl := Option.some.inj hseries
    exact hgathers
  | skip | help family text | type family t => cases hseries

lemma parse_of_perm {families : List Family} (hk : Composed h.type) (ho : Opens h help head)
    (hls : ∀ line ∈ readableLines ls, h.Gathers line) (hp : ls.Perm ls')
    (hl : lines text = head ++ ls) (hl' : lines text' = head ++ ls')
    (hf : parse text = .ok families) : ∃ ss ss',
      families = [⟨h.family, help.getD "", h.type, ss⟩] ∧
      parse text' = .ok [⟨h.family, help.getD "", h.type, ss'⟩] ∧
      ((∀ s ∈ ss, ∀ x ∈ s.value.bounds, x.isNaN = false) → ss.Perm ss') := by
  have hseries : (seriesIn ls).Perm (seriesIn ls') := (hp.filterMap _).filterMap _
  have hls' : ∀ line ∈ readableLines ls', h.Gathers line :=
    fun line hmem => hls line ((hp.filterMap _).mem_iff.mpr hmem)
  obtain ⟨hall, c, f, hc, hbuild, rfl⟩ := (parse_gathered_iff ho hls hl).mp hf
  obtain ⟨hheading, hhelp⟩ := frame_foldlM hc
  obtain ⟨c', hc', halike⟩ := foldlM_addSeries_perm (b := h.block help) hseries hk List.nodup_nil
    (fun l hmem => untimed_of_mem_seriesIn hls hmem) hc
  have hkind : c.kind = h.type := congrArg Heading.type hheading
  obtain ⟨ss, ss', rfl, hbuild', hperm⟩ := halike.build (hkind ▸ hk) hbuild
  have hname : c.name = h.family := congrArg Heading.family hheading
  rw [hname, hhelp, hkind] at hbuild' ⊢
  have hall' : ∀ cs ∈ ls', ∃ line, readLine cs = .ok line :=
    fun cs hcs => hall cs (hp.mem_iff.mpr hcs)
  exact ⟨ss, ss', rfl,
    (parse_gathered_iff ho hls' hl').mpr ⟨hall', c', _, hc', hbuild', rfl⟩, hperm⟩

end Texts

/-- The sample lines of a histogram or a summary, if they have no time, may come in any order. Only
the order of the samples depends on it, unless a bound is a NaN. -/
theorem parse_independent_of_line_order {h : Heading} {help : Option String}
    {head ls ls' : List (List Char)} {text text' : String} (hk : Composed h.type)
    (ho : Opens h help head) (hls : ∀ line ∈ readableLines ls, h.Gathers line) (hp : ls.Perm ls')
    (hl : lines text = head ++ ls) (hl' : lines text' = head ++ ls') :
    ((∃ families, parse text = .ok families) ↔ ∃ families, parse text' = .ok families) ∧
    ∀ families families', parse text = .ok families → parse text' = .ok families' →
      ∃ ss ss', families = [⟨h.family, help.getD "", h.type, ss⟩] ∧
        families' = [⟨h.family, help.getD "", h.type, ss'⟩] ∧
        ((∀ s ∈ ss, ∀ x ∈ s.value.bounds, x.isNaN = false) → ss.Perm ss') := by
  have hls' : ∀ line ∈ readableLines ls', h.Gathers line :=
    fun line hmem => hls line ((hp.filterMap _).mem_iff.mpr hmem)
  refine ⟨⟨?_, ?_⟩, fun families families' hf hf' => ?_⟩
  · rintro ⟨families, hf⟩
    obtain ⟨ss, ss', -, hf', -⟩ := parse_of_perm hk ho hls hp hl hl' hf
    exact ⟨_, hf'⟩
  · rintro ⟨families, hf⟩
    obtain ⟨ss, ss', -, hf', -⟩ := parse_of_perm hk ho hls' hp.symm hl' hl hf
    exact ⟨_, hf'⟩
  · obtain ⟨ss, ss', rfl, hparse, hperm⟩ := parse_of_perm hk ho hls hp hl hl' hf
    rw [hparse] at hf'
    obtain rfl := Except.ok.inj hf'
    exact ⟨ss, ss', rfl, rfl, hperm⟩

/-- Two label sets whose lines are interleaved, and an empty line that comes among them. -/
theorem parse_independent_of_line_order_interleaved :
    let one : Binary64 := ⟨0x3FF0000000000000⟩
    let two : Binary64 := ⟨0x4000000000000000⟩
    let x : Sample := ⟨.ofList [("a", "x")], .histogram [⟨one, one⟩, ⟨two, two⟩] two .zero, none⟩
    let y : Sample := ⟨.ofList [("a", "y")], .histogram [] .zero one, none⟩
    let text : String := "# HELP h sizes\n# TYPE h histogram\n" ++
      "h_bucket\x7ba=\"x\",le=\"2\"\x7d 2\nh_count\x7ba=\"y\"\x7d 1\n" ++
      "h_bucket\x7ble=\"1\",a=\"x\"\x7d 1\nh_sum\x7ba=\"x\"\x7d 2\n"
    let text' : String := "# HELP h sizes\n# TYPE h histogram\nh_count\x7ba=\"y\"\x7d 1\n\n" ++
      "h_bucket\x7ble=\"1\",a=\"x\"\x7d 1\nh_sum\x7ba=\"x\"\x7d 2\n" ++
      "h_bucket\x7ba=\"x\",le=\"2\"\x7d 2"
    parse text = .ok [⟨"h", "sizes", .histogram, [x, y]⟩] ∧
      ∃ ss, parse text' = .ok [⟨"h", "sizes", .histogram, ss⟩] ∧ [x, y].Perm ss := by
  intro one two x y text text'
  let start : List (List Char) := ["# HELP h sizes".toList, "# TYPE h histogram".toList]
  let bucket : List Char := "h_bucket\x7ba=\"x\",le=\"2\"\x7d 2".toList
  let bucket' : List Char := "h_bucket\x7ble=\"1\",a=\"x\"\x7d 1".toList
  let sum : List Char := "h_sum\x7ba=\"x\"\x7d 2".toList
  let count : List Char := "h_count\x7ba=\"y\"\x7d 1".toList
  have htext : lines text = start ++ [bucket, count, bucket', sum, []] := by decide +kernel
  have htext' : lines text' = start ++ [count, [], bucket', sum, bucket] := by decide +kernel
  have hsort : Block.sortPoints #[(two, two), (one, one)] = [(one, one), (two, two)] :=
    sortPoints_eq (by decide +kernel) (by decide +kernel)
  have hsort' : Block.sortPoints #[] = [] := List.mergeSort_nil
  have hlines : (lines text).foldlM fileText (1, .start)
      = .ok (8, ⟨#[], some ⟨"h", 1, some "sizes", some .histogram, #[],
        [⟨.ofList [("a", "x")], #[(two, two), (one, one)], some two, none, none⟩,
          ⟨.ofList [("a", "y")], #[], none, some one, none⟩]⟩⟩) := by
    rw [htext]
    decide +kernel
  have hclose : Assembly.close ⟨#[], some ⟨"h", 1, some "sizes", some .histogram, #[],
      [⟨.ofList [("a", "x")], #[(two, two), (one, one)], some two, none, none⟩,
        ⟨.ofList [("a", "y")], #[], none, some one, none⟩]⟩⟩
      = .ok #[⟨"h", "sizes", .histogram, [x, y]⟩] := by
    simp only [Assembly.close, Block.build, Block.allSamples, Block.kind, Option.getD,
      List.mapM_cons, Block.histogramSample, Block.orderedPoints, hsort, hsort']
    decide +kernel
  have hparse : parse text = .ok [⟨"h", "sizes", .histogram, [x, y]⟩] :=
    parse_of_close hlines hclose
  have hopens : Opens ⟨"h", .histogram⟩ (some "sizes") start :=
    .helped (by decide +kernel) (by decide +kernel)
  obtain ⟨haccepts, hsame⟩ := parse_independent_of_line_order (by decide) hopens
    (by decide +kernel) (by decide +kernel) htext htext'
  obtain ⟨families, hparse'⟩ := haccepts.mp ⟨_, hparse⟩
  obtain ⟨ss, ss', heq, rfl, hperm⟩ := hsame _ _ hparse hparse'
  obtain rfl : [x, y] = ss := congrArg Family.samples (List.head_eq_of_cons_eq heq)
  exact ⟨hparse, ss', hparse', hperm (by decide +kernel)⟩

end PushGateway.Exposition
