import PushGateway.Proofs.AddedGroup

/-! What the text of families tells about them. Heading lines start with a mark that no series line
starts with, so the text falls apart into families, and each of them into help, type and lines. -/

namespace PushGateway

open Exposition

namespace Exposition

def sampleLines (name : String) (ss : List Sample) : List (List Char) :=
  (ss.flatMap (seriesLines name)).map SeriesLine.text

/-- What is written of a family. -/
def written (f : Family) : String × Merge.Definition × List (List Char) :=
  (f.name, ⟨f.metricType, f.help⟩, sampleLines f.name f.samples)

def plain (line : List Char) : Bool := line.head? != some '#'

section Headings

variable {f f' : Family}

lemma helpLine_not_plain (f : Family) : plain (helpLine f) = false := rfl

lemma typeLine_inj (hn : Name.isMetricName f.name = true) (hn' : Name.isMetricName f'.name = true)
    (h : typeLine f = typeLine f') : f.name = f'.name ∧ f.metricType = f'.metricType := by
  have hread := congrArg readLine h
  rw [readLine_typeLine hn, readLine_typeLine hn'] at hread
  exact Line.type.inj (Except.ok.inj hread)

lemma escapeHelp_inj {cs cs' : List Char} (h : Text.escapeHelp cs = Text.escapeHelp cs') :
    cs = cs' := by
  have hread := congrArg (Text.unescapeHelp []) h
  rw [Text.unescapeHelp_escapeHelp, Text.unescapeHelp_escapeHelp] at hread
  exact Except.ok.inj hread

lemma helpLine_inj (hn : f.name = f'.name) (h : helpLine f = helpLine f') : f.help = f'.help := by
  unfold helpLine at h
  rw [hn, List.append_cancel_left_eq] at h
  by_cases he : f.help.isEmpty = true
  · by_cases he' : f'.help.isEmpty = true
    · rw [String.isEmpty_iff.mp he, String.isEmpty_iff.mp he']
    · simp [he, he'] at h
  · by_cases he' : f'.help.isEmpty = true
    · simp [he, he'] at h
    · rw [if_neg he, if_neg he'] at h
      exact String.toList_injective (escapeHelp_inj (List.cons.inj h).2)

end Headings

section Lines

lemma plain_text {l : SeriesLine} (h : l.Readable) : plain l.text = true := by
  obtain ⟨hne, hchars⟩ := Name.isMetricChar_of_isMetricName h.metric
  obtain ⟨c, cs, hname⟩ := List.exists_cons_of_ne_nil hne
  have hhead : l.text.head? = some c := by
    rw [l.text_eq, hname]
    rfl
  rw [plain, hhead]
  have hc := hchars c (by rw [hname]; exact List.mem_cons_self)
  rw [bne_iff_ne, ne_eq, Option.some.injEq]
  rintro rfl
  exact absurd hc (by decide)

lemma plain_sampleLines {name : String} {ss : List Sample}
    (h : ∀ s ∈ ss, ∀ l ∈ seriesLines name s, l.Readable) :
    ∀ line ∈ sampleLines name ss, plain line = true := by
  intro line hline
  obtain ⟨l, hl, rfl⟩ := List.mem_map.mp hline
  obtain ⟨s, hs, hl⟩ := List.mem_flatMap.mp hl
  exact plain_text (h s hs l hl)

lemma renderLines_cons (f : Family) (fs : List Family) : renderLines (f :: fs)
    = helpLine f :: typeLine f :: (sampleLines f.name f.samples ++ renderLines fs) :=
  List.flatMap_cons

lemma head?_renderLines (fs : List Family) :
    ∀ line ∈ (renderLines fs).head?, plain line = false := by
  cases fs with
  | nil => simp [renderLines]
  | cons f fs =>
    rw [renderLines_cons]
    rintro line ⟨⟩
    exact helpLine_not_plain f

end Lines

/-- A name and series lines that are read back. -/
structure Legible (f : Family) : Prop where
  name : Name.isMetricName f.name = true
  lines : ∀ s ∈ f.samples, ∀ l ∈ seriesLines f.name s, l.Readable

lemma map_written_of_renderLines {fs fs' : List Family} (hf : ∀ f ∈ fs, Legible f)
    (hf' : ∀ f ∈ fs', Legible f) (h : renderLines fs = renderLines fs') :
    fs.map written = fs'.map written := by
  induction fs generalizing fs' with
  | nil =>
    cases fs' with
    | nil => rfl
    | cons f' fs' => cases h
  | cons f fs ih =>
    cases fs' with
    | nil => cases h
    | cons f' fs' =>
      obtain ⟨hlegible, hf⟩ := List.forall_mem_cons.mp hf
      obtain ⟨hlegible', hf'⟩ := List.forall_mem_cons.mp hf'
      rw [renderLines_cons, renderLines_cons, List.cons.injEq, List.cons.injEq] at h
      obtain ⟨hhelp, htype, hrest⟩ := h
      obtain ⟨hname, htype⟩ := typeLine_inj hlegible.name hlegible'.name htype
      -- the lines of the first family end at the next line with a mark
      have hspan := span_append (plain_sampleLines hlegible.lines) (head?_renderLines fs)
      have hspan' := span_append (plain_sampleLines hlegible'.lines) (head?_renderLines fs')
      rw [hrest] at hspan
      have hlines := hspan.1.symm.trans hspan'.1
      rw [List.map_cons, List.map_cons, ih hf hf' (hspan.2.symm.trans hspan'.2), written, written,
        hlines, helpLine_inj hname hhelp, htype, hname]

lemma renderLines_of_map_written {fs fs' : List Family} (h : fs.map written = fs'.map written) :
    renderLines fs = renderLines fs' := by
  have hlines (f : Family) : familyLines f = helpLine ⟨f.name, f.help, f.metricType, []⟩ ::
      typeLine ⟨f.name, f.help, f.metricType, []⟩ :: sampleLines f.name f.samples := rfl
  have hmap (fs : List Family) : renderLines fs = (fs.map written).flatMap fun w =>
      helpLine ⟨w.1, w.2.1.help, w.2.1.type, []⟩ :: typeLine ⟨w.1, w.2.1.help, w.2.1.type, []⟩ ::
        w.2.2 := by
    rw [List.flatMap_map]
    exact List.flatMap_congr fun f _ => hlines f
  rw [hmap, hmap, h]

end Exposition

namespace Merge

variable {groups groups' : List Group}

lemma legible_of_mem_merge (hd : Distinct groups) : ∀ m ∈ (merge groups).families, Legible m :=
  fun _ hm => ⟨metricName_of_mem_merge hd hm, fun _ hs _ hl => readable_of_mem_merge hd hm hs hl⟩

lemma map_written_merge (hd : Distinct groups) : (merge groups).families.map written =
    (definitions (ranked groups)).entries.map fun p =>
      (p.1, p.2, sampleLines p.1 (survivors groups p.1)) := by
  rw [families_merge hd, List.map_map]
  rfl

lemma render_eq_iff_written (hd : Distinct groups) (hd' : Distinct groups') :
    render (merge groups).families = render (merge groups').families ↔
      (merge groups).families.map written = (merge groups').families.map written := by
  constructor
  · intro h
    have hlines := congrArg lines h
    rw [lines_render_of_distinct hd, lines_render_of_distinct hd'] at hlines
    exact map_written_of_renderLines (legible_of_mem_merge hd) (legible_of_mem_merge hd')
      (List.append_cancel_right hlines)
  · intro h
    rw [render, render, renderLines_of_map_written h]

lemma survivors_eq_nil (hd : Distinct groups) {name : String}
    (h : (definitions (ranked groups)).get? name = none) : survivors groups name = [] := by
  refine List.flatMap_eq_nil_iff.mpr fun g hg => ?_
  have hnone : g.families.get? name = none := by
    rw [← Option.not_isSome_iff_eq_none]
    intro hs
    obtain ⟨i, f, hl⟩ := exists_leads hd hg hs
    rw [(get?_definitions hd).mpr ⟨i, f, hl, rfl⟩] at h
    cases h
  simp [named, hnone]

/-- Two tables serve the same text exactly when they agree on what defines a family and on the lines
of its samples. -/
theorem render_merge_eq_iff (hd : Distinct groups) (hd' : Distinct groups') :
    render (merge groups).families = render (merge groups').families ↔
      definitions (ranked groups) = definitions (ranked groups') ∧
      ∀ name, sampleLines name (survivors groups name)
        = sampleLines name (survivors groups' name) := by
  rw [render_eq_iff_written hd hd', map_written_merge hd, map_written_merge hd']
  constructor
  · intro h
    have hdefs : definitions (ranked groups) = definitions (ranked groups') := by
      apply SortedMap.ext
      have hmap := congrArg (List.map fun w => (w.1, w.2.1)) h
      simpa [Function.comp_def] using hmap
    refine ⟨hdefs, fun name => ?_⟩
    cases hget : (definitions (ranked groups)).get? name with
    | none => rw [survivors_eq_nil hd hget, survivors_eq_nil hd' (hdefs ▸ hget)]
    | some d =>
      rw [← hdefs] at h
      have heq := List.map_inj_left.mp h (name, d) (SortedMap.get?_eq_some_iff.mp hget)
      exact congrArg (fun w => w.2.2) heq
  · rintro ⟨hdefs, hlines⟩
    rw [← hdefs]
    refine List.map_congr_left fun p _ => ?_
    rw [hlines p.1]

end Merge

end PushGateway
