import PushGateway.Proofs.ServedSeries

/-! What the sample lines of a text say: the family that each comes under, the metric name, the
labels and the number. The bound of a bucket or quantile line is compared as a number, so what a
line says depends on the lines before it, which give its family and its type. -/

namespace PushGateway.Exposition

/-- The family that sample lines come under. -/
structure Heading where
  family : String
  type : MetricType
  deriving DecidableEq

/-- A sample line as read. The labels of a line with a bound are those without it. -/
structure Reading where
  family : String
  metric : String
  labels : Labels
  bound : Option Binary64
  value : Binary64
  deriving DecidableEq

section Headings

namespace Heading

def role? (h : Heading) (metric : String) : Option Role :=
  (rolesOf h.type).find? fun r => h.family ++ r.suffix == metric

/-- The last heading if it is of the family, else a new one. -/
def ofFamily (h? : Option Heading) (family : String) : Heading :=
  (h?.filter fun h => h.family == family).getD ⟨family, .untyped⟩

/-- The last heading if the metric is one of its family, else a new one. -/
def ofMetric (h? : Option Heading) (metric : String) : Heading :=
  (h?.filter fun h => (h.role? metric).isSome).getD ⟨metric, .untyped⟩

def after (h? : Option Heading) : Line → Option Heading
  | .skip => h?
  | .help family _ => some (ofFamily h? family)
  | .type family t => some ⟨family, t⟩
  | .series l => some (ofMetric h? l.metric)

end Heading

def SeriesLine.reading (l : SeriesLine) (h : Heading) : Reading :=
  let labels : Labels := SortedMap.ofList l.labels
  match (h.role? l.metric).bind Role.bound? with
  | some label => ⟨h.family, l.metric, labels.erase label,
      (labels.get? label).bind fun raw => readValue? raw.toList, l.value⟩
  | none => ⟨h.family, l.metric, labels, none, l.value⟩

/-- What a line under the heading says, if it is a sample line. -/
def Line.reading? (h? : Option Heading) : Line → Option Reading
  | .series l => h?.map l.reading
  | .skip | .help .. | .type .. => none

def readings (h? : Option Heading) : List Line → List Reading
  | [] => []
  | line :: ls =>
    let h? := Heading.after h? line
    (line.reading? h?).toList ++ readings h? ls

def readableLines (ls : List (List Char)) : List Line :=
  ls.filterMap fun cs => (readLine cs).toOption

def sampleReadings (text : String) : List Reading := readings none (readableLines (lines text))

variable {h : Heading} {h? : Option Heading} {metric : String} {r : Role}

namespace Heading

lemma role?_eq_some_iff :
    h.role? metric = some r ↔ r ∈ rolesOf h.type ∧ metric = h.family ++ r.suffix := by
  constructor
  · intro hr
    have hname : h.family ++ r.suffix = metric := by simpa using List.find?_some hr
    exact ⟨List.mem_of_find?_eq_some hr, hname.symm⟩
  · rintro ⟨hr, rfl⟩
    -- a type has no two roles with one suffix
    have heq : (fun r' : Role => h.family ++ r'.suffix == h.family ++ r.suffix)
        = fun r' => r'.suffix == r.suffix := by
      funext r'
      rw [Bool.eq_iff_iff, beq_iff_eq, beq_iff_eq]
      exact ⟨append_inj_right, congrArg _⟩
    rw [role?, heq]
    revert hr
    cases h.type <;> cases r <;> decide

lemma ofMetric_of_role? (hr : (h.role? metric).isSome = true) : ofMetric (some h) metric = h := by
  rw [ofMetric, Option.filter_some, if_pos hr]
  rfl

end Heading

/-- Lines of the metrics of one family stay under its heading. -/
lemma readings_series {ls : List SeriesLine} (hr : ∀ l ∈ ls, (h.role? l.metric).isSome = true)
    (more : List Line) : readings (some h) (ls.map .series ++ more)
      = ls.map (fun l => l.reading h) ++ readings (some h) more := by
  induction ls with
  | nil => rfl
  | cons l ls ih =>
    obtain ⟨hl, hr⟩ := List.forall_mem_cons.mp hr
    have hafter : Heading.after (some h) (.series l) = some h :=
      congrArg some (Heading.ofMetric_of_role? hl)
    rw [List.map_cons, List.cons_append, readings, hafter, ih hr]
    rfl

end Headings

section Lines

variable {h : Heading} {metric label : String} {r : Role} {labels : Labels}
  {timestamp : Option Int64} {l : SeriesLine}

lemma reading_of_bound (hr : h.role? l.metric = some r) (hb : r.bound? = some label) :
    l.reading h = ⟨h.family, l.metric, (SortedMap.ofList l.labels : Labels).erase label,
      ((SortedMap.ofList l.labels : Labels).get? label).bind fun raw => readValue? raw.toList,
      l.value⟩ := by
  simp only [SeriesLine.reading, hr, Option.bind_some, hb]

/-- The metric of the lines with a bound. -/
def Heading.pointName (h : Heading) : String :=
  match h.type with
  | .histogram => bucketName h.family
  | .summary | .counter | .gauge | .untyped => h.family

def Heading.point (h : Heading) (labels : Labels) (p : Binary64 × Binary64) : Reading :=
  ⟨h.family, h.pointName, labels, some p.1, p.2⟩

def Heading.total (h : Heading) (metric : String) (labels : Labels) (x : Binary64) : Reading :=
  ⟨h.family, metric, labels, none, x⟩

lemma reading_total (hr : h.role? l.metric = some r) (hb : r.bound? = none) :
    l.reading h = h.total l.metric (SortedMap.ofList l.labels) l.value := by
  simp only [SeriesLine.reading, hr, Option.bind_some, hb]
  rfl

lemma pointName_eq (hr : r ∈ rolesOf h.type) (hb : r.bound? = some label) :
    h.pointName = h.family ++ r.suffix := by
  unfold Heading.pointName
  revert hr hb
  cases h.type <;> cases r <;> simp [rolesOf, Role.bound?, Role.suffix, bucketName]

lemma reading_pointLine (hr : h.role? h.pointName = some r) (hb : r.bound? = some label)
    (hl : label ∉ labels.keys) {p : Binary64 × Binary64} (hp : p.1.collapse = p.1) :
    (pointLine h.pointName label labels timestamp p).reading h = h.point labels p := by
  obtain ⟨hget, herase⟩ := ofList_withBound hl p.1
  rw [reading_of_bound hr hb]
  simp only [pointLine, hget, herase, Option.bind_some, String.toList_ofList, readValue?_valueText,
    hp]
  rfl

lemma reading_entries (hr : h.role? metric = some r) (hb : r.bound? = none) (x : Binary64) :
    SeriesLine.reading ⟨metric, labels.entries, x, timestamp⟩ h = h.total metric labels x := by
  have hreading := reading_total (l := ⟨metric, labels.entries, x, timestamp⟩) hr hb
  rw [hreading, SortedMap.ofList_entries]

lemma readings_compositeLines (hr : h.role? h.pointName = some r) (hb : r.bound? = some label)
    (ht : Role.sum ∈ rolesOf h.type ∧ Role.count ∈ rolesOf h.type)
    (hl : label ∉ labels.keys) {ps : List (Binary64 × Binary64)}
    (hp : ∀ p ∈ ps, p.1.collapse = p.1) (sum count : Binary64) :
    (compositeLines h.family h.pointName label labels timestamp ps sum count).map
        (fun l => l.reading h)
      = ps.map (h.point labels) ++ [h.total (sumName h.family) labels sum,
          h.total (countName h.family) labels count] := by
  have hpoints : (ps.map (pointLine h.pointName label labels timestamp)).map
      (fun l => l.reading h) = ps.map (h.point labels) := by
    rw [List.map_map]
    exact List.map_congr_left fun p hmem => reading_pointLine hr hb hl (hp p hmem)
  have hsum : h.role? (sumName h.family) = some .sum := Heading.role?_eq_some_iff.mpr ⟨ht.1, rfl⟩
  have hcount : h.role? (countName h.family) = some .count :=
    Heading.role?_eq_some_iff.mpr ⟨ht.2, rfl⟩
  rw [compositeLines, List.map_append, hpoints]
  simp only [List.map_cons, List.map_nil]
  rw [reading_entries hsum rfl, reading_entries hcount rfl]

end Lines

section Rendered

variable {f : Family} {families : List Family} {s : Sample} {l : SeriesLine}

def headingOf (f : Family) : Heading := ⟨f.name, f.metricType⟩

/-- What the written lines of a sample say. -/
def Heading.written (h : Heading) (s : Sample) : List Reading :=
  (seriesLines h.family s).map fun l => l.reading h

/-- The lines of a family as they are read. -/
def linesOf (f : Family) : List Line :=
  .help f.name f.help :: .type f.name f.metricType ::
    (f.samples.flatMap (seriesLines f.name)).map .series

lemma readableLines_cons {cs : List Char} {line : Line} (h : readLine cs = .ok line)
    (ls : List (List Char)) : readableLines (cs :: ls) = line :: readableLines ls := by
  rw [readableLines, List.filterMap_cons, h]
  rfl

lemma readableLines_append (ls ls' : List (List Char)) :
    readableLines (ls ++ ls') = readableLines ls ++ readableLines ls' :=
  List.filterMap_append

lemma readableLines_texts {ls : List SeriesLine} (h : ∀ l ∈ ls, l.Readable ∧ l.collapse = l) :
    readableLines (ls.map SeriesLine.text) = ls.map .series := by
  induction ls with
  | nil => rfl
  | cons l ls ih =>
    obtain ⟨⟨hread, hsame⟩, h⟩ := List.forall_mem_cons.mp h
    have hline := readLine_text hread
    rw [hsame] at hline
    rw [List.map_cons, readableLines_cons hline, ih h]
    rfl

lemma readableLines_familyLines (hf : f.Settled) :
    readableLines (familyLines f) = linesOf f := by
  rw [familyLines, readableLines_cons (readLine_helpLine hf.valid.name hf.help),
    readableLines_cons (readLine_typeLine hf.valid.name),
    readableLines_texts (readable_of_settled hf)]
  rfl

lemma readableLines_renderLines (hf : ∀ f ∈ families, f.Settled) :
    readableLines (renderLines families) = families.flatMap linesOf := by
  induction families with
  | nil => rfl
  | cons f families ih =>
    obtain ⟨hsettled, hf⟩ := List.forall_mem_cons.mp hf
    rw [renderLines, List.flatMap_cons, readableLines_append, readableLines_familyLines hsettled,
      ← renderLines, ih hf]
    rfl

lemma role?_headingOf (hs : f.Accepts s) (hl : l ∈ seriesLines f.name s) :
    ((headingOf f).role? l.metric).isSome = true := by
  obtain ⟨r, hr⟩ := exists_writes hl
  have hrole := hr.role
  rw [hs.1] at hrole
  rw [Heading.role?_eq_some_iff.mpr ⟨hrole, hr.metric⟩]
  rfl

lemma readings_linesOf (hf : ∀ s ∈ f.samples, f.Accepts s) (h? : Option Heading)
    (more : List Line) : readings h? (linesOf f ++ more)
      = f.samples.flatMap (headingOf f).written ++ readings (some (headingOf f)) more := by
  have hroles : ∀ l ∈ f.samples.flatMap (seriesLines f.name),
      ((headingOf f).role? l.metric).isSome = true := by
    intro l hl
    obtain ⟨s, hs, hl⟩ := List.mem_flatMap.mp hl
    exact role?_headingOf (hf s hs) hl
  have hwritten : (f.samples.flatMap (seriesLines f.name)).map (fun l => l.reading (headingOf f))
      = f.samples.flatMap (headingOf f).written := List.map_flatMap ..
  rw [← hwritten]
  exact readings_series hroles more

lemma readings_flatMap_linesOf (hf : ∀ f ∈ families, ∀ s ∈ f.samples, f.Accepts s)
    (h? : Option Heading) : readings h? (families.flatMap linesOf ++ [.skip])
      = families.flatMap fun f => f.samples.flatMap (headingOf f).written := by
  induction families generalizing h? with
  | nil => rfl
  | cons f families ih =>
    obtain ⟨haccepts, hf⟩ := List.forall_mem_cons.mp hf
    rw [List.flatMap_cons, List.append_assoc, readings_linesOf haccepts, ih hf]
    rfl

/-- The last newline is followed by an empty line, which says nothing. -/
lemma sampleReadings_render (hf : ∀ f ∈ families, f.Settled) : sampleReadings (render families)
    = families.flatMap fun f => f.samples.flatMap (headingOf f).written := by
  rw [sampleReadings, lines_render_of_settled hf, readableLines_append,
    readableLines_renderLines hf]
  exact readings_flatMap_linesOf (fun f hmem => (hf f hmem).valid.samples) none

end Rendered

end PushGateway.Exposition
