import PushGateway.Proofs.GroupValidity
import PushGateway.Proofs.WrittenLines

/-! What the lines of a payload are read as: help without blanks at its ends once it is escaped, and
of the NaNs only one. -/

namespace PushGateway

open Exposition

section Settled

def Quantile.point (q : Quantile) : Binary64 × Binary64 := (q.quantile, q.value)

def Bucket.point (b : Bucket) : Binary64 × Binary64 := (b.upperBound, b.cumulativeCount)

lemma map_point_quantile (ps : List (Binary64 × Binary64)) :
    (ps.map fun p => (⟨p.1, p.2⟩ : Quantile)).map Quantile.point = ps :=
  (List.map_map ..).trans (List.map_id _)

lemma map_point_bucket (ps : List (Binary64 × Binary64)) :
    (ps.map fun p => (⟨p.1, p.2⟩ : Bucket)).map Bucket.point = ps :=
  (List.map_map ..).trans (List.map_id _)

/-- The bounds with the numbers that belong to them. -/
def SampleValue.points : SampleValue → List (Binary64 × Binary64)
  | .summary qs _ _ => qs.map Quantile.point
  | .histogram bs _ _ => bs.map Bucket.point
  | .counter _ | .gauge _ | .untyped _ => []

structure SampleValue.Settled (v : SampleValue) : Prop where
  numbers : v.collapse = v
  ordered : v.points.Pairwise fun p q => (!q.1.before p.1) = true
  distinct : Block.hasRepeat v.points = false

/-- A family that its text carries without loss. -/
structure Family.Settled (f : Family) : Prop where
  valid : f.Valid
  help : Text.Trimmed (Text.escapeHelp f.help.toList)
  samples : ∀ s ∈ f.samples, s.value.Settled

end Settled

namespace Exposition

section Lines

variable {cs : List Char}

lemma collapse_of_readValue? {x : Binary64} (h : readValue? cs = some x) : x.collapse = x := by
  unfold readValue? at h
  split_ifs at h
  · rw [← Option.some.inj h]
    rfl
  · rw [← Option.some.inj h]
    rfl
  · rw [← Option.some.inj h]
    rfl
  · obtain ⟨n, -, rfl⟩ := Option.map_eq_some_iff.mp h
    have hm := Binary64.magnitude_ofDecimal n.negative n.coefficient n.exponent
    have hle := Binary64.nearestDecimal_le n.coefficient n.exponent
    refine if_neg ?_
    rw [Binary64.isNaN, Numeral.toBinary64, hm, decide_eq_true_eq]
    exact Nat.not_lt.mpr hle

lemma exists_fields_of_readNumbers {x : Binary64} {t : Option Int64}
    (h : readNumbers cs = .ok (x, t)) :
    ∃ raw more, Text.fields cs = raw :: more ∧ readValue? raw = some x := by
  unfold readNumbers at h
  split at h
  · cases h
  · next raw more hfields =>
    refine ⟨raw, more, hfields, ?_⟩
    split at h
    · cases h
    · next y hy =>
      rw [hy]
      split at h
      · obtain ⟨rfl, -⟩ := Prod.mk.inj (Except.ok.inj h)
        rfl
      · split at h
        · cases h
        · split_ifs at h
          obtain ⟨rfl, -⟩ := Prod.mk.inj (Except.ok.inj h)
          rfl

lemma collapse_of_readNumbers {x : Binary64} {t : Option Int64}
    (h : readNumbers cs = .ok (x, t)) : x.collapse = x := by
  obtain ⟨raw, -, -, hx⟩ := exists_fields_of_readNumbers h
  exact collapse_of_readValue? hx

/-- What is read is what could be written. -/
def Line.Settled : Line → Prop
  | .series l => l.value.collapse = l.value
  | .help _ text => Text.Trimmed (Text.escapeHelp text.toList)
  | .skip | .type .. => True

lemma readSeries_eq_ok {l : SeriesLine} (h : readSeries cs = .ok l) :
    l.metric = String.ofList (cs.takeWhile Name.isMetricChar) ∧
    Name.isMetricName l.metric = true ∧
    ∃ rest, readNumbers rest = .ok (l.value, l.timestamp) ∧
      ((Text.trimStart (cs.dropWhile Name.isMetricChar)).head? = some '{' ∨
        rest = Text.trimStart (cs.dropWhile Name.isMetricChar)) := by
  unfold readSeries at h
  obtain ⟨hname, h⟩ := check_bind_eq_ok_iff.mp h
  have hvalid : Name.isMetricName (String.ofList (cs.takeWhile Name.isMetricChar)) = true := by
    unfold checkMetricName at hname
    split_ifs at hname with hvalid
    exact hvalid
  dsimp only at h
  split at h
  · next hbrace =>
    obtain ⟨⟨labels, rest⟩, -, h⟩ := bind_eq_ok_iff.mp h
    obtain ⟨⟨x, t⟩, hx, h⟩ := bind_eq_ok_iff.mp h
    obtain rfl := Except.ok.inj h
    exact ⟨rfl, hvalid, rest, hx, .inl (by rw [hbrace]; rfl)⟩
  · obtain ⟨⟨labels, rest⟩, hrest, h⟩ := bind_eq_ok_iff.mp h
    obtain ⟨⟨x, t⟩, hx, h⟩ := bind_eq_ok_iff.mp h
    obtain rfl := Except.ok.inj h
    obtain ⟨-, rfl⟩ := Prod.mk.inj (Except.ok.inj hrest)
    exact ⟨rfl, hvalid, _, hx, .inr rfl⟩

lemma settled_of_readSeries {l : SeriesLine} (h : readSeries cs = .ok l) :
    l.value.collapse = l.value := by
  obtain ⟨-, -, rest, hx, -⟩ := readSeries_eq_ok h
  exact collapse_of_readNumbers hx

lemma settled_of_readHelp {name tail : List Char} {line : Line} (h : readHelp name tail = .ok line)
    (ht : Text.Trimmed tail) (hn : '\n' ∉ tail) : line.Settled := by
  unfold readHelp at h
  obtain ⟨-, h⟩ := check_bind_eq_ok_iff.mp h
  split at h
  · next text htext =>
    obtain rfl := Except.ok.inj h
    rw [Line.Settled, String.toList_ofList, Text.escapeHelp_of_unescapeHelp htext hn]
    exact ht
  · cases h
  · cases h

lemma settled_of_readType {name tail : List Char} {line : Line}
    (h : readType name tail = .ok line) : line.Settled := by
  unfold readType at h
  obtain ⟨-, h⟩ := check_bind_eq_ok_iff.mp h
  split at h
  · obtain rfl := Except.ok.inj h
    trivial
  · cases h

lemma settled_of_readComment {line : Line} (h : readComment cs = .ok line)
    (hlast : ∀ c ∈ cs.getLast?, Text.isBlank c = false) (hn : '\n' ∉ cs) : line.Settled := by
  unfold readComment at h
  split at h
  · obtain rfl := Except.ok.inj h
    trivial
  · next keyword rest hsplit =>
    have hrest : Text.trimStart rest <:+ cs := (Text.trimStart_suffix rest).trans
      ((Text.splitAtBlank?_suffix hsplit).trans (Text.trimStart_suffix cs))
    have hline {name tail : List Char} (htail : tail <:+ cs)
        (hhead : ∀ c ∈ tail.head?, Text.isBlank c = false)
        (h : (if keyword = "HELP".toList then readHelp name tail
          else if keyword = "TYPE".toList then readType name tail
          else .ok .skip) = .ok line) : line.Settled := by
      split_ifs at h
      · exact settled_of_readHelp h ⟨hhead, Text.last_of_suffix htail hlast⟩
          fun hm => hn (htail.mem hm)
      · exact settled_of_readType h
      · obtain rfl := Except.ok.inj h
        trivial
    dsimp only at h
    cases hwords : Text.splitAtBlank? (Text.trimStart rest) with
    | none =>
      rw [hwords] at h
      exact hline (List.nil_suffix) (by simp) h
    | some words =>
      rw [hwords] at h
      have htail := (Text.trimStart_suffix words.2).trans
        ((Text.splitAtBlank?_suffix hwords).trans hrest)
      exact hline htail (Text.head_trimStart words.2) h

theorem settled_of_readLine {line : Line} (h : readLine cs = .ok line) (hn : '\n' ∉ cs) :
    line.Settled := by
  have hlast := Text.last_trim cs
  have hnewline : '\n' ∉ Text.trim cs := fun hm => hn (Text.mem_of_mem_trim hm)
  unfold readLine at h
  split at h
  · obtain rfl := Except.ok.inj h
    trivial
  · next rest htrim =>
    rw [htrim] at hlast hnewline
    refine settled_of_readComment h ?_ fun hm => hnewline (List.mem_cons_of_mem _ hm)
    exact Text.last_of_suffix (List.suffix_cons '#' rest) hlast
  · obtain ⟨l, hl, rfl⟩ := map_eq_ok_iff.mp h
    exact settled_of_readSeries hl

end Lines

end Exposition

end PushGateway
