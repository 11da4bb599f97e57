import Mathlib.Data.List.Sort
import PushGateway.Proofs.ParsedFamilies

/-! The infinite bucket that a histogram is given when it is written. Written last, it is read in
its place in the order of the bounds, and it repeats no other bound. -/

namespace PushGateway

open Exposition

section Completion

/-- The buckets with an infinite one, which holds the count, in the order of the bounds. -/
def placeInfinite (buckets : List Bucket) (count : Binary64) : List Bucket :=
  if hasInfiniteBucket buckets then buckets
  else buckets.orderedInsert (fun b c => b.upperBound.before c.upperBound = true)
    ⟨.infinity, count⟩

def SampleValue.complete : SampleValue → SampleValue
  | .histogram buckets sum count => .histogram (placeInfinite buckets count) sum count
  | v => v

def Sample.complete (s : Sample) : Sample := { s with value := s.value.complete }

def Family.complete (f : Family) : Family := { f with samples := f.samples.map Sample.complete }

lemma SampleValue.metricType_complete (v : SampleValue) : v.complete.metricType = v.metricType := by
  cases v <;> rfl

lemma Family.Valid.complete {f : Family} (h : f.Valid) : f.complete.Valid := by
  refine ⟨h.name, ?_, ?_⟩
  · intro s hs
    obtain ⟨t, ht, rfl⟩ := List.mem_map.mp hs
    obtain ⟨htype, hlabels⟩ := h.samples t ht
    exact ⟨t.value.metricType_complete.trans htype, hlabels⟩
  · have hlabels : f.complete.samples.map Sample.labels = f.samples.map Sample.labels := by
      rw [Family.complete, List.map_map]
      rfl
    rw [hlabels]
    exact h.distinct

end Completion

section Sorting

variable {A : Type} {le : A → A → Bool}

lemma orderedInsert_eq_cons (trans : ∀ a b c, le a b = true → le b c = true → le a c = true)
    {a x : A} (hax : le a x = false) {l : List A} (ha : ∀ b ∈ l, le a b = true) :
    l.orderedInsert (fun a b => le b a = false) x = x :: l := by
  cases l with
  | nil => rfl
  | cons c l =>
    have hcx : le c x = false := by
      rw [← Bool.not_eq_true]
      intro hcx
      simp [trans a c x (ha c List.mem_cons_self) hcx] at hax
    exact List.orderedInsert_cons_of_le _ l hcx

/-- A stable sort moves a last element before those that it must come before. -/
lemma mergeSort_concat (trans : ∀ a b c, le a b = true → le b c = true → le a c = true)
    (total : ∀ a b, (le a b || le b a) = true) (x : A) {l : List A}
    (hl : l.Pairwise fun a b => le a b = true) :
    (l ++ [x]).mergeSort le = l.orderedInsert (fun a b => le b a = false) x := by
  induction l with
  | nil => simp
  | cons a l ih =>
    obtain ⟨ha, hl⟩ := List.pairwise_cons.mp hl
    obtain ⟨l₁, l₂, hsort, htail, hfirst⟩ := List.mergeSort_cons trans total a (l ++ [x])
    have hsorted := List.pairwise_mergeSort trans total (a :: (l ++ [x]))
    rw [ih hl] at htail
    rw [List.cons_append, hsort, List.orderedInsert_cons]
    rw [hsort] at hsorted
    have hnot {b : A} (hb : le a b = true) : b ∉ l₁ := by
      intro hm
      have hfalse := hfirst b hm
      rw [hb] at hfalse
      cases hfalse
    by_cases hax : le a x = true
    · -- nothing of the sorted rest comes before `a`
      have hnil : l₁ = [] := by
        refine List.eq_nil_iff_forall_not_mem.mpr fun b hb => ?_
        have hmem : b ∈ l.orderedInsert (fun a b => le b a = false) x := by simp [htail, hb]
        rcases (List.mem_orderedInsert _).mp hmem with rfl | hmem
        · exact hnot hax hb
        · exact hnot (ha b hmem) hb
      rw [if_neg (by simp [hax]), htail, hnil]
      rfl
    · rw [Bool.not_eq_true] at hax
      rw [orderedInsert_eq_cons trans hax ha] at htail
      rw [if_pos hax]
      cases l₁ with
      | nil =>
        obtain rfl : x :: l = l₂ := htail
        have hle := (List.pairwise_cons.mp hsorted).1 x List.mem_cons_self
        simp [hax] at hle
      | cons b l₁ =>
        obtain ⟨rfl, rfl⟩ := List.cons.inj htail
        have hnil : l₁ = [] := List.eq_nil_iff_forall_not_mem.mpr fun c hc =>
          hnot (ha c (List.mem_append_left _ hc)) (List.mem_cons_of_mem _ hc)
        rw [hnil]
        rfl

end Sorting

section Points

variable {p q : Binary64 × Binary64} {ps : List (Binary64 × Binary64)}

lemma hasRepeat_cons : Block.hasRepeat (p :: ps) = false ↔
    (∀ q ∈ ps.head?, p.1.same q.1 = false) ∧ Block.hasRepeat ps = false := by
  cases ps <;> simp [Block.hasRepeat]

lemma hasRepeat_orderedInsert {r : Binary64 × Binary64 → Binary64 × Binary64 → Prop}
    [DecidableRel r] (hps : ∀ q ∈ ps, p.1.same q.1 = false ∧ q.1.same p.1 = false)
    (h : Block.hasRepeat ps = false) : Block.hasRepeat (ps.orderedInsert r p) = false := by
  induction ps with
  | nil => rfl
  | cons q ps ih =>
    obtain ⟨⟨hpq, hqp⟩, hrest⟩ := List.forall_mem_cons.mp hps
    obtain ⟨hhead, htail⟩ := hasRepeat_cons.mp h
    rw [List.orderedInsert_cons]
    split_ifs
    · refine hasRepeat_cons.mpr ⟨?_, h⟩
      rintro _ ⟨⟩
      exact hpq
    · refine hasRepeat_cons.mpr ⟨?_, ih hrest htail⟩
      cases ps with
      | nil =>
        rintro _ ⟨⟩
        exact hqp
      | cons s ps =>
        rw [List.orderedInsert_cons]
        split_ifs
        · rintro _ ⟨⟩
          exact hqp
        · rintro _ ⟨⟩
          exact hhead s rfl

end Points

section Buckets

variable {buckets : List Bucket}

lemma completeBuckets_eq (buckets : List Bucket) (count : Binary64) :
    completeBuckets buckets count
      = buckets ++ if hasInfiniteBucket buckets then [] else [⟨.infinity, count⟩] := by
  unfold completeBuckets
  split_ifs
  · exact (List.append_nil _).symm
  · rfl

lemma sortPoints_completeBuckets (count : Binary64)
    (h : (buckets.map Bucket.point).Pairwise fun p q => (!q.1.before p.1) = true) :
    Block.sortPoints ((completeBuckets buckets count).map Bucket.point).toArray
      = (placeInfinite buckets count).map Bucket.point := by
  unfold Block.sortPoints completeBuckets placeInfinite
  split_ifs with hinf
  · exact List.mergeSort_of_pairwise h
  · rw [List.map_append]
    refine (mergeSort_concat not_before_trans not_before_total _ h).trans ?_
    refine (List.map_orderedInsert _ _ Bucket.point buckets _ ?_ ?_).symm
    · simp [Bucket.point]
    · simp [Bucket.point]

lemma same_infinity {x : Binary64} (h : x ≠ .infinity) :
    Binary64.infinity.same x = false ∧ x.same .infinity = false := by
  have hm : Binary64.infinity.magnitude ≠ 0 := by decide
  constructor
  · simp [Binary64.same, Ne.symm h, hm]
  · simp [Binary64.same, h, hm]

lemma hasRepeat_placeInfinite (count : Binary64)
    (h : Block.hasRepeat (buckets.map Bucket.point) = false) :
    Block.hasRepeat ((placeInfinite buckets count).map Bucket.point) = false := by
  unfold placeInfinite
  split_ifs with hinf
  · exact h
  · have hbounds : ∀ q ∈ buckets.map Bucket.point, Binary64.infinity.same q.1 = false ∧
        q.1.same .infinity = false := by
      intro q hq
      obtain ⟨b, hb, rfl⟩ := List.mem_map.mp hq
      refine same_infinity fun he => hinf ?_
      exact List.any_eq_true.mpr ⟨b, hb, by simpa [Bucket.point] using he⟩
    have hmap := List.map_orderedInsert (fun b c => b.upperBound.before c.upperBound = true)
      (fun p q => p.1.before q.1 = true) Bucket.point buckets ⟨.infinity, count⟩ (fun _ _ => Iff.rfl)
      fun _ _ => Iff.rfl
    rw [hmap]
    exact hasRepeat_orderedInsert hbounds h

end Buckets

end PushGateway
