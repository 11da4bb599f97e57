import PushGateway.Proofs.AcceptanceOrder
import PushGateway.Proofs.FirstPushWins

/-! What is served after any run with restarts. Each family has the definition, and each series the
value, of the payload that was accepted earliest of those that are still there. -/

namespace PushGateway

namespace Merge

/-- One of the samples of the group becomes the series. -/
def Produces (s : Series) (g : Group) : Prop :=
  ∃ t ∈ named g s.family, withKey g.key t.labels = s.labels

def HasFamily (name : String) (g : Group) : Prop := (g.families.get? name).isSome = true

end Merge

namespace Table

open Merge

namespace Dated

/-- Of the groups that have a property, the one whose payload was accepted first. -/
structure Earliest (d : Dated) (has : Group → Prop) (g : Group) : Prop where
  live : g ∈ d.table.snapshot
  holds : has g
  first : ∀ h ∈ d.table.snapshot, has h → d.date g.key ≤ d.date h.key

variable {d : Dated} {n : Nat}

section Ranks

variable (h : d.InOrder n) {g i : Group} (hg : g ∈ d.table.snapshot) (hi : i ∈ d.table.snapshot)
include h hg hi

lemma InOrder.date_lt_iff : d.date g.key < d.date i.key ↔ g.pushSeq < i.pushSeq := by
  obtain ⟨p, hp, rfl⟩ := List.mem_map.mp hg
  obtain ⟨q, hq, rfl⟩ := List.mem_map.mp hi
  rw [h.keyed p hp, h.keyed q hq]
  exact h.ordered p hp q hq

lemma InOrder.eq_of_pushSeq (heq : g.pushSeq = i.pushSeq) : g.key = i.key := by
  obtain ⟨p, hp, rfl⟩ := List.mem_map.mp hg
  obtain ⟨q, hq, rfl⟩ := List.mem_map.mp hi
  rw [h.keyed p hp, h.keyed q hq]
  exact h.numbered.distinct p hp q hq heq

lemma InOrder.ranksBefore_iff : ranksBefore g i = true ↔ d.date g.key < d.date i.key := by
  rw [Merge.ranksBefore_iff, h.date_lt_iff hg hi]
  refine ⟨fun hrank => hrank.resolve_right ?_, .inl⟩
  rintro ⟨heq, hb⟩
  rw [h.eq_of_pushSeq hg hi heq] at hb
  simp [before_irrefl] at hb

end Ranks

lemma InOrder.distinct (h : d.InOrder n) : Distinct d.table.snapshot :=
  ⟨h.valid, h.keyed.keys_nodup⟩

lemma InOrder.eq_of_date (h : d.InOrder n) {g i : Group} (hg : g ∈ d.table.snapshot)
    (hi : i ∈ d.table.snapshot) (heq : d.date g.key = d.date i.key) : g = i := by
  refine h.distinct.eq_of_key hg hi ?_
  by_contra hne
  rcases ranksBefore_total hne with hlt | hlt
  · have hdate := (h.ranksBefore_iff hg hi).mp hlt
    omega
  · have hdate := (h.ranksBefore_iff hi hg).mp hlt
    omega

lemma InOrder.date_le_of_not_ranksBefore (h : d.InOrder n) {g i : Group}
    (hg : g ∈ d.table.snapshot) (hi : i ∈ d.table.snapshot) (hr : ranksBefore i g ≠ true) :
    d.date g.key ≤ d.date i.key := by
  rw [ne_eq, h.ranksBefore_iff hi hg] at hr
  omega

lemma InOrder.earliest_of_leads (h : d.InOrder n) {name : String} {g : Group} {f : Family}
    (hl : Leads d.table.snapshot name g f) : d.Earliest (HasFamily name) g := by
  obtain ⟨hg, hf, hlow⟩ := hl
  refine ⟨hg, Option.isSome_iff_exists.mpr ⟨f, hf⟩, fun i hi hs => ?_⟩
  rcases hlow i hi hs with rfl | hrank
  · exact Nat.le_refl _
  · exact Nat.le_of_lt ((h.ranksBefore_iff hg hi).mp hrank)

lemma InOrder.earliest_of_survives (h : d.InOrder n) {name : String} {g : Group} {s : Sample}
    (hg : g ∈ d.table.snapshot) (hs : s ∈ named g name)
    (ho : ¬Outranked d.table.snapshot g name s.labels) :
    d.Earliest (Produces ⟨name, withKey g.key s.labels⟩) g := by
  refine ⟨hg, ⟨s, hs, rfl⟩, fun i hi hp => ?_⟩
  obtain ⟨t, ht, heq⟩ := hp
  exact h.date_le_of_not_ranksBefore hg hi fun hrank => ho ⟨i, hi, hrank, t, ht, heq⟩

/-- Of the groups that produce a series, one is not outranked. -/
lemma InOrder.survivor_of_produces (h : d.InOrder n) {name : String} {g : Group} {s : Sample}
    (hg : g ∈ d.table.snapshot) (hs : s ∈ named g name) :
    withKey g.key s.labels ∈ (survivors d.table.snapshot name).map Sample.labels := by
  induction hdate : d.date g.key using Nat.strongRecOn generalizing g s with
  | ind date ih =>
    by_cases ho : Outranked d.table.snapshot g name s.labels
    · obtain ⟨i, hi, hrank, t, ht, heq⟩ := ho
      rw [← heq]
      exact ih _ (hdate ▸ (h.ranksBefore_iff hi hg).mp hrank) hi ht rfl
    · refine List.mem_map.mpr ⟨{ s with labels := withKey g.key s.labels }, ?_, rfl⟩
      refine List.mem_flatMap.mpr ⟨g, hg, List.mem_map.mpr ⟨s, ?_, rfl⟩⟩
      exact List.mem_filter.mpr ⟨hs, decide_eq_true ho⟩

end Dated

/-- Deletes, replacements and restarts leave it to the earliest payload to define a family and to
give a series its value. -/
theorem earliest_accepted_decides (events : List Event) :
    let d := (Chronicle.start.after events).present
    let live := d.table.snapshot
    let served := (merge live).families
    (∀ d' ∈ (Chronicle.start.after events).moments, d'.reopen?.isSome = true) ∧
    (∀ g ∈ live, ∀ i ∈ live, d.date g.key < d.date i.key ↔ g.pushSeq < i.pushSeq) ∧
    (∀ g ∈ live, ∀ i ∈ live, d.date g.key = d.date i.key → g = i) ∧
    (∀ name, name ∈ served.map Family.name ↔ ∃ g ∈ live, HasFamily name g) ∧
    (∀ m ∈ served, ∃ g f, d.Earliest (HasFamily m.name) g ∧ g.families.get? m.name = some f ∧
      m.metricType = f.metricType ∧ m.help = f.help) ∧
    (∀ g ∈ live, ∀ name, ∀ s ∈ named g name, ∃ m ∈ served, m.name = name ∧
      withKey g.key s.labels ∈ m.samples.map Sample.labels) ∧
    ∀ m ∈ served, ∀ r ∈ m.samples, ∃ g s, d.Earliest (Produces ⟨m.name, r.labels⟩) g ∧
      s ∈ named g m.name ∧ r = { s with labels := withKey g.key s.labels } := by
  intro d live served
  have hmoments := Chronicle.inOrder_after events
  have h : d.InOrder _ := hmoments d (List.mem_append_right _ List.mem_cons_self)
  have hd : Distinct live := h.distinct
  have hnames (name : String) := mem_names_merge hd name
  refine ⟨fun d' hd' => ?_, fun g hg i hi => h.date_lt_iff hg hi,
    fun g hg i hi => h.eq_of_date hg hi, hnames, fun m hm => ?_, fun g hg name s hs => ?_,
    fun m hm r hr => ?_⟩
  · obtain ⟨e, he, -⟩ := (hmoments d' hd').reopen?
    exact Option.isSome_iff_exists.mpr ⟨e, he⟩
  · obtain ⟨g, f, hl, htype, hhelp⟩ := leads_of_mem_merge hd hm
    exact ⟨g, f, h.earliest_of_leads hl, hl.2.1, htype, hhelp⟩
  · have hname : name ∈ served.map Family.name := by
      obtain ⟨f, hf, -⟩ := mem_named_iff.mp hs
      exact (hnames name).mpr ⟨g, hg, Option.isSome_iff_exists.mpr ⟨f, hf⟩⟩
    obtain ⟨m, hm, rfl⟩ := List.mem_map.mp hname
    refine ⟨m, hm, rfl, ?_⟩
    rw [samples_of_mem_merge hd hm]
    exact h.survivor_of_produces hg hs
  · rw [samples_of_mem_merge hd hm] at hr
    obtain ⟨g, hg, hr⟩ := List.mem_flatMap.mp hr
    obtain ⟨s, hs, rfl⟩ := List.mem_map.mp hr
    obtain ⟨hs, ho⟩ := List.mem_filter.mp hs
    exact ⟨g, s, h.earliest_of_survives hg hs (of_decide_eq_true ho), hs, rfl⟩

/-- A restart forgets a replacement, and the number of the forgotten payload is given again. -/
theorem earliest_accepted_decides_number_again :
    let plain : GroupingKey := ⟨.ofList [("job", "x")], by decide, by decide⟩
    let full : GroupingKey := ⟨.ofList [("job", "x"), ("instance", "i")], by decide, by decide⟩
    let up (help : String) (labels : Labels) (x : Binary64) : Family :=
      ⟨"up", help, .gauge, [⟨labels, .gauge x, none⟩]⟩
    let events : List Event := [.change (.push ⟨full, [up "first" .empty .infinity], 1⟩),
      .change (.push ⟨plain, [up "second" .empty .zero], 2⟩),
      .change (.push ⟨full, [up "third" .empty .zero], 3⟩), .restart 2,
      .change (.push ⟨plain, [up "last" (.ofList [("instance", "i")]) .nan], 4⟩)]
    let d := (Chronicle.start.after events).present
    (Chronicle.start.after events).accepted = 4 ∧ d.date full = 0 ∧ d.date plain = 3 ∧
      d.table.snapshot.map Group.pushSeq = [0, 2] ∧
      "up" ∈ (merge d.table.snapshot).families.map Family.name ∧
      ∀ m ∈ (merge d.table.snapshot).families, m.name = "up" → m.help = "first" ∧
        ∀ r ∈ m.samples, r.value = .gauge .infinity := by
  intro plain full up events d
  have hfour : (Chronicle.start.after events).accepted = 4 := by decide +kernel
  have hfull : d.date full = 0 := by decide +kernel
  have hplain : d.date plain = 3 := by decide +kernel
  let first : Group := ⟨full, .ofList [("up", up "first" .empty .infinity)], 1, 0⟩
  let last : Group := ⟨plain, .ofList [("up", up "last" (.ofList [("instance", "i")]) .nan)], 4, 2⟩
  have hlive : d.table.snapshot = [first, last] := by decide +kernel
  obtain ⟨-, -, -, hnames, hfamilies, -, hsamples⟩ := earliest_accepted_decides events
  -- the earliest of the two groups is the first one, for the family and for its series
  have hearliest {has : Group → Prop} {g : Group} (he : d.Earliest has g) (hf : has first) :
      g = first := by
    have hg := he.live
    rw [hlive] at hg
    rcases List.mem_pair.mp hg with rfl | rfl
    · rfl
    · have hle := he.first first (by rw [hlive]; exact List.mem_cons_self) hf
      change d.date plain ≤ d.date full at hle
      omega
  have hget : first.families.get? "up" = some (up "first" .empty .infinity) := by decide +kernel
  have hup : HasFamily "up" first := Option.isSome_iff_exists.mpr ⟨_, hget⟩
  refine ⟨hfour, hfull, hplain, by rw [hlive]; rfl, ?_, fun m hm hname => ⟨?_, fun r hr => ?_⟩⟩
  · exact (hnames "up").mpr ⟨first, by rw [hlive]; exact List.mem_cons_self, hup⟩
  · obtain ⟨g, f, he, hf, -, hhelp⟩ := hfamilies m hm
    rw [hname] at he hf
    rw [hearliest he hup] at hf
    rw [hhelp]
    rw [hget] at hf
    cases hf
    rfl
  · obtain ⟨g, s, he, hs, rfl⟩ := hsamples m hm r hr
    rw [hname] at he hs
    have hone : named first "up" = [⟨.empty, .gauge .infinity, none⟩] := by decide +kernel
    have hother : named last "up" = [⟨.ofList [("instance", "i")], .gauge .nan, none⟩] := by
      decide +kernel
    have hfirst : g = first := by
      refine hearliest he ⟨_, by rw [hone]; exact List.mem_cons_self, ?_⟩
      have hg := he.live
      rw [hlive] at hg
      rcases List.mem_pair.mp hg with rfl | rfl
      · rw [hone] at hs
        rw [List.mem_singleton.mp hs]
      · rw [hother] at hs
        rw [List.mem_singleton.mp hs]
        decide +kernel
    rw [hfirst, hone] at hs
    rw [List.mem_singleton.mp hs]

end Table

end PushGateway
