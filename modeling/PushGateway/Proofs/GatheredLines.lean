import PushGateway.Proofs.SampleAccount

/-! Filing the lines of a histogram or a summary in another order. Each line adds one part to the
composite of its labels, and two parts can be added in both orders or in neither. -/

namespace PushGateway.Exposition

/-- What a line adds to a composite. -/
inductive Part
  | point (p : Binary64 × Binary64)
  | sum (x : Binary64)
  | count (x : Binary64)

namespace Composite

def add (c : Composite) : Part → Composite
  | .point p => { c with points := c.points.push p }
  | .sum x => { c with sum := some x }
  | .count x => { c with count := some x }

/-- A composite has one sum and one count at most. -/
def Admits (c : Composite) : Part → Prop
  | .point _ => True
  | .sum _ => c.sum = none
  | .count _ => c.count = none

/-- Equal up to the order of the points. -/
structure Alike (c c' : Composite) : Prop where
  labels : c.labels = c'.labels
  points : c.points.toList.Perm c'.points.toList
  sum : c.sum = c'.sum
  count : c.count = c'.count
  timestamp : c.timestamp = c'.timestamp

variable {c c' : Composite} {p q : Part}

lemma Alike.refl (c : Composite) : c.Alike c := ⟨rfl, .refl _, rfl, rfl, rfl⟩

lemma Alike.trans {c'' : Composite} (h : c.Alike c') (h' : c'.Alike c'') : c.Alike c'' :=
  ⟨h.labels.trans h'.labels, h.points.trans h'.points, h.sum.trans h'.sum,
    h.count.trans h'.count, h.timestamp.trans h'.timestamp⟩

@[simp]
lemma labels_add (c : Composite) (p : Part) : (c.add p).labels = c.labels := by
  cases p <;> rfl

lemma Alike.add (h : c.Alike c') (p : Part) : (c.add p).Alike (c'.add p) := by
  cases p with
  | point p =>
    refine ⟨h.labels, ?_, h.sum, h.count, h.timestamp⟩
    simpa [Composite.add] using h.points.append_right [p]
  | sum x => exact ⟨h.labels, h.points, rfl, h.count, h.timestamp⟩
  | count x => exact ⟨h.labels, h.points, h.sum, rfl, h.timestamp⟩

lemma Alike.admits (h : c.Alike c') (ha : c.Admits p) : c'.Admits p := by
  cases p with
  | point p => trivial
  | sum x => exact h.sum.symm.trans ha
  | count x => exact h.count.symm.trans ha

lemma admits_swap (hp : c.Admits p) (hq : (c.add p).Admits q) :
    c.Admits q ∧ (c.add q).Admits p := by
  cases p with
  | point p =>
    cases q with
    | point q | sum y | count y => exact ⟨hq, trivial⟩
  | sum x =>
    cases q with
    | sum y => cases hq
    | point q | count y => exact ⟨hq, hp⟩
  | count x =>
    cases q with
    | count y => cases hq
    | point q | sum y => exact ⟨hq, hp⟩

/-- Only a second sum or a second count depends on which of two parts comes first. -/
lemma add_add_alike (h : (c.add p).Admits q) : ((c.add p).add q).Alike ((c.add q).add p) := by
  cases p with
  | point p =>
    cases q with
    | point q =>
      refine ⟨rfl, ?_, rfl, rfl, rfl⟩
      simpa [Composite.add] using (List.Perm.swap q p []).append_left c.points.toList
    | sum y | count y => exact .refl _
  | sum x =>
    cases q with
    | sum y => cases h
    | point q | count y => exact .refl _
  | count x =>
    cases q with
    | count y => cases h
    | point q | sum y => exact .refl _

end Composite

section Lines

def Block.put (b : Block) (labels : Labels) (p : Part) : Block := b.update labels fun c => c.add p

/-- Where a line without a time is filed in a block of the heading, and what it adds there. -/
inductive Heading.Files (h : Heading) (l : SeriesLine) : Labels → Part → Prop
  | point {r : Role} {label raw : String} {bound : Binary64} (role : h.role? l.metric = some r)
      (holds : r.bound? = some label)
      (given : (SortedMap.ofList l.labels : Labels).get? label = some raw)
      (read : readValue? raw.toList = some bound) :
      h.Files l ((SortedMap.ofList l.labels : Labels).erase label) (.point (bound, l.value))
  | sum (role : h.role? l.metric = some .sum) :
      h.Files l (SortedMap.ofList l.labels) (.sum l.value)
  | count (role : h.role? l.metric = some .count) :
      h.Files l (SortedMap.ofList l.labels) (.count l.value)

/-- A sample line without a time that the family has a part for. -/
def Heading.Untimed (h : Heading) (l : SeriesLine) : Prop :=
  l.timestamp = none ∧ ∃ r ∈ rolesOf h.type, l.metric = h.family ++ r.suffix

instance (h : Heading) (l : SeriesLine) : Decidable (h.Untimed l) :=
  inferInstanceAs (Decidable (_ ∧ _))

variable {b b' : Block} {l : SeriesLine} {label : String} {r : Role} {labels : Labels} {p : Part}

lemma addPoint_eq_ok_iff (ht : l.timestamp = none) : b.addPoint label l = .ok b' ↔
    ∃ raw bound, (SortedMap.ofList l.labels : Labels).get? label = some raw ∧
      readValue? raw.toList = some bound ∧
      b' = b.put ((SortedMap.ofList l.labels : Labels).erase label) (.point (bound, l.value)) := by
  unfold Block.addPoint
  dsimp only
  cases hraw : (SortedMap.ofList l.labels : Labels).get? label with
  | none => simp
  | some raw =>
    cases hbound : readValue? raw.toList with
    | none => simp [hbound]
    | some bound =>
      simp only [ht, Option.none_or, Except.ok.injEq, Option.some.injEq, exists_and_left,
        exists_eq_left', hbound, eq_comm]
      rfl

lemma addSum_eq_ok_iff (ht : l.timestamp = none) : b.addSum l = .ok b' ↔
    (b.target (SortedMap.ofList l.labels)).sum = none ∧
      b' = b.put (SortedMap.ofList l.labels) (.sum l.value) := by
  rw [sum_target]
  unfold Block.addSum
  dsimp only
  cases (b.composite? (SortedMap.ofList l.labels)).bind Composite.sum with
  | none =>
    simp only [Option.isSome_none, Bool.false_eq_true, if_false, ht, Option.none_or,
      Except.ok.injEq, true_and]
    exact eq_comm
  | some x => simp

lemma addCount_eq_ok_iff (ht : l.timestamp = none) : b.addCount l = .ok b' ↔
    (b.target (SortedMap.ofList l.labels)).count = none ∧
      b' = b.put (SortedMap.ofList l.labels) (.count l.value) := by
  rw [count_target]
  unfold Block.addCount
  dsimp only
  cases (b.composite? (SortedMap.ofList l.labels)).bind Composite.count with
  | none =>
    simp only [Option.isSome_none, Bool.false_eq_true, if_false, ht, Option.none_or,
      Except.ok.injEq, true_and]
    exact eq_comm
  | some x => simp

lemma addSeries_of_bound (hr : b.role? l.metric = some r) (hb : r.bound? = some label) :
    b.addSeries l = b.addPoint label l := by
  cases r with
  | plain | sum | count => cases hb
  | bucket =>
    obtain rfl := Option.some.inj hb
    simp only [Block.addSeries, hr]
  | quantile =>
    obtain rfl := Option.some.inj hb
    simp only [Block.addSeries, hr]

/-- All that a line can do to a block of its heading. -/
lemma addSeries_eq_ok_iff (hk : Composed b.kind) (hl : b.heading.Untimed l) :
    b.addSeries l = .ok b' ↔ ∃ labels p, b.heading.Files l labels p ∧
      (b.target labels).Admits p ∧ b' = b.put labels p := by
  obtain ⟨ht, r, hmem, hmetric⟩ := hl
  constructor
  · intro h
    have hrole : b.heading.role? l.metric = some r := Heading.role?_eq_some_iff.mpr ⟨hmem, hmetric⟩
    have hr := (heading_role?_eq_some_iff.mp hrole).1
    cases r with
    | plain => exact absurd hk (scalar_of_plain hmem)
    | bucket | quantile =>
      rw [addSeries_of_bound hr rfl, addPoint_eq_ok_iff ht] at h
      obtain ⟨raw, bound, hraw, hbound, rfl⟩ := h
      exact ⟨_, _, .point hrole rfl hraw hbound, trivial, rfl⟩
    | sum =>
      simp only [Block.addSeries, hr, addSum_eq_ok_iff ht] at h
      exact ⟨_, _, .sum hrole, h.1, h.2⟩
    | count =>
      simp only [Block.addSeries, hr, addCount_eq_ok_iff ht] at h
      exact ⟨_, _, .count hrole, h.1, h.2⟩
  · rintro ⟨labels, p, hfiles, hadmits, rfl⟩
    cases hfiles with
    | point hrole hb hraw hbound =>
      rw [addSeries_of_bound (heading_role?_eq_some_iff.mp hrole).1 hb, addPoint_eq_ok_iff ht]
      exact ⟨_, _, hraw, hbound, rfl⟩
    | sum hrole =>
      simp only [Block.addSeries, (heading_role?_eq_some_iff.mp hrole).1, addSum_eq_ok_iff ht]
      exact ⟨hadmits, trivial⟩
    | count hrole =>
      simp only [Block.addSeries, (heading_role?_eq_some_iff.mp hrole).1, addCount_eq_ok_iff ht]
      exact ⟨hadmits, trivial⟩

end Lines

section Blocks

/-- The label sets of the composites. -/
def Block.keys (b : Block) : List Labels := b.composites.map Composite.labels

/-- Equal up to the order of the composites and of the points in each of them. -/
structure Block.Alike (b b' : Block) : Prop where
  heading : b.heading = b'.heading
  help : b.help = b'.help
  keys : ∀ labels, labels ∈ b.keys ↔ labels ∈ b'.keys
  nodup : b.keys.Nodup
  nodup' : b'.keys.Nodup
  target : ∀ labels, (b.target labels).Alike (b'.target labels)

variable {b b' c d : Block} {labels labels' : Labels} {p q : Part} {l l' : SeriesLine}
  {ls ls' : List SeriesLine}

lemma keys_put (b : Block) (labels : Labels) (p : Part) :
    (b.put labels p).keys = if labels ∈ b.keys then b.keys else b.keys ++ [labels] := by
  unfold Block.put Block.update Block.keys
  dsimp only
  induction b.composites with
  | nil => simp [Block.updateComposite]
  | cons c cs ih =>
    rw [Block.updateComposite]
    by_cases hc : c.labels = labels
    · simp [hc]
    · rw [if_neg hc, List.map_cons, ih, List.map_cons]
      simp only [List.mem_cons, Ne.symm hc, false_or]
      split_ifs <;> rfl

lemma mem_keys_put : labels' ∈ (b.put labels p).keys ↔ labels' = labels ∨ labels' ∈ b.keys := by
  rw [keys_put]
  split_ifs with h
  · refine ⟨.inr, ?_⟩
    rintro (rfl | h')
    · exact h
    · exact h'
  · rw [List.mem_append, List.mem_singleton, or_comm]

lemma nodup_keys_put (hb : b.keys.Nodup) (labels : Labels) (p : Part) :
    (b.put labels p).keys.Nodup := by
  rw [keys_put]
  split_ifs with h
  · exact hb
  · refine List.nodup_append.mpr ⟨hb, List.nodup_singleton _, fun x hx y hy he => h ?_⟩
    rwa [← List.mem_singleton.mp hy, ← he]

lemma target_put_self (b : Block) (labels : Labels) (p : Part) :
    (b.put labels p).target labels = (b.target labels).add p := by
  unfold Block.put Block.update Block.target Block.composite?
  dsimp only
  induction b.composites with
  | nil =>
    rw [Block.updateComposite, List.find?_cons_of_pos (by simp)]
    rfl
  | cons c cs ih =>
    rw [Block.updateComposite]
    by_cases hc : c.labels = labels
    · rw [if_pos hc, List.find?_cons_of_pos (by simpa using hc),
        List.find?_cons_of_pos (by simpa using hc)]
      rfl
    · rw [if_neg hc, List.find?_cons_of_neg (by simpa using hc),
        List.find?_cons_of_neg (by simpa using hc), ih]

lemma target_put_of_ne (b : Block) (p : Part) (h : labels' ≠ labels) :
    (b.put labels p).target labels' = b.target labels' := by
  unfold Block.target
  congr 1
  unfold Block.put Block.update Block.composite?
  dsimp only
  induction b.composites with
  | nil => exact List.find?_cons_of_neg (by simpa using h.symm)
  | cons c cs ih =>
    rw [Block.updateComposite]
    split_ifs with hc
    · rw [List.find?_cons_of_neg (by simpa [hc] using h.symm),
        List.find?_cons_of_neg (by simpa [hc] using h.symm)]
    · rw [List.find?_cons, List.find?_cons, ih]

namespace Block.Alike

lemma refl (hb : b.keys.Nodup) : b.Alike b :=
  ⟨rfl, rfl, fun _ => .rfl, hb, hb, fun _ => .refl _⟩

lemma trans (h : b.Alike c) (h' : c.Alike d) : b.Alike d :=
  ⟨h.heading.trans h'.heading, h.help.trans h'.help,
    fun labels => (h.keys labels).trans (h'.keys labels), h.nodup, h'.nodup',
    fun labels => (h.target labels).trans (h'.target labels)⟩

lemma put (h : b.Alike b') (labels : Labels) (p : Part) :
    (b.put labels p).Alike (b'.put labels p) := by
  refine ⟨h.heading, h.help, fun labels' => ?_, nodup_keys_put h.nodup labels p,
    nodup_keys_put h.nodup' labels p, fun labels' => ?_⟩
  · rw [mem_keys_put, mem_keys_put, h.keys]
  · by_cases hl : labels' = labels
    · rw [hl, target_put_self, target_put_self]
      exact (h.target labels).add p
    · rw [target_put_of_ne b p hl, target_put_of_ne b' p hl]
      exact h.target labels'

lemma addSeries (h : b.Alike b') (hk : Composed b.kind) (hl : b.heading.Untimed l)
    (hc : b.addSeries l = .ok c) : ∃ c', b'.addSeries l = .ok c' ∧ c.Alike c' := by
  obtain ⟨labels, p, hp, hadmits, rfl⟩ := (addSeries_eq_ok_iff hk hl).mp hc
  have hkind : b.kind = b'.kind := congrArg Heading.type h.heading
  rw [h.heading] at hl hp
  exact ⟨_, (addSeries_eq_ok_iff (hkind ▸ hk) hl).mpr
    ⟨labels, p, hp, (h.target labels).admits hadmits, rfl⟩, h.put labels p⟩

lemma foldlM (h : b.Alike b') (hk : Composed b.kind) (hls : ∀ l ∈ ls, b.heading.Untimed l)
    (hc : ls.foldlM Block.addSeries b = .ok c) :
    ∃ c', ls.foldlM Block.addSeries b' = .ok c' ∧ c.Alike c' := by
  induction ls generalizing b b' with
  | nil =>
    obtain rfl := Except.ok.inj hc
    exact ⟨b', rfl, h⟩
  | cons l ls ih =>
    obtain ⟨hl, hls⟩ := List.forall_mem_cons.mp hls
    rw [List.foldlM_cons, bind_eq_ok_iff] at hc
    obtain ⟨d, hd, hc⟩ := hc
    obtain ⟨d', hd', halike⟩ := h.addSeries hk hl hd
    have hheading := heading_addSeries hd
    have hkind : d.kind = b.kind := congrArg Heading.type hheading
    obtain ⟨c', hc', hcc'⟩ := ih halike (hkind ▸ hk) (hheading ▸ hls) hc
    exact ⟨c', by rw [List.foldlM_cons, hd']; exact hc', hcc'⟩

end Block.Alike

lemma put_put_alike (hb : b.keys.Nodup)
    (h : labels' = labels → ((b.target labels).add p).Admits q) :
    ((b.put labels p).put labels' q).Alike ((b.put labels' q).put labels p) := by
  refine ⟨rfl, rfl, fun x => ?_, nodup_keys_put (nodup_keys_put hb _ _) _ _,
    nodup_keys_put (nodup_keys_put hb _ _) _ _, fun x => ?_⟩
  · rw [mem_keys_put, mem_keys_put, mem_keys_put, mem_keys_put, or_left_comm]
  -- parts of two label sets never meet, so only one label set is of interest
  by_cases hl : labels' = labels
  · subst hl
    by_cases hx : x = labels'
    · rw [hx, target_put_self, target_put_self, target_put_self, target_put_self]
      exact Composite.add_add_alike (h rfl)
    · rw [target_put_of_ne _ q hx, target_put_of_ne b p hx, target_put_of_ne _ p hx,
        target_put_of_ne b q hx]
      exact .refl _
  · by_cases hx : x = labels
    · rw [hx, target_put_of_ne _ q (Ne.symm hl), target_put_self, target_put_self,
        target_put_of_ne b q (Ne.symm hl)]
      exact .refl _
    · rw [target_put_of_ne _ p hx]
      by_cases hx' : x = labels'
      · rw [hx', target_put_self, target_put_self, target_put_of_ne b p hl]
        exact .refl _
      · rw [target_put_of_ne _ q hx', target_put_of_ne b p hx, target_put_of_ne b q hx']
        exact .refl _

/-- Two lines that can be filed can be filed in the other order. -/
lemma addSeries_swap (hk : Composed b.kind) (hb : b.keys.Nodup) (hl : b.heading.Untimed l)
    (hl' : b.heading.Untimed l') (hc : b.addSeries l = .ok c) (hd : c.addSeries l' = .ok d) :
    ∃ c' d', b.addSeries l' = .ok c' ∧ c'.addSeries l = .ok d' ∧ d.Alike d' := by
  obtain ⟨labels, p, hp, hfirst, rfl⟩ := (addSeries_eq_ok_iff hk hl).mp hc
  obtain ⟨labels', q, hq, hsecond, rfl⟩ :=
    (addSeries_eq_ok_iff (b := b.put labels p) hk hl').mp hd
  have hadmits : (b.target labels').Admits q ∧ ((b.put labels' q).target labels).Admits p := by
    by_cases hlabels : labels' = labels
    · subst hlabels
      rw [target_put_self] at hsecond ⊢
      exact Composite.admits_swap hfirst hsecond
    · rw [target_put_of_ne b p hlabels] at hsecond
      rw [target_put_of_ne b q (Ne.symm hlabels)]
      exact ⟨hsecond, hfirst⟩
  refine ⟨_, _, (addSeries_eq_ok_iff hk hl').mpr ⟨labels', q, hq, hadmits.1, rfl⟩,
    (addSeries_eq_ok_iff (b := b.put labels' q) hk hl).mpr ⟨labels, p, hp, hadmits.2, rfl⟩,
    put_put_alike hb fun hlabels => ?_⟩
  rw [hlabels, target_put_self] at hsecond
  exact hsecond

lemma nodup_keys_addSeries (hk : Composed b.kind) (hl : b.heading.Untimed l) (hb : b.keys.Nodup)
    (hc : b.addSeries l = .ok c) : c.keys.Nodup := by
  obtain ⟨labels, p, -, -, rfl⟩ := (addSeries_eq_ok_iff hk hl).mp hc
  exact nodup_keys_put hb labels p

/-- The lines of a block can be filed in any order, or in none. -/
theorem foldlM_addSeries_perm (hp : ls.Perm ls') (hk : Composed b.kind) (hb : b.keys.Nodup)
    (hls : ∀ l ∈ ls, b.heading.Untimed l) (hc : ls.foldlM Block.addSeries b = .ok c) :
    ∃ c', ls'.foldlM Block.addSeries b = .ok c' ∧ c.Alike c' := by
  induction hp generalizing b c with
  | nil =>
    obtain rfl := Except.ok.inj hc
    exact ⟨b, rfl, .refl hb⟩
  | cons l hp ih =>
    obtain ⟨hl, hls⟩ := List.forall_mem_cons.mp hls
    rw [List.foldlM_cons, bind_eq_ok_iff] at hc
    obtain ⟨d, hd, hc⟩ := hc
    have hheading := heading_addSeries hd
    have hkind : d.kind = b.kind := congrArg Heading.type hheading
    obtain ⟨c', hc', halike⟩ :=
      ih (hkind ▸ hk) (nodup_keys_addSeries hk hl hb hd) (hheading ▸ hls) hc
    exact ⟨c', by rw [List.foldlM_cons, hd]; exact hc', halike⟩
  | swap l l' ls =>
    obtain ⟨hl', hl, hls⟩ := List.forall_mem_cons.mp hls |>.imp_right List.forall_mem_cons.mp
    rw [List.foldlM_cons, bind_eq_ok_iff] at hc
    obtain ⟨d, hd, hc⟩ := hc
    rw [List.foldlM_cons, bind_eq_ok_iff] at hc
    obtain ⟨e, he, hc⟩ := hc
    obtain ⟨d', e', hd', he', halike⟩ := addSeries_swap hk hb hl' hl hd he
    have hheading : e.heading = b.heading := (heading_addSeries he).trans (heading_addSeries hd)
    have hkind : e.kind = b.kind := congrArg Heading.type hheading
    -- the other lines are filed from blocks that are only alike
    obtain ⟨c', hc', hcc'⟩ := halike.foldlM (hkind ▸ hk) (hheading ▸ hls) hc
    refine ⟨c', ?_, hcc'⟩
    rw [List.foldlM_cons, hd']
    change List.foldlM Block.addSeries d' (l' :: ls) = _
    rw [List.foldlM_cons, he']
    exact hc'
  | trans hp hp' ih ih' =>
    obtain ⟨c', hc', halike⟩ := ih hk hb hls hc
    obtain ⟨d, hd, halike'⟩ := ih' hk hb (fun l hl => hls l (hp.mem_iff.mpr hl)) hc'
    exact ⟨d, hd, halike.trans halike'⟩

end Blocks

end PushGateway.Exposition
