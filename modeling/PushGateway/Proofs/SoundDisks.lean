import Mathlib.Data.List.Induction
import Mathlib.Data.List.Infix
import PushGateway.Proofs.SortedMapEntries
import PushGateway.Snapshot.Location

/-! Disks whose nodes all lie in directories. Every operation leaves a disk so, and to move a node
is to move all that is below it and nothing else. -/

namespace PushGateway

namespace Snapshot

namespace Disk

/-- Each node lies in a directory, and the next lease has a number of its own. -/
structure Sound (d : Disk) : Prop where
  home : d.isDirectory d.home = true
  placed : ∀ p n, d.get? p = some n → p ≠ [] ∧ d.isDirectory p.dropLast = true
  leased : ∀ p k, d.get? p = some (.held k) → k < d.nextLease

variable {d : Disk} {p q : Path} {n : Node}

lemma isDirectory_iff : d.isDirectory p = true ↔ p = [] ∨ d.get? p = some .directory := by
  simp [isDirectory]

lemma get?_of_isDirectory (h : d.isDirectory p = true) (hp : p ≠ []) :
    d.get? p = some .directory :=
  (isDirectory_iff.mp h).resolve_left hp

lemma sound_of_entries (hh : d.isDirectory d.home = true)
    (hp : ∀ e ∈ d.nodes.entries, e.1 ≠ [] ∧ d.isDirectory e.1.dropLast = true)
    (hk : ∀ e ∈ d.nodes.entries, ∀ k, e.2 = .held k → k < d.nextLease) : d.Sound :=
  ⟨hh, fun p n h => hp (p, n) (SortedMap.get?_eq_some_iff.mp h),
    fun p k h => hk (p, .held k) (SortedMap.get?_eq_some_iff.mp h) k rfl⟩

section Empty

variable (home : Path)

lemma get?_empty : (empty home).get? p = some n ↔
    n = .directory ∧ ∃ k < home.length, p = home.take (k + 1) := by
  have hnodup : (((List.range home.length).map fun k =>
      (home.take (k + 1), Node.directory)).map Prod.fst).Nodup := by
    rw [List.map_map]
    refine List.Nodup.map_on (fun i hi j hj h => ?_) List.nodup_range
    have hlength := congrArg List.length h
    simp only [Function.comp_apply, List.length_take] at hlength
    rw [List.mem_range] at hi hj
    omega
  change (SortedMap.ofList _).get? p = some n ↔ _
  rw [SortedMap.get?_ofList hnodup, List.mem_map]
  simp only [List.mem_range, Prod.mk.injEq]
  constructor
  · rintro ⟨k, hk, rfl, rfl⟩
    exact ⟨rfl, k, hk, rfl⟩
  · rintro ⟨rfl, k, hk, rfl⟩
    exact ⟨k, hk, rfl, rfl⟩

lemma isDirectory_empty (k : Nat) (hk : k ≤ home.length) :
    (empty home).isDirectory (home.take k) = true := by
  rw [isDirectory_iff]
  cases k with
  | zero => exact .inl rfl
  | succ k => exact .inr ((get?_empty home).mpr ⟨rfl, k, hk, rfl⟩)

lemma sound_empty : (empty home).Sound := by
  refine ⟨?_, fun p n h => ?_, fun p k h => ?_⟩
  · have hhome := isDirectory_empty home home.length (Nat.le_refl _)
    rwa [List.take_length] at hhome
  · obtain ⟨-, k, hk, rfl⟩ := (get?_empty home).mp h
    have hconcat : home.take (k + 1) = home.take k ++ [home[k]] :=
      (List.take_append_getElem hk).symm
    rw [hconcat, List.dropLast_concat]
    exact ⟨List.concat_ne_nil _ _, isDirectory_empty home k (Nat.le_of_lt hk)⟩
  · cases ((get?_empty home).mp h).1

end Empty

section Below

/-- Nothing lies below what is no directory. -/
lemma Sound.below_eq_none (h : d.Sound) (hq : q ≠ [])
    (hn : d.get? q ≠ some .directory) : ∀ r ≠ [], d.get? (q ++ r) = none := by
  intro r
  induction r using List.reverseRecOn with
  | nil => exact fun hne => absurd rfl hne
  | append_singleton r name ih =>
    intro _
    rw [← Option.not_isSome_iff_eq_none, Option.isSome_iff_exists]
    rintro ⟨n, hget⟩
    have hdir := (h.placed _ n hget).2
    rw [← List.append_assoc, List.dropLast_concat] at hdir
    have hget' := get?_of_isDirectory hdir (List.append_ne_nil_of_left_ne_nil hq r)
    by_cases hr : r = []
    · rw [hr, List.append_nil] at hget'
      exact hn hget'
    · rw [ih hr] at hget'
      cases hget'

end Below

section Set

lemma get?_set (d : Disk) (p x : Path) (n : Node) :
    (d.set p n).get? x = if x = p then some n else d.get? x :=
  SortedMap.get?_insert d.nodes p x n

/-- A node may take any place in a directory, but only a directory that of a directory. -/
lemma Sound.set (h : d.Sound) (hp : p ≠ []) (hdir : d.isDirectory p.dropLast = true)
    (hkeep : d.get? p = some .directory → n = .directory)
    (hn : ∀ k, n = .held k → k < d.nextLease) : (d.set p n).Sound := by
  have hstill : ∀ x, d.isDirectory x = true → (d.set p n).isDirectory x = true := by
    intro x hx
    rw [isDirectory_iff] at hx ⊢
    refine hx.imp_right fun hget => ?_
    rw [get?_set]
    by_cases hxp : x = p
    · rw [if_pos hxp, hkeep (hxp ▸ hget)]
    · rw [if_neg hxp, hget]
  refine ⟨hstill _ h.home, fun x m hx => ?_, fun x k hx => ?_⟩
  · rw [get?_set] at hx
    by_cases hxp : x = p
    · rw [hxp]
      exact ⟨hp, hstill _ hdir⟩
    · rw [if_neg hxp] at hx
      exact ⟨(h.placed x m hx).1, hstill _ (h.placed x m hx).2⟩
  · rw [get?_set] at hx
    by_cases hxp : x = p
    · rw [if_pos hxp] at hx
      exact hn k (Option.some.inj hx)
    · rw [if_neg hxp] at hx
      exact h.leased x k hx

end Set

section Leases

lemma get?_hold (d : Disk) (p x : Path) (c : Contents) :
    (d.hold p c).1.get? x = if x = p then some (.held d.nextLease) else d.get? x :=
  get?_set d p x _

lemma Sound.hold (h : d.Sound) (hp : p ≠ []) (hdir : d.isDirectory p.dropLast = true)
    (hn : d.get? p ≠ some .directory) (c : Contents) : (d.hold p c).1.Sound := by
  have hnext : ({ d with nextLease := d.nextLease + 1 } : Disk).Sound :=
    ⟨h.home, h.placed, fun x k hx => Nat.lt_succ_of_lt (h.leased x k hx)⟩
  have hset : (({ d with nextLease := d.nextLease + 1 } : Disk).set p (.held d.nextLease)).Sound :=
    hnext.set hp hdir (fun hget => absurd hget hn) fun k hk => by
      rw [← Node.held.inj hk]
      exact Nat.lt_succ_self _
  exact hset

lemma get?_release (d : Disk) (l : Lease) (x : Path) : (d.release l).get? x
    = (d.get? x).map fun n => if n = .held l.number then .database l.contents else n :=
  SortedMap.get?_mapValues d.nodes _ x

lemma Sound.release (h : d.Sound) (l : Lease) : (d.release l).Sound := by
  have hdir : ∀ x, d.isDirectory x = true → (d.release l).isDirectory x = true := by
    intro x hx
    rw [isDirectory_iff] at hx ⊢
    refine hx.imp_right fun hget => ?_
    rw [get?_release, hget]
    rfl
  refine ⟨hdir _ h.home, fun x n hx => ?_, fun x k hx => ?_⟩
  · rw [get?_release] at hx
    obtain ⟨m, hm, -⟩ := Option.map_eq_some_iff.mp hx
    exact ⟨(h.placed x m hm).1, hdir _ (h.placed x m hm).2⟩
  · rw [get?_release] at hx
    obtain ⟨m, hm, heq⟩ := Option.map_eq_some_iff.mp hx
    split_ifs at heq
    exact h.leased x k (heq ▸ hm)

/-- A file that was just opened is given back to its place, and to no other. -/
lemma Sound.get?_release_hold (h : d.Sound) (p x : Path) (c : Contents) :
    ((d.hold p c).1.release (d.hold p c).2).get? x
      = if x = p then some (.database c) else d.get? x := by
  rw [get?_release, get?_hold]
  by_cases hx : x = p
  · rw [if_pos hx, if_pos hx]
    exact congrArg some (if_pos rfl)
  · rw [if_neg hx, if_neg hx]
    cases hget : d.get? x with
    | none => rfl
    | some n =>
      refine congrArg some (if_neg ?_)
      rintro rfl
      exact absurd (h.leased x _ hget) (Nat.lt_irrefl _)

end Leases

section Moves

lemma relocate_append (source target r : Path) :
    (source ++ r).relocate source target = target ++ r := by
  simp [Path.relocate]

lemma relocate_apart {source target x : Path} (h : ¬source <+: x) :
    x.relocate source target = x := by
  rw [Path.relocate, if_neg]
  rwa [List.isPrefixOf_iff_prefix]

/-- All of `p` is at `q`, with what is below it, and other paths lead to what they led to. -/
structure Displaced (d d' : Disk) (p q : Path) : Prop where
  there : ∀ r, d'.get? (q ++ r) = d.get? (p ++ r)
  gone : ∀ r, d'.get? (p ++ r) = none
  others : ∀ x, ¬p <+: x → ¬q <+: x → d'.get? x = d.get? x

lemma relocate_inj {source target x y : Path} (hx : ¬target <+: x) (hy : ¬target <+: y)
    (h : x.relocate source target = y.relocate source target) : x = y := by
  by_cases hsx : source <+: x
  · obtain ⟨r, rfl⟩ := hsx
    rw [relocate_append] at h
    by_cases hsy : source <+: y
    · obtain ⟨r', rfl⟩ := hsy
      rw [relocate_append] at h
      rw [List.append_cancel_left h]
    · rw [relocate_apart hsy] at h
      exact absurd ⟨r, h⟩ hy
  · rw [relocate_apart hsx] at h
    by_cases hsy : source <+: y
    · obtain ⟨r, rfl⟩ := hsy
      rw [relocate_append] at h
      exact absurd ⟨r, h.symm⟩ hx
    · rwa [relocate_apart hsy] at h

lemma get?_move (hfree : ∀ r ≠ [], d.get? (q ++ r) = none) {x : Path} :
    (d.move p q).get? x = some n ↔ ∃ y, y ≠ q ∧ d.get? y = some n ∧ y.relocate p q = x := by
  have herase (y : Path) (m : Node) :
      (y, m) ∈ (d.nodes.erase q).entries ↔ y ≠ q ∧ d.get? y = some m := by
    rw [← SortedMap.get?_eq_some_iff]
    exact SortedMap.get?_erase_eq_some_iff
  have hapart : ∀ y ∈ (d.nodes.erase q).keys, ¬q <+: y := by
    rintro y hy ⟨r, rfl⟩
    obtain ⟨⟨y, m⟩, he, rfl⟩ := List.mem_map.mp hy
    obtain ⟨hy, hget⟩ := (herase _ m).mp he
    by_cases hr : r = []
    · exact hy (by simp [hr])
    · rw [hfree r hr] at hget
      cases hget
  -- what lay below the target is gone, so no two nodes meet at one path
  have hnodup : (((d.nodes.erase q).entries.map fun e => (e.1.relocate p q, e.2)).map
      Prod.fst).Nodup := by
    have hinj : ∀ x ∈ (d.nodes.erase q).keys, ∀ y ∈ (d.nodes.erase q).keys,
        x.relocate p q = y.relocate p q → x = y :=
      fun x hx y hy => relocate_inj (hapart x hx) (hapart y hy)
    have hkeys := (SortedMap.nodup_of_sorted (d.nodes.erase q).keys_sorted).map_on hinj
    rw [SortedMap.keys, List.map_map] at hkeys
    rwa [List.map_map]
  change (SortedMap.ofList ((d.nodes.erase q).entries.map fun e => (e.1.relocate p q, e.2))).get? x
    = some n ↔ _
  rw [SortedMap.get?_ofList hnodup, List.mem_map]
  constructor
  · rintro ⟨⟨y, m⟩, he, heq⟩
    obtain ⟨rfl, rfl⟩ := Prod.mk.inj heq
    obtain ⟨hy, hget⟩ := (herase y m).mp he
    exact ⟨y, hy, hget, rfl⟩
  · rintro ⟨y, hy, hget, rfl⟩
    exact ⟨(y, n), (herase y n).mpr ⟨hy, hget⟩, rfl⟩

lemma displaced_move (hpq : ¬p <+: q) (hqp : ¬q <+: p)
    (hfree : ∀ r ≠ [], d.get? (q ++ r) = none) : Displaced d (d.move p q) p q := by
  refine ⟨fun r => Option.ext fun n => ?_, fun r => ?_, fun x hp hq => Option.ext fun n => ?_⟩
  · rw [get?_move hfree]
    constructor
    · rintro ⟨y, hy, hget, heq⟩
      by_cases hp : p <+: y
      · obtain ⟨r', rfl⟩ := hp
        rw [relocate_append] at heq
        rw [← List.append_cancel_left heq]
        exact hget
      · rw [relocate_apart hp] at heq
        by_cases hr : r = []
        · exact absurd (by simp [heq, hr]) hy
        · rw [heq, hfree r hr] at hget
          cases hget
    · intro hget
      refine ⟨p ++ r, ?_, hget, relocate_append p q r⟩
      intro heq
      exact hpq ⟨r, heq⟩
  · rw [← Option.not_isSome_iff_eq_none, Option.isSome_iff_exists]
    rintro ⟨n, hget⟩
    obtain ⟨y, -, -, heq⟩ := (get?_move hfree).mp hget
    by_cases hp : p <+: y
    · obtain ⟨r', rfl⟩ := hp
      rw [relocate_append] at heq
      rcases List.prefix_or_prefix_of_prefix ⟨r', heq⟩ (List.prefix_append p r) with h | h
      · exact hqp h
      · exact hpq h
    · rw [relocate_apart hp] at heq
      exact hp (heq ▸ List.prefix_append p r)
  · rw [get?_move hfree]
    constructor
    · rintro ⟨y, -, hget, heq⟩
      by_cases hy : p <+: y
      · obtain ⟨r, rfl⟩ := hy
        rw [relocate_append] at heq
        exact absurd ⟨r, heq⟩ hq
      · rw [relocate_apart hy] at heq
        exact heq ▸ hget
    · intro hget
      exact ⟨x, fun heq => hq (heq ▸ List.prefix_refl x), hget, relocate_apart hp⟩

lemma Displaced.cases {d' : Disk} (h : Displaced d d' p q) {x : Path} (hx : d'.get? x = some n) :
    (∃ r, x = q ++ r ∧ d.get? (p ++ r) = some n) ∨
      ¬p <+: x ∧ ¬q <+: x ∧ d.get? x = some n := by
  by_cases hq : q <+: x
  · obtain ⟨r, rfl⟩ := hq
    exact .inl ⟨r, rfl, h.there r ▸ hx⟩
  · by_cases hp : p <+: x
    · obtain ⟨r, rfl⟩ := hp
      rw [h.gone] at hx
      cases hx
    · exact .inr ⟨hp, hq, h.others x hp hq ▸ hx⟩

/-- Two names of one directory. -/
structure Beside (p q : Path) : Prop where
  source : p ≠ []
  target : q ≠ []
  parent : q.dropLast = p.dropLast
  ne : p ≠ q

lemma Beside.length_eq (h : Beside p q) : q.length = p.length := by
  have hp := List.length_pos_iff.mpr h.source
  have hq := List.length_pos_iff.mpr h.target
  have hparent := congrArg List.length h.parent
  rw [List.length_dropLast, List.length_dropLast] at hparent
  omega

lemma Beside.not_prefix (h : Beside p q) : ¬p <+: q :=
  fun hpq => h.ne (hpq.eq_of_length h.length_eq.symm)

lemma Beside.not_prefix' (h : Beside p q) : ¬q <+: p :=
  fun hqp => h.ne (hqp.eq_of_length h.length_eq).symm

lemma Beside.displaced (h : Beside p q) (hfree : ∀ r ≠ [], d.get? (q ++ r) = none) :
    Displaced d (d.move p q) p q :=
  displaced_move h.not_prefix h.not_prefix' hfree

lemma Beside.parent_apart (h : Beside p q) : ¬p <+: p.dropLast ∧ ¬q <+: p.dropLast := by
  have hp := List.length_pos_iff.mpr h.source
  have hlength := h.length_eq
  refine ⟨fun hprefix => ?_, fun hprefix => ?_⟩
  · have hle := hprefix.length_le
    rw [List.length_dropLast] at hle
    omega
  · have hle := hprefix.length_le
    rw [List.length_dropLast] at hle
    omega

lemma Beside.isDirectory_parent (h : Beside p q) (hfree : ∀ r ≠ [], d.get? (q ++ r) = none)
    (hdir : d.isDirectory p.dropLast = true) : (d.move p q).isDirectory p.dropLast = true := by
  rw [isDirectory_iff] at hdir ⊢
  refine hdir.imp_right fun hget => ?_
  rw [(h.displaced hfree).others _ h.parent_apart.1 h.parent_apart.2, hget]

/-- The working directory is a directory after a move as it was before. -/
lemma Beside.isDirectory_home (h : Beside p q) (hfree : ∀ r ≠ [], d.get? (q ++ r) = none)
    (hkeep : d.get? q = some .directory → d.get? p = some .directory)
    (hhome : d.isDirectory d.home = true) :
    (d.move p q).isDirectory (d.home.relocate p q) = true := by
  have hmove := h.displaced hfree
  rw [isDirectory_iff]
  by_cases hp : p <+: d.home
  · obtain ⟨r, hr⟩ := hp
    rw [← hr] at hhome ⊢
    have hget := get?_of_isDirectory hhome (List.append_ne_nil_of_left_ne_nil h.source r)
    rw [relocate_append]
    exact .inr ((hmove.there r).trans hget)
  · rw [relocate_apart hp]
    refine (isDirectory_iff.mp hhome).imp_right fun hget => ?_
    by_cases hq : q <+: d.home
    · obtain ⟨r, hr⟩ := hq
      rw [← hr] at hget ⊢
      rw [hmove.there r]
      by_cases hnil : r = []
      · rw [hnil, List.append_nil] at hget ⊢
        exact hkeep hget
      · cases (hfree r hnil).symm.trans hget
    · rw [hmove.others _ hp hq, hget]

lemma Sound.move (hd : d.Sound) (h : Beside p q) (hfree : ∀ r ≠ [], d.get? (q ++ r) = none)
    (hkeep : d.get? q = some .directory → d.get? p = some .directory)
    (hdir : d.isDirectory p.dropLast = true) : (d.move p q).Sound := by
  have hmove := h.displaced hfree
  refine ⟨h.isDirectory_home hfree hkeep hd.home, fun x n hx => ?_, fun x k hx => ?_⟩
  · rcases hmove.cases hx with ⟨r, rfl, hwas⟩ | ⟨hp, hq, hwas⟩
    · refine ⟨List.append_ne_nil_of_left_ne_nil h.target r, ?_⟩
      by_cases hr : r = []
      · rw [hr, List.append_nil, h.parent]
        exact h.isDirectory_parent hfree hdir
      · have hparent := (hd.placed _ n hwas).2
        rw [List.dropLast_append_of_ne_nil hr] at hparent ⊢
        have hget := get?_of_isDirectory hparent (List.append_ne_nil_of_left_ne_nil h.source _)
        exact isDirectory_iff.mpr (.inr ((hmove.there _).trans hget))
    · obtain ⟨hne, hparent⟩ := hd.placed x n hwas
      have hlast := List.dropLast_prefix x
      refine ⟨hne, isDirectory_iff.mpr ((isDirectory_iff.mp hparent).imp_right fun hget => ?_)⟩
      rw [hmove.others _ (fun hp' => hp (hp'.trans hlast)) fun hq' => hq (hq'.trans hlast), hget]
  · rcases hmove.cases hx with ⟨r, rfl, hwas⟩ | ⟨-, -, hwas⟩
    · exact hd.leased _ k hwas
    · exact hd.leased x k hwas

end Moves

end Disk

end Snapshot

end PushGateway
