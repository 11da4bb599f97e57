import PushGateway.Proofs.SoundDisks

/-! Where file names lead. On a sound disk a name leads into a directory, and when what it leads to
is moved aside, the name leads to the same place again or nowhere. -/

namespace PushGateway.Snapshot

namespace Disk

variable {d d' : Disk} {file component : String} {here here' p q : Path} {n : Node}

section Locations

lemma Sound.step? (hd : d.Sound) (hhere : d.isDirectory here = true) {there : Path}
    (h : d.step? here component = some there) : d.isDirectory there = true := by
  unfold Disk.step? at h
  split_ifs at h with hup hstep hdir
  · obtain rfl := Option.some.inj h
    rcases isDirectory_iff.mp hhere with rfl | hget
    · exact hhere
    · exact (hd.placed here _ hget).2
  · exact Option.some.inj h ▸ hhere
  · exact Option.some.inj h ▸ hdir

lemma Sound.locateFrom? (hd : d.Sound) (hhere : d.isDirectory here = true)
    {components : List String} (h : d.locateFrom? here components = some (.entry p)) :
    p ≠ [] ∧ d.isDirectory p.dropLast = true := by
  fun_induction Disk.locateFrom? d here components with
  | case1 => cases h
  | case2 here last hstep =>
    obtain ⟨there, -, heq⟩ := Option.map_eq_some_iff.mp h
    cases heq
  | case3 here last hstep hname =>
    obtain rfl := Location.entry.inj (Option.some.inj h)
    rw [List.dropLast_concat]
    exact ⟨List.concat_ne_nil _ _, hhere⟩
  | case4 => cases h
  | case5 here component rest hrest ih =>
    obtain ⟨there, hthere, h⟩ := Option.bind_eq_some_iff.mp h
    exact ih there (hd.step? hhere hthere) h

lemma Sound.origin (hd : d.Sound) (file : String) : d.isDirectory (d.origin file) = true := by
  unfold Disk.origin
  split_ifs
  · rfl
  · exact hd.home

lemma Sound.locate? (hd : d.Sound) (h : d.locate? file = some (.entry p)) :
    p ≠ [] ∧ d.isDirectory p.dropLast = true :=
  hd.locateFrom? (hd.origin file) h

end Locations

section Moves

/-- One directory, or two that lie alike in `p` and in `q`. -/
def Alike (p q here here' : Path) : Prop := here' = here ∨ ∃ r, here = p ++ r ∧ here' = q ++ r

lemma alike_relocate (p q here : Path) : Alike p q here (here.relocate p q) := by
  by_cases h : p <+: here
  · obtain ⟨r, rfl⟩ := h
    exact .inr ⟨r, rfl, relocate_append p q r⟩
  · exact .inl (relocate_apart h)

/-- A walk up out of `p` and one out of `q` meet in the directory that both are in. -/
lemma Alike.step? (h : Alike p q here here') (hb : Beside p q) {there there' : Path}
    (hthere : d.step? here component = some there)
    (hthere' : d'.step? here' component = some there') : Alike p q there there' := by
  unfold Disk.step? at hthere hthere'
  rcases h with rfl | ⟨r, rfl, rfl⟩
  · split_ifs at hthere hthere' <;> exact .inl (Option.some.inj (hthere'.symm.trans hthere))
  · split_ifs at hthere hthere' with hup hstep
    · obtain rfl := Option.some.inj hthere
      obtain rfl := Option.some.inj hthere'
      by_cases hr : r = []
      · rw [hr, List.append_nil, List.append_nil]
        exact .inl hb.parent
      · rw [List.dropLast_append_of_ne_nil hr, List.dropLast_append_of_ne_nil hr]
        exact .inr ⟨r.dropLast, rfl, rfl⟩
    · exact .inr ⟨r, (Option.some.inj hthere).symm, (Option.some.inj hthere').symm⟩
    · refine .inr ⟨r ++ [component], ?_, ?_⟩
      · rw [← Option.some.inj hthere, List.append_assoc]
      · rw [← Option.some.inj hthere', List.append_assoc]

/-- The entries that a name leads to from alike directories are the same, or lie in these. -/
lemma Alike.locateFrom? (h : Alike p q here here') (hb : Beside p q) {components : List String}
    {x x' : Path} (hx : d.locateFrom? here components = some (.entry x))
    (hx' : d'.locateFrom? here' components = some (.entry x')) :
    x' = x ∨ ∃ r ≠ [], x = p ++ r ∧ x' = q ++ r := by
  fun_induction Disk.locateFrom? d here components generalizing here' with
  | case1 => cases hx
  | case2 here last hstep =>
    obtain ⟨there, -, heq⟩ := Option.map_eq_some_iff.mp hx
    cases heq
  | case3 here last hstep hname =>
    rw [Disk.locateFrom?, if_neg hstep, if_pos hname] at hx'
    obtain rfl := Location.entry.inj (Option.some.inj hx)
    obtain rfl := Location.entry.inj (Option.some.inj hx')
    rcases h with rfl | ⟨r, rfl, rfl⟩
    · exact .inl rfl
    · exact .inr ⟨r ++ [last], List.concat_ne_nil _ _, List.append_assoc _ _ _,
        List.append_assoc _ _ _⟩
  | case4 => cases hx
  | case5 here component rest hrest ih =>
    rw [Disk.locateFrom?] at hx'
    · obtain ⟨there, hthere, hx⟩ := Option.bind_eq_some_iff.mp hx
      obtain ⟨there', hthere', hx'⟩ := Option.bind_eq_some_iff.mp hx'
      exact ih there (h.step? hb hthere hthere') hx hx'
    · exact hrest

/-- Also a name that begins in a directory that is moved leads to no other place than before. -/
lemma Beside.locate?_move (hb : Beside p q) {x : Path} (hp : d.locate? file = some (.entry p))
    (hx : (d.move p q).locate? file = some (.entry x)) : x = p := by
  have horigin : Alike p q (d.origin file) ((d.move p q).origin file) := by
    unfold Disk.origin
    split_ifs
    · exact .inl rfl
    · exact alike_relocate p q d.home
  refine (horigin.locateFrom? hb hp hx).resolve_right ?_
  rintro ⟨r, hr, heq, -⟩
  exact hr (List.append_right_eq_self.mp heq.symm)

end Moves

section Writes

lemma Sound.write? (hd : d.Sound) (hn : ∀ k, n = .held k → k < d.nextLease)
    (h : d.write? file n = some d') : d'.Sound := by
  unfold Disk.write? at h
  split at h
  · next p hp =>
    obtain ⟨hne, hdir⟩ := hd.locate? hp
    split at h
    · cases h
    · exact Option.some.inj h ▸ hd
    · next hdirectory _ =>
      exact Option.some.inj h ▸ hd.set hne hdir (fun hget => absurd hget hdirectory) hn
  · cases h

lemma Sound.enter? (hd : d.Sound) (hhere : d.isDirectory here = true) {there : Path}
    (h : d.enter? here component = some (d', there)) :
    d'.Sound ∧ d'.isDirectory there = true := by
  unfold Disk.enter? at h
  split at h
  · next x hx =>
    obtain ⟨rfl, rfl⟩ := Prod.mk.inj (Option.some.inj h)
    exact ⟨hd, hd.step? hhere hx⟩
  · next hx =>
    dsimp only at h
    split_ifs at h with hname
    obtain ⟨rfl, rfl⟩ := Prod.mk.inj (Option.some.inj h)
    simp only [Bool.and_eq_true, Bool.not_eq_true', Option.isNone_iff_eq_none] at hname
    refine ⟨hd.set (List.concat_ne_nil _ _) ?_ (fun _ => rfl) (fun _ hk => by cases hk), ?_⟩
    · rw [List.dropLast_concat]
      exact hhere
    · rw [isDirectory_iff, get?_set, if_pos rfl]
      exact .inr rfl

lemma Sound.enterAll? {components : List String} (hd : d.Sound) (hhere : d.isDirectory here = true)
    (h : d.enterAll? here components = some d') : d'.Sound := by
  induction components generalizing d here with
  | nil => exact Option.some.inj h ▸ hd
  | cons component rest ih =>
    obtain ⟨⟨d₁, there⟩, hthere, h⟩ := Option.bind_eq_some_iff.mp h
    obtain ⟨hd₁, hdir⟩ := hd.enter? hhere hthere
    exact ih hd₁ hdir h

lemma Sound.makeDirectory? (hd : d.Sound) (h : d.makeDirectory? file = some d') : d'.Sound :=
  hd.enterAll? (hd.origin file) h

end Writes

end Disk

end PushGateway.Snapshot
