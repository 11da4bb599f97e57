import PushGateway.Proofs.FileLocations
import PushGateway.Proofs.GroupValidity
import PushGateway.Snapshot.Restore

/-! What opening a snapshot file does to it. A file that opens keeps its contents, one that is held
is left alone, and any other is put aside whole or stays where it is. -/

namespace PushGateway.Snapshot

section Rows

/-- The row is the text of a group that a push could have built. -/
def Decodes (text : String) (g : Group) : Prop :=
  ∃ stored, Json.readGroup? text = some stored ∧
    Group.build stored.key stored.families.values stored.lastPush stored.pushSeq = .ok g

lemma decodeRow_eq_ok_iff {text : String} {g : Group} :
    Contents.decodeRow text = .ok g ↔ Decodes text g := by
  unfold Contents.decodeRow Decodes
  cases hread : Json.readGroup? text with
  | none => simp
  | some stored =>
    dsimp only
    cases hbuild : Group.build stored.key stored.families.values stored.lastPush stored.pushSeq with
    | error e => simp [hbuild]
    | ok g' => simp [hbuild]

lemma mapM_cases {E A B : Type} (f : A → Except E B) (l : List A) :
    (∃ r, l.mapM f = .ok r ∧ List.Forall₂ (fun a b => f a = .ok b) l r) ∨
      ∃ e, l.mapM f = .error e ∧ ∃ a ∈ l, f a = .error e := by
  induction l with
  | nil => exact .inl ⟨[], rfl, .nil⟩
  | cons a l ih =>
    rw [List.mapM_cons]
    cases ha : f a with
    | error e => exact .inr ⟨e, rfl, a, List.mem_cons_self, ha⟩
    | ok b =>
      rcases ih with ⟨r, hr, hall⟩ | ⟨e, he, a', hmem, hfail⟩
      · exact .inl ⟨b :: r, by rw [hr]; rfl, .cons ha hall⟩
      · exact .inr ⟨e, by rw [he]; rfl, a', List.mem_cons_of_mem a hmem, hfail⟩

/-- All rows of contents of the current version, or no group at all. -/
def Contents.AllOrNone (c : Contents) (groups : List Group) : Prop :=
  c.version = some 1 ∧ List.Forall₂ Decodes c.rows.values groups ∨
    groups = [] ∧ (c.version ≠ some 1 ∨ ∃ text ∈ c.rows.values, ∀ g, ¬Decodes text g)

lemma groups_ofOpened_of_ok {l : Lease} {groups : List Group} (h : l.contents.load = .ok groups)
    (d : Disk) : (Restored.ofOpened d l).groups = groups := by
  simp only [Restored.ofOpened, h]

lemma groups_ofOpened_of_error {l : Lease} {e : SnapshotError} (h : l.contents.load = .error e)
    (d : Disk) : (Restored.ofOpened d l).groups = [] := by
  simp only [Restored.ofOpened, h]

lemma allOrNone_ofOpened (d : Disk) (l : Lease) :
    l.contents.AllOrNone (Restored.ofOpened d l).groups := by
  cases hv : l.contents.version with
  | none =>
    have hload : l.contents.load = .ok [] := by simp only [Contents.load, hv]
    rw [groups_ofOpened_of_ok hload]
    exact .inr ⟨rfl, .inl (by rw [hv]; exact nofun)⟩
  | some v =>
    by_cases hone : v = Contents.formatVersion
    · have hload : l.contents.load = l.contents.rows.values.mapM Contents.decodeRow := by
        simp only [Contents.load, hv, if_pos hone]
      rcases mapM_cases Contents.decodeRow l.contents.rows.values with
        ⟨groups, hok, hall⟩ | ⟨e, herror, text, hmem, hfail⟩
      · rw [groups_ofOpened_of_ok (hload.trans hok)]
        exact .inl ⟨hv.trans (congrArg some hone), hall.imp fun _ _ => decodeRow_eq_ok_iff.mp⟩
      · rw [groups_ofOpened_of_error (hload.trans herror)]
        refine .inr ⟨rfl, .inr ⟨text, hmem, fun g hg => ?_⟩⟩
        rw [decodeRow_eq_ok_iff.mpr hg] at hfail
        cases hfail
    · have hload : l.contents.load = .error (.version v) := by
        simp only [Contents.load, hv, if_neg hone]
      rw [groups_ofOpened_of_error hload]
      exact .inr ⟨rfl, .inl fun he => hone (Option.some.inj (hv.symm.trans he))⟩

end Rows

namespace Disk

/-- The file is a database with these contents. A missing file, and a file that holds nothing,
counts as one that was never written. -/
structure Opens (d : Disk) (file : String) (p : Path) (c : Contents) : Prop where
  named : d.locate? file = some (.entry p)
  node : d.get? p = some (.database c) ∨
    (d.get? p = none ∨ d.get? p = some (.text "")) ∧ c = .empty

def Locked (d : Disk) (file : String) : Prop :=
  ∃ p k, d.locate? file = some (.entry p) ∧ d.get? p = some (.held k)

/-- A directory may take the place of an empty directory, and a file that of a file. -/
def Yields (d : Disk) (n : Node) (q : Path) : Prop :=
  d.get? q = none ∨
    n = .directory ∧ d.get? q = some .directory ∧ (∀ r ≠ [], d.get? (q ++ r) = none) ∨
    n ≠ .directory ∧ ∃ m, d.get? q = some m ∧ m ≠ .directory

/-- The node of the file can be renamed to the name beside it that ends in `.corrupt`. -/
structure CanMove (d : Disk) (file : String) (p q : Path) : Prop where
  named : d.locate? file = some (.entry p)
  aside : ∃ directory name, p = directory ++ [name] ∧ q = directory ++ [name ++ ".corrupt"] ∧
    isName (name ++ ".corrupt") = true
  node : ∃ n, d.get? p = some n ∧ d.Yields n q

section Opening

variable {d : Disk} {file : String} {p : Path} {c : Contents}

lemma Opens.openFile (h : d.Opens file p c) (hd : d.Sound) :
    openFile d file = .ok (d.hold p c) := by
  obtain ⟨hne, hdir⟩ := hd.locate? h.named
  have hacquire : d.acquire p = .ok (d.hold p c) := by
    unfold acquire
    rw [List.isEmpty_eq_false_iff.mpr hne, hdir]
    rcases h.node with hget | ⟨hget | hget, rfl⟩
    · rw [hget]
      rfl
    · rw [hget]
      rfl
    · rw [hget]
      rfl
  simp only [Snapshot.openFile, h.named, hacquire]

lemma Locked.openFile (h : d.Locked file) (hd : d.Sound) : openFile d file = .error .locked := by
  obtain ⟨p, k, hp, hget⟩ := h
  obtain ⟨hne, hdir⟩ := hd.locate? hp
  have hacquire : d.acquire p = .error .locked := by
    unfold acquire
    rw [List.isEmpty_eq_false_iff.mpr hne, hdir, hget]
    rfl
  simp only [Snapshot.openFile, hp, hacquire]

lemma openFile_unusable (ho : ∀ p c, ¬d.Opens file p c) (hl : ¬d.Locked file) :
    ∃ e, openFile d file = .error e ∧ e ≠ .locked := by
  unfold openFile
  split
  · next p hp =>
    unfold acquire
    split_ifs with hreach
    · exact ⟨.unusable, rfl, by decide⟩
    · cases hget : d.get? p with
      | none => exact absurd ⟨hp, .inr ⟨.inl hget, rfl⟩⟩ (ho p .empty)
      | some n =>
        cases n with
        | directory => exact ⟨.unusable, rfl, by decide⟩
        | foreign => exact ⟨.wrongTables, rfl, by decide⟩
        | held k => exact absurd ⟨p, k, hp, hget⟩ hl
        | database c => exact absurd ⟨hp, .inl hget⟩ (ho p c)
        | text s =>
          by_cases hs : s.isEmpty = true
          · rw [String.isEmpty_iff.mp hs] at hget
            exact absurd ⟨hp, .inr ⟨.inr hget, rfl⟩⟩ (ho p .empty)
          · exact ⟨.unusable, by simp [hs], by decide⟩
  · exact ⟨.unusable, rfl, by decide⟩

end Opening

section Moves

variable {d d' : Disk} {file : String} {p q : Path} {n : Node}

lemma hasChildren_eq_false_iff :
    d.hasChildren q = false ↔ ∀ r ≠ [], d.get? (q ++ r) = none := by
  rw [hasChildren, List.any_eq_false]
  constructor
  · intro h r hr
    refine SortedMap.get?_eq_none_iff.mpr fun hmem => h _ hmem ?_
    simp [hr]
  · rintro h x hx
    simp only [Bool.and_eq_true, bne_iff_ne, List.isPrefixOf_iff_prefix, not_and, not_not]
    rintro ⟨r, rfl⟩
    by_contra hne
    have hr : r ≠ [] := by
      rintro rfl
      exact hne (List.append_nil q)
    exact SortedMap.get?_eq_none_iff.mp (h r hr) hx

lemma mayReplace_iff : d.mayReplace n q = true ↔ d.Yields n q := by
  unfold mayReplace Yields
  rw [← hasChildren_eq_false_iff]
  cases hq : d.get? q with
  | none => simp
  | some m => cases n <;> cases m <;> simp

/-- Below a place that is given up there is nothing. -/
lemma Yields.free (h : d.Yields n q) (hd : d.Sound) (hq : q ≠ []) :
    ∀ r ≠ [], d.get? (q ++ r) = none := by
  rcases h with hnone | ⟨-, -, hempty⟩ | ⟨-, m, hm, hne⟩
  · exact hd.below_eq_none hq (by simp [hnone])
  · exact hempty
  · exact hd.below_eq_none hq (by simpa [hm] using hne)

lemma aside?_eq_some_iff (hp : p ≠ []) : p.aside? = some q ↔ ∃ directory name,
    p = directory ++ [name] ∧ q = directory ++ [name ++ ".corrupt"] ∧
      isName (name ++ ".corrupt") = true := by
  obtain ⟨directory, name, rfl⟩ := (List.eq_nil_or_concat' p).resolve_left hp
  have hlast : (directory ++ [name]).getLastD "" = name := by simp
  rw [Path.aside?, hlast, List.dropLast_concat]
  by_cases hn : isName (name ++ ".corrupt") = true
  · rw [if_pos hn, Option.some.injEq]
    constructor
    · rintro rfl
      exact ⟨directory, name, rfl, rfl, hn⟩
    · rintro ⟨directory', name', heq, rfl, -⟩
      obtain ⟨rfl, hname⟩ := List.append_inj' heq rfl
      rw [List.singleton_injective hname]
  · rw [if_neg hn]
    constructor
    · exact nofun
    · rintro ⟨directory', name', heq, -, hn'⟩
      obtain ⟨rfl, hname⟩ := List.append_inj' heq rfl
      rw [List.singleton_injective hname] at hn
      exact absurd hn' hn

lemma CanMove.beside (h : d.CanMove file p q) (hd : d.Sound) : Beside p q := by
  obtain ⟨hne, -⟩ := hd.locate? h.named
  obtain ⟨directory, name, rfl, rfl, -⟩ := h.aside
  refine ⟨hne, List.concat_ne_nil _ _, by simp, ?_⟩
  intro heq
  have hname : name = name ++ ".corrupt" := by simpa using heq
  have hlength : (name ++ ".corrupt").length = name.length + 8 := String.length_append name _
  have hsame := congrArg String.length hname
  omega

lemma CanMove.free (h : d.CanMove file p q) (hd : d.Sound) : ∀ r ≠ [], d.get? (q ++ r) = none := by
  obtain ⟨n, -, hyields⟩ := h.node
  exact hyields.free hd (h.beside hd).target

lemma CanMove.isDirectory (h : d.CanMove file p q) (hq : d.get? q = some .directory) :
    d.get? p = some .directory := by
  obtain ⟨n, hn, hyields⟩ := h.node
  rcases hyields with hnone | ⟨rfl, -, -⟩ | ⟨-, m, hm, hne⟩
  · cases hnone.symm.trans hq
  · exact hn
  · exact absurd (Option.some.inj (hm.symm.trans hq)) hne

lemma putAside?_eq_some_iff (hd : d.Sound) :
    putAside? d file = some d' ↔ ∃ p q, d.CanMove file p q ∧ d' = d.move p q := by
  have hrename {p q : Path} :
      d.rename? p q = some d' ↔ ∃ n, d.get? p = some n ∧ d.Yields n q ∧ d' = d.move p q := by
    unfold rename?
    cases hp : d.get? p with
    | none => simp
    | some n => simp [mayReplace_iff, eq_comm (a := d')]
  unfold putAside?
  cases hplace : d.locate? file with
  | none =>
    constructor
    · exact nofun
    · rintro ⟨p, q, hm, -⟩
      cases hplace.symm.trans hm.named
  | some place =>
    cases place with
    | directory here =>
      constructor
      · exact nofun
      · rintro ⟨p, q, hm, -⟩
        cases hplace.symm.trans hm.named
    | entry p =>
      have hne := (hd.locate? hplace).1
      change (p.aside? >>= fun q => d.rename? p q) = some d' ↔ _
      constructor
      · intro h
        obtain ⟨q, hq, h⟩ := Option.bind_eq_some_iff.mp h
        obtain ⟨n, hget, hyields, rfl⟩ := hrename.mp h
        exact ⟨p, q, ⟨hplace, (aside?_eq_some_iff hne).mp hq, n, hget, hyields⟩, rfl⟩
      · rintro ⟨p', q, ⟨hnamed, haside, n, hget, hyields⟩, rfl⟩
        obtain rfl := Location.entry.inj (Option.some.inj (hplace.symm.trans hnamed))
        exact Option.bind_eq_some_iff.mpr
          ⟨q, (aside?_eq_some_iff hne).mpr haside, hrename.mpr ⟨n, hget, hyields, rfl⟩⟩

end Moves

end Disk

open Disk

section Restores

variable {d : Disk} {file : String} {p : Path} {c : Contents}

/-- The file at the path is held, with these contents, and given back it is the database it was; no
other path leads to anything else than before. -/
def Restored.Takes (r : Restored) (d : Disk) (p : Path) (c : Contents) : Prop :=
  ∃ l, r.file = some l ∧ l.contents = c ∧
    (∀ x, r.disk.get? x = if x = p then some (.held l.number) else d.get? x) ∧
    ∀ x, (r.disk.release l).get? x = if x = p then some (.database c) else d.get? x

/-- What becomes of a file that does not open. It stays if it cannot be moved; otherwise all of it
is aside, and an empty database takes its place if the name still leads there. -/
def Restored.PutsAside (r : Restored) (d : Disk) (file : String) : Prop :=
  (∀ p q, ¬d.CanMove file p q) ∧ r.disk = d ∧ r.file = none ∨
    ∃ p q d', d.CanMove file p q ∧ Displaced d d' p q ∧
      (d'.Opens file p .empty ∧ r.Takes d' p .empty ∨
        (∀ p' c, ¬d'.Opens file p' c) ∧ r.disk = d' ∧ r.file = none)

lemma takes_ofOpened (hd : d.Sound) (p : Path) (c : Contents) :
    (Restored.ofOpened (d.hold p c).1 (d.hold p c).2).Takes d p c :=
  ⟨(d.hold p c).2, rfl, rfl, fun x => get?_hold d p x c, fun x => hd.get?_release_hold p x c⟩

lemma Disk.Opens.sound_hold (h : d.Opens file p c) (hd : d.Sound) : (d.hold p c).1.Sound := by
  obtain ⟨hne, hdir⟩ := hd.locate? h.named
  refine hd.hold hne hdir ?_ c
  rcases h.node with hget | ⟨hget | hget, -⟩
  · simp [hget]
  · simp [hget]
  · simp [hget]

lemma reopen_of_opens (h : d.Opens file p c) (hd : d.Sound) :
    reopen d file = .ofOpened (d.hold p c).1 (d.hold p c).2 := by
  rw [reopen, h.openFile hd]

lemma restore_of_opens (h : d.Opens file p c) (hd : d.Sound) :
    restore d file = .ofOpened (d.hold p c).1 (d.hold p c).2 := by
  rw [restore, h.openFile hd]

lemma restore_of_locked (h : d.Locked file) (hd : d.Sound) : restore d file = .nothing d := by
  rw [restore, h.openFile hd]

lemma Disk.CanMove.sound_move {q : Path} (h : d.CanMove file p q) (hd : d.Sound) :
    (d.move p q).Sound :=
  hd.move (h.beside hd) (h.free hd) h.isDirectory (hd.locate? h.named).2

/-- After the move nothing is at the path, and its name leads there or nowhere. -/
lemma reopen_of_canMove {q : Path} (h : d.CanMove file p q) (hd : d.Sound) :
    (d.move p q).Opens file p .empty ∨ (∀ p' c, ¬(d.move p q).Opens file p' c) ∧
      reopen (d.move p q) file = .nothing (d.move p q) := by
  have hgone : (d.move p q).get? p = none := by
    have hget := ((h.beside hd).displaced (h.free hd)).gone []
    rwa [List.append_nil] at hget
  have hplace {p' : Path} (hp' : (d.move p q).locate? file = some (.entry p')) : p' = p :=
    (h.beside hd).locate?_move h.named hp'
  by_cases ho : (d.move p q).Opens file p .empty
  · exact .inl ho
  · have hnot : ∀ p' c, ¬(d.move p q).Opens file p' c := by
      intro p' c ho'
      obtain rfl := hplace ho'.named
      rcases ho'.node with hget | ⟨-, rfl⟩
      · cases hgone.symm.trans hget
      · exact ho ho'
    have hlocked : ¬(d.move p q).Locked file := by
      rintro ⟨p', k, hp', hget⟩
      obtain rfl := hplace hp'
      cases hgone.symm.trans hget
    obtain ⟨e, he, -⟩ := openFile_unusable hnot hlocked
    exact .inr ⟨hnot, by rw [reopen, he]⟩

lemma restore_of_unusable (ho : ∀ p c, ¬d.Opens file p c) (hl : ¬d.Locked file) (hd : d.Sound) :
    (restore d file).disk.Sound ∧ (restore d file).groups = [] ∧
      (restore d file).PutsAside d file := by
  have hr : restore d file = ((putAside? d file).map (reopen · file)).getD (.nothing d) := by
    obtain ⟨e, he, hne⟩ := openFile_unusable ho hl
    rw [restore, he]
    cases e with
    | locked => exact absurd rfl hne
    | unusable | wrongTables | version | undecodable | unwritten =>
      cases putAside? d file <;> rfl
  cases hput : putAside? d file with
  | none =>
    rw [hput] at hr
    rw [hr]
    refine ⟨hd, rfl, .inl ⟨fun p q hm => ?_, rfl, rfl⟩⟩
    cases hput.symm.trans ((putAside?_eq_some_iff hd).mpr ⟨p, q, hm, rfl⟩)
  | some d' =>
    rw [hput, Option.map_some, Option.getD_some] at hr
    rw [hr]
    obtain ⟨p, q, hm, rfl⟩ := (putAside?_eq_some_iff hd).mp hput
    have hsound := hm.sound_move hd
    have hmoved := (hm.beside hd).displaced (hm.free hd)
    rcases reopen_of_canMove hm hd with hagain | ⟨hnot, hreopen⟩
    · rw [reopen_of_opens hagain hsound]
      refine ⟨hagain.sound_hold hsound, rfl, .inr ⟨p, q, _, hm, hmoved, .inl ⟨hagain, ?_⟩⟩⟩
      exact takes_ofOpened hsound p .empty
    · rw [hreopen]
      exact ⟨hsound, rfl, .inr ⟨p, q, _, hm, hmoved, .inr ⟨hnot, rfl, rfl⟩⟩⟩

lemma Disk.Sound.restore (hd : d.Sound) (file : String) : (restore d file).disk.Sound := by
  by_cases ho : ∃ p c, d.Opens file p c
  · obtain ⟨p, c, ho⟩ := ho
    rw [restore_of_opens ho hd]
    exact ho.sound_hold hd
  · by_cases hl : d.Locked file
    · rw [restore_of_locked hl hd]
      exact hd
    · exact (restore_of_unusable (fun p c hpc => ho ⟨p, c, hpc⟩) hl hd).1

lemma Disk.Sound.openFile {d' : Disk} {l : Lease} (hd : d.Sound)
    (h : openFile d file = .ok (d', l)) : d'.Sound := by
  by_cases ho : ∃ p c, d.Opens file p c
  · obtain ⟨p, c, ho⟩ := ho
    rw [ho.openFile hd] at h
    obtain ⟨rfl, -⟩ := Prod.mk.inj (Except.ok.inj h)
    exact ho.sound_hold hd
  · by_cases hl : d.Locked file
    · cases (hl.openFile hd).symm.trans h
    · obtain ⟨e, he, -⟩ := openFile_unusable (fun p c hpc => ho ⟨p, c, hpc⟩) hl
      cases he.symm.trans h

/-- The disks that files come to and go from. -/
inductive Disk.Reached : Disk → Prop
  | empty (home : Path) : Reached (.empty home)
  | write {d d' : Disk} {file : String} {n : Node} (h : Reached d) (hn : ∀ k, n ≠ .held k)
      (hw : d.write? file n = some d') : Reached d'
  | directory {d d' : Disk} {file : String} (h : Reached d)
      (hm : d.makeDirectory? file = some d') : Reached d'
  | opened {d d' : Disk} {file : String} {l : Lease} (h : Reached d)
      (ho : openFile d file = .ok (d', l)) : Reached d'
  | restored {d : Disk} (h : Reached d) (file : String) : Reached (restore d file).disk
  | released {d : Disk} (h : Reached d) (l : Lease) : Reached (d.release l)

theorem Disk.Reached.sound (h : d.Reached) : d.Sound := by
  induction h with
  | empty home => exact sound_empty home
  | write _ hn hw ih => exact ih.write? (fun k hk => absurd hk (hn k)) hw
  | directory _ hm ih => exact ih.makeDirectory? hm
  | opened _ ho ih => exact ih.openFile ho
  | restored _ file ih => exact ih.restore file
  | released _ l ih => exact ih.release l

end Restores

/-- What is left of the file when `restore` is done, for each way in which it can be there. -/
theorem restore_keeps_file {d : Disk} (hd : d.Sound) (file : String) :
    let r := restore d file
    r.disk.Sound ∧
    (∀ p c, d.Opens file p c → r.Takes d p c ∧ c.AllOrNone r.groups) ∧
    (d.Locked file → r.disk = d ∧ r.file = none ∧ r.groups = []) ∧
    ((∀ p c, ¬d.Opens file p c) → ¬d.Locked file → r.groups = [] ∧ r.PutsAside d file) := by
  intro r
  have hopens (p : Path) (c : Contents) (ho : d.Opens file p c) :
      r = .ofOpened (d.hold p c).1 (d.hold p c).2 := restore_of_opens ho hd
  have hlocked (hl : d.Locked file) : r = .nothing d := restore_of_locked hl hd
  refine ⟨hd.restore file, fun p c ho => ?_, fun hl => ?_, fun ho hl =>
    (restore_of_unusable ho hl hd).2⟩
  · rw [hopens p c ho]
    exact ⟨takes_ofOpened hd p c, allOrNone_ofOpened _ (d.hold p c).2⟩
  · rw [hlocked hl]
    exact ⟨rfl, rfl, rfl⟩

/-- A database, one with a row that is no group, and a text in the place of a database, with an
older one beside it. Two of them are named from the root, and one from the working directory. -/
theorem restore_keeps_file_older_aside :
    let c : Contents := ⟨some 1, .ofList [("job=\"a\"", "\x7b\"key\":[[\"job\",\"a\"]],"
      ++ "\"families\":\x7b\"up\":\x7b\"name\":\"up\",\"help\":\"\",\"metric_type\":\"gauge\","
      ++ "\"samples\":[]\x7d\x7d,\"last_push_ms\":1,\"push_seq\":4\x7d")]⟩
    let bad : Contents := ⟨some 1, .ofList [("job=\"a\"", "row")]⟩
    let d : Disk := ⟨["srv"], ⟨[(["srv"], .directory), (["srv", "bad"], .database bad),
      (["srv", "g"], .text "garbage"), (["srv", "g.corrupt"], .text "older"),
      (["srv", "s"], .database c)], by decide +kernel⟩, 0⟩
    d.Sound ∧
      (d.Opens "/srv/s" ["srv", "s"] c ∧ (restore d "/srv/s").Takes d ["srv", "s"] c ∧
        (restore d "/srv/s").groups.map (fun g => (g.key.text, g.families.keys, g.pushSeq)) =
          [("job=\"a\"", ["up"], 4)]) ∧
      (d.Opens "/srv/bad" ["srv", "bad"] bad ∧
        (restore d "/srv/bad").Takes d ["srv", "bad"] bad ∧ (restore d "/srv/bad").groups = []) ∧
      (∀ p c, ¬d.Opens "g" p c) ∧ ¬d.Locked "g" ∧ (restore d "g").groups = [] ∧
      (restore d "g").disk.get? ["srv", "g.corrupt"] = some (.text "garbage") := by
  intro c bad d
  have hd : d.Sound := by
    refine sound_of_entries (by decide +kernel) (by decide +kernel) ?_
    simp [d]
  have hs : d.Opens "/srv/s" ["srv", "s"] c := ⟨by decide +kernel, .inl (by decide +kernel)⟩
  have hb : d.Opens "/srv/bad" ["srv", "bad"] bad := ⟨by decide +kernel, .inl (by decide +kernel)⟩
  have hg : d.locate? "g" = some (.entry ["srv", "g"]) := by decide +kernel
  have hget : d.get? ["srv", "g"] = some (.text "garbage") := by decide +kernel
  have hplace {p : Path} (hp : d.locate? "g" = some (.entry p)) : p = ["srv", "g"] :=
    Location.entry.inj (Option.some.inj (hp.symm.trans hg))
  have hopens : ∀ p c, ¬d.Opens "g" p c := by
    rintro p c ⟨hp, hnode⟩
    obtain rfl := hplace hp
    rw [hget] at hnode
    rcases hnode with h | ⟨h | h, -⟩
    · cases h
    · cases h
    · exact absurd h (by decide)
  have hlocked : ¬d.Locked "g" := by
    rintro ⟨p, k, hp, hk⟩
    obtain rfl := hplace hp
    cases hget.symm.trans hk
  obtain ⟨-, hstakes, -, -⟩ := restore_keeps_file hd "/srv/s"
  obtain ⟨-, hbtakes, -, -⟩ := restore_keeps_file hd "/srv/bad"
  obtain ⟨-, -, -, haside⟩ := restore_keeps_file hd "g"
  obtain ⟨hgroups, hputs⟩ := haside hopens hlocked
  refine ⟨hd, ⟨hs, (hstakes _ _ hs).1, by decide +kernel⟩, ⟨hb, (hbtakes _ _ hb).1, ?_⟩, hopens,
    hlocked, hgroups, ?_⟩
  · rcases (hbtakes _ _ hb).2 with ⟨-, hall⟩ | ⟨hnone, -⟩
    · have hvalues : bad.rows.values = ["row"] := by decide +kernel
      rw [hvalues] at hall
      obtain ⟨g, -, ⟨stored, hread, -⟩, -, -⟩ := List.forall₂_cons_left_iff.mp hall
      cases (show Json.readGroup? "row" = none by decide +kernel).symm.trans hread
    · exact hnone
  · have hmove : d.CanMove "g" ["srv", "g"] ["srv", "g.corrupt"] :=
      ⟨hg, ⟨["srv"], "g", rfl, rfl, by decide +kernel⟩, _, hget,
        .inr (.inr ⟨nofun, .text "older", by decide +kernel, nofun⟩)⟩
    rcases hputs with ⟨hnot, -, -⟩ | ⟨p, q, d', hm, hmoved, hrest⟩
    · exact absurd hmove (hnot _ _)
    · obtain rfl := hplace hm.named
      obtain ⟨directory, name, hnamed, rfl, -⟩ := hm.aside
      have hsplit : ["srv"] ++ ["g"] = directory ++ [name] := hnamed
      obtain ⟨rfl, hlast⟩ := List.append_inj' hsplit rfl
      obtain rfl := List.singleton_injective hlast
      have hthere := hmoved.there []
      rw [List.append_nil, List.append_nil, hget] at hthere
      rcases hrest with ⟨-, l, -, -, hdisk, -⟩ | ⟨-, hdisk, -⟩
      · exact (hdisk _).trans ((if_neg (by decide)).trans hthere)
      · exact hdisk ▸ hthere

end PushGateway.Snapshot
