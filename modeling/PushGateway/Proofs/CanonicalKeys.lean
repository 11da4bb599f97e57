import PushGateway.Proofs.GroupValidity
import PushGateway.Proofs.SnapshotRows
import PushGateway.Proofs.WrittenLines

/-! Grouping keys are canonical: which lists of labels make a key, when two lists make the same one,
and that the text of a key is read back as its labels. -/

namespace PushGateway

namespace GroupingKey

variable {pairs pairs' : List (String × String)} {key key' : GroupingKey} {name : String}

/-- A name that a label of a key may have. -/
structure Admits (name : String) : Prop where
  unreserved : Name.Unreserved name
  ne_bucket : name ≠ "le"
  ne_quantile : name ≠ "quantile"

lemma isKeyLabel_eq_true_iff : isKeyLabel name = true ↔ Admits name := by
  simp only [isKeyLabel, isReservedInKey, Bool.and_eq_true, Bool.not_eq_true', Bool.or_eq_false_iff,
    beq_eq_false_iff_ne]
  constructor
  · rintro ⟨hname, ⟨hfree, hbucket⟩, hquantile⟩
    exact ⟨Name.unreserved_iff.mpr ⟨hname, hfree⟩, hbucket, hquantile⟩
  · rintro ⟨hunreserved, hbucket, hquantile⟩
    obtain ⟨hname, hfree⟩ := Name.unreserved_iff.mp hunreserved
    exact ⟨hname, ⟨hfree, hbucket⟩, hquantile⟩

/-- A list with a name twice is refused, however far apart the two are. -/
lemma nodup_of_repeatedName? (h : repeatedName? pairs = none) : (pairs.map Prod.fst).Nodup := by
  rw [List.nodup_iff_count_le_one]
  intro name
  by_contra hlt
  have hmem : name ∈ pairs.map Prod.fst := List.count_pos_iff.mp (by omega)
  have hkey : name ∈ (SortedMap.ofList pairs).keys := SortedMap.mem_keys_ofList.mpr hmem
  exact hlt (by simpa using List.find?_eq_none.mp h name hkey)

lemma ofPairs_eq_ok_iff : ofPairs pairs = .ok key ↔ pairs ≠ [] ∧ (∀ p ∈ pairs, Admits p.1) ∧
    (pairs.map Prod.fst).Nodup ∧ key.labels = .ofList pairs := by
  constructor
  · intro h
    unfold ofPairs at h
    split_ifs at h with hne
    split at h
    · cases h
    · next hnames =>
      split at h
      · cases h
      · next hrepeated =>
        obtain rfl := Except.ok.inj h
        exact ⟨hne, fun p hp => isKeyLabel_eq_true_iff.mp (isKeyLabel_of_checkNames hnames hp),
          nodup_of_repeatedName? hrepeated, rfl⟩
  · rintro ⟨hne, hadmits, hnodup, hlabels⟩
    rw [ofPairs_eq_ok hne (fun p hp => isKeyLabel_eq_true_iff.mpr (hadmits p hp)) hnodup]
    exact congrArg Except.ok (ext hlabels.symm)

lemma pairs_perm (h : ofPairs pairs = .ok key) : key.pairs.Perm pairs := by
  obtain ⟨-, -, hnodup, hlabels⟩ := ofPairs_eq_ok_iff.mp h
  rw [GroupingKey.pairs, hlabels]
  exact SortedMap.ofList_perm hnodup

lemma eq_iff_perm (h : ofPairs pairs = .ok key) (h' : ofPairs pairs' = .ok key') :
    key = key' ↔ pairs.Perm pairs' := by
  constructor
  · rintro rfl
    exact (pairs_perm h).symm.trans (pairs_perm h')
  · intro hp
    obtain ⟨-, -, hnodup, hlabels⟩ := ofPairs_eq_ok_iff.mp h
    obtain ⟨-, -, -, hlabels'⟩ := ofPairs_eq_ok_iff.mp h'
    apply ext
    rw [hlabels, hlabels', SortedMap.ofList_congr hp hnodup]

lemma readPairs_text (key : GroupingKey) (rest : List Char) :
    Exposition.readPairs [] (key.text.toList ++ '}' :: rest) = .ok (key.pairs, rest) := by
  have hread : ∀ p ∈ key.pairs, Exposition.Readable p.1 := by
    intro p hp
    exact Name.unreserved_iff.mp (isKeyLabel_eq_true_iff.mp (key.keyLabels p hp)).unreserved
  have hnodup : (([].reverse ++ key.pairs).map Prod.fst).Nodup :=
    SortedMap.nodup_of_sorted key.labels.keys_sorted
  rw [text, String.toList_ofList]
  exact Exposition.readPairs_written hread hnodup rest

/-- A list of labels makes a key if its names are allowed and distinct, whatever their order, and
the text of a key is read as its labels and no others, so it tells the key. -/
theorem canonical_and_legible :
    (∀ pairs, (∃ key, ofPairs pairs = .ok key) ↔
      pairs ≠ [] ∧ (∀ p ∈ pairs, Admits p.1) ∧ (pairs.map Prod.fst).Nodup) ∧
    (∀ pairs pairs' key key', ofPairs pairs = .ok key → ofPairs pairs' = .ok key' →
      (key = key' ↔ pairs.Perm pairs')) ∧
    (∀ (key : GroupingKey) (rest : List Char),
      Exposition.readPairs [] (key.text.toList ++ '}' :: rest) = .ok (key.pairs, rest) ∧
        SortedMap.ofList key.pairs = key.labels) ∧
    Function.Injective text ∧ ∀ g : Group, (Snapshot.Contents.row g).1 = g.key.text := by
  refine ⟨fun pairs => ⟨?_, ?_⟩, fun _ _ _ _ h h' => eq_iff_perm h h', fun key rest => ?_,
    text_injective, fun _ => rfl⟩
  · rintro ⟨key, h⟩
    obtain ⟨hne, hadmits, hnodup, -⟩ := ofPairs_eq_ok_iff.mp h
    exact ⟨hne, hadmits, hnodup⟩
  · rintro ⟨hne, hadmits, hnodup⟩
    have hlabels (p : String × String) (hp : p ∈ pairs) : isKeyLabel p.1 = true :=
      isKeyLabel_eq_true_iff.mpr (hadmits p hp)
    exact ⟨_, ofPairs_eq_ok hne hlabels hnodup⟩
  · exact ⟨readPairs_text key rest, SortedMap.ofList_entries key.labels⟩

/-- Two orders of the labels, and a value that looks like the end of the text. -/
theorem canonical_and_legible_two_orders :
    let pairs : List (String × String) := [("job", "a"), ("instance", "x\",job=\"b\"\x7d")]
    ∃ key, ofPairs pairs = .ok key ∧ ofPairs pairs.reverse = .ok key ∧
      Exposition.readPairs [] (key.text.toList ++ ['}', ' ', '1']) = .ok (key.pairs, [' ', '1']) := by
  intro pairs
  have hbuilds := canonical_and_legible.1
  have hadmits : ∀ p ∈ pairs, Admits p.1 := by
    intro p hp
    rcases List.mem_pair.mp hp with rfl | rfl
    · exact ⟨⟨by decide, by decide⟩, by decide, by decide⟩
    · exact ⟨⟨by decide, by decide⟩, by decide, by decide⟩
  have hnodup : (pairs.map Prod.fst).Nodup := by decide
  obtain ⟨key, hkey⟩ := (hbuilds pairs).mpr ⟨by decide, hadmits, hnodup⟩
  obtain ⟨key', hkey'⟩ := (hbuilds pairs.reverse).mpr ⟨by decide,
    fun p hp => hadmits p (List.mem_reverse.mp hp), by decide⟩
  obtain rfl := (canonical_and_legible.2.1 pairs pairs.reverse key key' hkey hkey').mpr
    (List.reverse_perm pairs).symm
  exact ⟨key, hkey, hkey', (canonical_and_legible.2.2.1 key [' ', '1']).1⟩

end GroupingKey

end PushGateway
