import PushGateway.Proofs.JsonLiterals

/-! A written JSON value is read as that value, for all values made of texts of characters and of
numbers that follow the grammar. -/

namespace PushGateway.Json

inductive Writable : Json → Prop
  | null : Writable .null
  | bool (b : Bool) : Writable (.bool b)
  | number {literal : String} (h : IsNumber literal.toList) : Writable (.number literal)
  | str (s : String) : Writable (str s)
  | array {items : List Json} (h : ∀ j ∈ items, Writable j) : Writable (.array items)
  | object {members : List (Option String × Json)} (hk : ∀ m ∈ members, ∃ k, m.1 = some k)
      (h : ∀ m ∈ members, Writable m.2) : Writable (.object members)

lemma writable_record {fields : List (String × Json)} (h : ∀ f ∈ fields, Writable f.2) :
    Writable (record fields) := by
  apply Writable.object
  · intro m hm
    obtain ⟨f, -, rfl⟩ := List.mem_map.mp hm
    exact ⟨f.1, rfl⟩
  · intro m hm
    obtain ⟨f, hf, rfl⟩ := List.mem_map.mp hm
    exact h f hf

lemma IsNumber.exists_cons {cs : List Char} (h : IsNumber cs) :
    ∃ c ds, cs = c :: ds ∧ (c = '-' ∨ Numeral.isDigit c = true) := by
  obtain ⟨ds, rfl | rfl, h⟩ := h
  · obtain ⟨c, tail, rfl, hdigit⟩ := h.exists_cons
    exact ⟨c, tail, rfl, .inr hdigit⟩
  · exact ⟨'-', ds, rfl, .inl rfl⟩

lemma textOf_some (s : String) :
    textOf (some s) = '"' :: (s.toList.flatMap escapeChar ++ ['"']) := rfl

section Heads

/-- What a value may start with: no blank, and nothing that ends an array. -/
def Opens (c : Char) : Prop := isSpace c = false ∧ c ≠ ']'

lemma ne_of_isDigit {c d : Char} (h : Numeral.isDigit c = true) (hd : Numeral.isDigit d = false) :
    c ≠ d := by
  rintro rfl
  rw [h] at hd
  exact absurd hd (by decide)

lemma opens_of_isDigit {c : Char} (h : Numeral.isDigit c = true) : Opens c := by
  refine ⟨?_, ne_of_isDigit h (by decide)⟩
  simp [isSpace, ne_of_isDigit h (d := ' ') (by decide), ne_of_isDigit h (d := '\t') (by decide),
    ne_of_isDigit h (d := '\n') (by decide), ne_of_isDigit h (d := '\r') (by decide)]

lemma Writable.exists_cons {j : Json} (h : Writable j) :
    ∃ c cs, text j = c :: cs ∧ Opens c := by
  cases h with
  | null => exact ⟨'n', _, rfl, by decide, by decide⟩
  | bool b => cases b <;> exact ⟨_, _, rfl, by decide, by decide⟩
  | number hn =>
    obtain ⟨c, cs, he, hc⟩ := hn.exists_cons
    refine ⟨c, cs, by rw [text, he], ?_⟩
    rcases hc with rfl | hc
    · exact ⟨by decide, by decide⟩
    · exact opens_of_isDigit hc
  | str s => exact ⟨'"', _, by rw [Json.str, text, textOf_some], by decide, by decide⟩
  | @array items _ =>
    cases items with
    | nil => exact ⟨'[', _, by rw [text], by decide, by decide⟩
    | cons j js => exact ⟨'[', _, by rw [text]; rfl, by decide, by decide⟩
  | @object members _ _ =>
    cases members with
    | nil => exact ⟨'{', _, by rw [text], by decide, by decide⟩
    | cons m ms => exact ⟨'{', _, by rw [text]; rfl, by decide, by decide⟩

lemma skipSpace_cons {c : Char} (h : isSpace c = false) (cs : List Char) :
    skipSpace (c :: cs) = c :: cs :=
  List.dropWhile_cons_of_neg (by simp [h])

lemma stops_cons {c : Char} (cs : List Char) (hdigit : Numeral.isDigit c = false) (hdot : c ≠ '.')
    (he : c ≠ 'e') (hE : c ≠ 'E') : Stops (c :: cs) := by
  intro d hd
  obtain rfl : c = d := Option.some.inj hd
  exact ⟨hdigit, hdot, he, hE⟩

lemma stops_itemsText (js : List Json) (rest : List Char) : Stops (itemsText js ++ rest) := by
  cases js with
  | nil => rw [itemsText]; exact stops_cons _ (by decide) (by decide) (by decide) (by decide)
  | cons j js => rw [itemsText]; exact stops_cons _ (by decide) (by decide) (by decide) (by decide)

lemma stops_membersText (ms : List (Option String × Json)) (rest : List Char) :
    Stops (membersText ms ++ rest) := by
  cases ms with
  | nil => rw [membersText]; exact stops_cons _ (by decide) (by decide) (by decide) (by decide)
  | cons m ms =>
    rw [membersText]
    exact stops_cons _ (by decide) (by decide) (by decide) (by decide)

end Heads

section Steps

lemma readValue_text (fuel : Nat) (s : String) (rest : List Char) :
    readValue (fuel + 1) (textOf (some s) ++ rest) = some (str s, rest) := by
  have h : readValue (fuel + 1) (textOf (some s) ++ rest)
      = (readText (s.toList.flatMap escapeChar ++ ['"'] ++ rest)).map
        fun p => (.string p.1, p.2) := rfl
  rw [h, List.append_assoc, List.singleton_append, readText_textOf]
  rfl

lemma readValue_number (fuel : Nat) {cs rest : List Char} (h : IsNumber cs) (hr : Stops rest) :
    readValue (fuel + 1) (cs ++ rest) = some (.number (String.ofList cs), rest) := by
  have hread := readNumber_append h hr
  obtain ⟨c, ds, rfl, hc⟩ := h.exists_cons
  have hspace : isSpace c = false := by
    rcases hc with rfl | hc
    · decide
    · exact (opens_of_isDigit hc).1
  have hne (d : Char) (hd : Numeral.isDigit d = false) (hminus : '-' ≠ d) : c ≠ d := by
    rcases hc with rfl | hc
    · exact hminus
    · exact ne_of_isDigit hc hd
  rw [List.cons_append] at hread ⊢
  rw [readValue, skipSpace_cons hspace]
  split
  case h_7 => rw [hread]; rfl
  all_goals
    next heq => exact absurd (List.cons.inj heq).1 (hne _ (by decide) (by decide))

lemma readValue_array (fuel : Nat) {c : Char} (hc : Opens c) (rest : List Char) :
    readValue (fuel + 1) ('[' :: c :: rest)
      = (readItems fuel [] (c :: rest)).map fun (js, rest) => (.array js, rest) := by
  have hopen : skipSpace ('[' :: c :: rest) = '[' :: c :: rest := skipSpace_cons (by decide) _
  simp only [readValue, hopen, skipSpace_cons hc.1]
  split
  · next heq => exact absurd (List.cons.inj heq).1 hc.2
  · rfl

lemma readValue_object (fuel : Nat) (rest : List Char) :
    readValue (fuel + 1) ('{' :: '"' :: rest)
      = (readMembers fuel [] ('"' :: rest)).map fun (ms, rest) => (.object ms, rest) := rfl

lemma readItems_end {fuel : Nat} {cs rest : List Char} {j : Json} (read : List Json)
    (h : readValue fuel cs = some (j, ']' :: rest)) :
    readItems (fuel + 1) read cs = some (read.reverse ++ [j], rest) := by
  rw [readItems, h, ← List.reverse_cons]
  rfl

lemma readItems_comma {fuel : Nat} {cs rest : List Char} {j : Json} (read : List Json)
    (h : readValue fuel cs = some (j, ',' :: rest)) :
    readItems (fuel + 1) read cs = readItems fuel (j :: read) rest := by
  rw [readItems, h]
  rfl

lemma readMembers_key (fuel : Nat) (read : List (Option String × Json)) (k : String)
    (cs : List Char) :
    readMembers (fuel + 1) read (textOf (some k) ++ ':' :: cs) = match readValue fuel cs with
      | none => none
      | some (j, rest) => match skipSpace rest with
        | ',' :: rest => readMembers fuel ((some k, j) :: read) rest
        | '}' :: rest => some (((some k, j) :: read).reverse, rest)
        | _ => none := by
  have htext : textOf (some k) ++ ':' :: cs
      = '"' :: (k.toList.flatMap escapeChar ++ '"' :: ':' :: cs) := by
    rw [textOf_some, List.cons_append, List.append_assoc, List.singleton_append]
  rw [htext, readMembers, skipSpace_cons (by decide)]
  simp only [readText_textOf]
  rw [skipSpace_cons (by decide)]
  rfl

lemma readMembers_end {fuel : Nat} {cs rest : List Char} {j : Json}
    (read : List (Option String × Json)) (k : String)
    (h : readValue fuel cs = some (j, '}' :: rest)) :
    readMembers (fuel + 1) read (textOf (some k) ++ ':' :: cs)
      = some (read.reverse ++ [(some k, j)], rest) := by
  rw [readMembers_key, h, ← List.reverse_cons]
  rfl

lemma readMembers_comma {fuel : Nat} {cs rest : List Char} {j : Json}
    (read : List (Option String × Json)) (k : String)
    (h : readValue fuel cs = some (j, ',' :: rest)) :
    readMembers (fuel + 1) read (textOf (some k) ++ ':' :: cs)
      = readMembers fuel ((some k, j) :: read) rest := by
  rw [readMembers_key, h]
  rfl

end Steps

/-- What is written is read back with the given fuel, if there is enough of it. -/
structure ReadsBack (fuel : Nat) : Prop where
  value : ∀ {j : Json} {rest : List Char}, Writable j → Stops rest →
    2 * (text j).length ≤ fuel → readValue fuel (text j ++ rest) = some (j, rest)
  items : ∀ {j : Json} {js : List Json} {rest : List Char} (read : List Json), Writable j →
    (∀ i ∈ js, Writable i) → 2 * (text j ++ itemsText js).length + 1 ≤ fuel →
    readItems fuel read (text j ++ (itemsText js ++ rest)) = some (read.reverse ++ j :: js, rest)
  members : ∀ {k : String} {j : Json} {ms : List (Option String × Json)} {rest : List Char}
    (read : List (Option String × Json)), Writable j →
    (∀ m ∈ ms, ∃ k, m.1 = some k) → (∀ m ∈ ms, Writable m.2) →
    2 * (textOf (some k) ++ ':' :: (text j ++ membersText ms)).length + 1 ≤ fuel →
    readMembers fuel read (textOf (some k) ++ ':' :: (text j ++ (membersText ms ++ rest)))
      = some (read.reverse ++ (some k, j) :: ms, rest)

lemma ReadsBack.items_succ {fuel : Nat} (h : ReadsBack fuel) {j : Json} {js : List Json}
    {rest : List Char} (read : List Json) (hj : Writable j) (hjs : ∀ i ∈ js, Writable i)
    (hfuel : 2 * (text j ++ itemsText js).length + 1 ≤ fuel + 1) :
    readItems (fuel + 1) read (text j ++ (itemsText js ++ rest))
      = some (read.reverse ++ j :: js, rest) := by
  rw [List.length_append] at hfuel
  have hvalue := h.value hj (stops_itemsText js rest) (by omega)
  cases js with
  | nil => exact readItems_end read hvalue
  | cons i js =>
    rw [itemsText, List.cons_append, List.length_cons] at hfuel
    rw [itemsText, List.cons_append, List.cons_append] at hvalue ⊢
    rw [readItems_comma read hvalue, List.append_assoc, h.items _ (hjs i List.mem_cons_self)
      (fun i hi => hjs i (List.mem_cons_of_mem _ hi)) (by omega)]
    simp

lemma ReadsBack.members_succ {fuel : Nat} (h : ReadsBack fuel) {k : String} {j : Json}
    {ms : List (Option String × Json)} {rest : List Char} (read : List (Option String × Json))
    (hj : Writable j) (hk : ∀ m ∈ ms, ∃ k, m.1 = some k) (hms : ∀ m ∈ ms, Writable m.2)
    (hfuel : 2 * (textOf (some k) ++ ':' :: (text j ++ membersText ms)).length + 1 ≤ fuel + 1) :
    readMembers (fuel + 1) read
        (textOf (some k) ++ ':' :: (text j ++ (membersText ms ++ rest)))
      = some (read.reverse ++ (some k, j) :: ms, rest) := by
  rw [List.length_append, List.length_cons, List.length_append] at hfuel
  have hvalue := h.value hj (stops_membersText ms rest) (by omega)
  cases ms with
  | nil => exact readMembers_end read k hvalue
  | cons m ms =>
    obtain ⟨key, i⟩ := m
    obtain ⟨key, rfl⟩ := hk (key, i) List.mem_cons_self
    have hleft :
        2 * (textOf (some key) ++ ':' :: (text i ++ membersText ms)).length + 1 ≤ fuel := by
      rw [membersText] at hfuel
      simp only [List.cons_append, List.append_assoc, List.length_cons] at hfuel ⊢
      omega
    have hread : readMembers fuel ((some k, j) :: read)
          (textOf (some key) ++ ':' :: (text i ++ (membersText ms ++ rest)))
        = some (((some k, j) :: read).reverse ++ (some key, i) :: ms, rest) :=
      h.members _ (hms _ List.mem_cons_self) (fun m hm => hk m (List.mem_cons_of_mem _ hm))
        (fun m hm => hms m (List.mem_cons_of_mem _ hm)) hleft
    rw [membersText] at hvalue ⊢
    simp only [List.cons_append, List.append_assoc] at hvalue ⊢
    rw [readMembers_comma read k hvalue, hread]
    simp

lemma ReadsBack.value_succ {fuel : Nat} (h : ReadsBack fuel) {j : Json} {rest : List Char}
    (hj : Writable j) (hr : Stops rest) (hfuel : 2 * (text j).length ≤ fuel + 1) :
    readValue (fuel + 1) (text j ++ rest) = some (j, rest) := by
  cases hj with
  | null => rfl
  | bool b => cases b <;> rfl
  | number hn => rw [text, readValue_number fuel hn hr, String.ofList_toList]
  | str s => rw [str, text, readValue_text, str]
  | @array items hitems =>
    cases items with
    | nil => rfl
    | cons j js =>
      rw [text] at hfuel ⊢
      obtain ⟨c, cs, hc, hopens⟩ := (hitems j List.mem_cons_self).exists_cons
      have hleft : 2 * (text j ++ itemsText js).length + 1 ≤ fuel := by
        rw [List.cons_append, List.length_cons] at hfuel
        omega
      have hread : readItems fuel [] (text j ++ (itemsText js ++ rest)) = some (j :: js, rest) :=
        h.items [] (hitems j List.mem_cons_self) (fun i hi => hitems i (List.mem_cons_of_mem _ hi))
          hleft
      rw [List.cons_append, List.cons_append, List.append_assoc]
      rw [hc, List.cons_append] at hread ⊢
      rw [readValue_array fuel hopens, hread]
      rfl
  | @object members hk hmembers =>
    cases members with
    | nil => rfl
    | cons m ms =>
      obtain ⟨key, j⟩ := m
      obtain ⟨key, rfl⟩ := hk (key, j) List.mem_cons_self
      rw [text] at hfuel ⊢
      have hleft :
          2 * (textOf (some key) ++ ':' :: (text j ++ membersText ms)).length + 1 ≤ fuel := by
        simp only [List.cons_append, List.append_assoc, List.length_cons] at hfuel ⊢
        omega
      have hread : readMembers fuel []
            (textOf (some key) ++ ':' :: (text j ++ (membersText ms ++ rest)))
          = some ((some key, j) :: ms, rest) :=
        h.members [] (hmembers _ List.mem_cons_self) (fun m hm => hk m (List.mem_cons_of_mem _ hm))
          (fun m hm => hmembers m (List.mem_cons_of_mem _ hm)) hleft
      simp only [List.cons_append, List.append_assoc]
      rw [textOf_some, List.cons_append] at hread ⊢
      rw [readValue_object, hread]
      rfl

theorem readsBack (fuel : Nat) : ReadsBack fuel := by
  induction fuel with
  | zero =>
    refine ⟨fun hj _ hfuel => ?_, fun _ _ _ hfuel => by omega, fun _ _ _ _ hfuel => by omega⟩
    obtain ⟨c, cs, hc, -⟩ := hj.exists_cons
    rw [hc, List.length_cons] at hfuel
    omega
  | succ fuel ih => exact ⟨ih.value_succ, ih.items_succ, ih.members_succ⟩

theorem read?_render {j : Json} (h : Writable j) : read? (render j) = some j := by
  have hread : readValue (2 * (text j).length + 2) (text j ++ []) = some (j, []) :=
    (readsBack _).value h (by intro c hc; cases hc) (by omega)
  rw [List.append_nil] at hread
  simp only [read?, render, String.toList_ofList, hread]
  rfl

end PushGateway.Json
