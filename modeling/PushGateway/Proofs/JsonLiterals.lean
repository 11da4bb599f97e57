import Mathlib.Tactic.IntervalCases
import PushGateway.Json.Reader
import PushGateway.Proofs.Digits

/-! Texts and numbers in JSON. What is written for a text is read as that text, and a number
literal is read in full where a character follows that cannot belong to it. -/

namespace PushGateway.Json

section Texts

def pieceOf (c : Char) : Piece :=
  if c.toNat < 32 ∧ c ≠ '\n' ∧ c ≠ '\r' ∧ c ≠ '\t' ∧ c.toNat ≠ 8 ∧ c.toNat ≠ 12 then .unit c.toNat
  else .char c

lemma hexCode?_hexadecimal_small {n : Nat} (h : n < 16) :
    ∃ d, Text.hexadecimal n = [d] ∧ hexCode? '0' '0' '0' d = some n := by
  interval_cases n <;> exact ⟨_, rfl, rfl⟩

lemma hexCode?_hexadecimal_large {n : Nat} (h : 16 ≤ n) (h' : n < 32) :
    ∃ d e, Text.hexadecimal n = [d, e] ∧ hexCode? '0' '0' d e = some n := by
  interval_cases n <;> exact ⟨_, _, rfl, rfl⟩

lemma eq_of_toNat {c : Char} {n : Nat} (h : c.toNat = n) : c = Char.ofNat n := by
  rw [← h, Char.ofNat_toNat]

lemma readPieces_escapeChar (read : List Piece) (c : Char) (rest : List Char) :
    readPieces read (escapeChar c ++ rest) = readPieces (pieceOf c :: read) rest := by
  unfold escapeChar
  split_ifs with h₁ h₂ h₃ h₄ h₅ h₆ h₇ h₈ h₉
  · subst h₁
    rfl
  · subst h₂
    rfl
  · subst h₃
    rfl
  · subst h₄
    rfl
  · subst h₅
    rfl
  · obtain rfl := eq_of_toNat h₆
    rfl
  · obtain rfl := eq_of_toNat h₇
    rfl
  · obtain ⟨d, hd, hc⟩ := hexCode?_hexadecimal_small h₈
    have hp : pieceOf c = .unit c.toNat := if_pos ⟨by omega, h₃, h₄, h₅, h₆, h₇⟩
    simp [hd, hp, readPieces, hc]
  · obtain ⟨d, e, hd, hc⟩ := hexCode?_hexadecimal_large (Nat.le_of_not_lt h₈) h₉
    have hp : pieceOf c = .unit c.toNat := if_pos ⟨by omega, h₃, h₄, h₅, h₆, h₇⟩
    simp [hd, hp, readPieces, hc]
  · have hp : pieceOf c = .char c := if_neg (fun h => h₉ h.1)
    rw [hp, List.singleton_append, readPieces]
    all_goals simp [h₁, h₂, h₉]

lemma readPieces_escaped (read : List Piece) (cs rest : List Char) :
    readPieces read (cs.flatMap escapeChar ++ '"' :: rest)
      = some ((cs.map pieceOf).reverse ++ read, rest) := by
  induction cs generalizing read with
  | nil => rfl
  | cons c cs ih =>
    rw [List.flatMap_cons, List.append_assoc, readPieces_escapeChar, ih]
    simp

lemma joinPieces_unit {n : Nat} (hn : n < 0xD800) (ps : List Piece) :
    joinPieces (.unit n :: ps) = (joinPieces ps).map (Char.ofNat n :: ·) := by
  have hlow : decide (0xD800 ≤ n) = false := decide_eq_false (by omega)
  -- a unit is read alone or together with the next one, so the next piece is looked at
  match ps with
  | [] => simp only [joinPieces, hlow, Bool.false_and, Bool.false_eq_true, if_false]
  | .char c :: ps => simp only [joinPieces, hlow, Bool.false_and, Bool.false_eq_true, if_false]
  | .unit m :: ps => rw [joinPieces]; simp only [hlow, Bool.false_and, Bool.false_eq_true, if_false]

lemma joinPieces_pieceOf (cs : List Char) : joinPieces (cs.map pieceOf) = some cs := by
  induction cs with
  | nil => rfl
  | cons c cs ih =>
    rw [List.map_cons]
    by_cases h : c.toNat < 32 ∧ c ≠ '\n' ∧ c ≠ '\r' ∧ c ≠ '\t' ∧ c.toNat ≠ 8 ∧ c.toNat ≠ 12
    · rw [show pieceOf c = .unit c.toNat from if_pos h, joinPieces_unit (by omega), ih,
        Char.ofNat_toNat]
      rfl
    · rw [show pieceOf c = .char c from if_neg h, joinPieces, ih]
      rfl

lemma readText_textOf (s : String) (rest : List Char) :
    readText (s.toList.flatMap escapeChar ++ '"' :: rest) = some (some s, rest) := by
  simp [readText, readPieces_escaped, joinPieces_pieceOf]

end Texts

section Numbers

/-- What may follow a number: nothing, or a character that cannot belong to one. -/
def Stops (cs : List Char) : Prop :=
  ∀ c ∈ cs.head?, Numeral.isDigit c = false ∧ c ≠ '.' ∧ c ≠ 'e' ∧ c ≠ 'E'

def IsDigits (cs : List Char) : Prop := cs ≠ [] ∧ ∀ d ∈ cs, Numeral.isDigit d = true

def IsWhole (cs : List Char) : Prop := cs = ['0'] ∨ IsDigits cs ∧ cs.head? ≠ some '0'

def IsFraction (cs : List Char) : Prop := cs = [] ∨ ∃ ds, cs = '.' :: ds ∧ IsDigits ds

def IsExponent (cs : List Char) : Prop :=
  cs = [] ∨ ∃ sign ds, cs = 'e' :: sign :: ds ∧ (sign = '+' ∨ sign = '-') ∧ IsDigits ds

def IsUnsigned (cs : List Char) : Prop :=
  ∃ whole fraction exponent, cs = whole ++ (fraction ++ exponent) ∧
    IsWhole whole ∧ IsFraction fraction ∧ IsExponent exponent

def IsNumber (cs : List Char) : Prop :=
  ∃ ds, (cs = ds ∨ cs = '-' :: ds) ∧ IsUnsigned ds

lemma readDigits_append {ds rest : List Char} (mark : List Char) (h : IsDigits ds)
    (hr : ∀ c ∈ rest.head?, Numeral.isDigit c = false) :
    readDigits mark (ds ++ rest) = some (mark ++ ds, rest) := by
  obtain ⟨htake, hdrop⟩ := span_append h.2 hr
  have hne : ds.isEmpty = false := by simpa using h.1
  simp only [readDigits, htake, hdrop, hne, Bool.false_eq_true, if_false]

lemma readWhole_append {whole rest : List Char} (h : IsWhole whole)
    (hr : ∀ c ∈ rest.head?, Numeral.isDigit c = false) :
    readWhole (whole ++ rest) = some (whole, rest) := by
  rcases h with rfl | ⟨h, hzero⟩
  · rfl
  · obtain ⟨htake, hdrop⟩ := span_append h.2 hr
    have hne : whole.isEmpty = false := by simpa using h.1
    unfold readWhole
    split
    · next rest' he =>
      cases whole with
      | nil => exact absurd rfl h.1
      | cons c cs => exact absurd (congrArg some (List.cons.inj he).1) hzero
    · simp only [htake, hdrop, hne, Bool.false_eq_true, if_false]

lemma readExponent_append {exponent rest : List Char} (h : IsExponent exponent) (hr : Stops rest) :
    readExponent (exponent ++ rest) = some (exponent, rest) := by
  rcases h with rfl | ⟨sign, ds, rfl, hsign, hds⟩
  · rw [List.nil_append]
    unfold readExponent
    split
    · exact absurd rfl (hr 'e' rfl).2.2.1
    · exact absurd rfl (hr 'E' rfl).2.2.2
    · rfl
  · have hdigit := fun c hc => (hr c hc).1
    rcases hsign with rfl | rfl
    · exact readDigits_append ['e', '+'] hds hdigit
    · exact readDigits_append ['e', '-'] hds hdigit

lemma readFraction_append {fraction rest : List Char} (h : IsFraction fraction)
    (hr : ∀ c ∈ rest.head?, Numeral.isDigit c = false ∧ c ≠ '.') :
    readFraction (fraction ++ rest) = some (fraction, rest) := by
  rcases h with rfl | ⟨ds, rfl, hds⟩
  · rw [List.nil_append]
    unfold readFraction
    split
    · exact absurd rfl (hr '.' rfl).2
    · rfl
  · exact readDigits_append ['.'] hds fun c hc => (hr c hc).1

lemma IsExponent.head_append {exponent rest : List Char} (h : IsExponent exponent)
    (hr : Stops rest) :
    ∀ c ∈ (exponent ++ rest).head?, Numeral.isDigit c = false ∧ c ≠ '.' := by
  intro c hc
  rcases h with rfl | ⟨sign, ds, rfl, -⟩
  · exact ⟨(hr c hc).1, (hr c hc).2.1⟩
  · obtain rfl : 'e' = c := Option.some.inj hc
    exact ⟨by decide, by decide⟩

lemma IsFraction.head_append {fraction rest : List Char} (h : IsFraction fraction)
    (hr : ∀ c ∈ rest.head?, Numeral.isDigit c = false) :
    ∀ c ∈ (fraction ++ rest).head?, Numeral.isDigit c = false := by
  intro c hc
  rcases h with rfl | ⟨ds, rfl, -⟩
  · exact hr c hc
  · obtain rfl : '.' = c := Option.some.inj hc
    decide

lemma IsDigits.exists_cons {cs : List Char} (h : IsDigits cs) :
    ∃ c ds, cs = c :: ds ∧ Numeral.isDigit c = true := by
  cases cs with
  | nil => exact absurd rfl h.1
  | cons c ds => exact ⟨c, ds, rfl, h.2 c List.mem_cons_self⟩

lemma IsWhole.exists_cons {cs : List Char} (h : IsWhole cs) :
    ∃ c ds, cs = c :: ds ∧ Numeral.isDigit c = true := by
  rcases h with rfl | ⟨h, -⟩
  · exact ⟨'0', [], rfl, by decide⟩
  · exact h.exists_cons

lemma IsUnsigned.exists_cons {cs : List Char} (h : IsUnsigned cs) :
    ∃ c ds, cs = c :: ds ∧ Numeral.isDigit c = true := by
  obtain ⟨whole, fraction, exponent, rfl, hw, -⟩ := h
  obtain ⟨c, ds, rfl, hdigit⟩ := hw.exists_cons
  exact ⟨c, _, rfl, hdigit⟩

def readUnsigned (cs : List Char) : Option (List Char × List Char) := do
  let (whole, cs) ← readWhole cs
  let (fraction, cs) ← readFraction cs
  let (exponent, cs) ← readExponent cs
  return (whole ++ fraction ++ exponent, cs)

lemma readUnsigned_append {cs rest : List Char} (h : IsUnsigned cs) (hr : Stops rest) :
    readUnsigned (cs ++ rest) = some (cs, rest) := by
  obtain ⟨whole, fraction, exponent, rfl, hw, hf, he⟩ := h
  have hhead := he.head_append hr
  have hwhole := readWhole_append hw (hf.head_append fun c hc => (hhead c hc).1)
  rw [List.append_assoc, List.append_assoc, readUnsigned, hwhole]
  simp [readFraction_append hf hhead, readExponent_append he hr]

lemma readNumber_of_isDigit {c : Char} (h : Numeral.isDigit c = true) (cs : List Char) :
    readNumber (c :: cs) = readUnsigned (c :: cs) := by
  unfold readNumber
  split
  next sign cs' heq =>
    split at heq
    · next heq' =>
      rw [(List.cons.inj heq').1] at h
      exact absurd h (by decide)
    · obtain ⟨rfl, rfl⟩ := Prod.mk.inj heq
      rfl

lemma readNumber_minus (cs : List Char) :
    readNumber ('-' :: cs) = (readUnsigned cs).map fun (ds, rest) => ('-' :: ds, rest) := by
  unfold readNumber readUnsigned
  cases hw : readWhole cs with
  | none => simp [hw]
  | some w =>
    cases hf : readFraction w.2 with
    | none => simp [hw, hf]
    | some f => cases he : readExponent f.2 <;> simp [hw, hf, he]

theorem readNumber_append {cs rest : List Char} (h : IsNumber cs) (hr : Stops rest) :
    readNumber (cs ++ rest) = some (cs, rest) := by
  obtain ⟨ds, hsign, h⟩ := h
  have hread := readUnsigned_append h hr
  rcases hsign with rfl | rfl
  · obtain ⟨c, tail, rfl, hdigit⟩ := h.exists_cons
    rw [List.cons_append, readNumber_of_isDigit hdigit]
    exact hread
  · rw [List.cons_append, readNumber_minus, hread]
    rfl

end Numbers

end PushGateway.Json
