/-!
Strict total orders given by a Boolean test. Text is ordered by code point, pairs and lists
lexicographically.
-/

namespace PushGateway

class Ordered (α : Type) where
  before : α → α → Bool
  before_irrefl : ∀ a, before a a = false
  before_trans : ∀ a b c, before a b = true → before b c = true → before a c = true
  eq_of_not_before : ∀ a b, before a b = false → before b a = false → a = b

export Ordered (before before_irrefl before_trans eq_of_not_before)

variable {α β : Type}

theorem before_asymm [Ordered α] {a b : α} (h : before a b = true) : before b a = false := by
  cases hb : before b a with
  | false => rfl
  | true => exact absurd (before_trans a b a h hb) (by simp [before_irrefl])

theorem ne_of_before [Ordered α] {a b : α} (h : before a b = true) : a ≠ b := by
  rintro rfl
  simp [before_irrefl] at h

instance : Ordered String where
  before a b := decide (a < b)
  before_irrefl a := decide_eq_false (String.lt_irrefl a)
  before_trans _ _ _ hab hbc :=
    decide_eq_true (String.lt_trans (of_decide_eq_true hab) (of_decide_eq_true hbc))
  eq_of_not_before _ _ hab hba :=
    String.le_antisymm (String.not_lt.mp (of_decide_eq_false hba))
      (String.not_lt.mp (of_decide_eq_false hab))

instance [Ordered α] [Ordered β] : Ordered (α × β) where
  before p q := before p.1 q.1 || (!before q.1 p.1 && before p.2 q.2)
  before_irrefl p := by simp [before_irrefl]
  before_trans p q r hpq hqr := by
    simp only [Bool.or_eq_true, Bool.and_eq_true, Bool.not_eq_true'] at *
    rcases hpq with hpq | ⟨hqp, hpq⟩ <;> rcases hqr with hqr | ⟨hrq, hqr⟩
    · exact .inl (before_trans _ _ _ hpq hqr)
    · cases hq : before q.1 r.1 with
      | true => exact .inl (before_trans _ _ _ hpq hq)
      | false => exact .inl (eq_of_not_before _ _ hq hrq ▸ hpq)
    · cases hp : before p.1 q.1 with
      | true => exact .inl (before_trans _ _ _ hp hqr)
      | false => exact .inl (eq_of_not_before _ _ hp hqp ▸ hqr)
    · cases hp : before p.1 r.1 with
      | true => exact .inl rfl
      | false =>
        refine .inr ⟨?_, before_trans _ _ _ hpq hqr⟩
        cases h : before r.1 p.1 with
        | false => rfl
        | true =>
          cases hpq' : before p.1 q.1 with
          | true => simp [before_trans _ _ _ h hpq'] at hrq
          | false => simp [← eq_of_not_before _ _ hpq' hqp, h] at hrq
  eq_of_not_before p q hpq hqp := by
    simp only [Bool.or_eq_false_iff, Bool.and_eq_false_imp, Bool.not_eq_true'] at hpq hqp
    have h := eq_of_not_before _ _ hpq.1 hqp.1
    exact Prod.ext h (eq_of_not_before _ _ (hpq.2 hqp.1) (hqp.2 hpq.1))

def lexBefore [Ordered α] : List α → List α → Bool
  | _, [] => false
  | [], _ :: _ => true
  | a :: as, b :: bs => before a b || (!before b a && lexBefore as bs)

theorem lexBefore_cons [Ordered α] (a b : α) (as bs : List α) :
    lexBefore (a :: as) (b :: bs) = (before a b || (!before b a && lexBefore as bs)) := rfl

theorem lexBefore_irrefl [Ordered α] (l : List α) : lexBefore l l = false := by
  induction l with
  | nil => rfl
  | cons a l ih => simp [lexBefore_cons, before_irrefl, ih]

theorem lexBefore_trans [Ordered α] (l m n : List α) (hlm : lexBefore l m = true)
    (hmn : lexBefore m n = true) : lexBefore l n = true := by
  induction m generalizing l n with
  | nil => simp [lexBefore] at hlm
  | cons b m ih =>
    cases n with
    | nil => simp [lexBefore] at hmn
    | cons c n =>
      cases l with
      | nil => rfl
      | cons a l =>
        simp only [lexBefore_cons, Bool.or_eq_true, Bool.and_eq_true, Bool.not_eq_true'] at *
        rcases hlm with hab | ⟨hba, hlm⟩ <;> rcases hmn with hbc | ⟨hcb, hmn⟩
        · exact .inl (before_trans _ _ _ hab hbc)
        · cases h : before b c with
          | true => exact .inl (before_trans _ _ _ hab h)
          | false => exact .inl (eq_of_not_before _ _ h hcb ▸ hab)
        · cases h : before a b with
          | true => exact .inl (before_trans _ _ _ h hbc)
          | false => exact .inl (eq_of_not_before _ _ h hba ▸ hbc)
        · cases h : before a b with
          | true =>
            cases h' : before b c with
            | true => exact .inl (before_trans _ _ _ h h')
            | false => exact .inl (eq_of_not_before _ _ h' hcb ▸ h)
          | false =>
            have hab := eq_of_not_before _ _ h hba
            subst hab
            cases h' : before a c with
            | true => exact .inl rfl
            | false => exact .inr ⟨hcb, ih l n hlm hmn⟩

theorem eq_of_not_lexBefore [Ordered α] (l m : List α) (hlm : lexBefore l m = false)
    (hml : lexBefore m l = false) : l = m := by
  induction l generalizing m with
  | nil => cases m with
    | nil => rfl
    | cons b m => simp [lexBefore] at hlm
  | cons a l ih => cases m with
    | nil => simp [lexBefore] at hml
    | cons b m =>
      simp only [lexBefore_cons, Bool.or_eq_false_iff, Bool.and_eq_false_imp,
        Bool.not_eq_true'] at hlm hml
      rw [eq_of_not_before _ _ hlm.1 hml.1, ih m (hlm.2 hml.1) (hml.2 hlm.1)]

instance [Ordered α] : Ordered (List α) where
  before := lexBefore
  before_irrefl := lexBefore_irrefl
  before_trans := lexBefore_trans
  eq_of_not_before := eq_of_not_lexBefore

end PushGateway
