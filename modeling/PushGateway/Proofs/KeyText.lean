import Mathlib.Logic.Function.Basic
import PushGateway.GroupingKey
import PushGateway.Proofs.Escapes
import PushGateway.Proofs.SortedMapEntries

/-! Escaped values are read back, so the text of a key tells which key it is. -/

namespace PushGateway

namespace Labels

lemma append_cons_inj {α : Type} {a : α} {x y u v : List α} (hx : a ∉ x) (hy : a ∉ y)
    (h : x ++ a :: u = y ++ a :: v) : x = y ∧ u = v := by
  induction x generalizing y with
  | nil =>
    cases y with
    | nil => exact ⟨rfl, (List.cons.inj h).2⟩
    | cons c y => exact absurd (List.cons.inj h).1 (fun hc => hy (hc ▸ List.mem_cons_self))
  | cons b x ih =>
    cases y with
    | nil => exact absurd (List.cons.inj h).1.symm (fun hc => hx (hc ▸ List.mem_cons_self))
    | cons c y =>
      obtain ⟨rfl, htail⟩ := List.cons.inj h
      rw [List.mem_cons, not_or] at hx hy
      obtain ⟨rfl, huv⟩ := ih hx.2 hy.2 htail
      exact ⟨rfl, huv⟩

lemma pairText_append_inj {p q : String × String} {x y : List Char} (hp : '=' ∉ p.1.toList)
    (hq : '=' ∉ q.1.toList) (h : pairText p ++ x = pairText q ++ y) : p = q ∧ x = y := by
  have hshape (r : String × String) (z : List Char) : pairText r ++ z
      = r.1.toList ++ '=' :: ('"' :: (Text.escapeValue r.2.toList ++ '"' :: z)) := by
    simp [pairText]
  rw [hshape, hshape] at h
  obtain ⟨hname, hrest⟩ := append_cons_inj hp hq h
  have hv := Text.unescapeValue_escapeValue [] p.2.toList x
  rw [(List.cons.inj hrest).2, Text.unescapeValue_escapeValue] at hv
  obtain ⟨hvalue, hxy⟩ := Prod.mk.inj (Except.ok.inj hv)
  simp only [List.reverse_nil, List.nil_append] at hvalue
  exact ⟨Prod.ext (String.toList_injective hname) (String.toList_injective hvalue.symm), hxy.symm⟩

lemma pairsText_inj {ps qs : List (String × String)} (hp : ∀ p ∈ ps, '=' ∉ p.1.toList)
    (hq : ∀ q ∈ qs, '=' ∉ q.1.toList) (h : pairsText ps = pairsText qs) : ps = qs := by
  induction ps generalizing qs with
  | nil =>
    cases qs with
    | nil => rfl
    | cons q qs => cases qs <;> simp [pairsText, pairText, List.intercalate] at h
  | cons p ps ih =>
    cases qs with
    | nil => cases ps <;> simp [pairsText, pairText, List.intercalate] at h
    | cons q qs =>
      obtain ⟨hp, hps⟩ := List.forall_mem_cons.mp hp
      obtain ⟨hq, hqs⟩ := List.forall_mem_cons.mp hq
      -- what follows the first pair is empty, or a comma and the text of the other pairs
      have hshape (r : String × String) (rs : List (String × String)) : pairsText (r :: rs)
          = pairText r ++ (if rs = [] then [] else ',' :: pairsText rs) := by
        cases rs <;> simp [pairsText, List.intercalate]
      rw [hshape, hshape] at h
      obtain ⟨rfl, hrest⟩ := pairText_append_inj hp hq h
      by_cases hn : ps = [] <;> by_cases hm : qs = [] <;>
        simp only [hn, hm, if_true, if_false] at hrest
      · rw [hn, hm]
      · cases hrest
      · cases hrest
      · rw [ih hps hqs (List.cons.inj hrest).2]

end Labels

namespace GroupingKey

lemma equals_notMem (key : GroupingKey) {p : String × String} (hp : p ∈ key.pairs) :
    '=' ∉ p.1.toList := by
  have hk := key.keyLabels p hp
  simp only [isKeyLabel, Bool.and_eq_true, Name.isLabelName] at hk
  intro hm
  cases hl : p.1.toList with
  | nil => simp [hl] at hm
  | cons c cs =>
    simp only [hl, Bool.and_eq_true, List.all_eq_true] at hk
    have hc : Name.isLabelChar '=' = true := by
      rcases List.mem_cons.mp (hl ▸ hm) with h | h
      · exact h ▸ hk.1.1.1
      · exact hk.1.2 _ h
    exact absurd hc (by decide)

theorem text_injective : Function.Injective text := by
  intro a b h
  have ht : Labels.pairsText a.pairs = Labels.pairsText b.pairs := String.ofList_injective h
  have hpairs := Labels.pairsText_inj (fun _ hp => a.equals_notMem hp)
    (fun _ hp => b.equals_notMem hp) ht
  exact ext (SortedMap.ext hpairs)

end GroupingKey

end PushGateway
