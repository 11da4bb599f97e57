import PushGateway.Json.Metrics
import PushGateway.Proofs.JsonNumbers
import PushGateway.Proofs.JsonText

/-! The JSON form of a sample value is read back as that value, with all NaNs made one, whenever
the numbers in it are read back. -/

namespace PushGateway

section Collapse

/-- The number, with one NaN for all of them. -/
def Binary64.collapse (x : Binary64) : Binary64 := if x.isNaN then nan else x

def Quantile.collapse (q : Quantile) : Quantile := ⟨q.quantile.collapse, q.value.collapse⟩

def Bucket.collapse (b : Bucket) : Bucket := ⟨b.upperBound.collapse, b.cumulativeCount.collapse⟩

def SampleValue.collapse : SampleValue → SampleValue
  | .counter x => .counter x.collapse
  | .gauge x => .gauge x.collapse
  | .untyped x => .untyped x.collapse
  | .summary qs s c => .summary (qs.map Quantile.collapse) s.collapse c.collapse
  | .histogram bs s c => .histogram (bs.map Bucket.collapse) s.collapse c.collapse

end Collapse

section Numbers

def Quantile.numbers (q : Quantile) : List Binary64 := [q.quantile, q.value]

def Bucket.numbers (b : Bucket) : List Binary64 := [b.upperBound, b.cumulativeCount]

def SampleValue.numbers : SampleValue → List Binary64
  | .counter x | .gauge x | .untyped x => [x]
  | .summary qs s c => s :: c :: qs.flatMap Quantile.numbers
  | .histogram bs s c => s :: c :: bs.flatMap Bucket.numbers

end Numbers

lemma mapM_map_eq_pure {M : Type → Type} [Monad M] [LawfulMonad M] {A B C : Type} {f : B → M C}
    {g : A → B} {h : A → C} {l : List A} (hl : ∀ a ∈ l, f (g a) = pure (h a)) :
    (l.map g).mapM f = pure (l.map h) := by
  induction l with
  | nil => rfl
  | cons a l ih =>
    obtain ⟨ha, hl⟩ := List.forall_mem_cons.mp hl
    rw [List.map_cons, List.mapM_cons, ha, ih hl]
    simp

namespace Json

/-- Each finite number among these is read back from what is written for it. -/
def Kept (xs : List Binary64) : Prop :=
  ∀ x ∈ xs, x.isFinite = true → (ofBinary64 x).toBinary64? = some x

lemma kept_cons {x : Binary64} {xs : List Binary64} : Kept (x :: xs) ↔ Kept [x] ∧ Kept xs := by
  simp [Kept]

lemma kept_flatMap {A : Type} {f : A → List Binary64} {l : List A} :
    Kept (l.flatMap f) ↔ ∀ a ∈ l, Kept (f a) := by
  constructor
  · exact fun h a ha x hx => h x (List.mem_flatMap.mpr ⟨a, ha, hx⟩)
  · intro h x hx
    obtain ⟨a, ha, hx⟩ := List.mem_flatMap.mp hx
    exact h a ha x hx

lemma Kept.parts {A : Type} {f : A → List Binary64} {l : List A} {s c : Binary64}
    (h : Kept (s :: c :: l.flatMap f)) : Kept [s] ∧ Kept [c] ∧ ∀ a ∈ l, Kept (f a) := by
  obtain ⟨hs, h⟩ := kept_cons.mp h
  obtain ⟨hc, h⟩ := kept_cons.mp h
  exact ⟨hs, hc, kept_flatMap.mp h⟩

section Leaves

lemma eq_infinity {x : Binary64} (hn : x.isNaN = false) (hf : x.isFinite = false) :
    x = .infinity ∨ x = .negInfinity := by
  have hb := x.bits.toNat_lt
  have hm : x.bits.toNat % Binary64.signBit = Binary64.infinityBits := by
    have hle := of_decide_eq_false hn
    have hge := of_decide_eq_false hf
    rw [Binary64.magnitude] at hle hge
    omega
  rw [Binary64.signBit, Binary64.infinityBits] at hm
  have hcases : x.bits.toNat = 0x7FF0000000000000 ∨ x.bits.toNat = 0xFFF0000000000000 := by omega
  obtain ⟨bits⟩ := x
  rcases hcases with h | h
  · exact .inl (congrArg Binary64.mk (UInt64.toNat_inj.mp h))
  · exact .inr (congrArg Binary64.mk (UInt64.toNat_inj.mp h))

lemma isFinite_of_isNaN {x : Binary64} (h : x.isNaN = true) : x.isFinite = false :=
  decide_eq_false (Nat.not_lt.mpr (Nat.le_of_lt (of_decide_eq_true h)))

lemma toBinary64?_ofBinary64 {x : Binary64} (h : Kept [x]) :
    (ofBinary64 x).toBinary64? = some x.collapse := by
  by_cases hn : x.isNaN = true
  · have hf := isFinite_of_isNaN hn
    simp only [ofBinary64, hf, Exposition.valueText, hn, Binary64.collapse, if_true,
      Bool.false_eq_true, if_false]
    rfl
  · rw [Bool.not_eq_true] at hn
    have hc : x.collapse = x := by simp [Binary64.collapse, hn]
    rw [hc]
    by_cases hf : x.isFinite = true
    · exact h x (List.mem_singleton_self x) hf
    · rcases eq_infinity hn (by simpa using hf) with rfl | rfl
      · rfl
      · rfl

lemma writable_ofBinary64 (x : Binary64) : Writable (ofBinary64 x) := by
  by_cases hf : x.isFinite = true
  · rw [ofBinary64, if_pos hf]
    apply Writable.number
    rw [String.toList_ofList]
    exact isNumber_signed x.negative (isUnsigned_numberDigits x.magnitude)
  · rw [ofBinary64, if_neg hf]
    exact .str _

lemma writable_ofInt (i : Int) : Writable (ofInt i) := by
  apply Writable.number
  rw [String.toList_ofList]
  exact isNumber_intText i

lemma toInt?_ofInt (i : Int) : (ofInt i).toInt? = some i := by
  have hread := Numeral.readInt?_intText i
  have hne : Numeral.intText i ≠ ['-', '0'] := by
    intro h
    rw [h] at hread
    obtain rfl : 0 = i := Option.some.inj hread
    exact absurd h (by decide)
  simp only [ofInt, toInt?, String.toList_ofList, if_neg hne, hread]

lemma toUInt64?_ofUInt64 (n : UInt64) : (ofUInt64 n).toUInt64? = some n := by
  have hlt := n.toNat_lt
  have hrange : (0 : Int) ≤ n.toNat ∧ (n.toNat : Int) < UInt64.size := by
    rw [UInt64.size]
    omega
  simp only [ofUInt64, toUInt64?, toInt?_ofInt, if_pos hrange, Int.toNat_natCast,
    UInt64.ofNat_toNat]

lemma toInt64?_ofInt (t : Int64) : (ofInt t.toInt).toInt64? = some t := by
  have hrange : Int64.minValue.toInt ≤ t.toInt ∧ t.toInt ≤ Int64.maxValue.toInt :=
    ⟨Int64.minValue_le_toInt t, Int64.toInt_le t⟩
  simp only [toInt64?, toInt?_ofInt, if_pos hrange, Int64.ofInt_toInt]

end Leaves

section Values

variable {q : Quantile} {b : Bucket} {v : SampleValue}

lemma toQuantile?_ofQuantile (h : Kept q.numbers) :
    toQuantile? (ofQuantile q) = some q.collapse := by
  have hf : (ofQuantile q).fields? ["quantile", "value"]
      = some [some (ofBinary64 q.quantile), some (ofBinary64 q.value)] := rfl
  obtain ⟨hq, hv⟩ := kept_cons.mp h
  simp [toQuantile?, hf, toBinary64?_ofBinary64 hq, toBinary64?_ofBinary64 hv, Quantile.collapse]

lemma toBucket?_ofBucket (h : Kept b.numbers) : toBucket? (ofBucket b) = some b.collapse := by
  have hf : (ofBucket b).fields? ["upper_bound", "cumulative_count"]
      = some [some (ofBinary64 b.upperBound), some (ofBinary64 b.cumulativeCount)] := rfl
  obtain ⟨hu, hc⟩ := kept_cons.mp h
  simp [toBucket?, hf, toBinary64?_ofBinary64 hu, toBinary64?_ofBinary64 hc, Bucket.collapse]

lemma toScalar?_value {x : Binary64} (h : Kept [x]) :
    toScalar? (record [("value", ofBinary64 x)]) = some x.collapse := by
  have hf : (record [("value", ofBinary64 x)]).fields? ["value"] = some [some (ofBinary64 x)] := rfl
  simp [toScalar?, hf, toBinary64?_ofBinary64 h]

def valueFields : SampleValue → List (String × Json)
  | .counter x | .gauge x | .untyped x => [("value", ofBinary64 x)]
  | .summary qs s c =>
    [("quantiles", .array (qs.map ofQuantile)), ("sum", ofBinary64 s), ("count", ofBinary64 c)]
  | .histogram bs s c =>
    [("buckets", .array (bs.map ofBucket)), ("sum", ofBinary64 s), ("count", ofBinary64 c)]

lemma ofSampleValue_eq (v : SampleValue) :
    ofSampleValue v = record (typeField v :: valueFields v) := by
  cases v <;> rfl

lemma splitType?_ofSampleValue (v : SampleValue) :
    (ofSampleValue v).splitType? = some (v.metricType, record (valueFields v)) := by
  rw [ofSampleValue_eq]
  cases v <;> rfl

lemma toValueOf?_valueFields (h : Kept v.numbers) :
    toValueOf? v.metricType (record (valueFields v)) = some v.collapse := by
  cases v with
  | counter x | gauge x | untyped x =>
    simp [toValueOf?, SampleValue.metricType, valueFields, toScalar?_value h, SampleValue.collapse]
  | summary qs s c =>
    have hf : (record (valueFields (.summary qs s c))).fields? ["quantiles", "sum", "count"]
        = some [some (.array (qs.map ofQuantile)), some (ofBinary64 s), some (ofBinary64 c)] := rfl
    obtain ⟨hs, hc, hqs⟩ := h.parts
    have hread : (qs.map ofQuantile).mapM toQuantile? = some (qs.map Quantile.collapse) :=
      mapM_map_eq_pure fun q hq => toQuantile?_ofQuantile (hqs q hq)
    simp [toValueOf?, SampleValue.metricType, hf, toArray?, hread, toBinary64?_ofBinary64 hs,
      toBinary64?_ofBinary64 hc, SampleValue.collapse]
  | histogram bs s c =>
    have hf : (record (valueFields (.histogram bs s c))).fields? ["buckets", "sum", "count"]
        = some [some (.array (bs.map ofBucket)), some (ofBinary64 s), some (ofBinary64 c)] := rfl
    obtain ⟨hs, hc, hbs⟩ := h.parts
    have hread : (bs.map ofBucket).mapM toBucket? = some (bs.map Bucket.collapse) :=
      mapM_map_eq_pure fun b hb => toBucket?_ofBucket (hbs b hb)
    simp [toValueOf?, SampleValue.metricType, hf, toArray?, hread, toBinary64?_ofBinary64 hs,
      toBinary64?_ofBinary64 hc, SampleValue.collapse]

lemma isSound_ofBinary64 {x : Binary64} (h : Kept [x]) : (ofBinary64 x).isSound = true := by
  by_cases hf : x.isFinite = true
  · have hread := h x (List.mem_singleton_self x) hf
    rw [ofBinary64, if_pos hf] at hread ⊢
    rw [isSound]
    exact Option.isSome_iff_exists.mpr ⟨x, hread⟩
  · rw [ofBinary64, if_neg hf]
    rfl

lemma itemsSound_map {A : Type} {f : A → Json} {l : List A}
    (h : ∀ a ∈ l, (f a).isSound = true) : itemsSound (l.map f) = true := by
  induction l with
  | nil => rfl
  | cons a l ih =>
    obtain ⟨ha, hl⟩ := List.forall_mem_cons.mp h
    rw [List.map_cons, itemsSound, ha, ih hl]
    rfl

lemma membersSound_record {fields : List (String × Json)}
    (h : ∀ f ∈ fields, f.2.isSound = true) : (record fields).isSound = true := by
  rw [record, isSound]
  induction fields with
  | nil => rfl
  | cons f fields ih =>
    obtain ⟨hf, hfields⟩ := List.forall_mem_cons.mp h
    rw [List.map_cons, membersSound, hf, ih hfields]
    rfl

lemma isSound_ofQuantile (h : Kept q.numbers) : (ofQuantile q).isSound = true := by
  apply membersSound_record
  obtain ⟨hq, hv⟩ := kept_cons.mp h
  simp [isSound_ofBinary64 hq, isSound_ofBinary64 hv]

lemma isSound_ofBucket (h : Kept b.numbers) : (ofBucket b).isSound = true := by
  apply membersSound_record
  obtain ⟨hu, hc⟩ := kept_cons.mp h
  simp [isSound_ofBinary64 hu, isSound_ofBinary64 hc]

lemma isSound_ofSampleValue (h : Kept v.numbers) : (ofSampleValue v).isSound = true := by
  rw [ofSampleValue_eq]
  apply membersSound_record
  refine List.forall_mem_cons.mpr ⟨rfl, ?_⟩
  cases v with
  | counter x | gauge x | untyped x =>
    simp [valueFields, isSound_ofBinary64 h]
  | summary qs s c =>
    obtain ⟨hs, hc, hqs⟩ := h.parts
    have hitems : itemsSound (qs.map ofQuantile) = true :=
      itemsSound_map fun q hq => isSound_ofQuantile (hqs q hq)
    simp [valueFields, isSound, hitems, isSound_ofBinary64 hs, isSound_ofBinary64 hc]
  | histogram bs s c =>
    obtain ⟨hs, hc, hbs⟩ := h.parts
    have hitems : itemsSound (bs.map ofBucket) = true :=
      itemsSound_map fun b hb => isSound_ofBucket (hbs b hb)
    simp [valueFields, isSound, hitems, isSound_ofBinary64 hs, isSound_ofBinary64 hc]

lemma depth_ofBinary64 (x : Binary64) : (ofBinary64 x).depth = 0 := by
  by_cases hf : x.isFinite = true
  · rw [ofBinary64, if_pos hf]
    rfl
  · rw [ofBinary64, if_neg hf]
    rfl

lemma itemsDepth_map_le {A : Type} {f : A → Json} {l : List A} {n : Nat}
    (h : ∀ a ∈ l, (f a).depth ≤ n) : itemsDepth (l.map f) ≤ n := by
  induction l with
  | nil => exact Nat.zero_le n
  | cons a l ih =>
    obtain ⟨ha, hl⟩ := List.forall_mem_cons.mp h
    rw [List.map_cons, itemsDepth]
    exact Nat.max_le.mpr ⟨ha, ih hl⟩

lemma depth_ofSampleValue_le (v : SampleValue) : (ofSampleValue v).depth ≤ 3 := by
  have hq : ∀ q : Quantile, (ofQuantile q).depth ≤ 1 := by
    intro q
    simp [ofQuantile, record, depth, membersDepth, depth_ofBinary64]
  have hb : ∀ b : Bucket, (ofBucket b).depth ≤ 1 := by
    intro b
    simp [ofBucket, record, depth, membersDepth, depth_ofBinary64]
  rw [ofSampleValue_eq]
  cases v with
  | counter x | gauge x | untyped x =>
    simp [valueFields, record, typeField, ofMetricType, str, depth, membersDepth, depth_ofBinary64]
  | summary qs s c =>
    have hqs := itemsDepth_map_le (l := qs) fun q _ => hq q
    simp [valueFields, record, typeField, ofMetricType, str, depth, membersDepth, depth_ofBinary64]
    omega
  | histogram bs s c =>
    have hbs := itemsDepth_map_le (l := bs) fun b _ => hb b
    simp [valueFields, record, typeField, ofMetricType, str, depth, membersDepth, depth_ofBinary64]
    omega

lemma toSampleValue?_ofSampleValue {level : Nat} (hl : level + 3 ≤ maxDepth)
    (h : Kept v.numbers) : toSampleValue? level (ofSampleValue v) = some v.collapse := by
  have hd := depth_ofSampleValue_le v
  have hdepth : level + (ofSampleValue v).depth ≤ maxDepth := by omega
  simp [toSampleValue?, isSound_ofSampleValue h, hdepth, splitType?_ofSampleValue,
    toValueOf?_valueFields h]

end Values

end Json

end PushGateway
