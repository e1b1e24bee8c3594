import Mathlib.Logic.ExistsUnique
import IppCode.Proofs.TextBytes
import IppCode.Proofs.Typing

/-!
# The order of values

Values are compared by two functions: `Value.equals?` for equality and `Value.compare?` for the
order.  Within each type but that of nil they fit together: comparing in the other direction
reverses the order, it is transitive, and neither of two values precedes the other exactly if
`equals?` finds them equal.  So the three operators on them form one total order.

The order of texts is the lexicographic one of their codes, and at the same time that of their
bytes.
-/

namespace IppCode

namespace Value

variable {v w u : Value}

/-! ## The laws of comparing -/

/-- Compared in the other direction, values are in the reverse order, and what cannot be compared in
the one direction cannot in the other. -/
theorem compare?_swap (v w : Value) : w.compare? v = (v.compare? w).map Ordering.swap := by
  cases v with
  | int n =>
      cases w with
      | int m => exact congrArg some Std.OrientedCmp.eq_swap
      | str | bool | nil => rfl
  | str s =>
      cases w with
      | str t => exact congrArg some (Std.OrientedOrd.eq_swap (a := t) (b := s))
      | int | bool | nil => rfl
  | bool b =>
      cases w with
      | bool c => exact congrArg some Std.OrientedCmp.eq_swap
      | int | str | nil => rfl
  | nil => cases w <;> rfl

/-- Values compare as equal exactly if they are the same, except that nil is not compared. -/
theorem compare?_eq_some_eq_iff : v.compare? w = some .eq ↔ v = w ∧ v ≠ nil := by
  cases v with
  | int n =>
      cases w with
      | int m => simp [compare?, Int64.toInt_inj]
      | str | bool | nil => simp [compare?]
  | str s =>
      cases w with
      | str t =>
          -- named first, since `simp` would open the comparison of strings
          have heq : compare s t = .eq ↔ s = t := Std.LawfulEqCmp.compare_eq_iff_eq
          change some (compare s t) = some .eq ↔ _
          simp [heq]
      | int | bool | nil => simp [compare?]
  | bool b =>
      cases w with
      | bool c => simp [compare?]
      | int | str | nil => simp [compare?]
  | nil => simp [compare?]

/-- The order is transitive.  The values are all of one type, for others cannot be compared. -/
theorem compare?_lt_trans (h : v.compare? w = some .lt) (h' : w.compare? u = some .lt) :
    v.compare? u = some .lt := by
  cases v with
  | int n =>
      cases w with
      | int m =>
          cases u with
          | int k =>
              exact congrArg some (Std.TransCmp.lt_trans (Option.some.inj h) (Option.some.inj h'))
          | str | bool | nil => cases h'
      | str | bool | nil => cases h
  | str s =>
      cases w with
      | str t =>
          cases u with
          | str r =>
              have hst : compare s t = .lt := Option.some.inj h
              have htr : compare t r = .lt := Option.some.inj h'
              have hsr : compare s r = .lt := Std.TransCmp.lt_trans hst htr
              exact congrArg some hsr
          | int | bool | nil => cases h'
      | int | bool | nil => cases h
  | bool b =>
      cases w with
      | bool c =>
          cases u with
          | bool d =>
              exact congrArg some (Std.TransCmp.lt_trans (Option.some.inj h) (Option.some.inj h'))
          | int | str | nil => cases h'
      | int | str | nil => cases h
  | nil => cases h

/-- Values of one type can be compared, unless they are nil. -/
theorem exists_compare? (htype : v.type = w.type) (hnil : v ≠ nil) :
    ∃ order, v.compare? w = some order := by
  cases horder : v.compare? w with
  | some order => exact ⟨order, rfl⟩
  | none =>
      rw [compare?_eq_none_iff] at horder
      refine absurd ?_ horder
      have hordered : v.type ∈ [ValueType.int, .string, .bool] := by
        cases v with
        | int | str | bool => simp [type]
        | nil => exact absurd rfl hnil
      exact ⟨hordered, htype ▸ hordered, htype⟩

theorem compare?_eq_none (h : v.type ≠ w.type ∨ v = nil ∨ w = nil) : v.compare? w = none := by
  rw [compare?_eq_none_iff]
  rintro ⟨hv, hw, hsame⟩
  rcases h with hne | rfl | rfl
  · exact hne hsame
  · simp [type] at hv
  · simp [type] at hw

/-- Where values can be compared for equality, they are equal exactly if they are the same. -/
theorem equals?_eq_some (h : v.type = w.type ∨ v = nil ∨ w = nil) :
    v.equals? w = some (decide (v = w)) :=
  if_pos h

theorem equals?_eq_none (h : ¬ (v.type = w.type ∨ v = nil ∨ w = nil)) : v.equals? w = none :=
  if_neg h

end Value

/-! ## The operators -/

namespace BinaryOp

variable {v w u : Value} {order : Ordering}

/-- An operator yields true. -/
def Holds (f : BinaryOp) (v w : Value) : Prop :=
  f.eval v w = .ok (.bool true)

/-- The operators ask whether an order is the one they stand for. -/
theorem eval_lt_of_some (h : v.compare? w = some order) :
    BinaryOp.lt.eval v w = .ok (.bool order.isLT) := by
  simp only [eval, h]

theorem eval_lt_of_none (h : v.compare? w = none) :
    BinaryOp.lt.eval v w = .error (.operandType .lt [v.type, w.type]) := by
  simp only [eval, h, mismatch, List.map_cons, List.map_nil]

theorem eval_gt_of_some (h : v.compare? w = some order) :
    BinaryOp.gt.eval v w = .ok (.bool order.isGT) := by
  simp only [eval, h]

theorem eval_gt_of_none (h : v.compare? w = none) :
    BinaryOp.gt.eval v w = .error (.operandType .gt [v.type, w.type]) := by
  simp only [eval, h, mismatch, List.map_cons, List.map_nil]

theorem eval_eq_of_comparable (h : v.type = w.type ∨ v = .nil ∨ w = .nil) :
    BinaryOp.eq.eval v w = .ok (.bool (decide (v = w))) := by
  simp only [eval, Value.equals?_eq_some h]

theorem eval_eq_of_not_comparable (h : ¬ (v.type = w.type ∨ v = .nil ∨ w = .nil)) :
    BinaryOp.eq.eval v w = .error (.operandType .eq [v.type, w.type]) := by
  simp only [eval, Value.equals?_eq_none h, mismatch, List.map_cons, List.map_nil]

/-- One value precedes another exactly if they compare so. -/
theorem holds_lt_iff : Holds .lt v w ↔ v.compare? w = some .lt := by
  unfold Holds
  cases horder : v.compare? w with
  | none => simp [eval_lt_of_none horder]
  | some order => cases order <;> simp [eval_lt_of_some horder]

theorem holds_gt_iff : Holds .gt v w ↔ v.compare? w = some .gt := by
  unfold Holds
  cases horder : v.compare? w with
  | none => simp [eval_gt_of_none horder]
  | some order => cases order <;> simp [eval_gt_of_some horder]

/-- Equality holds of a value and itself only, whatever the types. -/
theorem holds_eq_iff : Holds .eq v w ↔ v = w := by
  unfold Holds
  by_cases h : v.type = w.type ∨ v = .nil ∨ w = .nil
  · simp [eval_eq_of_comparable h]
  -- values that cannot be compared have different types, so they are not the same
  · rw [eval_eq_of_not_comparable h]
    refine iff_of_false (by simp) ?_
    rintro rfl
    exact h (.inl rfl)

/-- To precede and to follow are the same in opposite directions. -/
theorem lt_eval_swap (h : v.compare? w = some order) :
    BinaryOp.lt.eval v w = BinaryOp.gt.eval w v := by
  have hback : w.compare? v = some order.swap := by
    rw [Value.compare?_swap, h]
    rfl
  rw [eval_lt_of_some h, eval_gt_of_some hback]
  cases order <;> rfl

/-- The three comparisons of values of a type form one total order. -/
structure OrdersType (type : ValueType) : Prop where
  /-- They yield truth values. -/
  yields : ∀ v w, v.type = type → w.type = type →
    ∀ f ∈ [BinaryOp.lt, .eq, .gt], ∃ b, f.eval v w = .ok (.bool b)
  /-- Exactly one of them yields true. -/
  trichotomy : ∀ v w, v.type = type → w.type = type →
    ∃! f, f ∈ [BinaryOp.lt, .eq, .gt] ∧ f.Holds v w
  swap : ∀ v w, v.type = type → w.type = type →
    BinaryOp.lt.eval v w = BinaryOp.gt.eval w v
  trans : ∀ v w u, v.type = type → w.type = type → u.type = type →
    BinaryOp.lt.Holds v w → BinaryOp.lt.Holds w u → BinaryOp.lt.Holds v u
  identity : ∀ v w, v.type = type → w.type = type → (BinaryOp.eq.Holds v w ↔ v = w)

theorem exists_compare?_of_type {type : ValueType} (htype : type ≠ .nil) (hv : v.type = type)
    (hw : w.type = type) : ∃ order, v.compare? w = some order := by
  apply Value.exists_compare? (hv.trans hw.symm)
  rintro rfl
  exact htype hv.symm

/-- Where values have an order, equality fits to it. -/
theorem holds_eq_iff_of_some (h : v.compare? w = some order) :
    Holds .eq v w ↔ order = .eq := by
  have hnil : v ≠ .nil := by
    rintro rfl
    cases h
  rw [holds_eq_iff]
  constructor
  · intro heq
    have hequal := Value.compare?_eq_some_eq_iff.2 ⟨heq, hnil⟩
    exact Option.some.inj (h.symm.trans hequal)
  · rintro rfl
    exact (Value.compare?_eq_some_eq_iff.1 h).1

/-- The operator that asks for an order. -/
def ofOrder : Ordering → BinaryOp
  | .lt => .lt
  | .eq => .eq
  | .gt => .gt

/-- Of the three operators the one that asks for the order of two values holds, and no other. -/
theorem holds_iff_of_some (h : v.compare? w = some order) {f : BinaryOp}
    (hf : f ∈ [BinaryOp.lt, .eq, .gt]) : f.Holds v w ↔ f = ofOrder order := by
  simp only [List.mem_cons, List.not_mem_nil, or_false] at hf
  rcases hf with rfl | rfl | rfl
  · rw [holds_lt_iff, h]
    cases order <;> simp [ofOrder]
  · rw [holds_eq_iff_of_some h]
    cases order <;> simp [ofOrder]
  · rw [holds_gt_iff, h]
    cases order <;> simp [ofOrder]

theorem existsUnique_holds (h : v.compare? w = some order) :
    ∃! f, f ∈ [BinaryOp.lt, .eq, .gt] ∧ f.Holds v w := by
  have hmem : ofOrder order ∈ [BinaryOp.lt, .eq, .gt] := by
    cases order <;> simp [ofOrder]
  refine ⟨ofOrder order, ⟨hmem, (holds_iff_of_some h hmem).2 rfl⟩, ?_⟩
  rintro f ⟨hf, hholds⟩
  exact (holds_iff_of_some h hf).1 hholds

/-- Every type but that of nil is ordered.  All that is asked of the order comes down to one
comparison of the two values. -/
theorem ordersType {type : ValueType} (htype : type ≠ .nil) : OrdersType type where
  yields := by
    intro v w hv hw f hf
    obtain ⟨order, horder⟩ := exists_compare?_of_type htype hv hw
    simp only [List.mem_cons, List.not_mem_nil, or_false] at hf
    rcases hf with rfl | rfl | rfl
    · exact ⟨_, eval_lt_of_some horder⟩
    · exact ⟨_, eval_eq_of_comparable (.inl (hv.trans hw.symm))⟩
    · exact ⟨_, eval_gt_of_some horder⟩
  trichotomy := by
    intro v w hv hw
    obtain ⟨order, horder⟩ := exists_compare?_of_type htype hv hw
    exact existsUnique_holds horder
  swap := by
    intro v w hv hw
    obtain ⟨order, horder⟩ := exists_compare?_of_type htype hv hw
    exact lt_eval_swap horder
  trans := by
    intro v w u _ _ _ hvw hwu
    rw [holds_lt_iff] at hvw hwu ⊢
    exact Value.compare?_lt_trans hvw hwu
  identity := fun _ _ _ _ => holds_eq_iff

/-- Texts are in the order of strings. -/
theorem holds_lt_str {s t : String} : Holds .lt (.str s) (.str t) ↔ s < t := by
  rw [holds_lt_iff]
  change some (compareOfLessAndEq s t) = some .lt ↔ _
  rw [Option.some.injEq, compareOfLessAndEq_eq_lt]

theorem comparable_comm (h : v.type = w.type ∨ v = .nil ∨ w = .nil) :
    w.type = v.type ∨ w = .nil ∨ v = .nil := by
  rcases h with h | h | h
  · exact .inl h.symm
  · exact .inr (.inr h)
  · exact .inr (.inl h)

/-- Equality is symmetric: the order of the operands matters to the error only. -/
theorem eval_eq_comm (v w : Value) (result : Value) (h : BinaryOp.eq.eval v w = .ok result) :
    BinaryOp.eq.eval w v = .ok result := by
  by_cases hcomparable : v.type = w.type ∨ v = .nil ∨ w = .nil
  · rw [eval_eq_of_comparable hcomparable] at h
    rw [eval_eq_of_comparable (comparable_comm hcomparable), ← h]
    simp only [eq_comm]
  · rw [eval_eq_of_not_comparable hcomparable] at h
    cases h

theorem eval_eq_eq_error_iff {e : ExecError} :
    BinaryOp.eq.eval v w = .error e ↔
      v.type ≠ w.type ∧ v ≠ .nil ∧ w ≠ .nil ∧ e = .operandType .eq [v.type, w.type] := by
  by_cases h : v.type = w.type ∨ v = .nil ∨ w = .nil
  · rw [eval_eq_of_comparable h]
    refine iff_of_false (by simp) ?_
    rintro ⟨htype, hv, hw, -⟩
    rcases h with h | h | h
    · exact htype h
    · exact hv h
    · exact hw h
  · rw [eval_eq_of_not_comparable h, Except.error.injEq, eq_comm]
    rw [not_or, not_or] at h
    exact ⟨fun he => ⟨h.1, h.2.1, h.2.2, he⟩, fun he => he.2.2.2⟩

theorem eval_eq_of_nil (h : v = .nil ∨ w = .nil) :
    ∃ b, BinaryOp.eq.eval v w = .ok (.bool b) ∧ (b = true ↔ v = .nil ∧ w = .nil) := by
  refine ⟨_, eval_eq_of_comparable (.inr h), ?_⟩
  rw [decide_eq_true_iff]
  rcases h with rfl | rfl
  · exact ⟨fun h => ⟨rfl, h.symm⟩, fun h => h.2.symm⟩
  · exact ⟨fun h => ⟨h, rfl⟩, fun h => h.1⟩

/-- The comparisons fit together.

* On integers, on texts and on truth values the three of them form one total order.  That of
  texts is the lexicographic order of the codes of their characters, and of their bytes.
* Values of different types, and nil, have no order, in either direction.
* Equality is symmetric.  It is refused exactly for values of different types neither of which is
  nil, and nil equals only itself. -/
theorem comparisons_fit_together :
    (∀ type ∈ [ValueType.int, .string, .bool], OrdersType type) ∧
    (∀ s t : String,
      (BinaryOp.lt.Holds (.str s) (.str t) ↔
        Text.Precedes (s.toList.map Char.toNat) (t.toList.map Char.toNat)) ∧
      (BinaryOp.lt.Holds (.str s) (.str t) ↔
        Text.Precedes (Text.Utf8.encode s) (Text.Utf8.encode t))) ∧
    (∀ v w : Value, v.type ≠ w.type ∨ v = .nil ∨ w = .nil → ∀ f ∈ [BinaryOp.lt, .gt],
      f.eval v w = .error (.operandType f.opcode [v.type, w.type]) ∧
      f.eval w v = .error (.operandType f.opcode [w.type, v.type])) ∧
    ∀ v w : Value,
      (∀ result, BinaryOp.eq.eval v w = .ok result ↔ BinaryOp.eq.eval w v = .ok result) ∧
      (∀ e, BinaryOp.eq.eval v w = .error e ↔
        v.type ≠ w.type ∧ v ≠ .nil ∧ w ≠ .nil ∧ e = .operandType .eq [v.type, w.type]) ∧
      (v = .nil ∨ w = .nil → ∃ b, BinaryOp.eq.eval v w = .ok (.bool b) ∧
        (b = true ↔ v = .nil ∧ w = .nil)) := by
  refine ⟨?_, ?_, ?_, ?_⟩
  · intro type htype
    apply ordersType
    rintro rfl
    simp at htype
  · intro s t
    rw [holds_lt_str]
    exact ⟨Text.Utf8.lt_iff_precedes_codes, Text.Utf8.lt_iff_precedes_encode⟩
  · intro v w h f hf
    have hvw := Value.compare?_eq_none h
    -- to turn the comparison round is easier than to turn the condition round
    have hwv : w.compare? v = none := by
      rw [Value.compare?_swap, hvw]
      rfl
    simp only [List.mem_cons, List.not_mem_nil, or_false] at hf
    rcases hf with rfl | rfl
    · exact ⟨eval_lt_of_none hvw, eval_lt_of_none hwv⟩
    · exact ⟨eval_gt_of_none hvw, eval_gt_of_none hwv⟩
  · intro v w
    exact ⟨fun result => ⟨eval_eq_comm v w result, eval_eq_comm w v result⟩,
      fun e => eval_eq_eq_error_iff, eval_eq_of_nil⟩

/-- Two texts whose first characters take three and four bytes, a proper beginning of a text,
and nil. -/
theorem comparisons_fit_together_texts :
    BinaryOp.lt.Holds (.str "ﬀa") (.str "😀") ∧
    BinaryOp.lt.Holds (.str "😀") (.str "😀b") ∧
    BinaryOp.lt.Holds (.str "ﬀa") (.str "😀b") ∧
    Text.Precedes (Text.Utf8.encode "ﬀa") (Text.Utf8.encode "😀b") ∧
    BinaryOp.gt.eval .nil .nil = .error (.operandType .gt [.nil, .nil]) ∧
    ∃ b, BinaryOp.eq.eval (.int 0) .nil = .ok (.bool b) ∧
      (b = true ↔ Value.int 0 = .nil ∧ Value.nil = .nil) := by
  obtain ⟨horders, htexts, hrefused, hequal⟩ := comparisons_fit_together
  have hfirst : BinaryOp.lt.Holds (.str "ﬀa") (.str "😀") := holds_lt_str.2 (by decide)
  have hsecond : BinaryOp.lt.Holds (.str "😀") (.str "😀b") := holds_lt_str.2 (by decide)
  have hthird := (horders .string (by simp)).trans _ _ _ rfl rfl rfl hfirst hsecond
  exact ⟨hfirst, hsecond, hthird, (htexts _ _).2.1 hthird,
    (hrefused .nil .nil (.inr (.inl rfl)) .gt (by simp)).1, (hequal _ _).2.2 (.inr rfl)⟩

end BinaryOp

end IppCode
