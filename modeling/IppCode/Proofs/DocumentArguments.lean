import Mathlib.Data.List.Nodup
import Mathlib.Data.List.Perm.Basic
import IppCode.Proofs.Attributes
import IppCode.Proofs.DocumentWords
import IppCode.Proofs.VariableText

/-!
# The arguments of instructions

Which elements are arguments, and which operands they stand for, said without saying how they are
read.  `AreArguments` allows the arguments of an instruction in any order; they are read one by one
with their places, and `areArguments_iff` says that this comes to the same.
-/

namespace IppCode.Document

open Markup (Element Attribute)

/-! ## Arguments -/

/-- A word stands for an operand, given the keyword that an argument has for its type. -/
inductive Denotes (keyword word : String) : Operand → Prop
  | constant {type : ValueType} (hkeyword : Text.sameLetters keyword type.name = true) :
      Denotes keyword word (.constant ⟨type, word⟩)
  | label (hkeyword : Text.sameLetters keyword "label" = true) (hword : word ≠ "") :
      Denotes keyword word (.label word)
  | variable {x : Variable} (hkeyword : Text.sameLetters keyword "var" = true)
      (hword : word = x.render) (hname : x.name ≠ "") :
      Denotes keyword word (.variable x)
  | type {type : ValueType} (hkeyword : Text.sameLetters keyword "type" = true)
      (hword : Text.sameLetters word type.name = true) :
      Denotes keyword word (.type type)

/-- An element is an argument and stands for an operand.  It has no elements within, and its type
as the only attribute. -/
structure IsArgument (e : Element) (o : Operand) : Prop where
  elements : e.elements = []
  type : ∃ keyword, e.attributes = [⟨none, "type", keyword⟩] ∧
    Denotes (Text.trim keyword) (Text.trim e.leadingText) o

theorem operandOf_eq_ok_iff {keyword word : String} {o : Operand} :
    operandOf (Text.lower keyword) word = .ok o ↔ Denotes keyword word o := by
  have hvar : Text.lower keyword = "var" ↔ Text.sameLetters keyword "var" = true :=
    Text.lower_eq_iff (by decide)
  have hlabel : Text.lower keyword = "label" ↔ Text.sameLetters keyword "label" = true :=
    Text.lower_eq_iff (by decide)
  have htype : Text.lower keyword = "type" ↔ Text.sameLetters keyword "type" = true :=
    Text.lower_eq_iff (by decide)
  constructor
  · intro h
    unfold operandOf at h
    split at h
    · rename_i hkeyword
      split at h
      · rename_i x hx
        cases h
        obtain ⟨hword, hname⟩ := Variable.parse_eq_ok_iff.1 hx
        exact .variable (hvar.1 hkeyword) hword hname
      · cases h
    · split at h
      · rename_i hkeyword
        split at h
        · cases h
        · rename_i hword
          cases h
          exact .label (hlabel.1 hkeyword) hword
      · split at h
        · rename_i hkeyword
          split at h
          · rename_i type hword
            cases h
            exact .type (htype.1 hkeyword) (ValueType.ofName?_eq_some_iff.1 hword)
          · cases h
        · split at h
          · rename_i type hkeyword
            cases h
            exact .constant (ValueType.ofName?_lower.1 hkeyword)
          · cases h
  · intro h
    cases h with
    | «variable» hkeyword hword hname =>
        have hx := Variable.parse_eq_ok_iff.2 ⟨hword, hname⟩
        simp [operandOf, hvar.2 hkeyword, hx]
    | label hkeyword hword => simp [operandOf, hlabel.2 hkeyword, hword]
    | type hkeyword hword =>
        have hfound := ValueType.ofName?_eq_some_iff.2 hword
        simp [operandOf, htype.2 hkeyword, hfound]
    | @constant type hkeyword =>
        have hfound := ValueType.ofName?_lower.2 hkeyword
        -- no type has one of the other keywords for its name
        have hname : Text.lower keyword = type.name := by
          rw [Text.sameLetters_iff.1 hkeyword]
          cases type <;> decide
        have hothers : type.name ≠ "var" ∧ type.name ≠ "label" ∧ type.name ≠ "type" := by
          cases type <;> decide
        rw [hname] at hfound
        simp [operandOf, hname, hothers, hfound]

/-- An argument is read exactly if it is one of the grammar. -/
theorem operand_eq_ok_iff {e : Element} {o : Operand} : operand e = .ok o ↔ IsArgument e o := by
  constructor
  · intro h
    unfold operand at h
    split at h
    · rename_i helements
      split at h
      · rename_i a keyword hattributes hkeyword
        have hmem := Element.mem_of_attribute? hkeyword
        rw [hattributes, List.mem_singleton] at hmem
        exact ⟨List.isEmpty_iff.1 helements, keyword, hmem ▸ hattributes, operandOf_eq_ok_iff.1 h⟩
      · cases h
    · cases h
  · rintro ⟨helements, keyword, hattributes, hdenotes⟩
    have hkeyword : e.attribute? "type" = some keyword := by
      simp [Element.attribute?, hattributes]
    simp [operand, helements, hattributes, hkeyword, operandOf_eq_ok_iff.2 hdenotes]

/-! ## The arguments of an instruction -/

/-- The names of arguments, from the first place to the last. -/
def argumentNames : List String :=
  ["arg1", "arg2", "arg3"]

/-- An argument has the name of a place, and stands for the operand there. -/
def Fills (e : Element) (entry : Nat × Operand) : Prop :=
  argumentNames[entry.1]? = some e.name ∧ IsArgument e entry.2

/-- Operands with their places, counted from a number on. -/
def placed (start : Nat) : List Operand → List (Nat × Operand)
  | [] => []
  | o :: rest => (start, o) :: placed (start + 1) rest

/-- The place of an argument is the place of its name. -/
theorem argumentIndex?_eq_some_iff {name : String} {index : Nat} :
    argumentIndex? name = some index ↔ argumentNames[index]? = some name := by
  have hnodup : argumentNames.Nodup := by decide
  change argumentNames.idxOf? name = some index ↔ _
  rw [List.idxOf?_eq_some_iff, List.getElem?_eq_some_iff]
  constructor
  · rintro ⟨hlt, hget, -⟩
    exact ⟨hlt, hget⟩
  · rintro ⟨hlt, hget⟩
    refine ⟨hlt, hget, fun k hk hsame => ?_⟩
    have hindex := hnodup.getElem_inj_iff.1 (hsame.trans hget.symm)
    omega

section Lookup

variable {α : Type} {l l' : List (Nat × α)} {k : Nat} {a : α}

theorem lookup_eq_some_iff_mem (h : (l.map Prod.fst).Nodup) :
    l.lookup k = some a ↔ (k, a) ∈ l := by
  induction l with
  | nil => simp
  | cons entry l ih =>
      obtain ⟨key, content⟩ := entry
      rw [List.map_cons, List.nodup_cons] at h
      rw [List.mem_cons, Prod.mk.injEq]
      by_cases hkey : k = key
      · subst hkey
        have hnone : (k, a) ∉ l := fun hmem => h.1 (List.mem_map.2 ⟨_, hmem, rfl⟩)
        simp [hnone, eq_comm]
      · simp [List.lookup_cons, beq_eq_false_iff_ne.2 hkey, hkey, ih h.2]

theorem lookup_isSome_iff_mem_map : (l.lookup k).isSome = true ↔ k ∈ l.map Prod.fst := by
  simp [List.lookup_isSome_iff]

/-- Entries of different keys are the same, in whatever order, if the same is found in them. -/
theorem perm_iff_lookup (h : (l.map Prod.fst).Nodup) (h' : (l'.map Prod.fst).Nodup) :
    l.Perm l' ↔ ∀ k, l.lookup k = l'.lookup k := by
  rw [List.perm_ext_iff_of_nodup (.of_map _ h) (.of_map _ h')]
  constructor
  · intro hmem k
    apply Option.ext
    intro a
    rw [lookup_eq_some_iff_mem h, lookup_eq_some_iff_mem h', hmem]
  · rintro hlookup ⟨k, a⟩
    rw [← lookup_eq_some_iff_mem h, ← lookup_eq_some_iff_mem h', hlookup]

end Lookup

theorem map_fst_placed (start : Nat) (operands : List Operand) :
    (placed start operands).map Prod.fst = List.range' start operands.length := by
  induction operands generalizing start with
  | nil => rfl
  | cons o operands ih => rw [placed, List.map_cons, ih, List.length_cons, List.range'_succ]

theorem nodup_placed (start : Nat) (operands : List Operand) :
    ((placed start operands).map Prod.fst).Nodup := by
  rw [map_fst_placed]
  exact List.nodup_range'

/-- Operands that are placed one behind the other are found at their places. -/
theorem lookup_placed (start k : Nat) (operands : List Operand) :
    (placed start operands).lookup (start + k) = operands[k]? := by
  induction operands generalizing start k with
  | nil => rfl
  | cons o operands ih =>
      rw [placed, List.lookup_cons]
      cases k with
      | zero => simp
      | succ k =>
          have hne : start + (k + 1) ≠ start := by omega
          have hnext : start + (k + 1) = start + 1 + k := by omega
          simp only [beq_eq_false_iff_ne.2 hne, List.getElem?_cons_succ]
          rw [hnext, ih]

theorem argumentsFrom_cons_eq_ok_iff {order : Nat} {read result : List (Nat × Operand)}
    {e : Element} {es : List Element} :
    argumentsFrom order read (e :: es) = .ok result ↔
      ∃ entry, Fills e entry ∧ entry.1 ∉ read.map Prod.fst ∧
        argumentsFrom order (read ++ [entry]) es = .ok result := by
  rw [argumentsFrom]
  constructor
  · intro h
    split at h
    · cases h
    · rename_i index hindex
      split at h
      · cases h
      · rename_i hnew
        rw [lookup_isSome_iff_mem_map] at hnew
        split at h
        · cases h
        · rename_i o ho
          exact ⟨(index, o), ⟨argumentIndex?_eq_some_iff.1 hindex, operand_eq_ok_iff.1 ho⟩, hnew, h⟩
  · rintro ⟨⟨index, o⟩, ⟨hname, hargument⟩, hnew, h⟩
    rw [← lookup_isSome_iff_mem_map] at hnew
    simp only [argumentIndex?_eq_some_iff.2 hname, hnew, operand_eq_ok_iff.2 hargument]
    exact h

/-- Reading arguments succeeds exactly if each fills a place, and no place is filled twice. -/
theorem argumentsFrom_eq_ok_iff {order : Nat} {read result : List (Nat × Operand)}
    {es : List Element} (hread : (read.map Prod.fst).Nodup) :
    argumentsFrom order read es = .ok result ↔
      ∃ added, List.Forall₂ Fills es added ∧ result = read ++ added ∧
        (result.map Prod.fst).Nodup := by
  induction es generalizing read with
  | nil =>
      simp only [argumentsFrom, Except.ok.injEq, List.forall₂_nil_left_iff, exists_eq_left,
        List.append_nil]
      constructor
      · rintro rfl
        exact ⟨rfl, hread⟩
      · exact fun h => h.1.symm
  | cons e es ih =>
      have hnext : ∀ entry, entry.1 ∉ read.map Prod.fst →
          ((read ++ [entry]).map Prod.fst).Nodup := fun entry hnew => by
        rw [List.map_append, List.map_singleton, ← List.concat_eq_append]
        exact hread.concat hnew
      rw [argumentsFrom_cons_eq_ok_iff]
      constructor
      · rintro ⟨entry, hfills, hnew, hrest⟩
        obtain ⟨added, hadded, rfl, hnodup⟩ := (ih (hnext entry hnew)).1 hrest
        exact ⟨entry :: added, .cons hfills hadded, List.append_cons .. ▸ rfl, hnodup⟩
      · rintro ⟨_, hall, rfl, hnodup⟩
        obtain ⟨entry, added, hfills, hadded, rfl⟩ := List.forall₂_cons_left_iff.1 hall
        -- a place that had been filled before would be filled twice in the result
        have hnew : entry.1 ∉ read.map Prod.fst := by
          rw [List.map_append, List.map_cons] at hnodup
          exact fun hmem => (List.disjoint_of_nodup_append hnodup) hmem List.mem_cons_self
        refine ⟨entry, hfills, hnew, (ih (hnext entry hnew)).2 ⟨added, hadded, ?_, hnodup⟩⟩
        exact List.append_cons ..

theorem place_lt {es : List Element} {read : List (Nat × Operand)}
    (h : List.Forall₂ Fills es read) : ∀ entry ∈ read, entry.1 < 3 := by
  induction h with
  | nil => simp
  | cons hfills _ ih =>
      rw [List.forall_mem_cons]
      exact ⟨(List.getElem?_eq_some_iff.1 hfills.1).1, ih⟩

/-- Operands are put together from their places exactly if those are the first places. -/
theorem operands?_eq_some_iff {read : List (Nat × Operand)} {operands : List Operand}
    (hnodup : (read.map Prod.fst).Nodup) (hplaces : ∀ entry ∈ read, entry.1 < 3) :
    operands? read = some operands ↔ read.Perm (placed 0 operands) := by
  have hplaced : ∀ k, (placed 0 operands).lookup k = operands[k]? := fun k => by
    simpa using lookup_placed 0 k operands
  have hbeyond : ∀ k, read.lookup (k + 3) = none := fun k => by
    rw [Option.eq_none_iff_forall_not_mem]
    intro o ho
    have hlt := hplaces _ ((lookup_eq_some_iff_mem hnodup).1 ho)
    omega
  rw [perm_iff_lookup hnodup (nodup_placed 0 operands)]
  simp only [hplaced]
  constructor
  · intro h
    unfold operands? at h
    split at h
    case h_5 => cases h
    all_goals
      cases h
      rintro (_ | _ | _ | k) <;> simp [*]
  · intro h
    -- there is no place for a fourth operand
    have hlength : operands.length ≤ 3 := by
      rw [← List.getElem?_eq_none_iff, ← h]
      exact hbeyond 0
    match operands, hlength with
    | [], _ | [a], _ | [a, b], _ | [a, b, c], _ => simp [operands?, h]

/-- Elements are the arguments of an instruction with operands: each place from the first on is
filled by one of them, in whatever order they stand. -/
def AreArguments (es : List Element) (operands : List Operand) : Prop :=
  ∃ arguments, arguments.Perm es ∧ arguments.map Element.name <+: argumentNames ∧
    List.Forall₂ IsArgument arguments operands

theorem cons_prefix_drop_iff {α : Type} {a : α} {l names : List α} {start : Nat} :
    a :: l <+: names.drop start ↔ names[start]? = some a ∧ l <+: names.drop (start + 1) := by
  by_cases hlt : start < names.length
  · rw [List.drop_eq_getElem_cons hlt, List.cons_prefix_cons, List.getElem?_eq_getElem hlt,
      Option.some.injEq, eq_comm]
  · rw [List.drop_eq_nil_of_le (Nat.le_of_not_lt hlt),
      List.getElem?_eq_none (Nat.le_of_not_lt hlt)]
    simp

theorem fills_placed_iff {start : Nat} {operands : List Operand} {arguments : List Element} :
    List.Forall₂ Fills arguments (placed start operands) ↔
      arguments.map Element.name <+: argumentNames.drop start ∧
        List.Forall₂ IsArgument arguments operands := by
  induction operands generalizing start arguments with
  | nil =>
      rw [placed, List.forall₂_nil_right_iff, List.forall₂_nil_right_iff]
      constructor
      · rintro rfl
        exact ⟨List.nil_prefix, rfl⟩
      · exact And.right
  | cons o operands ih =>
      rw [placed]
      constructor
      · intro h
        obtain ⟨e, rest, ⟨hname, hargument⟩, hrest, rfl⟩ := List.forall₂_cons_right_iff.1 h
        obtain ⟨hnames, harguments⟩ := ih.1 hrest
        exact ⟨cons_prefix_drop_iff.2 ⟨hname, hnames⟩, .cons hargument harguments⟩
      · rintro ⟨hnames, h⟩
        obtain ⟨e, rest, hargument, harguments, rfl⟩ := List.forall₂_cons_right_iff.1 h
        obtain ⟨hname, hnames⟩ := cons_prefix_drop_iff.1 hnames
        exact .cons ⟨hname, hargument⟩ (ih.2 ⟨hnames, harguments⟩)

/-- Arguments are read in the order in which they stand, and put in their places after that. -/
theorem areArguments_iff_fills {es : List Element} {operands : List Operand} :
    AreArguments es operands ↔
      ∃ read, List.Forall₂ Fills es read ∧ read.Perm (placed 0 operands) := by
  have hfills : ∀ {arguments}, List.Forall₂ Fills arguments (placed 0 operands) ↔
      arguments.map Element.name <+: argumentNames ∧ List.Forall₂ IsArgument arguments operands :=
    fills_placed_iff
  constructor
  · rintro ⟨arguments, hperm, harguments⟩
    exact List.perm_comp_forall₂ hperm.symm (hfills.2 harguments)
  · rintro ⟨read, hread, hperm⟩
    obtain ⟨arguments, hplaced, harguments⟩ := List.perm_comp_forall₂ hperm.symm hread.flip
    exact ⟨arguments, harguments, hfills.1 hplaced.flip⟩

theorem areArguments_iff (order : Nat) {es : List Element} {operands : List Operand} :
    AreArguments es operands ↔
      ∃ read, argumentsFrom order [] es = .ok read ∧ operands? read = some operands := by
  rw [areArguments_iff_fills]
  have hnil : (([] : List (Nat × Operand)).map Prod.fst).Nodup := List.nodup_nil
  simp only [argumentsFrom_eq_ok_iff hnil, List.nil_append]
  constructor
  · rintro ⟨read, hread, hperm⟩
    have hnodup := (hperm.map Prod.fst).nodup_iff.2 (nodup_placed 0 operands)
    exact ⟨read, ⟨read, hread, rfl, hnodup⟩,
      (operands?_eq_some_iff hnodup (place_lt hread)).2 hperm⟩
  · rintro ⟨read, ⟨_, hread, rfl, hnodup⟩, hoperands⟩
    exact ⟨read, hread, (operands?_eq_some_iff hnodup (place_lt hread)).1 hoperands⟩

end IppCode.Document
