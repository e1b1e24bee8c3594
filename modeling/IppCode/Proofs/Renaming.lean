import IppCode.Proofs.ConstantTable

/-!
# Renaming a program

Labels and variables can be given other names, as long as different names stay different.
Local and temporary frames have one map of names in common, since a frame is the one or the
other at different times.

This module is about what happens before a program runs: the renamed program is checked with
the same verdict (`check_rename`), and an instruction of it is linked to the renamed operation
(`line_rename`).  Errors are compared by their kinds, since they carry names.

Renaming changes the order in which tables list their names.  So tables are not compared as they
are, but by what is found in them (`Table.Renames`).
-/

namespace IppCode

/-- New names for labels, for global variables, and for the variables of local and temporary
frames. -/
structure Renaming where
  label : String → String
  global : String → String
  movable : String → String
  label_injective : Function.Injective label
  global_injective : Function.Injective global
  movable_injective : Function.Injective movable

/-- The new names in a frame. -/
def Renaming.inFrame (ρ : Renaming) : FrameKind → String → String
  | .global => ρ.global
  | .local => ρ.movable
  | .temporary => ρ.movable

theorem Renaming.inFrame_injective (ρ : Renaming) (kind : FrameKind) :
    Function.Injective (ρ.inFrame kind) := by
  cases kind with
  | global => exact ρ.global_injective
  | «local» | temporary => exact ρ.movable_injective

/-! ## Syntax -/

def Variable.rename (ρ : Renaming) (x : Variable) : Variable :=
  ⟨x.frame, ρ.inFrame x.frame x.name⟩

def Operand.rename (ρ : Renaming) : Operand → Operand
  | .variable x => .variable (x.rename ρ)
  | .constant l => .constant l
  | .label name => .label (ρ.label name)
  | .type t => .type t

def Instruction.rename (ρ : Renaming) (i : Instruction) : Instruction :=
  ⟨i.opcode, i.operands.map (Operand.rename ρ)⟩

def Symbol.rename (ρ : Renaming) : Symbol → Symbol
  | .variable x => .variable (x.rename ρ)
  | .constant v => .constant v

def Expr.rename (ρ : Renaming) : Expr → Expr
  | .copy a => .copy (a.rename ρ)
  | .typeName a => .typeName (a.rename ρ)
  | .unary f a => .unary f (a.rename ρ)
  | .binary f a b => .binary f (a.rename ρ) (b.rename ρ)
  | .setChar x index replacement => .setChar (x.rename ρ) (index.rename ρ) (replacement.rename ρ)

/-- The operation with new names, and with its place to continue at replaced. -/
def Operation.rename {τ σ : Type} (ρ : Renaming) (place : τ → σ) : Operation τ → Operation σ
  | .assign x e => .assign (x.rename ρ) (e.rename ρ)
  | .createFrame => .createFrame
  | .pushFrame => .pushFrame
  | .popFrame => .popFrame
  | .declare x => .declare (x.rename ρ)
  | .call target => .call (place target)
  | .return => .return
  | .push a => .push (a.rename ρ)
  | .pop x => .pop (x.rename ρ)
  | .read x type => .read (x.rename ρ) type
  | .write a => .write (a.rename ρ)
  | .label name => .label (ρ.label name)
  | .jump target => .jump (place target)
  | .jumpIf equal target a b => .jumpIf equal (place target) (a.rename ρ) (b.rename ρ)
  | .exit a => .exit (a.rename ρ)
  | .print a => .print (a.rename ρ)
  | .dump => .dump

/-! ## Comparing results -/

/-- Two computations with related results or with related errors. -/
inductive Alike {ε α β : Type} (E : ε → ε → Prop) (R : α → β → Prop) :
    Except ε α → Except ε β → Prop
  | ok {a : α} {b : β} (h : R a b) : Alike E R (.ok a) (.ok b)
  | error {e e' : ε} (h : E e e') : Alike E R (.error e) (.error e')

/-- Two errors of the same kind. -/
def ExecError.SameKind (e e' : ExecError) : Prop :=
  e'.kind = e.kind

/-- Two faults of the same kind at the same place. -/
def Fault.SameKind (f f' : Fault) : Prop :=
  f'.error.kind = f.error.kind ∧ f'.location = f.location

/-- In the second table everything is found under its new name. -/
def Table.Renames {α : Type} (g : String → String) (t t' : Table α) : Prop :=
  ∀ name, t'.find? (g name) = t.find? name

namespace Table.Renames

variable {α : Type} {g : String → String} {t t' : Table α}

theorem empty : (∅ : Table α).Renames g ∅ := fun _ => rfl

theorem insert (h : t.Renames g t') (hg : Function.Injective g) (name : String) (a : α) :
    (t.insert name a).Renames g (t'.insert (g name) a) := by
  intro other
  simp only [Table.find?_insert, hg.eq_iff, h other]

theorem contains (h : t.Renames g t') (name : String) : t'.contains (g name) = t.contains name := by
  rw [Table.contains, h name, Table.contains]

end Table.Renames

/-! ## The check of an instruction -/

namespace Instruction

variable (ρ : Renaming)

theorem admits_rename (slot : Slot) (o : Operand) : slot.admits (o.rename ρ) = slot.admits o := by
  cases slot <;> cases o <;> rfl

/-- New names keep each operand of its kind, so the same operand is objected to. -/
theorem kindDefect?_rename (opcode : Opcode) (index : Nat) (slots : List Slot)
    (operands : List Operand) :
    (kindDefect? opcode index slots (operands.map (Operand.rename ρ))).map ExecError.kind =
      (kindDefect? opcode index slots operands).map ExecError.kind := by
  induction slots generalizing index operands with
  | nil => rfl
  | cons slot slots ih =>
      cases operands with
      | nil => rfl
      | cons o operands =>
          rw [List.map_cons, kindDefect?, kindDefect?, admits_rename]
          split
          · exact ih (index + 1) operands
          · rfl

theorem shapeDefect?_rename (i : Instruction) :
    (i.rename ρ).shapeDefect?.map ExecError.kind = i.shapeDefect?.map ExecError.kind := by
  simp only [shapeDefect?, rename, List.length_map]
  split
  · exact kindDefect?_rename ρ i.opcode 0 i.opcode.signature i.operands
  · rfl

/-- The values of constants do not depend on names. -/
theorem symbolValues_rename (opcode : Opcode) (slots : List Slot) (operands : List Operand) :
    symbolValues opcode slots (operands.map (Operand.rename ρ)) =
      symbolValues opcode slots operands := by
  induction slots generalizing operands with
  | nil => rfl
  | cons slot slots ih =>
      cases operands with
      | nil => cases slot <;> rfl
      | cons o operands =>
          cases slot <;> cases o <;> simp only [List.map_cons, Operand.rename, symbolValues, ih]

/-- Constants have no names. -/
theorem constantDefect?_rename (i : Instruction) :
    (i.rename ρ).constantDefect? = i.constantDefect? := by
  simp only [constantDefect?, rename, symbolValues_rename]

theorem defect?_rename (i : Instruction) :
    (i.rename ρ).defect?.map ExecError.kind = i.defect?.map ExecError.kind := by
  have hshape := shapeDefect?_rename ρ i
  unfold defect?
  cases hdefect : i.shapeDefect? with
  | none =>
      rw [hdefect, Option.map_none, Option.map_eq_none_iff] at hshape
      rw [hshape, constantDefect?_rename]
  | some e =>
      rw [hdefect, Option.map_some, Option.map_eq_some_iff] at hshape
      obtain ⟨e', hdefect', hkind⟩ := hshape
      simp [hdefect', hkind]

theorem declaredLabel?_rename (i : Instruction) :
    (i.rename ρ).declaredLabel? = i.declaredLabel?.map ρ.label := by
  obtain ⟨opcode, operands⟩ := i
  rcases operands with _ | ⟨o, operands⟩
  · cases opcode <;> rfl
  · cases o <;> cases opcode <;> rfl

theorem targetLabel?_rename (i : Instruction) :
    (i.rename ρ).targetLabel? = i.targetLabel?.map ρ.label := by
  obtain ⟨opcode, operands⟩ := i
  rcases operands with _ | ⟨o, operands⟩
  · rfl
  · cases o with
    | label name => cases opcode <;> rfl
    | «variable» x | constant l | type t => rfl

end Instruction

/-! ## The check of a program -/

/-- An injective renaming neither joins nor splits names. -/
theorem distinct_map {g : String → String} (hg : Function.Injective g) (names : List String) :
    distinct (names.map g) = (distinct names).map g := by
  induction names with
  | nil => rfl
  | cons name names ih =>
      have hsame : (· != g name) ∘ g = (· != name) := by
        funext other
        simp [bne, hg.eq_iff]
      rw [List.map_cons, distinct, distinct, ih, List.filter_map, hsame, List.map_cons]

section Check

variable (ρ : Renaming) (is : List Instruction)

theorem targetLabels_rename :
    targetLabels (is.map (Instruction.rename ρ)) = (targetLabels is).map ρ.label := by
  rw [targetLabels, targetLabels, ← distinct_map ρ.label_injective, List.filterMap_map,
    List.map_filterMap]
  congr 1
  exact List.filterMap_congr fun i _ => Instruction.targetLabel?_rename ρ i

/-- The pass over the labels fails for both programs or enters the same positions. -/
theorem collectLabels_rename (position : Nat) {labels labels' : Table Nat}
    (h : labels.Renames ρ.label labels') :
    Alike Fault.SameKind (Table.Renames ρ.label) (collectLabels position labels is)
      (collectLabels position labels' (is.map (Instruction.rename ρ))) := by
  induction is generalizing position labels labels' with
  | nil => exact .ok h
  | cons i is ih =>
      have hdefect := Instruction.defect?_rename ρ i
      have hdeclared := Instruction.declaredLabel?_rename ρ i
      rw [List.map_cons, collectLabels, collectLabels]
      cases hi : i.defect? with
      | some e =>
          rw [hi, Option.map_some, Option.map_eq_some_iff] at hdefect
          obtain ⟨e', hi', hkind⟩ := hdefect
          simp only [hi']
          exact .error ⟨hkind, rfl⟩
      | none =>
          rw [hi, Option.map_none, Option.map_eq_none_iff] at hdefect
          cases hname : i.declaredLabel? with
          | none =>
              rw [hname, Option.map_none] at hdeclared
              simp only [hdefect, hdeclared]
              exact ih (position + 1) h
          | some name =>
              rw [hname, Option.map_some] at hdeclared
              -- the name is taken in one table if its new name is taken in the other
              have hfind := h name
              simp only [hdefect, hdeclared, hfind]
              cases labels.find? name with
              | some first => exact .error ⟨rfl, rfl⟩
              | none => exact ih (position + 1) (h.insert ρ.label_injective name position)

/-- A renamed program is checked with the same verdict. -/
theorem check_rename :
    Alike Fault.SameKind (Table.Renames ρ.label) (check is)
      (check (is.map (Instruction.rename ρ))) := by
  have hcollect := collectLabels_rename ρ is 0 Table.Renames.empty
  unfold check
  generalize collectLabels 0 ∅ is = collected at hcollect
  generalize collectLabels 0 ∅ (is.map (Instruction.rename ρ)) = collected' at hcollect
  cases hcollect with
  | error h => exact .error h
  | @ok labels labels' h =>
      have hsame : (fun name => !labels'.contains name) ∘ ρ.label =
          fun name => !labels.contains name := by
        funext name
        simp only [Function.comp, h.contains]
      simp only [targetLabels_rename, List.filter_map, hsame]
      cases (targetLabels is).filter fun name => !labels.contains name with
      | nil => exact .ok h
      | cons name names => exact .error ⟨rfl, rfl⟩

end Check

/-! ## Linking -/

theorem Operand.symbol?_rename (ρ : Renaming) {o : Operand} {a : Symbol} (h : o.symbol? = some a) :
    (o.rename ρ).symbol? = some (a.rename ρ) := by
  cases o with
  | «variable» x =>
      cases h
      rfl
  | constant l =>
      obtain ⟨v, hvalue, rfl⟩ := Option.map_eq_some_iff.1 h
      exact Option.map_eq_some_iff.2 ⟨v, hvalue, rfl⟩
  | label name | type t => cases h

theorem Operation.assign₂_rename (ρ : Renaming) {e : Variable → Symbol → Symbol → Expr}
    {operands : List Operand} {made : Operation String}
    (he : ∀ x a b, (e x a b).rename ρ = e (x.rename ρ) (a.rename ρ) (b.rename ρ))
    (h : Operation.assign₂ e operands = some made) :
    Operation.assign₂ e (operands.map (Operand.rename ρ)) = some (made.rename ρ ρ.label) := by
  obtain ⟨x, o, o', a, b, rfl, ho, ho', rfl⟩ := Operation.assign₂_eq_some_iff.1 h
  refine Operation.assign₂_eq_some_iff.2
    ⟨_, _, _, _, _, rfl, o.symbol?_rename ρ ho, o'.symbol?_rename ρ ho', ?_⟩
  rw [← he, Operation.rename]

namespace Instruction

variable (ρ : Renaming) {i : Instruction}

/-- A renamed instruction has the renamed operation. -/
theorem operation?_rename {made : Operation String} (h : i.operation? = some made) :
    (i.rename ρ).operation? = some (made.rename ρ ρ.label) := by
  obtain ⟨opcode, operands⟩ := i
  cases opcode with
  | createFrame | pushFrame | popFrame | «return» | «break» =>
      obtain ⟨rfl, rfl⟩ := Operation.plain_eq_some_iff.1 h
      rfl
  | defVar | pops =>
      obtain ⟨x, rfl, rfl⟩ := Operation.onVariable_eq_some_iff.1 h
      rfl
  | call | label | jump =>
      obtain ⟨name, rfl, rfl⟩ := Operation.onLabel_eq_some_iff.1 h
      rfl
  | pushs | write | exit | dprint =>
      obtain ⟨o, a, rfl, ho, rfl⟩ := Operation.onSymbol_eq_some_iff.1 h
      exact Operation.onSymbol_eq_some_iff.2 ⟨_, _, rfl, o.symbol?_rename ρ ho, rfl⟩
  | move | type | not | int2Char | strlen =>
      obtain ⟨x, o, a, rfl, ho, rfl⟩ := Operation.assign₁_eq_some_iff.1 h
      exact Operation.assign₁_eq_some_iff.2 ⟨_, _, _, rfl, o.symbol?_rename ρ ho, rfl⟩
  | add | sub | mul | idiv | lt | gt | eq | and | or | stri2Int | concat | getChar | setChar =>
      exact Operation.assign₂_rename ρ (fun _ _ _ => rfl) h
  | read =>
      obtain ⟨x, t, rfl, rfl⟩ := Operation.reading_eq_some_iff.1 h
      rfl
  | jumpIfEq | jumpIfNeq =>
      obtain ⟨name, o, o', a, b, rfl, ho, ho', rfl⟩ := Operation.branch_eq_some_iff.1 h
      exact Operation.branch_eq_some_iff.2
        ⟨_, _, _, _, _, rfl, o.symbol?_rename ρ ho, o'.symbol?_rename ρ ho', rfl⟩

end Instruction

section Lines

variable (ρ : Renaming) {labels labels' : Table Nat}

/-- A label is found where it was, under its new name, so places stay as they are. -/
theorem Operation.resolve?_rename (hlabels : labels.Renames ρ.label labels') {op : Operation String}
    {linked : Operation Nat} (h : op.resolve? labels.find? = some linked) :
    (op.rename ρ ρ.label).resolve? labels'.find? = some (linked.rename ρ id) := by
  cases op with
  | call target | jump target | jumpIf _ target _ _ =>
      obtain ⟨place, hplace, rfl⟩ := Option.map_eq_some_iff.1 h
      refine Option.map_eq_some_iff.2 ⟨place, ?_, rfl⟩
      rw [hlabels target, hplace]
  | _ =>
      cases h
      rfl

/-- A renamed instruction is linked to the renamed operation, with the same targets. -/
theorem Instruction.link_rename (hlabels : labels.Renames ρ.label labels') {i : Instruction}
    {op : Operation Nat} (h : i.link labels = .ok op) :
    (i.rename ρ).link labels' = .ok (op.rename ρ id) := by
  obtain ⟨made, hmade, hresolve⟩ := Instruction.link_eq_ok_iff.1 h
  exact Instruction.link_eq_ok_iff.2
    ⟨_, Instruction.operation?_rename ρ hmade, Operation.resolve?_rename ρ hlabels hresolve⟩

variable {is : List Instruction} {p p' : Program} {q : Nat}
  (hp : Program.ofInstructions is = .ok p)
  (hp' : Program.ofInstructions (is.map (Instruction.rename ρ)) = .ok p')

include hp hp'

/-- The label tables of both programs hold the same positions. -/
theorem labels_rename : p.labels.Renames ρ.label p'.labels := by
  have hcheck := check_rename ρ is
  rw [(Program.ofInstructions_eq_ok_iff.1 hp).1,
    (Program.ofInstructions_eq_ok_iff.1 hp').1] at hcheck
  cases hcheck with
  | ok h => exact h

/-- Each line of a renamed program is the renamed line. -/
theorem line_rename {line : Line} (h : p.lines[q]? = some line) :
    p'.lines[q]? = some ⟨line.instruction.rename ρ, line.operation.rename ρ id⟩ := by
  obtain ⟨hget, hlink⟩ := Program.line_of_getElem? hp h
  have hget' : (is.map (Instruction.rename ρ))[q]? = some (line.instruction.rename ρ) := by
    rw [List.getElem?_map, hget, Option.map_some]
  have hlink' := Instruction.link_rename ρ (labels_rename ρ hp hp') hlink
  cases hline : p'.lines[q]? with
  | none =>
      rw [Program.getElem?_lines_eq_none_iff hp', ← List.getElem?_eq_none_iff, hget'] at hline
      cases hline
  | some line' =>
      obtain ⟨i', op'⟩ := line'
      obtain ⟨hi', hop'⟩ := Program.line_of_getElem? hp' hline
      cases hget'.symm.trans hi'
      cases hlink'.symm.trans hop'
      rfl

theorem line_rename_eq_none (h : p.lines[q]? = none) : p'.lines[q]? = none := by
  rw [Program.getElem?_lines_eq_none_iff hp', List.length_map,
    ← Program.getElem?_lines_eq_none_iff hp]
  exact h

end Lines

end IppCode
