import IppCode.Program
import IppCode.Proofs.Acceptance

/-!
# Linking programs

A program that passed the check is linked: each instruction is put beside the operation
it stands for, and the values of its constants are put into a table.  Linking can fail by
itself, on operands of a wrong kind, constants without a value and labels that are not
found, and it never does behind the check (`exists_ofInstructions`).

What a linked line has to do with its instruction is said by two views of operations:
`Operation.opcode`, the opcode an operation comes from, and `Operation.target?`, the
place it may continue at.  Linking keeps the one and looks up the other
(`opcode_of_link`, `target?_of_link`).
-/

namespace IppCode

/-- The opcode that computes an expression. -/
def Expr.opcode : Expr → Opcode
  | .copy _ => .move
  | .typeName _ => .type
  | .unary f _ => f.opcode
  | .binary f _ _ => f.opcode
  | .setChar .. => .setChar

/-- The opcodes of instructions that compute a value and store it. -/
def Opcode.computing : List Opcode :=
  [.move, .add, .sub, .mul, .idiv, .lt, .gt, .eq, .and, .or, .not, .int2Char, .stri2Int, .concat,
    .strlen, .getChar, .setChar, .type]

theorem Expr.opcode_mem (e : Expr) : e.opcode ∈ Opcode.computing := by
  cases e with
  | unary f a => cases f <;> simp [Expr.opcode, UnaryOp.opcode, Opcode.computing]
  | binary f a b => cases f <;> simp [Expr.opcode, BinaryOp.opcode, Opcode.computing]
  | copy a | typeName a | setChar x index replacement => simp [Expr.opcode, Opcode.computing]

theorem Expr.opcode_ne (e : Expr) {opcode : Opcode} (h : opcode ∉ Opcode.computing) :
    e.opcode ≠ opcode :=
  fun heq => h (heq ▸ e.opcode_mem)

namespace Operation

variable {τ σ : Type}

/-- The opcode that an operation comes from. -/
def opcode : Operation τ → Opcode
  | .assign _ e => e.opcode
  | .createFrame => .createFrame
  | .pushFrame => .pushFrame
  | .popFrame => .popFrame
  | .declare _ => .defVar
  | .call _ => .call
  | .return => .return
  | .push _ => .pushs
  | .pop _ => .pops
  | .read .. => .read
  | .write _ => .write
  | .label _ => .label
  | .jump _ => .jump
  | .jumpIf equal .. => jumpIfOpcode equal
  | .exit _ => .exit
  | .print _ => .dprint
  | .dump => .break

/-- The place that an operation may continue at, other than behind itself. -/
def target? : Operation τ → Option τ
  | .call target => some target
  | .jump target => some target
  | .jumpIf _ target _ _ => some target
  | _ => none

/-! ## Resolving places -/

/-- Resolving a place keeps the opcode and replaces the place. -/
theorem resolve?_eq_some {place? : τ → Option σ} {op : Operation τ} {linked : Operation σ}
    (h : op.resolve? place? = some linked) :
    linked.opcode = op.opcode ∧ linked.target? = op.target?.bind place? := by
  cases op with
  | call target | jump target | jumpIf _ target _ _ =>
      obtain ⟨place, hplace, rfl⟩ := Option.map_eq_some_iff.1 h
      exact ⟨rfl, hplace.symm⟩
  | _ =>
      cases h
      exact ⟨rfl, rfl⟩

theorem resolve?_eq_jumpIf {place? : τ → Option σ} {op : Operation τ} {equal : Bool} {place : σ}
    {a b : Symbol} (h : op.resolve? place? = some (.jumpIf equal place a b)) :
    ∃ target, op = .jumpIf equal target a b := by
  cases op with
  | jumpIf equal' target a' b' =>
      obtain ⟨place', -, hop⟩ := Option.map_eq_some_iff.1 h
      cases hop
      exact ⟨target, rfl⟩
  | call target | jump target =>
      obtain ⟨place', -, hop⟩ := Option.map_eq_some_iff.1 h
      cases hop
  | _ => cases h

theorem resolve?_eq_assign {place? : τ → Option σ} {op : Operation τ} {x : Variable} {e : Expr}
    (h : op.resolve? place? = some (.assign x e)) : op = .assign x e := by
  cases op with
  | assign x' e' =>
      cases h
      rfl
  | call target | jump target | jumpIf _ target _ _ =>
      obtain ⟨place, -, hop⟩ := Option.map_eq_some_iff.1 h
      cases hop
  | _ => cases h

/-- An operation can be resolved if its place can. -/
theorem exists_resolve? {place? : τ → Option σ} {op : Operation τ}
    (h : ∀ target, op.target? = some target → ∃ place, place? target = some place) :
    ∃ linked, op.resolve? place? = some linked := by
  cases op with
  | call target | jump target | jumpIf _ target _ _ =>
      obtain ⟨place, hplace⟩ := h target rfl
      exact ⟨_, by rw [resolve?, hplace]; rfl⟩
  | _ => exact ⟨_, rfl⟩

/-! ## Operations of operands -/

section Operands

variable {operands : List Operand} {made : Operation String}

theorem plain_eq_some_iff {op : Operation String} :
    plain op operands = some made ↔ operands = [] ∧ op = made := by
  unfold plain
  split <;> simp_all

theorem onVariable_eq_some_iff {op : Variable → Operation String} :
    onVariable op operands = some made ↔ ∃ x, operands = [.variable x] ∧ op x = made := by
  unfold onVariable
  split <;> simp_all

theorem onLabel_eq_some_iff {op : String → Operation String} :
    onLabel op operands = some made ↔ ∃ name, operands = [.label name] ∧ op name = made := by
  unfold onLabel
  split <;> simp_all

theorem onSymbol_eq_some_iff {op : Symbol → Operation String} :
    onSymbol op operands = some made ↔
      ∃ o a, operands = [o] ∧ o.symbol? = some a ∧ op a = made := by
  unfold onSymbol
  split <;> simp_all

theorem assign₁_eq_some_iff {e : Symbol → Expr} :
    assign₁ e operands = some made ↔
      ∃ x o a, operands = [.variable x, o] ∧ o.symbol? = some a ∧ .assign x (e a) = made := by
  unfold assign₁
  split <;> simp_all

theorem assign₂_eq_some_iff {e : Variable → Symbol → Symbol → Expr} :
    assign₂ e operands = some made ↔
      ∃ x o o' a b, operands = [.variable x, o, o'] ∧ o.symbol? = some a ∧ o'.symbol? = some b ∧
        .assign x (e x a b) = made := by
  unfold assign₂
  split <;> simp_all [Option.bind_eq_some_iff]

theorem reading_eq_some_iff :
    reading operands = some made ↔ ∃ x t, operands = [.variable x, .type t] ∧ .read x t = made := by
  unfold reading
  split <;> simp_all

theorem branch_eq_some_iff {equal : Bool} :
    branch equal operands = some made ↔
      ∃ name o o' a b, operands = [.label name, o, o'] ∧ o.symbol? = some a ∧
        o'.symbol? = some b ∧ .jumpIf equal name a b = made := by
  unfold branch
  split <;> simp_all [Option.bind_eq_some_iff]

end Operands

end Operation

namespace Instruction

variable {i : Instruction} {made : Operation String}

/-- An operation comes from the opcode of its instruction, and it continues at the label
that the instruction names. -/
theorem opcode_target?_of_operation? (h : i.operation? = some made) :
    made.opcode = i.opcode ∧ made.target? = i.targetLabel? := by
  obtain ⟨opcode, operands⟩ := i
  cases opcode with
  | createFrame | pushFrame | popFrame | «return» | «break» =>
      obtain ⟨rfl, rfl⟩ := Operation.plain_eq_some_iff.1 h
      exact ⟨rfl, rfl⟩
  | defVar | pops =>
      obtain ⟨x, rfl, rfl⟩ := Operation.onVariable_eq_some_iff.1 h
      exact ⟨rfl, rfl⟩
  | call | label | jump =>
      obtain ⟨name, rfl, rfl⟩ := Operation.onLabel_eq_some_iff.1 h
      exact ⟨rfl, rfl⟩
  | pushs | write | exit | dprint =>
      obtain ⟨o, a, rfl, -, rfl⟩ := Operation.onSymbol_eq_some_iff.1 h
      cases o <;> exact ⟨rfl, rfl⟩
  | move | type | not | int2Char | strlen =>
      obtain ⟨x, o, a, rfl, -, rfl⟩ := Operation.assign₁_eq_some_iff.1 h
      exact ⟨rfl, rfl⟩
  | add | sub | mul | idiv | lt | gt | eq | and | or | stri2Int | concat | getChar | setChar =>
      obtain ⟨x, o, o', a, b, rfl, -, -, rfl⟩ := Operation.assign₂_eq_some_iff.1 h
      exact ⟨rfl, rfl⟩
  | read =>
      obtain ⟨x, t, rfl, rfl⟩ := Operation.reading_eq_some_iff.1 h
      exact ⟨rfl, rfl⟩
  | jumpIfEq | jumpIfNeq =>
      obtain ⟨name, o, o', a, b, rfl, -, -, rfl⟩ := Operation.branch_eq_some_iff.1 h
      exact ⟨rfl, rfl⟩

/-! ## Instructions that fit have operations -/

/-- Every constant among the operands has a value. -/
def Converts (i : Instruction) : Prop :=
  ∀ l, Operand.constant l ∈ i.operands → ∃ v, l.value? = some v

theorem exists_symbol? {allowed : List ValueType} {o : Operand}
    (htakes : (Slot.symbol allowed).Takes o)
    (hvalue : ∀ l, o = .constant l → ∃ v, l.value? = some v) : ∃ a, o.symbol? = some a := by
  cases htakes with
  | ofVariable allowed x => exact ⟨.variable x, rfl⟩
  | ofConstant allowed l =>
      obtain ⟨v, hv⟩ := hvalue l rfl
      exact ⟨.constant v, by rw [Operand.symbol?, hv]; rfl⟩

section Shapes

variable {operands : List Operand} {allowed allowed' : List ValueType}

theorem exists_onVariable (op : Variable → Operation String)
    (h : List.Forall₂ Slot.Takes [.var] operands) :
    ∃ made, Operation.onVariable op operands = some made := by
  obtain ⟨o, _, ho, hnil, rfl⟩ := List.forall₂_cons_left_iff.1 h
  cases hnil
  cases ho
  exact ⟨_, rfl⟩

theorem exists_onLabel (op : String → Operation String)
    (h : List.Forall₂ Slot.Takes [.label] operands) :
    ∃ made, Operation.onLabel op operands = some made := by
  obtain ⟨o, _, ho, hnil, rfl⟩ := List.forall₂_cons_left_iff.1 h
  cases hnil
  cases ho
  exact ⟨_, rfl⟩

theorem exists_onSymbol (op : Symbol → Operation String)
    (h : List.Forall₂ Slot.Takes [.symbol allowed] operands)
    (hvalues : ∀ l, .constant l ∈ operands → ∃ v, l.value? = some v) :
    ∃ made, Operation.onSymbol op operands = some made := by
  obtain ⟨o, _, ho, hnil, rfl⟩ := List.forall₂_cons_left_iff.1 h
  cases hnil
  obtain ⟨a, ha⟩ := exists_symbol? ho fun l hl => hvalues l (by simp [hl])
  exact ⟨op a, Operation.onSymbol_eq_some_iff.2 ⟨o, a, rfl, ha, rfl⟩⟩

/-- Two symbols behind another operand have been converted. -/
theorem exists_two_symbols {slot : Slot}
    (h : List.Forall₂ Slot.Takes [slot, .symbol allowed, .symbol allowed'] operands)
    (hvalues : ∀ l, .constant l ∈ operands → ∃ v, l.value? = some v) :
    ∃ first o o' a b, operands = [first, o, o'] ∧ slot.Takes first ∧ o.symbol? = some a ∧
      o'.symbol? = some b := by
  obtain ⟨first, _, hfirst, hrest, rfl⟩ := List.forall₂_cons_left_iff.1 h
  obtain ⟨o, _, ho, hlast, rfl⟩ := List.forall₂_cons_left_iff.1 hrest
  obtain ⟨o', _, ho', hnil, rfl⟩ := List.forall₂_cons_left_iff.1 hlast
  cases hnil
  obtain ⟨a, ha⟩ := exists_symbol? ho fun l hl => hvalues l (by simp [hl])
  obtain ⟨b, hb⟩ := exists_symbol? ho' fun l hl => hvalues l (by simp [hl])
  exact ⟨first, o, o', a, b, rfl, hfirst, ha, hb⟩

theorem exists_assign₁ (e : Symbol → Expr)
    (h : List.Forall₂ Slot.Takes [.var, .symbol allowed] operands)
    (hvalues : ∀ l, .constant l ∈ operands → ∃ v, l.value? = some v) :
    ∃ made, Operation.assign₁ e operands = some made := by
  obtain ⟨first, _, hfirst, hrest, rfl⟩ := List.forall₂_cons_left_iff.1 h
  obtain ⟨o, _, ho, hnil, rfl⟩ := List.forall₂_cons_left_iff.1 hrest
  cases hnil
  cases hfirst with
  | var x =>
      obtain ⟨a, ha⟩ := exists_symbol? ho fun l hl => hvalues l (by simp [hl])
      exact ⟨_, Operation.assign₁_eq_some_iff.2 ⟨x, o, a, rfl, ha, rfl⟩⟩

theorem exists_assign₂ (e : Variable → Symbol → Symbol → Expr)
    (h : List.Forall₂ Slot.Takes [.var, .symbol allowed, .symbol allowed'] operands)
    (hvalues : ∀ l, .constant l ∈ operands → ∃ v, l.value? = some v) :
    ∃ made, Operation.assign₂ e operands = some made := by
  obtain ⟨first, o, o', a, b, rfl, hfirst, ha, hb⟩ := exists_two_symbols h hvalues
  cases hfirst with
  | var x => exact ⟨_, Operation.assign₂_eq_some_iff.2 ⟨x, o, o', a, b, rfl, ha, hb, rfl⟩⟩

theorem exists_reading (h : List.Forall₂ Slot.Takes [.var, .type] operands) :
    ∃ made, Operation.reading operands = some made := by
  obtain ⟨first, _, hfirst, hrest, rfl⟩ := List.forall₂_cons_left_iff.1 h
  obtain ⟨o, _, ho, hnil, rfl⟩ := List.forall₂_cons_left_iff.1 hrest
  cases hnil
  cases hfirst
  cases ho
  exact ⟨_, rfl⟩

theorem exists_branch (equal : Bool)
    (h : List.Forall₂ Slot.Takes [.label, .symbol allowed, .symbol allowed'] operands)
    (hvalues : ∀ l, .constant l ∈ operands → ∃ v, l.value? = some v) :
    ∃ made, Operation.branch equal operands = some made := by
  obtain ⟨first, o, o', a, b, rfl, hfirst, ha, hb⟩ := exists_two_symbols h hvalues
  cases hfirst with
  | label name => exact ⟨_, Operation.branch_eq_some_iff.2 ⟨name, o, o', a, b, rfl, ha, hb, rfl⟩⟩

end Shapes

/-- An instruction whose operands fit and whose constants have values has an operation. -/
theorem exists_operation? (hfits : i.Fits) (hconverts : i.Converts) :
    ∃ made, i.operation? = some made := by
  obtain ⟨opcode, operands⟩ := i
  cases opcode with
  | createFrame | pushFrame | popFrame | «return» | «break» =>
      cases hfits
      exact ⟨_, rfl⟩
  | defVar | pops => exact exists_onVariable _ hfits
  | call | label | jump => exact exists_onLabel _ hfits
  | pushs | write | exit | dprint => exact exists_onSymbol _ hfits hconverts
  | move | type | not | int2Char | strlen => exact exists_assign₁ _ hfits hconverts
  | add | sub | mul | idiv | lt | gt | eq | and | or | stri2Int | concat | getChar | setChar =>
      exact exists_assign₂ _ hfits hconverts
  | read => exact exists_reading hfits
  | jumpIfEq | jumpIfNeq => exact exists_branch _ hfits hconverts

/-! ## Links -/

variable {labels : Table Nat} {op : Operation Nat}

theorem link_eq_ok_iff : i.link labels = .ok op ↔
    ∃ made, i.operation? = some made ∧ made.resolve? labels.find? = some op := by
  unfold link
  cases hmade : i.operation? with
  | none => simp
  | some made => cases hresolve : made.resolve? labels.find? <;> simp [hresolve]

/-- A linked operation comes from the opcode of its instruction. -/
theorem opcode_of_link (h : i.link labels = .ok op) : op.opcode = i.opcode := by
  obtain ⟨made, hmade, hresolve⟩ := link_eq_ok_iff.1 h
  rw [(Operation.resolve?_eq_some hresolve).1, (opcode_target?_of_operation? hmade).1]

/-- A linked operation continues where the label of its instruction is found. -/
theorem target?_of_link (h : i.link labels = .ok op) :
    op.target? = i.targetLabel?.bind labels.find? := by
  obtain ⟨made, hmade, hresolve⟩ := link_eq_ok_iff.1 h
  rw [(Operation.resolve?_eq_some hresolve).2, (opcode_target?_of_operation? hmade).2]

/-- A linked conditional jump compares the last two operands of its instruction. -/
theorem branch_of_link {equal : Bool} {target : Nat} {a b : Symbol}
    (h : i.link labels = .ok (.jumpIf equal target a b)) :
    ∃ name o o', i = ⟨Operation.jumpIfOpcode equal, [.label name, o, o']⟩ ∧
      o.symbol? = some a ∧ o'.symbol? = some b := by
  have hopcode := opcode_of_link h
  obtain ⟨made, hmade, hresolve⟩ := link_eq_ok_iff.1 h
  -- resolving replaces the place only, so it was a conditional jump before
  obtain ⟨name, rfl⟩ := Operation.resolve?_eq_jumpIf hresolve
  obtain ⟨opcode, operands⟩ := i
  cases hopcode
  have hbranch : Operation.branch equal operands = some (.jumpIf equal name a b) := by
    cases equal <;> exact hmade
  obtain ⟨name', o, o', _, _, rfl, ho, ho', hop⟩ := Operation.branch_eq_some_iff.1 hbranch
  cases hop
  exact ⟨name, o, o', rfl, ho, ho'⟩

/-- A linked computation of one symbol has the last operand of its instruction. -/
theorem unary_of_link {x : Variable} {f : UnaryOp} {a : Symbol}
    (h : i.link labels = .ok (.assign x (.unary f a))) :
    ∃ o, i = ⟨f.opcode, [.variable x, o]⟩ ∧ o.symbol? = some a := by
  have hopcode := opcode_of_link h
  obtain ⟨made, hmade, hresolve⟩ := link_eq_ok_iff.1 h
  obtain rfl := Operation.resolve?_eq_assign hresolve
  obtain ⟨opcode, operands⟩ := i
  cases hopcode
  have hassign : Operation.assign₁ (.unary f) operands = some (.assign x (.unary f a)) := by
    cases f <;> exact hmade
  obtain ⟨_, o, _, rfl, ho, hop⟩ := Operation.assign₁_eq_some_iff.1 hassign
  cases hop
  exact ⟨o, rfl, ho⟩

/-- An instruction that fits, whose constants have values and whose label is found can be
linked. -/
theorem exists_link (hfits : i.Fits) (hconverts : i.Converts)
    (htarget : ∀ name, i.Targets name → ∃ p, labels.find? name = some p) :
    ∃ op, i.link labels = .ok op := by
  obtain ⟨made, hmade⟩ := exists_operation? hfits hconverts
  obtain ⟨op, hresolve⟩ : ∃ op, made.resolve? labels.find? = some op := by
    refine Operation.exists_resolve? fun name hname => htarget name ?_
    rw [(opcode_target?_of_operation? hmade).2] at hname
    exact targetLabel?_eq_some_iff.1 hname
  exact ⟨op, link_eq_ok_iff.2 ⟨made, hmade, hresolve⟩⟩

/-! ## Rows of constants -/

/-- Constants stand where slots take symbols, so those that are allowed have values. -/
theorem exists_value_of_allows {slots : List Slot} {operands : List Operand} {l : Literal}
    (htakes : List.Forall₂ Slot.Takes slots operands)
    (hall : Throughout Slot.Allows slots operands) (hl : .constant l ∈ operands) :
    ∃ v, l.value? = some v := by
  induction htakes with
  | nil => exact absurd hl List.not_mem_nil
  | cons hfirst _ ih =>
      obtain ⟨hallows, hrest⟩ := throughout_cons.1 hall
      rcases List.mem_cons.1 hl with rfl | hl
      · cases hfirst with
        | ofConstant allowed l =>
            obtain ⟨v, hvalue, -⟩ := hallows
            exact ⟨v, hvalue⟩
      · exact ih hrest hl

theorem converts_of_fits (hfits : i.Fits) (hconstants : i.ConstantsFit) : i.Converts :=
  fun _ hl => exists_value_of_allows hfits hconstants.allowed hl

end Instruction

theorem Operand.values_cons {o : Operand} {operands : List Operand} {row : List (Option Value)}
    (ho : ∀ l, o = .constant l → ∃ v, l.value? = some v) :
    Operand.values (o :: operands) = .ok row ↔
      ∃ rest, Operand.values operands = .ok rest ∧ o.value? :: rest = row := by
  have hmap : ∀ (x : Except ExecError (List (Option Value))) (c : Option Value),
      x.map (c :: ·) = .ok row ↔ ∃ rest, x = .ok rest ∧ c :: rest = row := by
    rintro (_ | _) _ <;> simp [Except.map]
  cases o with
  | constant l =>
      obtain ⟨v, hvalue⟩ := ho l rfl
      simp only [Operand.values, Operand.value?, hvalue]
      exact hmap _ _
  | «variable» x => exact hmap _ _
  | label name => exact hmap _ _
  | type t => exact hmap _ _

/-- Operands have a row of constants if every constant has a value, and it holds these
values. -/
theorem Operand.values_eq_ok_iff {operands : List Operand} {row : List (Option Value)} :
    Operand.values operands = .ok row ↔
      (∀ l, Operand.constant l ∈ operands → ∃ v, l.value? = some v) ∧
        row = operands.map Operand.value? := by
  induction operands generalizing row with
  | nil => simp [Operand.values, eq_comm]
  | cons o operands ih =>
      by_cases ho : ∀ l, o = .constant l → ∃ v, l.value? = some v
      · rw [Operand.values_cons ho]
        constructor
        · rintro ⟨rest, hrest, rfl⟩
          obtain ⟨hall, rfl⟩ := ih.1 hrest
          refine ⟨fun l hl => ?_, rfl⟩
          rcases List.mem_cons.1 hl with hl | hl
          · exact ho l hl.symm
          · exact hall l hl
        · rintro ⟨hall, rfl⟩
          exact ⟨_, ih.2 ⟨fun l hl => hall l (List.mem_cons_of_mem _ hl), rfl⟩, rfl⟩
      · push Not at ho
        obtain ⟨l, rfl, hnone⟩ := ho
        have hvalue : l.value? = none := Option.eq_none_iff_forall_ne_some.2 hnone
        refine iff_of_false (by simp [Operand.values, hvalue]) ?_
        rintro ⟨hall, -⟩
        obtain ⟨v, hv⟩ := hall l List.mem_cons_self
        exact hnone v hv

/-! ## Programs -/

namespace Program

variable {is : List Instruction} {labels : Table Nat} {p : Program}

theorem linesFrom_eq_ok_iff {position : Nat} {lines : List Line} :
    linesFrom labels position is = .ok lines ↔
      lines.map Line.instruction = is ∧
        ∀ line ∈ lines, line.instruction.link labels = .ok line.operation := by
  induction is generalizing position lines with
  | nil =>
      constructor
      · intro h
        cases h
        simp
      · rintro ⟨h, -⟩
        rw [List.map_eq_nil_iff.1 h]
        rfl
  | cons i is ih =>
      rw [linesFrom]
      constructor
      · intro h
        cases hlink : i.link labels with
        | error e => simp [hlink] at h
        | ok op =>
            cases hrest : linesFrom labels (position + 1) is with
            | error f => simp [hlink, hrest, Except.map] at h
            | ok rest =>
                simp only [hlink, hrest, Except.map, Except.ok.injEq] at h
                obtain ⟨hmap, hall⟩ := ih.1 hrest
                subst h
                exact ⟨by rw [List.map_cons, hmap], List.forall_mem_cons.2 ⟨hlink, hall⟩⟩
      · rintro ⟨hmap, hall⟩
        obtain ⟨line, rest, rfl, rfl, hrest⟩ := List.map_eq_cons_iff.1 hmap
        obtain ⟨hline, hall⟩ := List.forall_mem_cons.1 hall
        have hlines : linesFrom labels (position + 1) is = .ok rest := ih.2 ⟨hrest, hall⟩
        simp [hline, hlines, Except.map]

/-- The table holds the values of the constants, which all have one. -/
theorem constantsFrom_eq_ok_iff {position : Nat} {rows : List (List (Option Value))} :
    constantsFrom position is = .ok rows ↔
      (∀ i ∈ is, i.Converts) ∧ rows = is.map fun i => i.operands.map Operand.value? := by
  induction is generalizing position rows with
  | nil => simp [constantsFrom, eq_comm]
  | cons i is ih =>
      rw [constantsFrom, List.forall_mem_cons]
      constructor
      · intro h
        cases hrow : Operand.values i.operands with
        | error e => simp [hrow] at h
        | ok row =>
            obtain ⟨hconverts, rfl⟩ := Operand.values_eq_ok_iff.1 hrow
            cases hrest : constantsFrom (position + 1) is with
            | error f => simp [hrow, hrest, Except.map] at h
            | ok rest =>
                obtain ⟨hall, rfl⟩ := ih.1 hrest
                simp only [hrow, hrest, Except.map, Except.ok.injEq] at h
                exact ⟨⟨hconverts, hall⟩, h.symm⟩
      · rintro ⟨⟨hconverts, hall⟩, rfl⟩
        have hrow := Operand.values_eq_ok_iff.2 ⟨hconverts, rfl⟩
        have hrest : constantsFrom (position + 1) is =
            .ok (is.map fun i => i.operands.map Operand.value?) := ih.2 ⟨hall, rfl⟩
        simp [hrow, hrest, Except.map]

/-- A program is made of instructions that pass the check, each beside what it links to
and the values of its constants. -/
theorem ofInstructions_eq_ok_iff :
    ofInstructions is = .ok p ↔ check is = .ok p.labels ∧ p.instructions = is ∧
      (∀ line ∈ p.lines, line.instruction.link p.labels = .ok line.operation) ∧
        constantsFrom 0 is = .ok p.constants.toList := by
  obtain ⟨lines, table, constants⟩ := p
  unfold ofInstructions instructions
  cases check is with
  | error f => simp
  | ok labels =>
      constructor
      · intro h
        cases hrows : constantsFrom 0 is with
        | error f => simp [hrows] at h
        | ok rows =>
            cases hlines : linesFrom labels 0 is with
            | error f => simp [hrows, hlines, Except.map] at h
            | ok list =>
                simp only [hrows, hlines, Except.map, Except.ok.injEq, Program.mk.injEq] at h
                obtain ⟨rfl, rfl, rfl⟩ := h
                simpa using linesFrom_eq_ok_iff.1 hlines
      · rintro ⟨hcheck, hmap, hall, hrows⟩
        cases hcheck
        have hlines : linesFrom table 0 is = .ok lines.toList :=
          linesFrom_eq_ok_iff.2 ⟨hmap, fun line hline => hall line (by simpa using hline)⟩
        simp [hrows, hlines, Except.map]

theorem exists_linesFrom {position : Nat} (h : ∀ i ∈ is, ∃ op, i.link labels = .ok op) :
    ∃ lines, linesFrom labels position is = .ok lines := by
  induction is generalizing position with
  | nil => exact ⟨[], rfl⟩
  | cons i is ih =>
      obtain ⟨⟨op, hlink⟩, hrest⟩ := List.forall_mem_cons.1 h
      obtain ⟨lines, hlines⟩ : ∃ lines, linesFrom labels (position + 1) is = .ok lines := ih hrest
      exact ⟨⟨i, op⟩ :: lines, by simp [linesFrom, hlink, hlines, Except.map]⟩

/-- Linking does not fail behind the check. -/
theorem exists_ofInstructions (h : check is = .ok labels) : ∃ p, ofInstructions is = .ok p := by
  obtain ⟨haccepted, hlabels⟩ := accepted_of_check h
  have hconverts : ∀ i ∈ is, i.Converts := fun i hi =>
    Instruction.converts_of_fits (haccepted.fits i hi) (haccepted.constants i hi)
  -- each of the three ways to fail is closed by one of the rules that the program obeys
  have hlink : ∀ i ∈ is, ∃ op, i.link labels = .ok op := by
    intro i hi
    refine Instruction.exists_link (haccepted.fits i hi) (hconverts i hi) ?_
    intro name hname
    obtain ⟨p, hp⟩ := List.mem_iff_getElem?.1 (haccepted.defined i hi name hname)
    exact ⟨p, (hlabels name p).2 hp⟩
  obtain ⟨lines, hlines⟩ : ∃ lines, linesFrom labels 0 is = .ok lines := exists_linesFrom hlink
  obtain ⟨rows, hrows⟩ : ∃ rows, constantsFrom 0 is = .ok rows :=
    ⟨_, constantsFrom_eq_ok_iff.2 ⟨hconverts, rfl⟩⟩
  exact ⟨⟨lines.toArray, labels, rows.toArray⟩,
    by simp [ofInstructions, h, hrows, hlines, Except.map]⟩

theorem size_lines (h : ofInstructions is = .ok p) : p.lines.size = is.length := by
  obtain ⟨-, rfl, -⟩ := ofInstructions_eq_ok_iff.1 h
  simp [instructions]

/-- The line at a position holds the instruction there and what it links to. -/
theorem line_of_getElem? (h : ofInstructions is = .ok p) {k : Nat} {line : Line}
    (hline : p.lines[k]? = some line) :
    is[k]? = some line.instruction ∧ line.instruction.link p.labels = .ok line.operation := by
  obtain ⟨-, rfl, hall, -⟩ := ofInstructions_eq_ok_iff.1 h
  refine ⟨?_, hall line (Array.mem_of_getElem? hline)⟩
  simp [instructions, hline]

theorem getElem?_lines_eq_none_iff (h : ofInstructions is = .ok p) {k : Nat} :
    p.lines[k]? = none ↔ is.length ≤ k := by
  rw [Array.getElem?_eq_none_iff, size_lines h]

/-- Every instruction is on a line. -/
theorem exists_line (h : ofInstructions is = .ok p) {k : Nat} {i : Instruction}
    (hi : is[k]? = some i) : ∃ line, p.lines[k]? = some line ∧ line.instruction = i := by
  cases hline : p.lines[k]? with
  | none =>
      rw [List.getElem?_eq_none ((getElem?_lines_eq_none_iff h).1 hline)] at hi
      cases hi
  | some line => exact ⟨line, rfl, Option.some.inj ((line_of_getElem? h hline).1.symm.trans hi)⟩

end Program

end IppCode
