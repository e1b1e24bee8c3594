import IppCode.Proofs.MemoryAccess
import IppCode.Proofs.Simulation
import IppCode.Proofs.Typing

/-!
# The lifetime of variables

A variable comes into being uninitialized, in the frame that its declaration names, and it goes
when its frame goes.  In between it is only ever overwritten, and always with a value: the
memory could store the absence of one, but no instruction asks for that.

* `Effect` says, by the opcode of an instruction, what its execution does to the frames:
  whole frames are made, moved or dropped, or one slot of one frame is changed (`SlotChange`), or
  nothing happens to them.  Every successful step has the effect of its instruction
  (`effect_of_step`), because every rule of execution has (`Executes.effect`).
* A value that an instruction stores is of the type that the instruction yields
  (`Instruction.Yields`); this is a matter of the operators (`Expr.type_of_eval`) and of the
  reading of lines (`type_of_readValue`).
* No effect takes a global variable away or leaves it without a value (`Effect.lasts_global`), and
  by induction no run does (`lasts_of_run`).
-/

namespace IppCode

/-! ## The types of results -/

/-- The type of the values that an opcode computes, where there is only one. -/
def Opcode.resultType? : Opcode → Option ValueType
  | .add | .sub | .mul | .idiv | .stri2Int | .strlen => some .int
  | .lt | .gt | .eq | .and | .or | .not => some .bool
  | .int2Char | .concat | .getChar | .setChar | .type => some .string
  | _ => none

/-- An instruction may store values of a type. -/
structure Instruction.Yields (i : Instruction) (type : ValueType) : Prop where
  computed : ∀ result, i.opcode.resultType? = some result → type = result
  /-- What is read is of the type that the keyword names, or nil. -/
  read : i.opcode = .read → type = .nil ∨ ∃ x, i.operands = [.variable x, .type type]

theorem UnaryOp.type_of_eval {f : UnaryOp} {v result : Value} (h : f.eval v = .ok result) :
    f.opcode.resultType? = some result.type := by
  revert h
  fun_cases UnaryOp.eval f v with
  | case1 | case2 | case4 =>
      rintro ⟨⟩
      rfl
  | case3 | case5 | case6 =>
      intro h
      cases h

theorem BinaryOp.type_of_integer {f : BinaryOp} {n : Option Int64} {result : Value}
    (h : f.integer n = .ok result) : result.type = .int := by
  cases n with
  | none => cases h
  | some n =>
      cases h
      rfl

theorem BinaryOp.type_of_eval {f : BinaryOp} {v w result : Value} (h : f.eval v w = .ok result) :
    f.opcode.resultType? = some result.type := by
  unfold BinaryOp.eval at h
  split at h
  case h_1 | h_2 | h_3 =>
    rw [BinaryOp.type_of_integer h]
    rfl
  case h_4 =>
    split at h
    · cases h
    · rw [BinaryOp.type_of_integer h]
      rfl
  case h_5 | h_6 | h_7 | h_10 | h_12 =>
    split at h
    · cases h
      rfl
    · cases h
  case h_8 | h_9 | h_11 =>
    cases h
    rfl
  case h_13 => cases h

theorem type_of_evalSetChar {target index replacement result : Value}
    (h : evalSetChar target index replacement = .ok result) : result.type = .string := by
  unfold evalSetChar at h
  split at h
  · split at h
    · cases h
      rfl
    · cases h
  · cases h

/-- The opcode alone tells the type of the result, for all but copies. -/
theorem Expr.type_of_eval {memory : Memory} {e : Expr} {v : Value} {type : ValueType}
    (h : e.eval memory = .ok v) (htype : e.opcode.resultType? = some type) : v.type = type := by
  cases e with
  | copy a => cases htype
  | typeName a =>
      obtain ⟨content, -, h⟩ := bind_eq_ok h
      cases h
      cases htype
      rfl
  | unary f a =>
      obtain ⟨u, -, h⟩ := bind_eq_ok h
      exact Option.some.inj ((UnaryOp.type_of_eval h).symm.trans htype)
  | binary f a b =>
      obtain ⟨u, -, h⟩ := bind_eq_ok h
      obtain ⟨w, -, h⟩ := bind_eq_ok h
      exact Option.some.inj ((BinaryOp.type_of_eval h).symm.trans htype)
  | setChar x index replacement =>
      obtain ⟨target, -, h⟩ := bind_eq_ok h
      obtain ⟨i, -, h⟩ := bind_eq_ok h
      obtain ⟨r, -, h⟩ := bind_eq_ok h
      cases htype
      exact type_of_evalSetChar h

theorem Value.type_ofText (type : ValueType) (line : String) :
    (Value.ofText type line).type = type ∨ (Value.ofText type line).type = .nil := by
  cases type with
  | string | bool | nil => exact .inl rfl
  | int =>
      unfold Value.ofText
      cases Text.Numeral.read? (Text.trim line) with
      | none => exact .inr rfl
      | some n => exact .inl rfl

theorem Value.type_ofLine (type : ValueType) (bytes : List UInt8) :
    (Value.ofLine type bytes).type = type ∨ (Value.ofLine type bytes).type = .nil := by
  unfold Value.ofLine
  split
  · exact .inr rfl
  · exact .inr rfl
  · exact Value.type_ofText type _

/-- A read gives a value of its type, or nil. -/
theorem type_of_readValue {type : ValueType} {streams streams' : Streams} {v : Value}
    (h : Streams.readValue type streams = .ok v streams') : v.type = type ∨ v.type = .nil := by
  unfold Streams.readValue at h
  split at h
  · cases h
    exact Value.type_ofLine type _
  · split at h
    · cases h
      exact .inr rfl
    · cases h

/-! ## The variable of an operation -/

/-- The variable that an operation declares or stores to. -/
def Operation.variable? {τ : Type} : Operation τ → Option Variable
  | .assign x _ => some x
  | .declare x => some x
  | .pop x => some x
  | .read x _ => some x
  | _ => none

theorem Operation.variable?_of_resolve? {τ σ : Type} {place? : τ → Option σ} {op : Operation τ}
    {linked : Operation σ} (h : op.resolve? place? = some linked) :
    linked.variable? = op.variable? := by
  cases op with
  | call target | jump target | jumpIf _ target _ _ =>
      obtain ⟨place, -, rfl⟩ := Option.map_eq_some_iff.1 h
      rfl
  | _ =>
      cases h
      rfl

namespace Instruction

variable {i : Instruction} {labels : Table Nat} {op : Operation Nat} {x : Variable}

/-- The first operand of an instruction is a variable to declare or to store to. -/
def Names (i : Instruction) (x : Variable) : Prop :=
  i.opcode.signature.head? = some .var ∧ ∃ rest, i.operands = .variable x :: rest

theorem names_of_operation? {made : Operation String} (h : i.operation? = some made)
    (hx : made.variable? = some x) : i.Names x := by
  obtain ⟨opcode, operands⟩ := i
  cases opcode with
  | createFrame | pushFrame | popFrame | «return» | «break» =>
      obtain ⟨rfl, rfl⟩ := Operation.plain_eq_some_iff.1 h
      cases hx
  | defVar | pops =>
      obtain ⟨x, rfl, rfl⟩ := Operation.onVariable_eq_some_iff.1 h
      cases hx
      exact ⟨rfl, _, rfl⟩
  | call | label | jump =>
      obtain ⟨name, rfl, rfl⟩ := Operation.onLabel_eq_some_iff.1 h
      cases hx
  | pushs | write | exit | dprint =>
      obtain ⟨o, a, rfl, -, rfl⟩ := Operation.onSymbol_eq_some_iff.1 h
      cases hx
  | move | type | not | int2Char | strlen =>
      obtain ⟨x, o, a, rfl, -, rfl⟩ := Operation.assign₁_eq_some_iff.1 h
      cases hx
      exact ⟨rfl, _, rfl⟩
  | add | sub | mul | idiv | lt | gt | eq | and | or | stri2Int | concat | getChar | setChar =>
      obtain ⟨x, o, o', a, b, rfl, -, -, rfl⟩ := Operation.assign₂_eq_some_iff.1 h
      cases hx
      exact ⟨rfl, _, rfl⟩
  | read =>
      obtain ⟨x, t, rfl, rfl⟩ := Operation.reading_eq_some_iff.1 h
      cases hx
      exact ⟨rfl, _, rfl⟩
  | jumpIfEq | jumpIfNeq =>
      obtain ⟨name, o, o', a, b, rfl, -, -, rfl⟩ := Operation.branch_eq_some_iff.1 h
      cases hx

/-- A linked operation works on the variable that its instruction names. -/
theorem names_of_link (h : i.link labels = .ok op) (hx : op.variable? = some x) : i.Names x := by
  obtain ⟨made, hmade, hresolve⟩ := link_eq_ok_iff.1 h
  rw [Operation.variable?_of_resolve? hresolve] at hx
  exact names_of_operation? hmade hx

/-- A linked reading has the variable and the keyword of its instruction. -/
theorem read_of_link {type : ValueType} (h : i.link labels = .ok (.read x type)) :
    i.operands = [.variable x, .type type] := by
  have hopcode : i.opcode = .read := (opcode_of_link h).symm
  obtain ⟨made, hmade, hresolve⟩ := link_eq_ok_iff.1 h
  have hreading : Operation.reading i.operands = some made := by
    rw [← hmade, operation?, hopcode]
  obtain ⟨x', type', hoperands, rfl⟩ := Operation.reading_eq_some_iff.1 hreading
  cases hresolve
  exact hoperands

end Instruction

/-! ## Effects on frames -/

namespace Memory

variable {m m' base : Memory} {x : Variable} {held : Option (Option Value)} {content : Option Value}

/-- All frames of two memories are the same. -/
structure SameFrames (m m' : Memory) : Prop where
  global : m'.global = m.global
  locals : m'.locals = m.locals
  temporary : m'.temporary = m.temporary

theorem SameFrames.refl (m : Memory) : SameFrames m m :=
  ⟨rfl, rfl, rfl⟩

theorem SameFrames.frame? (h : SameFrames m m') (kind : FrameKind) :
    m'.frame? kind = m.frame? kind := by
  cases kind with
  | global => exact congrArg some h.global
  | «local» => exact congrArg Stack.top? h.locals
  | temporary => exact h.temporary

/-- One slot of the visible frame of a variable is changed, and all else in the frames stays.
Before the change the frame holds `held` under the name of the variable, which is `none` if the
name is not declared; after it the name is declared and holds `content`. -/
structure SlotChange (x : Variable) (held : Option (Option Value)) (content : Option Value)
    (m m' : Memory) : Prop where
  frame : ∃ f f', m.frame? x.frame = some f ∧ m'.frame? x.frame = some f' ∧
    f.slot? x.name = held ∧
    ∀ name, f'.slot? name = if name = x.name then some content else f.slot? name
  visible : ∀ kind, kind ≠ x.frame → m'.frame? kind = m.frame? kind
  /-- The local frames under the top one. -/
  hidden : m'.locals.items.tail = m.locals.items.tail

theorem slotChange_put {f : Frame} (hsame : SameFrames m base) (h : base.frame? x.frame = some f)
    (hheld : f.slot? x.name = held) (content : Option Value) :
    SlotChange x held content m (base.setFrame x.frame (f.put x.name content)) where
  frame := by
    refine ⟨f, f.put x.name content, ?_, ?_, hheld, fun name => Frame.slot?_put⟩
    · rw [← hsame.frame?, h]
    · rw [frame?_setFrame h, if_pos rfl]
  visible kind hkind := by rw [frame?_setFrame h, if_neg hkind, hsame.frame?]
  hidden := by rw [tail_setFrame, hsame.locals]

/-- An assignment changes one slot, which was there before. -/
theorem slotChange_of_write (hsame : SameFrames m base) (h : base.write x content = .ok () m') :
    ∃ held, SlotChange x (some held) content m m' := by
  obtain ⟨f, hframe, ⟨held, hheld⟩, rfl⟩ := write_eq_ok_iff.1 h
  exact ⟨held, slotChange_put hsame hframe hheld content⟩

/-- A declaration adds one slot, which was not there before. -/
theorem slotChange_of_declare (h : m.declare x = .ok () m') : SlotChange x none none m m' := by
  obtain ⟨f, hframe, hnone, rfl⟩ := declare_eq_ok_iff.1 h
  exact slotChange_put (.refl m) hframe hnone none

theorem sameFrames_of_popValue {v : Value} (h : m.popValue = .ok v m') : SameFrames m m' := by
  obtain ⟨below, -, rfl⟩ := popValue_eq_ok h
  exact ⟨rfl, rfl, rfl⟩

theorem sameFrames_of_popCall {position : Nat} (h : m.popCall = .ok position m') :
    SameFrames m m' := by
  obtain ⟨below, -, rfl⟩ := popCall_eq_ok h
  exact ⟨rfl, rfl, rfl⟩

end Memory

open Memory (SameFrames SlotChange)

/-- The opcodes that work on whole frames. -/
def Opcode.movesFrames (opcode : Opcode) : Bool :=
  opcode ∈ [.createFrame, .pushFrame, .popFrame]

/-- What the execution of an instruction does to the frames of a memory. -/
inductive Effect (i : Instruction) (m m' : Memory) : Prop
  /-- The temporary frame is dropped, and an empty one made. -/
  | createFrame (hopcode : i.opcode = .createFrame) (hglobal : m'.global = m.global)
      (hlocals : m'.locals = m.locals) (htemporary : m'.temporary = some ∅)
  /-- The temporary frame is moved onto the local frames. -/
  | pushFrame {f : Frame} (hopcode : i.opcode = .pushFrame) (hglobal : m'.global = m.global)
      (hmoved : m.temporary = some f) (hlocals : m'.locals = m.locals.push f)
      (htemporary : m'.temporary = none)
  /-- The temporary frame is dropped, and the top local frame moved to its place. -/
  | popFrame {f : Frame} (hopcode : i.opcode = .popFrame) (hglobal : m'.global = m.global)
      (hmoved : m.locals = m'.locals.push f) (htemporary : m'.temporary = some f)
  /-- A name that the frame does not hold is added, without a value. -/
  | declare {x : Variable} (hopcode : i.opcode = .defVar) (hnames : i.Names x)
      (hchange : SlotChange x none none m m')
  /-- What a declared variable holds is replaced by a value. -/
  | assign {x : Variable} {held : Option Value} {v : Value} (hopcode : i.opcode ≠ .defVar)
      (hnames : i.Names x) (hchange : SlotChange x (some held) (some v) m m')
      (htype : i.Yields v.type)
  | other (hopcode : i.opcode.movesFrames = false) (hhead : i.opcode.signature.head? ≠ some .var)
      (hsame : SameFrames m m')

namespace Machine

variable {is : List Instruction} {p : Program} {m m' : Machine} {op : Operation Nat} {flow : Flow}
  {i : Instruction} {labels : Table Nat}

theorem opcode_ne_defVar_of_expr (e : Expr) : e.opcode ≠ .defVar ∧ e.opcode ≠ .read :=
  ⟨e.opcode_ne (by decide), e.opcode_ne (by decide)⟩

theorem yields_of_eval {e : Expr} {memory : Memory} {v : Value} (hopcode : i.opcode = e.opcode)
    (h : e.eval memory = .ok v) : i.Yields v.type where
  computed _ hresult := Expr.type_of_eval h (hopcode ▸ hresult)
  read hread := absurd (hopcode.symm.trans hread) (opcode_ne_defVar_of_expr e).2

theorem yields_of_readValue {x : Variable} {type : ValueType} {streams streams' : Streams}
    {v : Value} (hlink : i.link labels = .ok (.read x type))
    (h : Streams.readValue type streams = .ok v streams') : i.Yields v.type where
  computed _ hresult := by
    rw [← Instruction.opcode_of_link hlink] at hresult
    cases hresult
  read _ := by
    rcases type_of_readValue h with htype | hnil
    · exact .inr ⟨x, htype ▸ Instruction.read_of_link hlink⟩
    · exact .inl hnil

/-- Any value may have been pushed, so nothing is promised of the type of one that is popped. -/
theorem yields_of_pops (hopcode : i.opcode = .pops) (type : ValueType) : i.Yields type where
  computed _ hresult := by
    rw [hopcode] at hresult
    cases hresult
  read hread := by
    rw [hopcode] at hread
    cases hread

/-- An instruction whose opcode neither works on whole frames nor begins with a variable leaves
the frames alone. -/
theorem effect_of_sameFrames {memory memory' : Memory} (hopcode : op.opcode = i.opcode)
    (hframes : op.opcode.movesFrames = false) (hhead : op.opcode.signature.head? ≠ some .var)
    (hsame : SameFrames memory memory') : Effect i memory memory' := by
  rw [hopcode] at hframes hhead
  exact .other hframes hhead hsame

theorem jumpIf_spares_frames (equal : Bool) :
    (Operation.jumpIfOpcode equal).movesFrames = false ∧
      (Operation.jumpIfOpcode equal).signature.head? ≠ some .var := by
  cases equal <;> decide

/-- Every rule of execution has the effect that its instruction stands for. -/
theorem Executes.effect (hlink : i.link labels = .ok op) (h : Executes m op flow m') :
    Effect i m.memory m'.memory := by
  have hopcode := Instruction.opcode_of_link hlink
  cases h with
  | assign hvalue hstore =>
      obtain ⟨held, hchange⟩ := Memory.slotChange_of_write (.refl _) hstore
      exact .assign (hopcode ▸ (opcode_ne_defVar_of_expr _).1) (Instruction.names_of_link hlink rfl)
        hchange (yields_of_eval hopcode.symm hvalue)
  | createFrame => exact .createFrame hopcode.symm rfl rfl rfl
  | pushFrame h =>
      obtain ⟨f, hmoved, rfl⟩ := Memory.pushFrame_eq_ok h
      exact .pushFrame hopcode.symm rfl hmoved rfl rfl
  | popFrame h =>
      obtain ⟨f, below, hpop, rfl⟩ := Memory.popFrame_eq_ok h
      exact .popFrame hopcode.symm rfl (congrArg Stack.mk (Stack.pop?_eq_some_iff.1 hpop)) rfl
  | declare h =>
      exact .declare hopcode.symm (Instruction.names_of_link hlink rfl)
        (Memory.slotChange_of_declare h)
  | pop hvalue hstore =>
      obtain ⟨held, hchange⟩ :=
        Memory.slotChange_of_write (Memory.sameFrames_of_popValue hvalue) hstore
      exact .assign (hopcode ▸ by simp [Operation.opcode]) (Instruction.names_of_link hlink rfl)
        hchange (yields_of_pops hopcode.symm _)
  | read hvalue hstore =>
      obtain ⟨held, hchange⟩ := Memory.slotChange_of_write (.refl _) hstore
      exact .assign (hopcode ▸ by simp [Operation.opcode]) (Instruction.names_of_link hlink rfl)
        hchange (yields_of_readValue hlink hvalue)
  -- the rest leaves the frames as they are: no variable is its first operand, and no frame moves
  | comeBack h =>
      exact effect_of_sameFrames hopcode rfl (by simp [Operation.opcode, Opcode.signature])
        (Memory.sameFrames_of_popCall h)
  | jumpTaken | jumpPassed =>
      obtain ⟨hframes, hhead⟩ := jumpIf_spares_frames _
      exact effect_of_sameFrames hopcode hframes hhead (.refl _)
  | call | push | write | label | jump | exit | print | dump =>
      exact effect_of_sameFrames hopcode rfl
        (by simp [Operation.opcode, Opcode.signature, Opcode.anySymbol, Opcode.symbolOf])
        ⟨rfl, rfl, rfl⟩

/-! ## Steps -/

/-- A step that does not fail, whether the program goes on behind it or has ended with it. -/
def Succeeds (p : Program) (m m' : Machine) : Prop :=
  step p m = .running m' ∨ ∃ code, step p m = .exited code m'

theorem effect_of_line {line : Line} (h : Program.ofInstructions is = .ok p)
    (hline : p.lines[m.position]? = some line) (hexec : Executes m line.operation flow m') :
    Effect line.instruction m.memory m'.memory :=
  hexec.effect (Program.line_of_getElem? h hline).2

/-- Nothing happens to the memory in the step that ends a program. -/
theorem Ending.memory_eq {code : Nat} {last : Machine} (h : Ending p m code last) :
    last.memory = m.memory := by
  cases h with
  | behind => rfl
  | exit _ hexec => rw [hexec.exit_cases.2]

theorem effect_of_step (h : Program.ofInstructions is = .ok p) (hi : is[m.position]? = some i)
    (hstep : Succeeds p m m') : Effect i m.memory m'.memory := by
  have hi_eq : ∀ {line}, p.lines[m.position]? = some line → line.instruction = i := by
    intro line hline
    exact Option.some.inj ((Program.line_of_getElem? h hline).1.symm.trans hi)
  rcases hstep with hrunning | ⟨code, hexited⟩
  · obtain ⟨line, mid, hline, ⟨hexec, rfl⟩ | ⟨target, hexec, rfl⟩⟩ := step_running hrunning
    · have heffect := effect_of_line h hline hexec
      exact hi_eq hline ▸ heffect
    · have heffect := effect_of_line h hline hexec
      exact hi_eq hline ▸ heffect
  · obtain ⟨last, streams, hending, -, rfl⟩ := step_exited hexited
    cases hending with
    | behind hnone =>
        rw [Program.getElem?_lines_eq_none_iff h] at hnone
        rw [List.getElem?_eq_none hnone] at hi
        cases hi
    | exit hline hexec =>
        have heffect := effect_of_line h hline hexec
        exact hi_eq hline ▸ heffect

/-- An operation that fails leaves all frames as they are. -/
theorem Fails.sameFrames {e : ExecError} (h : Fails m op e m') :
    SameFrames m.memory m'.memory := by
  cases h with
  | popStore hvalue _ => exact Memory.sameFrames_of_popValue hvalue
  | _ => exact .refl _

end Machine

/-! ## Global variables along runs -/

/-- Every name that is declared stays declared, and does not lose its value if it has one. -/
def Frame.Lasts (f f' : Frame) : Prop :=
  ∀ name held, f.slot? name = some held →
    ∃ held', f'.slot? name = some held' ∧ (held.isSome → held'.isSome)

theorem Frame.Lasts.refl (f : Frame) : f.Lasts f :=
  fun _ held h => ⟨held, h, id⟩

theorem Frame.Lasts.of_eq {f f' : Frame} (h : f' = f) : f.Lasts f' :=
  h ▸ .refl f

theorem Frame.Lasts.trans {f f' f'' : Frame} (h : f.Lasts f') (h' : f'.Lasts f'') :
    f.Lasts f'' := by
  intro name held hheld
  obtain ⟨held', hheld', hvalue⟩ := h name held hheld
  obtain ⟨held'', hheld'', hvalue'⟩ := h' name held' hheld'
  exact ⟨held'', hheld'', fun hsome => hvalue' (hvalue hsome)⟩

/-- A change of a slot takes no name away from the global frame, and no value unless one is lost
in this very slot. -/
theorem Memory.SlotChange.lasts_global {m m' : Memory} {x : Variable}
    {held : Option (Option Value)} {content : Option Value} (h : SlotChange x held content m m')
    (hvalue : held = none ∨ content.isSome) : m.global.Lasts m'.global := by
  by_cases hframe : x.frame = .global
  · obtain ⟨f, f', hf, hf', hheld, hslots⟩ := h.frame
    rw [hframe] at hf hf'
    obtain rfl : m.global = f := Option.some.inj hf
    obtain rfl : m'.global = f' := Option.some.inj hf'
    intro name before hbefore
    by_cases hname : name = x.name
    · have hcontent : content.isSome := by
        rcases hvalue with rfl | hcontent
        · rw [hname, hheld] at hbefore
          cases hbefore
        · exact hcontent
      exact ⟨content, by rw [hslots, if_pos hname], fun _ => hcontent⟩
    · exact ⟨before, by rw [hslots, if_neg hname, hbefore], id⟩
  · have hsame := h.visible .global (Ne.symm hframe)
    exact .of_eq (Option.some.inj hsame)

theorem Effect.lasts_global {i : Instruction} {m m' : Memory} (h : Effect i m m') :
    m.global.Lasts m'.global := by
  cases h with
  | createFrame _ hglobal | pushFrame _ hglobal | popFrame _ hglobal => exact .of_eq hglobal
  | declare _ _ hchange => exact hchange.lasts_global (.inl rfl)
  | assign _ _ hchange => exact hchange.lasts_global (.inr rfl)
  | other _ _ hsame => exact .of_eq hsame.global

namespace Machine

variable {is : List Instruction} {p : Program} {m : Machine}

section Runs

variable (h : Program.ofInstructions is = .ok p)

include h

/-- A step keeps all global variables, whether it succeeds or fails. -/
theorem lasts_of_step (m : Machine) :
    m.memory.global.Lasts (step p m).machine.memory.global := by
  cases hstep : step p m with
  | running m' =>
      obtain ⟨line, mid, hline, ⟨hexec, rfl⟩ | ⟨target, hexec, rfl⟩⟩ := step_running hstep
      · exact (effect_of_line h hline hexec).lasts_global
      · exact (effect_of_line h hline hexec).lasts_global
  | exited code m' =>
      obtain ⟨last, streams, hending, -, rfl⟩ := step_exited hstep
      exact .of_eq (congrArg Memory.global hending.memory_eq)
  | faulted f m' =>
      rcases step_faulted hstep with ⟨line, -, hfails, -⟩ |
        ⟨code, last, text, streams, hending, -, -, rfl⟩
      · exact .of_eq hfails.sameFrames.global
      · exact .of_eq (congrArg Memory.global hending.memory_eq)

/-- A run keeps them too, by induction on the steps. -/
theorem lasts_of_run (n : Nat) (m : Machine) :
    m.memory.global.Lasts (run p n m).machine.memory.global := by
  induction n generalizing m with
  | zero => exact .refl _
  | succ n ih =>
      have hfirst := lasts_of_step h m
      cases hstep : step p m with
      | running m' =>
          rw [hstep] at hfirst
          rw [run_succ_of_running hstep]
          exact hfirst.trans (ih m')
      | exited code m' =>
          rw [hstep] at hfirst
          rw [run_succ_of_stopped hstep Status.stopped_exited]
          exact hfirst
      | faulted f m' =>
          rw [hstep] at hfirst
          rw [run_succ_of_stopped hstep Status.stopped_faulted]
          exact hfirst

end Runs

/-- What lies between two moments of a run is a run of its own, unless the program has stopped. -/
theorem run_add (p : Program) (k n : Nat) (m : Machine) :
    (∃ m', run p k m = .running m' ∧ run p (k + n) m = run p n m') ∨
      run p (k + n) m = run p k m := by
  induction k generalizing m with
  | zero => exact .inl ⟨m, rfl, by rw [Nat.zero_add]⟩
  | succ k ih =>
      rw [Nat.add_right_comm]
      cases hstep : step p m with
      | running m' =>
          rw [run_succ_of_running hstep, run_succ_of_running hstep]
          exact ih m'
      | exited code m' =>
          have hstopped : (Status.exited code m').Stopped := Status.stopped_exited
          rw [run_succ_of_stopped hstep hstopped, run_succ_of_stopped hstep hstopped]
          exact .inr rfl
      | faulted f m' =>
          have hstopped : (Status.faulted f m').Stopped := Status.stopped_faulted
          rw [run_succ_of_stopped hstep hstopped, run_succ_of_stopped hstep hstopped]
          exact .inr rfl

/-- **The lifetime of variables.**  A step of an accepted program that does not fail, on whatever
machine, has the effect of its instruction on the frames: they are made, moved or dropped as a
whole; or a declaration adds its own name, which the frame did not hold, without a value; or the one
declared variable that the first operand names gets a value of the type that the opcode yields; or
all frames stay as they are.  So in every run, after any number of steps and at its end too, a
global variable that was declared is declared, and one that had a value has one. -/
theorem variable_lifetime (h : Program.ofInstructions is = .ok p) :
    (∀ m m' i, is[m.position]? = some i → Succeeds p m m' → Effect i m.memory m'.memory) ∧
    ∀ (start : Machine) (k n : Nat), k ≤ n →
      (run p k start).machine.memory.global.Lasts (run p n start).machine.memory.global := by
  refine ⟨fun m m' i hi hstep => effect_of_step h hi hstep, ?_⟩
  intro start k n hkn
  obtain ⟨more, rfl⟩ := Nat.exists_eq_add_of_le hkn
  rcases run_add p k more start with ⟨m, hm, hmore⟩ | hstopped
  · rw [hm, hmore]
    exact lasts_of_run h more m
  · rw [hstopped]
    exact .refl _

/-- Declares a global variable, reads it, and makes a frame. -/
def declareAndRead : List Instruction :=
  [⟨.defVar, [.variable ⟨.global, "x"⟩]⟩, ⟨.read, [.variable ⟨.global, "x"⟩, .type .int]⟩,
    ⟨.createFrame, []⟩]

/-- There is no input, so the variable becomes nil, which is a value: it has one at the end. -/
theorem variable_lifetime_declareAndRead :
    ∃ p m m', Program.ofInstructions declareAndRead = .ok p ∧ run p 1 {} = .running m ∧
      step p m = .running m' ∧
      Effect ⟨.read, [.variable ⟨.global, "x"⟩, .type .int]⟩ m.memory m'.memory ∧
      m'.memory.global.slot? "x" = some (some .nil) ∧
      ∃ held, (run p 9 {}).machine.memory.global.slot? "x" = some held ∧ held.isSome := by
  have hp : Program.ofInstructions declareAndRead = .ok _ := rfl
  obtain ⟨heffect, hlasts⟩ := variable_lifetime hp
  refine ⟨_, _, _, hp, rfl, rfl, heffect _ _ _ rfl (.inl rfl), rfl, ?_⟩
  obtain ⟨held, hheld, hvalue⟩ := hlasts {} 2 9 (by decide) "x" (some .nil) rfl
  exact ⟨held, hheld, hvalue rfl⟩

end Machine

end IppCode
