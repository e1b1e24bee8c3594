import IppCode.Proofs.Renaming
import IppCode.Proofs.Runs
import Mathlib.Logic.Equiv.Basic

/-!
# Running a renamed program

A program and its renamed copy run in step.  Their memories hold the same under different names,
their positions, streams and stacks are equal (`Machine.Renames`), and every action keeps it that
way: what is read is the same, and an error on one side is an error of the same kind on the other
(`Machine.Respects`).  Local frames become temporary and temporary frames local, so both are
renamed by the same map.

Only the report of a whole machine shows names.  Without it nobody can tell the two runs apart
(`names_are_immaterial`).
-/

namespace IppCode

/-- Results that are alike, and go on with what they gave to results that are alike, are alike in
the end. -/
theorem Alike.bind {ε α γ δ : Type} {E : ε → ε → Prop} {S : γ → δ → Prop} {x y : Except ε α}
    {f : α → Except ε γ} {g : α → Except ε δ} (h : Alike E Eq x y)
    (hnext : ∀ a, Alike E S (f a) (g a)) : Alike E S (x >>= f) (y >>= g) := by
  cases h with
  | @ok a b hab =>
      subst hab
      exact hnext a
  | error he => exact .error he

theorem alike_refl {α : Type} (x : Except ExecError α) : Alike ExecError.SameKind Eq x x := by
  cases x with
  | ok a => exact .ok rfl
  | error e => exact .error rfl

/-- Two computations with a state have the same outcome: they give the same, or they fail with
errors of the same kind, and either way the states they leave are related. -/
inductive SameOutcome {σ α : Type} (R : σ → σ → Prop) :
    EStateM.Result ExecError σ α → EStateM.Result ExecError σ α → Prop
  | ok {a : α} {s s' : σ} (h : R s s') : SameOutcome R (.ok a s) (.ok a s')
  | error {e e' : ExecError} {s s' : σ} (hkind : e.SameKind e') (h : R s s') :
      SameOutcome R (.error e s) (.error e' s')

/-! ## Memories -/

/-- In the second frame everything is found under its new name. -/
def Frame.Renames (g : String → String) (f f' : Frame) : Prop :=
  f.slots.Renames g f'.slots

/-- The memory under new names.  The stacks hold no names. -/
structure Memory.Renames (ρ : Renaming) (m m' : Memory) : Prop where
  global : m.global.Renames ρ.global m'.global
  locals : List.Forall₂ (Frame.Renames ρ.movable) m.locals.items m'.locals.items
  temporary : Option.Rel (Frame.Renames ρ.movable) m.temporary m'.temporary
  data : m'.data = m.data
  calls : m'.calls = m.calls

theorem Memory.renames_empty (ρ : Renaming) : Memory.Renames ρ {} {} :=
  ⟨Table.Renames.empty, .nil, .none, rfl, rfl⟩

namespace Memory.Renames

variable {ρ : Renaming} {m m' : Memory}

/-- A kind of frame is in sight in both memories or in neither.  The frames of a kind all have
their names changed by one map, wherever they lie on the stack. -/
theorem frame? (h : m.Renames ρ m') (kind : FrameKind) :
    Option.Rel (Frame.Renames (ρ.inFrame kind)) (m.frame? kind) (m'.frame? kind) := by
  cases kind with
  | global => exact .some h.global
  | «local» =>
      obtain ⟨_, ⟨items⟩, _, _, _⟩ := m
      obtain ⟨_, ⟨items'⟩, _, _, _⟩ := m'
      obtain ⟨-, hlocals, -⟩ := h
      cases hlocals with
      | nil => exact .none
      | cons htop _ => exact .some htop
  | temporary => exact h.temporary

/-- Frames of one kind that correspond can take the place of those in sight. -/
theorem setFrame (h : m.Renames ρ m') {kind : FrameKind} {f f' : Frame}
    (hf : f.Renames (ρ.inFrame kind) f') : (m.setFrame kind f).Renames ρ (m'.setFrame kind f') := by
  obtain ⟨_, ⟨items⟩, _, _, _⟩ := m
  obtain ⟨_, ⟨items'⟩, _, _, _⟩ := m'
  obtain ⟨hglobal, hlocals, htemporary, hdata, hcalls⟩ := h
  cases kind with
  | global => exact ⟨hf, hlocals, htemporary, hdata, hcalls⟩
  | «local» =>
      refine ⟨hglobal, ?_, htemporary, hdata, hcalls⟩
      cases hlocals with
      | nil => exact .nil
      | cons _ hbelow => exact .cons hf hbelow
  | temporary =>
      refine ⟨hglobal, hlocals, ?_, hdata, hcalls⟩
      cases htemporary with
      | none => exact .none
      | some _ => exact .some hf

/-! ## What the operations of the memory give -/

variable (x : Variable)

/-- The frame of a variable is missing in both memories, or it is there in both and holds the
same of the variable. -/
theorem frame_cases (h : m.Renames ρ m') :
    (m.frame? x.frame = none ∧ m'.frame? (x.rename ρ).frame = none) ∨
      ∃ f f', m.frame? x.frame = some f ∧ m'.frame? (x.rename ρ).frame = some f' ∧
        f.Renames (ρ.inFrame x.frame) f' ∧ f'.slot? (x.rename ρ).name = f.slot? x.name := by
  -- renaming leaves the kind of the frame as it is
  have hframe := h.frame? x.frame
  change Option.Rel _ _ (m'.frame? (x.rename ρ).frame) at hframe
  generalize m.frame? x.frame = found at hframe
  generalize m'.frame? (x.rename ρ).frame = found' at hframe
  cases hframe with
  | none => exact .inl ⟨rfl, rfl⟩
  | some hf => exact .inr ⟨_, _, rfl, rfl, hf, hf x.name⟩

/-- What a variable holds is found under its new name, and what is wrong with it is wrong there too.
-/
theorem slot (h : m.Renames ρ m') :
    Alike ExecError.SameKind Eq (m.slot x) (m'.slot (x.rename ρ)) := by
  rw [Memory.slot, Memory.slot]
  rcases h.frame_cases x with ⟨hnone, hnone'⟩ | ⟨f, f', hf, hf', -, hslot⟩
  · rw [hnone, hnone']
    exact .error rfl
  · rw [hf, hf']
    simp only [hslot]
    cases f.slot? x.name with
    | none => exact .error rfl
    | some content => exact .ok rfl

theorem read (h : m.Renames ρ m') :
    Alike ExecError.SameKind Eq (m.read x) (m'.read (x.rename ρ)) := by
  have hslot := h.slot x
  rw [Memory.read, Memory.read]
  generalize m.slot x = found at hslot
  generalize m'.slot (x.rename ρ) = found' at hslot
  cases hslot with
  | error hkind => exact .error hkind
  | @ok content _ hsame =>
      subst hsame
      cases content with
      | none => exact .error rfl
      | some v => exact .ok rfl

/-- Writing to a variable and to its new name has the same outcome: the frame that takes the
content, if there is one, corresponds to the frame on the other side afterwards as before. -/
theorem write (h : m.Renames ρ m') (content : Option Value) :
    SameOutcome (Memory.Renames ρ) (m.write x content) (m'.write (x.rename ρ) content) := by
  rw [write_eq, write_eq]
  rcases h.frame_cases x with ⟨hnone, hnone'⟩ | ⟨f, f', hf, hf', hrenames, hslot⟩
  · rw [hnone, hnone']
    exact .error rfl h
  · rw [hf, hf']
    simp only [hslot]
    cases f.slot? x.name with
    | none => exact .error rfl h
    | some _ =>
        -- no other name of the frame becomes the new name, so only this one is overwritten
        exact .ok (h.setFrame (hrenames.insert (ρ.inFrame_injective x.frame) x.name content))

theorem declare (h : m.Renames ρ m') :
    SameOutcome (Memory.Renames ρ) (m.declare x) (m'.declare (x.rename ρ)) := by
  rw [declare_eq, declare_eq]
  rcases h.frame_cases x with ⟨hnone, hnone'⟩ | ⟨f, f', hf, hf', hrenames, hslot⟩
  · rw [hnone, hnone']
    exact .error rfl h
  · rw [hf, hf']
    simp only [hslot]
    cases f.slot? x.name with
    | none => exact .ok (h.setFrame (hrenames.insert (ρ.inFrame_injective x.frame) x.name none))
    | some _ => exact .error rfl h

theorem createFrame (h : m.Renames ρ m') : m.createFrame.Renames ρ m'.createFrame :=
  { h with temporary := .some Table.Renames.empty }

/-- The temporary frame becomes a local one on both sides.  Its names need no second change, since
one map serves both kinds. -/
theorem pushFrame (h : m.Renames ρ m') :
    SameOutcome (Memory.Renames ρ) m.pushFrame m'.pushFrame := by
  have htemporary := h.temporary
  rw [pushFrame_eq, pushFrame_eq]
  generalize hfound : m.temporary = found at htemporary
  generalize hfound' : m'.temporary = found' at htemporary
  cases htemporary with
  | none => exact .error rfl h
  | some hf => exact .ok { h with locals := .cons hf h.locals, temporary := .none }

/-- The top local frame becomes the temporary one on both sides. -/
theorem popFrame (h : m.Renames ρ m') : SameOutcome (Memory.Renames ρ) m.popFrame m'.popFrame := by
  have hlocals := h.locals
  rw [popFrame_eq, popFrame_eq, Stack.pop?, Stack.pop?]
  generalize m.locals.items = items at hlocals
  generalize m'.locals.items = items' at hlocals
  cases hlocals with
  | nil => exact .error rfl h
  | cons hf hbelow => exact .ok { h with locals := hbelow, temporary := .some hf }

theorem pushValue (h : m.Renames ρ m') (v : Value) : (m.pushValue v).Renames ρ (m'.pushValue v) :=
  { h with data := congrArg (Stack.push · v) h.data }

theorem pushCall (h : m.Renames ρ m') (n : Nat) : (m.pushCall n).Renames ρ (m'.pushCall n) :=
  { h with calls := congrArg (Stack.push · n) h.calls }

theorem popValue (h : m.Renames ρ m') : SameOutcome (Memory.Renames ρ) m.popValue m'.popValue := by
  rw [popValue_eq, popValue_eq, h.data]
  rcases m.data.pop? with _ | ⟨v, below⟩
  · exact .error rfl h
  · exact .ok { h with data := rfl }

theorem popCall (h : m.Renames ρ m') : SameOutcome (Memory.Renames ρ) m.popCall m'.popCall := by
  rw [popCall_eq, popCall_eq, h.calls]
  rcases m.calls.pop? with _ | ⟨position, below⟩
  · exact .error rfl h
  · exact .ok { h with calls := rfl }

end Memory.Renames

section Values

variable {ρ : Renaming} {m m' : Memory} (h : m.Renames ρ m')

include h

theorem Symbol.slot_rename (a : Symbol) :
    Alike ExecError.SameKind Eq (a.slot m) ((a.rename ρ).slot m') := by
  cases a with
  | «variable» x => exact h.slot x
  | constant v => exact .ok rfl

theorem Symbol.eval_rename (a : Symbol) :
    Alike ExecError.SameKind Eq (a.eval m) ((a.rename ρ).eval m') := by
  cases a with
  | «variable» x => exact h.read x
  | constant v => exact .ok rfl

/-- An expression has the same value on both sides.  What is computed from the values of its symbols
does not look at the memory again. -/
theorem Expr.eval_rename (e : Expr) :
    Alike ExecError.SameKind Eq (e.eval m) ((e.rename ρ).eval m') := by
  cases e with
  | copy a => exact a.eval_rename h
  | typeName a => exact (a.slot_rename h).bind fun _ => alike_refl _
  | unary f a => exact (a.eval_rename h).bind fun _ => alike_refl _
  | binary f a b =>
      exact (a.eval_rename h).bind fun _ => (b.eval_rename h).bind fun _ => alike_refl _
  | setChar x index replacement =>
      exact (h.read x).bind fun _ => (index.eval_rename h).bind fun _ =>
        (replacement.eval_rename h).bind fun _ => alike_refl _

end Values

/-! ## Actions -/

namespace Machine

/-- The machine under new names. -/
structure Renames (ρ : Renaming) (m m' : Machine) : Prop where
  memory : m.memory.Renames ρ m'.memory
  position : m'.position = m.position
  executed : m'.executed = m.executed
  streams : m'.streams = m.streams

/-- On a machine and on the same machine under new names the two actions have the same outcome. -/
def Respects (ρ : Renaming) {α : Type} (act act' : Action α) : Prop :=
  ∀ m m', m.Renames ρ m' → SameOutcome (Renames ρ) (act m) (act' m')

section Actions

variable {ρ : Renaming} {α β : Type}

theorem respects_pure (a : α) : Respects ρ (pure a) (pure a) :=
  fun _ _ h => .ok h

/-- Actions in sequence: whatever the first ones give, they give the same on both sides, and the
next ones take it up. -/
theorem Respects.bind {act act' : Action α} {next next' : α → Action β}
    (hact : Respects ρ act act') (hnext : ∀ a, Respects ρ (next a) (next' a)) :
    Respects ρ (act >>= next) (act' >>= next') := by
  intro m m' h
  have houtcome := hact m m' h
  simp only [Bind.bind, EStateM.bind]
  generalize act m = result at houtcome
  generalize act' m' = result' at houtcome
  cases houtcome with
  | ok hmid => exact hnext _ _ _ hmid
  | error hkind hmid => exact .error hkind hmid

theorem respects_inspect {f f' : Memory → Except ExecError α}
    (hf : ∀ m m', m.Renames ρ m' → Alike ExecError.SameKind Eq (f m) (f' m')) :
    Respects ρ (inspect f) (inspect f') := by
  intro m m' h
  have halike := hf _ _ h.memory
  rw [inspect, inspect]
  generalize f m.memory = x at halike
  generalize f' m'.memory = x' at halike
  cases halike with
  | @ok a b hab =>
      subst hab
      exact .ok h
  | error hkind => exact .error hkind h

/-- What the memories do alike the machines do alike: an operation that fails may have changed the
memory, but in the same way on both sides. -/
theorem respects_onMemory {act act' : Memory.Action α}
    (hact : ∀ m m', m.Renames ρ m' → SameOutcome (Memory.Renames ρ) (act m) (act' m')) :
    Respects ρ (onMemory act) (onMemory act') := by
  intro m m' h
  have houtcome := hact _ _ h.memory
  rw [onMemory, onMemory]
  generalize act m.memory = result at houtcome
  generalize act' m'.memory = result' at houtcome
  cases houtcome with
  | ok hmemory => exact .ok { h with memory := hmemory }
  | error hkind hmemory => exact .error hkind { h with memory := hmemory }

theorem respects_modify {f : Memory → Memory}
    (hf : ∀ m m', m.Renames ρ m' → (f m).Renames ρ (f m')) :
    Respects ρ (onMemory (modify f)) (onMemory (modify f)) :=
  respects_onMemory fun _ _ h => .ok (hf _ _ h)

/-- The streams are equal on both sides, so any work on them has the same outcome. -/
theorem respects_onStreams (act : EStateM String Streams α) :
    Respects ρ (onStreams act) (onStreams act) := by
  intro m m' h
  rw [onStreams, onStreams, h.streams]
  cases act m.streams with
  | ok a streams => exact .ok { h with streams := rfl }
  | error text streams => exact .error rfl { h with streams := rfl }

theorem respects_assign (x : Variable) (v : Value) :
    Respects ρ (assign x v) (assign (x.rename ρ) v) :=
  respects_onMemory fun _ _ h => h.write x (some v)

/-- A call depends on the position, which no name changes. -/
theorem respects_call (target : Nat) :
    Respects ρ (execute (.call target)) (execute (.call target)) := by
  intro m m' h
  rw [Executes.call.execute_eq, Executes.call.execute_eq, h.position]
  exact .ok { h with memory := h.memory.pushCall _, position := rfl }

/-- Every operation but the report of the machine respects new names. -/
theorem respects_execute {op : Operation Nat} (hdump : op ≠ .dump) :
    Respects ρ (execute op) (execute (op.rename ρ id)) := by
  have hsymbol : ∀ a : Symbol, Respects ρ (inspect a.eval) (inspect (a.rename ρ).eval) := fun a =>
    respects_inspect fun _ _ h => a.eval_rename h
  cases op with
  | assign x e =>
      exact (respects_inspect fun _ _ h => e.eval_rename h).bind fun v =>
        (respects_assign x v).bind fun _ => respects_pure _
  | createFrame =>
      exact (respects_modify fun _ _ h => h.createFrame).bind fun _ => respects_pure _
  | pushFrame =>
      exact (respects_onMemory fun _ _ h => h.pushFrame).bind fun _ => respects_pure _
  | popFrame =>
      exact (respects_onMemory fun _ _ h => h.popFrame).bind fun _ => respects_pure _
  | declare x =>
      exact (respects_onMemory fun _ _ h => h.declare x).bind fun _ => respects_pure _
  | call target => exact respects_call target
  | «return» =>
      exact (respects_onMemory fun _ _ h => h.popCall).bind fun _ => respects_pure _
  | push a =>
      exact (hsymbol a).bind fun v =>
        (respects_modify fun _ _ h => h.pushValue v).bind fun _ => respects_pure _
  | pop x =>
      exact (respects_onMemory fun _ _ h => h.popValue).bind fun v =>
        (respects_assign x v).bind fun _ => respects_pure _
  | read x type =>
      exact (respects_onStreams _).bind fun v =>
        (respects_assign x v).bind fun _ => respects_pure _
  | write a =>
      exact (hsymbol a).bind fun v => (respects_onStreams _).bind fun _ => respects_pure _
  | label name => exact respects_pure _
  | jump target => exact respects_pure _
  | jumpIf equal target a b =>
      exact (hsymbol a).bind fun v => (hsymbol b).bind fun w =>
        (respects_inspect fun _ _ _ => alike_refl _).bind fun _ => respects_pure _
  | exit a =>
      exact (hsymbol a).bind fun v =>
        (respects_inspect fun _ _ _ => alike_refl _).bind fun _ => respects_pure _
  | print a =>
      exact (hsymbol a).bind fun v => (respects_onStreams _).bind fun _ => respects_pure _
  | dump => exact absurd rfl hdump

end Actions

end Machine

/-! ## Runs -/

/-- Two programs have come equally far: both go on, both have ended with the same exit code, or both
have failed with an error of the same kind at the same place.  The machines are the same under new
names, with the same streams. -/
inductive Status.Renames (ρ : Renaming) : Status → Status → Prop
  | running {m m' : Machine} (h : m.Renames ρ m') : Renames ρ (.running m) (.running m')
  | exited {code : Nat} {m m' : Machine} (h : m.Renames ρ m') :
      Renames ρ (.exited code m) (.exited code m')
  | faulted {f f' : Fault} {m m' : Machine} (hfault : f.SameKind f') (h : m.Renames ρ m') :
      Renames ρ (.faulted f m) (.faulted f' m')

namespace Machine

variable {ρ : Renaming} {m m' : Machine}

/-- The flush at the end is the same on both sides, since the streams are. -/
theorem renames_finish (h : m.Renames ρ m') (code : Nat) :
    (finish code m).Renames ρ (finish code m') := by
  have houtcome := respects_onStreams (Streams.flush .output) m m' h
  unfold finish
  generalize onStreams (Streams.flush .output) m = result at houtcome
  generalize onStreams (Streams.flush .output) m' = result' at houtcome
  cases houtcome with
  | ok hlast => exact .exited hlast
  | error hkind hlast => exact .faulted ⟨hkind, rfl⟩ hlast

theorem renames_proceed (h : m.Renames ρ m') (flow : Flow) :
    (proceed flow m).Renames ρ (proceed flow m') := by
  have hexecuted : m'.executed + 1 = m.executed + 1 := by rw [h.executed]
  cases flow with
  | next =>
      have hposition : m'.position + 1 = m.position + 1 := by rw [h.position]
      exact .running { h with position := hposition, executed := hexecuted }
  | jump target => exact .running { h with position := rfl, executed := hexecuted }
  | exit code =>
      have hlast : Renames ρ { m with executed := m.executed + 1 }
          { m' with executed := m'.executed + 1 } := { h with executed := hexecuted }
      exact renames_finish hlast code

section Programs

variable {is : List Instruction} {p p' : Program} (hp : Program.ofInstructions is = .ok p)
  (hp' : Program.ofInstructions (is.map (Instruction.rename ρ)) = .ok p')
  (hbreak : ∀ i ∈ is, i.opcode ≠ .break)

include hp hp' hbreak

/-- One step: the lines at the position are those of an instruction and of its renamed copy. -/
theorem renames_step (h : m.Renames ρ m') : (step p m).Renames ρ (step p' m') := by
  rw [step, step, h.position]
  cases hline : p.lines[m.position]? with
  | none =>
      rw [line_rename_eq_none ρ hp hp' hline]
      exact renames_finish h 0
  | some line =>
      rw [line_rename ρ hp hp' hline]
      obtain ⟨hget, hlink⟩ := Program.line_of_getElem? hp hline
      -- the one operation that shows names does not occur
      have hdump : line.operation ≠ .dump := by
        intro hop
        have hopcode := Instruction.opcode_of_link hlink
        rw [hop] at hopcode
        exact hbreak _ (List.mem_of_getElem? hget) hopcode.symm
      have houtcome := respects_execute hdump m m' h
      dsimp only
      generalize execute line.operation m = result at houtcome
      generalize execute (line.operation.rename ρ id) m' = result' at houtcome
      cases houtcome with
      | ok hmid => exact renames_proceed hmid _
      | error hkind hlast => exact .faulted ⟨hkind, rfl⟩ hlast

/-- A run, by induction on the number of steps.  Both programs stop in the same step, if at all. -/
theorem renames_run (n : Nat) (h : m.Renames ρ m') : (run p n m).Renames ρ (run p' n m') := by
  induction n generalizing m m' with
  | zero => exact .running h
  | succ n ih =>
      have hstep := renames_step hp hp' hbreak h
      rw [run, run]
      generalize step p m = next at hstep
      generalize step p' m' = next' at hstep
      cases hstep with
      | running hnext => exact ih hnext
      | exited hlast => exact .exited hlast
      | faulted hfault hlast => exact .faulted hfault hlast

end Programs

end Machine

/-- Names are immaterial.  A program is accepted exactly if the renamed one is; otherwise both are
refused with an error of the same kind at the same place.  If no instruction reports the machine,
then the two programs, started on the same streams, come equally far in any number of steps. -/
theorem names_are_immaterial (ρ : Renaming) (is : List Instruction) :
    Alike Fault.SameKind
      (fun p p' => (∀ i ∈ is, i.opcode ≠ .break) → ∀ (streams : Streams) (n : Nat),
        (Machine.run p n { streams }).Renames ρ (Machine.run p' n { streams }))
      (Program.ofInstructions is) (Program.ofInstructions (is.map (Instruction.rename ρ))) := by
  have hcheck := check_rename ρ is
  generalize hleft : check is = left at hcheck
  generalize hright : check (is.map (Instruction.rename ρ)) = right at hcheck
  cases hcheck with
  | error hfault =>
      rw [Program.ofInstructions_eq_error_iff.2 hleft, Program.ofInstructions_eq_error_iff.2 hright]
      exact .error hfault
  | ok _ =>
      obtain ⟨p, hp⟩ := Program.exists_ofInstructions hleft
      obtain ⟨p', hp'⟩ := Program.exists_ofInstructions hright
      rw [hp, hp']
      refine .ok fun hbreak streams n => Machine.renames_run hp hp' hbreak n ?_
      exact ⟨Memory.renames_empty ρ, rfl, rfl, rfl⟩

/-- Exchanges the labels `a` and `b`, and so the variables of local and temporary frames. -/
def Renaming.swapped : Renaming where
  label := Equiv.swap "a" "b"
  global := id
  movable := Equiv.swap "a" "b"
  label_injective := Equiv.injective _
  global_injective := Function.injective_id
  movable_injective := Equiv.injective _

/-- Fills one of two variables and writes it when its frame is local; the other one is read when
the frame is temporary again. -/
def travelling : List Instruction :=
  [⟨.createFrame, []⟩,
    ⟨.defVar, [.variable ⟨.temporary, "a"⟩]⟩,
    ⟨.defVar, [.variable ⟨.temporary, "b"⟩]⟩,
    ⟨.move, [.variable ⟨.temporary, "a"⟩, .constant ⟨.int, "7"⟩]⟩,
    ⟨.pushFrame, []⟩,
    ⟨.jump, [.label "a"]⟩,
    declaration "b",
    ⟨.popFrame, []⟩,
    ⟨.write, [.variable ⟨.temporary, "b"⟩]⟩,
    declaration "a",
    ⟨.write, [.variable ⟨.local, "a"⟩]⟩,
    ⟨.jump, [.label "b"]⟩]

/-- The renamed program reads `TF@a` in vain where the program reads `TF@b`.  These are two errors,
of one kind. -/
theorem names_are_immaterial_travelling :
    ∃ p p' last last', Program.ofInstructions travelling = .ok p ∧
      Program.ofInstructions (travelling.map (Instruction.rename .swapped)) = .ok p' ∧
      Machine.run p 12 {} =
        .faulted ⟨.missingValue (.uninitialized ⟨.temporary, "b"⟩), some (8, .write)⟩ last ∧
      Machine.run p' 12 {} =
        .faulted ⟨.missingValue (.uninitialized ⟨.temporary, "a"⟩), some (8, .write)⟩ last' ∧
      last.streams.written .output = Text.Utf8.encode "7" ∧ last'.streams = last.streams := by
  obtain ⟨p, hp, last, hlast, hwritten⟩ : ∃ p, Program.ofInstructions travelling = .ok p ∧
      ∃ last, Machine.run p 12 {} =
        .faulted ⟨.missingValue (.uninitialized ⟨.temporary, "b"⟩), some (8, .write)⟩ last ∧
      last.streams.written .output = Text.Utf8.encode "7" := ⟨_, rfl, _, rfl, rfl⟩
  obtain ⟨p', hp', last', hlast'⟩ :
      ∃ p', Program.ofInstructions (travelling.map (Instruction.rename .swapped)) = .ok p' ∧
      ∃ last', Machine.run p' 12 {} =
        .faulted ⟨.missingValue (.uninitialized ⟨.temporary, "a"⟩), some (8, .write)⟩ last' :=
    ⟨_, rfl, _, rfl⟩
  have halike := names_are_immaterial .swapped travelling
  rw [hp, hp'] at halike
  cases halike with
  | ok hruns =>
      have hrun := hruns (by decide) {} 12
      rw [hlast, hlast'] at hrun
      cases hrun with
      | faulted _ h => exact ⟨p, p', last, last', hp, hp', hlast, hlast', hwritten, h.streams⟩

end IppCode
