import IppCode.Proofs.Memory

/-!
# Access to variables

A variable is found again at each access: its frame is the global one, the top of the local
ones or the temporary one, whichever there is at that moment.

* Writing and looking up need the same of a variable, and fail alike (`write_eq_error_iff`).
* Writing and declaring both put a name into the visible frame of the variable
  (`write_eq_ok_iff`, `declare_eq_ok_iff`), and that changes nothing but what this variable holds:
  no other variable, no frame that is not visible and no stack (`changesOnly_put`).
* An operation that fails leaves the memory as it was, whichever it is (`keepsOnError_perform`).
-/

namespace IppCode

namespace Memory

variable {m m' : Memory} {x y : Variable} {f : Frame} {held content : Option Value} {e : ExecError}
  {v : Value}

/-! ## The visible frames -/

/-- A replaced frame is the visible one of its kind, and those of other kinds stay. -/
theorem frame?_setFrame {kind : FrameKind} (h : m.frame? kind = some f) (f' : Frame)
    (other : FrameKind) :
    (m.setFrame kind f').frame? other = if other = kind then some f' else m.frame? other := by
  cases kind with
  | global => cases other <;> rfl
  | «local» =>
      obtain ⟨below, hitems⟩ := List.head?_eq_some_iff.1 h
      cases other <;> simp [setFrame, frame?, Stack.setTop?, Stack.top?, hitems]
  | temporary =>
      have htemporary : m.temporary = some f := h
      cases other <;> simp [setFrame, frame?, htemporary]

theorem slot_eq_ok_iff :
    m.slot x = .ok held ↔ ∃ f, m.frame? x.frame = some f ∧ f.slot? x.name = some held := by
  unfold slot
  cases m.frame? x.frame with
  | none => simp
  | some f => cases hslot : f.slot? x.name <;> simp [hslot]

/-- What a variable holds depends on the visible frame of its kind only. -/
theorem slot_congr (h : m'.frame? x.frame = m.frame? x.frame) : m'.slot x = m.slot x := by
  rw [slot, h, slot]

/-! ## Putting a name into a visible frame -/

/-- The two memories differ in nothing but what a variable holds. -/
structure ChangesOnly (x : Variable) (m m' : Memory) : Prop where
  /-- Every other variable holds what it held, or is missing as before. -/
  slots : ∀ y, y ≠ x → m'.slot y = m.slot y
  global : x.frame ≠ .global → m'.global = m.global
  temporary : x.frame ≠ .temporary → m'.temporary = m.temporary
  locals : x.frame ≠ .local → m'.locals = m.locals
  /-- The local frames under the top one are the same in any case. -/
  below : m'.locals.items.tail = m.locals.items.tail
  data : m'.data = m.data
  calls : m'.calls = m.calls

theorem slot_put (h : m.frame? x.frame = some f) (content : Option Value) :
    (m.setFrame x.frame (f.put x.name content)).slot x = .ok content := by
  refine slot_eq_ok_iff.2 ⟨f.put x.name content, ?_, by simp⟩
  rw [frame?_setFrame h, if_pos rfl]

theorem slot_put_ne (h : m.frame? x.frame = some f) (content : Option Value) (hne : y ≠ x) :
    (m.setFrame x.frame (f.put x.name content)).slot y = m.slot y := by
  by_cases hframe : y.frame = x.frame
  -- in the frame of the variable it is another name
  · have hname : y.name ≠ x.name := fun hname => hne (by cases x; cases y; simp_all)
    rw [slot, frame?_setFrame h, if_pos hframe, slot, hframe, h]
    simp [hname]
  · exact slot_congr (by rw [frame?_setFrame h, if_neg hframe])

theorem tail_setFrame (kind : FrameKind) (f : Frame) :
    (m.setFrame kind f).locals.items.tail = m.locals.items.tail := by
  cases kind with
  | «local» => cases hitems : m.locals.items <;> simp [setFrame, Stack.setTop?, hitems]
  | global | temporary => rfl

theorem changesOnly_put (h : m.frame? x.frame = some f) (content : Option Value) :
    ChangesOnly x m (m.setFrame x.frame (f.put x.name content)) where
  slots y hne := slot_put_ne h content hne
  global hframe := by cases hx : x.frame <;> simp_all [setFrame]
  temporary hframe := by cases hx : x.frame <;> simp_all [setFrame]
  locals hframe := by cases hx : x.frame <;> simp_all [setFrame]
  below := tail_setFrame _ _
  data := by cases x.frame <;> rfl
  calls := setFrame_calls _ _

/-! ## Writing, declaring and reading -/

theorem exists_write_iff : (∃ m', m.write x content = .ok () m') ↔ ∃ held, m.slot x = .ok held := by
  simp only [write_eq_ok_iff, slot_eq_ok_iff]
  constructor
  · rintro ⟨m', f, hframe, ⟨held, hheld⟩, -⟩
    exact ⟨held, f, hframe, hheld⟩
  · rintro ⟨held, f, hframe, hheld⟩
    exact ⟨_, f, hframe, ⟨held, hheld⟩, rfl⟩

theorem exists_write_error_iff :
    (∃ m', m.write x content = .error e m') ↔ m.slot x = .error e := by
  simp only [write_eq_error_iff, exists_and_left, exists_eq, and_true]

theorem exists_declare_iff : (∃ m', m.declare x = .ok () m') ↔
    ∃ f, m.frame? x.frame = some f ∧ f.slot? x.name = none := by
  simp only [declare_eq_ok_iff]
  constructor
  · rintro ⟨m', f, hframe, hnone, -⟩
    exact ⟨f, hframe, hnone⟩
  · rintro ⟨f, hframe, hnone⟩
    exact ⟨_, f, hframe, hnone, rfl⟩

theorem read_eq_ok_iff : m.read x = .ok v ↔ m.slot x = .ok (some v) := by
  unfold read
  rcases m.slot x with _ | (_ | _) <;> simp

/-- What has been written is read. -/
theorem read_of_write (h : m.write x (some v) = .ok () m') : m'.read x = .ok v := by
  obtain ⟨f, hframe, -, rfl⟩ := write_eq_ok_iff.1 h
  exact read_eq_ok_iff.2 (slot_put hframe (some v))

theorem read_eq_error_iff : m.read x = .error e ↔
    m.slot x = .error e ∨ (m.slot x = .ok none ∧ e = .missingValue (.uninitialized x)) := by
  unfold read
  rcases m.slot x with _ | (_ | _) <;> simp [eq_comm]

/-! ## All operations -/

/-- An operation of the memory with what it is given. -/
inductive Command where
  | slot (x : Variable)
  | read (x : Variable)
  | write (x : Variable) (content : Option Value)
  | declare (x : Variable)
  | createFrame
  | pushFrame
  | popFrame
  | pushValue (v : Value)
  | popValue
  | pushCall (position : Nat)
  | popCall
  | dump

/-- What an operation of the memory gives. -/
inductive Answer where
  | done
  | content (held : Option Value)
  | value (v : Value)
  | position (n : Nat)
  | text (s : String)

/-- Looks something up in the memory. -/
def look {α : Type} (f : Memory → Except ExecError α) : Action α := fun m =>
  match f m with
  | .ok a => .ok a m
  | .error e => .error e m

/-- Performs an operation of the memory. -/
def perform : Command → Action Answer
  | .slot x => .content <$> look fun m => m.slot x
  | .read x => .value <$> look fun m => m.read x
  | .write x content => (fun _ => .done) <$> write x content
  | .declare x => (fun _ => .done) <$> declare x
  | .createFrame => (fun _ => .done) <$> modify createFrame
  | .pushFrame => (fun _ => .done) <$> pushFrame
  | .popFrame => (fun _ => .done) <$> popFrame
  | .pushValue v => (fun _ => .done) <$> modify fun m => m.pushValue v
  | .popValue => .value <$> popValue
  | .pushCall position => (fun _ => .done) <$> modify fun m => m.pushCall position
  | .popCall => .position <$> popCall
  | .dump => (fun m => .text m.dump) <$> get

section KeepsOnError

variable {α β : Type} {act : Action α}

theorem map_eq_error_iff {f : α → β} : (f <$> act) m = .error e m' ↔ act m = .error e m' := by
  simp only [Functor.map, EStateM.map]
  cases act m <;> simp

theorem KeepsOnError.map (hact : KeepsOnError act) (f : α → β) : KeepsOnError (f <$> act) :=
  fun m e m' h => hact m e m' (map_eq_error_iff.1 h)

theorem keepsOnError_look (f : Memory → Except ExecError α) : KeepsOnError (look f) := by
  intro m e m' h
  unfold look at h
  split at h <;> cases h
  rfl

end KeepsOnError

/-- Each operation was looked at by itself; here they are all together. -/
theorem keepsOnError_perform (command : Command) : KeepsOnError (perform command) := by
  cases command with
  | slot | read => exact (keepsOnError_look _).map _
  | write x content => exact (keepsOnError_write x content).map _
  | declare x => exact (keepsOnError_declare x).map _
  | pushFrame => exact keepsOnError_pushFrame.map _
  | popFrame => exact keepsOnError_popFrame.map _
  | popValue => exact keepsOnError_popValue.map _
  | popCall => exact keepsOnError_popCall.map _
  | createFrame | pushValue | pushCall | dump =>
      -- these never fail
      intro m e m' h
      cases h

/-- **Access to variables**, on every memory.  Writing succeeds exactly if looking up does and
fails with the same error, and a variable then holds what was written.  Declaring succeeds exactly
if the visible frame of the variable, whatever is in the others, does not hold its name, and the
variable then holds nothing.  Both change this variable only.  Reading is looking up, except that
an uninitialized variable has no value.  And whichever operation of the memory fails, what it leaves
is the memory as it was. -/
theorem memory_access_laws (m : Memory) (x : Variable) (content : Option Value) :
    ((∃ m', m.write x content = .ok () m') ↔ ∃ held, m.slot x = .ok held) ∧
    (∀ e, (∃ m', m.write x content = .error e m') ↔ m.slot x = .error e) ∧
    (∀ m', m.write x content = .ok () m' → m'.slot x = .ok content ∧ ChangesOnly x m m') ∧
    ((∃ m', m.declare x = .ok () m') ↔ ∃ f, m.frame? x.frame = some f ∧ f.slot? x.name = none) ∧
    (∀ m', m.declare x = .ok () m' → m'.slot x = .ok none ∧ ChangesOnly x m m') ∧
    (∀ v, m.read x = .ok v ↔ m.slot x = .ok (some v)) ∧
    (∀ e, m.read x = .error e ↔
      m.slot x = .error e ∨ (m.slot x = .ok none ∧ e = .missingValue (.uninitialized x))) ∧
    ∀ (command : Command) (e : ExecError) (m' : Memory),
      perform command m = .error e m' → m' = m := by
  refine ⟨exists_write_iff, fun e => exists_write_error_iff, ?_, exists_declare_iff, ?_,
    fun v => read_eq_ok_iff, fun e => read_eq_error_iff, ?_⟩
  · intro m' h
    obtain ⟨f, hframe, -, rfl⟩ := write_eq_ok_iff.1 h
    exact ⟨slot_put hframe content, changesOnly_put hframe content⟩
  · intro m' h
    obtain ⟨f, hframe, -, rfl⟩ := declare_eq_ok_iff.1 h
    exact ⟨slot_put hframe none, changesOnly_put hframe none⟩
  · exact fun command e m' h => keepsOnError_perform command m e m' h

/-- One name in the global frame and in two local frames, all of them different variables. -/
def shadowed : Memory where
  global := (∅ : Frame).put "x" (some (.int 1))
  locals := ⟨[(∅ : Frame).put "x" none, (∅ : Frame).put "x" (some (.int 2))]⟩

/-- Writing the top local variable keeps the global one and the local frame below; and there is no
temporary frame to declare the name in, or to push.  A name that is declared once more, and a value
taken from an empty stack, leave everything as it was. -/
theorem memory_access_laws_shadowed :
    (∃ m', shadowed.write ⟨.local, "x"⟩ (some .nil) = .ok () m' ∧
      m'.slot ⟨.local, "x"⟩ = .ok (some .nil) ∧
      m'.slot ⟨.global, "x"⟩ = .ok (some (.int 1)) ∧
      m'.locals.items.tail = [(∅ : Frame).put "x" (some (.int 2))]) ∧
    (¬ ∃ m', shadowed.declare ⟨.temporary, "x"⟩ = .ok () m') ∧
    ∀ command ∈ [Command.pushFrame, .declare ⟨.local, "x"⟩, .popValue],
      ∃ e m', perform command shadowed = .error e m' ∧ m' = shadowed := by
  obtain ⟨-, -, hwrite, -⟩ := memory_access_laws shadowed ⟨.local, "x"⟩ (some .nil)
  obtain ⟨-, -, -, hdeclare, -, -, -, herror⟩ := memory_access_laws shadowed ⟨.temporary, "x"⟩ none
  refine ⟨⟨_, rfl, ?_⟩, ?_, ?_⟩
  · obtain ⟨hslot, hchanges⟩ := hwrite _ rfl
    exact ⟨hslot, hchanges.slots ⟨.global, "x"⟩ (by decide), hchanges.below⟩
  · rw [hdeclare]
    rintro ⟨f, hf, -⟩
    cases hf
  · simp only [List.forall_mem_cons, List.not_mem_nil, false_implies, implies_true, and_true]
    exact ⟨⟨_, _, rfl, herror .pushFrame _ _ rfl⟩,
      ⟨_, _, rfl, herror (.declare ⟨.local, "x"⟩) _ _ rfl⟩,
      ⟨_, _, rfl, herror .popValue _ _ rfl⟩⟩

end Memory

end IppCode
