import IppCode.Memory

/-!
# What the operations of the memory do

Operations change the memory step by step, and one that fails leaves whatever it has made of it.
For each of them one equation says what comes of all its steps (`write_eq`, `declare_eq`,
`pushFrame_eq`, `popFrame_eq`, `popValue_eq`, `popCall_eq`).  By these equations

* an operation that fails leaves the memory as it was (`KeepsOnError`): what is taken from an empty
  stack or from where no frame is leaves nothing behind, and a frame in which a name is missing, or
  declared already, is put back unchanged;
* accesses to variables fail for want of a frame, of the variable, or of its value, and leave both
  stacks alone.
-/

namespace IppCode

/-! ## One frame -/

namespace Frame

variable {f : Frame} {name other : String} {held content : Option Value}

/-- The frame in which a name holds something, be it declared before or not. -/
def put (f : Frame) (name : String) (content : Option Value) : Frame :=
  ⟨f.slots.insert name content⟩

@[simp] theorem slot?_put : (f.put name content).slot? other =
    if other = name then some content else f.slot? other :=
  Table.find?_insert f.slots name content other

theorem store_of_some (h : f.slot? name = some held) :
    f.store name content = (true, f.put name content) := by
  simp only [store, h, put]

/-- A frame without the variable refuses the value and stays as it is. -/
theorem store_of_none (h : f.slot? name = none) : f.store name content = (false, f) := by
  simp only [store, h]

/-- A variable that is there is not declared once more, whether it has a value or not. -/
theorem declare_of_some (h : f.slot? name = some held) :
    f.declare name = (.error (.redefinition name), f) := by
  simp only [declare, h]

theorem declare_of_none (h : f.slot? name = none) : f.declare name = (.ok (), f.put name none) := by
  simp only [declare, h, put]

end Frame

namespace Memory

variable {m m' : Memory} {x : Variable} {f : Frame} {content : Option Value} {e : ExecError}

/-! ## Variables -/

/-- A variable is not found for its frame or for its name. -/
theorem slot_eq_error (h : m.slot x = .error e) :
    e = .noSuchFrame x.frame ∨ e = .noSuchVariable x := by
  unfold slot at h
  split at h
  · cases h
    exact .inl rfl
  · split at h
    · cases h
      exact .inr rfl
    · cases h

/-- A variable is not read for one of three reasons. -/
theorem read_eq_error (h : m.read x = .error e) :
    e = .noSuchFrame x.frame ∨ e = .noSuchVariable x ∨ e = .missingValue (.uninitialized x) := by
  unfold read at h
  split at h
  · rename_i hslot
    cases h
    exact (slot_eq_error hslot).imp_right .inl
  · cases h
    exact .inr (.inr rfl)
  · cases h

/-- A visible frame put in its own place changes nothing. -/
theorem setFrame_self {kind : FrameKind} (h : m.frame? kind = some f) : m.setFrame kind f = m := by
  obtain ⟨global, ⟨locals⟩, temporary, data, calls⟩ := m
  cases kind with
  | global =>
      cases h
      rfl
  | «local» =>
      obtain ⟨below, rfl⟩ := List.head?_eq_some_iff.1 h
      rfl
  | temporary =>
      obtain rfl : temporary = some f := h
      rfl

/-- What comes of work on a frame in sight: the frame takes the place of the one there was. -/
theorem onFrame_of_some {α : Type} {kind : FrameKind} (h : m.frame? kind = some f)
    (act : StateM Frame α) : onFrame kind act m = .ok (act f).1 (m.setFrame kind (act f).2) := by
  simp only [onFrame, h]
  rfl

theorem onFrame_of_none {α : Type} {kind : FrameKind} (h : m.frame? kind = none)
    (act : StateM Frame α) : onFrame kind act m = .error (.noSuchFrame kind) m := by
  simp only [onFrame, h]

/-- An assignment as one decision over the frame and the slot that it meets. -/
theorem write_eq (m : Memory) (x : Variable) (content : Option Value) :
    m.write x content = match m.frame? x.frame with
      | none => .error (.noSuchFrame x.frame) m
      | some f =>
        match f.slot? x.name with
        | none => .error (.noSuchVariable x) m
        | some _ => .ok () (m.setFrame x.frame (f.put x.name content)) := by
  simp only [write, bind, EStateM.bind]
  cases hframe : m.frame? x.frame with
  | none => rw [onFrame_of_none hframe]
  | some f =>
      rw [onFrame_of_some hframe]
      cases hslot : f.slot? x.name with
      | none =>
          -- the frame that is put back is the one that was there
          simp only [hslot, Frame.store_of_none hslot, setFrame_self hframe]
          rfl
      | some held =>
          simp only [hslot, Frame.store_of_some hslot]
          rfl

/-- A declaration as one decision over the frame and the slot that it meets. -/
theorem declare_eq (m : Memory) (x : Variable) :
    m.declare x = match m.frame? x.frame with
      | none => .error (.noSuchFrame x.frame) m
      | some f =>
        match f.slot? x.name with
        | none => .ok () (m.setFrame x.frame (f.put x.name none))
        | some _ => .error (.redefinition x.render) m := by
  simp only [declare, bind, EStateM.bind]
  cases hframe : m.frame? x.frame with
  | none => rw [onFrame_of_none hframe]
  | some f =>
      rw [onFrame_of_some hframe]
      cases hslot : f.slot? x.name with
      | none =>
          simp only [hslot, Frame.declare_of_none hslot]
          rfl
      | some held =>
          simp only [hslot, Frame.declare_of_some hslot, setFrame_self hframe]
          rfl

/-- A write puts a name into the visible frame of its variable, if it is declared there. -/
theorem write_eq_ok_iff : m.write x content = .ok () m' ↔
    ∃ f, m.frame? x.frame = some f ∧ (∃ held, f.slot? x.name = some held) ∧
      m' = m.setFrame x.frame (f.put x.name content) := by
  rw [write_eq]
  cases m.frame? x.frame with
  | none => simp
  | some f => cases hslot : f.slot? x.name <;> simp [hslot, eq_comm]

/-- A declaration puts a name into the visible frame of its variable, if it is not there yet. -/
theorem declare_eq_ok_iff : m.declare x = .ok () m' ↔
    ∃ f, m.frame? x.frame = some f ∧ f.slot? x.name = none ∧
      m' = m.setFrame x.frame (f.put x.name none) := by
  rw [declare_eq]
  cases m.frame? x.frame with
  | none => simp
  | some f => cases hslot : f.slot? x.name <;> simp [hslot, eq_comm]

/-- Writing fails exactly as looking up does, and leaves the memory as it was. -/
theorem write_eq_error_iff : m.write x content = .error e m' ↔ m.slot x = .error e ∧ m' = m := by
  rw [write_eq, slot]
  cases m.frame? x.frame with
  | none => simp [eq_comm]
  | some f => cases hslot : f.slot? x.name <;> simp [hslot, eq_comm]

theorem write_eq_error (h : m.write x content = .error e m') :
    e = .noSuchFrame x.frame ∨ e = .noSuchVariable x :=
  slot_eq_error (write_eq_error_iff.1 h).1

theorem declare_eq_error (h : m.declare x = .error e m') :
    (e = .noSuchFrame x.frame ∨ e = .redefinition x.render) ∧ m' = m := by
  rw [declare_eq] at h
  split at h
  · cases h
    exact ⟨.inl rfl, rfl⟩
  · split at h
    · cases h
    · cases h
      exact ⟨.inr rfl, rfl⟩

/-! ## Frames -/

/-- The temporary frame moves on top of the local ones. -/
theorem pushFrame_eq (m : Memory) :
    m.pushFrame = match m.temporary with
      | none => .error (.noSuchFrame .temporary) m
      | some f => .ok () { m with locals := m.locals.push f, temporary := none } := by
  obtain ⟨global, locals, temporary, data, calls⟩ := m
  cases temporary <;> rfl

/-- The topmost local frame becomes the temporary one, and the old temporary frame is lost. -/
theorem popFrame_eq (m : Memory) :
    m.popFrame = match m.locals.pop? with
      | none => .error (.noSuchFrame .local) m
      | some (f, below) => .ok () { m with locals := below, temporary := some f } := by
  obtain ⟨global, ⟨locals⟩, temporary, data, calls⟩ := m
  cases locals <;> rfl

theorem pushFrame_eq_ok (h : m.pushFrame = .ok () m') :
    ∃ f, m.temporary = some f ∧ m' = { m with locals := m.locals.push f, temporary := none } := by
  rw [pushFrame_eq] at h
  split at h
  · cases h
  · rename_i f htemporary
    cases h
    exact ⟨f, htemporary, rfl⟩

theorem pushFrame_eq_error (h : m.pushFrame = .error e m') :
    e = .noSuchFrame .temporary ∧ m' = m := by
  rw [pushFrame_eq] at h
  split at h <;> cases h
  exact ⟨rfl, rfl⟩

theorem popFrame_eq_ok (h : m.popFrame = .ok () m') :
    ∃ f below, m.locals.pop? = some (f, below) ∧
      m' = { m with locals := below, temporary := some f } := by
  rw [popFrame_eq] at h
  split at h
  · cases h
  · rename_i f below hpop
    cases h
    exact ⟨f, below, hpop, rfl⟩

theorem popFrame_eq_error (h : m.popFrame = .error e m') : e = .noSuchFrame .local ∧ m' = m := by
  rw [popFrame_eq] at h
  split at h <;> cases h
  exact ⟨rfl, rfl⟩

/-! ## Stacks -/

theorem popValue_eq (m : Memory) :
    m.popValue = match m.data.pop? with
      | none => .error (.missingValue .dataStack) m
      | some (v, below) => .ok v { m with data := below } := by
  obtain ⟨global, locals, temporary, ⟨data⟩, calls⟩ := m
  cases data <;> rfl

/-- The return position on top is the one that is returned to. -/
theorem popCall_eq (m : Memory) :
    m.popCall = match m.calls.pop? with
      | none => .error (.missingValue .callStack) m
      | some (position, below) => .ok position { m with calls := below } := by
  obtain ⟨global, locals, temporary, data, ⟨calls⟩⟩ := m
  cases calls <;> rfl

theorem popValue_eq_ok {v : Value} (h : m.popValue = .ok v m') :
    ∃ below, m.data.pop? = some (v, below) ∧ m' = { m with data := below } := by
  rw [popValue_eq] at h
  split at h
  · cases h
  · rename_i below hpop
    cases h
    exact ⟨_, hpop, rfl⟩

theorem popValue_eq_error (h : m.popValue = .error e m') :
    e = .missingValue .dataStack ∧ m' = m := by
  rw [popValue_eq] at h
  split at h <;> cases h
  exact ⟨rfl, rfl⟩

theorem popCall_of_nil (h : m.calls.items = []) :
    m.popCall = .error (.missingValue .callStack) m := by
  rw [popCall_eq, Stack.pop?, h]

theorem popCall_of_cons {position : Nat} {below : List Nat}
    (h : m.calls.items = position :: below) :
    m.popCall = .ok position { m with calls := ⟨below⟩ } := by
  rw [popCall_eq, Stack.pop?, h]

theorem popCall_eq_ok {position : Nat} (h : m.popCall = .ok position m') :
    ∃ below, m.calls.pop? = some (position, below) ∧ m' = { m with calls := below } := by
  rw [popCall_eq] at h
  split at h
  · cases h
  · rename_i below hpop
    cases h
    exact ⟨_, hpop, rfl⟩

theorem popCall_eq_error (h : m.popCall = .error e m') :
    e = .missingValue .callStack ∧ m' = m := by
  rw [popCall_eq] at h
  split at h <;> cases h
  exact ⟨rfl, rfl⟩

/-! ## Failure -/

/-- An operation that fails leaves the memory as it was. -/
def KeepsOnError {α : Type} (act : Action α) : Prop :=
  ∀ m e m', act m = .error e m' → m' = m

/-- A refused assignment leaves the memory as it was. -/
theorem keepsOnError_write (x : Variable) (content : Option Value) :
    KeepsOnError (write x content) :=
  fun _ _ _ h => (write_eq_error_iff.1 h).2

theorem keepsOnError_declare (x : Variable) : KeepsOnError (declare x) :=
  fun _ _ _ h => (declare_eq_error h).2

theorem keepsOnError_pushFrame : KeepsOnError pushFrame :=
  fun _ _ _ h => (pushFrame_eq_error h).2

theorem keepsOnError_popFrame : KeepsOnError popFrame :=
  fun _ _ _ h => (popFrame_eq_error h).2

theorem keepsOnError_popValue : KeepsOnError popValue :=
  fun _ _ _ h => (popValue_eq_error h).2

theorem keepsOnError_popCall : KeepsOnError popCall :=
  fun _ _ _ h => (popCall_eq_error h).2

/-! ## The call stack -/

@[simp] theorem setFrame_calls (kind : FrameKind) (f : Frame) :
    (m.setFrame kind f).calls = m.calls := by
  cases kind <;> rfl

/-- Variables and frames have no influence on the calls in progress. -/
theorem calls_of_write (h : m.write x content = .ok () m') : m'.calls = m.calls := by
  obtain ⟨f, -, -, rfl⟩ := write_eq_ok_iff.1 h
  exact setFrame_calls _ _

theorem calls_of_declare (h : m.declare x = .ok () m') : m'.calls = m.calls := by
  obtain ⟨f, -, -, rfl⟩ := declare_eq_ok_iff.1 h
  exact setFrame_calls _ _

theorem calls_of_pushFrame (h : m.pushFrame = .ok () m') : m'.calls = m.calls := by
  obtain ⟨f, -, rfl⟩ := pushFrame_eq_ok h
  rfl

theorem calls_of_popFrame (h : m.popFrame = .ok () m') : m'.calls = m.calls := by
  obtain ⟨f, below, -, rfl⟩ := popFrame_eq_ok h
  rfl

theorem calls_of_popValue {v : Value} (h : m.popValue = .ok v m') : m'.calls = m.calls := by
  obtain ⟨below, -, rfl⟩ := popValue_eq_ok h
  rfl

end Memory

end IppCode
