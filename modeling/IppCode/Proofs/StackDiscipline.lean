import IppCode.Proofs.MemoryAccess

/-!
# The discipline of the stacks

The memory has three stacks: the local frames, the data and the calls.  Whatever operations are
performed, in whatever order and with whatever success, what lies deep enough in a stack is out of
reach.

* `Leaves` lists all that a single operation can leave of a memory, `leaves_obey`.
* A stack is left as it is, gets one item more, or loses its top (`Shift`).  The data stack and
  the call stack know nothing else (`shift_data`, `shift_calls`); of the local frames the top one
  can also be replaced, because a local variable was declared or written (`shift_locals`).
* So one operation keeps the bottom of a stack that is deep enough before and after it, and by
  induction so does a sequence of operations during which it stays deep enough
  (`bottom_obeyAll`).
-/

namespace IppCode

/-! ## The bottom of a stack -/

namespace Stack

variable {α : Type} {s t : Stack α} {d : Nat}

/-- The lowest items of a stack, from the bottom up; all of them if there are no more. -/
def bottom (s : Stack α) (d : Nat) : List α :=
  s.toList.take d

theorem bottom_push (a : α) (h : d ≤ s.size) : (s.push a).bottom d = s.bottom d := by
  have hlength : d ≤ s.toList.length := by rwa [toList, List.length_reverse]
  rw [bottom, toList_push, List.take_append_of_le_length hlength, bottom]

/-- The stack is left as it is, or an item comes to its top, or its top is taken. -/
inductive Shift : Stack α → Stack α → Prop
  | stay (s : Stack α) : Shift s s
  | push (s : Stack α) (a : α) : Shift s (s.push a)
  | pop (s : Stack α) (a : α) : Shift (s.push a) s

theorem shift_of_pop? {a : α} (h : s.pop? = some (a, t)) : Shift s t := by
  have hs : s = t.push a := congrArg Stack.mk (pop?_eq_some_iff.1 h)
  rw [hs]
  exact .pop t a

theorem Shift.bottom_eq (h : Shift s t) (hs : d ≤ s.size) (ht : d ≤ t.size) :
    t.bottom d = s.bottom d := by
  cases h with
  | stay => rfl
  | push _ a => exact bottom_push a hs
  | pop _ a => exact (bottom_push a ht).symm

/-- Stacks that agree below their tops agree at the bottom, up to the item below the top. -/
theorem bottom_eq_of_tail (h : t.items.tail = s.items.tail) (hs : d < s.size) (ht : d < t.size) :
    t.bottom d = s.bottom d := by
  obtain ⟨items⟩ := s
  obtain ⟨items'⟩ := t
  cases items with
  | nil => exact absurd hs (Nat.not_lt_zero d)
  | cons a below =>
      cases items' with
      | nil => exact absurd ht (Nat.not_lt_zero d)
      | cons b below' =>
          obtain rfl : below' = below := h
          have hbelow : d ≤ (⟨below'⟩ : Stack α).size := Nat.le_of_lt_succ hs
          calc (push ⟨below'⟩ b).bottom d
              = (⟨below'⟩ : Stack α).bottom d := bottom_push b hbelow
            _ = (push ⟨below'⟩ a).bottom d := (bottom_push a hbelow).symm

end Stack

namespace Memory

variable {m m' : Memory} {d : Nat}

/-! ## One operation -/

/-- The memory after an operation, whether it fails or not. -/
def obey (m : Memory) (command : Command) : Memory :=
  match perform command m with
  | .ok _ m' => m'
  | .error _ m' => m'

/-- Everything that an operation can leave of a memory. -/
inductive Leaves (m : Memory) : Memory → Prop
  /-- Something was looked up, or the operation failed. -/
  | kept : Leaves m m
  | put {x : Variable} {f : Frame} (content : Option Value) (h : m.frame? x.frame = some f) :
      Leaves m (m.setFrame x.frame (f.put x.name content))
  | createFrame : Leaves m m.createFrame
  | pushFrame {f : Frame} (h : m.temporary = some f) :
      Leaves m { m with locals := m.locals.push f, temporary := none }
  | popFrame {f : Frame} {below : Stack Frame} (h : m.locals.pop? = some (f, below)) :
      Leaves m { m with locals := below, temporary := some f }
  | pushValue (v : Value) : Leaves m (m.pushValue v)
  | popValue {v : Value} {below : Stack Value} (h : m.data.pop? = some (v, below)) :
      Leaves m { m with data := below }
  | pushCall (position : Nat) : Leaves m (m.pushCall position)
  | popCall {position : Nat} {below : Stack Nat} (h : m.calls.pop? = some (position, below)) :
      Leaves m { m with calls := below }

theorem ok_of_map {α β : Type} {act : Action α} {f : α → β} {b : β}
    (h : (f <$> act) m = .ok b m') : ∃ a, act m = .ok a m' := by
  simp only [Functor.map, EStateM.map] at h
  cases hact : act m with
  | ok a after =>
      rw [hact] at h
      cases h
      exact ⟨a, rfl⟩
  | error e after =>
      rw [hact] at h
      cases h

theorem leaves_of_look {α : Type} {f : Memory → Except ExecError α} {answer : α → Answer}
    {a : Answer} (h : (answer <$> look f) m = .ok a m') : Leaves m m' := by
  obtain ⟨_, hlook⟩ := ok_of_map h
  unfold look at hlook
  split at hlook <;> cases hlook
  exact .kept

/-- An operation that succeeds leaves one of these memories. -/
theorem leaves_of_ok {command : Command} {answer : Answer}
    (h : perform command m = .ok answer m') : Leaves m m' := by
  cases command with
  | slot | read => exact leaves_of_look h
  | write x content =>
      obtain ⟨_, hwrite⟩ := ok_of_map h
      obtain ⟨f, hframe, -, rfl⟩ := write_eq_ok_iff.1 hwrite
      exact .put content hframe
  | declare x =>
      obtain ⟨_, hdeclare⟩ := ok_of_map h
      obtain ⟨f, hframe, -, rfl⟩ := declare_eq_ok_iff.1 hdeclare
      exact .put none hframe
  | pushFrame =>
      obtain ⟨_, hpush⟩ := ok_of_map h
      obtain ⟨f, htemporary, rfl⟩ := pushFrame_eq_ok hpush
      exact .pushFrame htemporary
  | popFrame =>
      obtain ⟨_, hpop⟩ := ok_of_map h
      obtain ⟨f, below, hlocals, rfl⟩ := popFrame_eq_ok hpop
      exact .popFrame hlocals
  | popValue =>
      obtain ⟨v, hpop⟩ := ok_of_map h
      obtain ⟨below, hdata, rfl⟩ := popValue_eq_ok hpop
      exact .popValue hdata
  | popCall =>
      obtain ⟨position, hpop⟩ := ok_of_map h
      obtain ⟨below, hcalls, rfl⟩ := popCall_eq_ok hpop
      exact .popCall hcalls
  | createFrame =>
      cases h
      exact .createFrame
  | pushValue v =>
      cases h
      exact .pushValue v
  | pushCall position =>
      cases h
      exact .pushCall position
  | dump =>
      cases h
      exact .kept

theorem leaves_obey (m : Memory) (command : Command) : Leaves m (m.obey command) := by
  cases hperform : perform command m with
  | ok answer m' =>
      have hobey : m.obey command = m' := by rw [obey, hperform]
      rw [hobey]
      exact leaves_of_ok hperform
  | error e m' =>
      -- that nothing has changed was shown for each operation
      obtain rfl := keepsOnError_perform command m e m' hperform
      have hobey : m'.obey command = m' := by rw [obey, hperform]
      rw [hobey]
      exact .kept

/-! ## What an operation does to each stack -/

theorem Leaves.shift_data (h : Leaves m m') : Stack.Shift m.data m'.data := by
  cases h with
  | put content hframe =>
      rw [(changesOnly_put hframe content).data]
      exact .stay _
  | pushValue v => exact .push m.data v
  | popValue h => exact Stack.shift_of_pop? h
  | kept | createFrame | pushFrame | popFrame | pushCall | popCall => exact .stay m.data

theorem Leaves.shift_calls (h : Leaves m m') : Stack.Shift m.calls m'.calls := by
  cases h with
  | put content hframe =>
      rw [(changesOnly_put hframe content).calls]
      exact .stay _
  | pushCall position => exact .push m.calls position
  | popCall h => exact Stack.shift_of_pop? h
  | kept | createFrame | pushFrame | popFrame | pushValue | popValue => exact .stay m.calls

/-- The top local frame is the only one that an operation can change without taking it away. -/
theorem Leaves.shift_locals (h : Leaves m m') :
    Stack.Shift m.locals m'.locals ∨ m'.locals.items.tail = m.locals.items.tail := by
  cases h with
  | put content hframe => exact .inr (changesOnly_put hframe content).below
  | pushFrame h => exact .inl (.push m.locals _)
  | popFrame h => exact .inl (Stack.shift_of_pop? h)
  | kept | createFrame | pushValue | popValue | pushCall | popCall => exact .inl (.stay m.locals)

/-! ## Sequences of operations -/

/-- The memory after a sequence of operations, some of which may fail. -/
def obeyAll (m : Memory) (commands : List Command) : Memory :=
  commands.foldl obey m

/-- A stack has at least some depth before, between and after the operations of a sequence. -/
def StaysDeep {α : Type} (stack : Memory → Stack α) (d : Nat) (m : Memory)
    (commands : List Command) : Prop :=
  ∀ k ≤ commands.length, d ≤ (stack (m.obeyAll (commands.take k))).size

section Sequences

variable {α : Type} {stack : Memory → Stack α} {commands : List Command} {command : Command}

theorem StaysDeep.start (h : StaysDeep stack d m commands) : d ≤ (stack m).size :=
  h 0 (Nat.zero_le _)

theorem StaysDeep.tail (h : StaysDeep stack d m (command :: commands)) :
    StaysDeep stack d (m.obey command) commands :=
  fun k hk => h (k + 1) (Nat.succ_le_succ hk)

/-- What every single operation keeps at the bottom of a deep stack is kept by a sequence of
operations during which the stack stays deep. -/
theorem bottom_obeyAll {e : Nat}
    (hstep : ∀ m m', Leaves m m' → d ≤ (stack m).size → d ≤ (stack m').size →
      (stack m').bottom e = (stack m).bottom e)
    (hdeep : StaysDeep stack d m commands) :
    (stack (m.obeyAll commands)).bottom e = (stack m).bottom e := by
  induction commands generalizing m with
  | nil => rfl
  | cons command commands ih =>
      have hnext := hdeep.tail
      calc (stack (m.obeyAll (command :: commands))).bottom e
          = (stack ((m.obey command).obeyAll commands)).bottom e := rfl
        _ = (stack (m.obey command)).bottom e := ih hnext
        _ = (stack m).bottom e :=
            hstep m _ (leaves_obey m command) hdeep.start hnext.start

end Sequences

theorem popFrame_of_pushFrame {f : Frame} (h : m.temporary = some f) :
    ∃ pushed, m.pushFrame = .ok () pushed ∧ pushed.popFrame = .ok () m := by
  refine ⟨{ m with locals := m.locals.push f, temporary := none }, by rw [pushFrame_eq, h], ?_⟩
  obtain ⟨global, locals, temporary, data, calls⟩ := m
  cases h
  rfl

/-- **The discipline of the stacks.**  A temporary frame that is pushed and popped again leaves
the memory as it was.  And for every sequence of operations, some of which may fail: if the data
stack or the call stack never has fewer than `d` entries, then its lowest `d` entries are the same
at the end; if there are never fewer than `d` local frames, then the lowest `d - 1` of them are the
same, with all that they hold. -/
theorem stack_discipline (m : Memory) :
    (∀ f, m.temporary = some f →
      ∃ pushed, m.pushFrame = .ok () pushed ∧ pushed.popFrame = .ok () m) ∧
    ∀ (commands : List Command) (d : Nat),
      (1 ≤ d → StaysDeep locals d m commands →
        (m.obeyAll commands).locals.bottom (d - 1) = m.locals.bottom (d - 1)) ∧
      (StaysDeep data d m commands → (m.obeyAll commands).data.bottom d = m.data.bottom d) ∧
      (StaysDeep calls d m commands → (m.obeyAll commands).calls.bottom d = m.calls.bottom d) := by
  refine ⟨fun f => popFrame_of_pushFrame, fun commands d => ⟨?_, ?_, ?_⟩⟩
  · intro hd hdeep
    refine bottom_obeyAll (fun m m' hleaves hm hm' => ?_) hdeep
    rcases hleaves.shift_locals with hshift | htail
    · exact hshift.bottom_eq (by omega) (by omega)
    · exact Stack.bottom_eq_of_tail htail (by omega) (by omega)
  · exact bottom_obeyAll fun m m' hleaves hm hm' => hleaves.shift_data.bottom_eq hm hm'
  · exact bottom_obeyAll fun m m' hleaves hm hm' => hleaves.shift_calls.bottom_eq hm hm'

/-- Three local frames, two values and one position to come back to. -/
def nested : Memory where
  locals := ⟨[∅, (∅ : Frame).put "x" (some (.int 2)), (∅ : Frame).put "x" (some (.int 1))]⟩
  temporary := some ((∅ : Frame).put "y" none)
  data := ⟨[.nil, .bool true]⟩
  calls := ⟨[7]⟩

/-- The temporary frame is pushed and popped again, the top local frame is taken away, and in the
one below it a variable loses its value and cannot be declared anew.  A value and a position to
come back to are put on the stacks and taken away. -/
def traffic : List Command :=
  [.pushFrame, .write ⟨.local, "y"⟩ (some .nil), .popFrame, .popFrame, .write ⟨.local, "x"⟩ none,
    .popValue, .pushValue (.int 3), .popValue, .pushCall 4, .declare ⟨.local, "x"⟩, .popCall]

/-- Below all this the lowest frame, the lowest value and the position to come back to stay. -/
theorem stack_discipline_traffic :
    (∃ pushed, nested.pushFrame = .ok () pushed ∧ pushed.popFrame = .ok () nested) ∧
    StaysDeep locals 2 nested traffic ∧
    (nested.obeyAll traffic).locals.bottom 1 = [(∅ : Frame).put "x" (some (.int 1))] ∧
    StaysDeep data 1 nested traffic ∧ (nested.obeyAll traffic).data.bottom 1 = [.bool true] ∧
    StaysDeep calls 1 nested traffic ∧ (nested.obeyAll traffic).calls.bottom 1 = [7] := by
  obtain ⟨hframes, hstacks⟩ := stack_discipline nested
  have hlocals : StaysDeep locals 2 nested traffic := by
    unfold StaysDeep
    decide
  have hdata : StaysDeep data 1 nested traffic := by
    unfold StaysDeep
    decide
  have hcalls : StaysDeep calls 1 nested traffic := by
    unfold StaysDeep
    decide
  exact ⟨hframes _ rfl, hlocals, (hstacks traffic 2).1 (by decide) hlocals, hdata,
    (hstacks traffic 1).2.1 hdata, hcalls, (hstacks traffic 1).2.2 hcalls⟩

end Memory

end IppCode
