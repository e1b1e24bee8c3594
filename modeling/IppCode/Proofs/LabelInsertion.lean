import IppCode.Proofs.Control
import IppCode.Proofs.Linking
import IppCode.Proofs.Simulation

/-!
# Inserting a label

A label that nothing continues at can be put anywhere into a program, and the program runs
as before.  All positions behind it move by one: those of the instructions, of the labels,
and the positions to return to.

The two runs are not in step.  Where the first program comes to the place of the insertion
from the instruction before it, or returns to it, the second one comes to the new label and
needs one step more; where the first one jumps there, the second jumps over the new label.
So a position, and a position to return to, may correspond to two of them (`Reindexed`), and
the runs are compared by a simulation.

Most operations ignore the control, so they do the same on both machines; calls and returns
are looked at one by one (`agree_execute`).
-/

namespace IppCode

/-! ## Positions -/

/-- Where an instruction is after one has been inserted at a position. -/
def shift (k q : Nat) : Nat :=
  if q < k then q else q + 1

/-- A position in the longer program corresponds to one in the shorter: it is that of the
same instruction, or it is that of the inserted one, which leads there. -/
def Reindexed (k q q' : Nat) : Prop :=
  q' = shift k q ∨ (q = k ∧ q' = k)

theorem reindexed_succ (k q : Nat) : Reindexed k (q + 1) (shift k q + 1) := by
  unfold Reindexed shift
  by_cases hq : q < k
  · by_cases hnext : q + 1 < k
    · simp [hq, hnext]
    · right
      rw [if_pos hq]
      omega
  · left
    rw [if_neg hq, if_neg (by omega)]

theorem reindexed_zero (k : Nat) : Reindexed k 0 0 := by
  unfold Reindexed shift
  by_cases hk : 0 < k
  · exact .inl (if_pos hk).symm
  · exact .inr (by omega)

theorem shift_ne (k q : Nat) : shift k q ≠ k := by
  unfold shift
  split <;> omega

theorem exists_shift {k q' : Nat} (h : q' ≠ k) : ∃ q, q' = shift k q := by
  unfold shift
  by_cases hlt : q' < k
  · exact ⟨q', (if_pos hlt).symm⟩
  · exact ⟨q' - 1, by rw [if_neg (by omega)]; omega⟩

theorem getElem?_insert_shift {α : Type} (A B : List α) (a : α) (q : Nat) :
    (A ++ a :: B)[shift A.length q]? = (A ++ B)[q]? := by
  unfold shift
  by_cases hq : q < A.length
  · rw [if_pos hq, List.getElem?_append_left hq, List.getElem?_append_left hq]
  · have hsub : q + 1 - A.length = q - A.length + 1 := by omega
    rw [if_neg hq, List.getElem?_append_right (by omega), List.getElem?_append_right (by omega),
      hsub, List.getElem?_cons_succ]

theorem getElem?_insert_length {α : Type} (A B : List α) (a : α) :
    (A ++ a :: B)[A.length]? = some a := by
  rw [List.getElem?_append_right (Nat.le_refl _), Nat.sub_self, List.getElem?_cons_zero]

/-! ## Places of operations -/

namespace Operation

variable {τ σ ρ : Type}

/-- An operation whose place is found can be resolved with the place moved, before or
afterwards. -/
theorem resolve?_move {place? : τ → Option σ} {moved? : τ → Option ρ} {f : σ → ρ}
    {op : Operation τ} {linked : Operation σ}
    (hmoved : ∀ target place, place? target = some place → moved? target = some (f place))
    (h : op.resolve? place? = some linked) :
    op.resolve? moved? = linked.resolve? fun place => some (f place) := by
  cases op with
  | call target | jump target | jumpIf _ target _ _ =>
      obtain ⟨place, hplace, rfl⟩ := Option.map_eq_some_iff.1 h
      simp only [resolve?, hmoved target place hplace]
  | _ =>
      cases h
      rfl

end Operation

/-- The flow with the place to jump to moved. -/
def Flow.move (f : Nat → Nat) : Flow → Flow
  | .next => .next
  | .jump target => .jump (f target)
  | .exit code => .exit code

namespace Machine

variable {m mid : Machine} {op op' : Operation Nat} {flow : Flow} {e : ExecError}

/-- Where the place of an operation is moved, so is its flow.  Returns have no place of
their own. -/
theorem Executes.move {f : Nat → Nat} (h : Executes m op flow mid)
    (hop : op.resolve? (fun target => some (f target)) = some op') (hreturn : op ≠ .return) :
    Executes m op' (flow.move f) mid := by
  cases op with
  | call target =>
      cases hop
      cases h
      exact .call
  | jump target =>
      cases hop
      cases h
      exact .jump
  | jumpIf equal target a b =>
      cases hop
      cases h with
      | jumpTaken hfirst hsecond htaken => exact .jumpTaken hfirst hsecond htaken
      | jumpPassed hfirst hsecond hpassed => exact .jumpPassed hfirst hsecond hpassed
  | «return» => exact absurd rfl hreturn
  | _ =>
      cases hop
      -- without a place there is no jump
      have hflow : flow.move f = flow := by
        cases h
        rfl
      rw [hflow]
      exact h

theorem Fails.move {f : Nat → Nat} (h : Fails m op e mid)
    (hop : op.resolve? (fun target => some (f target)) = some op') : Fails m op' e mid := by
  cases op with
  | call target | jump target => cases h
  | jumpIf equal target a b =>
      cases hop
      cases h with
      | jumpFirst hfirst => exact .jumpFirst hfirst
      | jumpSecond hfirst hsecond => exact .jumpSecond hfirst hsecond
      | jumpCompare hfirst hsecond hcompare => exact .jumpCompare hfirst hsecond hcompare
  | _ =>
      cases hop
      exact h

/-! ## Machines -/

/-- The machine of the longer program that corresponds to one of the shorter: it differs in
the control only, and its positions correspond. -/
structure Corresponds (k : Nat) (m m' : Machine) : Prop where
  same : m' = m.withControl m'.control
  position : Reindexed k m.position m'.position
  calls : List.Forall₂ (Reindexed k) m.memory.calls.items m'.memory.calls.items

end Machine

/-- The longer program stops like the shorter: with the same exit code, or with the same error
at the same instruction, or both at none; and with the same streams. -/
inductive Status.Matches (k : Nat) : Status → Status → Prop
  | exited {code : Nat} {m m' : Machine} (hstreams : m'.streams = m.streams) :
      Status.Matches k (.exited code m) (.exited code m')
  | faulted {error : ExecError} {location : Option (Nat × Opcode)} {m m' : Machine}
      (hstreams : m'.streams = m.streams) :
      Status.Matches k (.faulted ⟨error, location⟩ m)
        (.faulted ⟨error, location.map (Prod.map (shift k) id)⟩ m')

namespace Machine

variable {k : Nat} {m m' mid : Machine} {op op' : Operation Nat} {c : Control}

theorem together_finish (code : Nat) (hstreams : m'.streams = m.streams) :
    Together (Corresponds k) (Status.Matches k) (finish code m) (finish code m') := by
  rcases finish_cases code m with ⟨streams, hflush, hfinish⟩ | ⟨text, streams, hflush, hfinish⟩
  · have hfinish' : finish code m' = .exited code { m' with streams } := by
      simp [finish, onStreams, hstreams, hflush]
    rw [hfinish, hfinish']
    exact .stopped Status.stopped_exited Status.stopped_exited (.exited rfl)
  · have hfinish' : finish code m' = .faulted ⟨.io text, none⟩ { m' with streams } := by
      simp [finish, onStreams, hstreams, hflush]
    rw [hfinish, hfinish']
    exact .stopped Status.stopped_faulted Status.stopped_faulted (.faulted rfl)

theorem together_proceed {flow : Flow} (hposition : c.position = shift k m.position)
    (hcalls : List.Forall₂ (Reindexed k) m.memory.calls.items c.calls.items) :
    Together (Corresponds k) (Status.Matches k) (proceed flow m)
      (proceed (flow.move (shift k)) (m.withControl c)) := by
  cases flow with
  | next =>
      refine .running ⟨rfl, ?_, hcalls⟩
      change Reindexed k (m.position + 1) (c.position + 1)
      rw [hposition]
      exact reindexed_succ k m.position
  | jump target => exact .running ⟨rfl, .inl rfl, hcalls⟩
  | exit code => exact together_finish code rfl

/-- Two results of operations, after which two programs go on together or fail alike. -/
inductive Agree (k : Nat) :
    EStateM.Result ExecError Machine Flow → EStateM.Result ExecError Machine Flow → Prop
  | ok {flow flow' : Flow} {mid mid' : Machine}
      (h : Together (Corresponds k) (Status.Matches k) (proceed flow mid) (proceed flow' mid')) :
      Agree k (.ok flow mid) (.ok flow' mid')
  | error {e : ExecError} {mid mid' : Machine} (h : mid'.streams = mid.streams) :
      Agree k (.error e mid) (.error e mid')

section Agree

variable (hposition : c.position = shift k m.position)
  (hcalls : List.Forall₂ (Reindexed k) m.memory.calls.items c.calls.items)

include hposition hcalls

/-- A call pushes the position behind itself, which may be that of the inserted label. -/
theorem agree_call (target : Nat) :
    Agree k (execute (.call target) m) (execute (.call (shift k target)) (m.withControl c)) := by
  have hpushed : List.Forall₂ (Reindexed k) (m.memory.calls.push (m.position + 1)).items
      (c.calls.push (c.position + 1)).items := by
    refine .cons ?_ hcalls
    rw [hposition]
    exact reindexed_succ k m.position
  exact .ok (.running ⟨rfl, .inl rfl, hpushed⟩)

omit hposition in
theorem agree_return : Agree k (execute .return m) (execute .return (m.withControl c)) := by
  cases hitems : m.memory.calls.items with
  | nil =>
      rw [hitems] at hcalls
      have hpop := Memory.popCall_of_nil hitems
      have hpop' := Memory.popCall_of_nil (m := (m.withControl c).memory)
        (List.forall₂_nil_left_iff.1 hcalls)
      rw [(Fails.comeBack hpop).execute_eq, (Fails.comeBack hpop').execute_eq]
      exact .error rfl
  | cons target below =>
      rw [hitems] at hcalls
      obtain ⟨target', below', htarget, hbelow, hitems'⟩ := List.forall₂_cons_left_iff.1 hcalls
      have hpop := Memory.popCall_of_cons hitems
      have hpop' := Memory.popCall_of_cons (m := (m.withControl c).memory) hitems'
      rw [(Executes.comeBack hpop).execute_eq, (Executes.comeBack hpop').execute_eq]
      exact .ok (.running ⟨rfl, htarget, hbelow⟩)

/-- Operations at corresponding positions. -/
theorem agree_execute (hop : op.resolve? (fun target => some (shift k target)) = some op')
    (hdump : op ≠ .dump) : Agree k (execute op m) (execute op' (m.withControl c)) := by
  by_cases hcall : ∃ target, op = .call target
  · obtain ⟨target, rfl⟩ := hcall
    cases hop
    exact agree_call hposition hcalls target
  by_cases hreturn : op = .return
  · subst hreturn
    cases hop
    exact agree_return hcalls
  -- all else ignores the control, and moves its place
  have hignores := ignoresControl_execute (not_exists.1 hcall) hreturn hdump
  have hsame := hignores c m
  cases hexec : execute op m with
  | ok flow mid =>
      rw [hexec] at hsame
      have hmoved := (Executes.of_execute hsame).move hop hreturn
      have hcontrol := hignores.control_eq hexec
      rw [hmoved.execute_eq]
      refine .ok (together_proceed ?_ ?_)
      · rw [hposition, show mid.position = m.position from congrArg Control.position hcontrol]
      · rw [show mid.memory.calls = m.memory.calls from congrArg Control.calls hcontrol]
        exact hcalls
  | error e mid =>
      rw [hexec] at hsame
      rw [((Fails.of_execute hsame).move hop).execute_eq]
      exact .error rfl

end Agree

/-- One step at corresponding positions. -/
theorem together_step {i : Instruction} {p p' : Program}
    (hline : p.lines[m.position]? = some ⟨i, op⟩) (hline' : p'.lines[c.position]? = some ⟨i, op'⟩)
    (hposition : c.position = shift k m.position)
    (h : Agree k (execute op m) (execute op' (m.withControl c))) :
    Together (Corresponds k) (Status.Matches k) (step p m) (step p' (m.withControl c)) := by
  generalize hexec : execute op m = result at h
  generalize hexec' : execute op' (m.withControl c) = result' at h
  have hline' : p'.lines[(m.withControl c).position]? = some ⟨i, op'⟩ := hline'
  cases h with
  | ok htogether =>
      simp only [step, hline, hline', hexec, hexec']
      exact htogether
  | error hstreams =>
      simp only [step, hline, hline', hexec, hexec']
      have hlocation : (some ((m.withControl c).position, i.opcode) : Option (Nat × Opcode)) =
          (some (m.position, i.opcode)).map (Prod.map (shift k) id) := by
        rw [show (m.withControl c).position = c.position from rfl, hposition]
        rfl
      rw [hlocation]
      exact .stopped Status.stopped_faulted Status.stopped_faulted (.faulted hstreams)

end Machine

/-! ## Programs -/

section Programs

variable {A B : List Instruction} {l : String} {p p' : Program}

theorem accepted_insert (h : Accepted (A ++ B)) (hl : declaration l ∉ A ++ B) :
    Accepted (A ++ declaration l :: B) := by
  have hmem : ∀ {i}, i ∈ A ++ declaration l :: B → i = declaration l ∨ i ∈ A ++ B := by
    intro i hi
    rcases List.mem_append.1 hi with hi | hi
    · exact .inr (List.mem_append_left B hi)
    rcases List.mem_cons.1 hi with hi | hi
    · exact .inl hi
    · exact .inr (List.mem_append_right A hi)
  have hlabel : (declaration l).Fits ∧ (declaration l).ConstantsFit :=
    Instruction.defect?_eq_none_iff.1 rfl
  -- a declaration is the inserted one, or it is one of the shorter program
  have hget : ∀ {q' name}, (A ++ declaration l :: B)[q']? = some (declaration name) →
      (q' = A.length ∧ name = l) ∨
        ∃ q, q' = shift A.length q ∧ (A ++ B)[q]? = some (declaration name) := by
    intro q' name hq'
    by_cases heq : q' = A.length
    · rw [heq, getElem?_insert_length] at hq'
      exact .inl ⟨heq, (declaration_injective (Option.some.inj hq')).symm⟩
    · obtain ⟨q, rfl⟩ := exists_shift heq
      rw [getElem?_insert_shift] at hq'
      exact .inr ⟨q, rfl, hq'⟩
  refine ⟨?_, ?_, ?_, ?_⟩
  · intro i hi
    rcases hmem hi with rfl | hi
    · exact hlabel.1
    · exact h.fits i hi
  · intro i hi
    rcases hmem hi with rfl | hi
    · exact hlabel.2
    · exact h.constants i hi
  · intro q' r' name hq' hr'
    rcases hget hq' with ⟨hq, rfl⟩ | ⟨q, rfl, hq⟩
    · rcases hget hr' with ⟨hr, -⟩ | ⟨r, rfl, hr⟩
      · rw [hq, hr]
      · exact absurd (List.mem_of_getElem? hr) hl
    · rcases hget hr' with ⟨-, rfl⟩ | ⟨r, rfl, hr⟩
      · exact absurd (List.mem_of_getElem? hq) hl
      · rw [h.distinct q r name hq hr]
  · intro i hi name hname
    rcases hmem hi with rfl | hi
    · exact absurd hname.1 (by simp [declaration])
    · have hdeclared := h.defined i hi name hname
      rcases List.mem_append.1 hdeclared with hdeclared | hdeclared
      · exact List.mem_append_left _ hdeclared
      · exact List.mem_append_right _ (List.mem_cons_of_mem _ hdeclared)

/-- With the label the program is accepted too. -/
theorem exists_ofInstructions_insert (hp : Program.ofInstructions (A ++ B) = .ok p)
    (hl : declaration l ∉ A ++ B) :
    ∃ p', Program.ofInstructions (A ++ declaration l :: B) = .ok p' := by
  obtain ⟨hcheck, -⟩ := Program.ofInstructions_eq_ok_iff.1 hp
  obtain ⟨haccepted, -⟩ := accepted_of_check hcheck
  obtain ⟨labels, hcheck'⟩ := exists_check_of_accepted (accepted_insert haccepted hl)
  exact Program.exists_ofInstructions hcheck'

section Lines

variable (hp : Program.ofInstructions (A ++ B) = .ok p)
  (hp' : Program.ofInstructions (A ++ declaration l :: B) = .ok p')

include hp hp'

/-- The labels of the shorter program have moved. -/
theorem find?_labels_insert {name : String} {target : Nat} (h : p.labels.find? name = some target) :
    p'.labels.find? name = some (shift A.length target) := by
  obtain ⟨-, hindexes⟩ := accepted_of_check (Program.ofInstructions_eq_ok_iff.1 hp).1
  obtain ⟨-, hindexes'⟩ := accepted_of_check (Program.ofInstructions_eq_ok_iff.1 hp').1
  rw [hindexes', getElem?_insert_shift]
  exact (hindexes name target).1 h

/-- An instruction of the shorter program is found at its new position, and continues at the
new positions. -/
theorem exists_line_insert {q : Nat} {i : Instruction} {op : Operation Nat}
    (h : p.lines[q]? = some ⟨i, op⟩) :
    ∃ op', p'.lines[shift A.length q]? = some ⟨i, op'⟩ ∧
      op.resolve? (fun target => some (shift A.length target)) = some op' := by
  obtain ⟨hget, hlink⟩ := Program.line_of_getElem? hp h
  rw [← getElem?_insert_shift A B (declaration l)] at hget
  cases hline : p'.lines[shift A.length q]? with
  | none =>
      rw [Program.getElem?_lines_eq_none_iff hp', ← List.getElem?_eq_none_iff, hget] at hline
      cases hline
  | some line =>
      obtain ⟨hget', hlink'⟩ := Program.line_of_getElem? hp' hline
      obtain ⟨i', op'⟩ := line
      cases hget.symm.trans hget'
      refine ⟨op', rfl, ?_⟩
      -- both are made of one operation, whose label is looked up in the one table or the other
      obtain ⟨made, hmade, hresolve⟩ := Instruction.link_eq_ok_iff.1 hlink
      obtain ⟨made', hmade', hresolve'⟩ := Instruction.link_eq_ok_iff.1 hlink'
      cases hmade.symm.trans hmade'
      rw [← hresolve']
      exact (Operation.resolve?_move (fun _ _ h => find?_labels_insert hp hp' h) hresolve).symm

theorem line_insert_eq_none {q : Nat} (h : p.lines[q]? = none) :
    p'.lines[shift A.length q]? = none := by
  rw [Program.getElem?_lines_eq_none_iff hp', ← List.getElem?_eq_none_iff, getElem?_insert_shift,
    List.getElem?_eq_none_iff, ← Program.getElem?_lines_eq_none_iff hp]
  exact h

omit hp in
theorem line_insert_label : p'.lines[A.length]? = some ⟨declaration l, .label l⟩ := by
  cases hline : p'.lines[A.length]? with
  | none =>
      rw [Program.getElem?_lines_eq_none_iff hp', ← List.getElem?_eq_none_iff,
        getElem?_insert_length] at hline
      cases hline
  | some line =>
      obtain ⟨hget, hlink⟩ := Program.line_of_getElem? hp' hline
      obtain ⟨i, op⟩ := line
      rw [getElem?_insert_length] at hget
      cases hget
      cases hlink
      rfl

end Lines

end Programs

/-! ## Runs -/

namespace Machine

variable {A B : List Instruction} {l : String} {p p' : Program}

/-- Whether a machine of the longer program is at the inserted label, while the shorter one
has come to the instruction behind it. -/
def lag (k : Nat) (m m' : Machine) : Nat :=
  if m'.position = shift k m.position then 0 else 1

theorem simulates_insert (hp : Program.ofInstructions (A ++ B) = .ok p)
    (hp' : Program.ofInstructions (A ++ declaration l :: B) = .ok p')
    (hbreak : ∀ i ∈ A ++ B, i.opcode ≠ .break) :
    Simulates p p' (Corresponds A.length) (Status.Matches A.length) (lag A.length) := by
  intro m m' ⟨hsame, hposition, hcalls⟩
  generalize hc : m'.control = c at hsame
  subst hsame
  rcases hposition with haligned | ⟨hposition, hlabel⟩
  · left
    change c.position = shift A.length m.position at haligned
    cases hline : p.lines[m.position]? with
    | none =>
        have hline' : p'.lines[(m.withControl c).position]? = none := by
          rw [show (m.withControl c).position = c.position from rfl, haligned]
          exact line_insert_eq_none hp hp' hline
        simp only [step, hline, hline']
        exact together_finish 0 rfl
    | some line =>
        obtain ⟨i, op⟩ := line
        obtain ⟨op', hline', hop⟩ := exists_line_insert hp hp' hline
        rw [← haligned] at hline'
        have hdump : op ≠ .dump := by
          rintro rfl
          obtain ⟨hget, hlink⟩ := Program.line_of_getElem? hp hline
          exact hbreak i (List.mem_of_getElem? hget) (Instruction.opcode_of_link hlink).symm
        exact together_step hline hline' haligned (agree_execute haligned hcalls hop hdump)
  · right
    change c.position = A.length at hlabel
    have hline' : p'.lines[(m.withControl c).position]? = some ⟨declaration l, .label l⟩ := by
      rw [show (m.withControl c).position = c.position from rfl, hlabel]
      exact line_insert_label hp'
    have hstep : step p' (m.withControl c) = .running (m.withControl c).advanced := by
      simp only [step, hline', (Executes.label (m := m.withControl c)).execute_eq, proceed,
        advanced]
    -- behind the label the two programs are at the same instruction
    have hbehind : (m.withControl c).advanced.position = shift A.length m.position := by
      change c.position + 1 = shift A.length m.position
      rw [hlabel, hposition, shift, if_neg (Nat.lt_irrefl _)]
    refine ⟨_, hstep, ⟨rfl, .inl hbehind, hcalls⟩, ?_⟩
    have hlag : lag A.length m (m.withControl c) = 1 := by
      apply if_neg
      change c.position ≠ shift A.length m.position
      rw [hlabel]
      exact (shift_ne A.length m.position).symm
    rw [hlag, lag, if_pos hbehind]
    exact Nat.zero_lt_one

/-- **Insertion of a label.**  Into a program that is accepted and shows no machine, a label
that it does not declare may be put at any place.  The longer program is accepted too, and on
all streams it stops exactly if the shorter one does: with the same exit code, or with the
same error, at the same instruction or both at none; and the streams are left the same. -/
theorem label_insertion_invisible (hp : Program.ofInstructions (A ++ B) = .ok p)
    (hbreak : ∀ i ∈ A ++ B, i.opcode ≠ .break) (hl : declaration l ∉ A ++ B) :
    ∃ p', Program.ofInstructions (A ++ declaration l :: B) = .ok p' ∧
      ∀ streams : Streams,
        (∀ s, Stops p { streams } s → ∃ s', Stops p' { streams } s' ∧ s.Matches A.length s') ∧
        ∀ s', Stops p' { streams } s' → ∃ s, Stops p { streams } s ∧ s.Matches A.length s' := by
  obtain ⟨p', hp'⟩ := exists_ofInstructions_insert hp hl
  refine ⟨p', hp', fun streams => ?_⟩
  have hinitial : Corresponds A.length { streams } { streams } :=
    ⟨rfl, reindexed_zero A.length, .nil⟩
  exact (simulates_insert hp hp' hbreak).stops hinitial

/-- Calls a function and then pushes a frame that is not there. -/
def pushAfterCall : List Instruction :=
  [⟨.call, [.label "f"]⟩, ⟨.pushFrame, []⟩, declaration "f", ⟨.return, []⟩]

/-- With a label behind the call the function returns to the label, and the frame is missed
one position later. -/
theorem label_insertion_invisible_pushAfterCall :
    ∃ p p' m m', Program.ofInstructions pushAfterCall = .ok p ∧
      Stops p {} (.faulted ⟨.noSuchFrame .temporary, some (1, .pushFrame)⟩ m) ∧
      Program.ofInstructions (pushAfterCall.insertIdx 1 (declaration "here")) = .ok p' ∧
      Stops p' {} (.faulted ⟨.noSuchFrame .temporary, some (2, .pushFrame)⟩ m') := by
  have hwhole : Program.ofInstructions
      ([⟨.call, [.label "f"]⟩] ++ [⟨.pushFrame, []⟩, declaration "f", ⟨.return, []⟩]) = .ok _ := rfl
  obtain ⟨p', hp', hruns⟩ := label_insertion_invisible (l := "here") hwhole (by decide) (by decide)
  obtain ⟨s', hs', hmatches⟩ :=
    (hruns {}).1 (.faulted ⟨.noSuchFrame .temporary, some (1, .pushFrame)⟩ _)
      ⟨Status.stopped_faulted, 4, rfl⟩
  cases hmatches with
  | faulted => exact ⟨_, p', _, _, hwhole, ⟨Status.stopped_faulted, 4, rfl⟩, hp', hs'⟩

end Machine

end IppCode
