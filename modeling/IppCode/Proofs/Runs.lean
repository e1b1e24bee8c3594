import IppCode.Proofs.Rules

/-!
# Steps and runs

What one step of a machine can do (`step_running`, `step_faulted`, `step_exited`), and
what a run of any length comes to: it goes through machines that are reached step by
step, and if it stops, then with the last step from one of these (`run_stopped`).
Invariants are proved for one step and carried over to all reached machines by
`Reaches.invariant`.
-/

namespace IppCode.Machine

variable {p : Program} {m m' mid last : Machine} {f : Fault} {code : Nat}

/-! ## One step -/

/-- The program is about to end with an exit code, and the machine is the one whose
output is flushed last: behind the last instruction, or at an exit. -/
inductive Ending (p : Program) (m : Machine) : Nat → Machine → Prop
  | behind (h : p.lines[m.position]? = none) : Ending p m 0 m
  | exit {line : Line} {code : Nat} {mid : Machine} (hline : p.lines[m.position]? = some line)
      (hexec : Executes m line.operation (.exit code) mid) :
      Ending p m code { mid with executed := mid.executed + 1 }

/-- The machine after an instruction that continues behind itself. -/
def advanced (m : Machine) : Machine :=
  { m with position := m.position + 1, executed := m.executed + 1 }

/-- The machine after an instruction that continues at a position. -/
def jumped (target : Nat) (m : Machine) : Machine :=
  { m with position := target, executed := m.executed + 1 }

/-- Everything that a step can do. -/
theorem step_cases (p : Program) (m : Machine) :
    (∃ line mid, p.lines[m.position]? = some line ∧ Executes m line.operation .next mid ∧
      step p m = .running mid.advanced) ∨
    (∃ line target mid, p.lines[m.position]? = some line ∧
      Executes m line.operation (.jump target) mid ∧ step p m = .running (mid.jumped target)) ∨
    (∃ line e m', p.lines[m.position]? = some line ∧ Fails m line.operation e m' ∧
      step p m = .faulted ⟨e, some (m.position, line.instruction.opcode)⟩ m') ∨
    ∃ code last, Ending p m code last ∧ step p m = finish code last := by
  cases hline : p.lines[m.position]? with
  | none => exact .inr (.inr (.inr ⟨0, m, .behind hline, by simp [step, hline]⟩))
  | some line =>
      cases hexec : execute line.operation m with
      | error e m' =>
          exact .inr (.inr (.inl
            ⟨line, e, m', rfl, .of_execute hexec, by simp [step, hline, hexec]⟩))
      | ok flow mid =>
          have hrule := Executes.of_execute hexec
          cases flow with
          | next =>
              exact .inl ⟨line, mid, rfl, hrule, by simp [step, hline, hexec, proceed, advanced]⟩
          | jump target =>
              exact .inr (.inl ⟨line, target, mid, rfl, hrule,
                by simp [step, hline, hexec, proceed, jumped]⟩)
          | exit code =>
              exact .inr (.inr (.inr ⟨code, _, .exit hline hrule,
                by simp [step, hline, hexec, proceed]⟩))

/-- The last flush succeeds, and the program exits, or it fails. -/
theorem finish_cases (code : Nat) (m : Machine) :
    (∃ streams, Streams.flush .output m.streams = .ok () streams ∧
      finish code m = .exited code { m with streams }) ∨
    ∃ text streams, Streams.flush .output m.streams = .error text streams ∧
      finish code m = .faulted ⟨.io text, none⟩ { m with streams } := by
  cases hflush : Streams.flush .output m.streams with
  | ok u streams => exact .inl ⟨streams, rfl, by simp [finish, onStreams, hflush]⟩
  | error text streams => exact .inr ⟨text, streams, rfl, by simp [finish, onStreams, hflush]⟩

theorem finish_ne_running : finish code m ≠ .running m' := by
  rcases finish_cases code m with ⟨streams, -, h⟩ | ⟨text, streams, -, h⟩ <;> simp [h]

theorem step_running (h : step p m = .running m') :
    ∃ line mid, p.lines[m.position]? = some line ∧
      ((Executes m line.operation .next mid ∧ m' = mid.advanced) ∨
        ∃ target, Executes m line.operation (.jump target) mid ∧ m' = mid.jumped target) := by
  rcases step_cases p m with ⟨line, mid, hline, hexec, hstep⟩ |
    ⟨line, target, mid, hline, hexec, hstep⟩ | ⟨line, e, m', -, -, hstep⟩ |
    ⟨code, last, -, hstep⟩
  · rw [hstep] at h
    cases h
    exact ⟨line, mid, hline, .inl ⟨hexec, rfl⟩⟩
  · rw [hstep] at h
    cases h
    exact ⟨line, mid, hline, .inr ⟨target, hexec, rfl⟩⟩
  · rw [hstep] at h
    cases h
  · rw [hstep] at h
    exact absurd h finish_ne_running

theorem step_faulted (h : step p m = .faulted f m') :
    (∃ line, p.lines[m.position]? = some line ∧ Fails m line.operation f.error m' ∧
      f.location = some (m.position, line.instruction.opcode)) ∨
    ∃ code last text streams, Ending p m code last ∧
      Streams.flush .output last.streams = .error text streams ∧
      f = ⟨.io text, none⟩ ∧ m' = { last with streams } := by
  rcases step_cases p m with ⟨line, mid, -, -, hstep⟩ | ⟨line, target, mid, -, -, hstep⟩ |
    ⟨line, e, m', hline, hfails, hstep⟩ | ⟨code, last, hending, hstep⟩
  · rw [hstep] at h
    cases h
  · rw [hstep] at h
    cases h
  · rw [hstep] at h
    cases h
    exact .inl ⟨line, hline, hfails, rfl⟩
  · rw [hstep] at h
    rcases finish_cases code last with ⟨streams, -, hfinish⟩ | ⟨text, streams, hflush, hfinish⟩
    · rw [hfinish] at h
      cases h
    · rw [hfinish] at h
      cases h
      exact .inr ⟨code, last, text, streams, hending, hflush, rfl, rfl⟩

theorem step_exited (h : step p m = .exited code m') :
    ∃ last streams, Ending p m code last ∧
      Streams.flush .output last.streams = .ok () streams ∧ m' = { last with streams } := by
  rcases step_cases p m with ⟨line, mid, -, -, hstep⟩ | ⟨line, target, mid, -, -, hstep⟩ |
    ⟨line, e, m', -, -, hstep⟩ | ⟨code', last, hending, hstep⟩
  · rw [hstep] at h
    cases h
  · rw [hstep] at h
    cases h
  · rw [hstep] at h
    cases h
  · rw [hstep] at h
    rcases finish_cases code' last with ⟨streams, hflush, hfinish⟩ | ⟨text, streams, -, hfinish⟩
    · rw [hfinish] at h
      cases h
      exact ⟨last, streams, hending, hflush, rfl⟩
    · rw [hfinish] at h
      cases h

/-! ## Runs -/

/-- The machines that are reached step by step. -/
inductive Reaches (p : Program) (m : Machine) : Machine → Prop
  | refl : Reaches p m m
  | step {mid last : Machine} (hreach : Reaches p m mid) (hstep : step p mid = .running last) :
      Reaches p m last

theorem Reaches.trans (h : Reaches p m mid) (h' : Reaches p mid last) : Reaches p m last := by
  induction h' with
  | refl => exact h
  | step _ hstep ih => exact ih.step hstep

/-- What holds at first and is kept by each step holds for all reached machines. -/
theorem Reaches.invariant {I : Machine → Prop} (h : Reaches p m last) (hinitial : I m)
    (hstep : ∀ first second, I first → Machine.step p first = .running second → I second) :
    I last := by
  induction h with
  | refl => exact hinitial
  | step _ hnext ih => exact hstep _ _ ih hnext

theorem reaches_of_run {n : Nat} (h : run p n m = .running last) : Reaches p m last := by
  induction n generalizing m with
  | zero =>
      cases h
      exact .refl
  | succ n ih =>
      rw [run] at h
      cases hstep : step p m with
      | running next =>
          rw [hstep] at h
          exact Reaches.trans (.step .refl hstep) (ih h)
      | exited code next =>
          rw [hstep] at h
          cases h
      | faulted f next =>
          rw [hstep] at h
          cases h

/-- A run that goes on through one more step went on through those before it. -/
theorem run_succ_eq_running_iff {n : Nat} :
    run p (n + 1) m = .running last ↔
      ∃ mid, run p n m = .running mid ∧ step p mid = .running last := by
  induction n generalizing m with
  | zero =>
      simp only [run, Status.running.injEq, exists_eq_left']
      cases step p m <;> simp
  | succ n ih =>
      cases hstep : step p m with
      | running next =>
          have hrun : ∀ k, run p (k + 1) m = run p k next := fun k => by rw [run, hstep]
          rw [hrun, hrun]
          exact ih
      | exited code next => simp [run, hstep]
      | faulted f next => simp [run, hstep]

/-- A run that has stopped did so in a step from a machine that it reached. -/
theorem run_stopped {n : Nat} {s : Status} (h : run p n m = s) (hs : ∀ m', s ≠ .running m') :
    ∃ mid, Reaches p m mid ∧ step p mid = s := by
  induction n generalizing m with
  -- without a step the machine would still be running
  | zero => exact absurd h.symm (hs m)
  | succ n ih =>
      rw [run] at h
      cases hstep : step p m with
      | running next =>
          rw [hstep] at h
          obtain ⟨mid, hreach, hlast⟩ := ih h
          exact ⟨mid, Reaches.trans (.step .refl hstep) hreach, hlast⟩
      | exited code next =>
          rw [hstep] at h
          exact ⟨m, .refl, hstep.trans h⟩
      | faulted f next =>
          rw [hstep] at h
          exact ⟨m, .refl, hstep.trans h⟩

end IppCode.Machine
