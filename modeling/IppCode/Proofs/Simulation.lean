import IppCode.Proofs.Runs

/-!
# Comparing the runs of two programs

Two programs are compared by a relation between their machines.  From related machines
both take a step and come to related machines, or both stop alike; or the second program
takes a step by itself, which brings it nearer to a machine from which the two go on
together.  How near it is is measured by a rank, so it cannot go on by itself for ever.

`Simulates.stops` says what this comes to: one program stops exactly if the other one does,
and they stop alike.
-/

namespace IppCode

/-- The program has ended or failed. -/
def Status.Stopped (s : Status) : Prop :=
  ∀ m, s ≠ .running m

theorem Status.stopped_exited {code : Nat} {m : Machine} : (Status.exited code m).Stopped := by
  simp [Status.Stopped]

theorem Status.stopped_faulted {f : Fault} {m : Machine} : (Status.faulted f m).Stopped := by
  simp [Status.Stopped]

namespace Machine

variable {p q : Program} {m m' n n' : Machine} {s s' : Status}

/-! ## Where a program stops -/

/-- The program, started on a machine, stops with a status. -/
def Stops (p : Program) (m : Machine) (s : Status) : Prop :=
  s.Stopped ∧ ∃ steps, run p steps m = s

theorem run_succ_of_running (h : step p m = .running n) (steps : Nat) :
    run p (steps + 1) m = run p steps n := by
  rw [run, h]

theorem run_succ_of_stopped (h : step p m = s) (hs : s.Stopped) (steps : Nat) :
    run p (steps + 1) m = s := by
  rw [run, h]
  cases s with
  | running last => exact absurd rfl (hs last)
  | exited code last => rfl
  | faulted f last => rfl

/-- A run goes on from the machine that it has come to. -/
theorem run_of_running {steps : Nat} (h : run p steps m = .running n) (more : Nat) :
    run p (steps + more) m = run p more n := by
  induction steps generalizing m with
  | zero =>
      cases h
      rw [Nat.zero_add]
  | succ steps ih =>
      rw [Nat.add_right_comm]
      cases hstep : step p m with
      | running m' =>
          rw [run_succ_of_running hstep] at h ⊢
          exact ih h
      | exited code m' =>
          rw [run_succ_of_stopped hstep Status.stopped_exited] at h
          cases h
      | faulted f m' =>
          rw [run_succ_of_stopped hstep Status.stopped_faulted] at h
          cases h

/-- A program stops as it does after its first step. -/
theorem stops_of_running (h : step p m = .running n) : Stops p m s ↔ Stops p n s := by
  constructor
  · rintro ⟨hs, steps, hrun⟩
    cases steps with
    | zero => exact absurd hrun.symm (hs m)
    | succ steps => exact ⟨hs, steps, (run_succ_of_running h steps).symm.trans hrun⟩
  · rintro ⟨hs, steps, hrun⟩
    exact ⟨hs, steps + 1, (run_succ_of_running h steps).trans hrun⟩

theorem stops_of_stopped (h : step p m = s) (hs : s.Stopped) : Stops p m s :=
  ⟨hs, 1, run_succ_of_stopped h hs 0⟩

/-! ## Simulation -/

/-- What a step of each of two programs comes to: related machines, or a stop in both. -/
inductive Together (R : Machine → Machine → Prop) (S : Status → Status → Prop) :
    Status → Status → Prop
  | running {m m' : Machine} (h : R m m') : Together R S (.running m) (.running m')
  | stopped {s s' : Status} (hs : s.Stopped) (hs' : s'.Stopped) (h : S s s') : Together R S s s'

/-- From related machines the two programs take a step together, or the second takes one by
itself and the rank falls. -/
def Simulates (p q : Program) (R : Machine → Machine → Prop) (S : Status → Status → Prop)
    (rank : Machine → Machine → Nat) : Prop :=
  ∀ m m', R m m' →
    Together R S (step p m) (step q m') ∨
      ∃ n', step q m' = .running n' ∧ R m n' ∧ rank m n' < rank m m'

namespace Simulates

variable {R : Machine → Machine → Prop} {S : Status → Status → Prop}
  {rank : Machine → Machine → Nat}

/-- The second program catches up with the first one. -/
theorem catch_up (h : Simulates p q R S rank) (hR : R m m') :
    ∃ n', R m n' ∧ (∀ s', Stops q m' s' ↔ Stops q n' s') ∧ Together R S (step p m) (step q n') := by
  -- the steps that it takes by itself lower the rank
  induction hrank : rank m m' using Nat.strongRecOn generalizing m' with
  | ind r ih =>
      rcases h m m' hR with htogether | ⟨n', hstep, hR', hlt⟩
      · exact ⟨m', hR, fun s' => Iff.rfl, htogether⟩
      · obtain ⟨last, hlast, hstops, htogether⟩ := ih (rank m n') (hrank ▸ hlt) hR' rfl
        exact ⟨last, hlast, fun s' => (stops_of_running hstep).trans (hstops s'), htogether⟩

theorem exists_right (h : Simulates p q R S rank) (hR : R m m') (hs : Stops p m s) :
    ∃ s', Stops q m' s' ∧ S s s' := by
  obtain ⟨hstopped, steps, hrun⟩ := hs
  induction steps generalizing m m' with
  | zero => exact absurd hrun.symm (hstopped m)
  | succ steps ih =>
      obtain ⟨n', -, hstops, htogether⟩ := h.catch_up hR
      generalize hp : step p m = sp at htogether
      generalize hq : step q n' = sq at htogether
      cases htogether with
      | running hR' =>
          rw [run_succ_of_running hp] at hrun
          obtain ⟨s', hs', hS⟩ := ih hR' hrun
          exact ⟨s', (hstops s').2 ((stops_of_running hq).2 hs'), hS⟩
      | stopped hsp hsq hS =>
          rw [run_succ_of_stopped hp hsp] at hrun
          subst hrun
          exact ⟨sq, (hstops sq).2 (stops_of_stopped hq hsq), hS⟩

theorem exists_left (h : Simulates p q R S rank) (hR : R m m') (hs : Stops q m' s') :
    ∃ s, Stops p m s ∧ S s s' := by
  obtain ⟨hstopped, steps, hrun⟩ := hs
  induction steps generalizing m m' with
  | zero => exact absurd hrun.symm (hstopped m')
  | succ steps ih =>
      rcases h m m' hR with htogether | ⟨n', hstep, hR', -⟩
      · generalize hp : step p m = sp at htogether
        generalize hq : step q m' = sq at htogether
        cases htogether with
        | running hR' =>
            rw [run_succ_of_running hq] at hrun
            obtain ⟨s, hs, hS⟩ := ih hR' hrun
            exact ⟨s, (stops_of_running hp).2 hs, hS⟩
        | stopped hsp hsq hS =>
            rw [run_succ_of_stopped hq hsq] at hrun
            subst hrun
            exact ⟨sp, stops_of_stopped hp hsp, hS⟩
      · rw [run_succ_of_running hstep] at hrun
        exact ih hR' hrun

/-- From related machines one program stops exactly if the other does, and they stop
alike. -/
theorem stops (h : Simulates p q R S rank) (hR : R m m') :
    (∀ s, Stops p m s → ∃ s', Stops q m' s' ∧ S s s') ∧
      ∀ s', Stops q m' s' → ∃ s, Stops p m s ∧ S s s' :=
  ⟨fun _ => h.exists_right hR, fun _ => h.exists_left hR⟩

end Simulates

end Machine

end IppCode
