import IppCode.Proofs.Requests

/-!
# Outputs with little room

A program is run twice, once with an output that takes everything and once with an output that takes
`n` bytes and refuses the rest.  The second run is the first one cut off where the room ends
(`bounded_output_truncates`).

The two runs go in step while the first output holds at most `n` bytes, since the streams differ in
nothing that is asked for (`BoundedBy.coincides_serve`).  If the first output comes to hold more,
then in one step, which writes (`exists_crossing`, `exists_write`); there the second run fails.
-/

namespace IppCode

/-! ## Bytes held -/

namespace Streams

variable {s t : Streams} {n : Nat} {refusal : String}

/-- The output knows how many bytes it has taken. -/
def Counted (s : Streams) : Prop :=
  s.output.held = (s.written .output).length

theorem output_ne_diagnostics : Channel.output ≠ .diagnostics := by decide

theorem held_accept (s : Streams) (bytes : List UInt8) :
    (s.accept .output bytes).output.held = s.output.held + bytes.length :=
  congrArg Sink.held (sink_accept s .output bytes)

theorem held_write_diagnostics (bytes : List UInt8) (s : Streams) :
    (endState (write .diagnostics bytes s)).output.held = s.output.held := by
  rw [endState_write]
  exact congrArg Sink.held (sink_accept_ne _ output_ne_diagnostics)

theorem held_flush (c : Channel) (s : Streams) :
    (endState (flush c s)).output.held = s.output.held := by
  rw [endState_flush]
  cases c <;> rfl

theorem Counted.serve (h : s.Counted) (r : Request) : (endState (r.serve s)).Counted := by
  refine serve_invariant r ?_ ?_ ?_ ?_ h
  · intro type _ s hs
    rw [endState_readValue]
    exact hs
  · intro c s hs
    rw [Counted, held_flush, endState_flush, written_afterFlush]
    exact hs
  · intro bytes s hs
    rw [Counted, held_write_diagnostics, endState_write, written_accept_ne _ output_ne_diagnostics]
    exact hs
  · intro text _ s hs
    rw [Counted, writeText, endState_write, written_accept, List.length_append, ← hs]
    exact held_accept s _

/-! ## A bound for the output -/

/-- The streams with an output that has room for `n` bytes in all. -/
def withBound (n : Nat) (refusal : String) (s : Streams) : Streams :=
  { s with output := { s.output with room := fun _ held => some (n - held), refusal } }

/-- The first output takes everything, the second one has room for `n` bytes in all, and nothing
else differs. -/
structure BoundedBy (n : Nat) (refusal : String) (s t : Streams) : Prop where
  room : s.output.room = fun _ _ => none
  flushFailure : s.output.flushFailure = fun _ => none
  bounded : t = s.withBound n refusal

theorem BoundedBy.accept (h : s.BoundedBy n refusal t) (c : Channel) (bytes : List UInt8) :
    (s.accept c bytes).BoundedBy n refusal (t.accept c bytes) := by
  obtain ⟨hroom, hflush, rfl⟩ := h
  unfold Streams.accept
  split <;> cases c <;> exact ⟨hroom, hflush, rfl⟩

theorem BoundedBy.afterFlush (h : s.BoundedBy n refusal t) (c : Channel) :
    (s.afterFlush c).BoundedBy n refusal (t.afterFlush c) := by
  obtain ⟨hroom, hflush, rfl⟩ := h
  cases c <;> exact ⟨hroom, hflush, rfl⟩

/-- An output that takes everything takes all bytes. -/
theorem BoundedBy.taken (h : s.BoundedBy n refusal t) (bytes : List UInt8) :
    s.taken .output bytes = bytes := by
  rw [Streams.taken, Sink.taking, show (s.sink .output).room = _ from h.room, List.take_length]

theorem BoundedBy.taking (h : s.BoundedBy n refusal t) (k : Nat) :
    (t.sink .output).taking k = min k (n - s.output.held) := by
  rw [h.bounded]
  rfl

theorem BoundedBy.endState_write (h : s.BoundedBy n refusal t) (bytes : List UInt8) :
    endState (write .output bytes s) = s.accept .output bytes := by
  rw [Streams.endState_write, h.taken]

/-- Where there is not enough room, a write fails and what fits stays written. -/
theorem BoundedBy.write_eq_error (h : s.BoundedBy n refusal t) {bytes : List UInt8}
    (hheld : s.output.held ≤ n) (hlt : n < s.output.held + bytes.length) :
    write .output bytes t =
      .error refusal (t.accept .output (bytes.take (n - s.output.held))) := by
  have hroom : n - s.output.held < bytes.length := by omega
  have hrefusal : (t.sink .output).refusal = refusal := by
    rw [h.bounded]
    rfl
  have hle : n - s.output.held ≤ bytes.length := Nat.le_of_lt hroom
  simp only [write, h.taking, Nat.min_eq_right hle, List.length_take_of_le hle]
  rw [if_pos hroom, hrefusal]

theorem BoundedBy.coincides_write (n : Nat) (refusal : String) (c : Channel) (bytes : List UInt8) :
    Coincides (fun s => s.output.held ≤ n) (BoundedBy n refusal) (write c bytes) := by
  intro s t h hheld
  cases c with
  | diagnostics =>
      have hsink : t.sink .diagnostics = s.sink .diagnostics := by
        rw [h.bounded]
        rfl
      exact sameAnswer_write (by rw [hsink]) (fun _ => by rw [hsink]) (h.accept _ _)
  | output =>
      rw [h.endState_write, held_accept] at hheld
      have hall : (s.sink .output).taking bytes.length = bytes.length := by
        rw [Sink.taking, show (s.sink .output).room = _ from h.room]
      refine sameAnswer_write ?_ ?_ (h.accept _ _)
      · rw [h.taking, hall]
        omega
      · rw [h.taken]
        exact fun hlt => absurd hlt (Nat.lt_irrefl _)

theorem BoundedBy.coincides_serve (n : Nat) (refusal : String) (r : Request) :
    Coincides (fun s => s.output.held ≤ n) (BoundedBy n refusal) r.serve := by
  refine Streams.coincides_serve (fun s s' hgrows hheld => Nat.le_trans (hgrows.held .output) hheld)
    (coincides_write n refusal) ?_ r ?_
  · intro c s t h _
    refine sameAnswer_flush ?_ (h.afterFlush c)
    rw [h.bounded]
    cases c <;> rfl
  · intro type _ s t h _
    obtain ⟨hroom, hflush, rfl⟩ := h
    exact sameAnswer_readValue rfl fun input => ⟨hroom, hflush, rfl⟩

/-- Only a write to the output makes it hold more. -/
theorem exists_write {r : Request} (hheld : s.output.held ≤ n)
    (hlt : n < (endState (r.serve s)).output.held) : ∃ text, r = .write text := by
  by_contra hno
  refine absurd hlt (Nat.not_lt.2 ?_)
  refine serve_invariant (I := fun s => s.output.held ≤ n) r ?_ ?_ ?_ ?_ hheld
  · intro type _ s hs
    rw [endState_readValue]
    exact hs
  · intro c s hs
    rw [held_flush]
    exact hs
  · intro bytes s hs
    rw [held_write_diagnostics]
    exact hs
  · intro text hr
    exact absurd ⟨text, hr⟩ hno

end Streams

/-! ## Runs -/

open Streams (Request BoundedBy Counted)

theorem Operation.eq_write_of_request? {m : Machine} {op : Operation Nat} {text : String}
    (h : op.request? m = some (.write text)) :
    ∃ a v, op = .write a ∧ a.eval m.memory = .ok v ∧ v.text = text := by
  cases op with
  | write a =>
      obtain ⟨v, hv, htext⟩ := Option.map_eq_some_iff.1 h
      cases htext
      cases hvalue : a.eval m.memory with
      | error e =>
          rw [hvalue] at hv
          cases hv
      | ok w =>
          rw [hvalue] at hv
          cases hv
          exact ⟨a, v, rfl, hvalue, rfl⟩
  | print a | exit a =>
      obtain ⟨v, -, hrequest⟩ := Option.map_eq_some_iff.1 h
      cases hrequest
  | _ => cases h

namespace Machine

variable {is : List Instruction} {p : Program} {m mid : Machine} {t : Streams} {n steps : Nat}
  {refusal : String} {full cut : Status}

theorem counted_run (p : Program) (steps : Nat) (h : m.streams.Counted) :
    (run p steps m).machine.streams.Counted :=
  streams_run_invariant (I := Counted)
    (fun _ hmid => streams_step_invariant (I := Counted) (fun r _ => hmid.serve r) hmid) steps h

/-- What a run has lost on the way, it has lost in one of its steps. -/
theorem exists_crossing {G : Streams → Prop} (hm : G m.streams)
    (hend : ¬ G (run p steps m).machine.streams) :
    ∃ before more mid, steps = before + (more + 1) ∧ run p before m = .running mid ∧
      G mid.streams ∧ ¬ G (step p mid).machine.streams := by
  induction steps generalizing m with
  | zero => exact absurd hm hend
  | succ steps ih =>
      by_cases hstep : G (step p m).machine.streams
      · -- the step loses nothing, so the run must go on behind it
        cases hnext : step p m with
        | running m' =>
            rw [run_succ_of_running hnext] at hend
            rw [hnext] at hstep
            obtain ⟨before, more, mid, hsteps, hrun, hmid⟩ := ih hstep hend
            refine ⟨before + 1, more, mid, by omega, ?_, hmid⟩
            rw [run_succ_of_running hnext]
            exact hrun
        | exited code m' =>
            rw [run_succ_of_stopped hnext Status.stopped_exited, ← hnext] at hend
            exact absurd hstep hend
        | faulted f m' =>
            rw [run_succ_of_stopped hnext Status.stopped_faulted, ← hnext] at hend
            exact absurd hstep hend
      · exact ⟨0, steps, m, by omega, rfl, hm, hstep⟩

/-- While the first output holds no more than the second one has room for, the runs are in step. -/
theorem run_inStep_of_held_le (h : m.streams.BoundedBy n refusal t)
    (hheld : (run p steps m).machine.streams.output.held ≤ n) :
    (run p steps m).InStep (BoundedBy n refusal) (run p steps (m.withStreams t)) :=
  run_inStep (fun _ _ hgrows hle => Nat.le_trans (hgrows.held .output) hle)
    (BoundedBy.coincides_serve n refusal) steps h hheld

/-- In the step that brings the first output more than the second one has room for, the second
program writes what fits and fails. -/
theorem step_of_held_lt (hp : Program.ofInstructions is = .ok p)
    (h : mid.streams.BoundedBy n refusal t) (hheld : mid.streams.output.held ≤ n)
    (hlt : n < (step p mid).machine.streams.output.held) :
    ∃ bytes, (step p mid).machine.streams.written .output =
        mid.streams.written .output ++ bytes ∧
      n < mid.streams.output.held + bytes.length ∧
      (∃ i, is[mid.position]? = some i ∧ i.opcode = .write) ∧
      step p (mid.withStreams t) = .faulted ⟨.io refusal, some (mid.position, .write)⟩
        (mid.withStreams (t.accept .output (bytes.take (n - mid.streams.output.held)))) := by
  cases hrequest : request? p mid with
  | none =>
      rw [(streams_step p mid).1 hrequest] at hlt
      exact absurd hlt (Nat.not_lt.2 hheld)
  | some r =>
      rw [(streams_step p mid).2 r hrequest] at hlt ⊢
      -- of all requests only a write adds to what the output holds
      obtain ⟨text, rfl⟩ := Streams.exists_write hheld hlt
      obtain ⟨line, hline, hline_request⟩ := exists_line_of_request? hrequest (by simp)
      obtain ⟨a, v, hop, hvalue, rfl⟩ := Operation.eq_write_of_request? hline_request
      have hopcode : line.instruction.opcode = .write := by
        rw [← opcode_of_line hp hline, hop, Operation.opcode]
      rw [Request.serve, Streams.silently, endState_map, Streams.writeText,
        h.endState_write] at hlt ⊢
      rw [Streams.held_accept] at hlt
      have hfails : Fails (mid.withStreams t) line.operation (.io refusal)
          (mid.withStreams (t.accept .output
            ((Text.Utf8.encode v.text).take (n - mid.streams.output.held)))) := by
        rw [hop]
        exact .writeOutput hvalue (h.write_eq_error hheld hlt)
      refine ⟨_, Streams.written_accept _ _ _, hlt, ⟨line.instruction, ?_, hopcode⟩, ?_⟩
      · exact (Program.line_of_getElem? hp hline).1
      · rw [@step_of_fails p (mid.withStreams t) _ _ line hline hfails, hopcode]
        rfl

/-- How a program ends that runs out of room, compared with the streams `full` that it would leave
with enough room.  Both have started on the same input. -/
structure CutOff (is : List Instruction) (input : Source) (n : Nat) (refusal : String)
    (full : Streams) (status : Status) : Prop where
  /-- It fails at an instruction that writes. -/
  fault : ∃ q i f m, is[q]? = some i ∧ i.opcode = .write ∧ f = ⟨.io refusal, some (q, .write)⟩ ∧
    f.code = 99 ∧ status = .faulted f m
  output : status.machine.streams.written .output = (full.written .output).take n
  diagnostics : status.machine.streams.written .diagnostics <+: full.written .diagnostics
  /-- What it has consumed of the input is consumed by the other program too. -/
  consumed : ∃ early late, input.unread = early ++ status.machine.streams.input.unread ∧
    input.unread = early ++ late ++ full.input.unread

/-- Bytes behind the bound do not matter. -/
theorem append_take_eq_take {held bytes more : List UInt8} (hle : held.length ≤ n)
    (hlt : n < held.length + bytes.length) :
    held ++ bytes.take (n - held.length) = (held ++ bytes ++ more).take n := by
  have hroom : n - held.length ≤ bytes.length := by omega
  rw [List.append_assoc, List.take_append, List.take_of_length_le hle,
    List.take_append_of_le_length hroom]

/-- The step in which the room does not suffice cuts the program off, however the other program goes
on behind it. -/
theorem cutOff_of_step (hp : Program.ofInstructions is = .ok p) {start full : Streams}
    (hstart : start.Grows t) (h : mid.streams.BoundedBy n refusal t)
    (hcounted : mid.streams.Counted) (hheld : mid.streams.output.held ≤ n)
    (hlt : n < (step p mid).machine.streams.output.held)
    (hfull : (step p mid).machine.streams.Grows full) :
    CutOff is start.input n refusal full (step p (mid.withStreams t)) := by
  obtain ⟨bytes, hwritten, hmore, ⟨i, hi, hopcode⟩, hstep⟩ := step_of_held_lt hp h hheld hlt
  have hlater : mid.streams.Grows full := (grows_step p mid).trans hfull
  obtain ⟨-, -, rfl⟩ := h
  rw [hstep]
  refine ⟨⟨_, i, _, _, hi, hopcode, rfl, rfl, rfl⟩, ?_, ?_, ?_⟩
  · obtain ⟨rest, hrest⟩ := hfull.written .output
    -- the sink counts the bytes, so its bound is one on what was written
    unfold Counted at hcounted
    rw [hcounted] at hheld hmore ⊢
    rw [← hrest, hwritten, ← append_take_eq_take hheld hmore]
    exact Streams.written_accept _ _ _
  · change ((mid.streams.withBound n refusal).accept .output _).written .diagnostics <+: _
    rw [Streams.written_accept_ne _ Streams.output_ne_diagnostics.symm]
    exact hlater.written .diagnostics
  · obtain ⟨early, hearly⟩ := hstart.unread
    obtain ⟨late, hlate⟩ := hlater.unread
    refine ⟨early, late, ?_, ?_⟩
    · rw [← hearly]
      exact congrArg (early ++ ·.unread) (Streams.input_accept _ _ _).symm
    · rw [List.append_assoc, hlate]
      exact hearly.symm

theorem cutOff_of_held_lt (hp : Program.ofInstructions is = .ok p)
    (h : m.streams.BoundedBy n refusal t) (hcounted : m.streams.Counted)
    (hheld : m.streams.output.held ≤ n)
    (hlt : n < (run p steps m).machine.streams.output.held) :
    CutOff is t.input n refusal (run p steps m).machine.streams
      (run p steps (m.withStreams t)) := by
  obtain ⟨before, more, mid, rfl, hrun, hmid, hcross⟩ :=
    exists_crossing (G := fun s => s.output.held ≤ n) hheld (Nat.not_le.2 hlt)
  have hcounted_mid := counted_run p before hcounted
  have hstart := grows_run p before (m.withStreams t)
  -- up to the step in question the runs are in step
  have hinStep : (run p before m).InStep _ (run p before (m.withStreams t)) :=
    run_inStep_of_held_le h (by rw [hrun]; exact hmid)
  rw [hrun] at hcounted_mid hinStep
  generalize hrun' : run p before (m.withStreams t) = status at hstart hinStep
  cases hinStep with
  | @running _ t' hbounded =>
      have hcut : CutOff is t.input n refusal _ (step p (mid.withStreams t')) :=
        cutOff_of_step hp hstart hbounded hcounted_mid hmid (Nat.not_le.1 hcross)
          (grows_run_succ p more mid)
      obtain ⟨q, i, f, last, -, -, -, -, hstep⟩ := hcut.fault
      -- then the first run goes on, and the second one has failed
      rw [run_of_running hrun, run_of_running hrun',
        run_succ_of_stopped hstep Status.stopped_faulted, ← hstep]
      exact hcut

/-! ## Truncation -/

/-- **A bounded output only truncates.**  A program has stopped, and its output takes everything.
If instead the output takes `n` bytes in all and refuses the rest, the program stops too, within as
many steps, and the output holds the first `n` bytes.

* If these are all bytes, then the program ends in the same way, with the same machine, input and
  events.
* If they are not, then it fails at an instruction that writes.  What it has written to the
  diagnostics and consumed of the input until then is the beginning of what it has without a
  bound. -/
theorem bounded_output_truncates (hp : Program.ofInstructions is = .ok p) (input : Source)
    (diagnostics : Sink) (hfull : run p steps { streams := { input, diagnostics } } = full)
    (hstopped : full.Stopped)
    (hcut : run p steps { streams := { input, output := .bounded n refusal, diagnostics } } = cut) :
    cut.Stopped ∧
      cut.machine.streams.written .output = (full.machine.streams.written .output).take n ∧
      ((full.machine.streams.written .output).length ≤ n →
        full.InStep (fun s t => t.input = s.input ∧ t.events = s.events) cut) ∧
      (n < (full.machine.streams.written .output).length →
        CutOff is input n refusal full.machine.streams cut) := by
  have hbounded : BoundedBy n refusal { input, diagnostics }
      { input, output := .bounded n refusal, diagnostics } := ⟨rfl, rfl, rfl⟩
  have hcounted : Counted full.machine.streams := by
    rw [← hfull]
    exact counted_run p steps (m := { streams := { input, diagnostics } }) rfl
  rw [← hcounted]
  by_cases hheld : full.machine.streams.output.held ≤ n
  · have hinStep : full.InStep (BoundedBy n refusal) cut := by
      rw [← hfull] at hheld
      have h := run_inStep_of_held_le hbounded (m := { streams := { input, diagnostics } }) hheld
      rw [hfull] at h
      exact hcut ▸ h
    refine ⟨hinStep.stopped hstopped, ?_, fun _ => ?_, fun hlt => absurd hheld (Nat.not_le.2 hlt)⟩
    · rw [List.take_of_length_le (hcounted ▸ hheld), hinStep.streams.bounded]
      rfl
    · refine hinStep.mono fun s t h => ?_
      rw [h.bounded]
      exact ⟨rfl, rfl⟩
  · have hlt : n < full.machine.streams.output.held := Nat.not_le.1 hheld
    have hcutOff : CutOff is input n refusal full.machine.streams cut := by
      rw [← hfull] at hlt ⊢
      rw [← hcut]
      exact cutOff_of_held_lt (m := { streams := { input, diagnostics } }) hp hbounded rfl
        (Nat.zero_le n) hlt
    obtain ⟨q, i, f, m, -, -, -, -, hfault⟩ := hcutOff.fault
    refine ⟨?_, hcutOff.output, fun hle => absurd hle hheld, fun _ => hcutOff⟩
    rw [hfault]
    exact Status.stopped_faulted

/-- Writes two words, and nothing between them. -/
def twoWords : List Instruction :=
  [⟨.write, [.constant ⟨.string, "ab"⟩]⟩, ⟨.write, [.constant ⟨.string, ""⟩]⟩,
    ⟨.dprint, [.constant ⟨.string, "x"⟩]⟩, ⟨.write, [.constant ⟨.string, "cd"⟩]⟩]

/-- With room for three bytes the second word is cut, and with room for four nothing is. -/
theorem bounded_output_truncates_twoWords :
    ∃ p m, Program.ofInstructions twoWords = .ok p ∧ run p 5 {} = .exited 0 m ∧
      m.streams.written .output = Text.Utf8.encode "abcd" ∧
      (run p 5 { streams := { output := .bounded 3 "full" } }).machine.streams.written .output =
        Text.Utf8.encode "abc" ∧
      CutOff twoWords {} 3 "full" m.streams
        (run p 5 { streams := { output := .bounded 3 "full" } }) ∧
      (Status.exited 0 m).InStep (fun s t => t.input = s.input ∧ t.events = s.events)
        (run p 5 { streams := { output := .bounded 4 "full" } }) := by
  have hp : Program.ofInstructions twoWords = .ok _ := rfl
  obtain ⟨-, hthree, -, hcutOff⟩ :=
    @bounded_output_truncates twoWords _ 3 5 "full" (.exited 0 _) _ hp {} {} rfl
      Status.stopped_exited rfl
  obtain ⟨-, -, hfour, -⟩ :=
    @bounded_output_truncates twoWords _ 4 5 "full" (.exited 0 _) _ hp {} {} rfl
      Status.stopped_exited rfl
  exact ⟨_, _, hp, rfl, rfl, hthree, hcutOff (by decide), hfour (by decide)⟩

end Machine

end IppCode
