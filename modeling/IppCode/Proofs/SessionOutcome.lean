import Mathlib.Logic.ExistsUnique
import IppCode.Session
import IppCode.Proofs.ConstantTable
import IppCode.Proofs.DocumentComments
import IppCode.Proofs.Requests
import IppCode.Proofs.RuntimeErrors

/-!
# How sessions end

A session ends in one of three ways.  Its source holds no program; or the program exits; or it
fails.  Each way has its own exit codes, and what goes wrong is reported on the diagnostics, behind
an attempt to flush the output (`session_outcome`).

* The codes of refused sources come from the diagnosis of the check (`code_of_load`), those of
  failed programs from the kinds of errors that opcodes can have (`code_of_faulted`).
* What happens during the report cannot change the exit code: on streams that answer alike up to
  the failure and in any way afterwards, the session ends with the same code
  (`AgreesUntil.run_faulted`).
-/

namespace IppCode

/-! ## Exit codes -/

theorem code_of_check {is : List Instruction} {f : Fault} (h : check is = .error f) :
    f.code ∈ [32, 52, 53, 57] := by
  by_cases hviolated : ∃ p, Violates is p
  · obtain ⟨p, i, e, -, -, -, hdiagnosis, hstop⟩ := check_of_violation hviolated
    rw [hstop is fun q _ => rfl] at h
    cases h
    cases hdiagnosis with
    | shape hshape =>
        cases hshape <;> simp [Fault.code, ExecError.code, ExecError.kind, ErrorKind.code]
    | constants _ hconstant =>
        cases hconstant <;> simp [Fault.code, ExecError.code, ExecError.kind, ErrorKind.code]
    | duplicate => simp [Fault.code, ExecError.code, ExecError.kind, ErrorKind.code]
  · rcases check_of_clean (not_exists.1 hviolated) with
      ⟨labels, -, -, hcheck⟩ | ⟨names, -, -, hcheck⟩
    · rw [hcheck] at h
      cases h
    · rw [hcheck] at h
      cases h
      simp [Fault.code, ExecError.code, ExecError.kind, ErrorKind.code]

theorem LoadError.code_mem (e : LoadError) : e.code ∈ [31, 32] := by
  cases e <;> simp [LoadError.code]

namespace Program

variable {parser : Markup.Parser} {source : List UInt8}

theorem exists_instructions {p : Program} (h : load parser source = .ok p) :
    ∃ is, ofInstructions is = .ok p := by
  unfold load at h
  split at h
  · cases h
  · split at h
    · cases h
    · next hq =>
        cases h
        exact ⟨_, hq⟩

/-- A source is refused as a document, or because of its instructions. -/
theorem code_of_load {e : ProgramError} (h : load parser source = .error e) :
    e.code ∈ [31, 32, 52, 53, 57] := by
  unfold load at h
  split at h
  · next why _ =>
      cases h
      have hmem : why.code ∈ [31, 32] := why.code_mem
      simp only [List.mem_cons, List.not_mem_nil, or_false] at hmem
      rcases hmem with hcode | hcode <;> simp [ProgramError.code, hcode]
  · split at h
    · next fault hfault =>
        cases h
        have hmem : fault.code ∈ [32, 52, 53, 57] :=
          code_of_check (ofInstructions_eq_error_iff.1 hfault)
        exact List.mem_cons_of_mem 31 hmem
    · cases h

/-- The text of an accepted program is loaded from its bytes. -/
theorem load_encode {text : String} {is : List Instruction} {p : Program}
    (hparse : Document.parse parser text = .ok is) (hp : ofInstructions is = .ok p) :
    load parser (Text.Utf8.encode text) = .ok p := by
  simp only [load, Document.read, Text.Utf8.decode, Text.Utf8.decode?_encode, hparse, hp]

/-- A text that the parser finds to be no document is refused for the reason it gives. -/
theorem load_encode_of_read_error {text why : String} (h : parser.read text = .error why) :
    load parser (Text.Utf8.encode text) = .error (.load (.notWellFormed why)) := by
  simp only [load, Document.read, Document.parse, Text.Utf8.decode, Text.Utf8.decode?_encode, h]

end Program

theorem Opcode.code_of_runtimeErrors (opcode : Opcode) :
    ∀ kind ∈ opcode.runtimeErrors, kind.code ∈ [52, 53, 54, 55, 56, 57, 58, 99] := by
  cases opcode <;> decide

namespace Machine

variable {is : List Instruction} {p : Program} {m last : Machine} {n code : Nat} {f : Fault}

theorem code_le_of_exitCode {v : Value} (h : exitCode v = .ok code) : code ≤ 49 := by
  unfold exitCode at h
  split at h
  · split at h
    · next hcode =>
        cases h
        obtain ⟨hrange, hcode⟩ := exitCode?_eq_some_iff.1 hcode
        omega
    · cases h
  · cases h

theorem Ending.code_le (h : Ending p m code last) : code ≤ 49 := by
  cases h with
  | behind => omega
  | @exit line _ _ _ hexec =>
      generalize line.operation = op at hexec
      cases hexec with
      | exit _ hcode => exact code_le_of_exitCode hcode

theorem code_le_of_exited (h : run p n m = .exited code last) : code ≤ 49 := by
  obtain ⟨mid, -, hstep⟩ := run_stopped h (by simp)
  obtain ⟨before, streams, hending, -, -⟩ := step_exited hstep
  exact hending.code_le

/-- The codes of running programs are those of the errors that their opcodes can have. -/
theorem code_of_faulted (hp : Program.ofInstructions is = .ok p)
    (h : run p n m = .faulted f last) : f.code ∈ [52, 53, 54, 55, 56, 57, 58, 99] := by
  obtain ⟨mid, -, hstep⟩ := run_stopped h (by simp)
  rcases step_faulted hstep with
    ⟨line, hline, hfails, -⟩ | ⟨code, before, text, streams, -, -, rfl, -⟩
  · exact Opcode.code_of_runtimeErrors _ _ (kind_of_line hp hline hfails).1
  · simp [Fault.code, ExecError.code, ExecError.kind, ErrorKind.code]

end Machine

/-! ## Reports -/

namespace Session

/-- The line that reports what went wrong. -/
def errorLine (message : String) : List UInt8 :=
  Text.Utf8.encode ("error: " ++ message ++ "\n")

/-- A report has been made: a flush of the output was tried, then the line was written as far as
the diagnostics take it, then a flush of the diagnostics was tried.  Nothing was read. -/
structure Reported (message : String) (s s' : Streams) : Prop where
  events : ∃ failure, s'.events = s.events ++
    .flushed .output (s.output.flushFailure s.output.served) ::
      (Streams.wrote .diagnostics (s.taken .diagnostics (errorLine message)) ++
        [.flushed .diagnostics failure])
  input : s'.input = s.input

theorem attempt_eq (act : EStateM String Streams Unit) (s : Streams) :
    attempt act s = endState (act s) := by
  unfold attempt
  cases act s <;> rfl

theorem report_eq (message : String) (s : Streams) :
    report message s = ((s.afterFlush .output).accept .diagnostics
      (s.taken .diagnostics (errorLine message))).afterFlush .diagnostics := by
  rw [report, attempt_eq, attempt_eq, attempt_eq, Streams.endState_flush, Streams.endState_flush,
    Streams.writeText, Streams.endState_write]
  rfl

theorem reported_report (message : String) (s : Streams) :
    Reported message s (report message s) where
  events := by
    rw [report_eq, Streams.events_afterFlush, Streams.events_accept, Streams.events_afterFlush]
    exact ⟨_, by simp only [List.append_assoc, List.cons_append, List.nil_append]; rfl⟩
  input := by
    rw [report_eq, Streams.input_afterFlush, Streams.input_accept, Streams.input_afterFlush]

/-- A report brings nothing to the output. -/
theorem Reported.written_output {message : String} {s s' : Streams} (h : Reported message s s') :
    s'.written .output = s.written .output := by
  obtain ⟨failure, hevents⟩ := h.events
  rw [Streams.written_of_events hevents]
  unfold Streams.wrote
  split <;> simp [Event.bytesTo]

end Session

/-! ## Streams that agree for a while -/

/-- The second sink stands where the first one does, and answers alike all requests before the
`k`-th. -/
structure Sink.AgreesUntil (k : Nat) (a b : Sink) : Prop where
  served : b.served = a.served
  held : b.held = a.held
  refusal : b.refusal = a.refusal
  room : ∀ j < k, b.room j = a.room j
  flushFailure : ∀ j < k, b.flushFailure j = a.flushFailure j

/-- Two sinks that agree still do so when both have taken bytes. -/
theorem Sink.AgreesUntil.take {k : Nat} {a b : Sink} (h : a.AgreesUntil k b) (n : Nat) :
    (a.take n).AgreesUntil k (b.take n) where
  served := congrArg (· + 1) h.served
  held := congrArg (· + n) h.held
  refusal := h.refusal
  room := h.room
  flushFailure := h.flushFailure

namespace Streams

/-- The second streams are like the first ones, and answer alike all requests up to those that
the streams `stop` have served. -/
structure AgreesUntil (stop s t : Streams) : Prop where
  input : t.input = s.input
  log : t.log = s.log
  sink : ∀ c, (s.sink c).AgreesUntil (stop.sink c).served (t.sink c)

/-- No sink has served more requests than those of the streams `stop`. -/
def Within (stop s : Streams) : Prop :=
  ∀ c, (s.sink c).served ≤ (stop.sink c).served

variable {stop s t : Streams} {c : Channel}

theorem Within.of_grows {s' : Streams} (hgrows : s.Grows s') (h : stop.Within s') :
    stop.Within s :=
  fun c => Nat.le_trans (hgrows.served c) (h c)

/-- Two sinks that agree take bytes alike. -/
theorem AgreesUntil.accept (h : stop.AgreesUntil s t) (c : Channel) (bytes : List UInt8) :
    stop.AgreesUntil (s.accept c bytes) (t.accept c bytes) where
  input := by rw [input_accept, input_accept, h.input]
  log := by
    have hevents : (t.accept c bytes).events = (s.accept c bytes).events := by
      rw [events_accept, events_accept, events, events, h.log]
    exact List.reverse_injective hevents
  sink d := by
    by_cases hd : d = c
    · rw [hd, sink_accept, sink_accept]
      exact (h.sink c).take _
    · rw [sink_accept_ne bytes hd, sink_accept_ne bytes hd]
      exact h.sink d

/-- A request that `stop` has served before finds the sinks alike. -/
theorem AgreesUntil.served_lt {s' : Streams} {n : Nat} (hsink : s'.sink c = (s.sink c).take n)
    (hwithin : stop.Within s') : (s.sink c).served < (stop.sink c).served := by
  have hle := hwithin c
  rw [hsink] at hle
  exact hle

theorem AgreesUntil.afterFlush (h : stop.AgreesUntil s t)
    (hlt : (s.sink c).served < (stop.sink c).served) :
    stop.AgreesUntil (s.afterFlush c) (t.afterFlush c) where
  input := by rw [input_afterFlush, input_afterFlush, h.input]
  log := by
    have hevents : (t.afterFlush c).events = (s.afterFlush c).events := by
      rw [events_afterFlush, events_afterFlush, events, events, h.log, (h.sink c).served,
        (h.sink c).flushFailure _ hlt]
    exact List.reverse_injective hevents
  sink d := by
    by_cases hd : d = c
    · rw [hd, sink_afterFlush, sink_afterFlush]
      exact (h.sink c).take 0
    · rw [sink_afterFlush_ne hd, sink_afterFlush_ne hd]
      exact h.sink d

theorem AgreesUntil.coincides_write (stop : Streams) (c : Channel) (bytes : List UInt8) :
    Coincides stop.Within stop.AgreesUntil (write c bytes) := by
  intro s t h hwithin
  rw [endState_write] at hwithin
  have hlt := AgreesUntil.served_lt (sink_accept s c _) hwithin
  have htaking : ∀ n, (t.sink c).taking n = (s.sink c).taking n := by
    intro n
    rw [Sink.taking, Sink.taking, (h.sink c).served, (h.sink c).held, (h.sink c).room _ hlt]
  exact sameAnswer_write (htaking _) (fun _ => (h.sink c).refusal) (h.accept c _)

theorem AgreesUntil.coincides_flush (stop : Streams) (c : Channel) :
    Coincides stop.Within stop.AgreesUntil (flush c) := by
  intro s t h hwithin
  rw [endState_flush] at hwithin
  have hlt := AgreesUntil.served_lt (sink_afterFlush s c) hwithin
  refine sameAnswer_flush ?_ (h.afterFlush hlt)
  rw [(h.sink c).served, (h.sink c).flushFailure _ hlt]

theorem AgreesUntil.coincides_serve (stop : Streams) (r : Request) :
    Coincides stop.Within stop.AgreesUntil r.serve := by
  refine Streams.coincides_serve (fun _ _ => Within.of_grows) (coincides_write stop)
    (coincides_flush stop) r fun type _ s t h _ => ?_
  exact sameAnswer_readValue h.input fun input =>
    ⟨rfl, h.log, fun c => by cases c <;> exact h.sink _⟩

/-- On streams that agree up to a failure a program fails alike. -/
theorem AgreesUntil.run_faulted {p : Program} {n : Nat} {f : Fault} {m : Machine}
    (hrun : Machine.run p n { streams := s } = .faulted f m) (h : m.streams.AgreesUntil s t) :
    ∃ m', Machine.run p n { streams := t } = .faulted f m' := by
  have hinStep := Machine.run_inStep (fun _ _ => Within.of_grows)
    (AgreesUntil.coincides_serve m.streams) n (m := { streams := s }) h
    (p := p) (by rw [hrun]; exact fun c => Nat.le_refl _)
  rw [hrun] at hinStep
  change Status.InStep _ _ (Machine.run p n { streams := t }) at hinStep
  generalize Machine.run p n { streams := t } = status at hinStep
  cases hinStep with
  | faulted _ => exact ⟨_, rfl⟩

end Streams

/-! ## Outcomes -/

namespace Session

/-- How a session ends. -/
inductive Verdict where
  | refused (why : ProgramError)
  | exited
  | faulted (f : Fault)

/-- What it means for a session, which takes `steps` at most and leaves a code and streams, to end
in one of the three ways. -/
def Verdict.Explains (parser : Markup.Parser) (steps : Nat) (source : List UInt8) (s : Streams)
    (code : Nat) (s' : Streams) : Verdict → Prop
  | .refused why => Program.load parser source = .error why ∧ code = why.code ∧
      code ∈ [31, 32, 52, 53, 57] ∧ s'.written .output = s.written .output ∧ s'.input = s.input ∧
      Reported why.message s s' ∧ ∀ t, ∃ t', execute parser steps source t = some (code, t')
  | .exited => ∃ p m, Program.load parser source = .ok p ∧
      Machine.run p steps { streams := s } = .exited code m ∧ code ≤ 49 ∧ s' = m.streams
  | .faulted f => ∃ p m, Program.load parser source = .ok p ∧
      Machine.run p steps { streams := s } = .faulted f m ∧ code = f.code ∧
      code ∈ [52, 53, 54, 55, 56, 57, 58, 99] ∧ Reported f.message m.streams s' ∧
      ∀ t, m.streams.AgreesUntil s t → ∃ t', execute parser steps source t = some (code, t')

/-- What the loader and the run say. -/
def verdict (parser : Markup.Parser) (steps : Nat) (source : List UInt8) (s : Streams) : Verdict :=
  match Program.load parser source with
  | .error why => .refused why
  | .ok p =>
    match Machine.run p steps { streams := s } with
    | .faulted f _ => .faulted f
    | _ => .exited

section Outcome

variable {parser : Markup.Parser} {steps code : Nat} {source : List UInt8} {s s' : Streams}
  {p : Program}

theorem execute_of_load_error {e : ProgramError} (h : Program.load parser source = .error e)
    (steps : Nat) (s : Streams) :
    execute parser steps source s = some (e.code, report e.message s) := by
  rw [execute, h]

theorem execute_of_load_ok (h : Program.load parser source = .ok p) (steps : Nat) (s : Streams) :
    execute parser steps source s = outcome? (Machine.run p steps { streams := s }) := by
  rw [execute, h]

/-- Only one verdict can explain a session: what the loader and the run say. -/
theorem Verdict.Explains.eq {v : Verdict} (h : v.Explains parser steps source s code s') :
    v = verdict parser steps source s := by
  unfold verdict
  cases v with
  | refused why =>
      obtain ⟨hload, -⟩ := h
      rw [hload]
  | exited =>
      obtain ⟨p, m, hload, hrun, -⟩ := h
      simp only [hload, hrun]
  | faulted f =>
      obtain ⟨p, m, hload, hrun, -⟩ := h
      simp only [hload, hrun]

theorem exists_explains (h : execute parser steps source s = some (code, s')) :
    ∃ v : Verdict, v.Explains parser steps source s code s' := by
  cases hload : Program.load parser source with
  | error e =>
      rw [execute_of_load_error hload] at h
      cases h
      have hreported := reported_report e.message s
      exact ⟨.refused e, hload, rfl, Program.code_of_load hload, hreported.written_output,
        hreported.input, hreported, fun t => ⟨_, execute_of_load_error hload steps t⟩⟩
  | ok p =>
      rw [execute_of_load_ok hload] at h
      obtain ⟨is, hp⟩ := Program.exists_instructions hload
      cases hrun : Machine.run p steps { streams := s } with
      | running m =>
          rw [hrun] at h
          cases h
      | exited c m =>
          rw [hrun] at h
          cases h
          exact ⟨.exited, p, m, hload, hrun, Machine.code_le_of_exited hrun, rfl⟩
      | faulted f m =>
          rw [hrun] at h
          cases h
          refine ⟨.faulted f, p, m, hload, hrun, rfl, Machine.code_of_faulted hp hrun,
            reported_report _ _, ?_⟩
          -- other streams that answer alike up to the failure lead to the same one
          intro t ht
          obtain ⟨m', hrun'⟩ := Streams.AgreesUntil.run_faulted hrun ht
          exact ⟨_, by rw [execute_of_load_ok hload, hrun', outcome?]⟩

theorem execute_eq_none_iff : execute parser steps source s = none ↔
    ∃ p m, Program.load parser source = .ok p ∧
      Machine.run p steps { streams := s } = .running m := by
  constructor
  · intro h
    cases hload : Program.load parser source with
    | error e =>
        rw [execute_of_load_error hload] at h
        cases h
    | ok p =>
        rw [execute_of_load_ok hload] at h
        cases hrun : Machine.run p steps { streams := s } with
        | running m => exact ⟨p, m, rfl, hrun⟩
        | exited code m =>
            rw [hrun] at h
            cases h
        | faulted f m =>
            rw [hrun] at h
            cases h
  · rintro ⟨p, m, hload, hrun⟩
    rw [execute_of_load_ok hload, hrun, outcome?]

end Outcome

/-- **Outcomes.**  A session ends unless its program is still running, and then in exactly one way.

* The source is refused: the code is that of the refusal, nothing is written to the output and
  nothing is read, and the refusal is reported.  The code is the same on all streams.
* The program exits: the code is at most 49, and the streams are left as the program left them.
* The program fails: the code is that of its fault, which is none of the codes of documents, and the
  fault is reported.  The code is the same on all streams that answer alike up to the failure. -/
theorem session_outcome (parser : Markup.Parser) (steps : Nat) (source : List UInt8) (s : Streams) :
    (execute parser steps source s = none ↔
      ∃ p m, Program.load parser source = .ok p ∧
        Machine.run p steps { streams := s } = .running m) ∧
    ∀ code s', execute parser steps source s = some (code, s') →
      ∃! v : Verdict, v.Explains parser steps source s code s' := by
  refine ⟨execute_eq_none_iff, fun code s' h => ?_⟩
  obtain ⟨v, hv⟩ := exists_explains h
  refine ⟨v, hv, fun w hw => ?_⟩
  rw [Verdict.Explains.eq hw, Verdict.Explains.eq hv]

/-- The output cannot be flushed, and the diagnostics take seven bytes. -/
def fullDisk : Streams where
  output := { flushFailure := fun _ => some "disk is full" }
  diagnostics := .bounded 7 "disk is full"

/-- The last flush fails, and the report of that does not get far.  On streams that take everything
the report of an empty document ends with what the parser says of it. -/
theorem session_outcome_fullDisk :
    (∃ s', execute Markup.parser 2 (Text.Utf8.encode (Document.writing "hi ")) fullDisk =
        some (99, s') ∧
      s'.written .output = Text.Utf8.encode "hi" ∧
      s'.written .diagnostics = Text.Utf8.encode "error: " ∧
      ∃! v : Verdict, v.Explains Markup.parser 2 (Text.Utf8.encode (Document.writing "hi "))
        fullDisk 99 s') ∧
    ∃ s', execute Markup.parser 2 [] {} = some (31, s') ∧
      s'.written .diagnostics = Text.Utf8.encode ("error: XML document is not well-formed: " ++
        "the text is not one element with its tags in order\n") ∧
      ∃! v : Verdict, v.Explains Markup.parser 2 [] {} 31 s' := by
  constructor
  · obtain ⟨s', hexecute, hs'⟩ : ∃ s',
        execute Markup.parser 2 (Text.Utf8.encode (Document.writing "hi ")) fullDisk =
          some (99, s') ∧
        s'.written .output = Text.Utf8.encode "hi" ∧
        s'.written .diagnostics = Text.Utf8.encode "error: " := by
      rw [execute_of_load_ok (Program.load_encode Document.parse_writing rfl)]
      exact ⟨_, rfl, rfl, rfl⟩
    exact ⟨s', hexecute, hs'.1, hs'.2, (session_outcome _ _ _ _).2 99 s' hexecute⟩
  · obtain ⟨s', hexecute, hs'⟩ : ∃ s', execute Markup.parser 2 (Text.Utf8.encode "") {} =
          some (31, s') ∧
        s'.written .diagnostics = Text.Utf8.encode ("error: XML document is not well-formed: " ++
          "the text is not one element with its tags in order\n") := by
      have hread : Markup.parser.read "" =
          .error "the text is not one element with its tags in order" := by
        with_unfolding_all rfl
      rw [execute_of_load_error (Program.load_encode_of_read_error hread)]
      exact ⟨_, rfl, rfl⟩
    exact ⟨s', hexecute, hs', (session_outcome _ _ _ _).2 31 s' hexecute⟩

end Session

end IppCode
