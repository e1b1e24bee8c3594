import IppCode.Proofs.ControlState
import IppCode.Proofs.Simulation
import IppCode.Proofs.Streams

/-!
# What a program asks of its streams

In one step a program asks for one thing at most: to read a line, to write a text to the output or
to the diagnostics, or to flush the output at its end.  What it asks for (`Machine.request?`) does
not depend on the streams, and all else that the step does depends on them only through the answer.

* `step_inStep`: if two streams give the same answer, then a program does the same in one step on
  both.
* `streams_step`: a step leaves the streams as they are if it asks for nothing, and otherwise as
  the request leaves them.
* `run_inStep`: the same for runs of any length, as long as the streams give the same answers.
-/

namespace IppCode

namespace Streams

/-- What a program asks of its streams in a step. -/
inductive Request where
  | read (type : ValueType)
  | write (text : String)
  | diagnose (text : String)
  /-- The flush of the output when the program ends. -/
  | close
  deriving DecidableEq

/-- Work that gives nothing back. -/
def silently (act : EStateM String Streams Unit) : EStateM String Streams (Option Value) :=
  EStateM.map (fun _ => none) act

/-- What streams do on a request.  Only a read gives something back. -/
def Request.serve : Request → EStateM String Streams (Option Value)
  | .read type => EStateM.map some (readValue type)
  | .write text => silently (writeText .output text)
  | .diagnose text => silently (Streams.diagnose text)
  | .close => silently (flush .output)

section Answers

variable {s s' t : Streams} {text : String} {v : Value} {type : ValueType}
  {act : EStateM String Streams Unit}

theorem silently_eq_ok_iff {a : Option Value} :
    silently act s = .ok a s' ↔ act s = .ok () s' ∧ a = none := by
  unfold silently EStateM.map
  cases act s <;> simp [eq_comm, and_comm]

theorem silently_eq_error_iff : silently act s = .error text s' ↔ act s = .error text s' := by
  unfold silently EStateM.map
  cases act s <;> simp

theorem serve_read_eq_ok_iff {a : Option Value} :
    (Request.read type).serve s = .ok a s' ↔ ∃ v, readValue type s = .ok v s' ∧ a = some v := by
  simp only [Request.serve, EStateM.map]
  cases readValue type s <;> simp [eq_comm, and_comm]

theorem serve_read_eq_error_iff :
    (Request.read type).serve s = .error text s' ↔ readValue type s = .error text s' := by
  simp only [Request.serve, EStateM.map]
  cases readValue type s <;> simp

theorem Grows.serve (r : Request) (s : Streams) : s.Grows (endState (r.serve s)) := by
  cases r with
  | read type => exact endState_map some (Streams.readValue type) s ▸ Grows.readValue type s
  | write text => exact endState_map _ (writeText .output text) s ▸ Grows.write .output _ s
  | diagnose text => exact endState_map _ (Streams.diagnose text) s ▸ Grows.diagnose text s
  | close => exact endState_map _ (Streams.flush .output) s ▸ Grows.flush .output s

/-- What reads, flushes and writes pass on is passed on by all requests.  Of the reads and of the
writes to the output only that of the request itself matters. -/
theorem serve_invariant {I : Streams → Prop} (r : Request)
    (hread : ∀ type, r = .read type → ∀ s, I s → I (endState (readValue type s)))
    (hflush : ∀ c s, I s → I (endState (flush c s)))
    (hdiagnose : ∀ bytes s, I s → I (endState (write .diagnostics bytes s)))
    (hwrite : ∀ text, r = .write text → ∀ s, I s → I (endState (writeText .output text s)))
    (h : I s) : I (endState (r.serve s)) := by
  cases r with
  | read type =>
      rw [Request.serve, endState_map]
      exact hread type rfl s h
  | write text =>
      rw [Request.serve, silently, endState_map]
      exact hwrite text rfl s h
  | close =>
      rw [Request.serve, silently, endState_map]
      exact hflush .output s h
  | diagnose text =>
      rw [Request.serve, silently, endState_map]
      exact diagnose_invariant hflush hdiagnose text h

/-! ## Answers -/

/-- Work on two streams has the same result, and what it leaves is related. -/
inductive SameAnswer {α : Type} (R : Streams → Streams → Prop) :
    EStateM.Result String Streams α → EStateM.Result String Streams α → Prop
  | ok {a : α} {s t : Streams} (h : R s t) : SameAnswer R (.ok a s) (.ok a t)
  | error {text : String} {s t : Streams} (h : R s t) : SameAnswer R (.error text s) (.error text t)

namespace SameAnswer

variable {α β : Type} {R : Streams → Streams → Prop} {a : α} {x : EStateM String Streams α}
  {y : EStateM.Result String Streams α}

theorem exists_ok (h : SameAnswer R (.ok a s) y) : ∃ t, y = .ok a t ∧ R s t := by
  cases h with
  | ok hR => exact ⟨_, rfl, hR⟩

theorem exists_error (h : SameAnswer R (.error text s) y) : ∃ t, y = .error text t ∧ R s t := by
  cases h with
  | error hR => exact ⟨_, rfl, hR⟩

theorem map (f : α → β) (h : SameAnswer R (x s) (x t)) :
    SameAnswer R (EStateM.map f x s) (EStateM.map f x t) := by
  unfold EStateM.map
  generalize x s = result at h
  generalize x t = result' at h
  cases h with
  | ok hR => exact .ok hR
  | error hR => exact .error hR

theorem silently_ok (h : SameAnswer R (silently act s) (silently act t))
    (hact : act s = .ok () s') : ∃ t', act t = .ok () t' ∧ R s' t' := by
  rw [silently_eq_ok_iff.2 ⟨hact, rfl⟩] at h
  obtain ⟨t', ht, hR⟩ := h.exists_ok
  exact ⟨t', (silently_eq_ok_iff.1 ht).1, hR⟩

theorem silently_error (h : SameAnswer R (silently act s) (silently act t))
    (hact : act s = .error text s') : ∃ t', act t = .error text t' ∧ R s' t' := by
  rw [silently_eq_error_iff.2 hact] at h
  obtain ⟨t', ht, hR⟩ := h.exists_error
  exact ⟨t', silently_eq_error_iff.1 ht, hR⟩

theorem read_ok (h : SameAnswer R ((Request.read type).serve s) ((Request.read type).serve t))
    (hread : readValue type s = .ok v s') : ∃ t', readValue type t = .ok v t' ∧ R s' t' := by
  rw [serve_read_eq_ok_iff.2 ⟨v, hread, rfl⟩] at h
  obtain ⟨t', ht, hR⟩ := h.exists_ok
  obtain ⟨v', hread', hv⟩ := serve_read_eq_ok_iff.1 ht
  cases hv
  exact ⟨t', hread', hR⟩

theorem read_error (h : SameAnswer R ((Request.read type).serve s) ((Request.read type).serve t))
    (hread : readValue type s = .error text s') :
    ∃ t', readValue type t = .error text t' ∧ R s' t' := by
  rw [serve_read_eq_error_iff.2 hread] at h
  obtain ⟨t', ht, hR⟩ := h.exists_error
  exact ⟨t', serve_read_eq_error_iff.1 ht, hR⟩

end SameAnswer

section Operations

variable {R : Streams → Streams → Prop} {c : Channel} {bytes : List UInt8}

/-- Two sinks that take equally much answer a write alike. -/
theorem sameAnswer_write (htaking : (t.sink c).taking bytes.length = (s.sink c).taking bytes.length)
    (hrefusal : (s.taken c bytes).length < bytes.length → (t.sink c).refusal = (s.sink c).refusal)
    (hR : R (s.accept c (s.taken c bytes)) (t.accept c (s.taken c bytes))) :
    SameAnswer R (write c bytes s) (write c bytes t) := by
  simp only [write, htaking]
  split
  · next hlt =>
      rw [hrefusal hlt]
      exact .error hR
  · exact .ok hR

theorem sameAnswer_flush (hfailure : (t.sink c).flushFailure (t.sink c).served =
    (s.sink c).flushFailure (s.sink c).served) (hR : R (s.afterFlush c) (t.afterFlush c)) :
    SameAnswer R (flush c s) (flush c t) := by
  rw [flush_eq, flush_eq, hfailure]
  split
  · exact .ok hR
  · exact .error hR

theorem sameAnswer_readValue (hinput : t.input = s.input)
    (hR : ∀ input, R { s with input } { t with input }) :
    SameAnswer R (readValue type s) (readValue type t) := by
  unfold readValue
  rw [hinput]
  cases Source.readLine s.input with
  | ok line input => exact .ok (hR input)
  | error why input =>
      -- a source that finds its bytes to be no text makes the value nil
      dsimp only
      split
      · exact .ok (hR input)
      · exact .error (hR input)

end Operations

/-! ## Work that coincides -/

/-- On related streams the work has the same result, provided that it leaves the first ones in a
state of `G`. -/
def Coincides {α : Type} (G : Streams → Prop) (R : Streams → Streams → Prop)
    (act : EStateM String Streams α) : Prop :=
  ∀ s t, R s t → G (endState (act s)) → SameAnswer R (act s) (act t)

section Coincides

variable {α β : Type} {G : Streams → Prop} {R : Streams → Streams → Prop}
  {x : EStateM String Streams α} {f : α → EStateM String Streams β}

theorem Coincides.map (f : α → β) (hx : Coincides G R x) : Coincides G R (EStateM.map f x) := by
  intro s t hR hG
  rw [endState_map] at hG
  exact (hx s t hR hG).map f

/-- Work in two parts coincides if both parts do and `G`, once lost, stays lost. -/
theorem Coincides.bind (hG : ∀ s s' : Streams, s.Grows s' → G s' → G s)
    (hgrows : ∀ (a : α) (s : Streams), s.Grows (endState (f a s))) (hx : Coincides G R x)
    (hf : ∀ a, Coincides G R (f a)) : Coincides G R (x >>= f) := by
  intro s t hR hend
  have hfirst := hx s t hR
  simp only [Bind.bind, EStateM.bind] at hend ⊢
  cases hxs : x s with
  | ok a s' =>
      rw [hxs] at hfirst hend
      obtain ⟨t', ht, hR'⟩ := (hfirst (hG _ _ (hgrows a s') hend)).exists_ok
      rw [ht]
      exact hf a s' t' hR' hend
  | error why s' =>
      rw [hxs] at hfirst hend
      obtain ⟨t', ht, hR'⟩ := (hfirst hend).exists_error
      rw [ht]
      exact .error hR'

/-- Requests coincide if reads, writes and flushes do. -/
theorem coincides_serve (hG : ∀ s s' : Streams, s.Grows s' → G s' → G s)
    (hwrite : ∀ c bytes, Coincides G R (write c bytes)) (hflush : ∀ c, Coincides G R (flush c))
    (r : Request) (hread : ∀ type, r = .read type → Coincides G R (readValue type)) :
    Coincides G R r.serve := by
  cases r with
  | read type => exact (hread type rfl).map some
  | write text => exact (hwrite .output _).map _
  | close => exact (hflush .output).map _
  | diagnose text =>
      refine Coincides.map _ (Coincides.bind hG ?_ (hflush .output) fun _ =>
        Coincides.bind hG (fun _ => Grows.flush .diagnostics) (hwrite .diagnostics _)
          fun _ => hflush .diagnostics)
      exact fun _ => Grows.of_bind (Grows.write .diagnostics _) fun _ => Grows.flush .diagnostics

end Coincides

end Answers

end Streams

open Streams (Request SameAnswer Coincides)

/-- What an operation asks of the streams, by what the machine holds beside them. -/
def Operation.request? (m : Machine) : Operation Nat → Option Request
  | .read _ type => some (.read type)
  | .write a => (a.eval m.memory).toOption.map fun v => .write v.text
  | .print a => (a.eval m.memory).toOption.map fun v => .diagnose (v.text ++ "\n")
  | .dump => some (.diagnose m.report)
  | .exit a => (a.eval m.memory >>= Machine.exitCode).toOption.map fun _ => .close
  | _ => none

namespace Machine

variable {p : Program} {m mid m' : Machine} {op : Operation Nat} {flow : Flow} {e : ExecError}
  {code : Nat} {t : Streams} {R : Streams → Streams → Prop}

/-- The machine with other streams. -/
def withStreams (m : Machine) (streams : Streams) : Machine :=
  { m with streams }

/-- What the next step of a program asks of the streams. -/
def request? (p : Program) (m : Machine) : Option Request :=
  match p.lines[m.position]? with
  | none => some .close
  | some line => line.operation.request? m

theorem request?_of_line {line : Line} (h : p.lines[m.position]? = some line) :
    request? p m = line.operation.request? m := by
  rw [request?, h]

/-- What is asked for before the end is asked for by an operation. -/
theorem exists_line_of_request? {r : Request} (h : request? p m = some r) (hr : r ≠ .close) :
    ∃ line, p.lines[m.position]? = some line ∧ line.operation.request? m = some r := by
  cases hline : p.lines[m.position]? with
  | none =>
      rw [request?, hline] at h
      exact absurd (Option.some.inj h).symm hr
  | some line =>
      rw [request?_of_line hline] at h
      exact ⟨line, rfl, h⟩

/-! ## Operations -/

section Operations

variable (hquiet : op.request? m = none → R m.streams t)
  (hserve : ∀ r, op.request? m = some r → SameAnswer R (r.serve m.streams) (r.serve t))

include hquiet hserve

/-- An operation that succeeds does the same on streams that give the same answer. -/
theorem Executes.inStep (h : Executes m op flow mid) (hflow : ∀ code, flow ≠ .exit code) :
    ∃ t', Executes (m.withStreams t) op flow (mid.withStreams t') ∧ R mid.streams t' := by
  cases h with
  | assign hvalue hstore => exact ⟨t, .assign hvalue hstore, hquiet rfl⟩
  | createFrame => exact ⟨t, .createFrame, hquiet rfl⟩
  | pushFrame h => exact ⟨t, .pushFrame h, hquiet rfl⟩
  | popFrame h => exact ⟨t, .popFrame h, hquiet rfl⟩
  | declare h => exact ⟨t, .declare h, hquiet rfl⟩
  | call => exact ⟨t, .call, hquiet rfl⟩
  | comeBack h => exact ⟨t, .comeBack h, hquiet rfl⟩
  | push hvalue => exact ⟨t, .push hvalue, hquiet rfl⟩
  | pop hvalue hstore => exact ⟨t, .pop hvalue hstore, hquiet rfl⟩
  | label => exact ⟨t, .label, hquiet rfl⟩
  | jump => exact ⟨t, .jump, hquiet rfl⟩
  | jumpTaken hfirst hsecond htaken => exact ⟨t, .jumpTaken hfirst hsecond htaken, hquiet rfl⟩
  | jumpPassed hfirst hsecond hpassed => exact ⟨t, .jumpPassed hfirst hsecond hpassed, hquiet rfl⟩
  | exit _ _ => exact absurd rfl (hflow _)
  -- only these ask the streams, and each asks once
  | read hvalue hstore =>
      obtain ⟨t', ht, hR⟩ := (hserve (.read _) rfl).read_ok hvalue
      exact ⟨t', .read ht hstore, hR⟩
  | write hvalue hwrite =>
      have hanswer := hserve (.write _) (by simp only [Operation.request?, hvalue]; rfl)
      obtain ⟨t', ht, hR⟩ := SameAnswer.silently_ok hanswer hwrite
      exact ⟨t', .write hvalue ht, hR⟩
  | print hvalue hwrite =>
      have hanswer := hserve (.diagnose _) (by simp only [Operation.request?, hvalue]; rfl)
      obtain ⟨t', ht, hR⟩ := SameAnswer.silently_ok hanswer hwrite
      exact ⟨t', .print hvalue ht, hR⟩
  | dump hwrite =>
      obtain ⟨t', ht, hR⟩ := SameAnswer.silently_ok (hserve (.diagnose _) rfl) hwrite
      exact ⟨t', .dump ht, hR⟩

/-- An operation that fails does so in the same way on streams that give the same answer. -/
theorem Fails.inStep (h : Fails m op e mid) :
    ∃ t', Fails (m.withStreams t) op e (mid.withStreams t') ∧ R mid.streams t' := by
  cases h with
  | assignValue hvalue => exact ⟨t, .assignValue hvalue, hquiet rfl⟩
  | assignStore hvalue hstore => exact ⟨t, .assignStore hvalue hstore, hquiet rfl⟩
  | pushFrame h => exact ⟨t, .pushFrame h, hquiet rfl⟩
  | popFrame h => exact ⟨t, .popFrame h, hquiet rfl⟩
  | declare h => exact ⟨t, .declare h, hquiet rfl⟩
  | comeBack h => exact ⟨t, .comeBack h, hquiet rfl⟩
  | push hvalue => exact ⟨t, .push hvalue, hquiet rfl⟩
  | popValue hvalue => exact ⟨t, .popValue hvalue, hquiet rfl⟩
  | popStore hvalue hstore => exact ⟨t, .popStore hvalue hstore, hquiet rfl⟩
  | jumpFirst hfirst => exact ⟨t, .jumpFirst hfirst, hquiet rfl⟩
  | jumpSecond hfirst hsecond => exact ⟨t, .jumpSecond hfirst hsecond, hquiet rfl⟩
  | jumpCompare hfirst hsecond hcompare =>
      exact ⟨t, .jumpCompare hfirst hsecond hcompare, hquiet rfl⟩
  -- where an operand fails, nothing is asked for
  | exitValue hvalue =>
      exact ⟨t, .exitValue hvalue, hquiet (by simp only [Operation.request?, hvalue]; rfl)⟩
  | exitCode hvalue hcode =>
      refine ⟨t, .exitCode hvalue hcode, hquiet ?_⟩
      simp only [Operation.request?, hvalue]
      change (Machine.exitCode _).toOption.map _ = none
      rw [hcode]
      rfl
  | writeValue hvalue =>
      exact ⟨t, .writeValue hvalue, hquiet (by simp only [Operation.request?, hvalue]; rfl)⟩
  | printValue hvalue =>
      exact ⟨t, .printValue hvalue, hquiet (by simp only [Operation.request?, hvalue]; rfl)⟩
  | readValue hvalue =>
      obtain ⟨t', ht, hR⟩ := (hserve (.read _) rfl).read_error hvalue
      exact ⟨t', .readValue ht, hR⟩
  | readStore hvalue hstore =>
      obtain ⟨t', ht, hR⟩ := (hserve (.read _) rfl).read_ok hvalue
      exact ⟨t', .readStore ht hstore, hR⟩
  | writeOutput hvalue hwrite =>
      have hanswer := hserve (.write _) (by simp only [Operation.request?, hvalue]; rfl)
      obtain ⟨t', ht, hR⟩ := SameAnswer.silently_error hanswer hwrite
      exact ⟨t', .writeOutput hvalue ht, hR⟩
  | printOutput hvalue hwrite =>
      have hanswer := hserve (.diagnose _) (by simp only [Operation.request?, hvalue]; rfl)
      obtain ⟨t', ht, hR⟩ := SameAnswer.silently_error hanswer hwrite
      exact ⟨t', .printOutput hvalue ht, hR⟩
  | dump hwrite =>
      obtain ⟨t', ht, hR⟩ := SameAnswer.silently_error (hserve (.diagnose _) rfl) hwrite
      exact ⟨t', .dump ht, hR⟩

end Operations

/-! ## Steps -/

theorem step_of_executes {line : Line} (hline : p.lines[m.position]? = some line)
    (hexec : Executes m line.operation flow mid) : step p m = proceed flow mid := by
  simp only [step, hline, hexec.execute_eq]

theorem step_of_fails {line : Line} (hline : p.lines[m.position]? = some line)
    (hfails : Fails m line.operation e mid) :
    step p m = .faulted ⟨e, some (m.position, line.instruction.opcode)⟩ mid := by
  simp only [step, hline, hfails.execute_eq]

theorem step_of_ending {last : Machine} (h : Ending p m code last) :
    step p m = finish code last := by
  cases h with
  | behind hnone => simp only [step, hnone]
  | exit hline hexec => rw [step_of_executes hline hexec, proceed]

/-- A program that is about to end asks for the last flush, on the streams that it has. -/
theorem Ending.request?_eq {last : Machine} (h : Ending p m code last) :
    request? p m = some .close ∧ last.streams = m.streams := by
  cases h with
  | behind hnone => exact ⟨by rw [request?, hnone], rfl⟩
  | @exit line _ _ hline hexec =>
      rw [request?_of_line hline]
      generalize line.operation = op at hexec
      cases hexec with
      | exit hvalue hcode =>
          refine ⟨?_, rfl⟩
          simp only [Operation.request?, hvalue]
          change (exitCode _).toOption.map _ = _
          rw [hcode]
          rfl

theorem Ending.withStreams {last : Machine} (h : Ending p m code last) (t : Streams) :
    Ending p (m.withStreams t) code (last.withStreams t) := by
  cases h with
  | behind hnone => exact .behind hnone
  | @exit line _ _ hline hexec =>
      have hexec' : Executes (m.withStreams t) line.operation (.exit code) (m.withStreams t) := by
        generalize line.operation = op at hexec
        cases hexec with
        | exit hvalue hcode => exact .exit hvalue hcode
      have hsame := hexec.exit_cases.2
      subst hsame
      exact @Ending.exit p (Machine.withStreams _ t) line code _ hline hexec'

end Machine

/-- Two programs have come equally far, with the same machines up to their streams. -/
inductive Status.InStep (R : Streams → Streams → Prop) : Status → Status → Prop
  | running {m : Machine} {t : Streams} (h : R m.streams t) :
      InStep R (.running m) (.running (m.withStreams t))
  | exited {code : Nat} {m : Machine} {t : Streams} (h : R m.streams t) :
      InStep R (.exited code m) (.exited code (m.withStreams t))
  | faulted {f : Fault} {m : Machine} {t : Streams} (h : R m.streams t) :
      InStep R (.faulted f m) (.faulted f (m.withStreams t))

theorem Status.InStep.streams {R : Streams → Streams → Prop} {s s' : Status} (h : s.InStep R s') :
    R s.machine.streams s'.machine.streams := by
  cases h <;> assumption

theorem Status.InStep.mono {R S : Streams → Streams → Prop} {s s' : Status} (h : s.InStep R s')
    (hRS : ∀ streams t, R streams t → S streams t) : s.InStep S s' := by
  cases h with
  | running h => exact .running (hRS _ _ h)
  | exited h => exact .exited (hRS _ _ h)
  | faulted h => exact .faulted (hRS _ _ h)

theorem Status.InStep.stopped {R : Streams → Streams → Prop} {s s' : Status} (h : s.InStep R s')
    (hs : s.Stopped) : s'.Stopped := by
  cases h with
  | running _ => exact absurd rfl (hs _)
  | exited _ => exact Status.stopped_exited
  | faulted _ => exact Status.stopped_faulted

namespace Machine

variable {p : Program} {m : Machine} {t : Streams} {R : Streams → Streams → Prop}

theorem finish_inStep (code : Nat)
    (h : SameAnswer R (Request.close.serve m.streams) (Request.close.serve t)) :
    (finish code m).InStep R (finish code (m.withStreams t)) := by
  rcases finish_cases code m with ⟨streams, hflush, hfinish⟩ | ⟨text, streams, hflush, hfinish⟩
  · obtain ⟨t', ht, hR⟩ := SameAnswer.silently_ok h hflush
    have hfinish' : finish code (m.withStreams t) = .exited code (m.withStreams t') := by
      simp only [finish, onStreams, withStreams, ht]
    rw [hfinish, hfinish']
    exact .exited hR
  · obtain ⟨t', ht, hR⟩ := SameAnswer.silently_error h hflush
    have hfinish' : finish code (m.withStreams t) =
        .faulted ⟨.io text, none⟩ (m.withStreams t') := by
      simp only [finish, onStreams, withStreams, ht]
    rw [hfinish, hfinish']
    exact .faulted hR

/-- A step depends on the streams only through the answer to what it asks. -/
theorem step_inStep (hquiet : request? p m = none → R m.streams t)
    (hserve : ∀ r, request? p m = some r → SameAnswer R (r.serve m.streams) (r.serve t)) :
    (step p m).InStep R (step p (m.withStreams t)) := by
  rcases step_cases p m with ⟨line, mid, hline, hexec, hstep⟩ |
    ⟨line, target, mid, hline, hexec, hstep⟩ | ⟨line, e, mid, hline, hfails, hstep⟩ |
    ⟨code, last, hending, hstep⟩
  · rw [request?_of_line hline] at hquiet hserve
    obtain ⟨t', hexec', hR⟩ := hexec.inStep hquiet hserve (by simp)
    rw [hstep, @step_of_executes p (m.withStreams t) _ _ line hline hexec']
    exact .running hR
  · rw [request?_of_line hline] at hquiet hserve
    obtain ⟨t', hexec', hR⟩ := hexec.inStep hquiet hserve (by simp)
    rw [hstep, @step_of_executes p (m.withStreams t) _ _ line hline hexec']
    exact .running hR
  · rw [request?_of_line hline] at hquiet hserve
    obtain ⟨t', hfails', hR⟩ := hfails.inStep hquiet hserve
    rw [hstep, @step_of_fails p (m.withStreams t) _ _ line hline hfails']
    exact .faulted hR
  · obtain ⟨hrequest, hlast⟩ := hending.request?_eq
    have hanswer := hserve .close hrequest
    rw [← hlast] at hanswer
    rw [hstep, step_of_ending (hending.withStreams t)]
    exact finish_inStep code hanswer

/-- What a step leaves of the streams. -/
theorem streams_step (p : Program) (m : Machine) :
    (request? p m = none → (step p m).machine.streams = m.streams) ∧
      ∀ r, request? p m = some r → (step p m).machine.streams = endState (r.serve m.streams) := by
  constructor
  · intro hnone
    have h : (step p m).InStep (fun s _ => s = m.streams) (step p (m.withStreams m.streams)) :=
      step_inStep (fun _ => rfl) fun r hr => by rw [hnone] at hr; cases hr
    exact h.streams
  · intro r hr
    have h : (step p m).InStep (fun s _ => s = endState (r.serve m.streams))
        (step p (m.withStreams m.streams)) := by
      refine step_inStep (fun hnone => by rw [hnone] at hr; cases hr) fun r' hr' => ?_
      obtain rfl := Option.some.inj (hr.symm.trans hr')
      cases r.serve m.streams with
      | ok a s => exact .ok rfl
      | error text s => exact .error rfl
    exact h.streams

/-- What holds of the streams and is passed on by the request of a step holds after the step. -/
theorem streams_step_invariant {I : Streams → Prop}
    (hserve : ∀ r, request? p m = some r → I (endState (r.serve m.streams)))
    (h : I m.streams) : I (step p m).machine.streams := by
  cases hrequest : request? p m with
  | none =>
      rw [(streams_step p m).1 hrequest]
      exact h
  | some r =>
      rw [(streams_step p m).2 r hrequest]
      exact hserve r hrequest

theorem grows_step (p : Program) (m : Machine) : m.streams.Grows (step p m).machine.streams :=
  streams_step_invariant (I := m.streams.Grows) (fun r _ => .serve r _) (.refl _)

/-! ## Runs -/

/-- What holds of streams and is passed on by each step holds whenever a run is looked at. -/
theorem streams_run_invariant {I : Streams → Prop} (hstep : ∀ m, I m.streams →
    I (step p m).machine.streams) (n : Nat) (hm : I m.streams) :
    I (run p n m).machine.streams := by
  induction n generalizing m with
  | zero => exact hm
  | succ n ih =>
      have hnext := hstep m hm
      cases h : step p m with
      | running m' =>
          rw [h] at hnext
          rw [run_succ_of_running h]
          exact ih hnext
      | exited code m' =>
          rw [h] at hnext
          rw [run_succ_of_stopped h Status.stopped_exited]
          exact hnext
      | faulted f m' =>
          rw [h] at hnext
          rw [run_succ_of_stopped h Status.stopped_faulted]
          exact hnext

theorem grows_run (p : Program) (n : Nat) (m : Machine) :
    m.streams.Grows (run p n m).machine.streams :=
  streams_run_invariant (fun mid h => h.trans (grows_step p mid)) n (.refl _)

theorem grows_run_succ (p : Program) (n : Nat) (m : Machine) :
    (step p m).machine.streams.Grows (run p (n + 1) m).machine.streams := by
  cases hstep : step p m with
  | running m' =>
      rw [run_succ_of_running hstep]
      exact grows_run p n m'
  | exited code m' =>
      rw [run_succ_of_stopped hstep Status.stopped_exited]
      exact .refl _
  | faulted f m' =>
      rw [run_succ_of_stopped hstep Status.stopped_faulted]
      exact .refl _

/-- Runs that are in step after the first step and from then on are in step. -/
theorem run_inStep_succ {S : Streams → Streams → Prop} {n : Nat}
    (hstep : (step p m).InStep R (step p (m.withStreams t)))
    (hstop : ∀ s t, R s t → S s t)
    (hnext : ∀ m' t', step p m = .running m' → R m'.streams t' →
      (run p n m').InStep S (run p n (m'.withStreams t'))) :
    (run p (n + 1) m).InStep S (run p (n + 1) (m.withStreams t)) := by
  rw [run, run]
  generalize step p m = next at hstep hnext
  generalize step p (m.withStreams t) = next' at hstep
  cases hstep with
  | running hR => exact hnext _ _ rfl hR
  | exited hR => exact .exited (hstop _ _ hR)
  | faulted hR => exact .faulted (hstop _ _ hR)

/-- Two runs go in step as long as related streams give the same answers.  They need to do so only
while the first streams are in a state of `G`, which they cannot come back to once they have
left it. -/
theorem run_inStep {G : Streams → Prop} (hG : ∀ s s' : Streams, s.Grows s' → G s' → G s)
    (hserve : ∀ r : Request, Coincides G R r.serve) (n : Nat) (hR : R m.streams t)
    (hend : G (run p n m).machine.streams) :
    (run p n m).InStep R (run p n (m.withStreams t)) := by
  induction n generalizing m t with
  | zero => exact .running hR
  | succ n ih =>
      have hfirst : G (step p m).machine.streams := hG _ _ (grows_run_succ p n m) hend
      have hstep : (step p m).InStep R (step p (m.withStreams t)) := by
        refine step_inStep (fun _ => hR) fun r hr => hserve r _ _ hR ?_
        rw [← (streams_step p m).2 r hr]
        exact hfirst
      refine run_inStep_succ hstep (fun _ _ h => h) fun m' t' hm' hR' => ih hR' ?_
      rw [run_succ_of_running hm'] at hend
      exact hend

end Machine

end IppCode
