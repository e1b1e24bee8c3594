import IppCode.Proofs.SessionOutcome

/-!
# Diagnostics do not overtake the output

The output and the diagnostics may end up on the same terminal.  So that what is written first is
seen first, the output is flushed before anything is written to the diagnostics.  Here this is a
property of the sequence of events that a session leaves, whatever the streams answer.

* `InOrder` says it of a sequence of events.  Every request keeps it (`InOrderSince.serve`), and so
  do runs of any length.
* The line that reports a failure is an exception: it is written even if the flush before it fails
  (`InOrderUpTo`).  Nothing follows it but a flush of the diagnostics.
-/

namespace IppCode

/-- Between bytes that go to the output and bytes that go to the diagnostics later on, the output
is flushed with success. -/
def InOrder (ops : List Event) : Prop :=
  ∀ (i j : Nat) (bytes line : List UInt8), i < j → ops[i]? = some (.written .output bytes) →
    ops[j]? = some (.written .diagnostics line) →
      ∃ k, i < k ∧ k < j ∧ ops[k]? = some (.flushed .output none)

/-- As `InOrder`, but the flush may have failed before the last write of all if that is a `Report`.
Behind that write there is one more event, which is the flush of what it wrote. -/
def InOrderUpTo (Report : List UInt8 → Prop) (ops : List Event) : Prop :=
  ∀ (i j : Nat) (bytes line : List UInt8), i < j → ops[i]? = some (.written .output bytes) →
    ops[j]? = some (.written .diagnostics line) →
      ∃ k failure, i < k ∧ k < j ∧ ops[k]? = some (.flushed .output failure) ∧
        (failure = none ∨ j + 2 = ops.length ∧ Report line)

/-- Behind all bytes that go to the output, a flush of the output is tried. -/
def EndsFlushed (ops : List Event) : Prop :=
  ∀ (i : Nat) (bytes : List UInt8), ops[i]? = some (.written .output bytes) →
    ∃ k failure, i < k ∧ ops[k]? = some (.flushed .output failure)

/-! ## Sequences of events -/

section Events

variable {ops more : List Event} {failure : Option String} {bytes line : List UInt8} {i j : Nat}

theorem inOrder_nil : InOrder [] := by
  intro i j bytes line _ hi
  cases hi

theorem getElem?_append_of_some {e : Event} (h : ops[i]? = some e) (more : List Event) :
    (ops ++ more)[i]? = some e := by
  obtain ⟨hlt, -⟩ := List.getElem?_eq_some_iff.1 h
  rw [List.getElem?_append_left hlt]
  exact h

/-- Events on one channel do not hold what happens to the other one. -/
theorem lt_length_of_channel {e : Event} {c : Channel} (hmore : ∀ e ∈ more, e.channel = c)
    (he : e.channel ≠ c) (h : (ops ++ more)[i]? = some e) : i < ops.length := by
  by_contra hle
  rw [List.getElem?_append_right (by omega)] at h
  exact he (hmore e (List.mem_of_getElem? h))

/-- Order is kept by what happens to the output. -/
theorem InOrder.append (h : InOrder ops) (hmore : ∀ e ∈ more, e.channel = .output) :
    InOrder (ops ++ more) := by
  intro i j bytes line hij hi hj
  have hlt : j < ops.length := lt_length_of_channel hmore (by simp [Event.channel]) hj
  rw [List.getElem?_append_left (by omega)] at hi
  rw [List.getElem?_append_left hlt] at hj
  obtain ⟨k, hik, hkj, hk⟩ := h i j bytes line hij hi hj
  exact ⟨k, hik, hkj, getElem?_append_of_some hk more⟩

theorem getElem?_flushed (ops more : List Event) (failure : Option String) :
    (ops ++ .flushed .output failure :: more)[ops.length]? = some (.flushed .output failure) := by
  rw [List.getElem?_append_right (Nat.le_refl _), Nat.sub_self, List.getElem?_cons_zero]

/-- All bytes for the output come before a flush behind which only the diagnostics are written. -/
theorem lt_flushed (hmore : ∀ e ∈ more, e.channel = .diagnostics)
    (hi : (ops ++ .flushed .output failure :: more)[i]? = some (.written .output bytes)) :
    i < ops.length := by
  have happend : (ops ++ [.flushed .output failure] ++ more)[i]? =
      some (.written .output bytes) := by
    rw [List.append_assoc]
    exact hi
  have hle := lt_length_of_channel hmore (by simp [Event.channel]) happend
  rw [List.length_append, List.length_singleton] at hle
  refine Nat.lt_of_le_of_ne (Nat.le_of_lt_succ hle) fun heq => ?_
  rw [heq, getElem?_flushed] at hi
  cases hi

/-- A line for the diagnostics comes before or behind a flush. -/
theorem lt_or_flushed_lt
    (hj : (ops ++ .flushed .output failure :: more)[j]? = some (.written .diagnostics line)) :
    ops[j]? = some (.written .diagnostics line) ∨ ops.length < j := by
  rcases Nat.lt_trichotomy j ops.length with hlt | heq | hlt
  · rw [List.getElem?_append_left hlt] at hj
    exact .inl hj
  · rw [heq, getElem?_flushed] at hj
    cases hj
  · exact .inr hlt

/-- Order is kept by what happens to the diagnostics behind a flush. -/
theorem InOrder.append_flushed (h : InOrder ops)
    (hmore : ∀ e ∈ more, e.channel = .diagnostics) :
    InOrder (ops ++ .flushed .output none :: more) := by
  intro i j bytes line hij hi hj
  have hlt := lt_flushed hmore hi
  rcases lt_or_flushed_lt hj with hbefore | hbehind
  · rw [List.getElem?_append_left hlt] at hi
    obtain ⟨k, hik, hkj, hk⟩ := h i j bytes line hij hi hbefore
    exact ⟨k, hik, hkj, getElem?_append_of_some hk _⟩
  · exact ⟨ops.length, hlt, hbehind, getElem?_flushed _ _ _⟩

theorem InOrder.upTo (h : InOrder ops) (Report : List UInt8 → Prop) : InOrderUpTo Report ops := by
  intro i j bytes line hij hi hj
  obtain ⟨k, hik, hkj, hk⟩ := h i j bytes line hij hi hj
  exact ⟨k, none, hik, hkj, hk, .inl rfl⟩

theorem endsFlushed_append (ops : List Event) (failure : Option String)
    (hmore : ∀ e ∈ more, e.channel = .diagnostics) :
    EndsFlushed (ops ++ .flushed .output failure :: more) := by
  intro i bytes hi
  exact ⟨ops.length, failure, lt_flushed hmore hi, getElem?_flushed _ _ _⟩

end Events

/-! ## Requests -/

namespace Streams

variable {s s' s'' : Streams} {why : String} {base : List Event} {c : Channel}

/-- All that has been added happened to one channel. -/
def AddsTo (c : Channel) (s s' : Streams) : Prop :=
  ∃ more, s'.events = s.events ++ more ∧ ∀ e ∈ more, e.channel = c

theorem AddsTo.refl (c : Channel) (s : Streams) : AddsTo c s s :=
  ⟨[], (List.append_nil _).symm, fun _ he => absurd he List.not_mem_nil⟩

theorem AddsTo.trans (h : AddsTo c s s') (h' : AddsTo c s' s'') : AddsTo c s s'' := by
  obtain ⟨more, hevents, hmore⟩ := h
  obtain ⟨more', hevents', hmore'⟩ := h'
  refine ⟨more ++ more', ?_, ?_⟩
  · rw [hevents', hevents, List.append_assoc]
  · intro e he
    exact (List.mem_append.1 he).elim (hmore e) (hmore' e)

theorem channel_of_mem_wrote {bytes : List UInt8} {e : Event} (h : e ∈ wrote c bytes) :
    e.channel = c := by
  rw [eq_of_mem_wrote h, Event.channel]

theorem addsTo_write (c : Channel) (bytes : List UInt8) (s : Streams) :
    AddsTo c s (endState (write c bytes s)) := by
  rw [endState_write]
  exact ⟨_, events_accept s c _, fun e => channel_of_mem_wrote⟩

theorem addsTo_flush (c : Channel) (s : Streams) : AddsTo c s (endState (flush c s)) := by
  rw [endState_flush]
  refine ⟨_, events_afterFlush s c, fun e he => ?_⟩
  rw [List.mem_singleton.1 he, Event.channel]

/-- Without a flush of the output nothing is written to the diagnostics. -/
theorem diagnose_of_unflushed (text : String) (h : flush .output s = .error why s') :
    diagnose text s = .error why s' := by
  simp only [diagnose, bind, EStateM.bind, h]

/-- Behind a flush of the output all goes to the diagnostics. -/
theorem addsTo_diagnose (text : String) (h : flush .output s = .ok () s') :
    AddsTo .diagnostics s' (endState (diagnose text s)) := by
  have hrest : endState (diagnose text s) = endState ((do
      writeText .diagnostics text
      flush .diagnostics) s') := by
    simp only [diagnose, bind, EStateM.bind, h]
  rw [hrest]
  exact endState_bind (I := AddsTo .diagnostics s')
    (fun t ht => ht.trans (addsTo_write .diagnostics _ t))
    (fun _ t ht => ht.trans (addsTo_flush .diagnostics t)) (.refl _ s')

/-- What has been added to the events is in order. -/
def InOrderSince (base : List Event) (s : Streams) : Prop :=
  ∃ ops, s.events = base ++ ops ∧ InOrder ops

theorem inOrderSince_self (s : Streams) : InOrderSince s.events s :=
  ⟨[], (List.append_nil _).symm, inOrder_nil⟩

theorem InOrderSince.addsTo (h : InOrderSince base s) (hs' : AddsTo .output s s') :
    InOrderSince base s' := by
  obtain ⟨ops, hevents, hops⟩ := h
  obtain ⟨more, hevents', hmore⟩ := hs'
  refine ⟨ops ++ more, ?_, hops.append hmore⟩
  rw [hevents', hevents, List.append_assoc]

theorem InOrderSince.diagnose (h : InOrderSince base s) (text : String) :
    InOrderSince base (endState (Streams.diagnose text s)) := by
  cases hflush : flush .output s with
  | error why s' =>
      have hadds := addsTo_flush .output s
      rw [hflush] at hadds
      rw [diagnose_of_unflushed text hflush]
      exact h.addsTo hadds
  | ok _ s' =>
      obtain ⟨ops, hevents, hops⟩ := h
      obtain ⟨more, hevents', hmore⟩ := addsTo_diagnose text hflush
      obtain ⟨hfailure, rfl⟩ := flush_eq_ok_iff.1 hflush
      refine ⟨ops ++ .flushed .output none :: more, ?_, hops.append_flushed hmore⟩
      rw [hevents', events_afterFlush, hfailure, hevents]
      simp only [List.append_assoc, List.cons_append, List.nil_append]

theorem InOrderSince.serve (h : InOrderSince base s) (r : Request) :
    InOrderSince base (endState (r.serve s)) := by
  cases r with
  | read type =>
      rw [Request.serve, endState_map, endState_readValue]
      exact h
  | write text =>
      rw [Request.serve, silently, endState_map, writeText]
      exact h.addsTo (addsTo_write .output _ s)
  | diagnose text =>
      rw [Request.serve, silently, endState_map]
      exact h.diagnose text
  | close =>
      rw [Request.serve, silently, endState_map]
      exact h.addsTo (addsTo_flush .output s)

end Streams

/-! ## Runs -/

open Streams (InOrderSince)

/-- The operations that write to the diagnostics. -/
theorem Operation.print_or_dump {op : Operation Nat} (h : op.opcode ∈ [.dprint, .break]) :
    (∃ a, op = .print a) ∨ op = .dump := by
  simp only [List.mem_cons, List.not_mem_nil, or_false] at h
  cases op with
  | print a => exact .inl ⟨a, rfl⟩
  | dump => exact .inr rfl
  | assign x e =>
      have hne : e.opcode ≠ .dprint ∧ e.opcode ≠ .break :=
        ⟨e.opcode_ne (by decide), e.opcode_ne (by decide)⟩
      exact absurd h (not_or.2 hne)
  | jumpIf equal target a b => cases equal <;> simp [Operation.opcode, Operation.jumpIfOpcode] at h
  | _ => simp [Operation.opcode] at h

namespace Machine

variable {is : List Instruction} {p : Program} {m last : Machine} {n code : Nat}
  {base : List Event} {s s' : Streams} {why : String}

theorem inOrderSince_step (p : Program) (m : Machine) (h : InOrderSince base m.streams) :
    InOrderSince base (step p m).machine.streams :=
  streams_step_invariant (I := InOrderSince base) (fun r _ => h.serve r) h

theorem inOrderSince_run (p : Program) (n : Nat) (s : Streams) :
    InOrderSince s.events (run p n { streams := s }).machine.streams :=
  streams_run_invariant (inOrderSince_step p) n (Streams.inOrderSince_self s)

theorem inOrderSince_of_reaches (h : Reaches p { streams := s } m) :
    InOrderSince s.events m.streams := by
  refine Reaches.invariant (I := fun m => InOrderSince s.events m.streams) h
    (Streams.inOrderSince_self s) fun first second hfirst hstep => ?_
  have hsecond := inOrderSince_step p first hfirst
  rw [hstep] at hsecond
  exact hsecond

/-- The last thing that a program does before it exits is to flush the output. -/
theorem flush_of_exited (h : run p n m = .exited code last) :
    ∃ mid, Reaches p m mid ∧ Streams.flush .output mid.streams = .ok () last.streams := by
  obtain ⟨mid, hreach, hstep⟩ := run_stopped h (by simp)
  obtain ⟨before, streams, hending, hflush, rfl⟩ := step_exited hstep
  rw [hending.request?_eq.2] at hflush
  exact ⟨mid, hreach, hflush⟩

/-- An instruction for the diagnostics fails if the output cannot be flushed, and writes nothing. -/
theorem step_of_unflushed (hp : Program.ofInstructions is = .ok p) {i : Instruction}
    (hi : is[m.position]? = some i) (hopcode : i.opcode ∈ [.dprint, .break])
    (hflush : Streams.flush .output m.streams = .error why s') :
    ∃ f t, step p m = .faulted f (m.withStreams t) ∧
      ∀ c, t.written c = m.streams.written c := by
  obtain ⟨-, rfl⟩ := Streams.flush_eq_error_iff.1 hflush
  obtain ⟨line, hline, rfl⟩ := Program.exists_line hp hi
  rw [← opcode_of_line hp hline] at hopcode
  have hwritten := Streams.written_afterFlush m.streams .output
  rcases Operation.print_or_dump hopcode with ⟨a, hop⟩ | hop
  · cases hvalue : a.eval m.memory with
    | error e =>
        have hfails : Fails m line.operation e (m.withStreams m.streams) := by
          rw [hop]
          exact .printValue hvalue
        exact ⟨_, _, step_of_fails hline hfails, fun _ => rfl⟩
    | ok v =>
        have hfails : Fails m line.operation (.io why)
            (m.withStreams (m.streams.afterFlush .output)) := by
          rw [hop]
          exact .printOutput hvalue (Streams.diagnose_of_unflushed _ hflush)
        exact ⟨_, _, step_of_fails hline hfails, hwritten⟩
  · have hfails : Fails m line.operation (.io why)
        (m.withStreams (m.streams.afterFlush .output)) := by
      rw [hop]
      exact .dump (Streams.diagnose_of_unflushed _ hflush)
    exact ⟨_, _, step_of_fails hline hfails, hwritten⟩

end Machine

/-! ## Sessions -/

namespace Session

variable {parser : Markup.Parser} {steps code : Nat} {source : List UInt8} {s s' mid : Streams}
  {message : String} {base : List Event}

/-- What a verdict makes the session report. -/
def Verdict.message? : Verdict → Option String
  | .refused why => some why.message
  | .exited => none
  | .faulted f => some f.message

/-- What a session writes of its report, as far as it gets. -/
def Reports (parser : Markup.Parser) (steps : Nat) (source : List UInt8) (s : Streams)
    (line : List UInt8) : Prop :=
  ∃ message, (verdict parser steps source s).message? = some message ∧ line <+: errorLine message

theorem channel_of_report (taken : List UInt8) (failure : Option String) :
    ∀ e ∈ Streams.wrote .diagnostics taken ++ [.flushed .diagnostics failure],
      e.channel = .diagnostics := by
  intro e he
  rcases List.mem_append.1 he with hwrote | hflushed
  · exact Streams.channel_of_mem_wrote hwrote
  · rw [List.mem_singleton.1 hflushed, Event.channel]

/-- The one line among the events of a report is right behind the flush of the output. -/
theorem line_of_report {taken line : List UInt8} {failure : Option String} {d : Nat}
    (h : (Streams.wrote .diagnostics taken ++ [.flushed .diagnostics failure])[d]? =
      some (.written .diagnostics line)) :
    d = 0 ∧ line = taken ∧ (Streams.wrote .diagnostics taken).length = 1 := by
  unfold Streams.wrote at h ⊢
  split at h
  · cases d <;> simp at h
  · next hne =>
      rcases d with _ | _ | d
      · rw [if_neg hne]
        cases h
        exact ⟨rfl, rfl, rfl⟩
      · simp at h
      · simp at h

/-- Behind what is in order a report may follow. -/
theorem inOrderUpTo_append_report {ops : List Event} {taken : List UInt8}
    {Report : List UInt8 → Prop} (h : InOrder ops) (htaken : Report taken)
    (failure failure' : Option String) :
    InOrderUpTo Report (ops ++ .flushed .output failure ::
      (Streams.wrote .diagnostics taken ++ [.flushed .diagnostics failure'])) := by
  intro i j bytes line hij hi hj
  have hlt := lt_flushed (channel_of_report taken failure') hi
  rcases lt_or_flushed_lt hj with hbefore | hbehind
  · rw [List.getElem?_append_left hlt] at hi
    obtain ⟨k, hik, hkj, hk⟩ := h i j bytes line hij hi hbefore
    exact ⟨k, none, hik, hkj, getElem?_append_of_some hk _, .inl rfl⟩
  · refine ⟨ops.length, failure, hlt, hbehind, getElem?_flushed _ _ _, .inr ?_⟩
    obtain ⟨d, rfl⟩ : ∃ d, j = ops.length + (d + 1) := ⟨j - ops.length - 1, by omega⟩
    rw [List.getElem?_append_right (by omega), Nat.add_sub_cancel_left,
      List.getElem?_cons_succ] at hj
    obtain ⟨rfl, rfl, hlength⟩ := line_of_report hj
    refine ⟨?_, htaken⟩
    simp only [List.length_append, List.length_cons, List.length_nil, hlength]

theorem Reported.inOrder {ops : List Event} {Report : List UInt8 → Prop}
    (h : Reported message mid s') (hevents : mid.events = base ++ ops) (hops : InOrder ops)
    (hreport : ∀ line, line <+: errorLine message → Report line) :
    ∃ ops', s'.events = base ++ ops' ∧ InOrderUpTo Report ops' ∧ EndsFlushed ops' := by
  obtain ⟨failure, hevents'⟩ := h.events
  have htaken : mid.taken .diagnostics (errorLine message) <+: errorLine message :=
    List.take_prefix _ _
  rw [hevents, List.append_assoc] at hevents'
  exact ⟨_, hevents', inOrderUpTo_append_report hops (hreport _ htaken) _ failure,
    endsFlushed_append ops _ (channel_of_report _ failure)⟩

/-- A session that has something to report does so. -/
theorem reported_of_execute (h : execute parser steps source s = some (code, s'))
    (hmessage : (verdict parser steps source s).message? = some message) :
    ∃ mid, Reported message mid s' := by
  obtain ⟨v, hv⟩ := exists_explains h
  rw [← Verdict.Explains.eq hv] at hmessage
  cases v with
  | refused why =>
      obtain ⟨-, -, -, -, -, hreported, -⟩ := hv
      cases hmessage
      exact ⟨s, hreported⟩
  | exited => cases hmessage
  | faulted f =>
      obtain ⟨p, m, -, -, -, -, hreported, -⟩ := hv
      cases hmessage
      exact ⟨m.streams, hreported⟩

theorem inOrderUpTo_of_execute (h : execute parser steps source s = some (code, s')) :
    ∃ ops, s'.events = s.events ++ ops ∧ InOrderUpTo (Reports parser steps source s) ops ∧
      EndsFlushed ops := by
  obtain ⟨v, hv⟩ := exists_explains h
  have hverdict := Verdict.Explains.eq hv
  cases v with
  | refused why =>
      obtain ⟨-, -, -, -, -, hreported, -⟩ := hv
      refine hreported.inOrder (List.append_nil _).symm inOrder_nil fun line hline => ?_
      exact ⟨_, by rw [← hverdict, Verdict.message?], hline⟩
  | exited =>
      obtain ⟨p, m, -, hrun, -, rfl⟩ := hv
      -- the flush at the end comes behind all that was recorded up to the last machine
      obtain ⟨mid, hreach, hflush⟩ := Machine.flush_of_exited hrun
      obtain ⟨hfailure, hstreams⟩ := Streams.flush_eq_ok_iff.1 hflush
      obtain ⟨ops, hevents, hops⟩ := Machine.inOrderSince_of_reaches hreach
      have hnone : ∀ e ∈ ([] : List Event), e.channel = .diagnostics :=
        fun e he => absurd he List.not_mem_nil
      refine ⟨ops ++ [.flushed .output none], ?_, (hops.append_flushed hnone).upTo _,
        endsFlushed_append ops none hnone⟩
      rw [hstreams, Streams.events_afterFlush, hfailure, hevents, List.append_assoc]
  | faulted f =>
      obtain ⟨p, m, -, hrun, -, -, hreported, -⟩ := hv
      have hsince := Machine.inOrderSince_run p steps s
      rw [hrun] at hsince
      obtain ⟨ops, hevents, hops⟩ := hsince
      refine hreported.inOrder hevents hops fun line hline => ?_
      exact ⟨_, by rw [← hverdict, Verdict.message?], hline⟩

/-- **Diagnostics never overtake the output.**

* In a run, whether it ends or not, a successful flush of the output lies between bytes for the
  output and later ones for the diagnostics.
* An exit is the successful flush of the output on the machine that was reached last.
* If the output cannot be flushed, an instruction for the diagnostics fails and writes nothing.
* All events of a session are in order, up to the line that reports what went wrong, and what it has
  written to the output has been flushed, as far as that is possible. -/
theorem diagnostics_follow_output :
    (∀ is p, Program.ofInstructions is = .ok p →
      (∀ n s, (Machine.run p n { streams := s }).machine.streams.InOrderSince s.events) ∧
      (∀ n s code m, Machine.run p n { streams := s } = .exited code m →
        ∃ mid, Machine.Reaches p { streams := s } mid ∧
          Streams.flush .output mid.streams = .ok () m.streams ∧
          m.streams.events = mid.streams.events ++ [.flushed .output none]) ∧
      ∀ (m : Machine) i, is[m.position]? = some i → i.opcode ∈ [.dprint, .break] →
        ∀ why s', Streams.flush .output m.streams = .error why s' →
          ∃ f t, Machine.step p m = .faulted f (m.withStreams t) ∧
            ∀ c, t.written c = m.streams.written c) ∧
    ∀ parser steps source s code s', execute parser steps source s = some (code, s') →
      (∃ ops, s'.events = s.events ++ ops ∧ InOrderUpTo (Reports parser steps source s) ops ∧
        EndsFlushed ops) ∧
      ∀ message, (verdict parser steps source s).message? = some message →
        ∃ mid, Reported message mid s' := by
  refine ⟨fun is p hp => ⟨fun n s => Machine.inOrderSince_run p n s, ?_, ?_⟩, ?_⟩
  · intro n s code m hrun
    obtain ⟨mid, hreach, hflush⟩ := Machine.flush_of_exited hrun
    obtain ⟨hfailure, hstreams⟩ := Streams.flush_eq_ok_iff.1 hflush
    refine ⟨mid, hreach, hflush, ?_⟩
    rw [hstreams, Streams.events_afterFlush, hfailure]
  · intro m i hi hopcode why s' hflush
    exact Machine.step_of_unflushed hp hi hopcode hflush
  · intro parser steps source s code s' h
    exact ⟨inOrderUpTo_of_execute h, fun message => reported_of_execute h⟩

/-- Writes one word to the output and another one to the diagnostics. -/
def speaking : List Instruction :=
  [⟨.write, [.constant ⟨.string, "hi"⟩]⟩, ⟨.dprint, [.constant ⟨.string, "there"⟩]⟩]

/-- Where the output cannot be flushed, the second word is not written, but the report is begun. -/
theorem diagnostics_follow_output_speaking :
    ∃ (p : Program) (m mid : Machine) (f : Fault) (t s' : Streams) (ops : List Event),
      Program.ofInstructions speaking = .ok p ∧
      Machine.run p 3 {} = .exited 0 m ∧
      m.streams.events = mid.streams.events ++ [.flushed .output none] ∧
      Machine.step p { position := 1, streams := fullDisk } =
        .faulted f { position := 1, streams := t } ∧ t.written .diagnostics = [] ∧
      execute Markup.parser 2 (Text.Utf8.encode (Document.writing "hi ")) fullDisk =
        some (99, s') ∧
      s'.events = fullDisk.events ++ ops ∧
      InOrderUpTo
        (Reports Markup.parser 2 (Text.Utf8.encode (Document.writing "hi ")) fullDisk) ops ∧
      EndsFlushed ops ∧ s'.written .diagnostics = Text.Utf8.encode "error: " := by
  have hp : Program.ofInstructions speaking = .ok _ := rfl
  obtain ⟨hruns, hsessions⟩ := diagnostics_follow_output
  obtain ⟨-, hexits, hunflushed⟩ := hruns _ _ hp
  obtain ⟨mid, -, -, hmid⟩ := hexits 3 {} 0 _ rfl
  obtain ⟨f, t, hstep, ht⟩ :=
    hunflushed { position := 1, streams := fullDisk } _ rfl (by decide) _ _ rfl
  obtain ⟨s', hexecute, hs'⟩ : ∃ s',
      execute Markup.parser 2 (Text.Utf8.encode (Document.writing "hi ")) fullDisk =
        some (99, s') ∧
      s'.written .diagnostics = Text.Utf8.encode "error: " := by
    rw [execute_of_load_ok (Program.load_encode Document.parse_writing rfl)]
    exact ⟨_, rfl, rfl⟩
  obtain ⟨⟨ops, hevents, horder, hflushed⟩, -⟩ := hsessions _ _ _ _ _ _ hexecute
  exact ⟨_, _, mid, f, t, s', ops, hp, rfl, hmid, hstep, ht .diagnostics, hexecute, hevents, horder,
    hflushed, hs'⟩

end Session

end IppCode
