import Mathlib.Data.List.TakeWhile
import IppCode.Proofs.MemoryAccess
import IppCode.Proofs.Requests
import IppCode.Proofs.VariableLifetime

/-!
# Lines of input

The input is cut behind every line feed.  Each reading takes one of the pieces, whatever type it
asks for and whatever becomes of the value (`reads_take_pieces`).

* `pieces` cuts the input; `readLine_eq` says that a line that is read is the first piece.
* `ReadsAs` says which value a reading makes of a piece, without reference to how it is computed.
* What lies behind the pieces that a program reads cannot matter to it, be it more bytes, an end or
  an error: two runs whose inputs begin with the same lines are in step (`run_inStep_of_lead`).
-/

namespace IppCode

/-! ## Pieces -/

/-- The bytes cut behind every line feed.  The last piece may lack one. -/
def pieces : List UInt8 → List (List UInt8)
  | [] => []
  | b :: rest =>
    if b = 10 then [b] :: pieces rest
    else
      match pieces rest with
      | [] => [[b]]
      | piece :: more => (b :: piece) :: more

/-- A line with its line feed. -/
def IsLine (piece : List UInt8) : Prop :=
  ∃ line, 10 ∉ line ∧ piece = line ++ [10]

section Pieces

variable {line rest bytes : List UInt8}

theorem pieces_line (h : 10 ∉ line) (rest : List UInt8) :
    pieces (line ++ 10 :: rest) = (line ++ [10]) :: pieces rest := by
  induction line with
  | nil => simp [pieces]
  | cons b line ih =>
      obtain ⟨hb, hline⟩ := List.ne_and_not_mem_of_not_mem_cons h
      rw [List.cons_append, pieces, if_neg (Ne.symm hb), ih hline]
      rfl

theorem pieces_bare (h : 10 ∉ bytes) (hne : bytes ≠ []) : pieces bytes = [bytes] := by
  induction bytes with
  | nil => exact absurd rfl hne
  | cons b bytes ih =>
      obtain ⟨hb, hbytes⟩ := List.ne_and_not_mem_of_not_mem_cons h
      rw [pieces, if_neg (Ne.symm hb)]
      cases bytes with
      | nil => rfl
      | cons c bytes => rw [ih hbytes (List.cons_ne_nil c bytes)]

/-- Bytes begin with a line, or hold no line feed. -/
theorem line_or_bare (bytes : List UInt8) :
    (∃ line rest, 10 ∉ line ∧ bytes = line ++ 10 :: rest) ∨ 10 ∉ bytes := by
  by_cases h : (10 : UInt8) ∈ bytes
  · obtain ⟨line, rest, rfl, hline⟩ := List.eq_append_cons_of_mem h
    exact .inl ⟨line, rest, hline, rfl⟩
  · exact .inr h

theorem flatten_pieces (bytes : List UInt8) : (pieces bytes).flatten = bytes := by
  induction bytes with
  | nil => rfl
  | cons b rest ih =>
      rw [pieces]
      split
      · rw [List.flatten_cons, ih]
        rfl
      · cases hpieces : pieces rest with
        | nil =>
            rw [hpieces] at ih
            rw [← ih]
            rfl
        | cons piece more =>
            rw [hpieces, List.flatten_cons] at ih
            rw [List.flatten_cons, List.cons_append, ih]

theorem ne_nil_of_mem_pieces {piece : List UInt8} (h : piece ∈ pieces bytes) : piece ≠ [] := by
  induction bytes with
  | nil => cases h
  | cons b rest ih =>
      rw [pieces] at h
      split at h
      · rcases List.mem_cons.1 h with rfl | hmem
        · exact List.cons_ne_nil _ _
        · exact ih hmem
      · cases hpieces : pieces rest with
        | nil =>
            rw [hpieces] at h
            rw [List.mem_singleton.1 h]
            exact List.cons_ne_nil _ _
        | cons first more =>
            rw [hpieces] at h ih
            rcases List.mem_cons.1 h with rfl | hmem
            · exact List.cons_ne_nil _ _
            · exact ih (List.mem_cons_of_mem first hmem)

/-- The pieces behind the first one are those of the bytes behind it. -/
theorem pieces_flatten_tail (bytes : List UInt8) :
    pieces (pieces bytes).tail.flatten = (pieces bytes).tail := by
  rcases line_or_bare bytes with ⟨line, rest, hline, rfl⟩ | hbare
  · rw [pieces_line hline, List.tail_cons, flatten_pieces]
  · cases bytes with
    | nil => rfl
    | cons b rest =>
        rw [pieces_bare hbare (List.cons_ne_nil b rest)]
        rfl

theorem pieces_flatten_drop (bytes : List UInt8) (k : Nat) :
    pieces ((pieces bytes).drop k).flatten = (pieces bytes).drop k := by
  induction k generalizing bytes with
  | zero => rw [List.drop_zero, flatten_pieces]
  | succ k ih =>
      rw [← List.drop_tail, ← pieces_flatten_tail]
      exact ih _

end Pieces

/-! ## Reading a line -/

namespace Source

variable {line : List UInt8}

/-- The source with bytes put in front of all that it holds. -/
def prepend (s : Source) (bytes : List UInt8) : Source :=
  { s with ready := bytes ++ s.ready }

theorem ne_lineFeed (h : 10 ∉ line) : ∀ b ∈ line, (b != 10) = true :=
  fun _ hb => bne_iff_ne.2 fun heq => h (heq ▸ hb)

/-- A line is read whatever comes behind it. -/
theorem readLine_line (h : 10 ∉ line) (s : Source) :
    readLine (s.prepend (line ++ [10])) = .ok (line ++ [10]) s := by
  have htake : (line ++ [10] ++ s.ready).takeWhile (· != 10) = line := by
    rw [List.append_assoc, List.takeWhile_append_of_pos (ne_lineFeed h)]
    simp
  have hdrop : (line ++ [10] ++ s.ready).dropWhile (· != 10) = 10 :: s.ready := by
    rw [List.append_assoc, List.dropWhile_append_of_pos (ne_lineFeed h)]
    simp
  simp only [readLine, prepend, htake, hdrop]

theorem readLine_bare (h : 10 ∉ line) : readLine { ready := line } = .ok line {} := by
  have hdrop : line.dropWhile (· != 10) = [] := List.dropWhile_eq_nil_iff.2 (ne_lineFeed h)
  have htake : line.takeWhile (· != 10) = line := List.takeWhile_eq_self_iff.2 (ne_lineFeed h)
  simp only [readLine, htake, hdrop, advance]

/-- A line that is read is the first piece, if there is one. -/
theorem readLine_eq (bytes : List UInt8) :
    readLine { ready := bytes } =
      .ok ((pieces bytes).head?.getD []) { ready := (pieces bytes).tail.flatten } := by
  rcases line_or_bare bytes with ⟨line, rest, hline, rfl⟩ | hbare
  · have hinput : ({ ready := line ++ 10 :: rest } : Source) =
        prepend { ready := rest } (line ++ [10]) := by
      simp [prepend]
    rw [hinput, readLine_line hline, pieces_line hline, List.tail_cons, flatten_pieces]
    rfl
  · rw [readLine_bare hbare]
    cases bytes with
    | nil => rfl
    | cons b rest =>
        rw [pieces_bare hbare (List.cons_ne_nil b rest)]
        rfl

end Source

/-! ## Values read -/

/-- A line without its line feed and one carriage return right before that. -/
inductive ChompsTo : List Char → List Char → Prop
  | carriageReturn (text : List Char) : ChompsTo (text ++ ['\r', '\n']) text
  | lineFeed {text : List Char} (h : text.getLast? ≠ some '\r') : ChompsTo (text ++ ['\n']) text
  | bare {text : List Char} (h : text.getLast? ≠ some '\n') : ChompsTo text text

/-- The value of a type that a text stands for. -/
inductive StandsFor (text : String) : ValueType → Value → Prop
  | string : StandsFor text .string (.str text)
  | int {n : Int64} (h : Text.Numeral.read? (Text.trim text) = some n) :
      StandsFor text .int (.int n)
  | noInt (h : Text.Numeral.read? (Text.trim text) = none) : StandsFor text .int .nil
  | bool : StandsFor text .bool (.bool (Text.sameLetters (Text.trim text) "true"))
  | nil : StandsFor text .nil .nil

/-- The value that a reading of a type makes of a piece of the input, or of the end of the input. -/
inductive ReadsAs (type : ValueType) : Option (List UInt8) → Value → Prop
  | atEnd : ReadsAs type none .nil
  | illFormed {piece : List UInt8} (h : ∀ line, piece ≠ Text.Utf8.encode line) :
      ReadsAs type (some piece) .nil
  | text {line : String} {text : List Char} {v : Value} (htext : ChompsTo line.toList text)
      (hv : StandsFor (String.ofList text) type v) :
      ReadsAs type (some (Text.Utf8.encode line)) v

theorem chompsTo_dropLineEnd (line : List Char) : ChompsTo line (dropLineEnd line) := by
  unfold dropLineEnd
  split
  · next rest h =>
      have hline : line = rest.reverse ++ ['\r', '\n'] := by
        rw [← List.reverse_reverse line, h]
        simp
      rw [hline]
      exact .carriageReturn _
  · next rest hno h =>
      have hline : line = rest.reverse ++ ['\n'] := by
        rw [← List.reverse_reverse line, h]
        simp
      rw [hline]
      refine .lineFeed fun hlast => ?_
      rw [List.getLast?_reverse] at hlast
      obtain ⟨more, rfl⟩ := List.head?_eq_some_iff.1 hlast
      exact hno more rfl
  · next _ hno =>
      refine .bare fun hlast => ?_
      rw [← List.head?_reverse] at hlast
      obtain ⟨more, hmore⟩ := List.head?_eq_some_iff.1 hlast
      exact hno more hmore

theorem standsFor_ofText (type : ValueType) (text : String) :
    StandsFor text type (.ofText type text) := by
  cases type with
  | string => exact .string
  | bool => exact .bool
  | nil => exact .nil
  | int =>
      unfold Value.ofText
      cases h : Text.Numeral.read? (Text.trim text) with
      | none => exact .noInt h
      | some n => exact .int h

theorem readsAs_ofLine (type : ValueType) {piece : Option (List UInt8)}
    (h : ∀ bytes, piece = some bytes → bytes ≠ []) :
    ReadsAs type piece (.ofLine type (piece.getD [])) := by
  cases piece with
  | none => exact .atEnd
  | some bytes =>
      obtain ⟨b, rest, rfl⟩ := List.exists_cons_of_ne_nil (h bytes rfl)
      rw [Option.getD_some]
      cases hdecode : Text.Utf8.decode? (b :: rest) with
      | none =>
          have hvalue : Value.ofLine type (b :: rest) = .nil := by
            simp only [Value.ofLine, hdecode]
          rw [hvalue]
          refine .illFormed fun line hline => ?_
          rw [hline, Text.Utf8.decode?_encode] at hdecode
          cases hdecode
      | some line =>
          have hvalue : Value.ofLine type (b :: rest) =
              .ofText type (String.ofList (dropLineEnd line.toList)) := by
            simp only [Value.ofLine, hdecode]
          rw [hvalue, ← Text.Utf8.encode_of_decode? hdecode]
          exact .text (chompsTo_dropLineEnd _) (standsFor_ofText _ _)

/-! ## Instructions that read -/

open Streams (Request SameAnswer Coincides)

theorem Operation.eq_read {op : Operation Nat} (h : op.opcode = .read) :
    ∃ x type, op = .read x type := by
  cases op with
  | read x type => exact ⟨x, type, rfl⟩
  | assign x e => exact absurd h (e.opcode_ne (by decide))
  | jumpIf equal target a b => cases equal <;> cases h
  | _ => cases h

theorem Operation.opcode_of_request? {m : Machine} {op : Operation Nat} {type : ValueType}
    (h : op.request? m = some (.read type)) : op.opcode = .read := by
  cases op with
  | read x type => rfl
  | write a | print a | exit a =>
      obtain ⟨v, -, hrequest⟩ := Option.map_eq_some_iff.1 h
      cases hrequest
  | _ => cases h

namespace Machine

variable {is : List Instruction} {p : Program} {m m' mid : Machine} {t : Streams}
  {bytes : List UInt8} {n : Nat} {s : Status}

/-- The machine is at an instruction that reads. -/
def isReading (is : List Instruction) (m : Machine) : Bool :=
  is[m.position]?.any fun i => i.opcode == .read

theorem isReading_iff :
    m.isReading is = true ↔ ∃ i, is[m.position]? = some i ∧ i.opcode = .read := by
  rw [isReading]
  cases is[m.position]? <;> simp

theorem exists_reading (hp : Program.ofInstructions is = .ok p) (h : m.isReading is = true) :
    ∃ line x type, p.lines[m.position]? = some line ∧ line.operation = .read x type ∧
      line.instruction = ⟨.read, [.variable x, .type type]⟩ := by
  obtain ⟨i, hi, hopcode⟩ := isReading_iff.1 h
  obtain ⟨line, hline, rfl⟩ := Program.exists_line hp hi
  obtain ⟨x, type, hop⟩ := Operation.eq_read ((opcode_of_line hp hline).trans hopcode)
  refine ⟨line, x, type, hline, hop, ?_⟩
  have hoperands := Instruction.read_of_link (hop ▸ (Program.line_of_getElem? hp hline).2)
  rw [← hoperands, ← hopcode]

theorem request?_of_reading (hp : Program.ofInstructions is = .ok p) (h : m.isReading is = true) :
    ∃ type, request? p m = some (.read type) := by
  obtain ⟨line, x, type, hline, hop, -⟩ := exists_reading hp h
  exact ⟨type, by rw [request?_of_line hline, hop, Operation.request?]⟩

theorem isReading_of_request? (hp : Program.ofInstructions is = .ok p) {type : ValueType}
    (h : request? p m = some (.read type)) : m.isReading is = true := by
  obtain ⟨line, hline, hrequest⟩ := exists_line_of_request? h (by simp)
  have hopcode := Operation.opcode_of_request? hrequest
  rw [opcode_of_line hp hline] at hopcode
  exact isReading_iff.2 ⟨line.instruction, (Program.line_of_getElem? hp hline).1, hopcode⟩

/-- A step takes a line from the input exactly if it is at an instruction that reads. -/
theorem input_step (hp : Program.ofInstructions is = .ok p) (m : Machine) :
    (step p m).machine.streams.input =
      if m.isReading is then endState (Source.readLine m.streams.input) else m.streams.input := by
  by_cases hreading : m.isReading is = true
  · obtain ⟨type, hrequest⟩ := request?_of_reading hp hreading
    rw [if_pos hreading, (streams_step p m).2 _ hrequest, Request.serve, endState_map,
      Streams.endState_readValue]
  · rw [if_neg hreading]
    refine streams_step_invariant (I := fun s => s.input = m.streams.input)
      (fun r hrequest => ?_) rfl
    refine Streams.serve_invariant (I := fun s => s.input = m.streams.input) r ?_ ?_ ?_ ?_ rfl
    · rintro type rfl
      exact absurd (isReading_of_request? hp hrequest) hreading
    · intro c s hs
      rw [Streams.endState_flush, Streams.input_afterFlush, hs]
    · intro bytes s hs
      rw [Streams.endState_write, Streams.input_accept, hs]
    · intro text _ s hs
      rw [Streams.writeText, Streams.endState_write, Streams.input_accept, hs]

/-- What an instruction that reads does with a value: it stores it, and then the variable holds it,
or it fails to, for want of the variable. -/
def Stores (p : Program) (m : Machine) (x : Variable) (v : Value) : Prop :=
  ∃ streams,
    (∃ memory, m.memory.write x (some v) = .ok () memory ∧ memory.read x = .ok v ∧
      step p m = .running ({ m with memory, streams }).advanced) ∨
    ∃ e, m.memory.write x (some v) = .error e m.memory ∧ m.memory.slot x = .error e ∧
      step p m = .faulted ⟨e, some (m.position, .read)⟩ (m.withStreams streams)

theorem stores_of_readValue {line : Line} {x : Variable} {type : ValueType} {v : Value}
    {streams : Streams} (hline : p.lines[m.position]? = some line)
    (hop : line.operation = .read x type) (hopcode : line.instruction.opcode = .read)
    (hread : Streams.readValue type m.streams = .ok v streams) : Stores p m x v := by
  refine ⟨streams, ?_⟩
  cases hstore : m.memory.write x (some v) with
  | ok _ memory =>
      have hexec : Executes m line.operation .next { m with memory, streams } := by
        rw [hop]
        exact .read hread hstore
      exact .inl ⟨memory, rfl, Memory.read_of_write hstore, step_of_executes hline hexec⟩
  | error e memory =>
      obtain ⟨hslot, rfl⟩ := Memory.write_eq_error_iff.1 hstore
      have hfails : Fails m line.operation e (m.withStreams streams) := by
        rw [hop]
        exact .readStore hread hstore
      exact .inr ⟨e, rfl, hslot, hopcode ▸ step_of_fails hline hfails⟩

/-- An instruction that reads stores what the first piece of the input stands for. -/
theorem stores_of_reading (hp : Program.ofInstructions is = .ok p) (h : m.isReading is = true)
    (hinput : m.streams.input = { ready := bytes }) :
    ∃ x type v, is[m.position]? = some ⟨.read, [.variable x, .type type]⟩ ∧
      ReadsAs type (pieces bytes).head? v ∧ Stores p m x v := by
  obtain ⟨line, x, type, hline, hop, hi⟩ := exists_reading hp h
  have hread : Streams.readValue type m.streams =
      .ok (.ofLine type ((pieces bytes).head?.getD []))
        { m.streams with input := { ready := (pieces bytes).tail.flatten } } := by
    simp only [Streams.readValue, hinput, Source.readLine_eq]
  refine ⟨x, type, _, hi ▸ (Program.line_of_getElem? hp hline).1, readsAs_ofLine type ?_,
    stores_of_readValue hline hop (by rw [hi]) hread⟩
  intro piece hpiece
  exact ne_nil_of_mem_pieces (List.mem_of_head? hpiece)

/-! ## Readings of a run -/

/-- The machines from which the steps of a run are taken, from the first to the last. -/
def visited (p : Program) : Nat → Machine → List Machine
  | 0, _ => []
  | n + 1, m =>
    m :: match step p m with
      | .running m' => visited p n m'
      | _ => []

/-- The machines of a run that are at instructions that read. -/
def reads (is : List Instruction) (p : Program) (n : Nat) (m : Machine) : List Machine :=
  (visited p n m).filter (isReading is)

theorem reads_succ_of_running (h : step p m = .running m') :
    reads is p (n + 1) m = [m].filter (isReading is) ++ reads is p n m' := by
  rw [reads, visited, h, ← List.singleton_append, List.filter_append, reads]

theorem reads_succ_of_stopped (h : step p m = s) (hs : s.Stopped) :
    reads is p (n + 1) m = [m].filter (isReading is) := by
  rw [reads, visited, h]
  cases s with
  | running m' => exact absurd rfl (hs m')
  | exited code m' => rfl
  | faulted f m' => rfl

theorem input_step_drop (hp : Program.ofInstructions is = .ok p)
    (h : m.streams.input = { ready := bytes }) :
    (step p m).machine.streams.input =
      { ready := ((pieces bytes).drop ([m].filter (isReading is)).length).flatten } := by
  rw [input_step hp, h]
  by_cases hreading : m.isReading is = true
  · rw [if_pos hreading, List.filter_cons_of_pos hreading, List.filter_nil, List.length_singleton,
      List.drop_one, Source.readLine_eq, endState_ok]
  · rw [if_neg hreading, List.filter_cons_of_neg hreading, List.filter_nil, List.length_nil,
      List.drop_zero, flatten_pieces]

/-- What is left of the input are the pieces behind those that have been read. -/
theorem input_run (hp : Program.ofInstructions is = .ok p) (n : Nat)
    (h : m.streams.input = { ready := bytes }) :
    (run p n m).machine.streams.input =
      { ready := ((pieces bytes).drop (reads is p n m).length).flatten } := by
  induction n generalizing m bytes with
  | zero =>
      rw [reads, visited, List.filter_nil, List.length_nil, List.drop_zero, flatten_pieces]
      exact h
  | succ n ih =>
      have hstep := input_step_drop hp h
      cases hnext : step p m with
      | running m' =>
          rw [hnext] at hstep
          rw [run_succ_of_running hnext, reads_succ_of_running hnext, ih (m := m') hstep,
            pieces_flatten_drop, List.drop_drop, List.length_append]
      | exited code m' =>
          rw [run_succ_of_stopped hnext Status.stopped_exited,
            reads_succ_of_stopped hnext Status.stopped_exited, ← hnext, hstep]
      | faulted f m' =>
          rw [run_succ_of_stopped hnext Status.stopped_faulted,
            reads_succ_of_stopped hnext Status.stopped_faulted, ← hnext, hstep]

theorem eq_self_of_getElem? {i : Nat} (h : ([m].filter (isReading is))[i]? = some mid) :
    mid = m ∧ i = 0 := by
  have hmem : mid ∈ [m].filter (isReading is) := List.mem_of_getElem? h
  obtain ⟨hlt, -⟩ := List.getElem?_eq_some_iff.1 h
  have hle : ([m].filter (isReading is)).length ≤ 1 := List.length_filter_le _ _
  exact ⟨List.mem_singleton.1 (List.mem_filter.1 hmem).1, by omega⟩

/-- Before the reading with the number `i` (the first one has the number 0), `i` pieces of the input
have been read. -/
theorem input_of_reads (hp : Program.ofInstructions is = .ok p) {i : Nat}
    (h : m.streams.input = { ready := bytes }) (hmid : (reads is p n m)[i]? = some mid) :
    mid.streams.input = { ready := ((pieces bytes).drop i).flatten } := by
  induction n generalizing m bytes i with
  | zero => cases hmid
  | succ n ih =>
      -- the first machine counts only if it reads, and then nothing was consumed in front of it
      have hself : ([m].filter (isReading is))[i]? = some mid →
          mid.streams.input = { ready := ((pieces bytes).drop i).flatten } := by
        intro hmid
        obtain ⟨rfl, rfl⟩ := eq_self_of_getElem? hmid
        rw [List.drop_zero, flatten_pieces]
        exact h
      have hstep := input_step_drop hp h
      cases hnext : step p m with
      | running m' =>
          rw [reads_succ_of_running hnext] at hmid
          rw [hnext] at hstep
          rcases Nat.lt_or_ge i ([m].filter (isReading is)).length with hlt | hge
          · rw [List.getElem?_append_left hlt] at hmid
            exact hself hmid
          · rw [List.getElem?_append_right hge] at hmid
            rw [ih (m := m') hstep hmid, pieces_flatten_drop, List.drop_drop,
              Nat.add_sub_cancel' hge]
      | exited code m' =>
          rw [reads_succ_of_stopped hnext Status.stopped_exited] at hmid
          exact hself hmid
      | faulted f m' =>
          rw [reads_succ_of_stopped hnext Status.stopped_faulted] at hmid
          exact hself hmid

end Machine

/-! ## Inputs that begin alike -/

namespace Streams

variable {s t : Streams} {a b : Source}

/-- The streams differ in nothing but the input. -/
def SameButInput (s t : Streams) : Prop :=
  t = { s with input := t.input }

/-- The first streams have the input `a`, the second ones have `b`, and nothing else differs. -/
structure Inputs (a b : Source) (s t : Streams) : Prop where
  first : s.input = a
  second : t = { s with input := b }

theorem Inputs.sameButInput (h : Inputs a b s t) : SameButInput s t := by
  obtain ⟨-, rfl⟩ := h
  rfl

theorem Inputs.sink (h : Inputs a b s t) (c : Channel) : t.sink c = s.sink c := by
  rw [h.second]
  cases c <;> rfl

theorem Inputs.accept (h : Inputs a b s t) (c : Channel) (bytes : List UInt8) :
    Inputs a b (s.accept c bytes) (t.accept c bytes) := by
  refine ⟨?_, ?_⟩
  · rw [input_accept, h.first]
  · rw [h.second]
    unfold Streams.accept
    split <;> cases c <;> rfl

theorem Inputs.afterFlush (h : Inputs a b s t) (c : Channel) :
    Inputs a b (s.afterFlush c) (t.afterFlush c) := by
  refine ⟨?_, ?_⟩
  · rw [input_afterFlush, h.first]
  · rw [h.second]
    cases c <;> rfl

/-- Requests that read nothing do not depend on the input. -/
theorem Inputs.sameAnswer {r : Request} (hr : ∀ type, r ≠ .read type) (h : Inputs a b s t) :
    SameAnswer (Inputs a b) (r.serve s) (r.serve t) := by
  have hcoincides : Coincides (fun _ => True) (Inputs a b) r.serve := by
    refine coincides_serve (fun _ _ _ _ => trivial) ?_ ?_ r fun type htype => absurd htype (hr type)
    · intro c bytes s t h _
      exact sameAnswer_write (by rw [h.sink]) (fun _ => by rw [h.sink]) (h.accept c _)
    · intro c s t h _
      exact sameAnswer_flush (by rw [h.sink]) (h.afterFlush c)
  exact hcoincides s t h trivial

/-- Where both inputs begin with the same line, that is what is read. -/
theorem Inputs.sameAnswer_read {line : List UInt8} (hline : 10 ∉ line) (type : ValueType)
    (h : Inputs (a.prepend (line ++ [10])) (b.prepend (line ++ [10])) s t) :
    SameAnswer (Inputs a b) ((Request.read type).serve s) ((Request.read type).serve t) := by
  obtain ⟨hfirst, rfl⟩ := h
  refine SameAnswer.map some ?_
  simp only [readValue, hfirst, Source.readLine_line hline]
  exact .ok ⟨rfl, rfl⟩

end Streams

namespace Machine

open Streams (Inputs SameButInput)

variable {is : List Instruction} {p : Program} {m : Machine} {t : Streams} {rest rest' : Source}

/-- What lies behind the lines that a program reads does not matter to it. -/
theorem run_inStep_of_lead (hp : Program.ofInstructions is = .ok p) (n : Nat)
    {lead : List (List UInt8)} (hlead : ∀ piece ∈ lead, IsLine piece)
    (h : Inputs (rest.prepend lead.flatten) (rest'.prepend lead.flatten) m.streams t)
    (hreads : (reads is p n m).length ≤ lead.length) :
    (run p n m).InStep SameButInput (run p n (m.withStreams t)) := by
  induction n generalizing m t lead with
  | zero => exact .running h.sameButInput
  | succ n ih =>
      by_cases hreading : m.isReading is = true
      · -- the step reads, so there is a first line, and both runs read it
        have hself : m ∈ reads is p (n + 1) m := List.mem_filter.2 ⟨List.mem_cons_self, hreading⟩
        obtain ⟨type, hrequest⟩ := request?_of_reading hp hreading
        cases lead with
        | nil => exact absurd (List.length_pos_of_mem hself) (Nat.not_lt.2 hreads)
        | cons piece lead =>
            obtain ⟨line, hline, rfl⟩ := hlead piece List.mem_cons_self
            have hfirst : ∀ rest : Source, rest.prepend ((line ++ [10]) :: lead).flatten =
                (rest.prepend lead.flatten).prepend (line ++ [10]) := by
              simp [Source.prepend]
            rw [hfirst, hfirst] at h
            have hstep : (step p m).InStep
                (Inputs (rest.prepend lead.flatten) (rest'.prepend lead.flatten))
                (step p (m.withStreams t)) := by
              refine step_inStep (fun hnone => ?_) fun r hr => ?_
              · rw [hrequest] at hnone
                cases hnone
              · obtain rfl := Option.some.inj (hrequest.symm.trans hr)
                exact h.sameAnswer_read hline type
            refine run_inStep_succ hstep (fun _ _ => Inputs.sameButInput) fun m' t' hm' hR => ?_
            refine ih (fun piece hpiece => hlead piece (List.mem_cons_of_mem _ hpiece)) hR ?_
            rw [reads_succ_of_running hm', List.filter_cons_of_pos hreading] at hreads
            exact Nat.le_of_succ_le_succ hreads
      · have hstep : (step p m).InStep _ (step p (m.withStreams t)) :=
          step_inStep (fun _ => h) fun r hr => h.sameAnswer fun type htype =>
            hreading (isReading_of_request? hp (htype ▸ hr))
        refine run_inStep_succ hstep (fun _ _ => Inputs.sameButInput) fun m' t' hm' hR => ?_
        refine ih hlead hR ?_
        rw [reads_succ_of_running hm', List.filter_cons_of_neg hreading] at hreads
        exact hreads

/-- **Each reading takes one line.**  The input is cut into pieces behind its line feeds.

* If the input is given by its bytes, so that nothing but its end is behind them, then what is left
  of it, however long the program has run, are the pieces behind as many as there were attempts to
  read.
* The `i`-th attempt reads the `i`-th piece, or the end of the input if there is none, and stores
  its value or fails for want of the variable.
* On two inputs that begin with the same lines, whatever is behind these, the program does the same
  as long as it does not attempt to read more of them. -/
theorem reads_take_pieces (hp : Program.ofInstructions is = .ok p) (s : Streams) :
    (∀ bytes, s.input = { ready := bytes } →
      (∀ n, (run p n { streams := s }).machine.streams.input =
        { ready := ((pieces bytes).drop (reads is p n { streams := s }).length).flatten }) ∧
      ∀ (n i : Nat) (m : Machine), (reads is p n { streams := s })[i]? = some m →
        ∃ x type v, is[m.position]? = some ⟨.read, [.variable x, .type type]⟩ ∧
          ReadsAs type (pieces bytes)[i]? v ∧ Stores p m x v) ∧
    ∀ (lead : List (List UInt8)) (rest rest' : Source), (∀ piece ∈ lead, IsLine piece) →
      s.input = rest.prepend lead.flatten →
        ∀ n, (reads is p n { streams := s }).length ≤ lead.length →
          (run p n { streams := s }).InStep SameButInput
            (run p n { streams := { s with input := rest'.prepend lead.flatten } }) := by
  refine ⟨fun bytes hinput => ⟨fun n => ?_, ?_⟩, ?_⟩
  · exact input_run (m := { streams := s }) hp n hinput
  · intro n i m hm
    have hreading : m.isReading is = true := (List.mem_filter.1 (List.mem_of_getElem? hm)).2
    have hleft := input_of_reads (m := { streams := s }) hp hinput hm
    obtain ⟨x, type, v, hi, hv, hstores⟩ := stores_of_reading hp hreading hleft
    rw [pieces_flatten_drop, List.head?_drop] at hv
    exact ⟨x, type, v, hi, hv, hstores⟩
  · intro lead rest rest' hlead hinput n hreads
    exact run_inStep_of_lead (m := { streams := s }) hp n hlead ⟨hinput, rfl⟩ hreads

/-- Reads a text and a number. -/
def readTwice : List Instruction :=
  [⟨.defVar, [.variable ⟨.global, "x"⟩]⟩, ⟨.read, [.variable ⟨.global, "x"⟩, .type .string]⟩,
    ⟨.read, [.variable ⟨.global, "x"⟩, .type .int]⟩]

/-- An input of two lines, the last one without a line feed. -/
def twoLines : Streams where
  input := { ready := Text.Utf8.encode "a\r\n 7" }

/-- What is left of an input that is not text any more and fails for that. -/
def gone : Source where
  ready := [255]
  failure := some { text := "gone", invalid := true }

/-- The second line is read as a number, and the steps before that do not depend on it. -/
theorem reads_take_pieces_readTwice :
    ∃ (p : Program) (m : Machine) (v : Value), Program.ofInstructions readTwice = .ok p ∧
      (run p 3 { streams := twoLines }).machine.streams.input = {} ∧
      (reads readTwice p 3 { streams := twoLines })[1]? = some m ∧
      ReadsAs .int (some (Text.Utf8.encode " 7")) v ∧ Stores p m ⟨.global, "x"⟩ v ∧
      (run p 2 { streams := twoLines }).InStep SameButInput
        (run p 2 { streams := { input := gone.prepend (Text.Utf8.encode "a\r\n") } }) := by
  have hp : Program.ofInstructions readTwice = .ok _ := rfl
  obtain ⟨hlines, hlead⟩ := reads_take_pieces hp twoLines
  obtain ⟨hleft, hvalues⟩ := hlines _ rfl
  obtain ⟨x, type, v, hi, hv, hstores⟩ := hvalues 3 1 _ rfl
  cases hi
  refine ⟨_, _, v, hp, hleft 3, rfl, hv, hstores, ?_⟩
  refine hlead [Text.Utf8.encode "a\r\n"] { ready := Text.Utf8.encode " 7" } gone ?_ rfl 2
    (by decide)
  intro piece hpiece
  rw [List.mem_singleton.1 hpiece]
  exact ⟨[97, 13], by decide, rfl⟩

end Machine

end IppCode
