import IppCode.Streams

/-!
# What happens to streams

One lemma for each operation on streams says what it leaves: which events it adds to the log, which
sink it changes and what it does to the input.  An operation that fails leaves something too, so
these are statements about `endState`, the state in which work ends either way.

All operations only add: events are put behind those before, the numbers of requests served and of
bytes held rise, and the input loses bytes at its beginning (`Streams.Grows`).
-/

namespace IppCode

/-- The state that work ends in, whether it fails or not. -/
def endState {ε σ α : Type} : EStateM.Result ε σ α → σ
  | .ok _ s => s
  | .error _ s => s

@[simp]
theorem endState_ok {ε σ α : Type} (a : α) (s : σ) :
    endState (.ok a s : EStateM.Result ε σ α) = s := rfl

@[simp]
theorem endState_error {ε σ α : Type} (e : ε) (s : σ) :
    endState (.error e s : EStateM.Result ε σ α) = s := rfl

/-- What both parts of some work pass on is passed on by the whole, wherever that ends. -/
theorem endState_bind {ε σ α β : Type} {x : EStateM ε σ α} {f : α → EStateM ε σ β} {I : σ → Prop}
    (hx : ∀ s, I s → I (endState (x s))) (hf : ∀ a s, I s → I (endState (f a s))) {s : σ}
    (h : I s) : I (endState ((x >>= f) s)) := by
  have hfirst := hx s h
  simp only [bind, EStateM.bind]
  cases hresult : x s with
  | ok a s' =>
      rw [hresult] at hfirst
      exact hf a s' hfirst
  | error e s' =>
      rw [hresult] at hfirst
      exact hfirst

theorem endState_map {ε σ α β : Type} (f : α → β) (x : EStateM ε σ α) (s : σ) :
    endState (EStateM.map f x s) = endState (x s) := by
  simp only [EStateM.map]
  cases x s <;> rfl

/-- The channel that an event happens to. -/
def Event.channel : Event → Channel
  | .written c _ => c
  | .flushed c _ => c

namespace Streams

variable {s s' s'' : Streams} {c d : Channel} {bytes : List UInt8}

/-! ## Sinks -/

@[simp]
theorem sink_setSink (s : Streams) (c : Channel) (new : Sink) : (s.setSink c new).sink c = new := by
  cases c <;> rfl

/-- The channels have separate sinks. -/
theorem sink_setSink_ne (new : Sink) (h : d ≠ c) : (s.setSink c new).sink d = s.sink d := by
  cases c <;> cases d <;> first | rfl | exact absurd rfl h

@[simp]
theorem log_setSink (s : Streams) (c : Channel) (new : Sink) : (s.setSink c new).log = s.log := by
  cases c <;> rfl

@[simp]
theorem input_setSink (s : Streams) (c : Channel) (new : Sink) :
    (s.setSink c new).input = s.input := by
  cases c <;> rfl

/-! ## Writes -/

/-- What is logged when a channel has taken bytes. -/
def wrote (c : Channel) (bytes : List UInt8) : List Event :=
  if bytes.isEmpty then [] else [.written c bytes]

theorem eq_of_mem_wrote {e : Event} (h : e ∈ wrote c bytes) : e = .written c bytes := by
  unfold wrote at h
  split at h
  · cases h
  · exact List.mem_singleton.1 h

/-- Nothing is recorded where no byte was taken. -/
theorem events_accept (s : Streams) (c : Channel) (bytes : List UInt8) :
    (s.accept c bytes).events = s.events ++ wrote c bytes := by
  unfold accept wrote events
  split <;> simp

/-- A sink counts the bytes that it takes, and that it was served once more. -/
theorem sink_accept (s : Streams) (c : Channel) (bytes : List UInt8) :
    (s.accept c bytes).sink c = (s.sink c).take bytes.length := by
  unfold accept
  split
  · exact sink_setSink _ _ _
  · cases c <;> rfl

theorem sink_accept_ne (bytes : List UInt8) (h : d ≠ c) :
    (s.accept c bytes).sink d = s.sink d := by
  unfold accept
  split
  · exact sink_setSink_ne _ h
  · cases c <;> cases d <;> first | rfl | exact absurd rfl h

theorem input_accept (s : Streams) (c : Channel) (bytes : List UInt8) :
    (s.accept c bytes).input = s.input := by
  unfold accept
  split <;> simp

/-- The bytes that a channel takes of those that are to be written. -/
def taken (s : Streams) (c : Channel) (bytes : List UInt8) : List UInt8 :=
  bytes.take ((s.sink c).taking bytes.length)

/-- Whether a write succeeds or fails, it leaves what was taken of the bytes. -/
theorem endState_write (c : Channel) (bytes : List UInt8) (s : Streams) :
    endState (write c bytes s) = s.accept c (s.taken c bytes) := by
  simp only [write, taken]
  split <;> rfl

/-! ## Flushes -/

/-- The streams after a flush, whether it fails or not. -/
def afterFlush (s : Streams) (c : Channel) : Streams :=
  let s' := s.setSink c ((s.sink c).take 0)
  { s' with log := .flushed c ((s.sink c).flushFailure (s.sink c).served) :: s'.log }

/-- A flush asks the sink whether it fails this time, and is recorded either way. -/
theorem flush_eq (c : Channel) (s : Streams) :
    flush c s = match (s.sink c).flushFailure (s.sink c).served with
      | none => .ok () (s.afterFlush c)
      | some text => .error text (s.afterFlush c) := rfl

theorem flush_eq_ok_iff :
    flush c s = .ok () s' ↔
      (s.sink c).flushFailure (s.sink c).served = none ∧ s' = s.afterFlush c := by
  rw [flush_eq]
  cases (s.sink c).flushFailure (s.sink c).served <;> simp [eq_comm]

theorem flush_eq_error_iff {why : String} :
    flush c s = .error why s' ↔
      (s.sink c).flushFailure (s.sink c).served = some why ∧ s' = s.afterFlush c := by
  rw [flush_eq]
  cases (s.sink c).flushFailure (s.sink c).served <;> simp [eq_comm]

theorem endState_flush (c : Channel) (s : Streams) : endState (flush c s) = s.afterFlush c := by
  rw [flush_eq]
  split <;> rfl

theorem events_afterFlush (s : Streams) (c : Channel) :
    (s.afterFlush c).events =
      s.events ++ [.flushed c ((s.sink c).flushFailure (s.sink c).served)] := by
  simp [afterFlush, events]

theorem sink_afterFlush (s : Streams) (c : Channel) :
    (s.afterFlush c).sink c = (s.sink c).take 0 := by
  cases c <;> rfl

theorem sink_afterFlush_ne (h : d ≠ c) : (s.afterFlush c).sink d = s.sink d := by
  cases c <;> cases d <;> first | rfl | exact absurd rfl h

theorem input_afterFlush (s : Streams) (c : Channel) : (s.afterFlush c).input = s.input := by
  simp [afterFlush]

/-! ## Bytes written -/

/-- What was written on a channel is what the events say. -/
theorem written_of_events {ops : List Event} (h : s'.events = s.events ++ ops) (d : Channel) :
    s'.written d = s.written d ++ ops.flatMap (Event.bytesTo d) := by
  rw [written, h, List.flatMap_append, written]

theorem written_accept (s : Streams) (c : Channel) (bytes : List UInt8) :
    (s.accept c bytes).written c = s.written c ++ bytes := by
  rw [written_of_events (events_accept s c bytes)]
  cases bytes <;> simp [wrote, Event.bytesTo]

/-- Bytes for one channel do not appear on the other. -/
theorem written_accept_ne (bytes : List UInt8) (h : d ≠ c) :
    (s.accept c bytes).written d = s.written d := by
  rw [written_of_events (events_accept s c bytes)]
  cases bytes <;> simp [wrote, Event.bytesTo, Ne.symm h]

/-- A flush leaves alone what has been written. -/
theorem written_afterFlush (s : Streams) (c d : Channel) :
    (s.afterFlush c).written d = s.written d := by
  rw [written_of_events (events_afterFlush s c)]
  simp [Event.bytesTo]

/-! ## Input -/

/-- Whatever is made of a line, or of an error, only the input has changed. -/
theorem endState_readValue (type : ValueType) (s : Streams) :
    endState (readValue type s) = { s with input := endState (Source.readLine s.input) } := by
  unfold readValue
  cases Source.readLine s.input with
  | ok line input => rfl
  | error e input =>
      dsimp only
      split <;> rfl

/-- What is left behind an end or an error has been left before. -/
theorem unread_advance (s : Source) : s.advance.unread <:+ s.unread := by
  obtain ⟨ready, failure, later⟩ := s
  cases later with
  | nil => exact List.nil_suffix
  | cons next later => exact List.suffix_append _ _

/-- Reading a line consumes the input from its front. -/
theorem unread_readLine (s : Source) : (endState (Source.readLine s)).unread <:+ s.unread := by
  have hdrop : s.ready.dropWhile (· != 10) <:+ s.ready := List.dropWhile_suffix _
  unfold Source.readLine
  cases hrest : s.ready.dropWhile (· != 10) with
  | nil => cases hfailure : s.failure <;> exact unread_advance s
  | cons lineFeed rest =>
      rw [hrest] at hdrop
      obtain ⟨front, hfront⟩ := (List.suffix_cons lineFeed rest).trans hdrop
      exact ⟨front, by simp [Source.unread, ← hfront]⟩

/-! ## What is left alone -/

/-- Reading writes nothing. -/
theorem written_readValue (type : ValueType) (s : Streams) (c : Channel) :
    (endState (readValue type s)).written c = s.written c := by
  rw [endState_readValue]
  rfl

theorem input_writeText (c : Channel) (text : String) (s : Streams) :
    (endState (writeText c text s)).input = s.input := by
  rw [writeText, endState_write, input_accept]

theorem written_writeText_ne (h : d ≠ c) (text : String) (s : Streams) :
    (endState (writeText c text s)).written d = s.written d := by
  rw [writeText, endState_write, written_accept_ne _ h]

/-- What flushes and writes to the diagnostics pass on is passed on by a diagnosis. -/
theorem diagnose_invariant {I : Streams → Prop} (hflush : ∀ c s, I s → I (endState (flush c s)))
    (hwrite : ∀ bytes s, I s → I (endState (write .diagnostics bytes s))) (text : String)
    (h : I s) : I (endState (diagnose text s)) := by
  refine endState_bind (hflush .output) (fun _ s' hs' => ?_) h
  exact endState_bind (hwrite _) (fun _ => hflush .diagnostics) hs'

theorem input_diagnose (text : String) (s : Streams) :
    (endState (diagnose text s)).input = s.input := by
  apply diagnose_invariant (I := fun s' => s'.input = s.input)
  · intro c s' hs'
    rw [endState_flush, input_afterFlush, hs']
  · intro bytes s' hs'
    rw [endState_write, input_accept, hs']
  · rfl

/-- A diagnostic message flushes the output and adds nothing to it. -/
theorem output_diagnose (text : String) (s : Streams) :
    (endState (diagnose text s)).written .output = s.written .output := by
  apply diagnose_invariant (I := fun s' => s'.written .output = s.written .output)
  · intro c s' hs'
    rw [endState_flush, written_afterFlush, hs']
  · intro bytes s' hs'
    rw [endState_write, written_accept_ne _ (by decide), hs']
  · rfl

/-! ## Growth -/

/-- What one streams have become out of others: events were added behind those before, the sinks
have served more and hold more, and bytes were taken from the beginning of the input. -/
structure Grows (s s' : Streams) : Prop where
  events : s.events <+: s'.events
  unread : s'.input.unread <:+ s.input.unread
  served : ∀ c, (s.sink c).served ≤ (s'.sink c).served
  held : ∀ c, (s.sink c).held ≤ (s'.sink c).held

namespace Grows

theorem refl (s : Streams) : s.Grows s :=
  ⟨List.prefix_refl _, List.suffix_refl _, fun _ => Nat.le_refl _, fun _ => Nat.le_refl _⟩

/-- Growth composes, so that one lemma for each operation covers all runs. -/
theorem trans (h : s.Grows s') (h' : s'.Grows s'') : s.Grows s'' where
  events := h.events.trans h'.events
  unread := h'.unread.trans h.unread
  served c := Nat.le_trans (h.served c) (h'.served c)
  held c := Nat.le_trans (h.held c) (h'.held c)

/-- One sink has taken bytes, and the other one has stayed. -/
theorem of_take (n : Nat) (hevents : s.events <+: s'.events) (hinput : s'.input = s.input)
    (hsink : s'.sink c = (s.sink c).take n) (hother : ∀ d, d ≠ c → s'.sink d = s.sink d) :
    s.Grows s' where
  events := hevents
  unread := hinput ▸ List.suffix_refl _
  served d := by
    by_cases h : d = c
    · rw [h, hsink]
      exact Nat.le_succ _
    · exact Nat.le_of_eq (congrArg Sink.served (hother d h).symm)
  held d := by
    by_cases h : d = c
    · rw [h, hsink]
      exact Nat.le_add_right _ _
    · exact Nat.le_of_eq (congrArg Sink.held (hother d h).symm)

theorem accept (s : Streams) (c : Channel) (bytes : List UInt8) : s.Grows (s.accept c bytes) :=
  of_take bytes.length (events_accept s c bytes ▸ List.prefix_append _ _) (input_accept s c bytes)
    (sink_accept s c bytes) fun _ => sink_accept_ne bytes

theorem afterFlush (s : Streams) (c : Channel) : s.Grows (s.afterFlush c) :=
  of_take 0 (events_afterFlush s c ▸ List.prefix_append _ _) (input_afterFlush s c)
    (sink_afterFlush s c) fun _ => sink_afterFlush_ne

theorem write (c : Channel) (bytes : List UInt8) (s : Streams) :
    s.Grows (endState (Streams.write c bytes s)) := by
  rw [endState_write]
  exact accept s c _

theorem flush (c : Channel) (s : Streams) : s.Grows (endState (Streams.flush c s)) := by
  rw [endState_flush]
  exact afterFlush s c

theorem readValue (type : ValueType) (s : Streams) :
    s.Grows (endState (Streams.readValue type s)) := by
  rw [endState_readValue]
  exact ⟨List.prefix_refl _, unread_readLine s.input, fun c => by cases c <;> exact Nat.le_refl _,
    fun c => by cases c <;> exact Nat.le_refl _⟩

/-- Work in two parts adds what its parts add. -/
theorem of_bind {α β : Type} {x : EStateM String Streams α} {f : α → EStateM String Streams β}
    (hx : ∀ s : Streams, s.Grows (endState (x s)))
    (hf : ∀ (a : α) (s : Streams), s.Grows (endState (f a s))) (s : Streams) :
    s.Grows (endState ((x >>= f) s)) :=
  endState_bind (I := s.Grows) (fun s' h => h.trans (hx s')) (fun a s' h => h.trans (hf a s'))
    (refl s)

theorem diagnose (text : String) (s : Streams) :
    s.Grows (endState (Streams.diagnose text s)) :=
  of_bind (flush .output) (fun _ => of_bind (write .diagnostics _) fun _ => flush .diagnostics) s

/-- A channel keeps the bytes it has taken. -/
theorem written (h : s.Grows s') (c : Channel) : s.written c <+: s'.written c := by
  obtain ⟨more, hmore⟩ := h.events
  rw [Streams.written, Streams.written, ← hmore, List.flatMap_append]
  exact List.prefix_append _ _

end Grows

end Streams

end IppCode
