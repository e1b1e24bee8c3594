import Mathlib.Data.List.TakeWhile
import IppCode.Memory
import IppCode.Proofs.LiteralText

/-!
# Dumps of the memory

A dump shows the memory in five lines.  Frames list names with what they hold, stacks list their
items, and items are divided by a comma and a blank; nothing is quoted, and a text may hold
commas, colons, braces and brackets of its own.  All that a dump can be read by are the line feeds
and the blanks, which neither names nor written values hold:

* Up to the next blank stands a whole word, and what is behind it tells where the item in it ends
  (`eq_of_behind_eq`).
* Behind a comma and a blank an opening brace begins another frame and anything else is a name,
  so names must not begin with one.

`Readable` says that items can be told apart in front of what may follow them; from this
`Readable.joined_inj` concludes that whole lists of them can.  It is applied to values, positions,
variables and frames, where the frames are read by their variables.
-/

namespace IppCode

namespace Dump

/-! ## Words -/

/-- Text without a blank or a line feed. -/
def Unbroken (cs : List Char) : Prop :=
  ∀ c ∈ cs, c ≠ ' ' ∧ c ≠ '\n'

theorem Unbroken.append {cs ds : List Char} (hcs : Unbroken cs) (hds : Unbroken ds) :
    Unbroken (cs ++ ds) := by
  intro c hc
  rcases List.mem_append.1 hc with hc | hc
  · exact hcs c hc
  · exact hds c hc

theorem Unbroken.notMem_blank {cs : List Char} (h : Unbroken cs) : ' ' ∉ cs :=
  fun hc => (h ' ' hc).1 rfl

theorem Unbroken.notMem_lineFeed {cs : List Char} (h : Unbroken cs) : '\n' ∉ cs :=
  fun hc => (h '\n' hc).2 rfl

theorem unbroken_of_isDigit {cs : List Char} (h : ∀ c ∈ cs, c.isDigit = true) : Unbroken cs := by
  intro c hc
  have hdigit := h c hc
  constructor
  · rintro rfl
    exact absurd hdigit (by decide)
  · rintro rfl
    exact absurd hdigit (by decide)

/-- The blank and the line feed are both escaped, so an escaped text holds neither. -/
theorem unbroken_encode (cs : List Char) : Unbroken (Text.Escape.encode cs) := by
  intro c hc
  have hplain := Text.Escape.isPlain_of_mem_encode hc
  constructor
  · rintro rfl
    exact absurd (hplain (by decide)).1 (by decide)
  · rintro rfl
    exact absurd (hplain (by decide)).1 (by decide)

instance (cs : List Char) : Decidable (Unbroken cs) :=
  List.decidableBAll _ cs

/-- What is left from the first blank on. -/
def behind (cs : List Char) : List Char :=
  cs.dropWhile (· != ' ')

/-- A word without a blank is passed over. -/
theorem behind_append {word : List Char} (h : ' ' ∉ word) (cs : List Char) :
    behind (word ++ cs) = behind cs := by
  apply List.dropWhile_append_of_pos
  intro c hc
  rw [bne_iff_ne]
  rintro rfl
  exact h hc

/-- Words without blanks end alike if what follows is determined from the next blank on. -/
theorem eq_of_behind_eq {u v x y : List Char} (hu : ' ' ∉ u) (hv : ' ' ∉ v)
    (h : u ++ x = v ++ y) (hbehind : behind x = behind y → x = y) : u = v ∧ x = y := by
  have hxy : x = y := by
    apply hbehind
    rw [← behind_append hu x, h, behind_append hv]
  subst hxy
  exact ⟨List.append_cancel_right h, rfl⟩

/-- Text in front of a mark that it does not hold is known. -/
theorem eq_of_append_mark_eq {mark : Char} {u v x y : List Char} (hu : mark ∉ u) (hv : mark ∉ v)
    (h : u ++ mark :: x = v ++ mark :: y) : u = v ∧ x = y := by
  induction u generalizing v with
  | nil =>
      cases v with
      | nil => exact ⟨rfl, (List.cons.inj h).2⟩
      | cons d v => exact absurd ((List.cons.inj h).1 ▸ List.mem_cons_self) hv
  | cons c u ih =>
      cases v with
      | nil => exact absurd ((List.cons.inj h).1 ▸ List.mem_cons_self) hu
      | cons d v =>
          obtain ⟨rfl, hrest⟩ := List.cons.inj h
          obtain ⟨rfl, hxy⟩ := ih (fun hmem => hu (List.mem_cons_of_mem c hmem))
            (fun hmem => hv (List.mem_cons_of_mem c hmem)) hrest
          exact ⟨rfl, hxy⟩

/-! ## Lists of items -/

section Items

variable {α : Type}

/-- Further items and what closes the list. -/
def further (item : α → List Char) (close : List Char) : List α → List Char
  | [] => close
  | a :: rest => ',' :: ' ' :: (item a ++ further item close rest)

/-- Items divided by commas and what closes the list. -/
def joined (item : α → List Char) (close : List Char) : List α → List Char
  | [] => close
  | a :: rest => item a ++ further item close rest

theorem notMem_further {item : α → List Char} {close : List Char} {items : List α} {c : Char}
    (hitems : ∀ a ∈ items, c ∉ item a) (hclose : c ∉ close) (hcomma : c ≠ ',') (hblank : c ≠ ' ') :
    c ∉ further item close items := by
  induction items with
  | nil => exact hclose
  | cons a rest ih =>
      obtain ⟨ha, hrest⟩ := List.forall_mem_cons.1 hitems
      simp [further, hcomma, hblank, ha, ih hrest]

theorem notMem_joined {item : α → List Char} {close : List Char} {items : List α} {c : Char}
    (hitems : ∀ a ∈ items, c ∉ item a) (hclose : c ∉ close) (hcomma : c ≠ ',') (hblank : c ≠ ' ') :
    c ∉ joined item close items := by
  cases items with
  | nil => exact hclose
  | cons a rest =>
      obtain ⟨ha, hrest⟩ := List.forall_mem_cons.1 hitems
      simp [joined, ha, notMem_further hrest hclose hcomma hblank]

/-- The library joins texts as `joined` does, which can also say what closes the list. -/
theorem toList_intercalate_append (item : α → String) (close : List Char) (items : List α) :
    (", ".intercalate (items.map item)).toList ++ close =
      joined (fun a => (item a).toList) close items := by
  cases items with
  | nil => rfl
  | cons a rest =>
      rw [joined]
      induction rest generalizing a with
      | nil => simp [further]
      | cons b rest ih =>
          rw [List.map_cons, List.map_cons, String.intercalate_cons_cons, String.toList_append,
            String.toList_append, List.append_assoc, List.append_assoc, ← List.map_cons, ih b]
          rfl

/-- What may follow an item of a list. -/
def Follows (item : α → List Char) (Good : α → Prop) (Closes : List Char → Prop)
    (cs : List Char) : Prop :=
  ∃ close rest, Closes close ∧ (∀ a ∈ rest, Good a) ∧ cs = further item close rest

/-- Items can be told apart in front of what may follow them, and from what closes a list. -/
structure Readable (item : α → List Char) (Good : α → Prop) (Closes : List Char → Prop) :
    Prop where
  item_inj : ∀ a b x y, Good a → Good b → Follows item Good Closes x → Follows item Good Closes y →
    item a ++ x = item b ++ y → a = b ∧ x = y
  close_ne_item : ∀ close a x, Closes close → Good a → Follows item Good Closes x →
    close ≠ item a ++ x
  close_ne_comma : ∀ close x, Closes close → close ≠ ',' :: ' ' :: x

variable {item : α → List Char} {Good : α → Prop} {Closes : List Char → Prop}

theorem Readable.further_inj (h : Readable item Good Closes) {close close' : List Char}
    (hclose : Closes close) (hclose' : Closes close') {items items' : List α}
    (hgood : ∀ a ∈ items, Good a) (hgood' : ∀ a ∈ items', Good a)
    (heq : further item close items = further item close' items') :
    items = items' ∧ close = close' := by
  induction items generalizing items' with
  | nil =>
      cases items' with
      | nil => exact ⟨rfl, heq⟩
      | cons b rest' => exact absurd heq (h.close_ne_comma _ _ hclose)
  | cons a rest ih =>
      cases items' with
      | nil => exact absurd heq.symm (h.close_ne_comma _ _ hclose')
      | cons b rest' =>
          obtain ⟨ha, hrest⟩ := List.forall_mem_cons.1 hgood
          obtain ⟨hb, hrest'⟩ := List.forall_mem_cons.1 hgood'
          have htexts : item a ++ further item close rest = item b ++ further item close' rest' :=
            (List.cons.inj (List.cons.inj heq).2).2
          obtain ⟨hab, hfurther⟩ := h.item_inj a b _ _ ha hb ⟨close, rest, hclose, hrest, rfl⟩
            ⟨close', rest', hclose', hrest', rfl⟩ htexts
          obtain ⟨htail, hcloses⟩ := ih hrest hrest' hfurther
          exact ⟨by rw [hab, htail], hcloses⟩

/-- Lists of readable items can be told apart, and so can what closes them. -/
theorem Readable.joined_inj (h : Readable item Good Closes) {close close' : List Char}
    (hclose : Closes close) (hclose' : Closes close') {items items' : List α}
    (hgood : ∀ a ∈ items, Good a) (hgood' : ∀ a ∈ items', Good a)
    (heq : joined item close items = joined item close' items') :
    items = items' ∧ close = close' := by
  cases items with
  | nil =>
      cases items' with
      | nil => exact ⟨rfl, heq⟩
      | cons b rest' =>
          obtain ⟨hb, hrest'⟩ := List.forall_mem_cons.1 hgood'
          exact absurd heq
            (h.close_ne_item _ b _ hclose hb ⟨close', rest', hclose', hrest', rfl⟩)
  | cons a rest =>
      obtain ⟨ha, hrest⟩ := List.forall_mem_cons.1 hgood
      have hfollows : Follows item Good Closes (further item close rest) :=
        ⟨close, rest, hclose, hrest, rfl⟩
      cases items' with
      | nil => exact absurd heq.symm (h.close_ne_item _ a _ hclose' ha hfollows)
      | cons b rest' =>
          obtain ⟨hb, hrest'⟩ := List.forall_mem_cons.1 hgood'
          obtain ⟨hab, hfurther⟩ := h.item_inj a b _ _ ha hb hfollows
            ⟨close', rest', hclose', hrest', rfl⟩ heq
          obtain ⟨htail, hcloses⟩ := h.further_inj hclose hclose' hrest hrest' hfurther
          exact ⟨by rw [hab, htail], hcloses⟩

/-- Behind an item comes the end of the list or a further item. -/
theorem follows_cases {cs : List Char} (h : Follows item Good Closes cs) :
    Closes cs ∨ ∃ a rest, Good a ∧ cs = ',' :: ' ' :: (item a ++ rest) := by
  obtain ⟨close, items, hclose, hgood, rfl⟩ := h
  cases items with
  | nil => exact .inl hclose
  | cons a rest => exact .inr ⟨a, _, hgood a List.mem_cons_self, rfl⟩

end Items

/-! ## Stacks of words -/

theorem behind_comma (cs : List Char) : behind (',' :: ' ' :: cs) = ' ' :: cs := rfl

/-- What follows an item of a stack is known from the next blank on. -/
theorem eq_append_behind_of_follows {α : Type} {item : α → List Char} {Good : α → Prop}
    {cs : List Char} (h : Follows item Good (· = [']']) cs) :
    cs = (if behind cs = [] then [']'] else [',']) ++ behind cs := by
  rcases follows_cases h with rfl | ⟨a, rest, -, rfl⟩
  · rfl
  · rfl

/-- Words without blanks are readable between brackets. -/
theorem readable_words {α : Type} {word : α → List Char} (hblank : ∀ a, ' ' ∉ word a)
    (hne : ∀ a, word a ≠ []) (hinj : Function.Injective word) :
    Readable word (fun _ => True) (· = [']']) where
  item_inj := by
    intro a b x y _ _ hx hy h
    obtain ⟨hword, hrest⟩ := eq_of_behind_eq (hblank a) (hblank b) h fun hbehind => by
      rw [eq_append_behind_of_follows hx, eq_append_behind_of_follows hy, hbehind]
    exact ⟨hinj hword, hrest⟩
  close_ne_item := by
    rintro close a x rfl _ hx h
    obtain ⟨c, cs, hword⟩ := List.exists_cons_of_ne_nil (hne a)
    rw [hword, List.cons_append, List.cons.injEq, eq_comm (a := []), List.append_eq_nil_iff] at h
    rcases follows_cases hx with rfl | ⟨b, rest, -, rfl⟩
    · simp at h
    · simp at h
  close_ne_comma := by
    rintro close x rfl h
    simp at h

theorem toList_render_stack {α : Type} (item : α → String) (s : Stack α) :
    (s.render item).toList = '[' :: joined (fun a => (item a).toList) [']'] s.toList := by
  rw [← toList_intercalate_append item [']'] s.toList]
  simp [Stack.render]

theorem eq_of_toList_eq {α : Type} {s t : Stack α} (h : s.toList = t.toList) : s = t := by
  obtain ⟨items⟩ := s
  obtain ⟨items'⟩ := t
  rw [Stack.mk.injEq]
  exact List.reverse_injective h

/-- Stacks of readable items can be told apart. -/
theorem render_stack_inj {α : Type} {item : α → String} {Good : α → Prop}
    (h : Readable (fun a => (item a).toList) Good (· = [']'])) {s t : Stack α}
    (hs : ∀ a ∈ s.toList, Good a) (ht : ∀ a ∈ t.toList, Good a)
    (heq : s.render item = t.render item) : s = t := by
  have hchars := congrArg String.toList heq
  rw [toList_render_stack, toList_render_stack, List.cons.injEq] at hchars
  exact eq_of_toList_eq (h.joined_inj rfl rfl hs ht hchars.2).1

/-! ## Written values and positions -/

theorem unbroken_repr (n : Nat) : Unbroken (Nat.repr n).toList := by
  rw [Nat.toList_repr]
  exact unbroken_of_isDigit (Text.Numeral.isDigit_of_mem_toDigits n)

theorem unbroken_write (n : Int) : Unbroken (Text.Numeral.write n).toList := by
  cases n with
  | ofNat n => exact unbroken_repr n
  | negSucc n =>
      rw [Text.Numeral.write, String.toList_append]
      exact Unbroken.append (by decide) (unbroken_repr (n + 1))

theorem unbroken_literalText (v : Value) : Unbroken v.literalText.toList := by
  cases v with
  | int n => exact unbroken_write n.toInt
  | str s =>
      rw [Value.literalText, String.toList_ofList]
      exact unbroken_encode s.toList
  | bool b => cases b <;> decide
  | nil => decide

theorem toList_render_value (v : Value) :
    v.render.toList = (v.type.name ++ "@").toList ++ v.literalText.toList := by
  rw [← String.toList_append]
  rfl

/-- A value is shown as one word, since its literal escapes the blanks. -/
theorem unbroken_render (v : Value) : Unbroken v.render.toList := by
  rw [toList_render_value]
  refine Unbroken.append ?_ (unbroken_literalText v)
  cases v.type <;> decide

/-- Values are words, and two values have two words. -/
theorem readable_values :
    Readable (fun v : Value => v.render.toList) (fun _ => True) (· = [']']) := by
  apply readable_words
  · intro v
    exact (unbroken_render v).notMem_blank
  · intro v
    rw [toList_render_value]
    cases v.type <;> simp [ValueType.name]
  · intro v w h
    exact Value.render_injective (String.toList_injective h)

theorem readable_positions :
    Readable (fun n : Nat => (Nat.repr n).toList) (fun _ => True) (· = [']']) := by
  apply readable_words
  · intro n
    exact (unbroken_repr n).notMem_blank
  · intro n
    rw [Nat.toList_repr]
    exact Nat.toDigits_ne_nil
  · intro n m h
    dsimp only at h
    rw [Nat.toList_repr, Nat.toList_repr] at h
    apply Option.some.inj
    rw [← Text.Numeral.magnitude?_toDigits n, h, Text.Numeral.magnitude?_toDigits]

/-! ## Frames -/

/-- A name that a dump shows clearly: it holds no blank and no line feed, and does not begin with
an opening brace. -/
def PlainName (name : String) : Prop :=
  Unbroken name.toList ∧ name.toList.head? ≠ some '\x7b'

instance (name : String) : Decidable (PlainName name) :=
  inferInstanceAs (Decidable (_ ∧ _))

/-- A variable of a frame as it is shown. -/
def entryText (entry : String × Option Value) : List Char :=
  entry.1.toList ++ ':' :: ' ' :: (Frame.renderContent entry.2).toList

/-- What may follow a frame: the end of what is read, or another frame. -/
def AfterFrame (last cs : List Char) : Prop :=
  cs = last ∨ ∃ rest, cs = ',' :: ' ' :: '\x7b' :: rest

theorem unbroken_renderContent (content : Option Value) :
    Unbroken (Frame.renderContent content).toList := by
  cases content with
  | none => decide
  | some v => exact unbroken_render v

/-- A variable without a value is not shown like one with a value. -/
theorem renderContent_injective : Function.Injective Frame.renderContent := by
  have hne : ∀ v : Value, Frame.renderContent none ≠ v.render := by
    intro v h
    have hchars := congrArg String.toList h
    rw [toList_render_value] at hchars
    have hhead := congrArg List.head? hchars
    cases v <;> simp [Frame.renderContent, Value.type, ValueType.name] at hhead
  intro content content' h
  cases content with
  | none =>
      cases content' with
      | none => rfl
      | some w => exact absurd h (hne w)
  | some v =>
      cases content' with
      | none => exact absurd h.symm (hne v)
      | some w => rw [Value.render_injective h]

section Entries

variable {last : List Char}

/-- The variables of frames behind which the line or the list of frames ends. -/
abbrev FollowsEntry (last : List Char) : List Char → Prop :=
  Follows entryText (fun entry => PlainName entry.1)
    (fun cs => ∃ after, AfterFrame last after ∧ cs = '\x7d' :: after)

/-- Behind the content of a variable, the line or the list of frames ends, a further frame begins,
or a further variable, whose name does not begin like a frame. -/
theorem followsEntry_cases {cs : List Char} (h : FollowsEntry last cs) :
    cs = '\x7d' :: last ∨ (∃ rest, cs = '\x7d' :: ',' :: ' ' :: '\x7b' :: rest) ∨
      ∃ rest, cs = ',' :: ' ' :: rest ∧ rest.head? ≠ some '\x7b' := by
  rcases follows_cases h with ⟨after, rfl | ⟨rest, rfl⟩, rfl⟩ | ⟨entry, rest, hname, rfl⟩
  · exact .inl rfl
  · exact .inr (.inl ⟨rest, rfl⟩)
  · refine .inr (.inr ⟨_, rfl, ?_⟩)
    obtain ⟨name, content⟩ := entry
    cases hchars : name.toList with
    | nil => simp [entryText, hchars]
    | cons c cs => simpa [entryText, hchars] using hname.2

/-- The end of the word in front of a blank, as it is known by what follows that blank. -/
def wordEnd (last cs : List Char) : List Char :=
  if cs = [] then '\x7d' :: last
  else if cs.tail.head? = some '\x7b' then ['\x7d', ','] else [',']

/-- The end of the word behind a content is known by what follows the next blank. -/
theorem eq_append_behind_of_followsEntry (hlast : ' ' ∉ last) {cs : List Char}
    (h : FollowsEntry last cs) : cs = wordEnd last (behind cs) ++ behind cs := by
  rcases followsEntry_cases h with rfl | ⟨rest, rfl⟩ | ⟨rest, rfl, hrest⟩
  · have hword : ' ' ∉ '\x7d' :: last := by simp [hlast]
    have hend : behind ('\x7d' :: last) = [] := by
      rw [← List.append_nil ('\x7d' :: last), behind_append hword]
      rfl
    rw [hend, List.append_nil, wordEnd, if_pos rfl]
  · rfl
  · rw [behind_comma, wordEnd, if_neg (List.cons_ne_nil _ _), List.tail_cons, if_neg hrest]
    rfl

theorem entryText_append (name : String) (content : Option Value) (cs : List Char) :
    entryText (name, content) ++ cs =
      (name.toList ++ [':']) ++ ' ' :: ((Frame.renderContent content).toList ++ cs) := by
  simp [entryText]

theorem notMem_blank_name {name : String} (h : PlainName name) : ' ' ∉ name.toList ++ [':'] :=
  (h.1.append (by decide)).notMem_blank

/-- The variables of a frame can be read off: the name ends at the first blank, and the content
where the rest of its word begins. -/
theorem readable_entries (hlast : ' ' ∉ last) :
    Readable entryText (fun entry => PlainName entry.1)
      (fun cs => ∃ after, AfterFrame last after ∧ cs = '\x7d' :: after) where
  item_inj := by
    rintro ⟨name, content⟩ ⟨name', content'⟩ x y hname hname' hx hy h
    rw [entryText_append, entryText_append] at h
    obtain ⟨hnames, h⟩ :=
      eq_of_append_mark_eq (notMem_blank_name hname) (notMem_blank_name hname') h
    -- a content may hold commas and braces, so its end is found from the next blank backwards
    obtain ⟨hcontents, hrest⟩ := eq_of_behind_eq (unbroken_renderContent content).notMem_blank
      (unbroken_renderContent content').notMem_blank h fun hbehind => by
        rw [eq_append_behind_of_followsEntry hlast hx, eq_append_behind_of_followsEntry hlast hy,
          hbehind]
    have hname : name = name' := String.toList_injective (List.append_cancel_right hnames)
    have hcontent : content = content' :=
      renderContent_injective (String.toList_injective hcontents)
    exact ⟨by rw [hname, hcontent], hrest⟩
  close_ne_item := by
    rintro close ⟨name, content⟩ x ⟨after, hafter, rfl⟩ hname _ h
    rw [entryText_append] at h
    rcases hafter with rfl | ⟨rest, rfl⟩
    · -- there is a blank behind the name, and none behind the frame
      have hmem : ' ' ∈ '\x7d' :: after := by
        rw [h]
        simp
      simp [hlast] at hmem
    · -- the word would end with a comma and with a colon
      have hfront : ' ' ∉ ['\x7d', ','] := by decide
      have hwords : ['\x7d', ','] = name.toList ++ [':'] :=
        (eq_of_append_mark_eq hfront (notMem_blank_name hname) h).1
      have hends := congrArg List.getLast? hwords
      simp at hends
  close_ne_comma := by
    rintro close x ⟨after, -, rfl⟩ h
    simp at h

end Entries

/-- All names of a frame are plain. -/
def PlainFrame (f : Frame) : Prop :=
  ∀ entry ∈ f.slots.entries, PlainName entry.1

instance (f : Frame) : Decidable (PlainFrame f) :=
  List.decidableBAll _ f.slots.entries

theorem toList_render_frame_append (f : Frame) (cs : List Char) :
    f.render.toList ++ cs = '\x7b' :: joined entryText ('\x7d' :: cs) f.slots.entries := by
  have hentries : joined entryText ('\x7d' :: cs) f.slots.entries =
      joined (fun entry : String × Option Value =>
        (entry.1 ++ ": " ++ Frame.renderContent entry.2).toList) ('\x7d' :: cs)
          f.slots.entries := by
    congr 1
    funext entry
    simp [entryText]
  rw [hentries, ← toList_intercalate_append]
  simp [Frame.render]

theorem eq_of_entries_eq {f g : Frame} (h : f.slots.entries = g.slots.entries) : f = g := by
  obtain ⟨⟨entries, hentries⟩⟩ := f
  obtain ⟨⟨entries', hentries'⟩⟩ := g
  cases h
  rfl

/-- A frame is read off what follows it. -/
theorem render_frame_append_inj {last : List Char} (hlast : ' ' ∉ last) {f g : Frame}
    (hf : PlainFrame f) (hg : PlainFrame g) {x y : List Char} (hx : AfterFrame last x)
    (hy : AfterFrame last y) (h : f.render.toList ++ x = g.render.toList ++ y) :
    f = g ∧ x = y := by
  rw [toList_render_frame_append, toList_render_frame_append, List.cons.injEq] at h
  obtain ⟨hentries, hrest⟩ :=
    (readable_entries hlast).joined_inj ⟨x, hx, rfl⟩ ⟨y, hy, rfl⟩ hf hg h.2
  exact ⟨eq_of_entries_eq hentries, (List.cons.inj hrest).2⟩

/-- Frames with plain names can be told apart. -/
theorem render_frame_inj {f g : Frame} (hf : PlainFrame f) (hg : PlainFrame g)
    (h : f.render = g.render) : f = g := by
  have hchars : f.render.toList ++ [] = g.render.toList ++ [] := by rw [h]
  exact (render_frame_append_inj (List.not_mem_nil) hf hg (.inl rfl) (.inl rfl) hchars).1

theorem afterFrame_of_follows {cs : List Char}
    (h : Follows (fun f : Frame => f.render.toList) PlainFrame (· = [']']) cs) :
    AfterFrame [']'] cs := by
  rcases follows_cases h with rfl | ⟨f, rest, -, rfl⟩
  · exact .inl rfl
  · rw [toList_render_frame_append]
    exact .inr ⟨_, rfl⟩

/-- Frames are readable although they hold blanks and commas themselves: a frame ends with its
variables. -/
theorem readable_frames :
    Readable (fun f : Frame => f.render.toList) PlainFrame (· = [']']) where
  item_inj := by
    intro f g x y hf hg hx hy h
    exact render_frame_append_inj (by decide) hf hg (afterFrame_of_follows hx)
      (afterFrame_of_follows hy) h
  close_ne_item := by
    rintro close f x rfl _ _ h
    rw [toList_render_frame_append] at h
    simp at h
  close_ne_comma := by
    rintro close x rfl h
    simp at h

/-! ## The memory -/

/-- A line of a dump and what follows it. -/
def line (title text : String) (rest : List Char) : List Char :=
  title.toList ++ (text.toList ++ '\n' :: rest)

/-- A line ends at the first line feed. -/
theorem line_inj {title text text' : String} {rest rest' : List Char}
    (htext : '\n' ∉ text.toList) (htext' : '\n' ∉ text'.toList)
    (h : line title text rest = line title text' rest') : text = text' ∧ rest = rest' := by
  obtain ⟨htexts, hrest⟩ := eq_of_append_mark_eq htext htext' (List.append_cancel_left h)
  exact ⟨String.toList_injective htexts, hrest⟩

/-- A dump is five lines, each behind its title. -/
theorem toList_dump (m : Memory) :
    m.dump.toList =
      line "global frame: " m.global.render
        (line "temporary frame: " (Memory.renderTemporary m.temporary)
          (line "local frames (bottom to top): " (m.locals.render Frame.render)
            (line "call stack (bottom to top): " (m.calls.render Nat.repr)
              (line "data stack (bottom to top): " (m.data.render Value.render) [])))) := by
  have hfeed : "\n".toList = ['\n'] := rfl
  unfold Memory.dump line
  simp only [String.toList_append, hfeed, List.append_assoc, List.cons_append, List.nil_append]

theorem notMem_lineFeed_render_frame {f : Frame} (h : PlainFrame f) : '\n' ∉ f.render.toList := by
  have hentries : '\n' ∉ joined entryText ['\x7d'] f.slots.entries := by
    refine notMem_joined ?_ (by decide) (by decide) (by decide)
    intro entry hentry
    have hname := (h entry hentry).1.notMem_lineFeed
    have hcontent := (unbroken_renderContent entry.2).notMem_lineFeed
    simp [entryText, hname, hcontent]
  rw [← List.append_nil f.render.toList, toList_render_frame_append]
  simp [hentries]

theorem notMem_lineFeed_render_stack {α : Type} {item : α → String} {s : Stack α}
    (h : ∀ a ∈ s.toList, '\n' ∉ (item a).toList) : '\n' ∉ (s.render item).toList := by
  have hitems : '\n' ∉ joined (fun a => (item a).toList) [']'] s.toList :=
    notMem_joined h (by decide) (by decide) (by decide)
  rw [toList_render_stack]
  simp [hitems]

end Dump

namespace Memory

open Dump

/-- All names of variables are plain. -/
structure PlainNames (m : Memory) : Prop where
  global : PlainFrame m.global
  temporary : ∀ f, m.temporary = some f → PlainFrame f
  locals : ∀ f ∈ m.locals.toList, PlainFrame f

theorem notMem_lineFeed_renderTemporary {frame : Option Frame}
    (h : ∀ f, frame = some f → PlainFrame f) : '\n' ∉ (renderTemporary frame).toList := by
  cases frame with
  | none => decide
  | some f => exact notMem_lineFeed_render_frame (h f rfl)

theorem renderTemporary_inj {frame frame' : Option Frame}
    (h : ∀ f, frame = some f → PlainFrame f) (h' : ∀ f, frame' = some f → PlainFrame f)
    (heq : renderTemporary frame = renderTemporary frame') : frame = frame' := by
  have hne : ∀ f : Frame, "<absent>" ≠ f.render := by
    intro f hf
    have hchars := congrArg String.toList hf
    rw [← List.append_nil f.render.toList, toList_render_frame_append] at hchars
    simp at hchars
  cases frame with
  | none =>
      cases frame' with
      | none => rfl
      | some g => exact absurd heq (hne g)
  | some f =>
      cases frame' with
      | none => exact absurd heq.symm (hne f)
      | some g => rw [render_frame_inj (h f rfl) (h' g rfl) heq]

/-- Dumps can be told apart.

* Two stacks of values are shown alike only if they are equal.
* Two memories are shown alike only if they are equal, provided that the names of their variables
  hold no blank and no line feed and do not begin with an opening brace. -/
theorem dump_unambiguous :
    (∀ vs ws : List Value,
      (Stack.mk vs).render Value.render = (Stack.mk ws).render Value.render → vs = ws) ∧
    ∀ m m' : Memory, m.PlainNames → m'.PlainNames → m.dump = m'.dump → m = m' := by
  have hstacks : ∀ {s t : Stack Value}, s.render Value.render = t.render Value.render → s = t :=
    fun h => render_stack_inj readable_values (fun _ _ => trivial) (fun _ _ => trivial) h
  refine ⟨fun vs ws h => (Stack.mk.inj (hstacks h)), ?_⟩
  intro m m' hm hm' h
  have hlines := congrArg String.toList h
  rw [toList_dump, toList_dump] at hlines
  -- no part holds a line feed, so the lines are split off one by one
  obtain ⟨hglobal, hlines⟩ := line_inj (notMem_lineFeed_render_frame hm.global)
    (notMem_lineFeed_render_frame hm'.global) hlines
  obtain ⟨htemporary, hlines⟩ := line_inj (notMem_lineFeed_renderTemporary hm.temporary)
    (notMem_lineFeed_renderTemporary hm'.temporary) hlines
  obtain ⟨hlocals, hlines⟩ := line_inj
    (notMem_lineFeed_render_stack fun f hf => notMem_lineFeed_render_frame (hm.locals f hf))
    (notMem_lineFeed_render_stack fun f hf => notMem_lineFeed_render_frame (hm'.locals f hf))
    hlines
  obtain ⟨hcalls, hlines⟩ := line_inj
    (notMem_lineFeed_render_stack fun n _ => (unbroken_repr n).notMem_lineFeed)
    (notMem_lineFeed_render_stack fun n _ => (unbroken_repr n).notMem_lineFeed) hlines
  obtain ⟨hdata, -⟩ := line_inj
    (notMem_lineFeed_render_stack fun v _ => (unbroken_render v).notMem_lineFeed)
    (notMem_lineFeed_render_stack fun v _ => (unbroken_render v).notMem_lineFeed) hlines
  obtain ⟨global, locals, temporary, data, calls⟩ := m
  obtain ⟨global', locals', temporary', data', calls'⟩ := m'
  rw [Memory.mk.injEq]
  exact ⟨render_frame_inj hm.global hm'.global hglobal,
    render_stack_inj readable_frames hm.locals hm'.locals hlocals,
    renderTemporary_inj hm.temporary hm'.temporary htemporary, hstacks hdata,
    render_stack_inj readable_positions (fun _ _ => trivial) (fun _ _ => trivial) hcalls⟩

/-- A memory whose names and texts hold the marks of dumps. -/
def marked : Memory where
  global := ⟨((∅ : Table (Option Value)).insert "a\x7d," (some (.str "1, b: ]"))).insert "b" none⟩
  locals := ⟨[∅, ⟨(∅ : Table (Option Value)).insert "" (some (.str "\x7d, \x7b\x7d"))⟩]⟩
  data := ⟨[.str ",", .str "", .str "]"]⟩

/-- The same memory with its global variables declared in another order. -/
def reordered : Memory :=
  { marked with
    global := ⟨((∅ : Table (Option Value)).insert "b" none).insert "a\x7d,"
      (some (.str "1, b: ]"))⟩ }

theorem dump_unambiguous_reordered :
    (Stack.mk [Value.str ", string@"]).render Value.render ≠
      (Stack.mk [.str "", .str ""]).render Value.render ∧
    marked.PlainNames ∧ reordered.PlainNames ∧ marked.dump = reordered.dump ∧
    marked = reordered := by
  have hlocals : ∀ f ∈ marked.locals.toList, PlainFrame f := by decide
  have hmarked : marked.PlainNames := ⟨by decide, fun f hf => (by cases hf), hlocals⟩
  have hreordered : reordered.PlainNames := ⟨by decide, fun f hf => (by cases hf), hlocals⟩
  have hdump : marked.dump = reordered.dump := by decide +kernel
  refine ⟨?_, hmarked, hreordered, hdump, dump_unambiguous.2 _ _ hmarked hreordered hdump⟩
  intro h
  exact absurd (dump_unambiguous.1 _ _ h) (by decide)

/-- A name that begins with a brace can be taken for another frame. -/
example :
    let one : Memory := { locals := ⟨[⟨((∅ : Table (Option Value)).insert "a"
      (some (.str "x\x7d"))).insert "\x7bb" none⟩]⟩ }
    let two : Memory := { locals := ⟨[⟨(∅ : Table (Option Value)).insert "b" none⟩,
      ⟨(∅ : Table (Option Value)).insert "a" (some (.str "x"))⟩]⟩ }
    one.dump = two.dump ∧ one ≠ two := by
  decide +kernel

end Memory

end IppCode
