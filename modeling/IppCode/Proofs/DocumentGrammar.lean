import IppCode.Proofs.DocumentArguments

/-!
# The grammar of program documents

Which trees are programs (`IsProgram`), and which instructions they stand for, said without saying
how they are read.

* Each element within a program is an instruction with an order (`instruction_eq_ok_iff`).
* Instructions are put one by one among those already read, and come out sorted by their orders
  (`instructionsFrom_eq_ok_iff`), for which there is only one way (`eq_inOrder_iff`).
* A tree with its instructions or their arguments in another order is a program of the same
  instructions (`IsProgram.of_rearranged`).
-/

namespace IppCode.Document

open Markup (Element Attribute)

/-! ## Instructions -/

/-- An element is an instruction with an order. -/
structure IsInstruction (e : Element) (order : Nat) (i : Instruction) : Prop where
  name : e.name = "instruction"
  attributes : ∃ number mnemonic,
    e.attributes.Perm [⟨none, "order", number⟩, ⟨none, "opcode", mnemonic⟩] ∧
    IsOrder (Text.trim number) order ∧
    Text.sameLetters (Text.trim mnemonic) i.opcode.mnemonic = true
  arguments : AreArguments e.elements i.operands

theorem instruction_eq_ok_iff {e : Element} {order : Nat} {i : Instruction} :
    instruction e = .ok (order, i) ↔ IsInstruction e order i := by
  have hne : "order" ≠ "opcode" := by decide
  constructor
  · intro h
    unfold instruction at h
    -- each test that is passed gives one fact of the grammar
    split at h
    · cases h
    rename_i hname
    split at h
    · cases h
    rename_i hlength
    split at h
    · cases h
    rename_i order' horder
    obtain ⟨number, hnumber, horder⟩ := Option.bind_eq_some_iff.1 horder
    split at h
    · cases h
    rename_i mnemonic hmnemonic
    split at h
    · cases h
    rename_i opcode hopcode
    split at h
    · cases h
    rename_i read hread
    split at h
    · cases h
    rename_i operands hoperands
    cases h
    exact
      { name := Decidable.of_not_not hname
        attributes := ⟨number, mnemonic, (Element.attributes_perm_pair_iff hne).2
          ⟨Decidable.of_not_not hlength, hnumber, hmnemonic⟩,
          order?_eq_some_iff.1 horder, Opcode.ofMnemonic?_eq_some_iff.1 hopcode⟩
        arguments := (areArguments_iff order).2 ⟨read, hread, hoperands⟩ }
  · rintro ⟨hname, ⟨number, mnemonic, hattributes, horder, hopcode⟩, harguments⟩
    obtain ⟨hlength, hnumber, hmnemonic⟩ := (Element.attributes_perm_pair_iff hne).1 hattributes
    obtain ⟨read, hread, hoperands⟩ := (areArguments_iff order).1 harguments
    simp [instruction, hname, hlength, hnumber, order?_eq_some_iff.2 horder, hmnemonic,
      Opcode.ofMnemonic?_eq_some_iff.2 hopcode, hread, hoperands]

/-! ## Programs -/

/-- Instructions stand in the order of their numbers, of which no two are the same. -/
def Ascending (entries : List (Nat × Instruction)) : Prop :=
  entries.Pairwise fun earlier later => earlier.1 < later.1

/-- Instructions sorted by their numbers. -/
def inOrder (entries : List (Nat × Instruction)) : List (Nat × Instruction) :=
  entries.mergeSort fun first second => first.1 ≤ second.1

section Ascending

variable {entries read result : List (Nat × Instruction)}

theorem Ascending.nodup (h : Ascending entries) : (entries.map Prod.fst).Nodup :=
  List.pairwise_map.2 (h.imp Nat.ne_of_lt)

/-- There is one way to put instructions in ascending order, if there is any. -/
theorem eq_inOrder_iff :
    (entries.map Prod.fst).Nodup ∧ result = inOrder entries ↔
      result.Perm entries ∧ Ascending result := by
  have hsorted : (entries.map Prod.fst).Nodup → Ascending (inOrder entries) := by
    intro hnodup
    have hle : (inOrder entries).Pairwise fun first second => first.1 ≤ second.1 := by
      have hdecided : (inOrder entries).Pairwise fun first second => decide (first.1 ≤ second.1) :=
        List.pairwise_mergeSort (fun _ _ _ => by simpa using Nat.le_trans)
          (fun _ _ => by simpa using Nat.le_total _ _) entries
      exact hdecided.imp of_decide_eq_true
    have hne : (inOrder entries).Pairwise fun first second => first.1 ≠ second.1 :=
      List.pairwise_map.1 (((List.mergeSort_perm ..).map Prod.fst).nodup_iff.2 hnodup)
    exact (hle.and hne).imp fun h => Nat.lt_of_le_of_ne h.1 h.2
  constructor
  · rintro ⟨hnodup, rfl⟩
    exact ⟨List.mergeSort_perm .., hsorted hnodup⟩
  · rintro ⟨hperm, hresult⟩
    have hnodup := (hperm.map Prod.fst).nodup_iff.1 hresult.nodup
    refine ⟨hnodup, ?_⟩
    refine (hperm.trans (List.mergeSort_perm ..).symm).eq_of_pairwise ?_ hresult (hsorted hnodup)
    intro first second _ _ hlt hgt
    omega

/-- An instruction finds its place exactly if its order is not taken. -/
theorem place?_cases (order : Nat) (i : Instruction) (hread : Ascending read) :
    (order ∈ read.map Prod.fst ∧ place? order i read = none) ∨
      order ∉ read.map Prod.fst ∧ ∃ result, place? order i read = some result ∧
        result.Perm ((order, i) :: read) ∧ Ascending result := by
  induction read with
  | nil => exact .inr ⟨by simp, _, rfl, .refl _, List.pairwise_singleton ..⟩
  | cons entry rest ih =>
      obtain ⟨hfirst, hrest⟩ := List.pairwise_cons.1 hread
      rw [place?, List.map_cons, List.mem_cons]
      rcases Nat.lt_trichotomy order entry.1 with hlt | heq | hgt
      · have hbefore : ∀ other ∈ entry :: rest, order < other.1 := by
          rw [List.forall_mem_cons]
          exact ⟨hlt, fun other hother => Nat.lt_trans hlt (hfirst other hother)⟩
        have hnew : order ∉ (entry :: rest).map Prod.fst := by
          rintro hmem
          obtain ⟨other, hother, rfl⟩ := List.mem_map.1 hmem
          exact Nat.lt_irrefl _ (hbefore other hother)
        rw [if_pos hlt]
        exact .inr ⟨List.mem_cons.not.1 hnew, _, rfl, .refl _, hread.cons hbefore⟩
      · rw [if_neg (by omega), if_pos heq]
        exact .inl ⟨.inl heq, rfl⟩
      · rw [if_neg (by omega), if_neg (by omega)]
        rcases ih hrest with ⟨hmem, hnone⟩ | ⟨hnew, inner, hinner, hperm, hascending⟩
        · exact .inl ⟨.inr hmem, by rw [hnone]; rfl⟩
        · refine .inr ⟨not_or.2 ⟨by omega, hnew⟩, entry :: inner, by rw [hinner]; rfl,
            (hperm.cons entry).trans (.swap ..), hascending.cons fun other hother => ?_⟩
          rcases List.mem_cons.1 (hperm.mem_iff.1 hother) with rfl | hother
          · exact hgt
          · exact hfirst other hother

theorem instructionsFrom_cons_eq_ok_iff {e : Element} {es : List Element} :
    instructionsFrom read (e :: es) = .ok result ↔
      ∃ order i next, IsInstruction e order i ∧ place? order i read = some next ∧
        instructionsFrom next es = .ok result := by
  rw [instructionsFrom]
  constructor
  · intro h
    split at h
    · cases h
    · rename_i order i hinstruction
      split at h
      · cases h
      · rename_i next hnext
        exact ⟨order, i, next, instruction_eq_ok_iff.1 hinstruction, hnext, h⟩
  · rintro ⟨order, i, next, hinstruction, hnext, h⟩
    simp only [instruction_eq_ok_iff.2 hinstruction, hnext, h]

/-- Reading instructions succeeds exactly if each element is one, and no order is taken twice. -/
theorem instructionsFrom_eq_ok_iff {es : List Element} (hread : Ascending read) :
    instructionsFrom read es = .ok result ↔
      ∃ entries, List.Forall₂ (fun e entry => IsInstruction e entry.1 entry.2) es entries ∧
        result.Perm (read ++ entries) ∧ Ascending result := by
  induction es generalizing read with
  | nil =>
      simp only [instructionsFrom, Except.ok.injEq, List.forall₂_nil_left_iff, exists_eq_left,
        List.append_nil]
      constructor
      · rintro rfl
        exact ⟨.refl _, hread⟩
      · rintro ⟨hperm, hresult⟩
        refine (hperm.eq_of_pairwise ?_ hresult hread).symm
        intro first second _ _ hlt hgt
        omega
  | cons e es ih =>
      rw [instructionsFrom_cons_eq_ok_iff]
      constructor
      · rintro ⟨order, i, next, hinstruction, hnext, hrest⟩
        rcases place?_cases order i hread with ⟨-, hnone⟩ | ⟨-, _, hsome, hperm, hascending⟩
        · rw [hnone] at hnext
          cases hnext
        · obtain rfl := Option.some.inj (hsome.symm.trans hnext)
          obtain ⟨entries, hentries, hresult, hordered⟩ := (ih hascending).1 hrest
          exact ⟨(order, i) :: entries, .cons hinstruction hentries,
            hresult.trans ((hperm.append_right entries).trans List.perm_middle.symm), hordered⟩
      · rintro ⟨_, hall, hresult, hordered⟩
        obtain ⟨⟨order, i⟩, entries, hinstruction, hentries, rfl⟩ :=
          List.forall₂_cons_left_iff.1 hall
        rcases place?_cases order i hread with ⟨hmem, -⟩ | ⟨-, next, hnext, hperm, hascending⟩
        -- an order that had been taken before would be twice in the result
        · have hnodup := (hresult.map Prod.fst).nodup_iff.1 hordered.nodup
          rw [List.map_append, List.map_cons] at hnodup
          exact absurd List.mem_cons_self (List.disjoint_of_nodup_append hnodup hmem)
        · have hrest : result.Perm (next ++ entries) :=
            hresult.trans (List.perm_middle.trans (hperm.symm.append_right entries))
          exact ⟨order, i, next, hinstruction, hnext,
            (ih hascending).2 ⟨entries, hentries, hrest, hordered⟩⟩

end Ascending

/-- An element is a program, the elements within which are instructions with their orders. -/
structure IsProgram (root : Element) (entries : List (Nat × Instruction)) : Prop where
  name : root.name = "program"
  attributes : ∀ a ∈ root.attributes, a.name ∈ ["language", "name", "description"]
  language : ∃ word, ⟨none, "language", word⟩ ∈ root.attributes ∧
    Text.sameLetters (Text.trim word) "IPPcode23" = true
  instructions : List.Forall₂ (fun e entry => IsInstruction e entry.1 entry.2)
    root.elements entries
  distinct : (entries.map Prod.fst).Nodup

theorem rootDefect?_eq_none_iff {root : Element}
    (hdiffer : root.attributes.Pairwise Attribute.Differ) :
    rootDefect? root = none ↔
      root.name = "program" ∧
        (∀ a ∈ root.attributes, a.name ∈ ["language", "name", "description"]) ∧
        ∃ word, ⟨none, "language", word⟩ ∈ root.attributes ∧
          Text.sameLetters (Text.trim word) "IPPcode23" = true := by
  have hfind :
      root.attributes.find? (fun a => a.name ∉ ["language", "name", "description"]) = none ↔
        ∀ a ∈ root.attributes, a.name ∈ ["language", "name", "description"] := by
    simp only [List.find?_eq_none, decide_eq_true_eq, Decidable.not_not]
  rw [← hfind]
  simp only [← Element.attribute?_eq_some_iff hdiffer]
  unfold rootDefect?
  constructor
  · intro h
    split at h
    · cases h
    rename_i hname
    split at h
    · cases h
    rename_i hattributes
    split at h
    · cases h
    rename_i word hword
    split at h
    · rename_i hlanguage
      exact ⟨Decidable.of_not_not hname, hattributes, word, hword, hlanguage⟩
    · cases h
  · rintro ⟨hname, hattributes, word, hword, hlanguage⟩
    simp only [hname, hattributes, hword, hlanguage]
    simp

/-- A tree is read as instructions exactly if it is a program of these. -/
theorem load_eq_ok_iff {root : Element} (hdiffer : root.attributes.Pairwise Attribute.Differ)
    {is : List Instruction} :
    load root = .ok is ↔
      ∃ entries, IsProgram root entries ∧ is = (inOrder entries).map Prod.snd := by
  have hroot := rootDefect?_eq_none_iff hdiffer
  have hentries : ∀ result, instructionsFrom [] root.elements = .ok result ↔ _ := fun result =>
    instructionsFrom_eq_ok_iff List.Pairwise.nil
  simp only [List.nil_append, ← eq_inOrder_iff] at hentries
  constructor
  · intro h
    unfold load at h
    split at h
    · cases h
    rename_i hdefect
    obtain ⟨hname, hattributes, hlanguage⟩ := hroot.1 hdefect
    cases hresult : instructionsFrom [] root.elements with
    | error e =>
        rw [hresult] at h
        cases h
    | ok result =>
        rw [hresult] at h
        cases h
        obtain ⟨entries, hinstructions, hdistinct, rfl⟩ := (hentries result).1 hresult
        exact ⟨entries, ⟨hname, hattributes, hlanguage, hinstructions, hdistinct⟩, rfl⟩
  · rintro ⟨entries, ⟨hname, hattributes, hlanguage, hinstructions, hdistinct⟩, rfl⟩
    have hresult := (hentries _).2 ⟨entries, hinstructions, hdistinct, rfl⟩
    simp only [load, hroot.2 ⟨hname, hattributes, hlanguage⟩, hresult]
    rfl

/-! ## The order of elements -/

/-- An element has the elements of another one in some order, each of them changed in a given way,
and its attributes in some order. -/
structure Reordered (R : Element → Element → Prop) (e e' : Element) : Prop where
  name : e.name = e'.name
  attributes : e.attributes.Perm e'.attributes
  elements : ∃ middle, e.elements.Perm middle ∧ List.Forall₂ R middle e'.elements

/-- The instructions of a program stand in another order, and so do the arguments of each. -/
def Rearranged : Element → Element → Prop :=
  Reordered (Reordered Eq)

theorem Reordered.symm {R : Element → Element → Prop} (hR : ∀ e e', R e e' → R e' e)
    {e e' : Element} (h : Reordered R e e') : Reordered R e' e := by
  obtain ⟨hname, hattributes, middle, hperm, hrelated⟩ := h
  obtain ⟨middle', hrelated', hperm'⟩ := List.perm_comp_forall₂ hperm hrelated
  exact ⟨hname.symm, hattributes.symm, middle', hperm'.symm, hrelated'.flip.imp fun _ _ => hR _ _⟩

theorem Rearranged.symm {root root' : Element} (h : Rearranged root root') :
    Rearranged root' root := by
  have hinner : ∀ e e', Reordered Eq e e' → Reordered Eq e' e := fun _ _ =>
    Reordered.symm fun _ _ => Eq.symm
  exact Reordered.symm hinner h

theorem Rearranged.pairwise_differ {root root' : Element} (h : Rearranged root root')
    (hdiffer : root.attributes.Pairwise Attribute.Differ) :
    root'.attributes.Pairwise Attribute.Differ :=
  (h.attributes.pairwise_iff fun h => Std.Symm.symm _ _ h).1 hdiffer

theorem IsInstruction.of_reordered {e e' : Element} {order : Nat} {i : Instruction}
    (h : IsInstruction e order i) (hreordered : Reordered Eq e e') : IsInstruction e' order i := by
  obtain ⟨hname, hattributes, _, hperm, helements⟩ := hreordered
  obtain rfl := List.forall₂_eq_eq_eq ▸ helements
  obtain ⟨number, mnemonic, hpair, hwords⟩ := h.attributes
  obtain ⟨arguments, harguments, hplaces⟩ := h.arguments
  exact
    { name := hname ▸ h.name
      attributes := ⟨number, mnemonic, hattributes.symm.trans hpair, hwords⟩
      arguments := ⟨arguments, harguments.trans hperm, hplaces⟩ }

theorem forall₂_of_related {α β : Type} {R : α → α → Prop} {S : α → β → Prop}
    (hS : ∀ {a a' b}, S a b → R a a' → S a' b) {l l' : List α} {m : List β}
    (hR : List.Forall₂ R l l') (h : List.Forall₂ S l m) : List.Forall₂ S l' m := by
  induction hR generalizing m with
  | nil => exact h
  | cons hhead _ ih =>
      obtain ⟨b, rest, hb, hrest, rfl⟩ := List.forall₂_cons_left_iff.1 h
      exact .cons (hS hb hhead) (ih hrest)

/-- A rearranged program has the same instructions, with the same orders. -/
theorem IsProgram.of_rearranged {root root' : Element} {entries : List (Nat × Instruction)}
    (h : IsProgram root entries) (hrearranged : Rearranged root root') :
    ∃ entries', entries'.Perm entries ∧ IsProgram root' entries' := by
  obtain ⟨hname, hattributes, middle, hperm, helements⟩ := hrearranged
  obtain ⟨entries', hinstructions, hentries⟩ := List.perm_comp_forall₂ hperm.symm h.instructions
  obtain ⟨word, hword, hlanguage⟩ := h.language
  exact ⟨entries', hentries,
    { name := hname ▸ h.name
      attributes := fun a ha => h.attributes a (hattributes.mem_iff.2 ha)
      language := ⟨word, hattributes.mem_iff.1 hword, hlanguage⟩
      instructions := forall₂_of_related (fun hi hinner => hi.of_reordered hinner) helements
        hinstructions
      distinct := (hentries.map Prod.fst).nodup_iff.2 h.distinct }⟩

theorem inOrder_eq_of_perm {entries entries' : List (Nat × Instruction)}
    (hnodup : (entries.map Prod.fst).Nodup) (hperm : entries'.Perm entries) :
    inOrder entries' = inOrder entries := by
  have hnodup' := (hperm.map Prod.fst).nodup_iff.2 hnodup
  obtain ⟨hsorted, hascending⟩ := eq_inOrder_iff.1 ⟨hnodup', rfl⟩
  exact (eq_inOrder_iff.2 ⟨hsorted.trans hperm, hascending⟩).2

/-- What a tree is read as depends neither on the order of its instructions nor on that of their
arguments. -/
theorem load_of_rearranged {root root' : Element} {is : List Instruction}
    (hdiffer : root.attributes.Pairwise Attribute.Differ) (hrearranged : Rearranged root root')
    (h : load root = .ok is) : load root' = .ok is := by
  have hdiffer' := hrearranged.pairwise_differ hdiffer
  obtain ⟨entries, hprogram, rfl⟩ := (load_eq_ok_iff hdiffer).1 h
  obtain ⟨entries', hperm, hprogram'⟩ := hprogram.of_rearranged hrearranged
  refine (load_eq_ok_iff hdiffer').2 ⟨entries', hprogram', ?_⟩
  rw [inOrder_eq_of_perm hprogram.distinct hperm]

/-- A document is read as the tree that the parser finds in it. -/
theorem parse_of_read {parser : Markup.Parser} {source : String} {root : Element}
    (h : parser.read source = .ok root) : parse parser source = (load root).mapError .layout := by
  simp only [parse, h]
  cases load root <;> rfl

theorem parse_eq_ok_iff {parser : Markup.Parser} {source : String} {root : Element}
    {is : List Instruction} (h : parser.read source = .ok root) :
    parse parser source = .ok is ↔ load root = .ok is := by
  rw [parse_of_read h]
  cases load root <;> simp [Except.mapError]

/-- **The grammar of documents.**  A tree no two of whose attributes agree is accepted exactly if it
is a program.  It is read as the instructions of this program in the order of their numbers.  Trees
that differ in the order of instructions and of their arguments only are read as the same
instructions, or both refused.  And a document is read as its tree, whatever the parser. -/
theorem document_grammar {root : Element} (hdiffer : root.attributes.Pairwise Attribute.Differ) :
    ((∃ is, load root = .ok is) ↔ ∃ entries, IsProgram root entries) ∧
      (∀ entries, IsProgram root entries → load root = .ok ((inOrder entries).map Prod.snd)) ∧
      (∀ root', Rearranged root root' → ∀ is, load root = .ok is ↔ load root' = .ok is) ∧
      ∀ (parser : Markup.Parser) (source : String), parser.read source = .ok root →
        parse parser source = (load root).mapError .layout := by
  have hgrammar : ∀ {is}, load root = .ok is ↔ _ := load_eq_ok_iff hdiffer
  refine ⟨⟨?_, ?_⟩, ?_, ?_, fun parser source => parse_of_read⟩
  · rintro ⟨is, his⟩
    obtain ⟨entries, hprogram, -⟩ := hgrammar.1 his
    exact ⟨entries, hprogram⟩
  · rintro ⟨entries, hprogram⟩
    exact ⟨_, hgrammar.2 ⟨entries, hprogram, rfl⟩⟩
  · intro entries hprogram
    exact hgrammar.2 ⟨entries, hprogram, rfl⟩
  · intro root' hrearranged is
    have hdiffer' := hrearranged.pairwise_differ hdiffer
    exact ⟨load_of_rearranged hdiffer hrearranged, load_of_rearranged hdiffer' hrearranged.symm⟩

/-- Instructions and arguments stand the wrong way round, and so would orders compared as texts. -/
def shuffled : String :=
  String.join ["<program language='ippcode23'>", "<instruction order='10' opcode='BREAK'/>",
    "<instruction order='9' opcode='Not'>", "<arg2 type='bool'/>", "<arg1 type='var'>GF@x</arg1>",
    "</instruction>", "</program>"]

def shuffledTree : Element :=
  ⟨"program", [⟨none, "language", "ippcode23"⟩],
    [.element "instruction" [⟨none, "order", "10"⟩, ⟨none, "opcode", "BREAK"⟩] [],
      .element "instruction" [⟨none, "order", "9"⟩, ⟨none, "opcode", "Not"⟩]
        [.element "arg2" [⟨none, "type", "bool"⟩] [],
          .element "arg1" [⟨none, "type", "var"⟩] [.text "GF@x"]]]⟩

/-- The same program in order. -/
def straightTree : Element :=
  ⟨"program", [⟨none, "language", "ippcode23"⟩],
    [.element "instruction" [⟨none, "order", "9"⟩, ⟨none, "opcode", "Not"⟩]
        [.element "arg1" [⟨none, "type", "var"⟩] [.text "GF@x"],
          .element "arg2" [⟨none, "type", "bool"⟩] []],
      .element "instruction" [⟨none, "order", "10"⟩, ⟨none, "opcode", "BREAK"⟩] []]⟩

theorem rearranged_straightTree : Rearranged shuffledTree straightTree := by
  refine ⟨rfl, .refl _, [_, _], .swap .., .cons ?_ (.cons ?_ .nil)⟩
  · exact ⟨rfl, .refl _, [_, _], .swap .., .cons rfl (.cons rfl .nil)⟩
  · exact ⟨rfl, .refl _, [], .refl _, .nil⟩

set_option maxRecDepth 1024 in
theorem read_shuffled : Markup.parser.read shuffled = .ok shuffledTree := by
  refine Markup.readDocument_eq_ok_iff.2 ?_
  -- short pieces are taken apart into their characters much faster than the whole source
  rw [Markup.document?, shuffled, String.toList_join]
  with_unfolding_all rfl

/-- The program is accepted either way, and the order 9 comes before 10. -/
theorem document_grammar_shuffled :
    shuffledTree.attributes.Pairwise Attribute.Differ ∧
      Markup.parser.read shuffled = .ok shuffledTree ∧ Rearranged shuffledTree straightTree ∧
      (∃ entries, IsProgram shuffledTree entries) ∧
      parse Markup.parser shuffled =
        .ok [⟨.not, [.variable ⟨.global, "x"⟩, .constant ⟨.bool, ""⟩]⟩, ⟨.break, []⟩] := by
  have hdiffer := Markup.parser.differ read_shuffled
  obtain ⟨haccepted, -, hrearranged, hdocument⟩ := document_grammar hdiffer
  have hstraight : load straightTree =
      .ok [⟨.not, [.variable ⟨.global, "x"⟩, .constant ⟨.bool, ""⟩]⟩, ⟨.break, []⟩] := by
    decide +kernel
  have hshuffled := (hrearranged _ rearranged_straightTree _).2 hstraight
  refine ⟨hdiffer, read_shuffled, rearranged_straightTree, haccepted.1 ⟨_, hshuffled⟩, ?_⟩
  rw [hdocument _ _ read_shuffled, hshuffled]
  rfl

end IppCode.Document
