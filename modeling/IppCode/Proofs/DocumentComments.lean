import IppCode.Proofs.DocumentGrammar

/-!
# Comments in program documents

Elements are read past comments, but of an argument only the text that it begins with counts.  So
a comment put anywhere into the document of a program leaves its instructions as they are, unless
it stands before the text of an argument or within it, where it cuts off what follows: then the
program stays the same exactly if nothing but blanks is cut off.

* `Commented` says where a comment is put, and `similar_of_commented` what the tree looks like
  afterwards: the same elements in the same places, but with words of arguments cut short.
* Elements with the same words are read alike (`load_congr`).
* Conversely, trees of this kind that are read as the same instructions have the same words
  (`argumentWords_eq_of_load`): an operand tells the word it was read from, if the other is a part
  of it (`Denotes.word_eq`).
-/

namespace IppCode

/-! ## Putting a comment into a tree -/

namespace Markup

/-- A comment is put between nodes, or within a text, which becomes two.  Within a line end of two
characters, which counts as one, it leaves a line end on either side. -/
inductive Inserted : List Node → List Node → Prop
  | between {before after : List Node} (c : String) :
      Inserted (before ++ after) (before ++ .comment c :: after)
  | within {before after : List Node} (c s t : String) :
      Inserted (before ++ .text (s ++ t) :: after)
        (before ++ .text s :: .comment c :: .text t :: after)
  | withinLineEnd {before after : List Node} (c s t : String) :
      Inserted (before ++ .text (s ++ "\n" ++ t) :: after)
        (before ++ .text (s ++ "\n") :: .comment c :: .text ("\n" ++ t) :: after)

/-- A comment is put into the content of an element, or of one within it at some depth. -/
inductive Commented : Nat → Element → Element → Prop
  | here {name : String} {attributes : List Attribute} {children children' : List Node}
      (h : Inserted children children') :
      Commented 0 ⟨name, attributes, children⟩ ⟨name, attributes, children'⟩
  | inside {name : String} {attributes : List Attribute} {before after : List Node} {depth : Nat}
      {e e' : Element} (h : Commented depth e e') :
      Commented (depth + 1) ⟨name, attributes, before ++ e.toNode :: after⟩
        ⟨name, attributes, before ++ e'.toNode :: after⟩

theorem Inserted.filterMap_element? {children children' : List Node}
    (h : Inserted children children') :
    children'.filterMap Node.element? = children.filterMap Node.element? := by
  cases h <;> simp [List.filterMap_cons, Node.element?]

theorem Element.elements_around (name : String) (attributes : List Attribute)
    (before after : List Node) (e : Element) :
    Element.elements ⟨name, attributes, before ++ e.toNode :: after⟩ =
      before.filterMap Node.element? ++ e :: after.filterMap Node.element? :=
  List.filterMap_append

namespace Commented

variable {depth : Nat} {e e' : Element}

theorem name_eq (h : Commented depth e e') : e'.name = e.name := by
  cases h <;> rfl

theorem attributes_eq (h : Commented depth e e') : e'.attributes = e.attributes := by
  cases h <;> rfl

/-- The elements within an element stay, but for a comment that is put into one of them. -/
theorem forall₂_elements {R : Element → Element → Prop} (hrefl : ∀ e, R e e)
    (hinner : ∀ {depth e e'}, Commented depth e e' → R e e')
    (h : Commented depth e e') : List.Forall₂ R e.elements e'.elements := by
  cases h with
  | here h =>
      rw [Element.elements, Element.elements, h.filterMap_element?]
      exact List.forall₂_same.2 fun e _ => hrefl e
  | @inside _ _ before after _ inner inner' h =>
      rw [Element.elements_around, Element.elements_around]
      exact List.rel_append (List.forall₂_same.2 fun e _ => hrefl e)
        (.cons (hinner h) (List.forall₂_same.2 fun e _ => hrefl e))

theorem elements_eq (h : Commented 0 e e') : e'.elements = e.elements := by
  cases h with
  | here h => exact h.filterMap_element?

end Commented

end Markup

/-! ## Words that are cut short -/

/-- What is left of the front part of a text is the front part of what is left of it. -/
theorem Text.trim_prefix (s t : String) : (trim s).toList <+: (trim (s ++ t)).toList := by
  simp only [trim, trimChars, String.toList_ofList, String.toList_append]
  rw [List.reverse_prefix]
  cases hdrop : (s.toList.dropWhile isBlank).isEmpty with
  | true => simp [List.isEmpty_iff.1 hdrop]
  | false =>
      rw [List.dropWhile_append, hdrop, if_neg Bool.false_ne_true, List.reverse_append,
        List.dropWhile_append]
      split
      · exact List.suffix_rfl
      · exact (List.dropWhile_suffix _).trans (List.suffix_append ..)

namespace Document

open Markup (Element Attribute Commented Inserted)

/-- The word of an argument. -/
def word (argument : Element) : String :=
  Text.trim argument.leadingText

/-- The words of the arguments of each instruction. -/
def argumentWords (root : Element) : List (List String) :=
  root.elements.map fun e => e.elements.map word

/-- An argument agrees with another, but its word may be cut short. -/
structure Cut (e e' : Element) : Prop where
  name : e'.name = e.name
  attributes : e'.attributes = e.attributes
  elements : e'.elements = [] ↔ e.elements = []
  word : (word e').toList <+: (word e).toList

/-- An element agrees with another, but the elements within are changed in a given way. -/
structure Similar (R : Element → Element → Prop) (e e' : Element) : Prop where
  name : e'.name = e.name
  attributes : e'.attributes = e.attributes
  elements : List.Forall₂ R e.elements e'.elements

theorem Cut.refl (e : Element) : Cut e e :=
  ⟨rfl, rfl, Iff.rfl, List.prefix_rfl⟩

theorem Similar.refl {R : Element → Element → Prop} (hR : ∀ e, R e e) (e : Element) :
    Similar R e e :=
  ⟨rfl, rfl, List.forall₂_same.2 fun e _ => hR e⟩

/-- Only a comment in front of the nodes or within the first of them changes how they begin. -/
theorem word_prefix_of_inserted {name : String} {attributes : List Attribute}
    {children children' : List Markup.Node} (h : Inserted children children') :
    (word ⟨name, attributes, children'⟩).toList <+: (word ⟨name, attributes, children⟩).toList := by
  cases h with
  | @between before after c =>
      cases before with
      | nil =>
          change (Text.trim "").toList <+: _
          simp [Text.trim, Text.trimChars]
      | cons first before => cases first <;> exact List.prefix_rfl
  | @within before after c s t =>
      cases before with
      | nil => exact Text.trim_prefix s t
      | cons first before => cases first <;> exact List.prefix_rfl
  | @withinLineEnd before after c s t =>
      cases before with
      | nil => exact Text.trim_prefix (s ++ "\n") t
      | cons first before => cases first <;> exact List.prefix_rfl

theorem cut_of_commented {depth : Nat} {e e' : Element} (h : Commented depth e e') : Cut e e' where
  name := h.name_eq
  attributes := h.attributes_eq
  elements := by
    have hlength := (h.forall₂_elements (R := fun _ _ => True) (fun _ => trivial)
      (fun _ => trivial)).length_eq
    rw [← List.length_eq_zero_iff, ← List.length_eq_zero_iff, hlength]
  word := by
    cases h with
    | here h => exact word_prefix_of_inserted h
    | @inside _ _ before after _ inner inner' h =>
        cases before with
        | nil => exact List.prefix_rfl
        | cons first before => cases first <;> exact List.prefix_rfl

/-- A comment in a program leaves all elements in their places, and can at most cut the words of
arguments short. -/
theorem similar_of_commented {depth : Nat} {root root' : Element} (h : Commented depth root root') :
    Similar (Similar Cut) root root' := by
  refine ⟨h.name_eq, h.attributes_eq, h.forall₂_elements (Similar.refl Cut.refl) fun hinner => ?_⟩
  exact ⟨hinner.name_eq, hinner.attributes_eq,
    hinner.forall₂_elements Cut.refl cut_of_commented⟩

/-- Comments outside of arguments leave their words alone. -/
theorem argumentWords_of_commented {depth : Nat} {root root' : Element}
    (h : Commented depth root root') (hdepth : depth ≤ 1) :
    argumentWords root' = argumentWords root := by
  cases h with
  | here h =>
      simp only [argumentWords, Element.elements]
      rw [h.filterMap_element?]
  | @inside _ _ before after depth inner inner' h =>
      obtain rfl : depth = 0 := by omega
      simp only [argumentWords, Element.elements_around, List.map_append, List.map_cons,
        h.elements_eq]

/-! ## The same words -/

theorem operand_congr {e e' : Element} (h : Cut e e') (hword : word e' = word e) :
    operand e' = operand e := by
  have hempty : e'.elements.isEmpty = e.elements.isEmpty := by
    rw [Bool.eq_iff_iff, List.isEmpty_iff, List.isEmpty_iff, h.elements]
  have htext : Text.trim e'.leadingText = Text.trim e.leadingText := hword
  rw [operand, hempty, h.attributes, Element.attribute?_congr h.attributes, h.name, htext, operand]

theorem argumentsFrom_congr {order : Nat} {read : List (Nat × Operand)} {es es' : List Element}
    (h : List.Forall₂ (fun e e' => Cut e e' ∧ word e' = word e) es es') :
    argumentsFrom order read es' = argumentsFrom order read es := by
  induction h generalizing read with
  | nil => rfl
  | cons hhead _ ih =>
      simp only [argumentsFrom, hhead.1.name, operand_congr hhead.1 hhead.2, ih]

/-- What agrees in the words of its parts agrees part by part. -/
theorem forall₂_of_map_eq {R : Element → Element → Prop} {α : Type} {f : Element → α}
    {es es' : List Element} (h : List.Forall₂ R es es') (hmap : es'.map f = es.map f) :
    List.Forall₂ (fun e e' => R e e' ∧ f e' = f e) es es' := by
  induction h with
  | nil => exact .nil
  | cons hhead _ ih =>
      obtain ⟨hfirst, hrest⟩ := List.cons.inj hmap
      exact .cons ⟨hhead, hfirst⟩ (ih hrest)

theorem instruction_congr {e e' : Element} (h : Similar Cut e e')
    (hwords : e'.elements.map word = e.elements.map word) : instruction e' = instruction e := by
  simp only [instruction, h.name, h.attributes, Element.attribute?_congr h.attributes,
    argumentsFrom_congr (forall₂_of_map_eq h.elements hwords)]

theorem instructionsFrom_congr {read : List (Nat × Instruction)} {es es' : List Element}
    (h : List.Forall₂ (fun e e' => Similar Cut e e' ∧ e'.elements.map word = e.elements.map word)
      es es') : instructionsFrom read es' = instructionsFrom read es := by
  induction h generalizing read with
  | nil => rfl
  | cons hhead _ ih => simp only [instructionsFrom, instruction_congr hhead.1 hhead.2, ih]

/-- Programs that have the same words are read alike. -/
theorem load_congr {root root' : Element} (h : Similar (Similar Cut) root root')
    (hwords : argumentWords root' = argumentWords root) : load root' = load root := by
  have hdefect : rootDefect? root' = rootDefect? root := by
    simp only [rootDefect?, h.name, h.attributes, Element.attribute?_congr h.attributes]
  rw [load, hdefect, instructionsFrom_congr (forall₂_of_map_eq h.elements hwords), load]

/-! ## The same instructions -/

/-- An operand tells its word from those that it is cut short to. -/
theorem Denotes.word_eq {keyword w w' : String} {o : Operand} (h : Denotes keyword w o)
    (h' : Denotes keyword w' o) (hfront : w'.toList <+: w.toList) : w' = w := by
  cases h with
  | constant hkeyword | label hkeyword hword =>
      cases h'
      rfl
  | «variable» hkeyword hword hname =>
      cases h' with
      | «variable» hkeyword' hword' hname' => rw [hword, hword']
  | type hkeyword hword =>
      cases h' with
      | type hkeyword' hword' =>
          -- both have as many letters as the name of the type
          have hletters := Text.sameLetters_trans hword' (Text.sameLetters_comm.1 hword)
          have hlength := congrArg List.length (beq_iff_eq.1 hletters)
          rw [List.length_map, List.length_map] at hlength
          exact String.toList_inj.1 (hfront.eq_of_length hlength)

theorem IsArgument.word_eq {e e' : Element} {o : Operand} (h : IsArgument e o)
    (h' : IsArgument e' o) (hcut : Cut e e') : word e' = word e := by
  obtain ⟨-, keyword, hattributes, hdenotes⟩ := h
  obtain ⟨-, keyword', hattributes', hdenotes'⟩ := h'
  rw [hcut.attributes, hattributes] at hattributes'
  obtain rfl : keyword = keyword' := by simpa using hattributes'
  exact hdenotes.word_eq hdenotes' hcut.word

theorem IsInstruction.order_eq {e e' : Element} {order order' : Nat} {i i' : Instruction}
    (h : IsInstruction e order i) (h' : IsInstruction e' order' i')
    (hattributes : e'.attributes = e.attributes) : order = order' := by
  have hne : "order" ≠ "opcode" := by decide
  obtain ⟨number, mnemonic, hpair, horder, -⟩ := h.attributes
  obtain ⟨number', mnemonic', hpair', horder', -⟩ := h'.attributes
  obtain ⟨-, hnumber, -⟩ := (Element.attributes_perm_pair_iff hne).1 hpair
  obtain ⟨-, hnumber', -⟩ := (Element.attributes_perm_pair_iff hne).1 hpair'
  rw [Element.attribute?_congr hattributes, hnumber] at hnumber'
  obtain rfl := Option.some.inj hnumber'
  exact horder.value.symm.trans horder'.value

section Entries

variable {α β : Type} {R : Element → Element → Prop} {S : Element → Nat × α → Prop}
  {es es' : List Element} {entries entries' : List (Nat × α)}

/-- Elements whose keys agree one by one are read with the same keys. -/
theorem map_fst_eq_of_forall₂
    (hkey : ∀ {e e' entry entry'}, R e e' → S e entry → S e' entry' → entry.1 = entry'.1)
    (hR : List.Forall₂ R es es') (h : List.Forall₂ S es entries)
    (h' : List.Forall₂ S es' entries') : entries.map Prod.fst = entries'.map Prod.fst := by
  induction hR generalizing entries entries' with
  | nil =>
      cases h
      cases h'
      rfl
  | cons hhead _ ih =>
      cases h with
      | cons hfirst hrest =>
          cases h' with
          | cons hfirst' hrest' =>
              rw [List.map_cons, List.map_cons, hkey hhead hfirst hfirst', ih hrest hrest']

theorem map_eq_of_forall₂ {f : Element → β}
    (hf : ∀ {e e' entry}, R e e' → S e entry → S e' entry → f e' = f e)
    (hR : List.Forall₂ R es es') (h : List.Forall₂ S es entries)
    (h' : List.Forall₂ S es' entries) : es'.map f = es.map f := by
  induction hR generalizing entries with
  | nil => rfl
  | cons hhead _ ih =>
      cases h with
      | cons hfirst hrest =>
          cases h' with
          | cons hfirst' hrest' =>
              rw [List.map_cons, List.map_cons, hf hhead hfirst hfirst', ih hrest hrest']

theorem eq_of_perm_of_map_fst_eq (hnodup : (entries.map Prod.fst).Nodup)
    (hperm : entries.Perm entries') (hkeys : entries.map Prod.fst = entries'.map Prod.fst) :
    entries = entries' := by
  apply List.ext_getElem hperm.length_eq
  intro k hk hk'
  have hkey : entries[k].1 = entries'[k].1 := by
    simpa [hk, hk'] using congrArg (fun keys => keys[k]?) hkeys
  exact List.inj_on_of_nodup_map hnodup (List.getElem_mem hk)
    (hperm.mem_iff.2 (List.getElem_mem hk')) hkey

end Entries

/-- Arguments that stand for the same operands have the same words. -/
theorem AreArguments.words_eq {es es' : List Element} {operands : List Operand}
    (h : AreArguments es operands) (h' : AreArguments es' operands)
    (hcut : List.Forall₂ Cut es es') : es'.map word = es.map word := by
  obtain ⟨read, hread, hperm⟩ := areArguments_iff_fills.1 h
  obtain ⟨read', hread', hperm'⟩ := areArguments_iff_fills.1 h'
  have hnodup := (hperm.map Prod.fst).nodup_iff.2 (nodup_placed 0 operands)
  have hkeys : read.map Prod.fst = read'.map Prod.fst := by
    refine map_fst_eq_of_forall₂ (fun hcut hfills hfills' => ?_) hcut hread hread'
    have hplace := argumentIndex?_eq_some_iff.2 hfills.1
    have hplace' := argumentIndex?_eq_some_iff.2 hfills'.1
    rw [hcut.name, hplace] at hplace'
    exact Option.some.inj hplace'
  obtain rfl := eq_of_perm_of_map_fst_eq hnodup (hperm.trans hperm'.symm) hkeys
  exact map_eq_of_forall₂ (fun hcut hfills hfills' => hfills.2.word_eq hfills'.2 hcut)
    hcut hread hread'

theorem perm_of_inOrder {entries entries' : List (Nat × Instruction)}
    (hnodup : (entries.map Prod.fst).Nodup) (hkeys : entries.map Prod.fst = entries'.map Prod.fst)
    (hsame : (inOrder entries).map Prod.snd = (inOrder entries').map Prod.snd) :
    entries.Perm entries' := by
  obtain ⟨hperm, hascending⟩ := eq_inOrder_iff.1 ⟨hnodup, rfl⟩
  obtain ⟨hperm', hascending'⟩ := eq_inOrder_iff.1 ⟨hkeys ▸ hnodup, rfl⟩
  have hfst : (inOrder entries).map Prod.fst = (inOrder entries').map Prod.fst := by
    have hsorted := (hperm.map Prod.fst).trans (hkeys ▸ (hperm'.map Prod.fst).symm)
    refine hsorted.eq_of_pairwise ?_ (List.pairwise_map.2 hascending)
      (List.pairwise_map.2 hascending')
    intro first second _ _ hlt hgt
    omega
  have hentries : inOrder entries = inOrder entries' :=
    (List.zip_of_prod hfst hsame).trans (List.zip_of_prod rfl rfl).symm
  exact hperm.symm.trans (hentries ▸ hperm')

/-- Programs of the same instructions have the same words. -/
theorem argumentWords_eq_of_isProgram {root root' : Element}
    {entries entries' : List (Nat × Instruction)} (hsimilar : Similar (Similar Cut) root root')
    (h : IsProgram root entries) (h' : IsProgram root' entries')
    (hsame : (inOrder entries).map Prod.snd = (inOrder entries').map Prod.snd) :
    argumentWords root' = argumentWords root := by
  have hkeys : entries.map Prod.fst = entries'.map Prod.fst :=
    map_fst_eq_of_forall₂ (fun hsimilar hi hi' => hi.order_eq hi' hsimilar.attributes)
      hsimilar.elements h.instructions h'.instructions
  have hperm := perm_of_inOrder h.distinct hkeys hsame
  obtain rfl := eq_of_perm_of_map_fst_eq h.distinct hperm hkeys
  exact map_eq_of_forall₂
    (fun hsimilar hi hi' => hi.arguments.words_eq hi'.arguments hsimilar.elements)
    hsimilar.elements h.instructions h'.instructions

/-- **Comments in documents.**  Let a comment be put into an accepted program, anywhere in the
content of its tree, of an instruction or of an argument.  The program stays the same exactly if
all arguments keep their words, which are the texts that they begin with, without the blanks
around.  This is so wherever the comment is put outside of arguments.  Documents in which a parser
finds these trees are read as the trees are. -/
theorem comment_keeps_program_iff {root root' : Element} {depth : Nat} {is : List Instruction}
    (hdiffer : root.attributes.Pairwise Attribute.Differ) (hcommented : Commented depth root root')
    (hload : load root = .ok is) :
    (load root' = .ok is ↔ argumentWords root' = argumentWords root) ∧
      (depth ≤ 1 → load root' = .ok is) ∧
      ∀ (parser : Markup.Parser) (source source' : String), parser.read source = .ok root →
        parser.read source' = .ok root' →
        parse parser source = .ok is ∧ (parse parser source' = .ok is ↔ load root' = .ok is) := by
  have hsimilar := similar_of_commented hcommented
  have hdiffer' : root'.attributes.Pairwise Attribute.Differ :=
    hcommented.attributes_eq ▸ hdiffer
  have hkeeps : argumentWords root' = argumentWords root → load root' = .ok is := fun hwords =>
    (load_congr hsimilar hwords).trans hload
  refine ⟨⟨fun hload' => ?_, hkeeps⟩, fun hdepth => ?_, fun parser source source' h h' => ?_⟩
  · obtain ⟨entries, hprogram, hentries⟩ := (load_eq_ok_iff hdiffer).1 hload
    obtain ⟨entries', hprogram', hentries'⟩ := (load_eq_ok_iff hdiffer').1 hload'
    exact argumentWords_eq_of_isProgram hsimilar hprogram hprogram' (hentries ▸ hentries')
  · exact hkeeps (argumentWords_of_commented hcommented hdepth)
  · exact ⟨(parse_eq_ok_iff h).2 hload, parse_eq_ok_iff h'⟩

/-- A program that writes one text, by the source of the argument. -/
def writing (argument : String) : String :=
  String.join ["<program language='IPPcode23'>", "<instruction order='1' opcode='WRITE'>",
    "<arg1 type='string'>", argument, "</arg1>", "</instruction>", "</program>"]

/-- The tree of a program that writes one text, by the nodes of the argument. -/
def writingTree (argument : List Markup.Node) : Element :=
  ⟨"program", [⟨none, "language", "IPPcode23"⟩],
    [.element "instruction" [⟨none, "order", "1"⟩, ⟨none, "opcode", "WRITE"⟩]
      [.element "arg1" [⟨none, "type", "string"⟩] argument]]⟩

theorem commented_writingTree {argument argument' : List Markup.Node}
    (h : Inserted argument argument') :
    Commented 2 (writingTree argument) (writingTree argument') :=
  @Commented.inside _ _ [] [] _ _ _ (@Commented.inside _ _ [] [] _ _ _ (.here h))

theorem load_writingTree :
    load (writingTree [.text "hi "]) = .ok [⟨.write, [.constant ⟨.string, "hi"⟩]⟩] := by
  decide +kernel

set_option maxRecDepth 1024 in
theorem read_writing :
    Markup.parser.read (writing "hi ") = .ok (writingTree [.text "hi "]) := by
  refine Markup.readDocument_eq_ok_iff.2 ?_
  rw [Markup.document?, writing, String.toList_join]
  with_unfolding_all rfl

set_option maxRecDepth 1024 in
theorem read_writing_behind :
    Markup.parser.read (writing "hi<!--c--> ") =
      .ok (writingTree [.text "hi", .comment "c", .text " "]) := by
  refine Markup.readDocument_eq_ok_iff.2 ?_
  rw [Markup.document?, writing, String.toList_join]
  with_unfolding_all rfl

set_option maxRecDepth 1024 in
theorem read_writing_before :
    Markup.parser.read (writing "<!--c-->hi ") =
      .ok (writingTree [.comment "c", .text "hi "]) := by
  refine Markup.readDocument_eq_ok_iff.2 ?_
  rw [Markup.document?, writing, String.toList_join]
  with_unfolding_all rfl

theorem parse_writing :
    parse Markup.parser (writing "hi ") = .ok [⟨.write, [.constant ⟨.string, "hi"⟩]⟩] :=
  (parse_eq_ok_iff read_writing).2 load_writingTree

/-- A comment within a text, with only blanks behind it. -/
theorem comment_keeps_program_iff_behind :
    Markup.parser.read (writing "hi ") = .ok (writingTree [.text "hi "]) ∧
      Markup.parser.read (writing "hi<!--c--> ") =
        .ok (writingTree [.text "hi", .comment "c", .text " "]) ∧
      Commented 2 (writingTree [.text "hi "])
        (writingTree [.text "hi", .comment "c", .text " "]) ∧
      parse Markup.parser (writing "hi ") = .ok [⟨.write, [.constant ⟨.string, "hi"⟩]⟩] ∧
      parse Markup.parser (writing "hi<!--c--> ") =
        .ok [⟨.write, [.constant ⟨.string, "hi"⟩]⟩] := by
  have hcommented := commented_writingTree (@Inserted.within [] [] "c" "hi" " ")
  obtain ⟨hkeeps, -, hdocument⟩ :=
    comment_keeps_program_iff (Markup.parser.differ read_writing) hcommented load_writingTree
  obtain ⟨hparse, hparse'⟩ := hdocument _ _ _ read_writing read_writing_behind
  exact ⟨read_writing, read_writing_behind, hcommented, hparse,
    hparse'.2 (hkeeps.2 (by decide +kernel))⟩

/-- A comment before a text takes it away: the program writes nothing instead of `hi`. -/
theorem comment_hides_text :
    Markup.parser.read (writing "hi ") = .ok (writingTree [.text "hi "]) ∧
      Markup.parser.read (writing "<!--c-->hi ") = .ok (writingTree [.comment "c", .text "hi "]) ∧
      Commented 2 (writingTree [.text "hi "]) (writingTree [.comment "c", .text "hi "]) ∧
      parse Markup.parser (writing "hi ") = .ok [⟨.write, [.constant ⟨.string, "hi"⟩]⟩] ∧
      parse Markup.parser (writing "<!--c-->hi ") = .ok [⟨.write, [.constant ⟨.string, ""⟩]⟩] :=
  ⟨read_writing, read_writing_before, commented_writingTree (@Inserted.between [] _ "c"),
    parse_writing, (parse_eq_ok_iff read_writing_before).2 (by decide +kernel)⟩

end Document

end IppCode
