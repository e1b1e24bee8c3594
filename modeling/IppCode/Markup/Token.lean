import IppCode.Markup.CharacterData
import IppCode.Markup.Name

/-!
# Tokens of documents

The content of an element is a sequence of tags, texts, comments and processing
instructions.  `Token.next?` reads the first of them.
-/

namespace IppCode.Markup

/-- What the content of an element consists of. -/
inductive Token where
  /-- A tag that begins an element, and at once ends it if it is `empty`. -/
  | start (name : QName) (attributes : List (QName × String)) (empty : Bool)
  | finish (name : QName)
  | text (s : String)
  | comment (s : String)
  | instruction (target content : String)

/-- Whether a text occurs among characters. -/
def occurs (text : List Char) : List Char → Bool
  | [] => text.isEmpty
  | c :: rest => text.isPrefixOf (c :: rest) || occurs text rest

namespace Scanner

/-- Reads an equals sign with blanks around it. -/
def equalsSign : Scanner Unit := do
  spaces
  exactly ['=']
  spaces

/-- Reads a value up to and including the mark it began with. -/
def valueUntil (mark : Char) : Scanner (List Char) := do
  let cs ← spanning fun c => c != mark && c != '<'
  require (cs.all isAllowed)
  exactly [mark]
  return cs

/-- Reads a value between quotation marks or apostrophes. -/
def quoted : Scanner (List Char)
  | '"' :: rest => valueUntil '"' rest
  | '\'' :: rest => valueUntil '\'' rest
  | _ => none

/-- Reads a name, an equals sign and a value. -/
def namedValue : Scanner (QName × List Char) := do
  let q ← qname
  equalsSign
  let cs ← quoted
  return (q, cs)

theorem nonGrowing_equalsSign : NonGrowing equalsSign :=
  nonGrowing_spaces.bind fun _ => (nonGrowing_exactly _).bind fun _ => nonGrowing_spaces

theorem nonGrowing_valueUntil (mark : Char) : NonGrowing (valueUntil mark) :=
  (nonGrowing_spanning _).bind fun _ => (nonGrowing_require _).bind fun _ =>
    (nonGrowing_exactly _).bind fun _ => nonGrowing_pure _

theorem nonGrowing_quoted : NonGrowing quoted := by
  intro s cs rest h
  unfold quoted at h
  split at h
  · exact Nat.le_succ_of_le (nonGrowing_valueUntil _ _ _ _ h)
  · exact Nat.le_succ_of_le (nonGrowing_valueUntil _ _ _ _ h)
  · simp at h

theorem nonGrowing_namedValue : NonGrowing namedValue :=
  nonGrowing_qname.bind fun _ => nonGrowing_equalsSign.bind fun _ =>
    nonGrowing_quoted.bind fun _ => nonGrowing_pure _

/-- Reads the attributes and the end of a tag that begins an element.  An attribute
has a blank before it. -/
def tagRest (s : List Char) : Option ((List (QName × String) × Bool) × List Char) :=
  match s.dropWhile isSpace with
  | '/' :: '>' :: rest => some (([], true), rest)
  | '>' :: rest => some (([], false), rest)
  | _ =>
    match s with
    | [] => none
    | c :: s =>
      if isSpace c then
        match h : namedValue (s.dropWhile isSpace) with
        | none => none
        | some ((q, cs), rest) =>
          have : rest.length ≤ s.length :=
            Nat.le_trans (nonGrowing_namedValue _ _ _ h) (List.dropWhile_suffix _).length_le
          match value? cs, tagRest rest with
          | some v, some ((attributes, empty), rest) => some (((q, v) :: attributes, empty), rest)
          | _, _ => none
      else
        none
termination_by s.length
decreasing_by simp only [List.length_cons]; omega

theorem nonGrowing_tagRest : NonGrowing tagRest := by
  intro s
  induction hn : s.length using Nat.strongRecOn generalizing s with
  | ind n ih =>
    intro result rest h
    have hdrop : (s.dropWhile isSpace).length ≤ s.length := (List.dropWhile_suffix _).length_le
    rw [tagRest.eq_def] at h
    split at h
    · rename_i rest' heq
      simp only [Option.some.injEq, Prod.mk.injEq] at h
      rw [heq, List.length_cons, List.length_cons] at hdrop
      rw [← h.2]
      omega
    · rename_i rest' heq
      simp only [Option.some.injEq, Prod.mk.injEq] at h
      rw [heq, List.length_cons] at hdrop
      rw [← h.2]
      omega
    · split at h
      · simp at h
      · rename_i c s _ _
        split at h
        · split at h
          · simp at h
          · rename_i q cs middle hvalued
            have hmiddle : middle.length ≤ s.length :=
              Nat.le_trans (nonGrowing_namedValue _ _ _ hvalued)
                (List.dropWhile_suffix _).length_le
            split at h
            · rename_i v attributes empty rest' hvalue htag
              simp only [Option.some.injEq, Prod.mk.injEq] at h
              rw [List.length_cons] at hn
              have := ih middle.length (by omega) middle rfl _ _ htag
              rw [← h.2]
              omega
            · simp at h
        · simp at h

/-- Reads a processing instruction behind its first two characters.  A declaration
is none. -/
def instruction : Scanner (String × String) := do
  let target ← name
  spaces
  let content ← before ['?', '>']
  return (String.ofList target, String.ofList content)

/-- Reads a comment behind its first four characters. -/
def comment : Scanner String := do
  let cs ← before ['-', '-', '>']
  require (!occurs ['-', '-'] cs && cs.getLast? != some '-')
  return String.ofList cs

/-- Reads a section in which nothing is markup, behind its first nine characters. -/
def characterSection : Scanner String := do
  let cs ← before [']', ']', '>']
  return sectionText cs

/-- Reads a tag that ends an element, behind its first two characters. -/
def endTag : Scanner QName := do
  let q ← qname
  spaces
  exactly ['>']
  return q

/-- Reads a tag that begins an element, behind its first character. -/
def startTag : Scanner Token := do
  let q ← qname
  let (attributes, empty) ← tagRest
  return .start q attributes empty

theorem nonGrowing_instruction : NonGrowing instruction :=
  nonGrowing_name.bind fun _ => nonGrowing_spaces.bind fun _ =>
    (nonGrowing_before _).bind fun _ => nonGrowing_pure _

theorem nonGrowing_comment : NonGrowing comment :=
  (nonGrowing_before _).bind fun _ => (nonGrowing_require _).bind fun _ => nonGrowing_pure _

theorem nonGrowing_characterSection : NonGrowing characterSection :=
  (nonGrowing_before _).bind fun _ => nonGrowing_pure _

theorem nonGrowing_endTag : NonGrowing endTag :=
  nonGrowing_qname.bind fun _ => nonGrowing_spaces.bind fun _ =>
    (nonGrowing_exactly _).bind fun _ => nonGrowing_pure _

theorem nonGrowing_startTag : NonGrowing startTag :=
  nonGrowing_qname.bind fun _ => nonGrowing_tagRest.bind fun _ => nonGrowing_pure _

end Scanner

/-- Whether characters begin a declaration, which has its place only at the very
start of a document. -/
def beginsDeclaration (s : List Char) : Bool :=
  ['<', '?', 'x', 'm', 'l', ' '].isPrefixOf s

/-- The text of the characters up to the next tag.  The end of a section may not
occur among them. -/
def characters? (cs : List Char) : Option String :=
  if cs.all isAllowed && !occurs [']', ']', '>'] cs then text? cs else none

namespace Token

/-- Reads the first token. -/
def next? (s : List Char) : Option (Token × List Char) :=
  match s with
  | '<' :: '!' :: '-' :: '-' :: rest =>
    (Scanner.comment rest).map fun (cs, rest) => (.comment cs, rest)
  | '<' :: '!' :: '[' :: 'C' :: 'D' :: 'A' :: 'T' :: 'A' :: '[' :: rest =>
    (Scanner.characterSection rest).map fun (cs, rest) => (.text cs, rest)
  | '<' :: '?' :: rest =>
    if beginsDeclaration s then none
    else
      (Scanner.instruction rest).map fun ((target, content), rest) =>
        (.instruction target content, rest)
  | '<' :: '/' :: rest => (Scanner.endTag rest).map fun (q, rest) => (.finish q, rest)
  | '<' :: rest => Scanner.startTag rest
  | [] => none
  | s =>
    (characters? (s.takeWhile (· != '<'))).map fun t => (.text t, s.dropWhile (· != '<'))

theorem length_lt_of_next? {s rest : List Char} {token : Token}
    (h : next? s = some (token, rest)) : rest.length < s.length := by
  unfold next? at h
  split at h
  · obtain ⟨⟨cs, rest'⟩, hscan, heq⟩ := Option.map_eq_some_iff.1 h
    cases heq
    have := Scanner.nonGrowing_comment _ _ _ hscan
    simp only [List.length_cons]
    omega
  · obtain ⟨⟨cs, rest'⟩, hscan, heq⟩ := Option.map_eq_some_iff.1 h
    cases heq
    have := Scanner.nonGrowing_characterSection _ _ _ hscan
    simp only [List.length_cons]
    omega
  · split at h
    · simp at h
    · obtain ⟨⟨⟨target, content⟩, rest'⟩, hscan, heq⟩ := Option.map_eq_some_iff.1 h
      cases heq
      have := Scanner.nonGrowing_instruction _ _ _ hscan
      simp only [List.length_cons]
      omega
  · obtain ⟨⟨q, rest'⟩, hscan, heq⟩ := Option.map_eq_some_iff.1 h
    cases heq
    have := Scanner.nonGrowing_endTag _ _ _ hscan
    simp only [List.length_cons]
    omega
  · have := Scanner.nonGrowing_startTag _ _ _ h
    simp only [List.length_cons]
    omega
  · simp at h
  · rename_i hmarkup hempty
    obtain ⟨t, -, heq⟩ := Option.map_eq_some_iff.1 h
    cases heq
    cases s with
    | nil => exact absurd rfl hempty
    | cons c s =>
      have hne : (c != '<') = true := by
        rw [bne_iff_ne]
        rintro rfl
        exact hmarkup s rfl
      rw [List.dropWhile_cons, if_pos hne]
      exact Nat.lt_succ_of_le (List.dropWhile_suffix _).length_le

end Token

end IppCode.Markup
