import Mathlib.Data.List.Nodup
import Mathlib.Data.List.Perm.Basic
import IppCode.Proofs.MemoryAccess
import IppCode.Proofs.TextBytes

/-!
# Frames are canonical

A frame is built by declaring names and storing under them, in any order and with any number of
failures in between.  What that comes to is a map from names to what they hold; `contents` computes
it with functions alone, one access after the other, and `slot?_after` says that the frame holds
just this.

A frame keeps nothing else: two sequences of accesses that come to the same map make the same frame
(`after_eq_iff`).  It lists the names that were declared with success, each of them once
(`perm_names`), by the codes of their characters (`pairwise_names`).
-/

namespace IppCode.Frame

variable {f g : Frame} {name other : String} {content held : Option Value}

/-! ## The names of a frame -/

/-- The names of a frame, as it lists them. -/
def names (f : Frame) : List String :=
  f.slots.entries.map Prod.fst

theorem ext_slot? (h : ∀ name, f.slot? name = g.slot? name) : f = g := by
  obtain ⟨slots⟩ := f
  obtain ⟨slots'⟩ := g
  exact congrArg mk (Table.ext_find? h)

theorem pairwise_names (f : Frame) : f.names.Pairwise fun first second =>
    Text.Precedes (first.toList.map Char.toNat) (second.toList.map Char.toNat) := by
  rw [names, List.pairwise_map]
  exact f.slots.ascending.imp fun hlt => Text.Utf8.lt_iff_precedes_codes.1 hlt

theorem nodup_names (f : Frame) : f.names.Nodup := by
  rw [names, List.nodup_iff_pairwise_ne, List.pairwise_map]
  apply f.slots.ascending.imp
  intro first second hlt heq
  exact String.lt_irrefl second.1 (heq ▸ hlt)

theorem slot?_of_mem (h : (name, held) ∈ f.slots.entries) : f.slot? name = some held := by
  obtain ⟨before, behind, hentries⟩ := List.append_of_mem h
  refine List.lookup_eq_some_iff.2 ⟨before, behind, hentries, ?_⟩
  intro entry hentry
  have hascending := f.slots.ascending
  rw [hentries, List.pairwise_append] at hascending
  have hlt : entry.1 < name := hascending.2.2 entry hentry (name, held) List.mem_cons_self
  rw [bne_iff_ne]
  rintro rfl
  exact String.lt_irrefl _ hlt

theorem mem_names_iff : name ∈ f.names ↔ f.slot? name ≠ none := by
  constructor
  · intro h
    obtain ⟨⟨found, held⟩, hentry, rfl⟩ := List.mem_map.1 h
    rw [slot?_of_mem hentry]
    exact Option.some_ne_none held
  · intro h
    obtain ⟨held, hheld⟩ := Option.ne_none_iff_exists'.1 h
    obtain ⟨before, behind, hentries, -⟩ := List.lookup_eq_some_iff.1 hheld
    refine List.mem_map.2 ⟨(name, held), ?_, rfl⟩
    rw [hentries]
    exact List.mem_append_right _ List.mem_cons_self

/-- How a name is shown with what it holds. -/
def slotText (contents : String → Option (Option Value)) (name : String) : String :=
  name ++ ": " ++ renderContent (contents name).join

theorem render_eq (f : Frame) :
    f.render = "\x7b" ++ ", ".intercalate (f.names.map (slotText f.slot?)) ++ "\x7d" := by
  have hentries : f.slots.entries.map (fun entry => entry.1 ++ ": " ++ renderContent entry.2) =
      f.names.map (slotText f.slot?) := by
    rw [names, List.map_map]
    apply List.map_congr_left
    rintro ⟨name, held⟩ hentry
    simp [slotText, slot?_of_mem hentry]
  rw [← hentries]
  rfl

/-! ## Accesses -/

/-- What can be done to a frame. -/
inductive Access where
  | declare (name : String)
  | store (name : String) (content : Option Value)

/-- What an access makes of the frame, whether it fails or not. -/
def access (f : Frame) : Access → Frame
  | .declare name => (f.declare name).2
  | .store name content => (f.store name content).2

/-- The names that an access declares with success: at most one. -/
def Access.news (f : Frame) : Access → List String
  | .declare name =>
    match (f.declare name).1 with
    | .ok _ => [name]
    | .error _ => []
  | .store .. => []

/-- The frame that accesses make out of one. -/
def afterFrom (f : Frame) (accesses : List Access) : Frame :=
  accesses.foldl access f

/-- The names that accesses declare with success, in the order in which they do. -/
def declaredFrom (f : Frame) : List Access → List String
  | [] => []
  | a :: rest => a.news f ++ declaredFrom (f.access a) rest

/-- The frame that accesses make. -/
def after (accesses : List Access) : Frame :=
  afterFrom ∅ accesses

/-- What names hold after an access, by what they held before. -/
def Access.apply (held : String → Option (Option Value)) :
    Access → String → Option (Option Value)
  | .declare name, other => if other = name ∧ held name = none then some none else held other
  | .store name content, other =>
    if other = name ∧ held name ≠ none then some content else held other

/-- What names hold after accesses, if no name was declared before. -/
def contents (accesses : List Access) : String → Option (Option Value) :=
  accesses.foldl Access.apply fun _ => none

/-- A declaration that fails leaves the frame as it was. -/
theorem access_declare (f : Frame) (name : String) :
    f.access (.declare name) = if f.slot? name = none then f.put name none else f := by
  rw [access]
  cases hslot : f.slot? name with
  | none => rw [declare_of_none hslot, if_pos rfl]
  | some held => rw [declare_of_some hslot, if_neg (Option.some_ne_none held)]

/-- What is stored under a name that is not declared is lost. -/
theorem access_store (f : Frame) (name : String) (content : Option Value) :
    f.access (.store name content) = if f.slot? name = none then f else f.put name content := by
  rw [access]
  cases hslot : f.slot? name with
  | none => rw [store_of_none hslot, if_pos rfl]
  | some held => rw [store_of_some hslot, if_neg (Option.some_ne_none held)]

theorem news_declare (f : Frame) (name : String) :
    (Access.declare name).news f = if f.slot? name = none then [name] else [] := by
  rw [Access.news]
  cases hslot : f.slot? name with
  | none => rw [declare_of_none hslot, if_pos rfl]
  | some held => rw [declare_of_some hslot, if_neg (Option.some_ne_none held)]

theorem mem_news_iff {a : Access} :
    name ∈ a.news f ↔ a = .declare name ∧ f.slot? name = none := by
  cases a with
  | store => simp [Access.news]
  | declare declared =>
      rw [news_declare, Access.declare.injEq]
      by_cases hname : declared = name
      · subst hname
        by_cases hnone : f.slot? declared = none <;> simp [hnone]
      · by_cases hnone : f.slot? declared = none <;> simp [hname, Ne.symm hname, hnone]

theorem nodup_news (f : Frame) (a : Access) : (a.news f).Nodup := by
  cases a with
  | store => exact List.nodup_nil
  | declare name =>
      rw [news_declare]
      split
      · exact List.nodup_singleton name
      · exact List.nodup_nil

/-! ## What a frame holds -/

theorem slot?_access (f : Frame) (a : Access) : (f.access a).slot? = a.apply f.slot? := by
  funext other
  cases a with
  | declare name =>
      rw [access_declare, Access.apply]
      by_cases hnone : f.slot? name = none <;> simp [hnone]
  | store name content =>
      rw [access_store, Access.apply]
      by_cases hnone : f.slot? name = none <;> simp [hnone]

theorem slot?_afterFrom (f : Frame) (accesses : List Access) :
    (f.afterFrom accesses).slot? = accesses.foldl Access.apply f.slot? := by
  induction accesses generalizing f with
  | nil => rfl
  | cons a rest ih =>
      calc ((f.access a).afterFrom rest).slot?
          = rest.foldl Access.apply (f.access a).slot? := ih (f.access a)
        _ = rest.foldl Access.apply (a.apply f.slot?) := by rw [slot?_access]

theorem slot?_after (accesses : List Access) : (after accesses).slot? = contents accesses :=
  slot?_afterFrom ∅ accesses

/-- Accesses make the same frame exactly if they come to the same map. -/
theorem after_eq_iff {accesses others : List Access} :
    after others = after accesses ↔ contents others = contents accesses := by
  rw [← slot?_after, ← slot?_after]
  constructor
  · intro h
    rw [h]
  · intro h
    exact ext_slot? (congrFun h)

/-! ## Declared names -/

/-- Declared names stay declared, and those that an access declares with success are new. -/
theorem slot?_access_eq_none_iff {a : Access} :
    (f.access a).slot? name = none ↔ f.slot? name = none ∧ name ∉ a.news f := by
  rw [slot?_access, mem_news_iff]
  cases a with
  | declare declared =>
      simp only [Access.apply, Access.declare.injEq]
      by_cases hname : name = declared
      · subst hname
        by_cases hnone : f.slot? name = none <;> simp [hnone]
      · simp [hname, Ne.symm hname]
  | store stored content =>
      simp only [Access.apply]
      by_cases hname : name = stored
      · subst hname
        by_cases hnone : f.slot? name = none <;> simp [hnone]
      · simp [hname]

/-- The names that are new in the end are those that were declared with success. -/
theorem slot?_afterFrom_eq_none_iff {accesses : List Access} :
    (f.afterFrom accesses).slot? name = none ↔
      f.slot? name = none ∧ name ∉ f.declaredFrom accesses := by
  induction accesses generalizing f with
  | nil => simp [afterFrom, declaredFrom]
  | cons a rest ih =>
      calc ((f.access a).afterFrom rest).slot? name = none
          ↔ (f.access a).slot? name = none ∧ name ∉ (f.access a).declaredFrom rest := ih
        _ ↔ f.slot? name = none ∧ name ∉ f.declaredFrom (a :: rest) := by
          rw [slot?_access_eq_none_iff, declaredFrom, List.mem_append, not_or, and_assoc]

theorem slot?_of_mem_declaredFrom {accesses : List Access} (h : name ∈ f.declaredFrom accesses) :
    f.slot? name = none := by
  induction accesses generalizing f with
  | nil => cases h
  | cons a rest ih =>
      rcases List.mem_append.1 h with hnew | hrest
      · exact (mem_news_iff.1 hnew).2
      · exact (slot?_access_eq_none_iff.1 (ih hrest)).1

/-- No name is declared twice with success. -/
theorem nodup_declaredFrom (f : Frame) (accesses : List Access) :
    (f.declaredFrom accesses).Nodup := by
  induction accesses generalizing f with
  | nil => exact List.nodup_nil
  | cons a rest ih =>
      refine List.nodup_append.2 ⟨nodup_news f a, ih _, ?_⟩
      rintro name hnew other hother rfl
      have hnone := slot?_of_mem_declaredFrom hother
      exact (slot?_access_eq_none_iff.1 hnone).2 hnew

/-- The names of a frame are those that were declared with success. -/
theorem perm_names (accesses : List Access) :
    (after accesses).names.Perm (declaredFrom ∅ accesses) := by
  refine (List.perm_ext_iff_of_nodup (nodup_names _) (nodup_declaredFrom _ _)).2 fun name => ?_
  have hempty : (∅ : Frame).slot? name = none := Table.find?_empty name
  rw [mem_names_iff, after, ne_eq, slot?_afterFrom_eq_none_iff]
  simp [hempty]

/-- **Frames are canonical**, whatever is declared and stored, with success or not.

* A frame holds what its accesses come to, and is shown by listing the names that were declared with
  success, each of them once and in the order of the codes of their characters, with what they
  hold.
* Its size is the number of the declarations that succeeded.
* Two sequences of accesses make the same frame exactly if they come to the same map, and then the
  frame is shown alike. -/
theorem frames_are_canonical (accesses : List Access) :
    (∀ name, (after accesses).slot? name = contents accesses name) ∧
    (∃ names : List String, names.Nodup ∧ names.Perm (declaredFrom ∅ accesses) ∧
      (names.Pairwise fun first second =>
        Text.Precedes (first.toList.map Char.toNat) (second.toList.map Char.toNat)) ∧
      (after accesses).render =
        "\x7b" ++ ", ".intercalate (names.map (slotText (contents accesses))) ++ "\x7d") ∧
    (after accesses).size = (declaredFrom ∅ accesses).length ∧
    ∀ others, (after others = after accesses ↔ contents others = contents accesses) ∧
      (contents others = contents accesses →
        (after others).render = (after accesses).render) := by
  refine ⟨fun name => congrFun (slot?_after accesses) name, ?_, ?_, ?_⟩
  · refine ⟨(after accesses).names, nodup_names _, perm_names accesses, pairwise_names _, ?_⟩
    rw [← slot?_after]
    exact render_eq _
  · calc (after accesses).size
        = (after accesses).names.length := (List.length_map _).symm
      _ = (declaredFrom ∅ accesses).length := (perm_names accesses).length_eq
  · intro others
    refine ⟨after_eq_iff, fun h => ?_⟩
    rw [after_eq_iff.2 h]

/-- Declares two names in the order opposite to that of their codes. -/
def backwards : List Access :=
  [.declare "b", .declare "", .store "" (some (.str "hi there"))]

/-- Comes to the same map in the other order, with accesses that fail and a value that is lost. -/
def forwards : List Access :=
  [.store "b" (some .nil), .declare "", .store "" (some (.str "hi there")), .declare "b",
    .declare "", .store "b" (some (.int 1)), .store "b" none]

/-- The empty name is listed before the name that was declared first, and the failed accesses
cannot be seen. -/
theorem frames_are_canonical_forwards :
    after forwards = after backwards ∧
    (after forwards).render = "\x7b: string@hi\\032there, b: <uninitialized>\x7d" ∧
    (after forwards).size = 2 := by
  obtain ⟨-, -, hsize, -⟩ := frames_are_canonical forwards
  obtain ⟨-, -, -, hothers⟩ := frames_are_canonical backwards
  have hcontents : contents forwards = contents backwards := by
    funext name
    by_cases hempty : name = "" <;> by_cases hb : name = "b" <;>
      simp [contents, forwards, backwards, Access.apply, hempty, hb]
  refine ⟨(hothers forwards).1.2 hcontents, ?_, hsize.trans (by decide)⟩
  rw [(hothers forwards).2 hcontents]
  decide

end IppCode.Frame
