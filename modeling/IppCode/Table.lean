/-!
# Tables of names

A table holds at most one entry per name and keeps its entries in ascending order
of the names, so two tables with the same look-ups are equal and list their
entries alike.
-/

namespace IppCode

/-- A finite map from names, its entries in strictly ascending order. -/
structure Table (α : Type) where
  entries : List (String × α)
  ascending : entries.Pairwise fun first second => first.1 < second.1
  deriving DecidableEq

namespace Table

variable {α : Type}

/-- The table without entries. -/
def empty : Table α :=
  ⟨[], .nil⟩

instance : EmptyCollection (Table α) := ⟨empty⟩

instance : Inhabited (Table α) := ⟨empty⟩

/-- What the table holds for a name. -/
def find? (t : Table α) (name : String) : Option α :=
  t.entries.lookup name

/-- Whether the table holds something for a name. -/
def contains (t : Table α) (name : String) : Bool :=
  (t.find? name).isSome

/-- The number of entries. -/
def size (t : Table α) : Nat :=
  t.entries.length

/-- Whether there are no entries. -/
def isEmpty (t : Table α) : Bool :=
  t.entries.isEmpty

/-- Entries with one more, put where its name belongs; an entry of that name is
replaced. -/
def place (name : String) (a : α) : List (String × α) → List (String × α)
  | [] => [(name, a)]
  | entry :: rest =>
    if name < entry.1 then (name, a) :: entry :: rest
    else if name = entry.1 then (name, a) :: rest
    else entry :: place name a rest

theorem mem_place {name : String} {a : α} {entry : String × α} {entries : List (String × α)}
    (h : entry ∈ place name a entries) : entry = (name, a) ∨ entry ∈ entries := by
  induction entries with
  | nil => simpa [place] using h
  | cons first rest ih =>
    rw [place] at h
    split at h
    · simpa using h
    · split at h
      · rcases List.mem_cons.1 h with rfl | h
        · exact .inl rfl
        · exact .inr (List.mem_cons_of_mem _ h)
      · rcases List.mem_cons.1 h with rfl | h
        · exact .inr List.mem_cons_self
        · exact (ih h).imp_right (List.mem_cons_of_mem _)

theorem pairwise_place (name : String) (a : α) {entries : List (String × α)}
    (h : entries.Pairwise fun first second => first.1 < second.1) :
    (place name a entries).Pairwise fun first second => first.1 < second.1 := by
  induction entries with
  | nil => simp [place]
  | cons entry rest ih =>
    obtain ⟨hfirst, hrest⟩ := List.pairwise_cons.1 h
    rw [place]
    split
    · rename_i hlt
      refine List.pairwise_cons.2 ⟨fun other hother => ?_, h⟩
      rcases List.mem_cons.1 hother with rfl | hother
      · exact hlt
      · exact String.lt_trans hlt (hfirst other hother)
    · split
      · rename_i heq
        exact List.pairwise_cons.2 ⟨fun other hother => heq ▸ hfirst other hother, hrest⟩
      · rename_i hnot hne
        refine List.pairwise_cons.2 ⟨fun other hother => ?_, ih hrest⟩
        rcases mem_place hother with rfl | hother
        · refine String.not_le.1 fun hle => hne ?_
          exact String.le_antisymm hle (String.not_lt.1 hnot)
        · exact hfirst other hother

/-- The table with an entry added or replaced. -/
def insert (t : Table α) (name : String) (a : α) : Table α :=
  ⟨place name a t.entries, pairwise_place name a t.ascending⟩

/-! ## Looking up names -/

@[simp] theorem find?_empty (name : String) : (∅ : Table α).find? name = none := rfl

theorem lookup_cons_eq (name : String) (entry : String × α) (entries : List (String × α)) :
    (entry :: entries).lookup name =
      if name = entry.1 then some entry.2 else entries.lookup name := by
  rw [List.lookup_cons]
  by_cases h : name = entry.1
  · simp [h]
  · rw [if_neg h, beq_eq_false_iff_ne.2 h]

theorem lookup_place (name : String) (a : α) (entries : List (String × α)) (other : String) :
    (place name a entries).lookup other =
      if other = name then some a else entries.lookup other := by
  induction entries with
  | nil => simp [place, lookup_cons_eq]
  | cons entry rest ih =>
      rw [place]
      split
      · exact lookup_cons_eq other (name, a) (entry :: rest)
      · split
        · rename_i heq
          rw [lookup_cons_eq, lookup_cons_eq, ← heq]
          split <;> rfl
        · rename_i hne
          rw [lookup_cons_eq, lookup_cons_eq, ih]
          by_cases h : other = entry.1
          · have hother : other ≠ name := fun hname => hne (hname ▸ h)
            simp [h ▸ hother, h]
          · simp [h]

/-- An added entry is found under its name, and nothing else changes. -/
@[simp] theorem find?_insert (t : Table α) (name : String) (a : α) (other : String) :
    (t.insert name a).find? other = if other = name then some a else t.find? other :=
  lookup_place name a t.entries other

theorem lookup_eq_none_of_lt {name : String} {entries : List (String × α)}
    (h : ∀ entry ∈ entries, name < entry.1) : entries.lookup name = none := by
  induction entries with
  | nil => rfl
  | cons entry rest ih =>
      have hne : name ≠ entry.1 := fun heq =>
        String.lt_irrefl name (heq ▸ h entry List.mem_cons_self)
      rw [lookup_cons_eq, if_neg hne]
      exact ih fun other hother => h other (List.mem_cons_of_mem _ hother)

/-- The first name of ascending entries is no later than any name found in them. -/
theorem not_lt_of_lookup {entry : String × α} {rest : List (String × α)} {name : String}
    (h : (entry :: rest).Pairwise fun first second => first.1 < second.1)
    (hfound : (entry :: rest).lookup name ≠ none) : ¬ name < entry.1 := by
  intro hlt
  refine hfound (lookup_eq_none_of_lt fun other hother => ?_)
  rcases List.mem_cons.1 hother with rfl | hother
  · exact hlt
  · exact String.lt_trans hlt ((List.pairwise_cons.1 h).1 other hother)

theorem eq_of_lookup_eq {first second : List (String × α)}
    (hfirst : first.Pairwise fun earlier later => earlier.1 < later.1)
    (hsecond : second.Pairwise fun earlier later => earlier.1 < later.1)
    (h : ∀ name, first.lookup name = second.lookup name) : first = second := by
  induction first generalizing second with
  | nil =>
      cases second with
      | nil => rfl
      | cons entry rest => simpa [lookup_cons_eq] using h entry.1
  | cons entry rest ih =>
      cases second with
      | nil => simpa [lookup_cons_eq] using h entry.1
      | cons entry' rest' =>
          have hname : entry.1 = entry'.1 := by
            refine String.le_antisymm (String.not_lt.1 (not_lt_of_lookup hfirst ?_))
              (String.not_lt.1 (not_lt_of_lookup hsecond ?_))
            · simp [h, lookup_cons_eq]
            · simp [← h, lookup_cons_eq]
          have hcontent : entry.2 = entry'.2 := by
            simpa [lookup_cons_eq, hname] using h entry.1
          obtain ⟨hbelow, hrest⟩ := List.pairwise_cons.1 hfirst
          obtain ⟨hbelow', hrest'⟩ := List.pairwise_cons.1 hsecond
          have htail : rest = rest' := by
            refine ih hrest hrest' fun name => ?_
            by_cases heq : name = entry.1
            · rw [heq, lookup_eq_none_of_lt hbelow, hname, lookup_eq_none_of_lt hbelow']
            · simpa [lookup_cons_eq, heq, hname ▸ heq] using h name
          rw [Prod.ext hname hcontent, htail]

/-- Two tables in which every name is found alike are equal. -/
theorem ext_find? {t u : Table α} (h : ∀ name, t.find? name = u.find? name) : t = u := by
  obtain ⟨entries, hentries⟩ := t
  obtain ⟨entries', hentries'⟩ := u
  cases eq_of_lookup_eq hentries hentries' h
  rfl

end Table

end IppCode
