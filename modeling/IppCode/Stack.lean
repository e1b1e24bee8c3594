/-!
# Stacks

A stack of items, shown from the bottom to the top.
-/

namespace IppCode

/-- A stack, its items from the top down. -/
structure Stack (α : Type) where
  items : List α := []
  deriving DecidableEq

namespace Stack

variable {α : Type}

instance : EmptyCollection (Stack α) := ⟨⟨[]⟩⟩

instance : Inhabited (Stack α) := ⟨∅⟩

/-- The stack with an item put on top. -/
def push (s : Stack α) (a : α) : Stack α :=
  ⟨a :: s.items⟩

/-- The top item and the stack below it. -/
def pop? (s : Stack α) : Option (α × Stack α) :=
  match s.items with
  | [] => none
  | a :: below => some (a, ⟨below⟩)

/-- Takes the top item away, if there is one. -/
def pop : StateM (Stack α) (Option α) := fun s =>
  match s.pop? with
  | none => (none, s)
  | some (a, below) => (some a, below)

/-- The top item. -/
def top? (s : Stack α) : Option α :=
  s.items.head?

/-- The stack with its top item replaced. -/
def setTop? (s : Stack α) (a : α) : Option (Stack α) :=
  match s.items with
  | [] => none
  | _ :: below => some ⟨a :: below⟩

/-- The number of items. -/
def size (s : Stack α) : Nat :=
  s.items.length

/-- Whether there are no items. -/
def isEmpty (s : Stack α) : Bool :=
  s.items.isEmpty

/-- The items from the bottom up. -/
def toList (s : Stack α) : List α :=
  s.items.reverse

/-- The items from the bottom up, between brackets and divided by commas. -/
def render (item : α → String) (s : Stack α) : String :=
  "[" ++ ", ".intercalate (s.toList.map item) ++ "]"

@[simp] theorem toList_push (s : Stack α) (a : α) : (s.push a).toList = s.toList ++ [a] := by
  simp [push, toList]

@[simp] theorem pop?_push (s : Stack α) (a : α) : (s.push a).pop? = some (a, s) := rfl

theorem pop?_eq_some_iff {s below : Stack α} {a : α} :
    s.pop? = some (a, below) ↔ s.items = a :: below.items := by
  obtain ⟨items⟩ := s
  obtain ⟨rest⟩ := below
  cases items <;> simp [pop?]

@[simp] theorem top?_push (s : Stack α) (a : α) : (s.push a).top? = some a := rfl

end Stack

end IppCode
