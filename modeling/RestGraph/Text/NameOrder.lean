import RestGraph.Text.Lowercase

/-!
# The order of names

Names are ordered without regard to case; names that differ in case only are ordered by code point.
-/

namespace RestGraph.Text

def compareNames (a b : String) : Ordering :=
  (compare (lowercase a).toList (lowercase b).toList).then (compare a.toList b.toList)

variable {α : Type} (name : α → String)

/-- Put an entry before the first one whose name is no less. -/
def insertByName (x : α) : List α → List α
  | [] => [x]
  | y :: ys =>
    if (compareNames (name x) (name y)).isLE then x :: y :: ys else y :: insertByName x ys

/-- A stable sort by the names of the entries. -/
def sortByName (xs : List α) : List α := xs.foldr (insertByName name) []

theorem insertByName_perm (x : α) (xs : List α) : (insertByName name x xs).Perm (x :: xs) := by
  induction xs with
  | nil => exact .refl _
  | cons y ys ih =>
    rw [insertByName]
    split
    · exact .refl _
    · exact (ih.cons y).trans (.swap x y ys)

theorem sortByName_perm (xs : List α) : (sortByName name xs).Perm xs := by
  induction xs with
  | nil => exact .refl _
  | cons x xs ih => exact (insertByName_perm name x _).trans (ih.cons x)

/-- Entries are sorted by their names alone. -/
theorem map_sortByName {β : Type} {name : α → String} {name' : β → String} {f : α → β}
    (same : ∀ x, name' (f x) = name x) (xs : List α) :
    (sortByName name xs).map f = sortByName name' (xs.map f) := by
  have insert : ∀ x ys, (insertByName name x ys).map f = insertByName name' (f x) (ys.map f) := by
    intro x ys
    induction ys with
    | nil => rfl
    | cons y ys ih =>
      rw [List.map_cons, insertByName, insertByName, same, same]
      split
      · rfl
      · rw [List.map_cons, ih]
  induction xs with
  | nil => rfl
  | cons x xs ih => exact (insert x _).trans (congrArg (insertByName name' (f x)) ih)

end RestGraph.Text
