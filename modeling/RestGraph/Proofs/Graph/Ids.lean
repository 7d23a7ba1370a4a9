import Mathlib.Data.List.Basic
import Mathlib.Data.List.Infix
import RestGraph.Graph.Node
import RestGraph.Proofs.Naming.Letters

/-!
# Ids

An id is a label, a colon and a discriminant. Only labels of properties hold a colon themselves, so
an id says which label and which discriminant it was put together from.
-/

namespace RestGraph

/-! ## Cuts -/

variable {s xs ys xs' ys' : List Char} {x : Char}

/-- A text ends as the part behind some character does, if the end is without that character. -/
theorem suffix_of_append_cons (absent : x ∉ s) (suffix : s <:+ xs ++ x :: ys) : s <:+ ys := by
  rcases List.suffix_or_suffix_of_suffix suffix (List.suffix_append xs (x :: ys)) with inner | outer
  · rcases List.suffix_cons_iff.mp inner with rfl | inner
    · exact absurd List.mem_cons_self absent
    · exact inner
  · exact absurd (outer.subset List.mem_cons_self) absent

/-- What stands behind the last occurrence of a character. -/
theorem eq_of_append_cons (absent : x ∉ ys) (absent' : x ∉ ys')
    (same : xs ++ x :: ys = xs' ++ x :: ys') : ys = ys' := by
  have back : ∀ (xs ys : List Char), ys <:+ xs ++ x :: ys := fun xs ys =>
    (List.suffix_cons x ys).trans (List.suffix_append xs _)
  have inner := suffix_of_append_cons absent (same ▸ back xs ys)
  have outer := suffix_of_append_cons absent' (same ▸ back xs' ys')
  exact inner.eq_of_length_le outer.length_le

/-- What stands before the first occurrence of a character, and what stands behind. -/
theorem both_eq_of_append_cons (absent : x ∉ xs) (absent' : x ∉ xs')
    (same : xs ++ x :: ys = xs' ++ x :: ys') : xs = xs' ∧ ys = ys' := by
  have flip := congrArg List.reverse same
  simp only [List.reverse_append, List.reverse_cons, List.append_assoc,
    List.singleton_append] at flip
  have front := eq_of_append_cons (List.mem_reverse.not.mpr absent)
    (List.mem_reverse.not.mpr absent') flip
  have front := List.reverse_injective front
  rw [front] at same
  exact ⟨front, (List.cons.inj (List.append_cancel_left same)).2⟩

/-! ## Labels -/

namespace Kind

variable {k k' : Kind} {a b : String}

def labels : List String :=
  ["scalar", "enum", "obj", "array", "ref", "comp", "union", "circular", "get", "post", "put",
    "patch", "delete", "param", "body", "res"]

theorem label_mem (plain : k.isProperty = false) : k.label ∈ labels := by
  cases k with
  | operation method => cases method <;> simp [label, labels, Method.key]
  | property shape => cases plain
  | _ => simp [label, labels]

def propWords : List String := ["scalar", "obj", "array", "enum", "comp", "circ"]

theorem label_property (shape : PropShape) :
    ∃ word ∈ propWords, shape.label = "prop:" ++ word := by
  cases shape with
  | scalar => exact ⟨"scalar", by decide, rfl⟩
  | object => exact ⟨"obj", by decide, rfl⟩
  | array => exact ⟨"array", by decide, rfl⟩
  | enum => exact ⟨"enum", by decide, rfl⟩
  | composed => exact ⟨"comp", by decide, rfl⟩
  | circular => exact ⟨"circ", by decide, rfl⟩

@[simp]
theorem toList_idOf (k : Kind) (a : String) :
    (idOf k a).toList = k.label.toList ++ ':' :: a.toList := by
  simp [idOf, String.toList_append]

theorem eq_property_of_isProperty (prop : k.isProperty = true) :
    ∃ shape required, k = .property shape required := by
  cases k with
  | property shape required => exact ⟨shape, required, rfl⟩
  | _ => cases prop

/-- An id tells the label and what tells apart. -/
theorem idOf_inj (plain : k.isProperty = false) (plain' : k'.isProperty = false)
    (same : idOf k a = idOf k' b) : k.label = k'.label ∧ a = b := by
  have noColon : ∀ l ∈ labels, ':' ∉ l.toList := by decide
  have cut := congrArg String.toList same
  rw [toList_idOf, toList_idOf] at cut
  obtain ⟨label, rest⟩ := both_eq_of_append_cons (noColon _ (label_mem plain))
    (noColon _ (label_mem plain')) cut
  exact ⟨String.toList_inj.mp label, String.toList_inj.mp rest⟩

/-- No id of a property is one of another node. -/
theorem idOf_ne_of_isProperty (plain : k.isProperty = false) (prop : k'.isProperty = true) :
    idOf k a ≠ idOf k' b := by
  intro same
  obtain ⟨shape, required, rfl⟩ := eq_property_of_isProperty prop
  obtain ⟨word, -, label⟩ := label_property shape
  have noColon : ∀ l ∈ labels, ':' ∉ l.toList := by decide
  have cut := congrArg String.toList same
  rw [toList_idOf, toList_idOf, show (property shape required).label = "prop:" ++ word from label,
    String.toList_append, show "prop:".toList = "prop".toList ++ [':'] by decide,
    List.append_assoc, List.append_assoc, List.singleton_append] at cut
  have front := (both_eq_of_append_cons (noColon _ (label_mem plain)) (by decide) cut).1
  have mem := label_mem plain
  rw [String.toList_inj.mp front] at mem
  revert mem
  decide

/-- The id of a property tells what tells it apart. -/
theorem idOf_property_inj {shape shape' : PropShape} {required required' : Bool}
    (same : idOf (.property shape required) a = idOf (.property shape' required') b) : a = b := by
  have noColon : ∀ w ∈ propWords, ':' ∉ w.toList := by decide
  obtain ⟨word, mem, label⟩ := label_property shape
  obtain ⟨word', mem', label'⟩ := label_property shape'
  have cut := congrArg String.toList same
  rw [toList_idOf, toList_idOf, Kind.label, Kind.label, label, label', String.toList_append,
    String.toList_append, List.append_assoc, List.append_assoc, List.append_cancel_left_eq] at cut
  exact String.toList_inj.mp (both_eq_of_append_cons (noColon _ mem) (noColon _ mem') cut).2

end Kind

/-- The numbers of branches tell their discriminants apart. -/
theorem numbered_discriminant_inj {scope scope' : String} {j k : Nat}
    (same : "[" ++ (scope ++ "#" ++ toString j) ++ "]" =
      "[" ++ (scope' ++ "#" ++ toString k) ++ "]") : j = k := by
  have digits : ∀ n : Nat, '#' ∉ (toString n).toList ++ [']'] := fun n mem => by
    rcases List.mem_append.mp mem with mem | mem
    · exact absurd (Naming.isNameChar_toString mem) (by decide)
    · exact absurd mem (by decide)
  have cut := congrArg String.toList same
  have spread : ∀ (scope : String) (n : Nat), ("[" ++ (scope ++ "#" ++ toString n) ++ "]").toList =
      ('[' :: scope.toList) ++ '#' :: ((toString n).toList ++ [']']) := fun scope n => by
    simp [String.toList_append]
  rw [spread, spread] at cut
  have back := eq_of_append_cons (digits j) (digits k) cut
  exact Naming.toString_inj (String.toList_inj.mp (List.append_cancel_right back))

end RestGraph
