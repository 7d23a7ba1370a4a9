import RestGraph.Proofs.Graph.Moves

/-!
# Arrays that unroll

The elements of an array property are built at once and pass through no reference node. So when the
elements of an array component lead back to it through an object or a composition, nothing on the
way up says that it was met before: it is entered again and again, below ids that grow.
-/

namespace RestGraph

/-- The fragments that stand inline right below one. -/
def inlineBelow (schema : Json) : List Json :=
  match Shape.ofSchema schema with
  | .array => (itemsOf? schema).toList
  | .object _ => (sortedProperties schema).map Prod.snd
  | .composed => branchesOf schema ["allOf"]
  | .union => branchesOf schema ["oneOf", "anyOf"]
  | .reference _ | .enum _ | .scalar _ | .unknown => []

/-- Whether the way to the fragments inside leads through an object or a composition. -/
def crosses (schema : Json) : Bool :=
  match Shape.ofSchema schema with
  | .object _ | .composed | .union => true
  | _ => false

namespace Document

variable (d : Document) {P Q : String} {j x y : Json} {crossed : Bool}

/-- Where a reference ends when all references are followed. -/
def Target (P : String) (x : Json) : Prop :=
  ∃ path fuel target, d.component P path = .ok target ∧ d.followFrom path fuel [] target = .ok x

/-- The items of the array that a reference leads to. -/
def Elements (P : String) (x : Json) : Prop :=
  ∃ array, d.Target P array ∧ Shape.ofSchema array = .array ∧ itemsOf? array = some x

/-- The fragments below the elements of an array component, through inline fragments and references
to arrays; and whether an object or a composition is crossed on the way. -/
inductive Reaches (P : String) : Bool → Json → Prop
  | start {x : Json} (elements : d.Elements P x) : Reaches P false x
  | inline {crossed : Bool} {x y : Json} (before : Reaches P crossed x)
    (below : y ∈ inlineBelow x) : Reaches P (crossed || crosses x) y
  | follow {crossed : Bool} {x y : Json} {Q : String} (before : Reaches P crossed x)
    (ref : x.ref? = some Q) (elements : d.Elements Q y) : Reaches P crossed y

/-- The elements of the array component lead back to it through an object or a composition. -/
def Unrolls (P : String) : Prop := ∃ x, d.Reaches P true x ∧ x.ref? = some P

variable {d}

theorem Decides.eq_or_target (decides : d.Decides x y) :
    x.ref? = none ∧ y = x ∨ ∃ P, x.ref? = some P ∧ d.Target P y := by
  unfold Decides at decides
  split at decides
  · next none => exact .inl ⟨none, decides⟩
  · next P ref => exact .inr ⟨P, ref, decides⟩

/-- The way goes on to the items of an array, given inline or by a reference. -/
theorem Reaches.element (before : d.Reaches P crossed x) (decides : d.Decides x j)
    (array : Shape.ofSchema j = .array) (items : itemsOf? j = some y) : d.Reaches P crossed y := by
  rcases decides.eq_or_target with ⟨-, rfl⟩ | ⟨Q, ref, target⟩
  · have below : y ∈ inlineBelow j := by
      rw [inlineBelow, array, items]
      exact List.mem_singleton_self y
    have next := before.inline below
    rwa [crosses, array, Bool.or_false] at next
  · exact before.follow ref ⟨j, target, array, items⟩

theorem Target.within (target : d.Target P x) : x.Within d.root := by
  obtain ⟨path, fuel, first, component, follow⟩ := target
  exact within_of_target component follow

/-- Whether a fragment is no array of inline elements. -/
def isFlat (j : Json) : Bool :=
  Shape.ofSchema j != .array || (itemsOf? j).all fun items => items.ref?.isSome

/-- Arrays whose elements are given by references do not unroll. -/
theorem not_unrolls_of_isFlat (flat : d.root.everywhere isFlat = true) (P : String) :
    ¬d.Unrolls P := by
  have ref : ∀ {Q x}, d.Elements Q x → x.ref?.isSome = true := by
    rintro Q x ⟨array, target, shape, items⟩
    have here := Json.everywhere_self (Json.everywhere_within flat target.within)
    rw [isFlat, shape, items] at here
    exact here
  have start : ∀ {crossed x}, d.Reaches P crossed x → crossed = false ∧ x.ref?.isSome = true := by
    intro crossed x reaches
    induction reaches with
    | start elements => exact ⟨rfl, ref elements⟩
    | @inline _ x _ _ below ih =>
      obtain ⟨Q, found⟩ := Option.isSome_iff_exists.mp ih.2
      rw [inlineBelow, Shape.ofSchema, found] at below
      cases below
    | follow _ _ elements ih => exact ⟨ih.1, ref elements⟩
  rintro ⟨x, reaches, -⟩
  exact Bool.noConfusion (start reaches).1

end Document

end RestGraph
