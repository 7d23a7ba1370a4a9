import RestGraph.Proofs.Graph.Ending
import RestGraph.Proofs.Schema.Attained

/-!
# Every call ends

A client may also graft fragments of its own anywhere into the graph. Wherever it has come to, no
single step on the graph gives up for want of depth: it answers or fails for a reason.
-/

namespace RestGraph

variable {d : Document} {ptrs : List String} {bound k n : Nat} {since : Option Nat} {r s t : Run}
  {p i c : Nat} {schema : Json}

namespace Build

/-! ## Merging -/

theorem lasts_mergeBranch {filtering : Bool} {m : Merged} (bounded : r.Bounded d ptrs bound since) :
    Lasts (mergeBranch d filtering m i) r := by
  unfold mergeBranch
  split
  · exact .pure _
  · refine (lasts_visit bounded).bind fun _ => lasts_node.bind fun _ => ?_
    dsimp only
    split
    · refine (Lasts.modify _).bind fun _ => Lasts.get.bind fun _ => ?_
      split <;> exact .pure _
    · refine Lasts.get.bind fun _ => ?_
      split <;> exact .pure _

theorem mergeBranch_proceeds {filtering : Bool} {m : Merged}
    (bounded : r.Bounded d ptrs bound since) :
    Along (Run.Proceeds d ptrs bound since) (mergeBranch d filtering m i) r :=
  (coming_mergeBranch (S := Run.bounds d ptrs bound since) bounded).along bounded

/-- The nodes of a level have less room left than the number. -/
def Fits (ptrs : List String) (bound k n : Nat) (g : Graph) (level : List Nat) : Prop :=
  ∀ i ∈ level, i < g.size ∧ (k ≤ i → (g.node i).isProperty = false) ∧ g.room ptrs bound k i < n

theorem Fits.next {level : List Nat} (fits : Fits ptrs bound k n r.graph level)
    (next : Run.Proceeds d ptrs bound since r s) : Fits ptrs bound k n s.graph level := by
  intro i mem
  obtain ⟨inside, plain, less⟩ := fits i mem
  refine ⟨inside.trans_le next.grown.size_le, fun le => ?_, ?_⟩
  · exact (next.grown.keeps inside).kind.isProperty.trans (plain le)
  · rwa [Run.Bounded.room_eq next inside plain]

theorem fits_of_mergeBranch {filtering : Bool} {m m' : Merged} {below : List Nat}
    (bounded : r.Bounded d ptrs bound (some k)) (fits : Fits ptrs bound k (n + 1) r.graph [i])
    (h : Ends (mergeBranch d filtering m i) r (m', below) s) :
    Fits ptrs bound k n s.graph below := by
  have next := (mergeBranch_proceeds bounded).ends h
  obtain ⟨-, plain, less⟩ := fits.next next i List.mem_cons_self
  intro c mem
  obtain ⟨-, -, rfl, -⟩ | ⟨-, v, -, -, rfl, -⟩ := mergeBranch_cases h
  · cases mem
  obtain ⟨expands, child⟩ := Graph.edge_of_mem_branchesOn mem
  have other : (s.graph.node i).kind.tag ≠ .object := fun is => by
    cases kind : (s.graph.node i).kind <;> rw [kind] at is expands <;>
      first | exact Tag.noConfusion is | exact Bool.noConfusion expands
  obtain ⟨plainChild, lower⟩ := (next.bounded bounded).room_lt child other plain
  exact ⟨((next.bounded bounded).below child).2, plainChild, by omega⟩

/-- The branches below a level need less depth. -/
theorem fits_of_mergeLevel {filtering : Bool} {m m' : Merged} {level below : List Nat}
    (bounded : r.Bounded d ptrs bound (some k)) (fits : Fits ptrs bound k (n + 1) r.graph level)
    (h : Ends (mergeLevel d filtering m level) r (m', below) s) :
    Fits ptrs bound k n s.graph below := by
  induction level generalizing m m' r below with
  | nil =>
    obtain ⟨-, rfl, -⟩ := mergeLevel_nil h
    exact fun _ none => absurd none List.not_mem_nil
  | cons i rest ih =>
    obtain ⟨m₁, t, below₁, below₂, first, second, rfl⟩ := mergeLevel_cons h
    have next := (mergeBranch_proceeds bounded).ends first
    have later := (coming_mergeLevel (S := Run.bounds d ptrs bound (some k))
      (next.bounded bounded)).ends second
    have fits₁ := fits_of_mergeBranch bounded
      (fun j mem => fits j (List.mem_singleton.mp mem ▸ List.mem_cons_self)) first
    have fits₂ := ih (next.bounded bounded)
      (Fits.next (fun j mem => fits j (List.mem_cons_of_mem i mem)) next) second
    intro c mem
    rcases List.mem_append.mp mem with mem | mem
    · exact fits₁.next later c mem
    · exact fits₂ c mem

theorem lasts_mergeLevel {filtering : Bool} {m : Merged} {level : List Nat}
    (bounded : r.Bounded d ptrs bound since) : Lasts (mergeLevel d filtering m level) r := by
  induction level generalizing m r with
  | nil => exact .pure _
  | cons i rest ih =>
    refine (lasts_mergeBranch bounded).bind fun h => ?_
    exact (ih (((mergeBranch_proceeds bounded).ends h).bounded bounded)).bind fun _ => .pure _

theorem lasts_mergeLevels {filtering : Bool} {depth : Nat} {m : Merged} {level : List Nat}
    (bounded : r.Bounded d ptrs bound (some k)) (fits : Fits ptrs bound k depth r.graph level) :
    Lasts (mergeLevels d filtering depth m level) r := by
  induction depth generalizing m level r with
  | zero =>
    cases level with
    | nil => exact .pure _
    | cons i rest => exact absurd (fits i List.mem_cons_self).2.2 (Nat.not_lt_zero _)
  | succ depth ih =>
    cases level with
    | nil => exact .pure _
    | cons i rest =>
      refine (lasts_mergeLevel bounded).bind fun {_ s} h => ?_
      have next : Run.Proceeds d ptrs bound (some k) r s :=
        (coming_mergeLevel (S := Run.bounds d ptrs bound (some k)) bounded).ends h
      exact ih (next.bounded bounded) (fits_of_mergeLevel bounded fits h)

/-- **A composition is consolidated to the end.** -/
theorem lasts_consolidate (bounded : r.Bounded d ptrs bound since) :
    Lasts (consolidate d i) r := by
  unfold consolidate isFiltering
  refine lasts_node.bind fun h => ?_
  obtain ⟨rfl, rfl⟩ := ends_node.mp h
  split
  · exact Lasts.get.bind fun _ => .pure _
  · refine (lasts_visit bounded).bind fun {_ s} h => lasts_modifyNode.bind fun {_ t} h' => ?_
    have next := (visit_proceeds bounded).ends h
    have marked : Run.Proceeds d ptrs bound since s t := markConsolidated_proceeds.ends h'
    have bounded' := marked.bounded (next.bounded bounded)
    refine (Lasts.get.bind fun _ => .pure _).bind fun h => Lasts.get.bind fun h' => ?_
    simp only [Ends.bind_iff, Ends.get_iff, Ends.pure_iff] at h
    obtain ⟨_, _, ⟨rfl, rfl⟩, rfl, rfl⟩ := h
    obtain ⟨rfl, rfl⟩ := Ends.get_iff.mp h'
    refine (lasts_mergeLevels bounded'.restart fun c mem => ?_).bind fun _ =>
      lasts_modifyNode.bind fun _ => (Lasts.modify _).bind fun _ => .pure _
    have inside := (bounded'.below (List.mem_filter.mp mem).1).2
    exact ⟨inside, fun le => absurd inside (Nat.not_lt.mpr le), bounded'.room_lt_reach c⟩

/-! ## Grafts -/

end Build

/-- A fragment that is grafted widens the bounds. -/
theorem Run.Bounded.widen (bounded : r.Bounded d ptrs bound since) (schema : Json) :
    (r.widen schema).Bounded d (ptrs ++ schema.pointers) (bound + schema.size) none := by
  have wider : ∀ {j : Json} {b : Nat}, j.Fits ptrs b →
      j.Fits (ptrs ++ schema.pointers) (b + schema.size) := fun fits =>
    ⟨fits.size.trans (Nat.le_add_right _ _), Json.everywhere_isKnown.mpr
      (List.Subset.trans fits.pointers (List.subset_append_left _ _))⟩
  have room := bounded.room
  have known := bounded.known
  have count := schema.length_pointers_le
  exact
    { root := wider bounded.root
      room := by
        change r.extent + schema.size + _ = _
        omega
      known := by
        change _ ≤ r.extent + schema.size
        rw [List.length_append]
        omega
      began := fun _ new => by cases new
      below := bounded.below
      fits := fun i => wider (bounded.fits i)
      shared := fun i x mem => wider (bounded.shared i x mem)
      shaped := bounded.shaped
      owned := fun _ _ new => by cases new
      early := fun _ _ new => by cases new
      less := fun _ _ new => by cases new }

/-- Bounds can be widened to fit any schema. -/
theorem Json.fits_widen (ptrs : List String) (bound : Nat) (schema : Json) :
    schema.Fits (ptrs ++ schema.pointers) (bound + schema.size) :=
  ⟨Nat.le_add_left _ _, Json.everywhere_isKnown.mpr (List.subset_append_right _ _)⟩

namespace Build

/-- To widen the bounds of a run never fails. -/
theorem ends_widen (r : Run) (schema : Json) :
    Ends (modify (Run.widen schema) : Build PUnit) r ⟨⟩ (r.widen schema) := Ends.modify_iff.mpr rfl

/-- A graft of a schema keeps a run within wider bounds. -/
theorem graftSchema_bounded (bounded : r.Bounded d ptrs bound since) (inside : p < r.graph.size) :
    ((graftSchema p schema).run r).2.Bounded d (ptrs ++ schema.pointers) (bound + schema.size)
      none := by
  have wide := bounded.widen schema
  have suits : r.graph.Suits (ptrs ++ schema.pointers) (bound + schema.size) none p schema :=
    ⟨inside, schema.fits_widen ptrs bound, fun k new => absurd new (Option.not_mem_none k),
      fun k new => absurd new (Option.not_mem_none k)⟩
  have along : Along (Run.Proceeds d (ptrs ++ schema.pointers) (bound + schema.size) none)
      (fromSchema p schema) (r.widen schema) := fromSchema_proceeds wide suits
  rw [graftSchema, Ends.run_bind_of_ends (ends_widen r schema)]
  exact Run.Proceeds.bounded along wide

/-- A graft of a property keeps a run within wider bounds. -/
theorem graftProp_bounded {name : String} {required : Bool} (bounded : r.Bounded d ptrs bound since)
    (inside : p < r.graph.size) :
    ((graftProp d p name schema required).run r).2.Bounded d (ptrs ++ schema.pointers)
      (bound + schema.size) none := by
  have wide := bounded.widen schema
  have along : Along (Run.Proceeds d (ptrs ++ schema.pointers) (bound + schema.size) none)
      (fromProp d p name schema required) (r.widen schema) :=
    fromProp_proceeds wide inside (fun k new => absurd new (Option.not_mem_none k))
      (fun k new => absurd new (Option.not_mem_none k)) (schema.fits_widen ptrs bound)
  rw [graftProp, Ends.run_bind_of_ends (ends_widen r schema)]
  exact Run.Proceeds.bounded along wide

end Build

namespace Run

/-- The runs that calls and grafts lead to. -/
inductive Touched (d : Document) : Run → Prop
  | start : Touched d (.ofDocument d)
  | call {r : Run} (c : Call) (before : Touched d r) : Touched d (c.after d r)
  | graftSchema {r : Run} {parent : Nat} (schema : Json) (inside : parent < r.graph.size)
    (before : Touched d r) : Touched d ((Build.graftSchema parent schema).run r).2
  | graftProp {r : Run} {owner : Nat} (name : String) (schema : Json) (required : Bool)
    (inside : owner < r.graph.size) (before : Touched d r) :
    Touched d ((Build.graftProp d owner name schema required).run r).2

/-- The first graph holds operations of the description. -/
theorem ofDocument_bounded (d : Document) : (Run.ofDocument d).Bounded d d.root.pointers
    (d.root.size + syntheticSchema.size) none := by
  have root : d.root.Fits d.root.pointers d.root.size :=
    ⟨Nat.le_refl _, Json.everywhere_isKnown.mpr (List.Subset.refl _)⟩
  have fits : ∀ {j : Json}, j.Within d.root →
      j.Fits d.root.pointers (d.root.size + syntheticSchema.size) := fun inside =>
    ⟨inside.size_le.trans (Nat.le_add_right _ _), (root.inside inside).known⟩
  have childless : ∀ i c, c ∉ ((Graph.ofDocument d).node i).children := fun i c child => by
    rw [Graph.children_ofDocument] at child
    cases child
  constructor
  case root => exact root
  case room =>
    rfl
  case known => exact d.root.length_pointers_le
  case began => exact fun k new => absurd new (Option.not_mem_none k)
  case below => exact fun child => absurd child (childless _ _)
  case fits =>
    intro i
    rcases Graph.ofDocument_lists d i with nowhere | lists
    · have same : ((Run.ofDocument d).graph.node i).schema = .null := congrArg Node.schema nowhere
      rw [same]
      exact ⟨Nat.le_add_left_of_le (by decide), rfl⟩
    · exact fits lists.schema
  case shared =>
    intro i x mem
    rcases Graph.ofDocument_lists d i with nowhere | lists
    · have same : ((Run.ofDocument d).graph.node i).kind = .array := congrArg Node.kind nowhere
      rw [same] at mem
      cases mem
    · exact fits (lists.shared x mem)
  case shaped =>
    intro i composition
    rcases Graph.ofDocument_lists d i with nowhere | lists
    · have same : ((Run.ofDocument d).graph.node i).kind = .array := congrArg Node.kind nowhere
      rw [same] at composition
      cases composition
    · have tag : ((Run.ofDocument d).graph.node i).kind.tag = .operation := lists.tag
      cases kind : ((Run.ofDocument d).graph.node i).kind <;> rw [kind] at tag composition <;>
        first | exact Tag.noConfusion tag | exact Bool.noConfusion composition
  case owned => exact fun child => absurd child (childless _ _)
  case early => exact fun child => absurd child (childless _ _)
  case less => exact fun child => absurd child (childless _ _)

/-- A run that was touched is within some bounds. -/
theorem Touched.bounded (touched : r.Touched d) :
    ∃ ptrs bound, r.Bounded d ptrs bound none := by
  induction touched with
  | start => exact ⟨_, _, ofDocument_bounded d⟩
  | call c _ ih =>
    obtain ⟨ptrs, bound, bounded⟩ := ih
    exact ⟨ptrs, bound, Proceeds.bounded
      (c.after_along (S := Run.bounding d ptrs bound none) bounded) bounded⟩
  | graftSchema schema inside _ ih =>
    obtain ⟨ptrs, bound, bounded⟩ := ih
    exact ⟨_, _, Build.graftSchema_bounded bounded inside⟩
  | graftProp name schema required inside _ ih =>
    obtain ⟨ptrs, bound, bounded⟩ := ih
    exact ⟨_, _, Build.graftProp_bounded bounded inside⟩

/-- Every step on the graph comes to an answer or fails for a reason. -/
structure Responds (d : Document) (r : Run) : Prop where
  visit : ∀ i, Lasts (Build.visit d i) r
  expand : ∀ i, Lasts (Build.childrenOf d i) r
  fromSchema : ∀ parent schema, Lasts (Build.graftSchema parent schema) r
  fromProp : ∀ owner name schema required, Lasts (Build.graftProp d owner name schema required) r
  resolveTarget : ∀ i, Lasts (Build.resolveTarget d i) r
  resolve : ∀ path, Lasts (Build.resolve d path) r
  consolidate : ∀ i, Lasts (Build.consolidate d i) r

/-- Whatever references the description and the grafts hold. -/
theorem Touched.responds (touched : r.Touched d) : r.Responds d := by
  obtain ⟨ptrs, bound, bounded⟩ := touched.bounded
  constructor
  · exact fun i => Build.lasts_visit bounded
  · exact fun i => Build.lasts_childrenOf bounded
  · exact fun parent schema => (Lasts.modify _).bind fun _ => Build.lasts_fromSchema
  · intro owner name schema required
    refine (Lasts.modify _).bind fun h => ?_
    obtain rfl := Ends.modify_iff.mp h
    exact Build.lasts_fromProp (bounded.widen schema) (schema.fits_widen ptrs bound)
  · exact fun i => Build.lasts_resolveTarget bounded
  · exact fun path => Build.lasts_resolve bounded
  · exact fun i => Build.lasts_consolidate bounded

end Run

/-- Components that lead back to themselves: at once, through their elements, through a branch. -/
def Document.looping : Document :=
  .answer (.refSchema "Loop") [("Loop", .refSchema "Loop"),
    ("Rows", .arraySchema (.refSchema "Rows")), ("Base", .allOfSchema [.refSchema "Base"])]

/-- A visit, a fragment and a property that are grafted, and a call that fails. -/
theorem looping_responds : ∃ r : Run, r.Touched .looping ∧ r.graph.size = 10 ∧
    r.Responds .looping := by
  have visited : Run.Touched .looping _ := .call (.visit 0) .start
  have first := visited.graftSchema (.refSchema "Base") (show 0 < _ by decide +kernel)
  have second := first.graftProp "rows" (.refSchema "Rows") true (show 0 < _ by decide +kernel)
  have last := (second.call (.visit 4)).call (.resolve ⟨["get:/a", "res:404"], none⟩)
  exact ⟨_, last, by decide +kernel, last.responds⟩

end RestGraph
