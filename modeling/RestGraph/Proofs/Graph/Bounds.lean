import RestGraph.Proofs.Graph.Drawn
import RestGraph.Proofs.Graph.Visiting
import RestGraph.Proofs.Graph.Weights
import RestGraph.Proofs.Run.Outcomes

/-!
# Bounds

What every step keeps from wherever it starts, also where a client has grafted fragments that the
description does not hold. Fragments stay within a bound and their references within a list; and
among the nodes that are new since some point, each needs less depth than the node above it.
-/

namespace RestGraph

variable {d : Document} {ptrs : List String} {bound : Nat} {since : Option Nat} {r s t : Run}
  {p i : Nat} {j x : Json}

namespace Json

/-- A text that is made up passes for a known pointer. -/
theorem passesMade_isKnown (ptrs : List String) : PassesMade (isKnown ptrs) where
  response := rfl
  param := rfl
  keyword := rfl
  branch _ keys := by
    rw [isKnown, ref?, textAt?, get?_of_madeKeys keys (by decide)]
    rfl

/-- The fragment is no larger than the bound, and its references are among those given. -/
structure Fits (ptrs : List String) (bound : Nat) (j : Json) : Prop where
  size : j.size ≤ bound
  known : j.everywhere (isKnown ptrs) = true

theorem Fits.inside (fits : j.Fits ptrs bound) (inside : x.Within j) : x.Fits ptrs bound :=
  ⟨inside.size_le.trans fits.size, everywhere_within fits.known inside⟩

/-- The pointers of a fragment that fits are the known ones. -/
theorem Fits.pointers (fits : j.Fits ptrs bound) : j.pointers ⊆ ptrs :=
  everywhere_isKnown.mp fits.known

end Json

theorem Kind.Turns.isOwner {k k' : Kind} (turns : k.Turns k') : k'.isOwner = k.isOwner := by
  rcases turns with rfl | ⟨shape, _, rfl, wraps, rfl⟩
  · rfl
  · cases shape <;> first | rfl | cases wraps

theorem Kind.Turns.shared {k k' : Kind} (turns : k.Turns k') : k'.shared = k.shared := by
  rcases turns with rfl | ⟨_, _, rfl, _, rfl⟩ <;> rfl

/-- The graph of a run within bounds. Nodes may be watched since the graph had some size: no node
that is new since then leads on without end. -/
structure Run.Bounded (d : Document) (ptrs : List String) (bound : Nat) (since : Option Nat)
    (r : Run) : Prop where
  root : d.root.Fits ptrs r.extent
  room : r.extent + syntheticSchema.size = bound
  known : ptrs.length ≤ r.extent
  began : ∀ k ∈ since, k ≤ r.graph.size
  below : ∀ {i c}, c ∈ (r.graph.node i).children → i < c ∧ c < r.graph.size
  fits : ∀ i, (r.graph.node i).schema.Fits ptrs bound
  shared : ∀ i, ∀ x ∈ (r.graph.node i).kind.shared, x.Fits ptrs bound
  shaped : ∀ {i}, (r.graph.node i).kind.isComposition = true →
    Build.kindOfShape? (Shape.ofSchema (r.graph.node i).schema) = some (r.graph.node i).kind
  /-- New properties stand below objects and arrays. -/
  owned : ∀ {i c}, c ∈ (r.graph.node i).children → ∀ k ∈ since, k ≤ c →
    (r.graph.node c).isProperty = true → (r.graph.node i).kind.isOwner = true
  /-- What was made with its children has got no others. -/
  early : ∀ {i c}, c ∈ (r.graph.node i).children → ∀ k ∈ since, k ≤ c →
    (r.graph.node i).kind.isEager = true → k ≤ i
  less : ∀ {i c}, c ∈ (r.graph.node i).children → ∀ k ∈ since, k ≤ i →
    (r.graph.node i).isProperty = false → (r.graph.node c).isProperty = false →
    (r.graph.node c).need ptrs bound < (r.graph.node i).need ptrs bound

/-- What is asked of a node that is attached. -/
structure Graph.Takes (ptrs : List String) (bound : Nat) (since : Option Nat) (g : Graph) (p : Nat)
    (s : Seed) : Prop where
  inside : p < g.size
  fits : s.schema.Fits ptrs bound
  shared : s.kind.shared = []
  shaped : s.kind.isComposition = true →
    Build.kindOfShape? (Shape.ofSchema s.schema) = some s.kind
  owned : ∀ k ∈ since, s.kind.isProperty = true → (g.node p).kind.isOwner = true
  early : ∀ k ∈ since, (g.node p).kind.isEager = true → k ≤ p
  less : ∀ k ∈ since, k ≤ p → (g.node p).isProperty = false → s.kind.isProperty = false →
    (g.sprout (some p) s).need ptrs bound < (g.node p).need ptrs bound

/-- What is asked of a fragment for which a node is made. -/
structure Graph.Suits (ptrs : List String) (bound : Nat) (since : Option Nat) (g : Graph) (p : Nat)
    (schema : Json) : Prop where
  inside : p < g.size
  fits : schema.Fits ptrs bound
  early : ∀ k ∈ since, (g.node p).kind.isEager = true → k ≤ p
  light : ∀ k ∈ since, k ≤ p → (g.node p).isProperty = false →
    2 * schema.size < (g.node p).kind.weight bound (g.node p).schema.size 0

namespace Run.Bounded

theorem of_same (bounded : r.Bounded d ptrs bound since) (graph : s.graph = r.graph)
    (extent : s.extent = r.extent) : s.Bounded d ptrs bound since := by
  obtain ⟨root, room, known, began, below, fits, shared, shaped, owned, early, less⟩ := bounded
  constructor <;> simpa only [graph, extent]

/-- From here on nodes are new. -/
theorem restart (bounded : r.Bounded d ptrs bound since) :
    r.Bounded d ptrs bound (some r.graph.size) :=
  { bounded with
    began := fun k new => Nat.le_of_eq (Option.mem_some.mp new).symm
    owned := fun child k new le => by
      obtain rfl := Option.mem_some.mp new
      exact absurd (bounded.below child).2 (Nat.not_lt.mpr le)
    early := fun child k new le => by
      obtain rfl := Option.mem_some.mp new
      exact absurd (bounded.below child).2 (Nat.not_lt.mpr le)
    less := fun child k new le => by
      obtain rfl := Option.mem_some.mp new
      exact absurd ((bounded.below child).1.trans (bounded.below child).2) (Nat.not_lt.mpr le) }

/-! ### An attached node -/

section Attach

variable {seed : Seed} {c k : Nat}

/-- The new fragment fits, and so do those that were there. -/
theorem fits_attach (bounded : r.Bounded d ptrs bound since)
    (takes : r.graph.Takes ptrs bound since p seed) (i : Nat) :
    ((r.graph.attach p seed).node i).schema.Fits ptrs bound := by
  rw [Graph.schema_attach]
  split
  · exact takes.fits
  · exact bounded.fits i

/-- What the nodes share still fits when one is attached. -/
theorem shared_attach (bounded : r.Bounded d ptrs bound since)
    (takes : r.graph.Takes ptrs bound since p seed)
    (mem : x ∈ ((r.graph.attach p seed).node i).kind.shared) : x.Fits ptrs bound := by
  rw [Graph.kind_attach] at mem
  split at mem
  · rw [takes.shared] at mem
    cases mem
  · exact bounded.shared i x mem

/-- Compositions are what their fragments make them. -/
theorem shaped_attach (bounded : r.Bounded d ptrs bound since)
    (takes : r.graph.Takes ptrs bound since p seed)
    (composition : ((r.graph.attach p seed).node i).kind.isComposition = true) :
    Build.kindOfShape? (Shape.ofSchema ((r.graph.attach p seed).node i).schema) =
      some ((r.graph.attach p seed).node i).kind := by
  rw [Graph.kind_attach] at composition ⊢
  rw [Graph.schema_attach]
  split at composition
  · next new =>
    rw [if_pos new, if_pos new]
    exact takes.shaped composition
  · next old =>
    rw [if_neg old, if_neg old]
    exact bounded.shaped composition

/-- New properties still stand below objects and arrays. -/
theorem owned_attach (bounded : r.Bounded d ptrs bound since)
    (takes : r.graph.Takes ptrs bound since p seed)
    (child : c ∈ ((r.graph.attach p seed).node i).children) (new : k ∈ since) (le : k ≤ c)
    (prop : ((r.graph.attach p seed).node c).isProperty = true) :
    ((r.graph.attach p seed).node i).kind.isOwner = true := by
  rw [Node.isProperty] at prop
  rcases Graph.child_of_attach takes.inside child with before | ⟨rfl, rfl⟩
  · rw [Graph.kind_attach_of_lt (bounded.below before).2] at prop
    rw [Graph.kind_attach_of_lt (Graph.lt_size_of_child before)]
    exact bounded.owned before k new le prop
  · rw [Graph.kind_attach_size takes.inside] at prop
    rw [Graph.kind_attach_of_lt takes.inside]
    exact takes.owned k new prop

/-- What was made with its children still gets no others. -/
theorem early_attach (bounded : r.Bounded d ptrs bound since)
    (takes : r.graph.Takes ptrs bound since p seed)
    (child : c ∈ ((r.graph.attach p seed).node i).children) (new : k ∈ since) (le : k ≤ c)
    (eager : ((r.graph.attach p seed).node i).kind.isEager = true) : k ≤ i := by
  rcases Graph.child_of_attach takes.inside child with before | ⟨rfl, rfl⟩
  · rw [Graph.kind_attach_of_lt (Graph.lt_size_of_child before)] at eager
    exact bounded.early before k new le eager
  · rw [Graph.kind_attach_of_lt takes.inside] at eager
    exact takes.early k new eager

/-- The new node needs less depth than its parent. -/
theorem less_attach (bounded : r.Bounded d ptrs bound since)
    (takes : r.graph.Takes ptrs bound since p seed)
    (child : c ∈ ((r.graph.attach p seed).node i).children) (new : k ∈ since) (le : k ≤ i)
    (plain : ((r.graph.attach p seed).node i).isProperty = false)
    (plain' : ((r.graph.attach p seed).node c).isProperty = false) :
    ((r.graph.attach p seed).node c).need ptrs bound <
      ((r.graph.attach p seed).node i).need ptrs bound := by
  have keeps : ∀ {j}, j < r.graph.size →
      (r.graph.node j).Keeps ((r.graph.attach p seed).node j) := Graph.Extends.attach.keeps
  have same : ∀ {j}, j < r.graph.size →
      ((r.graph.attach p seed).node j).isProperty = (r.graph.node j).isProperty := fun lt =>
    congrArg Kind.isProperty (Graph.kind_attach_of_lt lt)
  rcases Graph.child_of_attach takes.inside child with before | ⟨rfl, rfl⟩
  · have lt := Graph.lt_size_of_child before
    have lt' := (bounded.below before).2
    rw [same lt] at plain
    rw [same lt'] at plain'
    rw [(keeps lt).need plain, (keeps lt').need plain']
    exact bounded.less before k new le plain plain'
  · rw [same takes.inside] at plain
    rw [Graph.node_attach_size takes.inside] at plain' ⊢
    rw [(keeps takes.inside).need plain]
    exact takes.less k new le plain plain'

theorem attach (bounded : r.Bounded d ptrs bound since)
    (takes : r.graph.Takes ptrs bound since p seed) :
    (r.onGraph fun g => g.attach p seed).Bounded d ptrs bound since where
  root := bounded.root
  room := bounded.room
  known := bounded.known
  began k new := (bounded.began k new).trans Graph.Extends.attach.size_le
  below := Graph.below_attach bounded.below takes.inside
  fits := bounded.fits_attach takes
  shared _ _ := bounded.shared_attach takes
  shaped := bounded.shaped_attach takes
  owned child _ := bounded.owned_attach takes child
  early child _ := bounded.early_attach takes child
  less child _ := bounded.less_attach takes child

end Attach

/-! ### A changed node -/

theorem modify {f : Node → Node} (bounded : r.Bounded d ptrs bound since)
    (keep : (r.graph.node i).Keeps (f (r.graph.node i)))
    (children : (f (r.graph.node i)).children = (r.graph.node i).children)
    (composition : (r.graph.node i).kind.isComposition = true →
      (f (r.graph.node i)).kind = (r.graph.node i).kind) :
    (r.onGraph fun g => g.modify i f).Bounded d ptrs bound since := by
  have node : ∀ j, (r.graph.node j).Keeps ((r.graph.modify i f).node j) ∧
      ((r.graph.modify i f).node j).children = (r.graph.node j).children ∧
      ((r.graph.node j).kind.isComposition = true →
        ((r.graph.modify i f).node j).kind = (r.graph.node j).kind) := by
    intro j
    by_cases inside : i < r.graph.size
    · rw [Graph.node_modify inside]
      split
      · next same =>
        subst same
        exact ⟨keep, children, composition⟩
      · exact ⟨.refl _, rfl, fun _ => rfl⟩
    · rw [Graph.modify_of_size_le (Nat.le_of_not_lt inside)]
      exact ⟨.refl _, rfl, fun _ => rfl⟩
  have size : (r.graph.modify i f).size = r.graph.size := Graph.size_modify
  have child : ∀ {i' c : Nat}, c ∈ ((r.graph.modify i f).node i').children →
      c ∈ (r.graph.node i').children := fun {i' c} mem => (node i').2.1 ▸ mem
  have plain : ∀ {j : Nat},
      ((r.graph.modify i f).node j).isProperty = (r.graph.node j).isProperty :=
    fun {j} => (node j).1.kind.isProperty
  constructor
  case root => exact bounded.root
  case room => exact bounded.room
  case known => exact bounded.known
  case began => exact fun k new => (bounded.began k new).trans (Nat.le_of_eq size.symm)
  case below =>
    exact fun mem =>
      ⟨(bounded.below (child mem)).1, (bounded.below (child mem)).2.trans_eq size.symm⟩
  case fits => exact fun j => (node j).1.schema ▸ bounded.fits j
  case shared =>
    intro j x mem
    have mem : x ∈ ((r.graph.modify i f).node j).kind.shared := mem
    rw [(node j).1.kind.shared] at mem
    exact bounded.shared j x mem
  case shaped =>
    intro j composition
    change ((r.graph.modify i f).node j).kind.isComposition = true at composition
    change Build.kindOfShape? (Shape.ofSchema ((r.graph.modify i f).node j).schema) =
      some ((r.graph.modify i f).node j).kind
    rw [(node j).1.isComposition] at composition
    rw [(node j).2.2 composition, (node j).1.schema]
    exact bounded.shaped composition
  case owned =>
    intro j c mem k new le prop
    exact (node j).1.kind.isOwner.trans
      (bounded.owned (child mem) k new le (plain.symm.trans prop))
  case early =>
    intro j c mem k new le eager
    exact bounded.early (child mem) k new le ((node j).1.kind.isEager.symm.trans eager)
  case less =>
    intro j c mem k new le plain₁ plain₂
    have plain₁ := plain.symm.trans plain₁
    have plain₂ := plain.symm.trans plain₂
    have less := bounded.less (child mem) k new le plain₁ plain₂
    rwa [← (node j).1.need plain₁, ← (node c).1.need plain₂] at less

/-- What the description offers to a node fits. -/
theorem of_offers (bounded : r.Bounded d ptrs bound since) (offered : d.Offers (r.graph.node i) j) :
    j.Fits ptrs bound := by
  have large : r.extent ≤ bound := bounded.room ▸ Nat.le_add_right _ _
  have fits : (r.graph.node i).Passes (Json.isKnown ptrs) :=
    ⟨(bounded.fits i).known, fun x mem => (bounded.shared i x mem).known⟩
  refine ⟨?_, offered.passes (Json.passesMade_isKnown ptrs) bounded.root.known fits⟩
  obtain ⟨whole, rfl | rfl | mem | rfl, inside⟩ := offered
  · exact inside.size_le.trans (bounded.root.size.trans large)
  · exact inside.size_le.trans (bounded.fits i).size
  · exact inside.size_le.trans (bounded.shared i _ mem).size
  · exact inside.size_le.trans (bounded.room ▸ Nat.le_add_left _ _)

/-- What a component holds fits. -/
theorem of_root (bounded : r.Bounded d ptrs bound since) (inside : j.Within d.root) :
    j.Fits ptrs bound := bounded.of_offers (i := 0) (.of_root inside)

theorem of_decides (bounded : r.Bounded d ptrs bound since) (decides : d.Decides j x)
    (fits : j.Fits ptrs bound) : x.Fits ptrs bound := by
  rcases decides.eq_or_within with rfl | inside
  · exact fits
  · exact bounded.of_root inside

/-- What a node holds for its child suits it, unless the child was made with the node. -/
theorem suits_of_fragmentAt? {place : Nat} (bounded : r.Bounded d ptrs bound since)
    (inside : i < r.graph.size) (late : (r.graph.node i).kind.isEager = false)
    (here : d.fragmentAt? (r.graph.node i) place = some j) :
      r.graph.Suits ptrs bound since i j := by
  have large : r.extent ≤ bound := bounded.room ▸ Nat.le_add_right _ _
  have own := (bounded.fits i).size
  have sizes : j.size ≤ bound ∧
      2 * j.size < (r.graph.node i).kind.weight bound (r.graph.node i).schema.size 0 := by
    have kept := here
    unfold Document.fragmentAt? at here
    split at here
    case h_1 kind =>
      have := (Document.within_of_lookup? here).size_le.trans (bounded.root.size.trans large)
      rw [kind]
      simp only [Kind.weight]
      omega
    case h_2 kind =>
      have small : j.size ≤ bound := by
        rw [← Option.some.inj here]
        split
        · next got => exact (Json.size_lt_of_get? got).le.trans own
        · cases media : Media.schema? (r.graph.node i).schema with
          | none =>
            have small : defaultParamSchema.size ≤ syntheticSchema.size := by decide
            exact bounded.room ▸ Nat.le_add_left_of_le small
          | some schema => exact (Media.within_of_schema? media).size_le.trans own
      rw [kind]
      simp only [Kind.weight]
      omega
    case h_3 kind | h_4 kind =>
      cases here
      rw [kind]
      simp only [Kind.weight]
      omega
    case h_5 kind =>
      rw [kind] at late
      cases late
    case h_6 kind | h_7 kind =>
      have smaller := size_lt_of_composition (by rw [kind]; rfl)
        (bounded.shaped (by rw [kind]; rfl)) kept
      rw [kind]
      simp only [Kind.weight]
      omega
    case h_8 => cases here
  exact ⟨inside, ⟨sizes.1, Document.fragmentAt?_passes (Json.passesMade_isKnown ptrs)
    bounded.root.known (bounded.fits i).known here⟩,
    fun _ _ eager => absurd (late.symm.trans eager) Bool.noConfusion, fun _ _ _ _ => sizes.2⟩

end Run.Bounded

end RestGraph
