import RestGraph.Proofs.Schema.Declaring

/-!
# The places of declarations

Types are drafted bottom-up: what a declaration refers to is declared before it. This holds of the
fields that the node of the declaration has itself. Those that the declaration gains from other
nodes with its key may be of types that are declared after it.
-/

namespace RestGraph

def TypeDecl.side (t : TypeDecl) : Side := if t.input then .input else .output

variable {d : Document} {c : Collection} {side : Side} {i n target : Nat} {s t : Draft}

namespace Graph

variable {g h : Graph}

/-- The JSON keys for which a container declares fields itself. -/
def ownKeys (g : Graph) (c : Collection) (side : Side) (n : Nat) : List String :=
  ((g.fieldsOn c side n).filter (VisibleField.isDeclared g)).map VisibleField.jsonName

/-- The keys of a container are those of the fields that it declares. -/
theorem mem_ownKeys {key : String} : key ∈ g.ownKeys c side n ↔
    ∃ f ∈ g.fieldsOn c side n, f.isDeclared g = true ∧ f.jsonName = key := by
  simp only [ownKeys, List.mem_map, List.mem_filter, and_assoc]

theorem Explored.ownKeys (explored : g.Explored c side n) (sound : g.Sound)
    (step : g.Grows g.unvisited h) (structured : (g.node n).kind.isStructured = true) :
    h.ownKeys c side n = g.ownKeys c side n := by
  have element := elementOf_of_isStructured structured
  have settled : g.Settled n := element ▸ explored.settled _ (.here n)
  rw [Graph.ownKeys, Graph.ownKeys, settled.fieldsOn structured sound step]
  congr 1
  refine List.filter_congr fun f shown => ?_
  exact explored.isDeclared sound step (element.symm ▸ structured) (element.symm ▸ shown)

end Graph

namespace Draft

/-- At its place a declaration of an object has a field for each key of its node, of a type that is
declared before it. All its fields are of types that are declared somewhere. -/
structure Placed (s : Draft) (c : Collection) (i : Nat) (decl : TypeDecl) : Prop where
  structured : (s.run.graph.node decl.node).kind.isStructured = true
  explored : s.run.graph.Explored c decl.side decl.node
  covers : ∀ key ∈ s.run.graph.ownKeys c decl.side decl.node,
    ∃ x ∈ decl.definition.fields, x.jsonName = key
  declared : ∀ x ∈ decl.definition.fields, ∀ j, x.type.core = .named j → j < s.decls.length
  before : ∀ x ∈ decl.definition.fields, ∀ j, x.type.core = .named j →
    x.jsonName ∈ s.run.graph.ownKeys c decl.side decl.node → j < i

/-- All declarations are placed. -/
def BottomUp (s : Draft) (c : Collection) : Prop :=
  ∀ i decl, s.decls[i]? = some decl → decl.definition.isObject = true → s.Placed c i decl

/-- With no declaration yet, all are placed from the bottom up. -/
theorem BottomUp.start (r : Run) : (Draft.start r).BottomUp c := fun i decl at_ => by
  cases at_

theorem Placed.grow {decl : TypeDecl} (placed : s.Placed c i decl) (sound : s.run.graph.Sound)
    (step : s.run.graph.Grows s.run.graph.unvisited t.run.graph)
    (more : s.decls.length ≤ t.decls.length) : t.Placed c i decl where
  structured := by
    rw [step.kind placed.explored.inside]
    exact placed.structured
  explored := placed.explored.grow sound step
  covers := by
    rw [placed.explored.ownKeys sound step placed.structured]
    exact placed.covers
  declared x field j type := (placed.declared x field j type).trans_le more
  before x field j type := by
    rw [placed.explored.ownKeys sound step placed.structured]
    exact placed.before x field j type

theorem Placed.same {decl : TypeDecl} (placed : s.Placed c i decl)
    (graph : t.run.graph = s.run.graph) (more : s.decls.length ≤ t.decls.length) :
    t.Placed c i decl where
  structured := graph ▸ placed.structured
  explored := graph ▸ placed.explored
  covers := graph ▸ placed.covers
  declared x field j type := (placed.declared x field j type).trans_le more
  before := graph ▸ placed.before

/-- Steps that declare nothing leave all declarations in place. -/
theorem BottomUp.grow (bottomUp : s.BottomUp c) (sound : s.run.graph.Sound) (step : s.Grows d t)
    (decls : t.decls = s.decls) : t.BottomUp c := fun i decl at_ object => by
  rw [decls] at at_
  exact (bottomUp i decl at_ object).grow sound step.run.grows (by rw [decls])

/-- A declaration that gains fields stays where it is. -/
theorem Placed.gain {decl : TypeDecl} {own : Definition} (placed : s.Placed c i decl)
    (declared : ∀ x ∈ own.fields, ∀ j, x.type.core = .named j → j < s.decls.length) :
    s.Placed c i (decl.gain own) where
  structured := placed.structured
  explored := placed.explored
  covers key mem := by
    obtain ⟨x, field, same⟩ := placed.covers key mem
    exact ⟨x, Definition.fields_subset_merge field, same⟩
  declared x field j type := by
    rcases Definition.mem_fields_merge field with old | new
    · exact placed.declared x old j type
    · exact declared x new j type
  before x field j type mine := by
    -- a key of the node has a field already, so that no other is gained for it
    obtain ⟨y, own, same⟩ := placed.covers _ mine
    have old : x ∈ decl.definition.fields := Definition.mem_fields_of_key field own same
    exact placed.before x old j type mine

end Draft

namespace Drafting

variable {own : Definition} {ty : TypeRef}

/-- A declaration is made at the end, behind all that its fields refer to. -/
theorem declare_bottomUp (h : Ends (declare target side own) s ty t) (bottomUp : s.BottomUp c)
    (declared : ∀ x ∈ own.fields, ∀ j, x.type.core = .named j → j < s.decls.length)
    (placed : own.isObject = true → (s.run.graph.node target).kind.isStructured = true ∧
      s.run.graph.Explored c side target ∧
        ∀ key ∈ s.run.graph.ownKeys c side target, ∃ x ∈ own.fields, x.jsonName = key) :
    t.BottomUp c := by
  obtain ⟨graph, ⟨index, -, decls⟩ | ⟨-, new, decls, node, -, input, definition⟩⟩ := declare_cases h
  · have length : t.decls.length = s.decls.length := by
      rw [decls, List.length_modify]
    intro i decl at_ object
    rw [decls, List.getElem?_modify] at at_
    split at at_
    · obtain ⟨old, here, rfl⟩ := Option.map_eq_some_iff.mp at_
      have before := bottomUp i old here (Definition.isObject_merge.symm.trans object)
      exact (before.gain declared).same graph length.ge
    · rw [id_map'] at at_
      exact (bottomUp i decl at_ object).same graph length.ge
  · intro i decl at_ object
    rw [decls] at at_
    rcases Nat.lt_trichotomy i s.decls.length with lt | rfl | gt
    · rw [List.getElem?_append_left lt] at at_
      refine (bottomUp i decl at_ object).same graph ?_
      rw [decls, List.length_append]
      exact Nat.le_add_right _ _
    · rw [List.getElem?_concat_length, Option.some.injEq] at at_
      subst at_
      rw [definition] at object
      obtain ⟨structured, explored, covers⟩ := placed object
      have sided : new.side = side := by
        rw [TypeDecl.side, input, object]
        cases side <;> rfl
      have last : s.decls.length ≤ t.decls.length := by
        rw [decls, List.length_append]
        exact Nat.le_add_right _ _
      refine Draft.Placed.same ⟨?_, ?_, ?_, ?_, ?_⟩ graph last
      · rwa [node]
      · rwa [node, sided]
      · rwa [node, sided, definition]
      · rwa [definition]
      · rw [definition]
        exact fun x field j type _ => declared x field j type
    · rw [List.getElem?_eq_none (by rw [List.length_append]; exact gt)] at at_
      cases at_

/-- An enum refers to nothing. -/
theorem enumType_bottomUp {values : List String} (h : Ends (enumType target values) s ty t)
    (bottomUp : s.BottomUp c) : t.BottomUp c := by
  unfold enumType at h
  dsimp only at h
  split at h
  · exact declare_bottomUp h bottomUp (fun x none => absurd none List.not_mem_nil) nofun
  · simp only [Ends.bind_iff, Ends.get_iff] at h
    obtain ⟨_, _, ⟨rfl, rfl⟩, h⟩ := h
    split at h
    · simp only [Ends.bind_iff, ends_put, ends_node, Ends.pure_iff] at h
      obtain ⟨_, _, rfl, _, _, ⟨rfl, rfl⟩, rfl, rfl⟩ := h
      exact fun i decl at_ object => (bottomUp i decl at_ object).same rfl le_rfl
    · simp only [Ends.bind_iff, ends_node, Ends.pure_iff] at h
      obtain ⟨_, _, ⟨rfl, rfl⟩, rfl, rfl⟩ := h
      exact bottomUp

end Drafting

end RestGraph
