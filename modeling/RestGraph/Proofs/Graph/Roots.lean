import RestGraph.Graph.Start
import RestGraph.Proofs.Graph.Origins
import RestGraph.Proofs.Naming.Fresh
import RestGraph.Proofs.Naming.Letters

/-!
# Roots

The operations of a description are the roots of its graph, under names that are identifiers and
differ from each other. The roots stay as a graph grows.
-/

namespace RestGraph

theorem Naming.isStem_operationName (method : Method) (path : String) (id : Option String) :
    IsStem (operationName method path id) := by
  unfold operationName
  split <;> exact isStem_fieldName _

namespace Graph

variable {d : Document} {g h : Graph}

/-- The nodes without a parent are the roots, and these have names of their own. -/
structure Rooted (g : Graph) : Prop where
  inside : ∀ i ∈ g.roots, i < g.size
  top : ∀ {i}, i < g.size → ((g.node i).parent = none ↔ i ∈ g.roots)
  names : (g.roots.map fun i => (g.node i).name).Nodup
  stems : ∀ i ∈ g.roots, Naming.IsStem (g.node i).name

theorem Moves.root (steps : Moves d g h) {i : Nat} (lt : i < h.size)
    (parent : (h.node i).parent = none) : i < g.size ∧ (g.node i).parent = none := by
  induction steps with
  | refl => exact ⟨lt, parent⟩
  | tail _ step ih =>
    have old := step.root lt parent
    exact ih old ((step.extends.keeps old).parent.symm.trans parent)

/-- The roots stay when nothing else has come without a parent. -/
theorem Rooted.extend (rooted : g.Rooted) (step : g.Extends h)
    (old : ∀ {i}, i < h.size → (h.node i).parent = none → i < g.size) : h.Rooted := by
  have same : ∀ i ∈ g.roots, (h.node i).name = (g.node i).name := fun i mem =>
    (step.keeps (rooted.inside i mem)).name
  constructor
  case inside =>
    rw [step.roots]
    exact fun i mem => (rooted.inside i mem).trans_le step.size_le
  case top =>
    intro i lt
    rw [step.roots]
    constructor
    · intro parent
      have lt := old lt parent
      exact (rooted.top lt).mp ((step.keeps lt).parent.symm.trans parent)
    · intro mem
      have old := rooted.inside i mem
      exact (step.keeps old).parent.trans ((rooted.top old).mpr mem)
  case names =>
    rw [step.roots, List.map_congr_left same]
    exact rooted.names
  case stems =>
    rw [step.roots]
    exact fun i mem => same i mem ▸ rooted.stems i mem

theorem Rooted.moves (rooted : g.Rooted) (steps : Moves d g h) : h.Rooted :=
  rooted.extend steps.extends fun lt parent => (steps.root lt parent).1

/-- Nodes on one way have the same root. -/
theorem rootOf_eq_of_mem_chain {a i : Nat} (on : a ∈ g.chain i) : g.rootOf i = g.rootOf a := by
  rcases mem_chain.mp on with rfl | above
  · rfl
  · obtain ⟨between, split, -⟩ := ancestors_split above
    rw [rootOf, rootOf, split, List.getLast?_append, List.getLast?_cons]
    rfl

/-- Where a way begins at a node without a parent, this is the root of its last node. -/
theorem rootOf_of_mem_chain {a i : Nat} (top : (g.node a).parent = none) (on : a ∈ g.chain i) :
    g.rootOf i = a := by
  rw [rootOf_eq_of_mem_chain on, rootOf, ancestors_of_root top]
  rfl

theorem rootOf_mem_chain (g : Graph) (i : Nat) : g.rootOf i ∈ g.chain i := by
  rw [mem_chain, rootOf]
  cases last : (g.ancestors i).getLast? with
  | none => exact .inl rfl
  | some a => exact .inr (List.mem_of_getLast? last)

/-- The way up ends at a root. -/
theorem Rooted.rootOf_mem (rooted : g.Rooted) (forest : g.Forest) {i : Nat} (inside : i < g.size) :
    g.rootOf i ∈ g.roots := by
  induction i using Nat.strongRecOn with
  | ind i ih =>
    cases parent : (g.node i).parent with
    | none =>
      rw [rootOf, ancestors_of_root parent]
      exact (rooted.top inside).mp parent
    | some p =>
      have lt := forest.parent_lt parent
      rw [rootOf, ancestors_of_parent parent lt, List.getLast?_cons]
      exact ih p lt (lt.trans inside)

/-- A root with a name that is new. -/
theorem Rooted.addRoot (rooted : g.Rooted) {s : Seed} (stem : Naming.IsStem s.name)
    (free : s.name ∉ g.roots.map fun i => (g.node i).name) : (g.addRoot s).Rooted := by
  have old : ∀ i ∈ g.roots, (g.addRoot s).node i = g.node i := fun i mem => by
    rw [node_addRoot, if_neg (rooted.inside i mem).ne]
  have new : ((g.addRoot s).node g.size).name = s.name := by
    rw [node_addRoot, if_pos rfl]
    rfl
  have roots : (g.addRoot s).roots = g.roots ++ [g.size] := rfl
  constructor
  case inside =>
    intro i mem
    rw [size_addRoot]
    rcases List.mem_append.mp (roots ▸ mem) with mem | mem
    · exact (rooted.inside i mem).trans (Nat.lt_succ_self _)
    · rw [List.mem_singleton.mp mem]
      exact Nat.lt_succ_self _
  case top =>
    intro i lt
    rw [size_addRoot] at lt
    rw [roots, List.mem_append, List.mem_singleton]
    rcases Nat.lt_succ_iff_lt_or_eq.mp lt with old | rfl
    · rw [node_addRoot, if_neg old.ne, rooted.top old, or_iff_left old.ne]
    · rw [node_addRoot, if_pos rfl]
      exact iff_of_true rfl (.inr rfl)
  case names =>
    rw [roots, List.map_append, List.map_singleton, new,
      List.map_congr_left fun i mem => congrArg Node.name (old i mem)]
    exact List.nodup_append.mpr ⟨rooted.names, List.nodup_singleton _, fun name mem other new => by
      rw [List.mem_singleton.mp new]
      rintro rfl
      exact free mem⟩
  case stems =>
    intro i mem
    rcases List.mem_append.mp (roots ▸ mem) with mem | mem
    · rw [old i mem]
      exact rooted.stems i mem
    · rw [List.mem_singleton.mp mem, new]
      exact stem

/-- The operations of an entry take names that no root has. -/
theorem Rooted.addOperations (rooted : g.Rooted) {taken : List String}
    (sub : ∀ i ∈ g.roots, (g.node i).name ∈ taken) (entries : List OperationEntry) :
    (g.addOperations taken entries).Rooted := by
  induction entries generalizing g taken with
  | nil => exact rooted
  | cons e rest ih =>
    have stem := (Naming.isStem_operationName e.method e.path
      (e.operation.textAt? "operationId")).unique taken
    have free : Naming.unique taken (Naming.operationName e.method e.path
        (e.operation.textAt? "operationId")) ∉ taken := Naming.unique_notMem _ _
    refine ih (rooted.addRoot stem fun mem => ?_) fun i mem => ?_
    · obtain ⟨i, mem, same⟩ := List.mem_map.mp mem
      have known := sub i mem
      rw [same] at known
      exact free known
    · rw [node_addRoot]
      rcases List.mem_append.mp (show i ∈ g.roots ++ [g.size] from mem) with mem | mem
      · rw [if_neg (rooted.inside i mem).ne]
        exact List.mem_cons_of_mem _ (sub i mem)
      · rw [if_pos (List.mem_singleton.mp mem)]
        exact List.mem_cons_self

/-- **The graph of a document starts with one named root for each operation.** -/
theorem ofDocument_rooted (d : Document) : (ofDocument d).Rooted := by
  have none : empty.Rooted := by
    constructor
    case inside =>
      intro i mem
      cases mem
    case top =>
      intro i lt
      cases lt
    case names => exact List.nodup_nil
    case stems =>
      intro i mem
      cases mem
  refine none.addOperations (fun i mem => ?_) _
  cases mem

theorem unvisited_addOperations
    (fresh : ∀ i < g.size, (g.node i).kind.tag = .operation ∧ (g.node i).visited = false)
    (taken : List String) (entries : List OperationEntry) :
    ∀ i < (g.addOperations taken entries).size,
      ((g.addOperations taken entries).node i).kind.tag = .operation ∧
        ((g.addOperations taken entries).node i).visited = false := by
  induction entries generalizing g taken with
  | nil => exact fresh
  | cons e rest ih =>
    refine ih (fun i lt => ?_) _
    rw [node_addRoot]
    rw [size_addRoot] at lt
    split
    · exact ⟨rfl, rfl⟩
    · exact fresh i (by omega)

/-- At first there are operations only, and none has been visited. -/
theorem unvisited_ofDocument (d : Document) : ∀ i < (ofDocument d).size,
    ((ofDocument d).node i).kind.tag = .operation ∧ ((ofDocument d).node i).visited = false :=
  unvisited_addOperations (fun _ lt => absurd lt (Nat.not_lt_zero _)) _ _

end Graph

end RestGraph
