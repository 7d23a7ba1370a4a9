import RestGraph.Proofs.Schema.Tended
import RestGraph.Proofs.Selection.PathText
import RestGraph.Proofs.Selection.Wildcards

/-!
# What a filter lets through

The filter that a collection sets goes by the texts of paths; what is declared goes by the nodes of
the collection. As long as no id on a selected way holds a separator both say the same, also of
nodes that come later: the beginnings of the text of a leaf are the texts of the nodes on the way to
it.
-/

namespace RestGraph

variable {d : Document} {g h : Graph} {r s t : Run} {c : Collection} {w : Wildcard}
  {a i l n depth : Nat} {leaves : List Nat} {selections : List String}

/-! ## Beginnings -/

theorem toList_joinPath_cons (x y : String) (ys : List String) :
    (joinPath (x :: y :: ys)).toList = x.toList ++ pathSeparator ::
    (joinPath (y :: ys)).toList := by
  simp only [joinPath, Text.join, String.toList_ofList, List.map_cons]
  rw [List.intercalate_cons_cons, List.append_assoc]
  rfl

@[simp] theorem joinPath_singleton (x : String) : joinPath [x] = x := by
  rw [joinPath, Text.join, List.map_singleton, List.intercalate_singleton, String.ofList_toList]

namespace PathFilter

variable {cs front rest : List Char} {paths ids : List String} {q : String}

/-- A text without separators begins with itself only. -/
theorem mem_beginnings_of_notMem (joined : pathSeparator ∉ cs) (mem : front ∈ beginnings cs) :
    front = cs := by
  induction cs generalizing front with
  | nil => exact List.mem_singleton.mp mem
  | cons x xs ih =>
    have other : x ≠ pathSeparator := fun same => joined (same ▸ List.mem_cons_self)
    rw [beginnings, if_neg other] at mem
    obtain ⟨more, begins, rfl⟩ := List.mem_map.mp mem
    rw [ih (fun inner => joined (List.mem_cons_of_mem x inner)) begins]

/-- What begins a text ends before the first separator or goes on behind it. -/
theorem mem_beginnings_separated (joined : pathSeparator ∉ cs)
    (mem : front ∈ beginnings (cs ++ pathSeparator :: rest)) :
    front = cs ∨ ∃ more ∈ beginnings rest, front = cs ++ pathSeparator :: more := by
  induction cs generalizing front with
  | nil =>
    rw [List.nil_append, beginnings, if_pos rfl] at mem
    rcases List.mem_cons.mp mem with rfl | mem
    · exact .inl rfl
    · obtain ⟨more, begins, rfl⟩ := List.mem_map.mp mem
      exact .inr ⟨more, begins, rfl⟩
  | cons x xs ih =>
    have other : x ≠ pathSeparator := fun same => joined (same ▸ List.mem_cons_self)
    rw [List.cons_append, beginnings, if_neg other] at mem
    obtain ⟨front', begins, rfl⟩ := List.mem_map.mp mem
    rcases ih (fun inner => joined (List.mem_cons_of_mem x inner)) begins with
      rfl | ⟨more, later, rfl⟩
    · exact .inl rfl
    · exact .inr ⟨more, later, rfl⟩

/-- A path text begins with the texts of the paths that begin its path, and with no others. -/
theorem mem_beginnings_joinPath (joined : ∀ id ∈ ids, pathSeparator ∉ id.toList)
    (some : ids ≠ []) (mem : front ∈ beginnings (joinPath ids).toList) :
    ∃ xs, xs ≠ [] ∧ xs <+: ids ∧ front = (joinPath xs).toList := by
  induction ids generalizing front with
  | nil => exact absurd rfl some
  | cons x rest ih =>
    have first := joined x List.mem_cons_self
    cases rest with
    | nil =>
      rw [joinPath_singleton] at mem
      refine ⟨[x], List.cons_ne_nil x [], List.prefix_refl _, ?_⟩
      rw [mem_beginnings_of_notMem first mem, joinPath_singleton]
    | cons y rest =>
      rw [toList_joinPath_cons] at mem
      rcases mem_beginnings_separated first mem with rfl | ⟨more, later, rfl⟩
      · refine ⟨[x], List.cons_ne_nil x [], List.prefix_append [x] _, ?_⟩
        rw [joinPath_singleton]
      · obtain ⟨xs, full, begins, rfl⟩ := ih (fun id mem => joined id (List.mem_cons_of_mem x mem))
          (List.cons_ne_nil y rest) later
        refine ⟨x :: xs, List.cons_ne_nil x xs, List.cons_prefix_cons.mpr ⟨rfl, begins⟩, ?_⟩
        obtain ⟨z, zs, rfl⟩ := List.exists_cons_of_ne_nil full
        rw [toList_joinPath_cons]

/-- A filter allows the beginnings of its paths. -/
@[simp] theorem allows_iff :
    (ofPaths paths).allows q = true ↔ ∃ p ∈ paths, q.toList ∈ beginnings p.toList := by
  refine ⟨fun allowed => ?_, fun ⟨p, mem, front⟩ => allows_of_beginning mem front⟩
  rw [allows, ofPaths, List.contains_iff_mem, List.mem_eraseDups, List.mem_flatMap] at allowed
  obtain ⟨p, mem, begins⟩ := allowed
  obtain ⟨front, begins, rfl⟩ := List.mem_map.mp begins
  exact ⟨p, mem, by rwa [String.toList_ofList]⟩

end PathFilter

namespace Graph

/-- What begins the way to a node is the way to a node on it. -/
theorem eq_chain_of_prefix {xs : List Nat} (some : xs ≠ []) (front : xs <+: g.chain i) :
    ∃ a ∈ g.chain i, xs = g.chain a := by
  induction i using Nat.strongRecOn with
  | ind i ih =>
    have here : i ∈ g.chain i := mem_chain.mpr (.inl rfl)
    rcases ancestors_cases g i with top | ⟨p, lt, above⟩
    · have whole : g.chain i = [i] := by rw [chain, top, List.reverse_singleton]
      rw [whole, ← List.nil_append [i], List.prefix_concat_iff, List.prefix_nil] at front
      exact ⟨i, here, (front.resolve_right some).trans whole.symm⟩
    · have split : g.chain i = g.chain p ++ [i] := by
        rw [chain, chain, above, List.reverse_cons]
      rw [split, List.prefix_concat_iff, ← split] at front
      rcases front with rfl | front
      · exact ⟨i, here, rfl⟩
      · obtain ⟨a, on, rfl⟩ := ih p lt front
        exact ⟨a, split ▸ List.mem_append_left _ on, rfl⟩

/-- The beginnings of the text of a node are the texts of the nodes on the way to it. -/
theorem eq_pathOf_of_mem_beginnings {front : List Char}
    (joined : ∀ a ∈ g.chain i, pathSeparator ∉ (g.idAt a).toList)
    (mem : front ∈ PathFilter.beginnings (g.pathOf i).toList) :
    ∃ a ∈ g.chain i, front = (g.pathOf a).toList := by
  have on : g.chain i ≠ [] := List.ne_nil_of_mem (mem_chain.mpr (.inl rfl))
  obtain ⟨xs, full, begins, rfl⟩ := PathFilter.mem_beginnings_joinPath
    (fun id mem => by
      obtain ⟨a, on, rfl⟩ := List.mem_map.mp mem
      exact pathSeparator_notMem_abbreviate (joined a on))
    (fun none => on (List.map_eq_nil_iff.mp none)) mem
  rw [List.prefix_iff_eq_take, ← List.map_take] at begins
  obtain ⟨a, on, way⟩ := eq_chain_of_prefix (g := g) (i := i)
    (fun none => full (begins.trans (by rw [none, List.map_nil]))) (List.take_prefix xs.length _)
  exact ⟨a, on, by rw [begins, way, pathOf]⟩

end Graph

/-- The filter lets the texts of selected nodes through and no others. -/
theorem Collection.Sound.allows_iff (sound : c.Sound g)
    (joined : ∀ i ∈ c.selected, pathSeparator ∉ (g.idAt i).toList) {q : String} :
    (PathFilter.ofPaths c.paths).allows q = true ↔ ∃ m ∈ c.selected, g.pathOf m = q := by
  rw [PathFilter.allows_iff]
  constructor
  · rintro ⟨p, mem, begins⟩
    rw [sound.texts, mem_foldl_addNew, or_iff_right List.not_mem_nil] at mem
    obtain ⟨l, leaf, rfl⟩ := List.mem_map.mp mem
    have selected : ∀ a ∈ g.chain l, a ∈ c.selected := fun a on => by
      rcases Graph.mem_chain.mp on with rfl | above
      · exact sound.leaves a leaf
      · exact sound.upward l (sound.leaves l leaf) a above
    obtain ⟨a, on, same⟩ := Graph.eq_pathOf_of_mem_beginnings
      (fun a on => joined a (selected a on)) begins
    exact ⟨a, selected a on, String.toList_inj.mp same.symm⟩
  · rintro ⟨m, mem, rfl⟩
    exact sound.paths m mem

/-! ## Later runs -/

/-- What was there keeps its place and its kind. -/
theorem Graph.Weaves.grows {busy : Set Nat} (weaves : g.Weaves d busy h) : g.Grows Set.univ h where
  toExtends := weaves.grown
  kind lt := weaves.kinds _ lt
  children _ free := absurd trivial free
  props _ free := absurd trivial free

namespace Run

variable {free fresh : Nat → Prop}

theorem Act.kind (act : r.Act free fresh s) (inside : i < r.graph.size) (old : ¬fresh i) :
    (s.graph.node i).kind = (r.graph.node i).kind := by
  cases act with
  | add addition => exact addition.kind inside
  | mark | field =>
    refine Graph.part_modify Node.kind ?_ i
    exact fun _ => rfl
  | turn new => exact congrArg Node.kind (Graph.node_modify_of_ne fun same => old (same ▸ new))

/-- Acts that turn new nodes only. -/
theorem Acts.grows (acts : r.Acts free fresh s) (new : ∀ i, fresh i → r.graph.size ≤ i) :
    r.graph.Grows Set.univ s.graph where
  toExtends := acts.extends
  kind {i} lt := by
    induction acts with
    | refl => rfl
    | tail before act ih =>
      have old : ¬fresh i := fun here => absurd lt (Nat.not_lt.mpr (new i here))
      exact (act.kind (lt.trans_le (Acts.extends before).size_le) old).trans ih
  children _ free := absurd trivial free
  props _ free := absurd trivial free

/-- What calls and grafts lead to from a run. -/
inductive Later (d : Document) (r : Run) : Run → Prop
  | refl : Later d r r
  | call {s : Run} (c : Call) (before : Later d r s) : Later d r (c.after d s)
  | graftSchema {s : Run} (parent : Nat) (schema : Json) (before : Later d r s) :
    Later d r ((Build.graftSchema parent schema).run s).2
  | graftProp {s : Run} (owner : Nat) (name : String) (schema : Json) (required : Bool)
    (before : Later d r s) : Later d r ((Build.graftProp d owner name schema required).run s).2

theorem Later.grows (later : r.Later d s) : r.graph.Grows Set.univ s.graph := by
  have on : ∀ {s t : Run}, r.graph.Grows Set.univ s.graph → s.graph.Grows Set.univ t.graph →
      r.graph.Grows Set.univ t.graph := fun before next => before.trans next fun _ _ => id
  induction later with
  | refl => exact .refl _ _
  | call c _ before => exact on before (weaves_after c _).along.grows
  | @graftSchema s parent schema _ before =>
    have acts : Along (Acts (fun _ => True) fun i => s.graph.size ≤ i)
        (Build.graftSchema parent schema) s :=
      Along.bind (.modify (.single (.add (.note { Notes.refl s with })))) fun h _ => by
        obtain rfl := Ends.modify_iff.mp h
        exact Adds.acts (Build.fromSchema_adds trivial .all)
    exact on before (Acts.grows acts fun _ => id)
  | @graftProp s owner name schema required _ before =>
    have acts : Along (Acts (fun _ => True) fun i => s.graph.size ≤ i)
        (Build.graftProp d owner name schema required) s :=
      Along.bind (.modify (.single (.add (.note { Notes.refl s with })))) fun h _ => by
        obtain rfl := Ends.modify_iff.mp h
        exact Build.fromProp_acts trivial ⟨fun _ _ => trivial, fun _ le => le⟩
    exact on before (Acts.grows acts fun _ => id)

end Run

/-! ## Collecting in any run -/

namespace Build

/-- The nodes are leaves after the step. -/
def Leaves (s : Run) (leaves : List Nat) : Prop := ∀ l ∈ leaves, (s.graph.node l).isLeaf = true

theorem Leaves.later (found : Leaves r leaves) (grows : r.graph.Grows Set.univ s.graph) :
    Leaves s leaves := fun l mem => by
  have leaf := found l mem
  have inside : l < r.graph.size := Graph.lt_size_of_ne fun nowhere => by
    rw [nowhere] at leaf
    cases leaf
  rwa [Node.isLeaf, grows.kind inside]

theorem leaves_of_collectFrom {below : Nat → Build (List Nat)} {children : List Nat}
    (coming : ∀ c, Coming (Run.housing d).toCourse id (below c))
    (each : ∀ {c r leaves s}, Ends (below c) r leaves s → Leaves s leaves)
    (h : Ends (leavesWithin.collectFrom w below children) r leaves s) : Leaves s leaves := by
  induction children generalizing leaves r with
  | nil =>
    obtain ⟨rfl, rfl⟩ := collectFrom_nil h
    exact fun _ none => absurd none List.not_mem_nil
  | cons c rest ih =>
    obtain ⟨-, found, more, u, rfl, first, second⟩ | ⟨-, h⟩ := enters_or_passes h
    · have weaves : u.Weaves d Graph.HousedAt s :=
        (coming_collectFrom coming (s := u) trivial).ends second
      exact fun l mem => (List.mem_append.mp mem).elim ((each first).later weaves.along.grows l)
        (ih second l)
    · exact ih h

theorem leaves_of_leavesWithin (h : Ends (leavesWithin d w depth i) r leaves s) :
    Leaves s leaves := by
  induction depth generalizing i leaves r s with
  | zero => exact (Ends.throw_iff.mp h).elim
  | succ depth ih =>
    obtain ⟨leaf, rfl, rfl⟩ | ⟨-, _, u, -, h⟩ := leaf_or_searched h
    · exact fun l mem => List.mem_singleton.mp mem ▸ leaf
    · exact leaves_of_collectFrom (fun _ => coming_leavesWithin) ih h

/-- What is resolved are leaves. -/
theorem leaves_of_resolveLeaves {p : SelectionPath} (h : Ends (resolveLeaves d p) r leaves s) :
    Leaves s leaves := by
  unfold resolveLeaves leavesBelow at h
  obtain ⟨target, t, -, h⟩ := Ends.bind_iff.mp h
  split at h <;> obtain ⟨_, _, look, h⟩ := Ends.bind_iff.mp h <;>
    exact leaves_of_leavesWithin h

end Build

namespace Collection

theorem operations_addLeaf (tops : c.operations ⊆ c.selected) :
    (c.addLeaf g l).operations ⊆ (c.addLeaf g l).selected := by
  rw [addLeaf_eq]
  intro i mem
  rcases mem_addNew.mp mem with old | rfl
  · exact mem_foldl_addNew.mpr (.inl (tops old))
  · exact mem_foldl_addNew.mpr (.inr (g.rootOf_mem_chain l))

theorem operations_addLeaves (tops : c.operations ⊆ c.selected) :
    (leaves.foldl (addLeaf g) c).operations ⊆ (leaves.foldl (addLeaf g) c).selected := by
  induction leaves generalizing c with
  | nil => exact tops
  | cons l more ih => exact ih (operations_addLeaf tops)

end Collection

namespace Build

/-- What is collected fits together, and the operations were selected. -/
theorem collectPaths_fits {c c' : Collection} (h : Ends (collectPaths d c selections) r c' s)
    (start : c.Sound r.graph) (tops : c.operations ⊆ c.selected) :
    c'.Sound s.graph ∧ c'.operations ⊆ c'.selected := by
  induction selections generalizing c r with
  | nil =>
    rw [collectPaths] at h
    obtain ⟨rfl, rfl⟩ := Ends.pure_iff.mp h
    exact ⟨start, tops⟩
  | cons text rest ih =>
    rw [collectPaths] at h
    split at h
    · exact ih h start tops
    · simp only [Ends.bind_iff, ends_graph] at h
      obtain ⟨leaves, u, resolves, _, _, ⟨rfl, rfl⟩, h⟩ := h
      have weaves : r.Weaves d Graph.HousedAt u :=
        (coming_resolveLeaves (S := (Run.housing d).toCourse) (s := r) trivial).ends resolves
      exact ih h ((start.grow weaves.along.grows).addLeaves (leaves_of_resolveLeaves resolves))
        (Collection.operations_addLeaves tops)

end Build

/-- The parts of a collection follow from the nodes that are selected, and these are the nodes whose
texts the filter lets through, whatever a client does later. -/
structure Collection.Agrees (d : Document) (c : Collection) (f : PathFilter) (s : Run) : Prop where
  upward : ∀ i ∈ c.selected, ∀ p, (s.graph.node i).parent = some p → p ∈ c.selected
  operations : c.operations = s.graph.roots.filter c.isSelected
  containers : ∀ i, i ∈ c.containers ↔ i ∈ c.selected ∧ (s.graph.node i).kind.isContainer = true
  allows : ∀ t, s.Later d t → ∀ n < t.graph.size, f.allows (t.graph.pathOf n) = true ↔
    ∃ m ∈ c.selected, t.graph.pathOf m = t.graph.pathOf n

/-- Wherever a collection is made, if no selected node has a separator in its id. -/
theorem Run.Attained.collect_agrees (attained : r.Attained d)
    (h : Ends (Build.collect d selections) r c s)
    (joined : ∀ i ∈ c.selected, pathSeparator ∉ (s.graph.idAt i).toList) :
    ∃ f, s.filter = some f ∧ c.Agrees d f s := by
  obtain ⟨c₀, u, collected, rfl, rfl⟩ := Build.ends_collect.mp h
  obtain ⟨sound, tops⟩ := Build.collectPaths_fits collected (.empty _) (List.Subset.refl [])
  have holds : (Run.growth d).holds r := ⟨attained.firm.graph.forest, attained.firm.graph.fielded⟩
  have advances : Run.Advances d r u := (Build.coming_collectPaths holds).ends collected
  obtain ⟨forest, -, rooted, -, -, -⟩ := (advances.firm attained.firm).graph
  refine ⟨_, rfl, ?_, ?_, ?_, ?_⟩
  · intro i mem p (parent : (u.graph.node i).parent = some p)
    refine sound.upward i mem p ?_
    rw [Graph.ancestors_of_parent parent (forest.parent_lt parent)]
    exact List.mem_cons_self
  · refine List.filter_congr fun i root => ?_
    rw [Bool.eq_iff_iff, Collection.isSelected, List.contains_iff_mem, List.contains_iff_mem]
    refine ⟨fun mem => tops mem, fun mem => ?_⟩
    obtain ⟨l, leaf, on⟩ := sound.below i mem
    have top := (rooted.top (rooted.inside i root)).mpr root
    exact Graph.rootOf_of_mem_chain top on ▸ sound.roots l leaf
  · exact fun i =>
      ⟨sound.containers i, fun ⟨mem, container⟩ => sound.all_containers i mem container⟩
  · intro t later n _
    have same : ∀ m ∈ c₀.selected, t.graph.pathOf m = u.graph.pathOf m := fun m mem =>
      later.grows.pathOf (sound.inside m mem)
    refine (sound.allows_iff joined).trans ?_
    exact exists_congr fun m => and_congr_right fun mem => by rw [same m mem]

/-- A path to one of two leaves, before and after a property is grafted and everything is
visited. -/
theorem nested_collect_agrees : ∃ r c s, r.Attained .nested ∧
    Ends (Build.collect .nested ["get:/a>res:200>obj:[aResponse]>prop:scalar:x"]) r c s ∧
    (∀ i ∈ c.selected, pathSeparator ∉ (s.graph.idAt i).toList) ∧
    ∃ f, s.filter = some f ∧ c.Agrees .nested f s := by
  have attained : Run.Attained .nested _ := .call (.resolve ⟨["get:/a", "res:404"], none⟩) .start
  have run : Ends.passes (Build.collect .nested ["get:/a>res:200>obj:[aResponse]>prop:scalar:x"])
      ((Call.resolve ⟨["get:/a", "res:404"], none⟩).after .nested (.ofDocument .nested))
      (fun c s => decide (∀ i ∈ c.selected, pathSeparator ∉ (s.graph.idAt i).toList)) = true := by
    decide +kernel
  obtain ⟨c, s, collects, joined⟩ := Ends.of_passes run
  exact ⟨_, c, s, attained, collects, of_decide_eq_true joined,
    attained.collect_agrees collects (of_decide_eq_true joined)⟩

end RestGraph
