import RestGraph.Proofs.Graph.Roots
import RestGraph.Proofs.Selection.Resolving

/-!
# Collecting

A collection has everything on the way to its leaves, and the filter set from it lets all of that
through.
-/

namespace RestGraph

variable {d : Document} {r r' : Run} {g h : Graph} {c : Collection} {a i j leaf : Nat}

/-! ## Path texts -/

theorem intercalate_append {α : Type} (sep : List α) (xs : List (List α)) (ys : List (List α))
    (left : xs ≠ []) (right : ys ≠ []) :
    sep.intercalate (xs ++ ys) = sep.intercalate xs ++ sep ++ sep.intercalate ys := by
  induction xs with
  | nil => exact absurd rfl left
  | cons x xs ih =>
    cases xs with
    | nil =>
      rw [List.singleton_append, List.intercalate_cons_of_ne_nil right, List.intercalate_singleton]
    | cons x' xs =>
      rw [List.cons_append, List.cons_append, List.intercalate_cons_cons, ← List.cons_append,
        ih (List.cons_ne_nil _ _), List.intercalate_cons_cons]
      simp only [List.append_assoc]

namespace PathFilter

theorem self_mem_beginnings (cs : List Char) : cs ∈ beginnings cs := by
  induction cs with
  | nil => exact List.mem_singleton_self _
  | cons x xs ih =>
    have mem : x :: xs ∈ (beginnings xs).map (x :: ·) := List.mem_map_of_mem ih
    rw [beginnings]
    split
    · exact List.mem_cons_of_mem _ mem
    · exact mem

/-- What stands before a separator is a beginning. -/
theorem mem_beginnings_append (cs rest : List Char) :
    cs ∈ beginnings (cs ++ pathSeparator :: rest) := by
  induction cs with
  | nil =>
    rw [List.nil_append, beginnings]
    exact List.mem_cons_self
  | cons x xs ih =>
    have mem : x :: xs ∈ (beginnings (xs ++ pathSeparator :: rest)).map (x :: ·) :=
      List.mem_map_of_mem ih
    rw [List.cons_append, beginnings]
    split
    · exact List.mem_cons_of_mem _ mem
    · exact mem

/-- Joined segments begin with the first of them. -/
theorem beginnings_joinPath {xs ys : List String} (front : xs ≠ []) :
    (joinPath xs).toList ∈ beginnings (joinPath (xs ++ ys)).toList := by
  cases ys with
  | nil =>
    rw [List.append_nil]
    exact self_mem_beginnings _
  | cons y ys =>
    have whole : (joinPath (xs ++ y :: ys)).toList =
        (joinPath xs).toList ++ pathSeparator :: (joinPath (y :: ys)).toList := by
      simp only [joinPath, Text.join, String.toList_ofList, List.map_append]
      rw [intercalate_append _ _ _ (fun e => front (List.map_eq_nil_iff.mp e))
        (fun e => List.cons_ne_nil y ys (List.map_eq_nil_iff.mp e)), List.append_assoc]
      rfl
    rw [whole]
    exact mem_beginnings_append _ _

/-- A filter allows what begins one of its paths. -/
theorem allows_of_beginning {paths : List String} {p q : String} (mem : p ∈ paths)
    (front : q.toList ∈ beginnings p.toList) : (ofPaths paths).allows q = true := by
  rw [allows, ofPaths, List.contains_iff_mem, List.mem_eraseDups, List.mem_flatMap]
  exact ⟨p, mem, List.mem_map.mpr ⟨q.toList, front, String.ofList_toList⟩⟩

end PathFilter

/-- The text of a node begins the text of each node below it. -/
theorem Graph.pathOf_mem_beginnings (above : a = i ∨ a ∈ g.ancestors i) :
    (g.pathOf a).toList ∈ PathFilter.beginnings (g.pathOf i).toList := by
  rcases above with rfl | above
  · exact PathFilter.self_mem_beginnings _
  · obtain ⟨between, split, -⟩ := ancestors_split above
    have chain : g.chain i = g.chain a ++ (i :: between).reverse := by
      rw [Graph.chain, Graph.chain, split, ← List.reverse_append]
      rfl
    rw [pathOf, pathOf, chain, List.map_append]
    refine PathFilter.beginnings_joinPath fun empty => ?_
    rw [List.map_eq_nil_iff, Graph.chain, List.reverse_eq_nil_iff] at empty
    cases empty

/-! ## Collections -/

/-- What the parts of a collection have to do with each other. -/
structure Collection.Sound (g : Graph) (c : Collection) : Prop where
  inside : ∀ i ∈ c.selected, i < g.size
  upward : ∀ i ∈ c.selected, ∀ a ∈ g.ancestors i, a ∈ c.selected
  containers : ∀ i ∈ c.containers, i ∈ c.selected ∧ (g.node i).kind.isContainer = true
  paths : ∀ i ∈ c.selected, ∃ p ∈ c.paths, (g.pathOf i).toList ∈ PathFilter.beginnings p.toList
  leaves : ∀ l ∈ c.leaves, l ∈ c.selected
  distinct : c.leaves.Nodup
  /-- The paths are those of the leaves, each once. -/
  texts : c.paths = (c.leaves.map g.pathOf).foldl Collection.addNew []
  leaf : ∀ l ∈ c.leaves, (g.node l).isLeaf = true
  below : ∀ i ∈ c.selected, ∃ l ∈ c.leaves, i ∈ g.chain l
  roots : ∀ l ∈ c.leaves, g.rootOf l ∈ c.operations
  all_containers : ∀ i ∈ c.selected, (g.node i).kind.isContainer = true → i ∈ c.containers
  /-- A container stands behind those above it. -/
  ranked : c.containers.Pairwise fun i j => j ∉ g.ancestors i

namespace Collection

/-- What is added if new is there afterwards. -/
@[simp] theorem mem_addNew {α : Type} [BEq α] [LawfulBEq α] {xs : List α} {x y : α} :
    y ∈ addNew xs x ↔ y ∈ xs ∨ y = x := by
  unfold addNew
  split
  · next old => exact ⟨.inl, fun mem => mem.elim id fun e => e ▸ List.contains_iff_mem.mp old⟩
  · rw [List.mem_append, List.mem_singleton]

theorem nodup_addNew {α : Type} [BEq α] [LawfulBEq α] {xs : List α} {x : α} (nodup : xs.Nodup) :
    (addNew xs x).Nodup := by
  unfold addNew
  split
  · exact nodup
  · next new =>
    refine List.nodup_append.mpr ⟨nodup, List.nodup_singleton x, fun y mem z last same => ?_⟩
    rw [List.mem_singleton.mp last] at same
    exact new (List.contains_iff_mem.mpr (same ▸ mem))

/-- Gathered one by one, items that differ from each other are all kept. -/
@[simp] theorem foldl_addNew_of_nodup {α : Type} [BEq α] [LawfulBEq α] {before xs : List α}
    (nodup : (before ++ xs).Nodup) : xs.foldl addNew before = before ++ xs := by
  induction xs generalizing before with
  | nil => rw [List.foldl_nil, List.append_nil]
  | cons x xs ih =>
    have new : ¬before.contains x = true := fun old =>
      (List.nodup_append.mp nodup).2.2 x (List.contains_iff_mem.mp old) x List.mem_cons_self rfl
    rw [List.append_cons] at nodup
    rw [List.foldl_cons, addNew, if_neg new, ih nodup, ← List.append_cons]

/-- What is added one after the other is there afterwards. -/
@[simp] theorem mem_foldl_addNew {α : Type} [BEq α] [LawfulBEq α] {before xs : List α} {y : α} :
    y ∈ xs.foldl addNew before ↔ y ∈ before ∨ y ∈ xs := by
  induction xs generalizing before with
  | nil => simp
  | cons x xs ih => rw [List.foldl_cons, ih, mem_addNew, List.mem_cons, or_assoc]

/-- The path of a leaf comes as the leaf does. -/
theorem addNew_texts {α β : Type} [BEq α] [LawfulBEq α] [BEq β] [LawfulBEq β] (text : α → β)
    (xs : List α) (x : α) : addNew ((xs.map text).foldl addNew []) (text x) =
      ((addNew xs x).map text).foldl addNew [] := by
  conv_rhs => rw [addNew]
  split
  · next old =>
    have known : text x ∈ (xs.map text).foldl addNew [] :=
      mem_foldl_addNew.mpr (.inr (List.mem_map_of_mem (List.contains_iff_mem.mp old)))
    rw [addNew, if_pos (List.contains_iff_mem.mpr known)]
  · rw [List.map_append, List.foldl_append]
    rfl

/-- Append what passes the test and is not there yet. -/
def addIf (test : Nat → Bool) (xs : List Nat) (x : Nat) : List Nat :=
  if test x then addNew xs x else xs

@[simp] theorem mem_foldl_addIf {test : Nat → Bool} {before xs : List Nat} :
    i ∈ xs.foldl (addIf test) before ↔ i ∈ before ∨ i ∈ xs ∧ test i = true := by
  induction xs generalizing before with
  | nil => simp
  | cons x xs ih =>
    rw [List.foldl_cons, ih, addIf, List.mem_cons]
    by_cases passed : test x = true
    · rw [if_pos passed, mem_addNew, or_assoc, or_and_right]
      refine or_congr_right (or_congr_left ?_)
      exact ⟨fun e => ⟨e, e ▸ passed⟩, And.left⟩
    · rw [if_neg passed, or_and_right]
      refine or_congr_right (or_iff_right ?_).symm
      rintro ⟨rfl, here⟩
      exact passed here

/-- The enum that a property shows, as far as the graph is built. -/
def shownEnum? (g : Graph) (leaf : Nat) : Option Nat :=
  match (g.node leaf).kind with
  | .property .enum _ =>
    if (g.node (g.targetOf leaf)).kind.tag == .enum then some (g.targetOf leaf) else none
  | _ => none

/-- Each node on a way is selected, and the containers and enums among them ask for declarations. -/
theorem foldl_addNode (g : Graph) (c : Collection) (nodes : List Nat) :
    nodes.foldl (addNode g) c = { c with
      selected := nodes.foldl addNew c.selected
      containers := nodes.foldl (addIf fun i => (g.node i).kind.isContainer) c.containers
      enums := nodes.foldl (addIf fun i => (g.node i).kind.tag == .enum) c.enums } := by
  induction nodes generalizing c with
  | nil => rfl
  | cons n rest ih =>
    rw [List.foldl_cons, ih]
    rfl

theorem addWrappedEnum_eq (g : Graph) (leaf : Nat) (c : Collection) : addWrappedEnum g leaf c =
    { c with enums := (shownEnum? g leaf).toList.foldl addNew c.enums } := by
  unfold addWrappedEnum shownEnum?
  cases (g.node leaf).kind with
  | property shape =>
    cases shape with
    | enum =>
      dsimp only
      split <;> rfl
    | _ => rfl
  | _ => rfl

theorem addLeaf_eq (g : Graph) (c : Collection) (leaf : Nat) : c.addLeaf g leaf =
    { paths := addNew c.paths (g.pathOf leaf)
      leaves := addNew c.leaves leaf
      selected := (g.chain leaf).foldl addNew c.selected
      operations := addNew c.operations (g.rootOf leaf)
      containers := (g.chain leaf).foldl (addIf fun i => (g.node i).kind.isContainer) c.containers
      enums := (shownEnum? g leaf).toList.foldl addNew
        ((g.chain leaf).foldl (addIf fun i => (g.node i).kind.tag == .enum) c.enums) } := by
  unfold addLeaf
  rw [addWrappedEnum_eq, foldl_addNode]

/-- Every item comes with what passes the test above it, and behind that. -/
structure Ranks (g : Graph) (test : Nat → Bool) (xs : List Nat) : Prop where
  closed : ∀ x ∈ xs, ∀ a ∈ g.ancestors x, test a = true → a ∈ xs
  ranked : xs.Pairwise fun x y => y ∉ g.ancestors x

namespace Ranks

variable {test : Nat → Bool} {xs : List Nat}

theorem addNew (ranks : Ranks g test xs) (passed : test i = true)
    (above : ∀ a ∈ g.ancestors i, test a = true → a ∈ xs) : Ranks g test (addNew xs i) where
  closed x mem a high here := mem_addNew.mpr <| .inl <| by
    rcases mem_addNew.mp mem with old | rfl
    · exact ranks.closed x old a high here
    · exact above a high here
  ranked := by
    unfold Collection.addNew
    split
    · exact ranks.ranked
    · next new =>
      refine List.pairwise_append.mpr ⟨ranks.ranked, List.pairwise_singleton _ _,
        fun x mem y last => ?_⟩
      rw [List.mem_singleton.mp last]
      exact fun high => new (List.contains_iff_mem.mpr (ranks.closed x mem i high passed))

/-- A way is gone down from the root. -/
theorem chain (ranks : Ranks g test xs) (i : Nat) :
    Ranks g test ((g.chain i).foldl (addIf test) xs) := by
  have last : ∀ {i ys}, Ranks g test ys → (∀ a ∈ g.ancestors i, test a = true → a ∈ ys) →
      Ranks g test (addIf test ys i) := fun ranks above => by
    unfold addIf
    split
    · next passed => exact ranks.addNew passed above
    · exact ranks
  induction i using Nat.strongRecOn with
  | ind i ih =>
    rcases Graph.ancestors_cases g i with none | ⟨p, lt, above⟩
    · rw [Graph.chain, none]
      exact last ranks (by rw [none]; exact fun _ mem => absurd mem List.not_mem_nil)
    · have split : g.chain i = g.chain p ++ [i] := by
        rw [Graph.chain, Graph.chain, above, List.reverse_cons]
      rw [split, List.foldl_append]
      refine last (ih p lt) fun a high passed => mem_foldl_addIf.mpr (.inr ⟨?_, passed⟩)
      rw [above] at high
      exact Graph.mem_chain.mpr (List.mem_cons.mp high)

end Ranks

namespace Sound

theorem empty (g : Graph) : Collection.empty.Sound g :=
  ⟨nofun, nofun, nofun, nofun, nofun, List.nodup_nil, rfl, nofun, nofun, nofun, nofun, .nil⟩

/-- A leaf is added with what is above it. -/
theorem addLeaf (sound : c.Sound g) (end_ : (g.node leaf).isLeaf = true) :
    (c.addLeaf g leaf).Sound g := by
  have inside : leaf < g.size := Graph.lt_size_of_ne fun nowhere => by
    rw [nowhere] at end_
    cases end_
  have mem : ∀ i, i ∈ (c.addLeaf g leaf).selected ↔
      i ∈ c.selected ∨ i = leaf ∨ i ∈ g.ancestors leaf := fun i => by
    rw [addLeaf_eq, mem_foldl_addNew, Graph.mem_chain]
  constructor
  case inside =>
    intro i hi
    rcases (mem i).mp hi with old | rfl | above
    · exact sound.inside i old
    · exact inside
    · exact (Graph.lt_of_mem_ancestors above).trans inside
  case upward =>
    intro i hi a above
    refine (mem a).mpr ?_
    rcases (mem i).mp hi with old | rfl | above'
    · exact .inl (sound.upward i old a above)
    · exact .inr (.inr above)
    · exact .inr (.inr (Graph.mem_ancestors_trans above above'))
  case containers =>
    intro i hi
    rw [addLeaf_eq, mem_foldl_addIf] at hi
    rcases hi with old | ⟨new, container⟩
    · exact ⟨(mem i).mpr (.inl (sound.containers i old).1), (sound.containers i old).2⟩
    · exact ⟨(mem i).mpr (.inr (Graph.mem_chain.mp new)), container⟩
  case paths =>
    intro i hi
    rw [addLeaf_eq]
    rcases (mem i).mp hi with old | new
    · obtain ⟨p, hp, front⟩ := sound.paths i old
      exact ⟨p, mem_addNew.mpr (.inl hp), front⟩
    · exact ⟨g.pathOf leaf, mem_addNew.mpr (.inr rfl), Graph.pathOf_mem_beginnings new⟩
  case leaves =>
    intro l hl
    rw [addLeaf_eq, mem_addNew] at hl
    rcases hl with old | rfl
    · exact (mem l).mpr (.inl (sound.leaves l old))
    · exact (mem l).mpr (.inr (.inl rfl))
  case distinct =>
    rw [addLeaf_eq]
    exact nodup_addNew sound.distinct
  case texts => rw [addLeaf_eq, sound.texts, addNew_texts]
  case leaf =>
    intro l hl
    rw [addLeaf_eq, mem_addNew] at hl
    rcases hl with old | rfl
    · exact sound.leaf l old
    · exact end_
  case below =>
    intro i hi
    rw [addLeaf_eq] at hi ⊢
    rcases mem_foldl_addNew.mp hi with old | new
    · obtain ⟨l, hl, way⟩ := sound.below i old
      exact ⟨l, mem_addNew.mpr (.inl hl), way⟩
    · exact ⟨leaf, mem_addNew.mpr (.inr rfl), new⟩
  case roots =>
    intro l hl
    rw [addLeaf_eq] at hl ⊢
    exact mem_addNew.mpr <| (mem_addNew.mp hl).imp (sound.roots l) (congrArg g.rootOf)
  case all_containers =>
    intro i hi container
    rw [addLeaf_eq] at hi ⊢
    exact mem_foldl_addIf.mpr <| (mem_foldl_addNew.mp hi).imp
      (fun old => sound.all_containers i old container) fun new => ⟨new, container⟩
  case ranked =>
    rw [addLeaf_eq]
    refine (Ranks.chain ⟨fun i hi a above container => ?_, sound.ranked⟩ leaf).ranked
    exact sound.all_containers a (sound.upward i (sound.containers i hi).1 a above) container

/-- Leaves are added one by one. -/
theorem addLeaves {leaves : List Nat} (sound : c.Sound g)
    (found : ∀ l ∈ leaves, (g.node l).isLeaf = true) :
    (leaves.foldl (Collection.addLeaf g) c).Sound g := by
  induction leaves generalizing c with
  | nil => exact sound
  | cons l more ih =>
    exact ih (sound.addLeaf (found l List.mem_cons_self))
      fun l mem => found l (List.mem_cons_of_mem _ mem)

/-- Nothing that was collected changes as the graph grows. -/
theorem grow {busy : Set Nat} (sound : c.Sound g) (step : g.Grows busy h) : c.Sound h where
  inside i hi := (sound.inside i hi).trans_le step.size_le
  upward i hi a above := by
    rw [step.ancestors (sound.inside i hi)] at above
    exact sound.upward i hi a above
  containers i hi := by
    obtain ⟨selected, container⟩ := sound.containers i hi
    exact ⟨selected, step.kind (sound.inside i selected) ▸ container⟩
  paths i hi := by
    rw [step.pathOf (sound.inside i hi)]
    exact sound.paths i hi
  leaves := sound.leaves
  distinct := sound.distinct
  texts := by
    rw [sound.texts]
    congr 1
    exact List.map_congr_left fun l hl => (step.pathOf (sound.inside l (sound.leaves l hl))).symm
  leaf l hl := by
    rw [Node.isLeaf, step.kind (sound.inside l (sound.leaves l hl))]
    exact sound.leaf l hl
  below i hi := by
    obtain ⟨l, hl, way⟩ := sound.below i hi
    refine ⟨l, hl, ?_⟩
    rwa [Graph.chain, step.ancestors (sound.inside l (sound.leaves l hl))]
  roots l hl := by
    rw [Graph.rootOf, step.ancestors (sound.inside l (sound.leaves l hl))]
    exact sound.roots l hl
  all_containers i hi container := by
    rw [step.kind (sound.inside i hi)] at container
    exact sound.all_containers i hi container
  ranked := sound.ranked.imp_of_mem fun {i _} hi _ apart => by
    rwa [step.ancestors (sound.inside i (sound.containers i hi).1)]

end Sound

end Collection

namespace Build

/-- **What paths collect is sound.** -/
theorem collectPaths_sound {texts : List String} {c c' : Collection}
    (h : Ends (collectPaths d c texts) r c' r') (sound : r.graph.Sound) (start : c.Sound r.graph) :
    r.Visits d r' ∧ c'.Sound r'.graph := by
  induction texts generalizing c r with
  | nil =>
    rw [collectPaths] at h
    obtain ⟨rfl, rfl⟩ := Ends.pure_iff.mp h
    exact ⟨.refl d r, start⟩
  | cons text rest ih =>
    rw [collectPaths] at h
    split at h
    · exact ih h sound start
    · simp only [Ends.bind_iff, ends_graph] at h
      obtain ⟨leaves, s, h, _, _, ⟨rfl, rfl⟩, h'⟩ := h
      obtain ⟨visits, found⟩ := resolveLeaves_finds h sound
      obtain ⟨more, collected⟩ :=
        ih h' (visits.sound sound) ((start.grow visits.grows).addLeaves found)
      exact ⟨visits.trans more, collected⟩

/-- Once a selection is collected, the filter lets all that is selected through. -/
theorem collect_sound {selections : List String} (h : Ends (collect d selections) r c r')
    (sound : r.graph.Sound) (rooted : r.graph.Rooted) :
    ∃ s, r.Visits d s ∧ r' = s.setFilter (PathFilter.ofPaths c.paths) ∧ c.Sound s.graph ∧
      ∀ i ∈ c.selected, (PathFilter.ofPaths c.paths).allows (s.graph.pathOf i) = true := by
  obtain ⟨c₀, s, collected, rfl, rfl⟩ := ends_collect.mp h
  obtain ⟨visits, sound'⟩ := collectPaths_sound collected sound (.empty _)
  have ordered : (c₀.inRootOrder s.graph).Sound s.graph :=
    { sound' with
      roots l hl := by
        have root := (rooted.moves visits.moves).rootOf_mem (visits.sound sound)
          (sound'.inside l (sound'.leaves l hl))
        exact List.mem_filter.mpr ⟨root, List.contains_iff_mem.mpr (sound'.roots l hl)⟩ }
  refine ⟨s, visits, rfl, ordered, fun i hi => ?_⟩
  obtain ⟨p, hp, front⟩ := ordered.paths i hi
  exact PathFilter.allows_of_beginning hp front

end Build

end RestGraph
