import RestGraph.Proofs.Schema.Filing
import RestGraph.Proofs.Schema.FieldNames

/-!
# Declarations and mappings in order

Declarations list their fields in the order of names, however many nodes they have gathered them
from, and so do the blocks of mappings. So what a declaration and a block have in common comes in
the same order in both.
-/

namespace RestGraph

variable {d : Document} {c : Collection} {g : Graph} {r r' : Run} {s t : Draft} {i target : Nat}
  {side : Side}

/-- Some of the names in increasing order are in increasing order. -/
theorem Text.Increasing.sublist {names some : List String} (increasing : Increasing names)
    (sub : some.Sublist names) : Increasing some := List.Pairwise.sublist sub increasing

/-- Of two increasing lists the names in common come in the same order. -/
theorem Text.Increasing.common_eq {xs ys : List String} (left : Increasing xs)
    (right : Increasing ys) : (xs.filter fun x => ys.contains x) = ys.filter fun y =>
    xs.contains y := by
  have mem : ∀ z, z ∈ (xs.filter fun x => ys.contains x) ↔ z ∈ ys.filter fun y =>
      xs.contains y := by
    intro z
    simp only [List.mem_filter, List.contains_iff_mem, and_comm]
  have perm : (xs.filter fun x => ys.contains x).Perm (ys.filter fun y => xs.contains y) :=
    (List.perm_ext_iff_of_nodup (left.nodup.filter _) (right.nodup.filter _)).mpr mem
  refine perm.eq_of_pairwise (fun a b _ _ less more => ?_) (left.sublist List.filter_sublist)
    (right.sublist List.filter_sublist)
  have greater : compareNames b a = .gt := Std.OrientedCmp.gt_of_lt less
  cases greater.symm.trans more

/-- Fields that are gained are sorted in. -/
theorem increasing_mergeFields {fields more : List FieldDecl}
    (own : Text.Increasing (fields.map FieldDecl.jsonName))
    (others : Text.Increasing (more.map FieldDecl.jsonName)) :
    Text.Increasing ((mergeFields fields more).map FieldDecl.jsonName) := by
  have keys := nodup_mergeFields own.nodup others.nodup
  rw [mergeFields] at keys ⊢
  split at keys
  · next none =>
    rw [if_pos none]
    exact own
  · next some =>
    rw [if_neg some]
    exact Text.sortByName_increasing
      (((Text.sortByName_perm _ _).map FieldDecl.jsonName).nodup_iff.mp keys)

/-- The fields are in order. -/
def Definition.IsOrdered (own : Definition) : Prop :=
  Text.Increasing (own.fields.map FieldDecl.jsonName)

/-- Merged definitions stay in order. -/
theorem Definition.IsOrdered.merge {own other : Definition} (ordered : own.IsOrdered)
    (more : other.IsOrdered) : (own.merge other).IsOrdered := by
  cases own with
  | enum => cases other <;> exact ordered
  | object =>
    cases other with
    | enum => exact ordered
    | object => exact increasing_mergeFields ordered more

/-! ## Drafting -/

/-- The fields of all nodes and of all declarations are in order. -/
structure Draft.Filed (s : Draft) : Prop where
  graph : s.run.graph.Filed
  decls : ∀ t ∈ s.decls, t.definition.IsOrdered

/-- The order is not lost. -/
def Draft.Files (s t : Draft) : Prop := s.Filed → t.Filed

instance : IsPreorder Draft Draft.Files where
  refl _ := id
  trans _ _ _ first second := second ∘ first

namespace Drafting

/-- A draft files by its graph and its declarations. -/
theorem files_of_same (graph : t.run.graph = s.run.graph) (decls : t.decls = s.decls) : s.Files t :=
  fun filed => ⟨graph ▸ filed.graph, decls ▸ filed.decls⟩

/-- A step on the graph files inside a draft. -/
theorem lift_files {α : Type} {step : Build α} (coming : Coming (Run.filing d).toCourse id step) :
    Along Draft.Files (lift step) s := fun filed =>
  ⟨(coming (s := s.run) trivial).along trivial filed.graph, filed.decls⟩

theorem graph_files : Along Draft.Files graph s := Along.get.bind fun _ _ => .pure _

theorem node_files : Along Draft.Files (node i) s := Along.get.bind fun _ _ => .pure _

theorem scalar_files {type : ScalarType} : Along Draft.Files (scalar type) s := by
  unfold scalar
  dsimp only
  split
  · exact Along.bind (.modify (files_of_same rfl rfl)) fun _ _ => .pure _
  · exact .pure _

/-- A definition in order may be declared. -/
theorem declare_files {own : Definition} (ordered : own.IsOrdered) :
    Along Draft.Files (declare target side own) s := by
  unfold declare
  refine node_files.bind fun {n u} look _ => ?_
  dsimp only
  refine Along.get.bind fun here' _ => ?_
  obtain ⟨rfl, rfl⟩ := Ends.get_iff.mp here'
  split
  · next index _ =>
    refine Along.bind (.set fun filed => ⟨filed.graph, fun t mem => ?_⟩) fun _ _ => .pure _
    obtain ⟨j, here⟩ := List.mem_iff_getElem?.mp mem
    change (List.modify _ index _)[j]? = some t at here
    rw [List.getElem?_modify] at here
    split at here
    · obtain ⟨first, old, rfl⟩ := Option.map_eq_some_iff.mp here
      exact (filed.decls first (List.mem_of_getElem? old)).merge ordered
    · obtain ⟨first, old, rfl⟩ := Option.map_eq_some_iff.mp here
      exact filed.decls _ (List.mem_of_getElem? old)
  · refine Along.bind (.set fun filed => ⟨?_, fun t mem => ?_⟩) fun _ _ => .pure _
    · rw [Run.graph_markGenerated]
      exact filed.graph
    · rcases List.mem_append.mp mem with old | new
      · exact filed.decls t old
      · rw [List.mem_singleton.mp new]
        exact ordered

theorem enumType_files {values : List String} : Along Draft.Files (enumType target values) s := by
  have rest : ∀ {s : Draft}, Along Draft.Files (do
      let schema := (← node target).schema
      return (.scalar (((Shape.keyword? schema).bind ScalarType.ofKeyword?).getD .string) :
        TypeRef)) s := node_files.bind fun _ _ => .pure _
  unfold enumType
  dsimp only
  split
  · exact declare_files .nil
  · refine Along.get.bind fun {u v} here _ => ?_
    obtain ⟨rfl, rfl⟩ := Ends.get_iff.mp here
    split
    · exact Along.bind (.set (files_of_same rfl rfl)) fun _ _ => rest
    · exact rest

/-- Fields are declared in the order in which they are shown. -/
theorem names_of_fieldDecls {typeOf : Nat → Side → Drafting (Option TypeRef)}
    {fields : List VisibleField} {made : List FieldDecl}
    (h : Ends (fieldDecls d typeOf side fields) s made t) :
    (made.map FieldDecl.jsonName).Sublist (fields.map VisibleField.jsonName) := by
  induction fields generalizing s made with
  | nil =>
    obtain ⟨rfl, -⟩ := Ends.pure_iff.mp h
    exact .slnil
  | cons f rest ih =>
    unfold fieldDecls at h
    split at h
    · exact (ih h).cons _
    · obtain ⟨_, _, -, h⟩ := Ends.bind_iff.mp h
      obtain ⟨type, u, -, h⟩ := Ends.bind_iff.mp h
      split at h
      · exact (ih h).cons _
      · obtain ⟨_, _, -, h⟩ := Ends.bind_iff.mp h
        obtain ⟨more, _, later, last⟩ := Ends.bind_iff.mp h
        obtain ⟨rfl, rfl⟩ := Ends.pure_iff.mp last
        exact (ih later).cons_cons _

section Types

variable {typeOf : Nat → Side → Drafting (Option TypeRef)}
  (types : ∀ {i side s}, Along Draft.Files (typeOf i side) s)

include types

theorem propTypeWithin_files {depth : Nat} :
    Along Draft.Files (propTypeWithin d typeOf depth i side) s := by
  induction depth generalizing i s with
  | zero => exact .throw _
  | succ depth ih =>
    refine (lift_files (d := d) Build.coming_visit).bind fun _ _ => node_files.bind fun _ _ => ?_
    split
    · exact scalar_files.bind fun _ _ => .pure _
    · exact .pure _
    · exact ih.bind fun _ _ => .pure _
    · exact types
    · exact scalar_files.bind fun _ _ => .pure _
    · exact .pure _

theorem fieldDecls_files {fields : List VisibleField} :
    Along Draft.Files (fieldDecls d typeOf side fields) s := by
  induction fields generalizing s with
  | nil => exact .pure _
  | cons f rest ih =>
    unfold fieldDecls
    split
    · exact ih
    · refine Along.get.bind fun _ _ => (propTypeWithin_files types).bind fun _ _ => ?_
      split
      · exact ih
      · exact graph_files.bind fun _ _ => ih.bind fun _ _ => .pure _

theorem objectType_files : Along Draft.Files (objectType d c typeOf target side) s := by
  have rest : ∀ {s : Draft} (selection : Option Collection), Along Draft.Files (do
      let fields ← fieldDecls d typeOf side (visibleFields (← graph) target selection)
      if fields.isEmpty then scalar .json else declare target side (.object fields)) s := by
    intro s selection filed
    refine (graph_files.bind fun {g u} look _ => ?_) filed
    obtain ⟨rfl, rfl⟩ := ends_graph.mp look
    refine (fieldDecls_files types).bind fun {fields _} made _ => ?_
    split
    · exact scalar_files
    · refine declare_files ((filed.graph target).increasing.sublist ?_)
      refine (names_of_fieldDecls made).trans ?_
      rw [visibleFields, Graph.jsonNames_nameFields]
      exact List.filter_sublist.map _
  have visited : ∀ {s : Draft} (selection : Option Collection), Along Draft.Files (do
      lift (Build.visit d target)
      let fields ← fieldDecls d typeOf side (visibleFields (← graph) target selection)
      if fields.isEmpty then scalar .json else declare target side (.object fields)) s :=
    fun selection => (lift_files (d := d) Build.coming_visit).bind fun _ _ => rest selection
  have merged : ∀ {s : Draft} (selection : Option Collection), Along Draft.Files (do
      discard (lift (Build.consolidate d target))
      let fields ← fieldDecls d typeOf side (visibleFields (← graph) target selection)
      if fields.isEmpty then scalar .json else declare target side (.object fields)) s :=
    fun selection =>
      (lift_files (Build.coming_consolidate (S := (Run.filing d).toRegime))).discard.bind
      fun _ _ => rest selection
  unfold objectType
  refine node_files.bind fun _ _ => ?_
  cases side <;> dsimp only <;> split <;> first | exact merged _ | exact visited _

end Types

theorem nodeTypeWithin_files {depth : Nat} :
    Along Draft.Files (nodeTypeWithin d c depth i side) s := by
  induction depth generalizing i side s with
  | zero => exact .throw _
  | succ depth ih =>
    refine (lift_files (d := d) Build.coming_resolveTarget).bind fun {target _} _ _ =>
      node_files.bind fun _ _ => ?_
    have object : ∀ {s : Draft}, Along Draft.Files (do
        let t ← objectType d c (nodeTypeWithin d c depth) target side
        return some t) s := (objectType_files ih).bind fun _ _ => .pure _
    split
    · exact scalar_files.bind fun _ _ => .pure _
    · exact enumType_files.bind fun _ _ => .pure _
    · exact scalar_files.bind fun _ _ => .pure _
    · exact object
    · exact object
    · exact object
    · split
      · exact ih.bind fun _ _ => .pure _
      · exact scalar_files.bind fun _ _ => .pure _
    · exact .pure _
    · exact scalar_files.bind fun _ _ => .pure _

theorem nodeType_files : Along Draft.Files (nodeType d c i side) s :=
  Along.get.bind fun _ _ => nodeTypeWithin_files

theorem declareContainers_files : Along Draft.Files (declareContainers d c) s := by
  refine .forM fun {i _} _ _ => Along.get.bind fun _ _ => ?_
  dsimp only
  split
  · exact .pure _
  · split
    · exact .pure _
    · exact nodeType_files.discard

theorem enter_files {tag : Tag} : Along Draft.Files (onRun (Run.enter i tag)) s :=
  .modify (files_of_same rfl rfl)

theorem leave_files : Along Draft.Files (onRun Run.leave) s := .modify (files_of_same rfl rfl)

theorem childType_files {tag : Tag} {child : Option Nat} :
    Along Draft.Files (childType d c i tag child) s := by
  unfold childType
  refine enter_files.bind fun _ _ => ?_
  cases child with
  | some schema => exact nodeType_files.bind fun _ _ => leave_files.bind fun _ _ => .pure _
  | none => exact (Along.pure _).bind fun _ _ => leave_files.bind fun _ _ => .pure _

theorem addChild_files {decl : OperationDecl} : Along Draft.Files (addChild d c decl i) s := by
  unfold addChild
  refine node_files.bind fun _ _ => ?_
  dsimp only
  split
  · exact childType_files.bind fun _ _ => .pure _
  · refine childType_files.bind fun {type _} _ _ => graph_files.bind fun _ _ => ?_
    cases type with
    | some t => exact (Along.pure t).bind fun _ _ => .pure _
    | none => exact scalar_files.bind fun _ _ => .pure _
  · split
    on_goal 1 => refine nodeType_files.bind fun {type _} _ _ => ?_
    on_goal 2 => refine (Along.pure _).bind fun {type _} _ _ => ?_
    all_goals cases type with
    | some t => exact (Along.pure t).bind fun _ _ => graph_files.bind fun _ _ => .pure _
    | none => exact scalar_files.bind fun _ _ => graph_files.bind fun _ _ => .pure _
  · exact .pure _

/-- An operation is drafted with all in order. -/
theorem operation_files : Along Draft.Files (operation d c i) s := by
  unfold operation
  refine (lift_files (d := d) Build.coming_childrenOf).bind fun _ _ =>
    graph_files.bind fun _ _ => ?_
  dsimp only
  split
  · refine enter_files.bind fun _ _ => ?_
    refine Along.bind (.foldlM fun _ _ => addChild_files) fun _ _ => ?_
    exact leave_files.bind fun _ _ => .pure _
  · exact .throw _

end Drafting

/-- Whatever is drafted from a run in which the fields of all nodes are in order. -/
theorem Build.filed_of_draft {ops : List OperationDecl} (h : Ends (draft d c) r (t, ops) r')
    (filed : r.graph.Filed) : t.Filed ∧ r' = t.run := by
  have drafts : Along Draft.Files (do
      Drafting.declareContainers d c
      c.operations.mapM (Drafting.operation d c)) (Draft.start r) :=
    Drafting.declareContainers_files.bind fun _ _ => .mapM fun _ _ => Drafting.operation_files
  unfold draft at h
  obtain ⟨_, _, look, h⟩ := Ends.bind_iff.mp h
  obtain ⟨rfl, rfl⟩ := Ends.get_iff.mp look
  obtain ⟨_, _, left, h⟩ := Ends.bind_iff.mp h
  obtain ⟨_, _, found, last⟩ := Ends.bind_iff.mp h
  obtain ⟨same, rfl⟩ := Ends.pure_iff.mp last
  cases same
  exact ⟨drafts ⟨filed, nofun⟩,
    (Ends.liftExcept_iff.mp found).2.symm.trans (Ends.set_iff.mp left).symm⟩

/-! ## Mappings -/

def Entry.key : Entry → String
  | circular key | leaf _ key _ | block _ key _ => key

/-- What stands between two braces inside some entries, or outside all of them. -/
inductive Entry.IsBlockOf (entries : List Entry) : List Entry → Prop
  | whole : IsBlockOf entries entries
  | inner {outer more : List Entry} {name key : String} (before : IsBlockOf entries outer)
    (mem : .block name key more ∈ outer) : IsBlockOf entries more

namespace Graph

variable {selection : Option Collection} {n : Nat} {block : List Entry}

/-- The keys of the entries are the names of the visible fields. -/
@[simp] theorem keys_entriesOf (g : Graph) (selection : Option Collection) (n : Nat) :
    (entriesOf g selection n).map Entry.key =
      (visibleFields g n selection).map VisibleField.jsonName := by
  rw [entriesOf, List.map_map]
  refine List.map_congr_left fun f _ => ?_
  rw [Function.comp_apply]
  split
  · rfl
  · dsimp only
    repeat' split
    all_goals rfl

/-- Every block has the entries of a container. -/
theorem eq_entriesOf_of_isBlockOf (inside : Entry.IsBlockOf (entriesOf g selection n) block) :
    ∃ m, block = entriesOf g selection m := by
  induction inside with
  | whole => exact ⟨n, rfl⟩
  | inner _ mem ih =>
    obtain ⟨m, rfl⟩ := ih
    rw [entriesOf] at mem
    obtain ⟨f, -, made⟩ := List.mem_map.mp mem
    split at made
    · cases made
    · dsimp only at made
      split at made
      · cases made
      · split at made
        · split at made
          · cases made
            exact ⟨_, rfl⟩
          · cases made
        · cases made

/-- The keys of every block increase. -/
theorem Filed.increasing_block (filed : g.Filed)
    (inside : Entry.IsBlockOf (entriesOf g selection n) block) :
    Text.Increasing (block.map Entry.key) := by
  obtain ⟨m, rfl⟩ := eq_entriesOf_of_isBlockOf inside
  rw [keys_entriesOf, visibleFields, jsonNames_nameFields]
  exact (filed m).increasing.sublist (List.filter_sublist.map _)

end Graph

/-! ## Everything in order -/

instance : IsStrictTotalOrder String fun a b => Text.compareNames a b = .lt where
  irrefl a less := by
    have self : Text.compareNames a a = .eq := Std.ReflCmp.compare_self
    cases self.symm.trans less
  trans _ _ _ := Std.TransCmp.lt_trans
  trichotomous a b none more := by
    cases order : Text.compareNames a b with
    | lt => exact absurd order none
    | eq => exact Text.eq_of_compareNames order
    | gt => exact absurd (Std.OrientedCmp.lt_of_gt order) more

/-- Whatever was called and whatever was grafted before: the order of names is total and tells all
names apart, the fields of all nodes are in it, and once a collection is drafted so are the fields
of all declarations and the entries of all blocks. -/
theorem Run.Touched.in_order (touched : r.Touched d) :
    (IsStrictTotalOrder String fun a b => Text.compareNames a b = .lt) ∧
    (∀ a b, Text.compareNames a b = .eq ↔ a = b) ∧
    (∀ i, Text.Increasing ((r.graph.node i).props.map Prod.fst)) ∧
    ∀ c t ops s, Ends (Build.draft d c) r (t, ops) s →
      (∀ i, Text.Increasing ((s.graph.node i).props.map Prod.fst)) ∧
      (∀ decl ∈ t.decls, decl.definition.IsOrdered) ∧
      ∀ selection n block, Entry.IsBlockOf (entriesOf s.graph selection n) block →
        Text.Increasing (block.map Entry.key) ∧
        ∀ decl ∈ t.decls, let names := decl.definition.fields.map FieldDecl.jsonName
          (block.map Entry.key).filter names.contains =
            names.filter (block.map Entry.key).contains := by
  refine ⟨inferInstance, fun a b => ⟨Text.eq_of_compareNames, fun same => ?_⟩,
    fun i => (touched.filed i).increasing, fun c t ops s drafted => ?_⟩
  · rw [same]
    exact Std.ReflCmp.compare_self
  · obtain ⟨filed, rfl⟩ := Build.filed_of_draft drafted touched.filed
    refine ⟨fun i => (filed.graph i).increasing, filed.decls, fun selection n block inside => ?_⟩
    have ordered := filed.graph.increasing_block inside
    exact ⟨ordered, fun decl mem => ordered.common_eq (filed.decls decl mem)⟩

/-- Two operations select one field of a component each, the second in order first. -/
theorem shared_in_order : ∃ r c t ops s, r.Touched (.shared "b" "a") ∧
    Ends (Build.draft (.shared "b" "a") c) r (t, ops) s ∧
    (∃ decl ∈ t.decls, decl.definition.fields.map FieldDecl.jsonName = ["a", "b"]) ∧
    (∀ decl ∈ t.decls, decl.definition.IsOrdered) ∧
    ∀ selection n block, Entry.IsBlockOf (entriesOf s.graph selection n) block →
      Text.Increasing (block.map Entry.key) := by
  let r : Run := Call.after (.shared "b" "a") (.ofDocument (.shared "b" "a"))
    (.collect (Document.sharedPaths "b" "a"))
  have touched : r.Touched (.shared "b" "a") := .call _ .start
  have run : Ends.passes (Build.collect (.shared "b" "a") (Document.sharedPaths "b" "a"))
      (.ofDocument (.shared "b" "a"))
      (fun c r => Ends.passes (Build.draft (.shared "b" "a") c) r fun x _ => decide
        (∃ decl ∈ x.1.decls, decl.definition.fields.map FieldDecl.jsonName = ["a", "b"])) =
        true := by
    decide +kernel
  obtain ⟨c, s, collected, drafts⟩ := Ends.of_passes run
  obtain ⟨⟨t, ops⟩, s', drafted, found⟩ := Ends.of_passes drafts
  have step : Ends (Call.step (.shared "b" "a") (.collect (Document.sharedPaths "b" "a")))
      (.ofDocument (.shared "b" "a")) ⟨⟩ s := Ends.discard_iff.mpr ⟨c, collected⟩
  obtain rfl : r = s := congrArg Prod.snd step
  obtain ⟨-, -, -, order⟩ := touched.in_order
  obtain ⟨-, ordered, blocks⟩ := order c t ops s' drafted
  exact ⟨r, c, t, ops, s', touched, drafted, of_decide_eq_true found, ordered,
    fun selection n block inside => (blocks selection n block inside).1⟩

end RestGraph
