import Mathlib.Order.Defs.Unbundled
import RestGraph.Proofs.Graph.Retaining
import RestGraph.Proofs.Schema.Frozen
import RestGraph.Proofs.Schema.Responding
import RestGraph.Proofs.Text.Sorting

/-!
# Fields in order

The fields of every node stand in the order of names, whatever was called and whether it failed: an
object gets them in that order, and those of a merged composition are sorted at the end.
-/

namespace RestGraph

variable {d : Document} {g : Graph} {r s : Run} {i : Nat} {m m' : Build.Merged}
  {filtering : Bool}

namespace Text

/-- Names of which each stands before the next. -/
def Increasing (names : List String) : Prop := names.Pairwise fun a b => compareNames a b = .lt

/-- Names in increasing order are distinct. -/
theorem Increasing.nodup {names : List String} (increasing : Increasing names) : names.Nodup :=
  increasing.imp fun {a b} less same => by
    have self : compareNames b b = .eq := Std.ReflCmp.compare_self
    rw [same, self] at less
    cases less

/-- A name that is assigned stands where it stood, or comes last. -/
theorem Increasing.assign {α : Type} {props : List (String × α)} {name : String} {value : α}
    (increasing : Increasing (props.map Prod.fst))
    (last : ∀ a ∈ props.map Prod.fst, (compareNames a name).isLE) :
    Increasing ((Run.assign name value props).map Prod.fst) := by
  rw [Run.keys_assign]
  split
  · exact increasing
  · next new =>
    refine List.pairwise_append.mpr ⟨increasing, List.pairwise_singleton _ _,
      fun a mem b here => ?_⟩
    rw [List.mem_singleton.mp here]
    cases order : compareNames a name with
    | lt => rfl
    | eq => exact absurd (eq_of_compareNames order ▸ mem) new
    | gt =>
      have le := last a mem
      rw [order] at le
      cases le

end Text

/-- The fields are in order, and there are none before the node was visited. -/
structure Node.IsFiled (n : Node) : Prop where
  increasing : Text.Increasing (n.props.map Prod.fst)
  bare : n.visited = false → n.props = []

namespace Graph

def Filed (g : Graph) : Prop := ∀ i, (g.node i).IsFiled

/-- A node is filed by its mark and its fields. -/
theorem Filed.of_part {g h : Graph} (filed : g.Filed)
    (visited : (h.node i).visited = (g.node i).visited)
    (props : (h.node i).props = (g.node i).props) : (h.node i).IsFiled :=
  ⟨props ▸ (filed i).increasing, fun free => props.trans ((filed i).bare (visited ▸ free))⟩

theorem Filed.attach {p : Nat} {x : Seed} (filed : g.Filed) : (g.attach p x).Filed := fun j => by
  by_cases new : j = g.size
  · have bare : ((g.attach p x).node j).props = [] := by
      rw [props_attach, node_of_size_le new.ge]
      rfl
    exact ⟨bare ▸ .nil, fun _ => bare⟩
  · exact filed.of_part (by simp [new]) (props_attach j)

/-- A change of a node that is filed still. -/
theorem Filed.modify {f : Node → Node} (filed : g.Filed)
    (still : (g.node i).IsFiled → (f (g.node i)).IsFiled) : (g.modify i f).Filed := fun j => by
  by_cases inside : i < g.size
  · rw [node_modify inside]
    split
    · exact still (filed i)
    · exact filed j
  · rw [modify_of_size_le (Nat.le_of_not_lt inside)]
    exact filed j

theorem retained_filed : Retained Filed where
  attach := Filed.attach
  turn filed := filed.modify fun same => ⟨same.increasing, same.bare⟩

/-- The graph of a document starts with its fields filed. -/
theorem ofDocument_filed (d : Document) : (ofDocument d).Filed := by
  have files : ∀ (g : Graph) taken (entries : List OperationEntry), g.Filed →
      (g.addOperations taken entries).Filed := by
    intro g taken entries filed
    induction entries generalizing g taken with
    | nil => exact filed
    | cons e rest ih =>
      refine ih _ _ fun i => ?_
      rw [node_addRoot]
      split
      · exact ⟨.nil, fun _ => rfl⟩
      · exact filed i
  refine files empty [] d.operations fun i => ?_
  rw [node_of_size_le (Nat.zero_le _)]
  exact ⟨.nil, fun _ => rfl⟩

/-- The node has such fields, and is there. -/
def Has (i : Nat) (props : List (String × Nat)) (g : Graph) : Prop :=
  i < g.size ∧ (g.node i).props = props

/-- Making nodes leaves the fields of a node. -/
theorem retained_has (i : Nat) (props : List (String × Nat)) : Retained (Has i props) where
  attach := fun ⟨inside, same⟩ =>
    ⟨inside.trans lt_size_attach, (props_attach _).trans same⟩
  turn := fun ⟨inside, same⟩ => by
    refine ⟨size_modify.symm ▸ inside, Eq.trans ?_ same⟩
    exact part_modify Node.props (fun _ => by rfl) i

end Graph

namespace Build

/-- The fields of an object are made one after the other, and their names are sorted. -/
theorem visitObject_filed (here : r.graph.Has i []) (visited : (r.graph.node i).visited = true) :
    Along (Run.Retains Graph.Filed) (visitObject d i) r := by
  refine along_node.bind fun {_ u} look _ => ?_
  obtain ⟨rfl, rfl⟩ := ends_node.mp look
  let entries := sortedProperties (r.graph.node i).schema
  have sorted : entries.Pairwise fun x y => (Text.compareNames x.1 y.1).isLE :=
    Text.sortByName_sorted
  -- after `k` rounds the fields have the names of the first `k` entries
  let Made : Nat → Run → Prop := fun k s => s.graph.IsDone i ∧
    ∀ a ∈ (s.graph.node i).props.map Prod.fst, a ∈ (entries.take k).map Prod.fst
  have made : ∀ {k : Nat} {s u : Run} {name : String} {schema : Json} {required : Bool}
      {prop : Nat}, Made k s → Ends (fromProp d i name schema required) s prop u →
      Made k u ∧ (u.graph.node i).props = (s.graph.node i).props := by
    rintro k s u name schema required prop ⟨done, known⟩ makes
    obtain ⟨-, same⟩ := (fromProp_retains (Graph.retained_has i _)).ends makes ⟨done.1, rfl⟩
    exact ⟨⟨(fromProp_works.ends makes).isDone done, same ▸ known⟩, same⟩
  refine .forM_counts (I := Made) ?_ ?_ ⟨⟨here.1, visited⟩, fun a none => ?_⟩
  · rintro k ⟨name, schema⟩ s at_ before
    refine (fromProp_retains Graph.retained_filed).bind fun {prop u} makes _ =>
      .modify fun filed => ?_
    obtain ⟨⟨done, known⟩, -⟩ := made before makes
    refine filed.modify fun own => ⟨own.increasing.assign fun a mem => ?_, fun free => ?_⟩
    · obtain ⟨x, early, rfl⟩ := List.mem_map.mp (known a mem)
      obtain ⟨j, lt, rfl⟩ := List.mem_take_iff_getElem.mp early
      obtain ⟨bound, this⟩ := List.getElem?_eq_some_iff.mp at_
      have le := List.pairwise_iff_getElem.mp sorted j k (by omega) bound (by omega)
      rwa [this] at le
    · exact absurd (free.symm.trans done.2) Bool.false_ne_true
  · rintro k ⟨name, schema⟩ s t at_ before round
    obtain ⟨prop, u, makes, round⟩ := Ends.bind_iff.mp round
    obtain rfl := ends_modifyNode.mp round
    obtain ⟨⟨done, known⟩, -⟩ := made before makes
    have node :
        ((u.graph.modify i fun n => { n with props := Run.assign name prop n.props }).node i) =
        { u.graph.node i with props := Run.assign name prop (u.graph.node i).props } :=
      Graph.node_modify_self done.1
    refine ⟨⟨Graph.size_modify.symm ▸ done.1, (congrArg Node.visited node).trans done.2⟩, ?_⟩
    intro a mem
    change a ∈ ((u.graph.modify i _).node i).props.map Prod.fst at mem
    rw [node, Run.keys_assign] at mem
    rw [List.take_add_one, show entries[k]? = some (name, schema) from at_, List.map_append]
    split at mem
    · exact List.mem_append_left _ (known a mem)
    · exact (List.mem_append.mp mem).elim (fun old => List.mem_append_left _ (known a old))
        fun new => List.mem_append_right _ new
  · rw [here.2] at none
    exact absurd none List.not_mem_nil

theorem enduring_filed : Graph.Enduring d Graph.Filed where
  __ := Graph.retained_filed
  mark free other filed := filed.modify fun own => ⟨own.increasing, nofun⟩
  object := by
    intro r i tag free object filed
    have inside : i < r.graph.size := Graph.lt_size_of_not_visited free
    have node : (r.graph.modify i fun n => { n with visited := true }).node i =
        { r.graph.node i with visited := true } := Graph.node_modify_self inside
    have along : Along (Run.Retains Graph.Filed) (framed i tag (visitObject d i))
        (r.onGraph fun g => g.modify i fun n => { n with visited := true }) := by
      refine along_framed (visitObject_filed ⟨Graph.size_modify.symm ▸ inside, ?_⟩ ?_) id
      · exact (congrArg Node.props node).trans ((filed i).bare free)
      · exact congrArg Node.visited node
    have mark : Along (Run.Retains Graph.Filed)
        (modifyNode i fun n => { n with visited := true }) r := .modify fun filed =>
      filed.modify fun own => ⟨own.increasing, nofun⟩
    refine (mark.bind fun h _ => ?_) filed
    obtain rfl := ends_modifyNode.mp h
    exact along

/-! ## Merging -/

theorem nodup_of_mergeBranch {below : List Nat} (keys : (m.props.map Prod.fst).Nodup)
    (h : Ends (mergeBranch d filtering m i) r (m', below) s) : (m'.props.map Prod.fst).Nodup := by
  obtain ⟨-, rfl, -, -⟩ | ⟨-, v, -, -, -, rfl⟩ := mergeBranch_cases h
  · exact keys
  · exact (addProps_spec s filtering _ _).2.2.2 keys

/-- No two of the fields that merging finds have one name. -/
theorem nodup_of_mergeLevels {depth : Nat} {level : List Nat} (keys : (m.props.map Prod.fst).Nodup)
    (h : Ends (mergeLevels d filtering depth m level) r m' s) : (m'.props.map Prod.fst).Nodup :=
  mergeLevels_keeps (I := fun m _ _ => (m.props.map Prod.fst).Nodup) (fun _ => id)
    (fun h keys => nodup_of_mergeBranch keys h) h keys

end Build

namespace Run

def file (d : Document) : Course d where
  holds _ := True
  along := Retains Graph.Filed
  preorder := inferInstance
  keeps _ _ := trivial
  registry notes _ filed := notes.graph ▸ filed
  visit _ h := (Build.visit_retains Build.enduring_filed).ends h

instance : (file d).Enduring where
  fails _ h := (Build.visit_retains Build.enduring_filed).fails h

instance : (file d).Bookless := ⟨fun graph _ _ _ filed => graph ▸ filed⟩

theorem comes_consolidate_filed : Comes (file d) id (Build.consolidate d i) r := by
  have mark : ∀ {s : Run}, s.Retains Graph.Filed (s.marked i) := fun filed =>
    filed.modify fun own => ⟨own.increasing, own.bare⟩
  have visit : ∀ {s}, Ends (Build.visit d i) r ⟨⟩ s → r.Retains Graph.Filed (s.marked i) :=
    fun visits => mark ∘ (file d).visit trivial visits
  refine Build.comes_consolidate (S := file d) trivial (fun _ => trivial)
    (fun _ visits along _ => along trivial ∘ visit visits)
    fun {s m t filtering depth} _ visits merges filed => ?_
  have merged : t.graph.Filed :=
    (Build.coming_mergeLevels (S := file d) trivial).ends merges (visit visits filed)
  refine merged.modify fun own => ⟨?_, fun free => ?_⟩
  · exact Text.sortByName_increasing
      (Build.nodup_of_mergeLevels (m := ⟨[], []⟩) List.nodup_nil merges)
  · by_cases inside : i < (s.marked i).graph.size
    · -- the node was visited before its branches were merged
      have old : i < s.graph.size := inside.trans_eq Graph.size_modify
      have done : (s.graph.node i).visited = true := by
        by_cases here : i < r.graph.size
        · exact (Build.isDone_of_visit here visits).2
        · have visited : (r.graph.node i).visited = true := by
            rw [Graph.node_of_size_le (Nat.le_of_not_lt here)]
            rfl
          obtain ⟨-, rfl⟩ := visits.unique (Build.ends_visit_of_visited visited)
          exact visited
      have marked : ((s.marked i).graph.node i).visited = true :=
        (Graph.part_modify Node.visited (by exact fun _ => rfl) i).trans done
      have freezes : (s.marked i).Freezes (fun _ => False) t :=
        (Build.coming_mergeLevels (S := freeze d _) (s := s.marked i) trivial).ends merges
      exact absurd (free.symm.trans ((freezes.remains i inside).visited marked)) Bool.false_ne_true
    · -- there is nothing to merge
      have none : Build.branchesBelow (s.marked i).graph i = [] := by
        rw [Build.branchesBelow, Graph.node_of_size_le (Nat.le_of_not_lt inside)]
        rfl
      rw [none] at merges
      cases depth <;>
      · obtain ⟨rfl, -⟩ := Ends.pure_iff.mp merges
        rfl

def filing (d : Document) : OpenRegime d where
  toCourse := file d
  consolidate _ _ _ := comes_consolidate_filed
  frames := id

instance : (filing d).toCourse.Enduring := inferInstanceAs (file d).Enduring

/-- The fields of all nodes are in order, wherever a client has come to. -/
theorem Touched.filed (touched : r.Touched d) : r.graph.Filed := by
  induction touched with
  | start => exact Graph.ofDocument_filed d
  | call c _ filed => exact c.after_along (S := filing d) trivial filed
  | graftSchema _ _ _ filed => exact Build.graftSchema_retains Graph.retained_filed filed
  | graftProp _ _ _ _ _ filed => exact Build.graftProp_retains Graph.retained_filed filed

end Run

end RestGraph
