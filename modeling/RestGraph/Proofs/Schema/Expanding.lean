import Mathlib.Tactic.Linarith
import RestGraph.Proofs.Graph.Depths
import RestGraph.Proofs.Schema.Responding

/-!
# Full expansion

All leaves below a node, and all types that a node needs, are found by going down as far as there is
something to go down to. Where no array component unrolls no way is longer than the description
allows, so both come to an end.
-/

namespace RestGraph

variable {d : Document} {r s : Run} {i c p : Nat} {n : Nat}

/-- What calls keep of the runs that they lead to. -/
structure Run.Kept (d : Document) (r : Run) : Prop where
  firm : r.Firm d
  bounded : r.Bounded d d.root.pointers d.bound none

/-- A stretch of calls. -/
structure Run.Keeping (d : Document) (r s : Run) : Prop where
  advances : Run.Advances d r s
  proceeds : Run.Proceeds d d.root.pointers d.bound none r s

instance : IsPreorder Run (Run.Keeping d) where
  refl r := ⟨refl_of _ r, refl_of _ r⟩
  trans _ _ _ first second :=
    ⟨trans_of _ first.advances second.advances, trans_of _ first.proceeds second.proceeds⟩

namespace Run

/-- A run that is kept may go on growing. -/
theorem Kept.holds (kept : r.Kept d) : (growing d).holds r :=
  ⟨kept.firm.graph.forest, kept.firm.graph.fielded⟩

/-- The course of the runs that calls lead to. -/
def keep (d : Document) : Course d where
  holds := Kept d
  along := Keeping d
  preorder := inferInstance
  keeps next kept := ⟨next.advances.firm kept.firm, next.proceeds.bounded kept.bounded⟩
  registry notes extent := ⟨.of_same notes.graph extent, .of_same notes.graph extent⟩
  visit kept h := ⟨(growing d).visit kept.holds h, (bounding d _ _ _).visit kept.bounded h⟩

instance : (keep d).Bookless :=
  ⟨fun graph extent _ _ => ⟨.of_same graph extent, .of_same graph extent⟩⟩

def keeping (d : Document) : OpenRegime d where
  toCourse := keep d
  consolidate _ := Build.coming_consolidate_of (S := keep d) (fun _ => ⟨.merged, .merged⟩)
    fun kept merged => ⟨Build.fill_of_mergeLevels kept.holds merged, .filled⟩
  frames := ⟨.of_same rfl rfl, .of_same rfl rfl⟩

instance : (keeping d).toCourse.Enduring where
  fails kept h := ⟨Course.Enduring.fails (S := growth d) kept.holds h,
    Course.Enduring.fails (S := bounds d _ _ _) kept.bounded h⟩

/-- Calls keep a run. -/
theorem Keeping.kept (next : Keeping d r s) (kept : r.Kept d) : s.Kept d :=
  (keeping d).keeps next kept

/-- A run that calls attain is kept. -/
theorem Attained.kept (attained : r.Attained d) : r.Kept d := by
  induction attained with
  | start => exact ⟨⟨Graph.ofDocument_firm d, rfl⟩, ofDocument_bounded d⟩
  | call c _ kept => exact Keeping.kept (c.after_along (S := keeping d) kept) kept

def height (r : Run) (i : Nat) : Nat := (r.graph.way i).length

/-- Calls lower no node. -/
theorem Keeping.height_le (next : Keeping d r s) (i : Nat) : r.height i ≤ s.height i := by
  rw [Run.height, Run.height, Graph.way, Graph.way]
  by_cases inside : i < r.graph.size
  · rw [next.advances.grown.ancestors inside]
  · rw [Graph.ancestors_of_root (g := r.graph) (by
      rw [Graph.node_of_size_le (Nat.le_of_not_lt inside)]
      rfl)]
    exact Nat.succ_le_succ (Nat.zero_le _)

/-- A child is one higher than its parent. -/
theorem Kept.height_child (kept : r.Kept d) (child : c ∈ (r.graph.node i).children) :
    r.height c = r.height i + 1 := by
  rw [height, kept.firm.graph.forest.way_of_child child]
  rfl

/-- What stands below a node stands further down. -/
theorem height_lt (above : i ∈ r.graph.ancestors c) : r.height i < r.height c := by
  obtain ⟨between, split, -⟩ := Graph.ancestors_split above
  rw [height, height, Graph.way, Graph.way, split]
  simp only [List.length_cons, List.length_append]
  omega

/-- A node leads to none that is lower. -/
theorem Kept.height_le_of_leads (kept : r.Kept d) (leads : r.graph.Leads i c) :
    r.height i ≤ r.height c := by
  induction leads with
  | here => exact Nat.le_refl _
  | down _ children _ ih =>
    have lower := kept.height_child (children ▸ List.mem_cons_self)
    omega

/-- Room enough for every way. -/
theorem Kept.ceiling_lt (kept : r.Kept d) (i : Nat) : d.ceiling < r.height i + r.reach := by
  have known := kept.bounded.known
  have extent := kept.firm.extent
  have nine : syntheticSchema.size = 9 := rfl
  have stride : d.stride = 2 * d.root.size + 24 := by
    rw [Document.stride, Document.bound, nine]
    omega
  have few : d.root.pointers.length + 1 ≤ r.extent + 1 := Nat.succ_le_succ known
  have square : (d.root.pointers.length + 1) * d.stride ≤
      (2 * r.extent + 16) * (2 * r.extent + 16) :=
    (Nat.mul_le_mul_right _ few).trans (by rw [stride, ← extent]; nlinarith)
  have cube : d.ceiling ≤ Nat.pow (2 * r.extent + 16) 3 := by
    rw [Document.ceiling]
    change _ ≤ (2 * r.extent + 16) ^ 3
    rw [Nat.pow_succ, Nat.pow_two, Nat.mul_comm]
    exact Nat.mul_le_mul square (by omega)
  have high : 0 < r.height i := Nat.succ_pos _
  rw [Run.reach]
  omega

end Run

namespace Build

variable {w : Wildcard}

theorem lasts_collectFrom {below : Nat → Build (List Nat)} {children : List Nat} (kept : r.Kept d)
    (comes : ∀ c, Coming (Run.keeping d).toCourse id (below c))
    (each : ∀ c ∈ children, ∀ s, s.Kept d → Run.Keeping d r s → Lasts (below c) s) :
    Lasts (leavesWithin.collectFrom w below children) r := by
  induction children generalizing r with
  | nil => exact .pure _
  | cons c rest ih =>
    refine lasts_node.bind fun h => ?_
    obtain ⟨rfl, rfl⟩ := ends_node.mp h
    have later : ∀ {s}, Run.Keeping d r s → Lasts (leavesWithin.collectFrom w below rest) s :=
      fun next => ih (next.kept kept) fun c child t kept' next' =>
        each c (List.mem_cons_of_mem _ child) t kept' (trans_of _ next next')
    dsimp only
    split
    · refine (each c List.mem_cons_self r kept (refl_of _ r)).bind fun h => ?_
      exact (later ((comes c kept).ends h)).bind fun _ => .pure _
    · refine (Lasts.pure _).bind fun h => ?_
      obtain ⟨-, rfl⟩ := Ends.pure_iff.mp h
      exact (later (refl_of _ r)).bind fun _ => .pure _

theorem lasts_leavesWithin {depth : Nat} (rolled : ∀ P, ¬d.Unrolls P) (kept : r.Kept d)
    (enough : d.ceiling < r.height i + depth) : Lasts (leavesWithin d w depth i) r := by
  induction depth generalizing i r with
  | zero =>
    have short := kept.firm.graph.length_way_le rolled i
    exact absurd enough (by rw [Run.height]; omega)
  | succ depth ih =>
    refine lasts_node.bind fun h => ?_
    obtain ⟨rfl, rfl⟩ := ends_node.mp h
    split
    · exact .pure _
    · refine (lasts_childrenOf kept.bounded).bind fun {children s} h => ?_
      have next : Run.Keeping d r s :=
        (coming_childrenOf (S := (Run.keeping d).toCourse) kept).ends h
      have kept' := next.kept kept
      obtain ⟨_, -, rfl⟩ := ends_childrenOf h
      refine lasts_collectFrom kept' (fun _ => coming_leavesWithin) fun c child t kept next' => ?_
      have lower := kept'.height_child child
      have before := next.height_le i
      have after := next'.height_le c
      exact ih kept (by omega)

/-- **A search for leaves ends where no reference unrolls.** -/
theorem lasts_leavesBelow (rolled : ∀ P, ¬d.Unrolls P) (kept : r.Kept d) :
    Lasts (leavesBelow d i w) r := by
  refine Lasts.get.bind fun h => ?_
  obtain ⟨rfl, rfl⟩ := Ends.get_iff.mp h
  exact lasts_leavesWithin rolled kept (kept.ceiling_lt i)

end Build

namespace Drafting

variable {t u : Draft} {coll : Collection} {side : Side}

/-- A step on the graph lasts inside a draft. -/
theorem lasts_lift {α : Type} {m : Build α} (lasts : Lasts m t.run) : Lasts (lift m) t := lasts

theorem lasts_graph : Lasts graph t := Lasts.get.bind fun _ => .pure _

theorem lasts_node : Lasts (node i) t := Lasts.get.bind fun _ => .pure _

theorem lasts_scalar {type : ScalarType} : Lasts (scalar type) t := by
  unfold scalar
  dsimp only
  split
  · exact (Lasts.modify _).bind fun _ => .pure _
  · exact .pure _

theorem lasts_declare {own : Definition} : Lasts (declare i side own) t := by
  unfold declare
  refine lasts_node.bind fun _ => Lasts.get.bind fun _ => ?_
  dsimp only
  split <;> exact (Lasts.set _).bind fun _ => .pure _

theorem lasts_enumType {values : List String} : Lasts (enumType i values) t := by
  unfold enumType
  dsimp only
  split
  · exact lasts_declare
  · refine Lasts.get.bind fun _ => ?_
    split
    · exact (Lasts.set _).bind fun _ => lasts_node.bind fun _ => .pure _
    · exact lasts_node.bind fun _ => .pure _

/-- The stretch of a step of a draft. -/
theorem keeping_of_ends {α : Type} {m : Drafting α} {a : α}
    (comes : Coming (Run.keeping d).toCourse Draft.run m) (kept : t.run.Kept d) (h : Ends m t a u) :
    Run.Keeping d t.run u.run :=
  (comes kept).ends h

section Types

variable {typeOf : Nat → Side → Drafting (Option TypeRef)}
  (comes : ∀ i side, Coming (Run.keeping d).toCourse Draft.run (typeOf i side))
  (types : ∀ {i t}, t.run.Kept d → n ≤ t.run.height i → Lasts (typeOf i side) t)

include types

theorem lasts_propTypeWithin {depth : Nat} (rolled : ∀ P, ¬d.Unrolls P) (kept : t.run.Kept d)
    (low : n ≤ t.run.height i) (enough : d.ceiling < t.run.height i + depth) :
    Lasts (propTypeWithin d typeOf depth i side) t := by
  induction depth generalizing i t with
  | zero =>
    have short := kept.firm.graph.length_way_le rolled i
    exact absurd enough (by rw [Run.height]; omega)
  | succ depth ih =>
    refine (lasts_lift (Build.lasts_visit kept.bounded)).bind fun {_ u} h => lasts_node.bind
      fun h' => ?_
    have next := keeping_of_ends (coming_lift Build.coming_visit) kept h
    have kept' := next.kept kept
    have grown := next.height_le i
    obtain ⟨rfl, rfl⟩ := ends_node.mp h'
    have lower : ∀ {c rest}, (u.run.graph.node i).children = c :: rest →
        u.run.height c = u.run.height i + 1 := fun children =>
      kept'.height_child (children ▸ List.mem_cons_self)
    split
    · exact lasts_scalar.bind fun _ => .pure _
    · exact .pure _
    · next children =>
      have := lower children
      exact (ih kept' (by omega) (by omega)).bind fun _ => .pure _
    · next children =>
      have := lower children
      exact types kept' (by omega)
    · exact lasts_scalar.bind fun _ => .pure _
    · exact .pure _

include comes

theorem lasts_fieldDecls {fields : List VisibleField} (rolled : ∀ P, ¬d.Unrolls P)
    (kept : t.run.Kept d) (low : ∀ f ∈ fields, n ≤ t.run.height f.prop) :
    Lasts (fieldDecls d typeOf side fields) t := by
  induction fields generalizing t with
  | nil => exact .pure _
  | cons f rest ih =>
    have later : ∀ {u}, Run.Keeping d t.run u.run → Lasts (fieldDecls d typeOf side rest) u :=
      fun next => ih (next.kept kept) fun f mem =>
        (low f (List.mem_cons_of_mem _ mem)).trans (next.height_le f.prop)
    unfold fieldDecls
    split
    · exact later (refl_of _ _)
    · refine Lasts.get.bind fun h => ?_
      obtain ⟨rfl, rfl⟩ := Ends.get_iff.mp h
      refine (lasts_propTypeWithin types rolled kept (low f List.mem_cons_self)
        (kept.ceiling_lt f.prop)).bind fun h => ?_
      have next := keeping_of_ends (coming_propTypeWithin comes) kept h
      split
      · exact later next
      · refine lasts_graph.bind fun h => ?_
        obtain ⟨rfl, rfl⟩ := ends_graph.mp h
        exact (later next).bind fun _ => .pure _

theorem lasts_objectType (rolled : ∀ P, ¬d.Unrolls P) (kept : t.run.Kept d)
    (low : n ≤ t.run.height i + 1) : Lasts (objectType d coll typeOf i side) t := by
  have rest : ∀ {u} (selection : Option Collection), Run.Keeping d t.run u.run →
      Lasts (do
        let fields ← fieldDecls d typeOf side (visibleFields (← graph) i selection)
        if fields.isEmpty then scalar .json else declare i side (.object fields)) u := by
    intro u selection next
    have kept' := next.kept kept
    refine lasts_graph.bind fun h => ?_
    obtain ⟨rfl, rfl⟩ := ends_graph.mp h
    refine (lasts_fieldDecls comes types rolled kept' fun f mem => ?_).bind fun _ => ?_
    · have field := (List.mem_filter.mp (Graph.mem_nameFields mem)).1
      have lower : u.run.height i < u.run.height f.prop :=
        Run.height_lt (kept'.firm.graph.fielded field)
      have grown := next.height_le i
      exact low.trans (by omega)
    · split
      · exact lasts_scalar
      · exact lasts_declare
  have visited := fun selection =>
    (lasts_lift (Build.lasts_visit (i := i) kept.bounded)).bind fun h =>
      rest selection (keeping_of_ends (coming_lift Build.coming_visit) kept h)
  have merged := fun selection =>
    (lasts_lift (Build.lasts_consolidate (i := i) kept.bounded)).discard.bind fun h =>
      rest selection (keeping_of_ends (coming_lift Build.coming_consolidate).discard kept h)
  unfold objectType
  refine lasts_node.bind fun h => ?_
  obtain ⟨rfl, rfl⟩ := ends_node.mp h
  cases side <;> dsimp only <;> split <;> first | exact visited _ | exact merged _

end Types

theorem lasts_nodeTypeWithin {depth : Nat} (rolled : ∀ P, ¬d.Unrolls P) (kept : t.run.Kept d)
    (enough : d.ceiling < t.run.height i + depth) :
    Lasts (nodeTypeWithin d coll depth i side) t := by
  induction depth generalizing i t side with
  | zero =>
    have short := kept.firm.graph.length_way_le rolled i
    exact absurd enough (by rw [Run.height]; omega)
  | succ depth ih =>
    refine (lasts_lift (Build.lasts_resolveTarget kept.bounded)).bind fun {target u} h =>
      lasts_node.bind fun h' => ?_
    have next := keeping_of_ends (coming_lift Build.coming_resolveTarget) kept h
    have kept' := next.kept kept
    obtain ⟨s, resolved, rfl⟩ := ends_lift.mp h
    have leads := (Build.resolveTarget_visits resolved kept.firm.graph.forest).2.1
    have down : s.height i ≤ s.height target := kept'.height_le_of_leads leads
    have grown : t.run.height i ≤ s.height i := next.height_le i
    obtain ⟨rfl, rfl⟩ := ends_node.mp h'
    have below : ∀ {i t}, t.run.Kept d → s.height target + 1 ≤ t.run.height i →
        Lasts (nodeTypeWithin d coll depth i side) t := fun kept low => ih kept (by omega)
    have object : Lasts (objectType d coll (nodeTypeWithin d coll depth) target side)
        { t with run := s } :=
      lasts_objectType (fun i side => coming_nodeTypeWithin) below rolled kept' (Nat.le_refl _)
    split
    · exact lasts_scalar.bind fun _ => .pure _
    · exact lasts_enumType.bind fun _ => .pure _
    · exact lasts_scalar.bind fun _ => .pure _
    · exact object.bind fun _ => .pure _
    · exact object.bind fun _ => .pure _
    · exact object.bind fun _ => .pure _
    · split
      · next item rest children =>
        have lower : s.height item = s.height target + 1 :=
          kept'.height_child (children ▸ List.mem_cons_self)
        have low : d.ceiling < s.height item + depth := by omega
        exact (ih kept' low).bind fun _ => .pure _
      · exact lasts_scalar.bind fun _ => .pure _
    · exact .pure _
    · exact lasts_scalar.bind fun _ => .pure _

/-- **The type of a node is found to the end where no reference unrolls.** -/
theorem lasts_nodeType (rolled : ∀ P, ¬d.Unrolls P) (kept : t.run.Kept d) :
    Lasts (nodeType d coll i side) t := by
  refine Lasts.get.bind fun h => ?_
  obtain ⟨rfl, rfl⟩ := Ends.get_iff.mp h
  exact lasts_nodeTypeWithin rolled kept (kept.ceiling_lt i)

end Drafting

/-- What has been drafted over an attained run, also after steps that fail. -/
inductive Draft.Attained (d : Document) : Draft → Prop
  | start {r : Run} (run : r.Attained d) : Attained d (.start r)
  | containers {t : Draft} (c : Collection) (before : Attained d t) :
    Attained d ((Drafting.declareContainers d c).run t).2
  | operation {t : Draft} (c : Collection) (i : Nat) (before : Attained d t) :
    Attained d ((Drafting.operation d c i).run t).2
  | type {t : Draft} (c : Collection) (i : Nat) (side : Side) (before : Attained d t) :
    Attained d ((Drafting.nodeType d c i side).run t).2

/-- The run of a draft that was attained is kept. -/
theorem Draft.Attained.kept {t : Draft} (attained : t.Attained d) : t.run.Kept d := by
  have kept : ∀ {α : Type} {m : Drafting α} {t : Draft},
      Coming (Run.keeping d).toCourse Draft.run m → t.run.Kept d → (m.run t).2.run.Kept d :=
    fun comes kept => Run.Keeping.kept ((comes kept).along kept) kept
  induction attained with
  | start run => exact run.kept
  | containers c _ ih => exact kept Drafting.coming_declareContainers ih
  | operation c i _ ih => exact kept Drafting.coming_operation ih
  | type c i side _ ih => exact kept Drafting.coming_nodeType ih

/-- Everything below any node of any attained run is found in the end: all leaves, and all types. -/
structure Document.Expands (d : Document) : Prop where
  wildcard : ∀ r, r.Attained d → ∀ i w, Lasts (Build.leavesBelow d i w) r
  types : ∀ t, Draft.Attained d t → ∀ c i side, Lasts (Drafting.nodeType d c i side) t

/-- Unless the elements of an array component lead back to it through an object or a composition,
whatever other cycles of references there are. -/
theorem Document.expands_unless_unrolls (d : Document) (rolled : ∀ P, ¬d.Unrolls P) :
    d.Expands where
  wildcard _ attained _ _ := Build.lasts_leavesBelow rolled attained.kept
  types _ attained _ _ _ := Drafting.lasts_nodeType rolled attained.kept

/-- Objects that lead back to themselves directly, through an array and through a branch, and an
array of itself. -/
def Document.cyclic : Document :=
  .answer (.refSchema "Node")
    [("Node", .objectSchema [("next", .refSchema "Node"), ("rows", .refSchema "Rows"),
        ("all", .arraySchema (.refSchema "Node")), ("base", .refSchema "Base")]),
      ("Rows", .arraySchema (.refSchema "Rows")),
      ("Base", .allOfSchema [.refSchema "Base", .refSchema "Node"])]

theorem cyclic_expands : (∀ P, ¬Document.cyclic.Unrolls P) ∧ Document.cyclic.Expands := by
  have rolled := Document.not_unrolls_of_isFlat (d := .cyclic) (by decide +kernel)
  exact ⟨rolled, Document.expands_unless_unrolls .cyclic rolled⟩

end RestGraph
