import RestGraph.Proofs.Graph.Acting
import RestGraph.Proofs.Graph.Advancing
import RestGraph.Proofs.Graph.Proceeding
import RestGraph.Proofs.Schema.Declaring
import RestGraph.Schema.Print

/-!
# Attempts

Every step that a client asks for is put together from visits, from marks and fields of single nodes
and from changes of registries. What all these keep, whatever their outcome, is kept by resolving
paths, by collecting, by merging branches and by drafting and writing declarations. No step asks
anything of the handles that it is given.
-/

namespace RestGraph

variable {σ α β : Type} {d : Document}

/-- The description itself is at fault: a schema has no known shape, or a reference no target. -/
def Fault.isGap : Fault → Bool
  | .schema .. | .reference .. => true
  | _ => false

/-- What visits keep that end: `holds` of the runs that they come to, and `along` between two of
these. What is not `lasting` is lost where a step fails. -/
structure Course (d : Document) where
  lasting : Prop := True
  holds : Run → Prop
  along : Run → Run → Prop
  preorder : IsPreorder Run along
  keeps : ∀ {r s}, along r s → holds r → holds s
  registry : ∀ {r s : Run}, r.Notes s → s.extent = r.extent → along r s
  visit : ∀ {r s i}, holds r → Ends (Build.visit d i) r ⟨⟩ s → along r s

/-- Steps that fail keep it too, as visits that fail do. -/
class Course.Enduring (S : Course d) : Prop where
  lasting : S.lasting := by trivial
  fails : ∀ {r s i e}, S.holds r → (Build.visit d i).run r = (.error e, s) → S.along r s

/-- What is recorded of references and of merged branches is no matter. -/
class Course.Bookless (S : Course d) : Prop where
  books : ∀ {r s : Run}, s.graph = r.graph → s.extent = r.extent → s.stack = r.stack →
    s.warnings = r.warnings → S.along r s

/-- Which frames are on the stack is no matter. -/
class Course.Frameless (S : Course d) : Prop where
  frames : ∀ {r : Run} {stack}, S.along r { r with stack }

variable {S : Course d}

instance : IsPreorder Run S.along := S.preorder

instance {R : Run → Run → Prop} {run : σ → Run} [IsPreorder Run R] :
    IsPreorder σ (InvImage R run) where
  refl s := refl_of R (run s)
  trans _ _ _ := trans_of R

/-- The step comes along with the run that its state holds. Where it fails, either a visit that it
has come to does, or it gives up itself, though for no gap. -/
structure Comes (S : Course d) (run : σ → Run) (m : ExceptT Fault (StateM σ) α) (s : σ) : Prop where
  ends : ∀ {a t}, Ends m s a t → S.along (run s) (run t)
  fails : ∀ {e t}, m.run s = (.error e, t) → ∃ u, (S.lasting → S.along (run s) u) ∧
    (run t = u ∧ e.isGap = false ∨ ∃ x, (Build.visit d x).run u = (.error e, run t))

namespace Comes

variable {run : σ → Run} {m : ExceptT Fault (StateM σ) α} {s : σ}

/-- A step comes along whether it ends or fails. -/
theorem along [S.Enduring] (comes : Comes S run m s) (holds : S.holds (run s)) :
    Along (InvImage S.along run) m s := by
  rcases here : m.run s with ⟨e | a, t⟩
  · rw [Along, here]
    obtain ⟨u, along, ⟨rfl, -⟩ | ⟨x, fails⟩⟩ := comes.fails here
    · exact along Course.Enduring.lasting
    · have along := along Course.Enduring.lasting
      exact trans_of S.along along (Course.Enduring.fails (S.keeps along holds) fails)
  · rw [Along, here]
    exact comes.ends here

/-- A step that fails for a gap fails in a visit. -/
theorem gaps [S.Enduring] {e : Fault} {t : σ} (comes : Comes S run m s)
    (h : m.run s = (.error e, t)) (gap : e.isGap = true) :
    ∃ x u, S.along (run s) u ∧ (Build.visit d x).run u = (.error e, run t) := by
  obtain ⟨u, along, ⟨-, whole⟩ | ⟨x, fails⟩⟩ := comes.fails h
  · rw [whole] at gap
    cases gap
  · exact ⟨x, u, along Course.Enduring.lasting, fails⟩

/-- A step that ends where the course goes comes along. -/
theorem of_ends {a : α} {t : σ} (h : Ends m s a t) (along : S.along (run s) (run t)) :
    Comes S run m s := by
  have run' : m.run s = (.ok a, t) := h
  refine ⟨fun h' => ?_, fun h' => ?_⟩ <;> rw [Ends, run'] at * <;> cases h'
  exact along

/-- A step may give up by itself for no gap. -/
theorem throw {e : Fault} (whole : e.isGap = false) :
    Comes S run (throw e : ExceptT Fault (StateM σ) α) s where
  ends h := (Ends.throw_iff.mp h).elim
  fails h := by
    cases h
    exact ⟨run s, fun _ => refl_of S.along _, .inl ⟨rfl, whole⟩⟩

theorem pure (a : α) : Comes S run (pure a : ExceptT Fault (StateM σ) α) s :=
  of_ends (Ends.pure_iff.mpr ⟨rfl, rfl⟩) (refl_of S.along _)

theorem get : Comes S run (get : ExceptT Fault (StateM σ) σ) s :=
  of_ends (Ends.get_iff.mpr ⟨rfl, rfl⟩) (refl_of S.along _)

/-- A modification comes along when the course goes there. -/
theorem modify {f : σ → σ} (along : S.along (run s) (run (f s))) :
    Comes S run (modify f : ExceptT Fault (StateM σ) PUnit) s :=
  of_ends (a := ⟨⟩) (Ends.modify_iff.mpr rfl) along

theorem set {t : σ} (along : S.along (run s) (run t)) :
    Comes S run (set t : ExceptT Fault (StateM σ) PUnit) s :=
  of_ends (a := ⟨⟩) (Ends.set_iff.mpr rfl) along

/-- A bind comes along when both its stages do. -/
theorem bind {f : α → ExceptT Fault (StateM σ) β} (first : Comes S run m s)
    (second : ∀ {a u}, Ends m s a u → S.along (run s) (run u) → Comes S run (f a) u) :
    Comes S run (m >>= f) s where
  ends h := by
    obtain ⟨a, u, here, next⟩ := Ends.bind_iff.mp h
    have along := first.ends here
    exact trans_of S.along along ((second here along).ends next)
  fails {e t} h := by
    rw [Ends.run_bind] at h
    rcases here : m.run s with ⟨e' | a, u⟩ <;> rw [here] at h
    · cases h
      exact first.fails here
    · have along := first.ends here
      obtain ⟨v, next, fails⟩ := (second here along).fails h
      exact ⟨v, fun lasting => trans_of S.along along (next lasting), fails⟩

theorem map {f : α → β} (first : Comes S run m s) : Comes S run (f <$> m) s := by
  rw [← bind_pure_comp]
  exact first.bind fun _ _ => .pure _

end Comes

/-- The step comes along from wherever the course holds. -/
def Coming (S : Course d) (run : σ → Run) (m : ExceptT Fault (StateM σ) α) : Prop :=
  ∀ ⦃s⦄, S.holds (run s) → Comes S run m s

/-- What all steps keep that leave no frame behind and merge the branches of compositions only. -/
structure Routine (d : Document) extends Course d where
  compose : ∀ {r i}, holds r → (r.graph.node i).kind.isComposition = true →
    Comes toCourse id (Build.consolidate d i) r

/-- What all steps keep that leave no frame behind, those that merge branches included. -/
structure Regime (d : Document) extends Routine d where
  consolidate : ∀ i, Coming toCourse id (Build.consolidate d i)
  compose holds _ := consolidate _ holds

/-- What all steps keep; which frames are on the stack is no matter. -/
structure OpenRegime (d : Document) extends Regime d where
  frames : ∀ {r : Run} {stack}, along r { r with stack }

instance {W : OpenRegime d} : W.toCourse.Frameless := ⟨W.frames⟩

namespace Coming

variable {run : σ → Run} {m : ExceptT Fault (StateM σ) α}

@[simp] theorem pure (a : α) : Coming S run (pure a : ExceptT Fault (StateM σ) α) :=
  fun _ _ => .pure a

theorem throw {e : Fault} (whole : e.isGap = false) :
    Coming S run (throw e : ExceptT Fault (StateM σ) α) := fun _ _ => .throw whole

/-- A bind is coming when both its stages are. -/
theorem bind {f : α → ExceptT Fault (StateM σ) β} (first : Coming S run m)
    (second : ∀ a, Coming S run (f a)) : Coming S run (m >>= f) := fun _ holds =>
  (first holds).bind fun _ along => second _ (S.keeps along holds)

theorem map {f : α → β} (first : Coming S run m) : Coming S run (f <$> m) :=
  fun _ holds => (first holds).map

theorem discard (first : Coming S run m) : Coming S run (discard m) := first.map

/-- What follows a look at the state knows it. -/
theorem get_bind {f : σ → ExceptT Fault (StateM σ) β}
    (second : ∀ s, S.holds (run s) → Comes S run (f s) s) :
    Coming S run (get >>= f) := fun s holds =>
  Comes.get.bind fun h _ => by
    obtain ⟨rfl, rfl⟩ := Ends.get_iff.mp h
    exact second s holds

theorem get : Coming S run (get : ExceptT Fault (StateM σ) σ) := fun _ _ => .get

/-- Nothing but a note is made. -/
theorem modify {f : σ → σ} (notes : ∀ s, (run s).Notes (run (f s)))
    (extent : ∀ s, (run (f s)).extent = (run s).extent) :
    Coming S run (modify f : ExceptT Fault (StateM σ) PUnit) := fun s _ =>
  .modify (S.registry (notes s) (extent s))

/-- A loop is coming when every round is. -/
theorem forM {f : α → ExceptT Fault (StateM σ) PUnit} (xs : List α)
    (round : ∀ x, Coming S run (f x)) : Coming S run (xs.forM f) := by
  induction xs with
  | nil => exact .pure _
  | cons x xs ih =>
    rw [List.forM_eq_forM, List.forM_cons]
    exact (round x).bind fun _ => ih

/-- A fold is coming when every round is. -/
theorem foldlM {f : β → α → ExceptT Fault (StateM σ) β} (xs : List α) (b : β)
    (round : ∀ b x, Coming S run (f b x)) : Coming S run (xs.foldlM f b) := by
  induction xs generalizing b with
  | nil =>
    rw [List.foldlM_nil]
    exact .pure b
  | cons x xs ih =>
    rw [List.foldlM_cons]
    exact (round b x).bind ih

/-- A traversal is coming when every item is. -/
theorem mapM {f : α → ExceptT Fault (StateM σ) β} (xs : List α)
    (round : ∀ x, Coming S run (f x)) : Coming S run (xs.mapM f) := by
  induction xs with
  | nil =>
    rw [List.mapM_nil]
    exact .pure _
  | cons x xs ih =>
    rw [List.mapM_cons]
    exact (round x).bind fun _ => ih.bind fun _ => .pure _

end Coming

/-! ## Steps on a run -/

namespace Build

variable {i : Nat}

theorem coming_graph : Coming S id graph := Coming.get.bind fun _ => .pure _

theorem coming_node : Coming S id (node i) := Coming.get.bind fun _ => .pure _

/-- A visit comes along with its course. -/
theorem coming_visit : Coming S id (visit d i) := fun r holds =>
  ⟨S.visit holds, fun h => ⟨r, fun _ => refl_of S.along r, .inr ⟨i, h⟩⟩⟩

theorem coming_childrenOf : Coming S id (childrenOf d i) :=
  coming_visit.bind fun _ => coming_node.bind fun _ => .pure _

theorem coming_targetWithin {depth : Nat} : Coming S id (targetWithin d depth i) := by
  induction depth generalizing i with
  | zero => exact .throw rfl
  | succ depth ih =>
    refine coming_visit.bind fun _ => coming_node.bind fun n => ?_
    split
    · split
      · exact ih
      · exact .pure _
    · exact .pure _

/-- The way to a target is one of visits. -/
theorem coming_resolveTarget : Coming S id (resolveTarget d i) :=
  Coming.get.bind fun _ => coming_targetWithin

/-! ### Merging -/

section Merging

variable [S.Bookless]

theorem coming_mergeBranch {filtering : Bool} {m : Merged} :
    Coming S id (mergeBranch d filtering m i) := by
  unfold mergeBranch
  split
  · exact .pure _
  · refine coming_visit.bind fun _ => coming_node.bind fun n => ?_
    dsimp only
    split
    · next pointer _ =>
      have released : ∀ r : Run, S.along r (r.releaseRef pointer) := fun r => by
        unfold Run.releaseRef
        split <;> exact Course.Bookless.books rfl rfl rfl rfl
      refine .bind (fun r _ => .modify (released r)) fun _ => Coming.get.bind fun r => ?_
      split <;> exact .pure _
    · refine Coming.get.bind fun r => ?_
      split <;> exact .pure _

theorem coming_mergeLevel {filtering : Bool} {m : Merged} {level : List Nat} :
    Coming S id (mergeLevel d filtering m level) := by
  induction level generalizing m with
  | nil => exact .pure _
  | cons i rest ih =>
    exact coming_mergeBranch.bind fun _ => ih.bind fun _ => .pure _

theorem coming_mergeLevels {filtering : Bool} {depth : Nat} {m : Merged} {level : List Nat} :
    Coming S id (mergeLevels d filtering depth m level) := by
  induction depth generalizing m level with
  | zero =>
    cases level with
    | nil => exact .pure _
    | cons => exact .throw rfl
  | succ depth ih =>
    cases level with
    | nil => exact .pure _
    | cons => exact coming_mergeLevel.bind fun _ => ih

/-- What merging does once the node is visited and marked. -/
theorem coming_merge
    (fill : ∀ {filtering depth s m t}, S.holds s →
      Ends (mergeLevels d filtering depth ⟨[], []⟩ (branchesBelow s.graph i)) s m t →
      S.along t (t.onGraph fun g => g.modify i fun n =>
        { n with props := Text.sortByName Prod.fst m.props })) :
    Coming S id (do
      let filtering ← isFiltering
      let r ← get
      let m ← mergeLevels d filtering r.reach ⟨[], []⟩ (branchesBelow r.graph i)
      modifyNode i fun n => { n with props := Text.sortByName Prod.fst m.props }
      modify (Run.absorb i m.consumed)
      return m.consumed) := by
  refine .bind (Coming.get.bind fun _ => .pure _) fun filtering => .get_bind fun s holds => ?_
  refine (coming_mergeLevels holds).bind fun merged _ => ?_
  refine Comes.bind (.modify (fill holds merged)) fun _ _ => ?_
  exact Comes.bind (.modify (Course.Bookless.books rfl rfl rfl rfl)) fun _ _ => .pure _

/-- Merging keeps what its visits keep when the mark that it sets and the fields that it finds do
so. -/
theorem coming_consolidate_of
    (mark : ∀ s : Run, S.along s (s.onGraph fun g => g.modify i fun n =>
      { n with consolidated := true }))
    (fill : ∀ {filtering depth s m t}, S.holds s →
      Ends (mergeLevels d filtering depth ⟨[], []⟩ (branchesBelow s.graph i)) s m t →
      S.along t (t.onGraph fun g => g.modify i fun n =>
        { n with props := Text.sortByName Prod.fst m.props })) :
    Coming S id (consolidate d i) := by
  unfold consolidate
  refine coming_node.bind fun n => ?_
  split
  · exact Coming.get.bind fun _ => .pure _
  · exact coming_visit.bind fun _ => .bind (fun s _ => .modify (mark s)) fun _ => coming_merge fill

/-- Merging fails for the first time only, as it visits the node or its branches. -/
theorem fails_consolidate {r t : Run} {e : Fault} (h : (consolidate d i).run r = (.error e, t)) :
    (r.graph.node i).consolidated = false ∧ ((visit d i).run r = (.error e, t) ∨
      ∃ s, Ends (visit d i) r ⟨⟩ s ∧
        (mergeLevels d s.isFiltering (s.marked i).reach ⟨[], []⟩
          (branchesBelow (s.marked i).graph i)).run (s.marked i) = (.error e, t)) := by
  rw [consolidate, Ends.run_bind_of_ends (ends_node.mpr ⟨rfl, rfl⟩)] at h
  split at h
  · cases h
  · next fresh =>
    refine ⟨Bool.eq_false_iff.mpr fresh, ?_⟩
    obtain fails | ⟨_, s, visits, h⟩ := Ends.fails_bind h
    · exact .inl fails
    · refine .inr ⟨s, visits, ?_⟩
      rw [Ends.run_bind_of_ends (show Ends _ s ⟨⟩ (s.marked i) from ends_modifyNode.mpr rfl),
        Ends.run_bind_of_ends
          (show Ends isFiltering (s.marked i) s.isFiltering (s.marked i) from rfl),
        Ends.run_bind_of_ends (Ends.get_iff.mpr ⟨rfl, rfl⟩)] at h
      obtain fails | ⟨m, u, -, h⟩ := Ends.fails_bind h
      · exact fails
      · cases h

/-- Merging taken as a whole: until the fields are set, it keeps what its visits and levels keep. -/
theorem comes_consolidate {T : Course d} {r : Run} (holds : T.holds r)
    (marks : ∀ {s}, Ends (visit d i) r ⟨⟩ s → S.holds (s.marked i))
    (during : ∀ {s u}, (r.graph.node i).consolidated = false → Ends (visit d i) r ⟨⟩ s →
      (S.lasting → S.along (s.marked i) u) → T.lasting → T.along r u)
    (after : ∀ {s m t filtering depth}, (r.graph.node i).consolidated = false →
      Ends (visit d i) r ⟨⟩ s →
      Ends (mergeLevels d filtering depth ⟨[], []⟩ (branchesBelow (s.marked i).graph i))
        (s.marked i) m t →
      T.along r ((t.onGraph fun g =>
        g.modify i (Node.withProps (Text.sortByName Prod.fst m.props))).absorb i m.consumed)) :
    Comes T id (consolidate d i) r where
  ends h := by
    obtain ⟨-, rfl⟩ | ⟨fresh, s, m, t, visits, merges, -, rfl⟩ := consolidate_cases h
    · exact refl_of T.along r
    · exact after fresh visits merges
  fails h := by
    obtain ⟨fresh, fails | ⟨s, visits, fails⟩⟩ := fails_consolidate h
    · exact (coming_visit holds).fails fails
    · obtain ⟨u, along, given⟩ := (coming_mergeLevels (marks visits)).fails fails
      exact ⟨u, during fresh visits along, given⟩

end Merging

/-! ### Resolving -/

variable {p : SelectionPath} {w : Wildcard}

theorem coming_descend {reached segments : List String} :
    Coming S id (descend d p reached i segments) := by
  induction segments generalizing reached i with
  | nil => exact .pure _
  | cons segment rest ih =>
    refine coming_visit.bind fun _ => coming_graph.bind fun g => ?_
    split
    · exact ih
    · exact .throw rfl

/-- A path is resolved by visits. -/
theorem coming_resolve : Coming S id (resolve d p) := by
  unfold resolve
  refine coming_graph.bind fun g => ?_
  split
  · exact .throw rfl
  · split
    · exact coming_descend
    · exact .throw rfl

theorem coming_collectFrom {below : Nat → Build (List Nat)} {children : List Nat}
    (each : ∀ c, Coming S id (below c)) :
    Coming S id (leavesWithin.collectFrom w below children) := by
  induction children with
  | nil => exact .pure _
  | cons c rest ih =>
    refine coming_node.bind fun n => ?_
    dsimp only
    split
    · exact (each c).bind fun _ => ih.bind fun _ => .pure _
    · exact (Coming.pure _).bind fun _ => ih.bind fun _ => .pure _

theorem coming_leavesWithin {depth : Nat} : Coming S id (leavesWithin d w depth i) := by
  induction depth generalizing i with
  | zero => exact .throw rfl
  | succ depth ih =>
    refine coming_node.bind fun n => ?_
    split
    · exact .pure _
    · exact coming_childrenOf.bind fun _ => coming_collectFrom fun _ => ih

/-- Leaves are searched by visits. -/
theorem coming_leavesBelow : Coming S id (leavesBelow d i w) :=
  Coming.get.bind fun _ => coming_leavesWithin

/-- Leaves are resolved by visits. -/
theorem coming_resolveLeaves : Coming S id (resolveLeaves d p) := by
  unfold resolveLeaves
  refine coming_resolve.bind fun _ => ?_
  split <;> exact coming_leavesBelow

/-- Paths are collected by resolving them. -/
theorem coming_collectPaths {c : Collection} {selections : List String} :
    Coming S id (collectPaths d c selections) := by
  induction selections generalizing c with
  | nil => exact .pure _
  | cons text rest ih =>
    unfold collectPaths
    dsimp only
    split
    · exact ih
    · exact coming_resolveLeaves.bind fun _ => coming_graph.bind fun _ => ih

/-- **A selection is collected along with the course.** -/
theorem coming_collect {selections : List String} : Coming S id (collect d selections) :=
  coming_collectPaths.bind fun _ => coming_graph.bind fun _ =>
    .bind (.modify (fun r => { Run.Notes.refl r with }) fun _ => rfl) fun _ => .pure _

end Build

/-! ## Steps on a draft -/

/-- A composition is consolidated along with any regime. -/
theorem Build.coming_consolidate {S : Regime d} {i : Nat} :
    Coming S.toCourse id (consolidate d i) := S.consolidate i

/-- A mark on a declaration leaves the extent. -/
@[simp] theorem Run.extent_markGenerated {r : Run} {key : String} :
    (r.markGenerated key).extent = r.extent := by
  unfold markGenerated
  split <;> rfl

/-- A mark on a declaration is a note. -/
theorem Run.notes_markGenerated {r : Run} {key : String} : r.Notes (r.markGenerated key) := by
  unfold markGenerated
  split <;> exact { Run.Notes.refl r with }

namespace Drafting

variable {S : Routine d} {c : Collection} {i : Nat} {side : Side}

/-- A step on the graph comes along inside a draft. -/
theorem comes_lift {m : Build α} {s : Draft} (comes : Comes S.toCourse id m s.run) :
    Comes S.toCourse Draft.run (lift m) s :=
  have run : ∀ {x t}, (lift m).run s = (x, t) → m.run s.run = (x, t.run) := fun {x t} h => by
    change ((m.run s.run).1, { s with run := (m.run s.run).2 }) = _ at h
    obtain ⟨result, rfl⟩ := Prod.mk.inj h
    exact Prod.ext result rfl
  ⟨fun h => comes.ends (run h), fun h => comes.fails (run h)⟩

theorem coming_lift {m : Build α} (coming : Coming S.toCourse id m) :
    Coming S.toCourse Draft.run (lift m) := fun _ holds => comes_lift (coming holds)

theorem coming_graph : Coming S.toCourse Draft.run graph := Coming.get.bind fun _ => .pure _

theorem coming_node : Coming S.toCourse Draft.run (node i) := Coming.get.bind fun _ => .pure _

/-- What follows a look at a node knows it. -/
theorem coming_node_bind {f : Node → Drafting α} (second : ∀ s : Draft, S.holds s.run →
    Comes S.toCourse Draft.run (f (s.run.graph.node i)) s) :
    Coming S.toCourse Draft.run (node i >>= f) := by
  unfold node
  rw [bind_assoc]
  exact .get_bind fun s holds => Comes.bind (.pure _) fun h _ => by
    obtain ⟨rfl, rfl⟩ := Ends.pure_iff.mp h
    exact second _ holds

theorem coming_scalar {type : ScalarType} : Coming S.toCourse Draft.run (scalar type) := by
  unfold scalar
  dsimp only
  split
  · exact .bind (.modify (fun s => .refl s.run) fun _ => rfl) fun _ => .pure _
  · exact .pure _

/-- The state that is put holds the same graph. -/
theorem comes_put {s t : Draft} (notes : s.run.Notes t.run)
    (extent : t.run.extent = s.run.extent) : Comes S.toCourse Draft.run (put t) s :=
  .set (S.registry notes extent)

/-- A declaration is recorded, and nothing is visited for it. -/
theorem coming_declare {own : Definition} : Coming S.toCourse Draft.run (declare i side own) := by
  unfold declare
  refine coming_node.bind fun n => ?_
  dsimp only
  refine Coming.get_bind fun s holds => ?_
  split
  · exact Comes.bind (comes_put (.refl s.run) rfl) fun _ _ => .pure _
  · exact Comes.bind (comes_put Run.notes_markGenerated Run.extent_markGenerated) fun _ _ => .pure _

theorem comes_enumType {values : List String} {s : Draft} (holds : S.holds s.run)
    (inside : i < s.run.graph.size) : Comes S.toCourse Draft.run (enumType i values) s := by
  unfold enumType
  dsimp only
  split
  · exact coming_declare holds
  · refine Comes.get.bind fun h _ => ?_
    obtain ⟨rfl, rfl⟩ := Ends.get_iff.mp h
    have rest : Coming S.toCourse Draft.run (do
        let schema := (← node i).schema
        return (.scalar (((Shape.keyword? schema).bind ScalarType.ofKeyword?).getD .string) :
          TypeRef)) := coming_node.bind fun _ => .pure _
    split
    · exact Comes.bind (comes_put (.warn_enumFallback inside) rfl) fun _ along =>
        rest (S.keeps along holds)
    · exact rest holds

section Types

variable {typeOf : Nat → Side → Drafting (Option TypeRef)}
  (types : ∀ i side, Coming S.toCourse Draft.run (typeOf i side))

include types

theorem coming_propTypeWithin {depth : Nat} :
    Coming S.toCourse Draft.run (propTypeWithin d typeOf depth i side) := by
  induction depth generalizing i with
  | zero => exact .throw rfl
  | succ depth ih =>
    refine (coming_lift Build.coming_visit).bind fun _ => coming_node.bind fun n => ?_
    split
    · exact coming_scalar.bind fun _ => .pure _
    · exact .pure _
    · exact ih.bind fun _ => .pure _
    · exact types _ _
    · exact coming_scalar.bind fun _ => .pure _
    · exact .pure _

theorem coming_fieldDecls {fields : List VisibleField} :
    Coming S.toCourse Draft.run (fieldDecls d typeOf side fields) := by
  induction fields with
  | nil => exact .pure _
  | cons f rest ih =>
    unfold fieldDecls
    split
    · exact ih
    · refine Coming.get.bind fun s => (coming_propTypeWithin types).bind fun t => ?_
      split
      · exact ih
      · exact coming_graph.bind fun _ => ih.bind fun _ => .pure _

theorem coming_objectType : Coming S.toCourse Draft.run (objectType d c typeOf i side) := by
  have rest : ∀ selection : Option Collection, Coming S.toCourse Draft.run (do
      let fields ← fieldDecls d typeOf side (visibleFields (← graph) i selection)
      if fields.isEmpty then scalar .json else declare i side (.object fields)) := fun selection =>
    coming_graph.bind fun _ => (coming_fieldDecls types).bind fun fields => by
      split
      · exact coming_scalar
      · exact coming_declare
  have visited := fun selection =>
    (coming_lift (d := d) (Build.coming_visit (i := i))).bind fun _ => rest selection
  have merged : ∀ {s : Draft} {k : Kind} (selection : Option Collection), S.holds s.run →
      (s.run.graph.node i).kind = k → k.isComposition = true → Comes S.toCourse Draft.run (do
        discard (lift (Build.consolidate d i))
        let fields ← fieldDecls d typeOf side (visibleFields (← graph) i selection)
        if fields.isEmpty then scalar .json else declare i side (.object fields)) s := by
    intro s k selection holds kind composition
    have comes := S.compose (i := i) holds (kind ▸ composition)
    exact (comes_lift comes).map.bind fun _ along => rest selection (S.keeps along holds)
  unfold objectType
  refine coming_node_bind fun s holds => ?_
  cases side <;> dsimp only <;> split
  · next kind => exact merged _ holds kind rfl
  · next kind => exact merged _ holds kind rfl
  · exact visited _ holds
  · next kind => exact merged _ holds kind rfl
  · next kind => exact merged _ holds kind rfl
  · exact visited _ holds

end Types

theorem coming_nodeTypeWithin {depth : Nat} :
    Coming S.toCourse Draft.run (nodeTypeWithin d c depth i side) := by
  induction depth generalizing i side with
  | zero => exact .throw rfl
  | succ depth ih =>
    have object : ∀ target, Coming S.toCourse Draft.run (do
        let t ← objectType d c (nodeTypeWithin d c depth) target side
        return some t) := fun _ => (coming_objectType fun _ _ => ih).bind fun _ => .pure _
    have json : Coming S.toCourse Draft.run (do return some (← scalar .json)) :=
      coming_scalar.bind fun _ => .pure _
    refine (coming_lift Build.coming_resolveTarget).bind fun target =>
      coming_node_bind fun s holds => ?_
    split
    · exact (coming_scalar.bind fun _ => .pure _) holds
    · next kind =>
      have inside : target < s.run.graph.size := Graph.lt_size_of_ne fun nowhere => by
        rw [nowhere] at kind
        cases kind
      exact (comes_enumType holds inside).bind fun _ _ => .pure _
    · exact json holds
    · exact object target holds
    · exact object target holds
    · exact object target holds
    · split
      · exact (ih.bind fun _ => .pure _) holds
      · exact (coming_scalar.bind fun _ => .pure _) holds
    · exact .pure _
    · exact json holds

/-- The type of a node comes along with the regime. -/
theorem coming_nodeType : Coming S.toCourse Draft.run (nodeType d c i side) :=
  Coming.get.bind fun _ => coming_nodeTypeWithin

theorem coming_declareContainers : Coming S.toCourse Draft.run (declareContainers d c) := by
  refine .forM _ fun i => Coming.get.bind fun s => ?_
  dsimp only
  split
  · exact .pure _
  · split
    · exact .pure _
    · exact coming_nodeType.discard

/-! ### Operations

From here on a step may leave a frame behind. -/

variable [S.toCourse.Frameless]

theorem coming_enter {tag : Tag} : Coming S.toCourse Draft.run (onRun (Run.enter i tag)) :=
  fun _ _ => .modify Course.Frameless.frames

theorem coming_leave : Coming S.toCourse Draft.run (onRun Run.leave) :=
  fun _ _ => .modify Course.Frameless.frames

theorem coming_childType {tag : Tag} {child : Option Nat} :
    Coming S.toCourse Draft.run (childType d c i tag child) := by
  unfold childType
  refine coming_enter.bind fun _ => ?_
  cases child with
  | some schema => exact coming_nodeType.bind fun _ => coming_leave.bind fun _ => .pure _
  | none => exact (Coming.pure _).bind fun _ => coming_leave.bind fun _ => .pure _

theorem coming_addChild {decl : OperationDecl} :
    Coming S.toCourse Draft.run (addChild d c decl i) := by
  unfold addChild
  refine coming_node.bind fun n => ?_
  dsimp only
  split
  · exact coming_childType.bind fun _ => .pure _
  · refine coming_childType.bind fun type => coming_graph.bind fun g => ?_
    cases type with
    | some t => exact (Coming.pure t).bind fun _ => .pure _
    | none => exact coming_scalar.bind fun _ => .pure _
  · split
    on_goal 1 => refine coming_nodeType.bind fun type => ?_
    on_goal 2 => refine (Coming.pure _).bind fun type => ?_
    all_goals cases type with
    | some t => exact (Coming.pure t).bind fun _ => coming_graph.bind fun _ => .pure _
    | none => exact coming_scalar.bind fun _ => coming_graph.bind fun _ => .pure _
  · exact .pure _

/-- An operation is drafted along with the regime. -/
theorem coming_operation : Coming S.toCourse Draft.run (operation d c i) := by
  unfold operation
  refine (coming_lift Build.coming_childrenOf).bind fun children =>
    coming_graph.bind fun g => ?_
  dsimp only
  split
  · refine coming_enter.bind fun _ => ?_
    refine .bind (.foldlM _ _ fun _ _ => coming_addChild) fun _ => ?_
    exact coming_leave.bind fun _ => .pure _
  · exact .throw rfl

end Drafting

namespace Build

variable {S : Routine d} [S.toCourse.Frameless] {c : Collection} {s : Settings}

/-- What is drafted in a failing draft is kept. -/
theorem coming_draft : Coming S.toCourse id (draft d c) := by
  have drafts : Coming S.toCourse Draft.run (do
      Drafting.declareContainers d c
      c.operations.mapM (Drafting.operation d c)) :=
    Drafting.coming_declareContainers.bind fun _ => .mapM _ fun _ => Drafting.coming_operation
  unfold draft
  refine Coming.get_bind fun r holds => ?_
  have comes := drafts (s := Draft.start r) holds
  rcases run : ExceptT.run (do
    Drafting.declareContainers d c
    c.operations.mapM (Drafting.operation d c)) (Draft.start r) with ⟨result, s⟩
  cases result with
  | ok ops =>
    have along : S.along r s.run := comes.ends run
    exact (Comes.set along).bind fun _ _ => (Comes.pure _).bind fun _ _ => .pure _
  | error e =>
    refine ⟨fun h => ?_, fun {e' t} h => ?_⟩
    · obtain ⟨_, _, -, h⟩ := Ends.bind_iff.mp h
      obtain ⟨_, _, none, -⟩ := Ends.bind_iff.mp h
      cases (Ends.liftExcept_iff.mp none).1
    · cases h
      exact comes.fails run

/-- **A schema is generated along with the regime.** -/
theorem coming_generate : Coming S.toCourse id (generate d c s) :=
  coming_draft.bind fun _ => .pure _

end Build

/-! ## What is kept -/

/-- A forest takes guarded steps only. -/
def Run.growth (d : Document) : Course d where
  holds r := r.graph.Forest ∧ r.graph.Fielded
  along := Run.Advances d
  preorder := inferInstance
  keeps advances := fun ⟨forest, fielded⟩ =>
    ⟨advances.forest forest, fielded.steps forest advances.steps⟩
  registry notes extent := .of_same notes.graph extent
  visit holds h := (Build.visit_along holds.1).ends h

instance : (Run.growth d).Bookless := ⟨fun graph extent _ _ => .of_same graph extent⟩

instance : (Run.growth d).Enduring where
  fails holds h := Along.fails (Build.visit_along holds.1) h

/-- What is within bounds stays so. -/
def Run.bounds (d : Document) (ptrs : List String) (bound : Nat) (since : Option Nat) :
    Course d where
  holds := Run.Bounded d ptrs bound since
  along := Run.Proceeds d ptrs bound since
  preorder := inferInstance
  keeps := Run.Proceeds.bounded
  registry notes extent := .of_same notes.graph extent
  visit holds h := (Build.visit_proceeds holds).ends h

instance {ptrs : List String} {bound : Nat} {since : Option Nat} :
    (Run.bounds d ptrs bound since).Bookless := ⟨fun graph extent _ _ => .of_same graph extent⟩

instance {ptrs : List String} {bound : Nat} {since : Option Nat} :
    (Run.bounds d ptrs bound since).Enduring where
  fails holds h := Along.fails (Build.visit_proceeds holds) h

namespace Build

variable {c i : Nat} {filtering : Bool} {m m' : Merged} {r s : Run}

/-- The handles stand below the composition. -/
def AllBelow (c : Nat) (g : Graph) (handles : List Nat) : Prop := ∀ x ∈ handles, c ∈ g.ancestors x

/-- Growth leaves what is below a composition. -/
theorem AllBelow.extend {g h : Graph} {handles : List Nat} (below : AllBelow c g handles)
    (step : g.Extends h) : AllBelow c h handles := fun x mem => by
  have above := below x mem
  rwa [step.ancestors (Graph.lt_size_of_mem_ancestors above)]

/-- What a branch adds stands below the composition, and so do the branches below it. -/
theorem below_of_mergeBranch {below : List Nat} (holds : (Run.growth d).holds r)
    (branch : c ∈ r.graph.ancestors i) (before : AllBelow c r.graph (m.props.map Prod.snd))
    (h : Ends (mergeBranch d filtering m i) r (m', below) s) :
    AllBelow c s.graph (m'.props.map Prod.snd) ∧ AllBelow c s.graph below := by
  have along : Run.Advances d r s := (coming_mergeBranch (S := Run.growth d) holds).ends h
  obtain ⟨-, rfl, rfl, rfl⟩ | ⟨-, v, -, -, rfl, rfl⟩ := mergeBranch_cases h
  · exact ⟨before, fun x none => absurd none List.not_mem_nil⟩
  · obtain ⟨forest, fielded⟩ := (Run.growth d).keeps along holds
    have lower : ∀ {x}, i ∈ s.graph.ancestors x → c ∈ s.graph.ancestors x := fun above => by
      refine Graph.mem_ancestors_trans ?_ above
      rwa [along.grown.ancestors (Graph.lt_size_of_mem_ancestors branch)]
    constructor
    · intro handle mem
      obtain ⟨x, field, rfl⟩ := List.mem_map.mp mem
      rcases (addProps_spec s filtering _ _).1 x field with old | new
      · exact before.extend along.grown _ (List.mem_map_of_mem old)
      · exact lower (fielded new)
    · intro b mem
      exact lower (forest.ancestors_of_child (Graph.edge_of_mem_branchesOn mem).2 ▸
        List.mem_cons_self)

/-- All that the levels add is below the composition. -/
theorem below_of_mergeLevels {depth : Nat} {level : List Nat} (holds : (Run.growth d).holds r)
    (branches : AllBelow c r.graph level) (before : AllBelow c r.graph (m.props.map Prod.snd))
    (h : Ends (mergeLevels d filtering depth m level) r m' s) :
    AllBelow c s.graph (m'.props.map Prod.snd) := by
  refine (mergeLevels_keeps (I := fun m pending r => (Run.growth d).holds r ∧
    AllBelow c r.graph (m.props.map Prod.snd) ∧ AllBelow c r.graph pending)
    (fun same => And.imp_right (And.imp_right fun below x mem => below x (same.mem_iff.mpr mem)))
    ?_ h ⟨holds, before, branches⟩).2.1
  intro m m' i below pending r s h ⟨holds, before, branches⟩
  have along : Run.Advances d r s := (coming_mergeBranch (S := Run.growth d) holds).ends h
  obtain ⟨props, taken⟩ := below_of_mergeBranch holds (branches i List.mem_cons_self) before h
  have rest := AllBelow.extend (fun x mem => branches x (List.mem_cons_of_mem i mem)) along.grown
  exact ⟨(Run.growth d).keeps along holds, props, fun x mem =>
    (List.mem_append.mp mem).elim (taken x) (rest x)⟩

/-- A merged composition gets fields that stand below it. -/
theorem fill_of_mergeLevels {depth : Nat} (holds : (Run.growth d).holds r)
    (h : Ends (mergeLevels d filtering depth ⟨[], []⟩ (branchesBelow r.graph c)) r m s) :
    Run.Advances d s (s.onGraph fun g => g.modify c fun n =>
      { n with props := Text.sortByName Prod.fst m.props }) := by
  have below := below_of_mergeLevels (c := c) holds
    (fun b mem => holds.1.ancestors_of_child (List.mem_filter.mp mem).1 ▸ List.mem_cons_self)
    (fun x none => absurd none List.not_mem_nil) h
  refine .single (.fill fun x mem => below _ (List.mem_map_of_mem ?_)) rfl
  exact (Text.sortByName_perm _ _).mem_iff.mp mem

end Build

/-! The mark of a merged composition, and its fields. -/

/-- The mark that branches are merged advances a run. -/
theorem Run.Advances.merged {r : Run} {i : Nat} : Run.Advances d r (r.onGraph fun g =>
    g.modify i fun n => { n with consolidated := true }) := by
  by_cases inside : i < r.graph.size
  · exact .single (.change (.consolidate inside) Graph.size_modify) rfl
  · exact .of_same (Graph.modify_of_size_le (Nat.le_of_not_lt inside)) rfl

/-- The mark that branches are merged stays within the bounds. -/
theorem Run.Proceeds.merged {ptrs : List String} {bound i : Nat} {since : Option Nat} {r : Run} :
    Run.Proceeds d ptrs bound since r (r.onGraph fun g =>
      g.modify i fun n => { n with consolidated := true }) :=
  Build.markConsolidated_proceeds.ends ((Build.ends_modifyNode (u := ⟨⟩)).mpr rfl)

/-- Fields that are entered stay within the bounds. -/
theorem Run.Proceeds.filled {ptrs : List String} {bound i : Nat} {since : Option Nat} {r : Run}
    {props : List (String × Nat)} :
    Run.Proceeds d ptrs bound since r (r.onGraph fun g => g.modify i fun n => { n with props }) :=
  ⟨.modify { Node.Keeps.refl _ with },
    fun bounded => bounded.modify { Node.Keeps.refl _ with } rfl fun _ => rfl⟩

/-- The course of a forest, merging included. -/
def Run.growing (d : Document) : OpenRegime d where
  toCourse := Run.growth d
  consolidate _ := Build.coming_consolidate_of (S := Run.growth d) (fun _ => .merged)
    Build.fill_of_mergeLevels
  frames := .of_same rfl rfl

instance : (Run.growing d).toCourse.Enduring := inferInstanceAs (Run.growth d).Enduring

/-- The course within bounds, merging included. -/
def Run.bounding (d : Document) (ptrs : List String) (bound : Nat) (since : Option Nat) :
    OpenRegime d where
  toCourse := Run.bounds d ptrs bound since
  consolidate _ := Build.coming_consolidate_of (S := Run.bounds d ptrs bound since)
    (fun _ => .merged) fun _ _ => .filled
  frames := .of_same rfl rfl

instance {ptrs : List String} {bound : Nat} {since : Option Nat} :
    (Run.bounding d ptrs bound since).toCourse.Enduring :=
  inferInstanceAs (Run.bounds d ptrs bound since).Enduring

end RestGraph
