import RestGraph.Proofs.Schema.Attained

/-!
# Balance

Every step leaves the stack of frames as it was, whatever its outcome. Only the typing of a root
field does not when it fails: the frame of the operation stays on the stack, and below a parameter
or the body the frame of that as well.
-/

namespace RestGraph

variable {α β : Type} {d : Document} {c : Collection} {i : Nat}

/-- The course that asks nothing of a run. -/
def Run.labour (d : Document) : Course d where
  holds _ := True
  along := Works
  preorder := inferInstance
  keeps _ _ := trivial
  registry notes _ := .registry notes.graph notes.stack
  visit _ h := Build.visit_works.ends h

instance : (Run.labour d).Enduring where
  fails _ h := Build.visit_works.fails h

instance : (Run.labour d).Bookless := ⟨fun graph _ stack _ => .registry graph stack⟩

def Run.labouring (d : Document) : Regime d where
  toCourse := labour d
  consolidate _ := Build.coming_consolidate_of (S := labour d)
    (fun _ => .single (.modify _ fun _ => ⟨id, fun _ => rfl⟩))
    fun _ _ => .single (.modify _ fun _ => ⟨id, id⟩)

instance : (Run.labouring d).toCourse.Enduring := inferInstanceAs (Run.labour d).Enduring

/-- The stack after the step is that before it, also when it fails. -/
def Build.IsBalanced (m : Build α) : Prop := ∀ r, (m.run r).2.stack = r.stack

/-- What comes along with the course of work is balanced. -/
theorem Build.isBalanced_of_coming {m : Build α} (coming : Coming (Run.labour d) id m) :
    IsBalanced m := fun r => Run.Works.stack ((coming (s := r) trivial).along trivial)

theorem Build.isBalanced_of_works {m : Build α} (works : ∀ r, Along Run.Works m r) :
    IsBalanced m := fun r => Run.Works.stack (works r)

/-- The frames that the typing of a root field may leave behind. -/
inductive Frame.Left (operation : Nat) : List Frame → Prop
  | operation : Left operation [⟨operation, .operation⟩]
  | argument (argument : Nat) {tag : Tag} (kind : tag = .param ∨ tag = .body) :
      Left operation [⟨argument, tag⟩, ⟨operation, .operation⟩]

namespace Drafting

/-- The stack stays as it is when the step ends; when it fails, frames of some sort are left on
it. -/
structure Leaves (m : Drafting α) (left : List Frame → Prop) : Prop where
  ends : ∀ {t a u}, Ends m t a u → u.run.stack = t.run.stack
  fails : ∀ {t e u}, m.run t = (.error e, u) →
    ∃ frames, left frames ∧ u.run.stack = frames ++ t.run.stack

namespace Leaves

variable {m : Drafting α} {left left' : List Frame → Prop}

/-- What comes along with the course of work leaves nothing behind. -/
theorem of_coming (coming : Coming (Run.labour d) Draft.run m) : Leaves m (· = []) where
  ends h := Run.Works.stack ((coming trivial).ends h)
  fails {t e u} h := by
    have along := (coming (s := t) trivial).along trivial
    rw [Along, h] at along
    exact ⟨[], rfl, Run.Works.stack along⟩

theorem mono (leaves : Leaves m left) (weaker : ∀ {frames}, left frames → left' frames) :
    Leaves m left' where
  ends := leaves.ends
  fails h := (leaves.fails h).imp fun _ => And.imp_left weaker

theorem pure (a : α) : Leaves (Pure.pure a) left where
  ends h := by
    obtain ⟨-, rfl⟩ := Ends.pure_iff.mp h
    rfl
  fails h := by cases h

theorem bind {f : α → Drafting β} (first : Leaves m left) (second : ∀ a, Leaves (f a) left) :
    Leaves (m >>= f) left where
  ends h := by
    obtain ⟨a, v, h, h'⟩ := Ends.bind_iff.mp h
    rw [(second a).ends h', first.ends h]
  fails {t e u} h := by
    rw [Ends.run_bind] at h
    rcases here : m.run t with ⟨e' | a, v⟩ <;> rw [here] at h
    · cases h
      exact first.fails here
    · rw [← first.ends here]
      exact (second a).fails h

/-- A traversal leaves behind what one of its items does. -/
theorem mapM {f : α → Drafting β} (xs : List α) (round : ∀ x ∈ xs, Leaves (f x) left) :
    Leaves (xs.mapM f) left := by
  induction xs with
  | nil =>
    rw [List.mapM_nil]
    exact pure _
  | cons x xs ih =>
    rw [List.mapM_cons]
    refine (round x List.mem_cons_self).bind fun _ => ?_
    exact (ih fun y mem => round y (List.mem_cons_of_mem x mem)).bind fun _ => pure _

/-- A fold leaves behind what one of its rounds does. -/
theorem foldlM {f : β → α → Drafting β} (xs : List α) (b : β) (round : ∀ b x, Leaves (f b x) left) :
    Leaves (xs.foldlM f b) left := by
  induction xs generalizing b with
  | nil =>
    rw [List.foldlM_nil]
    exact pure b
  | cons x xs ih =>
    rw [List.foldlM_cons]
    exact (round b x).bind ih

/-- A step in a frame that is taken off only when the step ends. -/
theorem inFrame {tag : Tag} (leaves : Leaves m left) :
    Leaves (do onRun (Run.enter i tag); let a ← m; onRun Run.leave; return a) fun frames =>
      ∃ more, left more ∧ frames = more ++ [⟨i, tag⟩] where
  ends h := by
    simp only [Ends.bind_iff, Ends.pure_iff, onRun, Ends.modify_iff] at h
    obtain ⟨_, _, rfl, a, v, h, _, _, rfl, -, rfl⟩ := h
    exact congrArg List.tail (leaves.ends h)
  fails {t e u} h := by
    have entered : Ends (onRun (Run.enter i tag)) t ⟨⟩ { t with run := t.run.enter i tag } :=
      Ends.modify_iff.mpr rfl
    rw [Ends.run_bind_of_ends entered, Ends.run_bind] at h
    rcases here : m.run { t with run := t.run.enter i tag } with ⟨e' | a, v⟩ <;> rw [here] at h
    · cases h
      obtain ⟨frames, more, stack⟩ := leaves.fails here
      refine ⟨frames ++ [⟨i, tag⟩], ⟨frames, more, rfl⟩, ?_⟩
      rw [stack, List.append_assoc]
      rfl
    · cases h

end Leaves

theorem childType_leaves {tag : Tag} {child : Option Nat} :
    Leaves (childType d c i tag child) (· = [⟨i, tag⟩]) := by
  have framed : ∀ {m : Drafting (Option TypeRef)}, Leaves m (· = []) →
      Leaves (do onRun (Run.enter i tag); let a ← m; onRun Run.leave; return a)
        (· = [⟨i, tag⟩]) := fun quiet => quiet.inFrame.mono <| by
    rintro _ ⟨_, rfl, rfl⟩
    rfl
  cases child with
  | some schema => exact framed (.of_coming (coming_nodeType (S := (Run.labouring d).toRoutine)))
  | none => exact framed (.pure none)

/-- The frames that are left in the frame of an operation. -/
def LeftBelow (frames : List Frame) : Prop :=
  frames = [] ∨ ∃ c tag, (tag = Tag.param ∨ tag = .body) ∧ frames = [⟨c, tag⟩]

theorem addChild_leaves {decl : OperationDecl} : Leaves (addChild d c decl i) LeftBelow := by
  have quiet : ∀ {α} {m : Drafting α}, Coming (Run.labouring d).toCourse Draft.run m →
      Leaves m LeftBelow := fun coming => (Leaves.of_coming coming).mono .inl
  have typed : ∀ {tag}, tag = Tag.param ∨ tag = .body →
      ∀ first, Leaves (childType d c i tag first) LeftBelow := fun {tag} kind first =>
    childType_leaves.mono fun e => .inr ⟨i, tag, kind, e⟩
  unfold addChild
  refine (quiet coming_node).bind fun n => ?_
  dsimp only
  split
  · exact (typed (.inl rfl) _).bind fun _ => .pure _
  · refine (typed (.inr rfl) _).bind fun type => (quiet coming_graph).bind fun g => ?_
    cases type with
    | some t => exact (Leaves.pure t).bind fun _ => .pure _
    | none => exact (quiet coming_scalar).bind fun _ => .pure _
  · split
    on_goal 1 => refine (quiet coming_nodeType).bind fun type => ?_
    on_goal 2 => refine (Leaves.pure _).bind fun type => ?_
    all_goals cases type with
    | some t => exact (Leaves.pure t).bind fun _ => (quiet coming_graph).bind fun _ => .pure _
    | none => exact (quiet coming_scalar).bind fun _ => (quiet coming_graph).bind fun _ => .pure _
  · exact .pure _

/-- The node turns out to be an operation, and its children are there to be typed. -/
def Opens (d : Document) (i : Nat) (t : Draft) : Prop :=
  ∃ children u, Ends (lift (Build.childrenOf d i)) t children u ∧
    (u.run.graph.node i).kind.tag = .operation

/-- A root field has its frame on the stack from the moment on that its children are typed. -/
theorem operation_stack (d : Document) (c : Collection) (i : Nat) (t : Draft) :
    (∀ {o u}, Ends (operation d c i) t o u → u.run.stack = t.run.stack) ∧
      ∀ {e u}, (operation d c i).run t = (.error e, u) →
        (¬Opens d i t ∧ u.run.stack = t.run.stack) ∨
        (Opens d i t ∧ ∃ frames, Frame.Left i frames ∧ u.run.stack = frames ++ t.run.stack) := by
  have quiet : Leaves (lift (Build.childrenOf d i)) (· = []) :=
    .of_coming (coming_lift (S := (Run.labouring d).toRoutine) Build.coming_childrenOf)
  have left : ∀ {frames}, (∃ more, LeftBelow more ∧ frames = more ++ [⟨i, Tag.operation⟩]) →
      Frame.Left i frames := by
    rintro _ ⟨_, rfl | ⟨c, tag, kind, rfl⟩, rfl⟩
    · exact .operation
    · exact .argument c kind
  unfold operation
  rcases expanded : (lift (Build.childrenOf d i)).run t with ⟨e' | children, v⟩
  · have closed : ¬Opens d i t := by
      rintro ⟨children, u, h, -⟩
      have run : (lift (Build.childrenOf d i)).run t = (.ok children, u) := h
      rw [expanded] at run
      cases run
    refine ⟨fun h => ?_, fun {e u} h => ?_⟩
    · obtain ⟨_, _, h, -⟩ := Ends.bind_iff.mp h
      have contra := expanded.symm.trans h
      cases contra
    · rw [Ends.run_bind, expanded] at h
      cases h
      obtain ⟨_, rfl, stack⟩ := quiet.fails expanded
      exact .inl ⟨closed, stack⟩
  · have same := quiet.ends expanded
    have looked : Ends graph v v.run.graph v := by
      simp only [graph, Ends.bind_iff, Ends.get_iff, Ends.pure_iff]
      exact ⟨v, v, ⟨rfl, rfl⟩, rfl, rfl⟩
    simp only [Ends, Ends.run_bind_of_ends (show Ends _ t children v from expanded),
      Ends.run_bind_of_ends looked]
    split
    · next method path shared kind =>
      have opens : Opens d i t := ⟨children, v, expanded, by rw [kind]; rfl⟩
      have typed : ∀ decl, Leaves (do
          onRun (Run.enter i .operation)
          let decl ← children.foldlM (addChild d c) decl
          onRun Run.leave
          return decl)
            (fun frames => ∃ more, LeftBelow more ∧ frames = more ++ [⟨i, .operation⟩]) :=
        fun decl => (Leaves.foldlM children decl fun _ _ => addChild_leaves).inFrame
      refine ⟨fun h => ((typed _).ends h).trans same, fun h => ?_⟩
      obtain ⟨frames, more, stack⟩ := (typed _).fails h
      exact .inr ⟨opens, frames, left more, stack.trans (congrArg _ same)⟩
    · next other =>
      have closed : ¬Opens d i t := by
        rintro ⟨children', u, h, tag⟩
        obtain ⟨-, rfl⟩ := Ends.unique (show Ends _ t children v from expanded) h
        cases kind : (v.run.graph.node i).kind <;> rw [kind] at tag other <;>
          first | exact Tag.noConfusion tag | exact other _ _ _ rfl
      exact ⟨fun h => (Ends.throw_iff.mp h).elim, fun h => by
        cases h
        exact .inl ⟨closed, same⟩⟩

end Drafting

namespace Build

variable {s : Settings} {r r' : Run}

/-- Everything that is declared before a schema is written. -/
def declarations (d : Document) (c : Collection) : Drafting (List OperationDecl) := do
  Drafting.declareContainers d c
  c.operations.mapM (Drafting.operation d c)

/-- Writing a schema fails where drafting its declarations does. -/
theorem fails_generate {e : Fault} (h : (generate d c s).run r = (.error e, r')) :
    ∃ t, (declarations d c).run (Draft.start r) = (.error e, t) ∧ r' = t.run := by
  have looked : Ends (get : Build Run) r r r := Ends.get_iff.mpr ⟨rfl, rfl⟩
  unfold generate draft at h
  rw [Ends.run_bind, Ends.run_bind_of_ends looked] at h
  rcases run : (declarations d c).run (Draft.start r) with ⟨e' | ops, t⟩ <;>
    unfold declarations at run <;> rw [run] at h
  · cases h
    exact ⟨t, rfl, rfl⟩
  · cases h

/-- What is left when a schema is written stems from one of the root fields. -/
theorem generate_leaves (d : Document) (c : Collection) (s : Settings) (r : Run) :
    (∀ {text r'}, Ends (generate d c s) r text r' → r'.stack = r.stack) ∧
      ∀ {e r'}, (generate d c s).run r = (.error e, r') → r'.stack = r.stack ∨
        ∃ o ∈ c.operations, ∃ frames, Frame.Left o frames ∧ r'.stack = frames ++ r.stack := by
  let left : List Frame → Prop := fun frames =>
    frames = [] ∨ ∃ o ∈ c.operations, Frame.Left o frames
  have fields : ∀ o ∈ c.operations, Drafting.Leaves (Drafting.operation d c o) left := by
    intro o mem
    refine ⟨fun h => (Drafting.operation_stack d c o _).1 h, fun {t e u} h => ?_⟩
    obtain ⟨-, stack⟩ | ⟨-, frames, some, stack⟩ := (Drafting.operation_stack d c o t).2 h
    · exact ⟨[], .inl rfl, stack⟩
    · exact ⟨frames, .inr ⟨o, mem, some⟩, stack⟩
  have drafts : Drafting.Leaves (declarations d c) left :=
    ((Drafting.Leaves.of_coming (Drafting.coming_declareContainers
      (S := (Run.labouring d).toRoutine))).mono .inl).bind fun _ => .mapM _ fields
  refine ⟨fun h => ?_, fun h => ?_⟩
  · obtain ⟨⟨t, ops⟩, _, drafted, same⟩ := Ends.bind_iff.mp h
    obtain ⟨-, rfl⟩ := Ends.pure_iff.mp same
    obtain ⟨rfl, u, containers, operations⟩ := ends_draft drafted
    exact drafts.ends (Ends.bind_iff.mpr ⟨_, u, containers, operations⟩)
  · obtain ⟨t, run, rfl⟩ := fails_generate h
    obtain ⟨frames, rfl | ⟨o, mem, some⟩, stack⟩ := drafts.fails run
    · exact .inl stack
    · exact .inr ⟨o, mem, frames, some, stack⟩

end Build

/-- No step leaves a frame behind, but for a root field that fails: it keeps its own. -/
structure Document.IsBalanced (d : Document) : Prop where
  visit : ∀ i, Build.IsBalanced (Build.visit d i)
  expand : ∀ i, Build.IsBalanced (Build.childrenOf d i)
  fromSchema : ∀ parent schema, Build.IsBalanced (Build.graftSchema parent schema)
  fromProp : ∀ owner name schema required,
    Build.IsBalanced (Build.graftProp d owner name schema required)
  resolveTarget : ∀ i, Build.IsBalanced (Build.resolveTarget d i)
  resolve : ∀ path, Build.IsBalanced (Build.resolve d path)
  resolveLeaves : ∀ path, Build.IsBalanced (Build.resolveLeaves d path)
  consolidate : ∀ i, Build.IsBalanced (Build.consolidate d i)
  collect : ∀ selections, Build.IsBalanced (Build.collect d selections)
  operation : ∀ c i (t : Draft),
    (∀ {o u}, Ends (Drafting.operation d c i) t o u → u.run.stack = t.run.stack) ∧
    ∀ {e u}, (Drafting.operation d c i).run t = (.error e, u) →
      (¬Drafting.Opens d i t ∧ u.run.stack = t.run.stack) ∨
      (Drafting.Opens d i t ∧ ∃ frames, Frame.Left i frames ∧ u.run.stack = frames ++ t.run.stack)
  generate : ∀ c s r,
    (∀ {text r'}, Ends (Build.generate d c s) r text r' → r'.stack = r.stack) ∧
    ∀ {e r'}, (Build.generate d c s).run r = (.error e, r') → r'.stack = r.stack ∨
      ∃ o ∈ c.operations, ∃ frames, Frame.Left o frames ∧ r'.stack = frames ++ r.stack

/-- Whatever the run before the call, and whatever its outcome. -/
theorem Document.isBalanced (d : Document) : d.IsBalanced := by
  have coming : ∀ {α} {m : Build α}, Coming (Run.labouring d).toCourse id m →
      Build.IsBalanced m := Build.isBalanced_of_coming
  have widened : ∀ schema r, Along Run.Works (modify (Run.widen schema) : Build Unit) r :=
    fun _ _ => .modify (.registry rfl rfl)
  exact
    { visit _ := coming Build.coming_visit
      expand _ := coming Build.coming_childrenOf
      fromSchema _ schema := Build.isBalanced_of_works fun r =>
        (widened schema r).bind fun _ _ => Build.fromSchema_works
      fromProp _ _ schema _ := Build.isBalanced_of_works fun r =>
        (widened schema r).bind fun _ _ => Build.fromProp_works
      resolveTarget _ := coming Build.coming_resolveTarget
      resolve _ := coming Build.coming_resolve
      resolveLeaves _ := coming Build.coming_resolveLeaves
      consolidate _ := coming Build.coming_consolidate
      collect _ := coming Build.coming_collect
      operation := Drafting.operation_stack d
      generate := Build.generate_leaves d }

/-- Two levels down in the body is a field of a component that is missing. -/
def Document.incomplete : Document :=
  .exchange (.objectSchema [("x", .objectSchema [("y", .refSchema "Gone")])]) (.typeSchema "string")
    []

/-- Writing the schema comes upon the missing component below the body, and the stack says so ever
after. -/
theorem incomplete_unbalanced : ∃ c r, Session .incomplete r c ∧ ∃ pointer path r',
    (Build.generate .incomplete c .default).run r = (.error (.reference pointer path), r') ∧
      r.stack = [] ∧ r.inContextOf .body = false ∧ r'.inContextOf .body = true := by
  have run : Ends.passes (Build.collect .incomplete ["post:/a>res:200>**"])
      (.ofDocument .incomplete) (fun c r =>
        match (Build.generate .incomplete c .default).run r with
        | (.error (.reference _ _), r') =>
          r.stack.isEmpty && !r.inContextOf .body && r'.inContextOf .body
        | _ => false) = true := by
    decide +kernel
  obtain ⟨c, r, collected, fails⟩ := Ends.of_passes run
  refine ⟨c, r, .collect _ .start collected, ?_⟩
  split at fails
  · next pointer path r' generated =>
    simp only [Bool.and_eq_true, Bool.not_eq_true', List.isEmpty_iff] at fails
    exact ⟨pointer, path, r', generated, fails.1.1, fails.1.2, fails.2⟩
  · cases fails

end RestGraph
