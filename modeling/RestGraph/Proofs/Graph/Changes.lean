import Mathlib.Logic.Relation
import RestGraph.Proofs.Graph.Building
import RestGraph.Proofs.Run.Outcomes

/-!
# Changes

Every step that builds nodes is put together from changes of three sorts: a node is attached, a node
is changed but keeps its marks, a registry is changed. The frames of a visit are taken off in any
case, so all that is left on the stack is what was there. Nothing is asked of the run, nor of the
handles.

An act says more of a change: a reference is counted as it is attached, what stands in for something
is attached with a warning, and a visit works on no node that was visited before it.
-/

namespace RestGraph

variable {d : Document} {r s t : Run} {p i : Nat} {x : Seed}

/-- No mark of the node is taken off. -/
structure Node.KeepsMarks (n m : Node) : Prop where
  visited : n.visited = true → m.visited = true
  consolidated : n.consolidated = true → m.consolidated = true

inductive Run.Change (r : Run) : Run → Prop
  | registry {s : Run} (graph : s.graph = r.graph) (stack : s.stack = r.stack) : Change r s
  | attach (p : Nat) (x : Seed) : Change r (r.onGraph fun g => g.attach p x)
  | modify (i : Nat) {f : Node → Node} (keeps : ∀ n : Node, n.KeepsMarks (f n)) :
      Change r (r.onGraph fun g => g.modify i f)

def Run.Works : Run → Run → Prop := Relation.ReflTransGen Run.Change

instance : IsPreorder Run Run.Works where
  refl _ := .refl
  trans _ _ _ := Relation.ReflTransGen.trans

/-- The node has been visited. -/
def Graph.IsDone (g : Graph) (i : Nat) : Prop := i < g.size ∧ (g.node i).visited = true

namespace Run

/-- A change leaves the stack. -/
theorem Change.stack (change : r.Change s) : s.stack = r.stack := by
  cases change with
  | registry _ stack => exact stack
  | attach | modify => rfl

theorem Change.marks (change : r.Change s) (inside : i < r.graph.size) :
    i < s.graph.size ∧ (r.graph.node i).KeepsMarks (s.graph.node i) := by
  cases change with
  | registry graph =>
    rw [graph]
    exact ⟨inside, id, id⟩
  | attach p x =>
    change i < (r.graph.attach p x).size ∧
      (r.graph.node i).KeepsMarks ((r.graph.attach p x).node i)
    refine ⟨inside.trans Graph.lt_size_attach, fun visited => ?_, fun consolidated => ?_⟩
    · simpa [Nat.ne_of_lt inside] using visited
    · simpa [Nat.ne_of_lt inside] using consolidated
  | @modify j f keeps =>
    refine ⟨Graph.size_modify.symm ▸ inside, ?_⟩
    change (r.graph.node i).KeepsMarks ((r.graph.modify j f).node i)
    by_cases same : i = j
    · subst same
      rw [Graph.node_modify_self inside]
      exact keeps _
    · rw [Graph.node_modify_of_ne same]
      exact ⟨id, id⟩

theorem Change.size_le (change : r.Change s) : r.graph.size ≤ s.graph.size := by
  cases change with
  | registry graph => rw [graph]
  | attach => exact Graph.size_attach ▸ Nat.le_succ _
  | modify => exact Graph.size_modify.ge

/-- The innermost frame is no matter for a change. -/
theorem Change.leave (change : r.Change s) : r.leave.Change s.leave := by
  cases change with
  | registry graph stack => exact .registry graph (congrArg List.tail stack)
  | attach p x => exact .attach p x
  | modify i keeps => exact .modify i keeps

namespace Works

/-- Work leaves the stack as it found it. -/
theorem stack (works : r.Works s) : s.stack = r.stack := by
  induction works with
  | refl => rfl
  | tail _ change ih => exact change.stack.trans ih

theorem marks (works : r.Works s) (inside : i < r.graph.size) :
    i < s.graph.size ∧ (r.graph.node i).KeepsMarks (s.graph.node i) := by
  induction works with
  | refl => exact ⟨inside, id, id⟩
  | tail _ change ih =>
    obtain ⟨inside, keeps⟩ := ih
    obtain ⟨inside, keeps'⟩ := change.marks inside
    exact ⟨inside, keeps'.visited ∘ keeps.visited, keeps'.consolidated ∘ keeps.consolidated⟩

theorem size_le (works : r.Works s) : r.graph.size ≤ s.graph.size := by
  induction works with
  | refl => exact Nat.le_refl _
  | tail _ change ih => exact ih.trans change.size_le

/-- What is done stays done. -/
theorem isDone (works : r.Works s) (done : r.graph.IsDone i) : s.graph.IsDone i :=
  ⟨(works.marks done.1).1, (works.marks done.1).2.visited done.2⟩

/-- A frame that is put on before some changes is taken off after them. -/
theorem drop {tag : Tag} (works : (r.enter i tag).Works s) : r.Works s.leave := by
  induction works with
  | refl => exact .refl
  | tail _ change ih => exact .tail ih change.leave

theorem registry (graph : s.graph = r.graph) (stack : s.stack = r.stack) : r.Works s :=
  .single (.registry graph stack)

end Works

end Run

/-! ## Acts -/

/-- What is recorded of a node that stands in for something that cannot be built. -/
def Kind.standsIn? : Kind → Option WarningKind
  | circular _ => some .circularReference
  | scalar _ true | property (.scalar _ true) _ => some .missingItems
  | response _ true => some .syntheticResponse
  | _ => none

def Kind.pointer? : Kind → Option String
  | reference pointer => some pointer
  | _ => none

namespace Run

/-- How many warnings there are of a kind. -/
def warned (r : Run) (k : WarningKind) : Nat := r.warnings.countP fun w => w.kind == k

/-- An enum among the nodes was given another type, and the last warning says so; or no warning was
added. -/
def NotesEnum (r s : Run) : Prop :=
  s.warnings = r.warnings ∨ ∃ i message, i < r.graph.size ∧
    s.warnings = r.warnings ++ [⟨r.graph.pathOf i, .enumFallback, message⟩]

/-- Something was noted that no count of nodes depends on. -/
structure Notes (r s : Run) : Prop where
  graph : s.graph = r.graph
  stack : s.stack = r.stack
  refCounts : s.refCounts = r.refCounts
  consumed : s.consumed = r.consumed
  absorbed : s.absorbed = r.absorbed
  warnings : r.NotesEnum s

theorem Notes.refl (r : Run) : r.Notes r := ⟨rfl, rfl, rfl, rfl, rfl, .inl rfl⟩

/-- The fallback of an enum is noted with the path of its node. -/
theorem Notes.warn_enumFallback (inside : i < r.graph.size) {message : String} :
    r.Notes (r.warn (r.graph.pathOf i) .enumFallback message) where
  __ := Notes.refl r
  warnings := .inr ⟨i, message, inside, rfl⟩

/-- An enum that is replaced stands in for nothing. -/
theorem Notes.warned (notes : r.Notes s) : ∀ k ≠ .enumFallback, s.warned k = r.warned k := by
  intro k other
  unfold Run.warned
  rcases notes.warnings with same | ⟨i, message, -, added⟩
  · rw [same]
  · have fallback : ¬(WarningKind.enumFallback == k) = true := fun same =>
      other (eq_of_beq same).symm
    rw [added, List.countP_append, List.countP_singleton, if_neg fallback]
    rfl

/-- A node is added below one of the `free` nodes, together with what is recorded of it. -/
inductive Addition (free : Nat → Prop) (r : Run) : Run → Prop
  | note {s : Run} (notes : r.Notes s) : Addition free r s
  | attach {p : Nat} {x : Seed} (may : free p) (solid : x.kind.standsIn? = none)
      (plain : x.kind.pointer? = none) : Addition free r (r.onGraph fun g => g.attach p x)
  | refer {p : Nat} {x : Seed} {pointer : String} (may : free p)
      (kind : x.kind = .reference pointer) :
      Addition free r ((r.addRef pointer).onGraph fun g => g.attach p x)
  | standIn {p : Nat} {x : Seed} {k : WarningKind} {location message : String} (may : free p)
      (kind : x.kind.standsIn? = some k) :
      Addition free r ((r.warn location k message).onGraph fun g => g.attach p x)

/-- One act of a visit, which works on `free` nodes and gives another kind to `fresh` ones. -/
inductive Act (free fresh : Nat → Prop) (r : Run) : Run → Prop
  | add {s : Run} (addition : r.Addition free s) : Act free fresh r s
  | mark {i : Nat} (may : free i) :
      Act free fresh r (r.onGraph fun g => g.modify i fun n => { n with visited := true })
  /-- A property whose child closes a cycle does so itself. -/
  | turn {i : Nat} {shape : PropShape} {required : Bool} (new : fresh i)
      (kind : (r.graph.node i).kind = .property shape required) (wraps : shape.isWrapper = true) :
      Act free fresh r (r.onGraph fun g =>
        g.modify i fun n => { n with kind := .property .circular required })
  | field {i prop : Nat} {name : String} (may : free i)
      (object : (r.graph.node i).kind.tag = .object) (child : prop ∈ (r.graph.node i).children)
      (isProperty : (r.graph.node prop).isProperty = true)
      (named : (r.graph.node prop).name = name) :
      Act free fresh r (r.onGraph fun g =>
        g.modify i fun n => { n with props := Run.assign name prop n.props })

def Adds (free : Nat → Prop) : Run → Run → Prop := Relation.ReflTransGen (Addition free)

def Acts (free fresh : Nat → Prop) : Run → Run → Prop :=
  Relation.ReflTransGen (Act free fresh)

variable {free fresh : Nat → Prop}

instance : IsPreorder Run (Adds free) where
  refl _ := .refl
  trans _ _ _ := Relation.ReflTransGen.trans

instance : IsPreorder Run (Acts free fresh) where
  refl _ := .refl
  trans _ _ _ := Relation.ReflTransGen.trans

/-- An addition is work. -/
theorem Addition.works (addition : r.Addition free s) : r.Works s := by
  cases addition with
  | note notes => exact .registry notes.graph notes.stack
  | attach => exact .single (.attach _ _)
  | @refer p x pointer =>
    exact .tail (Works.registry (s := r.addRef pointer) rfl rfl) (.attach p x)
  | @standIn p x k location message =>
    exact .tail (Works.registry (s := r.warn location k message) rfl rfl) (.attach p x)

theorem Act.works (act : r.Act free fresh s) : r.Works s := by
  cases act with
  | add addition => exact addition.works
  | mark => exact .single (.modify _ fun _ => ⟨fun _ => rfl, id⟩)
  | turn | field => exact .single (.modify _ fun _ => ⟨id, id⟩)

/-- An addition inside a frame is one outside of it. -/
theorem Addition.leave (addition : r.Addition free s) : r.leave.Addition free s.leave := by
  cases addition with
  | note notes => exact .note { notes with stack := congrArg List.tail notes.stack }
  | attach may solid plain => exact .attach may solid plain
  | refer may kind => exact .refer may kind
  | standIn may kind => exact .standIn may kind

/-- An act inside a frame is one outside of it. -/
theorem Act.leave (act : r.Act free fresh s) : r.leave.Act free fresh s.leave := by
  cases act with
  | add addition => exact .add addition.leave
  | mark may => exact .mark may
  | turn new kind wraps => exact .turn new kind wraps
  | field may object child isProperty named => exact .field may object child isProperty named

/-- What is there when something is added keeps its kind. -/
theorem Addition.kind (addition : r.Addition free s) (inside : i < r.graph.size) :
    (s.graph.node i).kind = (r.graph.node i).kind := by
  cases addition with
  | note notes => rw [notes.graph]
  | attach | refer | standIn => exact Graph.kind_attach_of_lt inside

/-- All nodes are free and fresh that are not there yet. -/
structure Ahead (r : Run) (free fresh : Nat → Prop) : Prop where
  next : ∀ ⦃i⦄, r.graph.size ≤ i → free i
  beyond : ∀ ⦃i⦄, r.graph.size ≤ i → fresh i

/-- Moreover, all nodes are free that were not visited yet. -/
structure Frees (r : Run) (free fresh : Nat → Prop) : Prop where
  idle : ∀ ⦃i⦄, ¬r.graph.IsDone i → free i
  beyond : ∀ ⦃i⦄, r.graph.size ≤ i → fresh i

/-- A run that is free to act is ahead. -/
theorem Frees.ahead (frees : r.Frees free fresh) : r.Ahead free fresh where
  next _ le := frees.idle fun done => absurd done.1 (Nat.not_lt.mpr le)
  beyond := frees.beyond

/-- Work keeps a run ahead. -/
theorem Works.ahead (works : r.Works s) (ahead : r.Ahead free fresh) : s.Ahead free fresh where
  next _ le := ahead.next (works.size_le.trans le)
  beyond _ le := ahead.beyond (works.size_le.trans le)

/-- Work keeps a run free to act. -/
theorem Works.frees (works : r.Works s) (frees : r.Frees free fresh) : s.Frees free fresh where
  idle _ idle := frees.idle fun done => idle (works.isDone done)
  beyond _ le := frees.beyond (works.size_le.trans le)

theorem Frees.all : r.Frees (fun _ => True) fun _ => True :=
  ⟨fun _ _ => trivial, fun _ _ => trivial⟩

theorem Ahead.all : r.Ahead (fun _ => True) fun _ => True := Frees.all.ahead

theorem Frees.enter {tag : Tag} (frees : r.Frees free fresh) : (r.enter i tag).Frees free fresh :=
  ⟨frees.idle, frees.beyond⟩

/-- Additions are work. -/
theorem Adds.works (adds : r.Adds free s) : r.Works s := by
  induction adds with
  | refl => exact .refl
  | tail _ addition ih => exact ih.trans addition.works

/-- Additions leave the kinds of the nodes. -/
theorem Adds.kind (adds : r.Adds free s) (inside : i < r.graph.size) :
    (s.graph.node i).kind = (r.graph.node i).kind := by
  induction adds with
  | refl => rfl
  | tail before addition ih =>
    exact (addition.kind (Adds.works before |>.marks inside).1).trans ih

/-- Additions are acts. -/
theorem Adds.acts (adds : r.Adds free s) : r.Acts free fresh s :=
  Relation.ReflTransGen.mono (fun _ _ => .add) _ _ adds

theorem Acts.works (acts : r.Acts free fresh s) : r.Works s := by
  induction acts with
  | refl => exact .refl
  | tail _ act ih => exact ih.trans act.works

/-- Acts keep a run free to act. -/
theorem Acts.frees (acts : r.Acts free fresh s) (frees : r.Frees free fresh) : s.Frees free fresh :=
  acts.works.frees frees

/-- Nothing is taken back. -/
theorem Act.extends (act : r.Act free fresh s) : r.graph.Extends s.graph := by
  cases act with
  | add addition =>
    cases addition with
    | note notes =>
      rw [notes.graph]
      exact .refl _
    | attach | refer | standIn => exact .attach
  | mark => exact .modify { Node.Keeps.refl _ with visited := fun _ => rfl }
  | @turn _ shape required _ kind wraps =>
    exact .modify { Node.Keeps.refl _ with kind := .inr ⟨shape, required, kind, wraps, rfl⟩ }
  | field => exact .modify { Node.Keeps.refl _ with }

theorem Acts.extends (acts : r.Acts free fresh s) : r.graph.Extends s.graph := by
  induction acts with
  | refl => exact .refl _
  | tail _ act ih => exact ih.trans act.extends

/-- What is neither free nor fresh is left alone. -/
theorem Act.spares (act : r.Act free fresh s) (inside : i < r.graph.size) (busy : ¬free i)
    (old : ¬fresh i) : s.graph.node i = r.graph.node i := by
  have other : ∀ {j}, free j → i ≠ j := fun may same => busy (same ▸ may)
  cases act with
  | add addition =>
    cases addition with
    | note notes => rw [notes.graph]
    | attach may | refer may | standIn may =>
      exact Graph.node_attach_of_ne (other may) (Nat.ne_of_lt inside)
  | mark may | field may => exact Graph.node_modify_of_ne (other may)
  | turn new => exact Graph.node_modify_of_ne fun same => old (same ▸ new)

/-- Acts leave a node alone that is neither free nor fresh. -/
theorem Acts.spares (acts : r.Acts free fresh s) (inside : i < r.graph.size) (busy : ¬free i)
    (old : ¬fresh i) : s.graph.node i = r.graph.node i := by
  induction acts with
  | refl => rfl
  | tail before act ih =>
    exact (act.spares (inside.trans_le (Acts.extends before).size_le) busy old).trans ih

/-- A frame that is put on before some acts is taken off after them. -/
theorem Acts.drop {tag : Tag} (acts : (r.enter i tag).Acts free fresh s) :
    r.Acts free fresh s.leave := by
  induction acts with
  | refl => exact .refl
  | tail _ act ih => exact .tail ih act.leave

end Run

end RestGraph
