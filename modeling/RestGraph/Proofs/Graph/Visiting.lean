import RestGraph.Proofs.Graph.Building

/-!
# Visiting

A visit works on nodes that were not visited before. A node that was has its children already, and
they stay.
-/

namespace RestGraph

variable {d : Document} {r r' s t : Run} {i c : Nat}

/-- The properties below a node by name, a later one in the place of an earlier. -/
def Graph.fieldsAt (g : Graph) (o : Nat) : List (String × Nat) :=
  (g.node o).children.foldl (fun fields q => Run.assign (g.node q).name q fields) []

/-- The fields of an object are the properties below it. -/
def Graph.FilledAt (g : Graph) (o : Nat) : Prop :=
  (g.node o).kind.tag = .object → (g.node o).props = g.fieldsAt o

def Graph.Filled (g : Graph) : Prop := ∀ o, g.FilledAt o

/-- The fields of a node hang on its children and their names. -/
theorem Graph.fieldsAt_congr {g h : Graph} {o : Nat}
    (children : (h.node o).children = (g.node o).children)
    (name : ∀ q ∈ (g.node o).children, (h.node q).name = (g.node q).name) :
    h.fieldsAt o = g.fieldsAt o := by
  rw [fieldsAt, fieldsAt, children]
  exact List.foldl_ext _ _ _ fun fields q child => by rw [name q child]

/-- A mark leaves an object filled. -/
theorem Graph.FilledAt.mark {g : Graph} {o : Nat} {f : Node → Node}
    (kind : ∀ n, (f n).kind = n.kind) (children : ∀ n, (f n).children = n.children)
    (props : ∀ n, (f n).props = n.props) (name : ∀ n, (f n).name = n.name) (filled : g.FilledAt o) :
    (g.modify i f).FilledAt o := by
  intro object
  rw [part_modify Node.kind kind] at object
  rw [part_modify Node.props props, filled object]
  exact (fieldsAt_congr (part_modify Node.children children o)
    fun q _ => part_modify Node.name name q).symm

/-- The children of the node were visited. -/
def Graph.TendedAt (g : Graph) (o : Nat) : Prop :=
  ∀ c ∈ (g.node o).children, (g.node c).visited = true

/-- Some child of the node is a response. -/
def Graph.AnsweredAt (g : Graph) (o : Nat) : Prop :=
  ∃ c ∈ (g.node o).children, (g.node c).kind.tag = .response

/-- An operation that was visited has a response, and every node below it was visited. -/
def Graph.ServedAt (g : Graph) (o : Nat) : Prop :=
  (g.node o).kind.tag = .operation → (g.node o).visited = true → g.TendedAt o ∧ g.AnsweredAt o

/-- A mark leaves an operation served. -/
theorem Graph.ServedAt.mark {g : Graph} {o : Nat} {f : Node → Node}
    (kind : ∀ n, (f n).kind = n.kind) (children : ∀ n, (f n).children = n.children)
    (visited : ∀ n, (f n).visited = n.visited) (served : g.ServedAt o) :
    (g.modify i f).ServedAt o := by
  intro tag done
  rw [part_modify Node.kind kind] at tag
  rw [part_modify Node.visited visited] at done
  obtain ⟨tended, answer, child, response⟩ := served tag done
  refine ⟨fun c child => ?_, answer, ?_, ?_⟩
  · rw [part_modify Node.children children] at child
    rw [part_modify Node.visited visited]
    exact tended c child
  · rwa [part_modify Node.children children]
  · rwa [part_modify Node.kind kind]

/-- The children that an operation has so far were visited, and one with the tag may still come. -/
def Graph.AwaitsAt (g : Graph) (o : Nat) (tag : Tag) : Prop := g.TendedAt o ∧ g.Lacks o tag

/-- A node that is not worked on stays as it is, and its children stay visited. -/
theorem Graph.ServedAt.grow {busy : Set Nat} {g h : Graph} {o : Nat} (served : g.ServedAt o)
    (forest : g.Forest) (step : g.Grows busy h) (old : o < g.size) (free : o ∉ busy)
    (visited : (h.node o).visited = true → (g.node o).visited = true) : h.ServedAt o := by
  intro tag done
  rw [step.kind old] at tag
  obtain ⟨tended, answer, child, response⟩ := served tag (visited done)
  refine ⟨fun c child => ?_, answer, ?_, ?_⟩
  · rw [step.children old free] at child
    exact (step.keeps (forest.below child).2).visited (tended c child)
  · rwa [step.children old free]
  · rwa [step.kind (forest.below child).2]

/-- An object counts as merged. -/
@[simp]
theorem Node.isMerged_of_object {n : Node} (object : n.kind.tag = .object) : n.isMerged = true := by
  unfold Node.isMerged
  cases kind : n.kind <;> first | rfl | (rw [kind] at object; cases object)

@[simp]
theorem Kind.isEager_of_object {k : Kind} (object : k.tag = .object) : k.isEager = false := by
  cases k <;> first | rfl | cases object

/-- Nodes made elsewhere leave an object as it is. -/
theorem Run.Builds.filledAt (builds : r.Builds d i s) (forest : r.graph.Forest) {o : Nat}
    (other : o < r.graph.size → o ≠ i) (filled : r.graph.FilledAt o) : s.graph.FilledAt o := by
  intro object
  by_cases old : o < r.graph.size
  · rw [builds.grows.kind old] at object
    rw [builds.grows.props old (other old) (Node.isMerged_of_object object), filled object]
    exact (Graph.fieldsAt_congr (builds.grows.children old (other old))
      fun q child => (builds.grows.keeps (forest.below child).2).name).symm
  · have unvisited : (s.graph.node o).visited = false := Bool.eq_false_iff.mpr fun visited =>
      old (builds.unvisited (Graph.lt_size_of_ne fun e => by rw [e] at object; cases object)
        visited).1
    have childless := (builds.forest forest).late (Kind.isEager_of_object object) unvisited
    rw [builds.fields, Graph.node_of_size_le (Nat.le_of_not_lt old), Graph.fieldsAt, childless]
    rfl

/-- Building leaves other objects filled. -/
theorem Run.Builds.filled (builds : r.Builds d i s) (forest : r.graph.Forest) {o : Nat}
    (other : o = i → (r.graph.node i).kind.tag ≠ .object) (filled : r.graph.FilledAt o) :
    s.graph.FilledAt o := fun object => builds.filledAt forest (fun old same => by
  rw [builds.grows.kind old] at object
  exact other same (same ▸ object)) filled object

/-- Nodes that were just made are no matter for an operation. -/
theorem Run.Builds.servedAt (builds : r.Builds d i s) (forest : r.graph.Forest) {o : Nat}
    (other : o = i → (r.graph.node i).kind.tag ≠ .operation) (served : r.graph.ServedAt o) :
    s.graph.ServedAt o := by
  intro tag visited
  have lt : o < s.graph.size := Graph.lt_size_of_ne fun e => by
    rw [e] at tag
    cases tag
  obtain ⟨old, visited'⟩ := builds.unvisited lt visited
  refine served.grow forest builds.grows old ?_ (fun _ => visited') tag visited
  rintro rfl
  rw [builds.grows.kind old] at tag
  exact other rfl tag

/-- A stretch of a run that works on nodes that were not visited, and completes them. -/
structure Run.Visits (d : Document) (r s : Run) : Prop
    extends Run.Steps d r.graph.unvisited r s where
  filled : ∀ {o}, r.graph.FilledAt o → s.graph.FilledAt o
  served : ∀ {o}, r.graph.ServedAt o → s.graph.ServedAt o
  fed : ∀ {o}, r.graph.FedAt o → s.graph.FedAt o

namespace Run.Visits

theorem refl (d : Document) (r : Run) : Visits d r r := ⟨.refl d _ r, id, id, id⟩

theorem trans (first : Visits d r s) (second : Visits d s t) : Visits d r t where
  toSteps := first.toSteps.trans second.toSteps fun _ lt => first.grows.unvisited lt
  filled := second.filled ∘ first.filled
  served := second.served ∘ first.served
  fed := second.fed ∘ first.fed

theorem of_same (graph : s.graph = r.graph) (stack : s.stack = r.stack)
    (filter : s.filter = r.filter) (extent : s.extent = r.extent) : Visits d r s :=
  ⟨.of_same graph stack filter extent, graph ▸ id, graph ▸ id, graph ▸ id⟩

end Run.Visits

/-- Only the node and the nodes below it were visited. -/
def Graph.Spares (i : Nat) (g h : Graph) : Prop :=
  ∀ o < g.size, o ≠ i → i ∉ g.ancestors o → (h.node o).visited = true → (g.node o).visited = true

/-- Both stretches spare what the whole spares. -/
theorem Graph.Spares.trans {busy : Set Nat} {g h k : Graph} (first : g.Spares i h)
    (grows : g.Grows busy h) (second : h.Spares i k) : g.Spares i k := by
  intro o old other free visited
  refine first o old other free (second o (old.trans_le grows.size_le) other ?_ visited)
  rwa [grows.ancestors old]

structure Run.VisitsAt (d : Document) (i : Nat) (r s : Run) : Prop extends Run.Visits d r s where
  done : (s.graph.node i).visited = true
  spares : r.graph.Spares i s.graph

/-- A wide node stays open while others grow. -/
theorem Graph.Open.after {busy : Set Nat} {g h : Graph} (room : g.Open i)
    (wide : (g.node i).kind.isNarrow = false) (grows : g.Grows busy h) : h.Open i where
  inside := room.inside.trans_le grows.size_le
  room narrow := by
    rw [(grows.keeps room.inside).kind.isNarrow, wide] at narrow
    cases narrow
  due eager := by
    rw [(grows.keeps room.inside).kind.isEager] at eager
    exact (grows.keeps room.inside).visited (room.due eager)

/-- What a visit does inside a node: it works on the node and on nodes that were not visited. -/
structure Run.Inside (d : Document) (i : Nat) (r s : Run) : Prop
    extends Run.Steps d (insert i r.graph.unvisited) r s where
  filled : ∀ {o}, (o = i → (r.graph.node i).kind.tag ≠ .object) → r.graph.FilledAt o →
    s.graph.FilledAt o
  served : ∀ {o}, (o = i → (r.graph.node i).kind.tag ≠ .operation) → r.graph.ServedAt o →
    s.graph.ServedAt o
  fed : ∀ {o}, o ≠ i → r.graph.FedAt o → s.graph.FedAt o
  spares : r.graph.Spares i s.graph

namespace Run.Inside

theorem refl (d : Document) (i : Nat) (r : Run) : Inside d i r r :=
  ⟨.refl d _ r, fun _ => id, fun _ => id, fun _ => id, fun _ _ _ _ => id⟩

/-- Nothing but registries changed. -/
theorem of_same (graph : s.graph = r.graph) (stack : s.stack = r.stack)
    (filter : s.filter = r.filter) (extent : s.extent = r.extent) : Inside d i r s :=
  ⟨.of_same graph stack filter extent, fun _ => graph ▸ id, fun _ => graph ▸ id,
    fun _ => graph ▸ id, fun _ _ _ _ visited => graph ▸ visited⟩

theorem trans (first : Inside d i r s) (second : Inside d i s t) (lt : i < r.graph.size) :
    Inside d i r t where
  toSteps := first.toSteps.trans second.toSteps fun _ lt busy =>
    busy.imp_right (first.grows.unvisited lt)
  filled other := by
    have other' := other
    rw [← first.grows.kind lt] at other'
    exact second.filled other' ∘ first.filled other
  served other := by
    have other' := other
    rw [← first.grows.kind lt] at other'
    exact second.served other' ∘ first.served other
  fed other := second.fed other ∘ first.fed other
  spares := first.spares.trans first.grows second.spares

/-- A child that is made is made inside its parent. -/
theorem of_made (made : Made d i r c s) (feeds : r.Feeds s) (forest : r.graph.Forest) :
    Inside d i r s where
  toSteps := (Run.Steps.refl d _ r).trans made.builds.toSteps fun _ _ e => .inl e
  filled := made.builds.filled forest
  served := made.builds.servedAt forest
  fed {o} _ before := by
    rcases lt_or_ge o r.graph.size with old | new
    · exact fun lt => before.grow made.builds.grows.toExtends old
        (fun done => (made.builds.unvisited lt done).2) lt
    · exact feeds o new
  spares o old _ _ visited :=
    (made.builds.unvisited (old.trans_le made.builds.grows.size_le) visited).2

/-- A child is visited. -/
theorem of_visits (visit : r.VisitsAt d c s) (child : c ∈ (r.graph.node i).children)
    (forest : r.graph.Forest) : Inside d i r s where
  toSteps := (Run.Steps.refl d _ r).trans visit.toSteps fun _ _ e => .inr e
  filled _ := visit.filled
  served _ := visit.served
  fed _ := visit.fed
  spares o old other free := by
    have above : i ∈ r.graph.ancestors c := by
      rw [forest.ancestors_of_child child]
      exact List.mem_cons_self
    refine visit.spares o old ?_ fun below => free (Graph.mem_ancestors_trans above below)
    rintro rfl
    exact free above

end Run.Inside

/-! ## The node that is visited -/

/-- The run while the node is visited: the node is marked, and it is on the stack. -/
def Run.visiting (r : Run) (i : Nat) : Run :=
  (r.onGraph fun g => g.modify i fun n => { n with visited := true }).enter i
    (r.graph.node i).kind.tag

namespace Run

variable {o : Nat}

/-- A visit starts with the nodes there are. -/
@[simp] theorem size_visiting : (r.visiting i).graph.size = r.graph.size := Graph.size_modify

/-- At its start a visit marks its node. -/
@[simp] theorem node_visiting (inside : i < r.graph.size) :
    (r.visiting i).graph.node i = { r.graph.node i with visited := true } :=
  Graph.node_modify_self inside

/-- At its start a visit leaves all other nodes as they are. -/
@[simp] theorem node_visiting_of_ne (other : o ≠ i) :
    (r.visiting i).graph.node o = r.graph.node o := Graph.node_modify_of_ne other

@[simp] theorem kind_visiting (o : Nat) :
    ((r.visiting i).graph.node o).kind = (r.graph.node o).kind :=
  Graph.part_modify (f := fun n => { n with visited := true }) Node.kind (fun _ => rfl) o

@[simp] theorem children_visiting (o : Nat) :
    ((r.visiting i).graph.node o).children = (r.graph.node o).children :=
  Graph.part_modify (f := fun n => { n with visited := true }) Node.children (fun _ => rfl) o

/-- The mark changes no more than itself. -/
theorem grows_visiting : r.graph.Grows ∅ (r.visiting i).graph :=
  .mark (fun n => { Node.Keeps.refl n with visited := fun _ => rfl }) (fun _ => rfl) (fun _ => rfl)
    fun _ => rfl

theorem forest_visiting (forest : r.graph.Forest) (inside : i < r.graph.size) :
    (r.visiting i).graph.Forest :=
  forest.mark inside { Node.Keeps.refl (r.graph.node i) with visited := fun _ => rfl } rfl rfl

/-- What other operations have below them they keep. -/
theorem served_visiting (forest : r.graph.Forest) (other : o ≠ i) (served : r.graph.ServedAt o) :
    (r.visiting i).graph.ServedAt o := by
  intro tag done
  have grows := grows_visiting (r := r) (i := i)
  rw [node_visiting_of_ne other] at tag done
  obtain ⟨tended, answer, child, response⟩ := served tag done
  refine ⟨fun c child => ?_, answer, (children_visiting o).symm ▸ child, ?_⟩
  · rw [children_visiting] at child
    exact (grows.keeps (forest.below child).2).visited (tended c child)
  · rwa [kind_visiting]

namespace Inside

variable (work : (r.visiting i).Inside d i s) (fresh : (r.graph.node i).visited = false)

include work fresh

/-- What is done inside a node that is being visited works on unvisited nodes only. -/
theorem grows_of_visiting : r.graph.Grows r.graph.unvisited s.graph := by
  refine grows_visiting.idle.trans work.grows fun j lt busy => ?_
  rcases busy with rfl | busy
  · exact fresh
  · exact grows_visiting.unvisited lt busy

/-- If the node gets the children that it wants, every node stays fed. -/
theorem fed_of_visiting (children : (r.graph.node i).kind.isEager = false →
    (r.graph.node i).isHollow = false → (s.graph.node i).children ≠ [])
    (before : r.graph.FedAt o) : s.graph.FedAt o := by
  by_cases e : o = i
  · subst e
    intro _ _ solid
    have keeps := (work.grows_of_visiting fresh).keeps (Graph.lt_size_of_not_visited fresh)
    have solid : (r.graph.node o).isHollow = false := keeps.isHollow.symm.trans solid
    cases eager : (r.graph.node o).kind.isEager with
    | false => exact children eager solid
    | true =>
      refine fun none => before (Graph.lt_size_of_not_visited fresh) (.inl eager) solid ?_
      exact List.prefix_nil.mp (none ▸ keeps.children)
  · refine work.fed e fun lt due => ?_
    rw [node_visiting_of_ne e] at due ⊢
    exact before (size_visiting ▸ lt) due

omit fresh in
/-- What is done inside a node that is being visited spares the others. -/
theorem spares_of_visiting : r.graph.Spares i s.graph := by
  intro o old other free visited
  have done := work.spares o (old.trans_eq size_visiting.symm) other
    (by rwa [grows_visiting.ancestors old]) visited
  rwa [node_visiting_of_ne other] at done

/-- What is done inside of the node makes up the visit of it. -/
theorem visits (forest : r.graph.Forest)
    (filled : ∀ {o}, (r.visiting i).graph.FilledAt o → s.graph.FilledAt o)
    (served : s.graph.ServedAt i) (children : (r.graph.node i).kind.isEager = false →
      (r.graph.node i).isHollow = false → (s.graph.node i).children ≠ []) :
    r.VisitsAt d i s.leave where
  moves := .head (.visit (Graph.lt_size_of_not_visited fresh)) work.moves
  grows := work.grows_of_visiting fresh
  unmerged := by
    have unmerged : Graph.NoNew Node.consolidated r.graph (r.visiting i).graph :=
      .modify fun _ => rfl
    exact unmerged.trans work.unmerged
  stack := by
    change s.stack.tail = r.stack
    rw [work.stack]
    rfl
  filter := work.filter
  extent := work.extent
  filled := filled ∘ Graph.FilledAt.mark (fun _ => rfl) (fun _ => rfl) (fun _ => rfl) fun _ => rfl
  served {o} before := by
    by_cases e : o = i
    · exact e ▸ served
    · exact work.served (fun same => absurd same e) (served_visiting forest e before)
  fed := work.fed_of_visiting fresh children
  done := by
    have inside := Graph.lt_size_of_not_visited fresh
    refine (work.grows.keeps (inside.trans_eq size_visiting.symm)).visited ?_
    rw [node_visiting inside]
  spares := work.spares_of_visiting

end Inside

end Run

@[simp]
theorem Kind.isEager_of_operation {k : Kind} (tag : k.tag = .operation) : k.isEager = false := by
  cases k <;> first | rfl | cases tag

@[simp] theorem Kind.not_isNarrow_of_operation {k : Kind} (tag : k.tag = .operation) :
    k.isNarrow = false := by
  cases k <;> first | rfl | cases tag

@[simp] theorem Kind.not_isNarrow_of_composition {k : Kind} (composition : k.isComposition = true) :
    k.isNarrow = false := by
  cases k <;> first | rfl | cases composition

@[simp]
theorem Kind.not_isProperty_of_composition {k : Kind} (composition : k.isComposition = true) :
    k.isProperty = false := by
  cases k <;> first | rfl | cases composition

/-- A composition admits every schema. -/
theorem Kind.admits_of_composition {k c : Kind} (composition : k.isComposition = true)
    (schema : c.isSchema = true) : k.admits c = true := by
  cases k <;> first | exact schema | cases composition

/-- An operation admits its parts. -/
theorem Kind.admits_part {k c : Kind} (tag : k.tag = .operation)
    (part : c.tag = .param ∨ c.tag = .body ∨ c.tag = .response) : k.admits c = true := by
  cases k <;> cases tag
  rcases part with e | e | e <;> cases c <;> first | rfl | cases e

/-- A node with one more field, or another under the name. -/
def Node.withField (name : String) (prop : Nat) (n : Node) : Node :=
  { n with props := Run.assign name prop n.props }

namespace Build

/-- A reference that is followed ends at a fragment of the document. -/
theorem ends_deref {path : String} {j a : Json} (h : Ends (deref d path j) r a r') :
    r = r' ∧ (a = j ∨ a.Within d.root) := by
  unfold deref at h
  simp only [Ends.bind_iff, Ends.get_iff, Ends.liftExcept_iff] at h
  obtain ⟨_, _, ⟨rfl, rfl⟩, found, rfl⟩ := h
  exact ⟨rfl, Document.within_of_followFrom found⟩

/-- Merged parameters are offered to the node that offered the raw ones. -/
theorem ends_mergeParameters {path : String} {raw params : List Json} {n : Node}
    (h : Ends (mergeParameters d path raw) r params r') (offered : ∀ j ∈ raw, d.Offers n j) :
    r = r' ∧ ∀ j ∈ params, d.Offers n j := by
  unfold mergeParameters at h
  simp only [bind_pure_comp, Ends.map_iff] at h
  obtain ⟨merged, h, rfl⟩ := h
  rw [List.forall_mem_map]
  refine Ends.foldlM_keeps (I := fun merged s => r = s ∧ ∀ x ∈ merged, d.Offers n x.2) ?_
    ⟨rfl, fun _ none => absurd none List.not_mem_nil⟩ h
  rintro merged param _ s t mem ⟨rfl, before⟩ h
  unfold addParameter at h
  simp only [Ends.bind_iff] at h
  obtain ⟨_, _, h, h'⟩ := h
  obtain ⟨rfl, leads⟩ := ends_deref h
  split at h'
  · obtain ⟨rfl, rfl⟩ := Ends.pure_iff.mp h'
    exact ⟨rfl, before⟩
  · obtain ⟨rfl, rfl⟩ := Ends.pure_iff.mp h'
    refine ⟨rfl, fun x hx => ?_⟩
    rcases Run.mem_assign hx with rfl | old
    · exact (offered param mem).follow leads
    · exact before x old

/-- The schema that is chosen was found in one of the responses, or through references. -/
theorem ends_chosenResponse {path : String} {responses : Json} {a : Option (String × Json)}
    (h : Ends (chosenResponse d path responses) r a r') :
    r = r' ∧ ∀ x ∈ a, (∃ status response, responses.get? status = some response ∧
      x.2.Within response) ∨ x.2.Within d.root := by
  unfold chosenResponse at h
  split at h
  · obtain ⟨rfl, rfl⟩ := Ends.pure_iff.mp h
    exact ⟨rfl, fun _ none => absurd none (Option.not_mem_none _)⟩
  · next status _ =>
    simp only [Ends.bind_iff, Ends.pure_iff] at h
    obtain ⟨response, _, h, rfl, rfl⟩ := h
    obtain ⟨rfl, leads⟩ := ends_deref h
    refine ⟨rfl, fun x hx => ?_⟩
    obtain ⟨schema, found, rfl⟩ := Option.map_eq_some_iff.mp hx
    have inside := Media.within_of_schema? found
    rcases leads with rfl | root
    · cases here : responses.get? status with
      | none =>
        rw [here] at found
        cases found
      | some found =>
        rw [here] at inside
        exact .inl ⟨status, _, here, inside⟩
    · exact .inr (inside.trans root)

section Kinds

variable {visitChild : Nat → Build Unit} {u : Unit}
  (visits : ∀ {c s t u}, Ends (visitChild c) s u t → s.graph.Forest → s.VisitsAt d c t)

include visits

theorem attachPart_inside {part : Seed} (h : Ends (attach i part) r c s)
    (h' : Ends (visitChild c) s u t) (forest : r.graph.Forest) (room : r.graph.Open i)
    (admits : (r.graph.node i).kind.admits part.kind = true)
    (tag : (r.graph.node i).kind.tag = .operation)
    (single : part.kind.tag.isSingle = true → r.graph.Lacks i part.kind.tag)
    (offered : d.Offers (r.graph.node i) part.schema) :
    r.Inside d i t ∧ (r.graph.TendedAt i → t.graph.TendedAt i) ∧
      (∀ tag ≠ part.kind.tag, r.graph.Lacks i tag → t.graph.Lacks i tag) ∧
      (part.kind.tag = .response → t.graph.AnsweredAt i) := by
  obtain ⟨made, node⟩ := attach_made (d := d) h room admits (.part tag single offered)
  have visit := visits h' (made.builds.forest forest)
  have late : part.kind.isEager = false := by
    cases parent : (r.graph.node i).kind <;> rw [parent] at tag admits <;> try cases tag
    cases kind : part.kind <;> rw [kind] at admits <;> first | rfl | cases admits
  have feeds := attach_feeds h room.inside (.inl late)
  have lt := room.inside
  have done := room.due (Kind.isEager_of_operation tag)
  have keeps := made.builds.grows.keeps lt
  have same := visit.grows.children (lt.trans_le made.builds.grows.size_le)
    (Graph.notMem_unvisited.mpr (keeps.visited done))
  have new := (made.builds.forest forest).below made.mem
  have kind : (t.graph.node c).kind = part.kind := by
    rw [visit.grows.kind new.2, node]
    rfl
  refine ⟨(Run.Inside.of_made made feeds forest).trans
    (.of_visits visit made.mem (made.builds.forest forest)) room.inside, ?_, ?_, ?_⟩
  · intro tended child mem
    rw [same, made.child] at mem
    rcases List.mem_append.mp mem with mem | mem
    · have old := (forest.below mem).2
      have before := (made.builds.grows.keeps old).visited (tended child mem)
      exact (visit.grows.keeps (old.trans_le made.builds.grows.size_le)).visited before
    · rw [List.mem_singleton.mp mem]
      exact visit.done
  · intro tag other lacks child mem
    rw [same, made.child] at mem
    rcases List.mem_append.mp mem with mem | mem
    · have old := (forest.below mem).2
      rw [visit.grows.kind (old.trans_le made.builds.grows.size_le), made.builds.grows.kind old]
      exact lacks child mem
    · rw [List.mem_singleton.mp mem, kind]
      exact other.symm
  · intro response
    refine ⟨c, ?_, kind ▸ response⟩
    rw [same]
    exact made.mem

theorem visitParameter_inside {operation : String} {param : Json}
    (h : Ends (visitParameter visitChild i operation param) r u r') (forest : r.graph.Forest)
    (room : r.graph.Open i) (tag : (r.graph.node i).kind.tag = .operation)
    (offered : d.Offers (r.graph.node i) param) :
    r.Inside d i r' ∧ ∀ tag ≠ .param, r.graph.AwaitsAt i tag → r'.graph.AwaitsAt i tag := by
  unfold visitParameter at h
  dsimp only at h
  split at h
  · obtain ⟨-, rfl⟩ := Ends.pure_iff.mp h
    exact ⟨.refl d i _, fun _ _ => id⟩
  · simp only [Ends.bind_iff] at h
    obtain ⟨c, s, h, h'⟩ := h
    obtain ⟨inside, tends, lacks, -⟩ := attachPart_inside visits h h' forest room
      (Kind.admits_part tag (.inl rfl)) tag (fun single => by cases single) offered
    exact ⟨inside, fun tag other awaits => ⟨tends awaits.1, lacks tag other awaits.2⟩⟩

theorem visitRequest_inside {operation path : String} {raw : Json}
    (h : Ends (visitRequest d visitChild i operation path raw) r u r') (forest : r.graph.Forest)
    (room : r.graph.Open i) (tag : (r.graph.node i).kind.tag = .operation)
    (awaits : r.graph.AwaitsAt i .body) (offered : d.Offers (r.graph.node i) raw) :
    r.Inside d i r' ∧ ∀ tag ≠ .body, r.graph.AwaitsAt i tag → r'.graph.AwaitsAt i tag := by
  unfold visitRequest at h
  simp only [Ends.bind_iff] at h
  obtain ⟨body, s, h, h'⟩ := h
  obtain ⟨rfl, leads⟩ := ends_deref h
  split at h'
  · obtain ⟨-, rfl⟩ := Ends.pure_iff.mp h'
    exact ⟨.refl d i _, fun _ _ => id⟩
  · next schema found =>
    simp only [Ends.bind_iff] at h'
    obtain ⟨c, s, h, h'⟩ := h'
    obtain ⟨inside, tends, lacks, -⟩ := attachPart_inside visits h h' forest room
      (Kind.admits_part tag (.inr (.inl rfl))) tag (fun _ => awaits.2)
      ((offered.follow leads).inside (Media.within_of_schema? found))
    exact ⟨inside, fun tag other awaits => ⟨tends awaits.1, lacks tag other awaits.2⟩⟩

theorem visitResponse_inside {operation path : String} {responses : Json}
    (h : Ends (visitResponse d visitChild i operation path responses) r u r')
    (forest : r.graph.Forest) (room : r.graph.Open i)
    (tag : (r.graph.node i).kind.tag = .operation) (awaits : r.graph.AwaitsAt i .response)
    (offered : ∀ {status j}, responses.get? status = some j → d.Offers (r.graph.node i) j) :
    r.Inside d i r' ∧ r'.graph.ServedAt i := by
  unfold visitResponse at h
  simp only [Ends.bind_iff] at h
  obtain ⟨chosen, s, h, h'⟩ := h
  obtain ⟨rfl, found⟩ := ends_chosenResponse h
  have warned : ∃ s, r.graph = s.graph ∧ r.stack = s.stack ∧ r.filter = s.filter ∧
      r.extent = s.extent ∧ ∃ c t seed, Ends (attach i seed) s c t ∧ seed.kind.tag = .response ∧
        d.Offers (r.graph.node i) seed.schema ∧ Ends (visitChild c) t u r' := by
    split at h'
    · next _ x =>
      simp only [Ends.bind_iff] at h'
      obtain ⟨c, t, h, h'⟩ := h'
      refine ⟨r, rfl, rfl, rfl, rfl, c, t, _, h, rfl, ?_, h'⟩
      rcases found x rfl with ⟨_, response, got, inside⟩ | root
      · exact (offered got).inside inside
      · exact .of_root root
    · simp only [Ends.bind_iff, ends_warn] at h'
      obtain ⟨_, _, rfl, c, t, h, h'⟩ := h'
      exact ⟨r.warn _ _ _, rfl, rfl, rfl, rfl, c, t, _, h, rfl, .synthetic, h'⟩
  obtain ⟨s, graph, stack, filter, extent, c, t, seed, h, response, offered, h'⟩ := warned
  rw [graph] at forest room tag awaits offered
  obtain ⟨inside, tends, -, answers⟩ := attachPart_inside visits h h' forest room
    (Kind.admits_part tag (.inr (.inr response))) tag (fun _ => response ▸ awaits.2) offered
  have same : r.Inside d i s := .of_same graph.symm stack.symm filter.symm extent.symm
  exact ⟨same.trans inside (graph ▸ room.inside), fun _ _ => ⟨tends awaits.1, answers response⟩⟩

theorem visitOperation_inside {method : Method} {shared : List Json}
    (h : Ends (visitOperation d visitChild i method shared) r u r')
    (forest : r.graph.Forest) (room : r.graph.Open i)
    (tag : (r.graph.node i).kind.tag = .operation)
    (childless : (r.graph.node i).children = [])
    (own : (r.graph.node i).kind.shared = shared) : r.Inside d i r' ∧ r'.graph.ServedAt i := by
  have lt := room.inside
  have kept : ∀ {s j}, r.Inside d i s → d.Offers (r.graph.node i) j → d.Offers (s.graph.node i) j :=
    fun steps offered => offered.keep (steps.grows.keeps lt)
  have later : ∀ {s}, r.Inside d i s →
      s.graph.Forest ∧ s.graph.Open i ∧ (s.graph.node i).kind.tag = .operation := fun steps =>
    ⟨steps.forest forest, room.after (Kind.not_isNarrow_of_operation tag) steps.grows,
      (steps.grows.keeps room.inside).kind.tag.trans tag⟩
  unfold visitOperation at h
  simp only [Ends.bind_iff, ends_node, ends_pathOf] at h
  obtain ⟨_, _, ⟨rfl, rfl⟩, _, _, ⟨rfl, rfl⟩, params, s, h, _, t, looped, h'⟩ := h
  obtain ⟨rfl, offered⟩ := ends_mergeParameters (n := r.graph.node i) h fun _ => .of_declared own
  have awaits : ∀ tag, r.graph.AwaitsAt i tag := fun tag => by
    constructor <;> intro c child <;> rw [childless] at child <;> cases child
  have params : r.Inside d i t ∧ ∀ tag ≠ .param, t.graph.AwaitsAt i tag := by
    refine Ends.forM_keeps (I := fun s => r.Inside d i s ∧ ∀ tag ≠ .param, s.graph.AwaitsAt i tag)
      (fun mem before h => ?_) ⟨.refl d i r, fun tag _ => awaits tag⟩ looped
    obtain ⟨inside, awaits⟩ := before
    obtain ⟨forest, room, tag⟩ := later inside
    obtain ⟨step, waits⟩ := visitParameter_inside visits h forest room tag
      (kept inside (offered _ mem))
    exact ⟨inside.trans step lt, fun tag other => waits tag other (awaits tag other)⟩
  have request : ∃ v, (r.Inside d i v ∧ v.graph.AwaitsAt i .response) ∧
      Ends (visitResponse d visitChild i (r.graph.node i).name
      (r.graph.pathOf i) (((r.graph.node i).schema.get? "responses").getD .null)) v u r' := by
    obtain ⟨forest, room, tag⟩ := later params.1
    split at h'
    · next raw found =>
      split at h'
      · simp only [Ends.bind_iff] at h'
        obtain ⟨_, v, h, h'⟩ := h'
        obtain ⟨step, waits⟩ := visitRequest_inside visits h forest room tag
          (params.2 .body Tag.noConfusion) (kept params.1 (.of_schema (Json.within_of_get? found)))
        exact ⟨v, ⟨params.1.trans step lt,
          waits .response Tag.noConfusion (params.2 .response Tag.noConfusion)⟩, h'⟩
      · exact ⟨t, ⟨params.1, params.2 .response Tag.noConfusion⟩, h'⟩
    · exact ⟨t, ⟨params.1, params.2 .response Tag.noConfusion⟩, h'⟩
  obtain ⟨v, ⟨inside, awaits⟩, h⟩ := request
  obtain ⟨forest, room, tag⟩ := later inside
  obtain ⟨step, served⟩ := visitResponse_inside visits h forest room tag awaits fun got =>
    kept inside (.of_response got)
  exact ⟨inside.trans step lt, served⟩

theorem enterSchema_inside {schema : Json} (h : Ends (enterSchema visitChild i schema) r u r')
    (forest : r.graph.Forest) (room : r.graph.Open i) (visited : (r.graph.node i).visited = true)
    (takes : ∀ c : Kind, c.isSchema = true → (r.graph.node i).kind.admits c = true)
    (holds : r.graph.Holds d i (r.graph.node i).children.length schema) : r.Inside d i r' ∧
      (r'.graph.node i).children.length = (r.graph.node i).children.length + 1 := by
  unfold enterSchema at h
  simp only [Ends.bind_iff] at h
  obtain ⟨c, s, h, h'⟩ := h
  obtain ⟨made, feeds⟩ := fromSchema_made h forest room takes holds
  have visit := visits h' (made.builds.forest forest)
  refine ⟨(Run.Inside.of_made made feeds forest).trans
    (.of_visits visit made.mem (made.builds.forest forest)) room.inside, ?_⟩
  have keeps := made.builds.grows.keeps room.inside
  rw [visit.grows.children (room.inside.trans_le made.builds.grows.size_le)
    (Graph.notMem_unvisited.mpr (keeps.visited visited)), made.child, List.length_append]
  rfl

theorem visitBranches_inside {keys : List String}
    (h : Ends (visitBranches visitChild i keys) r u r')
    (forest : r.graph.Forest) (room : r.graph.Open i) (visited : (r.graph.node i).visited = true)
    (childless : (r.graph.node i).children = [])
    (composition : (r.graph.node i).kind.isComposition = true)
    (fragments : ∀ place, d.fragmentAt? (r.graph.node i) place =
      (branchesOf (r.graph.node i).schema keys)[place]?) :
    r.Inside d i r' ∧
      (r'.graph.node i).children.length = (branchesOf (r.graph.node i).schema keys).length := by
  unfold visitBranches at h
  simp only [Ends.bind_iff, ends_node] at h
  obtain ⟨_, _, ⟨rfl, rfl⟩, h⟩ := h
  have wide : (r.graph.node i).kind.isNarrow = false := Kind.not_isNarrow_of_composition composition
  refine Ends.forM_counts
    (I := fun k s => r.Inside d i s ∧ (s.graph.node i).children.length = k) ?_ ?_ h
  · rintro place schema s t here ⟨inside, rfl⟩ h
    have keeps := inside.grows.keeps room.inside
    have entered := enterSchema_inside visits h (inside.forest forest)
      (room.after wide inside.grows) (keeps.visited visited)
      (fun c schema => by
        rw [keeps.kind.eq_of_not_isProperty (Kind.not_isProperty_of_composition composition)]
        exact Kind.admits_of_composition composition schema)
      (.own (by rw [keeps.fragmentAt?, fragments, here]))
    exact ⟨inside.trans entered.1 room.inside, entered.2⟩
  · exact ⟨.refl d i r, by rw [childless]; rfl⟩

end Kinds

/-- A property that was made becomes a field. -/
theorem enterField {name : String} (made : Made d i r c s) (feeds : r.Feeds s)
    (named : (s.graph.node c).name = name)
    (forest : r.graph.Forest) (lt : i < r.graph.size)
    (object : (r.graph.node i).kind.tag = .object) :
    r.Inside d i (s.onGraph fun g => g.modify i (Node.withField name c)) ∧
    ∀ {o}, r.graph.FilledAt o → (s.graph.modify i (Node.withField name c)).FilledAt o := by
  have forest' := made.builds.forest forest
  have inside : i < s.graph.size := Graph.lt_size_of_child made.mem
  have object' : (s.graph.node i).kind.tag = .object := made.builds.grows.kind lt ▸ object
  have isProperty : (s.graph.node c).isProperty = true := by
    have admits := forest'.admits made.mem
    cases kind : (s.graph.node i).kind <;> rw [kind] at object' admits <;>
      first | exact admits | cases object'
  have entered : s.Steps d {i} (s.onGraph fun g => g.modify i (Node.withField name c)) := by
    refine ⟨.single (.field object' made.mem isProperty named), ?_, .modify fun _ => rfl,
      rfl, rfl, rfl⟩
    exact .modify { Node.Keeps.refl (s.graph.node i) with } rfl
  have work := Run.Inside.of_made made feeds forest
  have visited := Graph.part_modify (g := s.graph) (i := i) (f := Node.withField name c)
    Node.visited (fun _ => rfl)
  have filled : ∀ {o}, r.graph.FilledAt o →
      (s.graph.modify i (Node.withField name c)).FilledAt o := by
    intro o filled object
    have kind := Graph.part_modify (g := s.graph) (i := i) (f := Node.withField name c)
      Node.kind (fun _ => rfl) o
    have same : (s.graph.modify i (Node.withField name c)).fieldsAt o = s.graph.fieldsAt o :=
      Graph.fieldsAt_congr (Graph.part_modify Node.children (fun _ => by rfl) o)
        fun q _ => Graph.part_modify Node.name (fun _ => by rfl) q
    rw [kind] at object
    rw [same]
    by_cases e : o = i
    · subst e
      rw [Graph.node_modify_self inside, Node.withField, made.builds.fields,
        filled (made.builds.grows.kind lt ▸ object), Graph.fieldsAt, Graph.fieldsAt, made.child,
        List.foldl_concat, named]
      refine congrArg (Run.assign name c) (List.foldl_ext _ _ _ fun fields q child => ?_)
      rw [(made.builds.grows.keeps (forest.below child).2).name]
    · rw [Graph.node_modify_of_ne e]
      exact made.builds.filledAt forest (fun _ => e) filled object
  refine ⟨⟨?_, fun _ => filled, fun other served => ?_, fun {o} other before => ?_,
    fun o old other free done => ?_⟩, filled⟩
  · exact work.toSteps.trans entered fun _ _ => .inl
  · exact (work.served other served).mark (fun _ => rfl) (fun _ => rfl) fun _ => rfl
  · intro lt
    exact (work.fed other before).grow entered.grows.toExtends (Graph.size_modify ▸ lt)
      (fun done => (visited o).symm.trans done) lt
  · exact work.spares o old other free ((visited o).symm.trans done)

/-- An object gets one more property, and that becomes a field. -/
theorem fromProp_inside {name : String} {schema : Json} {required synthetic : Bool} {prop : Nat}
    (h : Ends (fromProp d i name schema required) r prop s) (forest : r.graph.Forest)
    (room : r.graph.Open i) (object : (r.graph.node i).kind = .object synthetic)
    (here : (r.graph.node i).propAt? (r.graph.node i).children.length = some (name, schema)) :
    Made d i r prop s ∧
    r.Inside d i (s.onGraph fun g => g.modify i (Node.withField name prop)) ∧
    (∀ {o}, r.graph.FilledAt o → (s.graph.modify i (Node.withField name prop)).FilledAt o) ∧
    ((s.graph.modify i (Node.withField name prop)).node i).children.length =
      (r.graph.node i).children.length + 1 := by
  obtain ⟨made, named, feeds⟩ :=
    fromProp_made h forest room (by rw [object]; exact fun _ => id) here
  obtain ⟨entered, filled⟩ := enterField made feeds named forest room.inside (object ▸ rfl)
  refine ⟨made, entered, filled, ?_⟩
  rw [Graph.part_modify Node.children (fun _ => by rfl), made.child, List.length_append]
  rfl

/-- An object gets its properties one by one, and each becomes a field. -/
theorem visitObject_inside {u : Unit} (h : Ends (visitObject d i) r u r') (forest : r.graph.Forest)
    (room : r.graph.Open i) (childless : (r.graph.node i).children = [])
    {synthetic : Bool} (object : (r.graph.node i).kind = .object synthetic) :
    (r'.graph.node i).children.length = (sortedProperties (r.graph.node i).schema).length ∧
      r.Inside d i r' ∧ (∀ {o}, r.graph.FilledAt o → r'.graph.FilledAt o) := by
  have wide : (r.graph.node i).kind.isNarrow = false := by rw [object]; rfl
  have lt := room.inside
  unfold visitObject at h
  simp only [Ends.bind_iff, ends_node] at h
  obtain ⟨_, _, ⟨rfl, rfl⟩, h⟩ := h
  refine Ends.forM_counts (I := fun k s => (s.graph.node i).children.length = k ∧
    r.Inside d i s ∧ (∀ {o}, r.graph.FilledAt o → s.graph.FilledAt o)) ?_ ?_ h
  · rintro place ⟨name, schema⟩ s t here ⟨rfl, inside, filled⟩ h
    simp only [Ends.bind_iff, ends_modifyNode] at h
    obtain ⟨prop, v, h, rfl⟩ := h
    obtain ⟨-, entered, filled', length⟩ := fromProp_inside h (inside.forest forest)
      (room.after wide inside.grows) ((inside.grows.kind lt).trans object)
      (by rw [(inside.grows.keeps lt).propAt?, Node.propAt?, object, ← here])
    exact ⟨length, inside.trans entered lt, filled' ∘ filled⟩
  · exact ⟨by rw [childless]; rfl, .refl d i r, id⟩

section Visit

variable {u : Unit} {depth : Nat}

/-- What the visit of a node by its kind does: it works inside of the node, and completes it. -/
structure Completes (d : Document) (i : Nat) (r s : Run) : Prop extends r.Inside d i s where
  full : ∀ {o}, r.graph.FilledAt o → s.graph.FilledAt o
  serves : s.graph.ServedAt i
  children : (r.graph.node i).kind.isEager = false → (r.graph.node i).isHollow = false →
    (s.graph.node i).children ≠ []

/-- Only objects have fields to fill in, and only operations have parts to serve. -/
theorem Completes.of_plain (work : r.Inside d i s) (inside : i < r.graph.size)
    (noObject : (r.graph.node i).kind.tag ≠ .object)
    (noOperation : (r.graph.node i).kind.tag ≠ .operation)
    (children : (r.graph.node i).kind.isEager = false → (r.graph.node i).isHollow = false →
      (s.graph.node i).children ≠ []) : Completes d i r s where
  toInside := work
  full := work.filled fun _ => noObject
  serves tag := absurd (work.grows.kind inside ▸ tag) noOperation
  children := children

/-- As many children as there are fragments are some, when there are fragments. -/
theorem children_ne_nil_of_length {α : Type} {n : Node} {xs : List α}
    (length : n.children.length = xs.length) (some : xs.isEmpty = false) : n.children ≠ [] := by
  intro none
  rw [none] at length
  rw [List.eq_nil_of_length_eq_zero length.symm] at some
  cases some

/-- A node that leads to one schema is visited by entering this. -/
theorem enterSchema_completes {visitChild : Nat → Build Unit} {schema : Json}
    (visits : ∀ {c s t u}, Ends (visitChild c) s u t → s.graph.Forest → s.VisitsAt d c t)
    (h : Ends (enterSchema visitChild i schema) r u r') (forest : r.graph.Forest)
    (room : r.graph.Open i) (visited : (r.graph.node i).visited = true)
    (takes : ∀ c : Kind, c.isSchema = true → (r.graph.node i).kind.admits c = true)
    (here : d.fragmentAt? (r.graph.node i) (r.graph.node i).children.length = some schema)
    (noObject : (r.graph.node i).kind.tag ≠ .object)
    (noOperation : (r.graph.node i).kind.tag ≠ .operation) : Completes d i r r' := by
  obtain ⟨work, length⟩ := enterSchema_inside visits h forest room visited takes (.own here)
  exact .of_plain work room.inside noObject noOperation fun _ _ =>
    List.ne_nil_of_length_eq_add_one length

/-- Whatever its kind, a node is completed by its visit. -/
theorem visitKind_completes {visitChild : Nat → Build Unit}
    (visits : ∀ {c s t u}, Ends (visitChild c) s u t → s.graph.Forest → s.VisitsAt d c t)
    (h : Ends (visitKind d visitChild i (r.graph.node i).kind) r u r') (forest : r.graph.Forest)
    (inside : i < r.graph.size) (visited : (r.graph.node i).visited = true)
    (late : (r.graph.node i).kind.isEager = false → (r.graph.node i).children = []) :
    Completes d i r r' := by
  have room : (r.graph.node i).kind.isEager = false → r.graph.Open i := fun eager =>
    ⟨inside, fun _ => late eager, fun _ => visited⟩
  cases kind : (r.graph.node i).kind <;> rw [kind] at h room late
  case operation =>
    obtain ⟨work, served⟩ := visitOperation_inside visits h forest (room rfl) (by rw [kind]; rfl)
      (late rfl) (by rw [kind]; rfl)
    have keeps := work.grows.keeps inside
    obtain ⟨-, c, child, -⟩ :=
      served (keeps.kind.tag.trans (by rw [kind]; rfl)) (keeps.visited visited)
    exact ⟨work, work.filled (fun _ => by rw [kind]; exact Tag.noConfusion), served,
      fun _ _ => List.ne_nil_of_mem child⟩
  case param =>
    simp only [visitKind, visitParam, Ends.bind_iff, ends_node] at h
    obtain ⟨_, _, ⟨rfl, rfl⟩, h⟩ := h
    refine enterSchema_completes visits h forest (room rfl) visited ?_ ?_ ?_ ?_
    · exact kind ▸ fun _ => id
    · unfold Document.fragmentAt?
      exact kind ▸ rfl
    · exact kind ▸ Tag.noConfusion
    · exact kind ▸ Tag.noConfusion
  case body | response =>
    simp only [visitKind, visitPayload, Ends.bind_iff, ends_node] at h
    obtain ⟨_, _, ⟨rfl, rfl⟩, h⟩ := h
    refine enterSchema_completes visits h forest (room rfl) visited ?_ ?_ ?_ ?_
    · exact kind ▸ fun _ => id
    · rw [Document.fragmentAt?, kind]
    · exact kind ▸ Tag.noConfusion
    · exact kind ▸ Tag.noConfusion
  case reference pointer =>
    simp only [visitKind, visitReference, Ends.bind_iff, ends_pathOf, Ends.liftExcept_iff] at h
    obtain ⟨_, _, ⟨rfl, rfl⟩, target, _, ⟨found, rfl⟩, h⟩ := h
    refine enterSchema_completes visits h forest (room rfl) visited ?_ ?_ ?_ ?_
    · exact kind ▸ fun _ => id
    · rw [Document.fragmentAt?, kind]
      exact Document.lookup?_of_component found
    · exact kind ▸ Tag.noConfusion
    · exact kind ▸ Tag.noConfusion
  case object synthetic =>
    obtain ⟨length, work, full⟩ := visitObject_inside h forest (room rfl) (late rfl) kind
    refine ⟨work, full, fun tag => ?_, fun _ solid => ?_⟩
    · rw [work.grows.kind inside, kind] at tag
      cases tag
    · rw [Node.isHollow, kind] at solid
      exact children_ne_nil_of_length length solid
  case composed | union =>
    obtain ⟨work, length⟩ := visitBranches_inside visits h forest (room rfl) visited (late rfl)
      (kind ▸ rfl) (fun place => by rw [Document.fragmentAt?, kind])
    refine .of_plain work inside (kind ▸ Tag.noConfusion) (kind ▸ Tag.noConfusion) fun _ solid => ?_
    rw [Node.isHollow, kind] at solid
    exact children_ne_nil_of_length length solid
  case array | property =>
    simp only [visitKind, visitChildren, Ends.bind_iff, ends_node] at h
    obtain ⟨_, _, ⟨rfl, rfl⟩, h⟩ := h
    have work : r.Inside d i r' := Ends.forM_keeps (fun child work h => by
      have old := (work.grows.keeps inside).children.subset child
      have forest := work.forest forest
      exact work.trans (.of_visits (visits h forest) old forest) inside) (.refl d i r) h
    refine .of_plain work inside (kind ▸ Tag.noConfusion) (kind ▸ Tag.noConfusion) fun eager => ?_
    rw [kind] at eager
    cases eager
  case scalar | enum | circular =>
    obtain ⟨-, rfl⟩ := Ends.pure_iff.mp h
    refine .of_plain (.refl d i r) inside (kind ▸ Tag.noConfusion) (kind ▸ Tag.noConfusion)
      fun _ solid => ?_
    rw [Node.isHollow, kind] at solid
    cases solid

/-- Unless the node was visited before, it is visited by its kind. -/
theorem visitWithin_cases (h : Ends (visitWithin d (depth + 1) i) r u r') :
    (r.graph.node i).visited = true ∧ r = r' ∨ (r.graph.node i).visited = false ∧ ∃ s,
      Ends (visitKind d (visitWithin d depth) i ((r.visiting i).graph.node i).kind)
        (r.visiting i) u s ∧ s.leave = r' := by
  rw [visitWithin] at h
  simp only [Ends.bind_iff, ends_node] at h
  obtain ⟨_, _, ⟨rfl, rfl⟩, h⟩ := h
  split at h
  · next visited => exact .inl ⟨visited, (Ends.pure_iff.mp h).2⟩
  · next fresh =>
    simp only [Ends.bind_iff, ends_modifyNode, ends_framed] at h
    obtain ⟨_, _, rfl, s, h, rfl⟩ := h
    rw [Run.kind_visiting]
    exact .inr ⟨Bool.eq_false_iff.mpr fresh, s, h, rfl⟩

/-- A visit does its work, at any depth. -/
theorem visitWithin_steps (h : Ends (visitWithin d depth i) r u r') (forest : r.graph.Forest) :
    r.VisitsAt d i r' := by
  induction depth generalizing i r u r' with
  | zero => exact absurd h (by rw [visitWithin, Ends.throw_iff]; exact id)
  | succ depth ih =>
    obtain ⟨visited, rfl⟩ | ⟨fresh, s, inner, rfl⟩ := visitWithin_cases h
    · exact ⟨.refl _ _, visited, fun _ _ _ _ => id⟩
    · have inside := Graph.lt_size_of_not_visited fresh
      have node := Run.node_visiting inside
      have done := visitKind_completes ih inner (Run.forest_visiting forest inside)
        (inside.trans_eq Run.size_visiting.symm) (by rw [node])
        (by rw [node]; exact fun eager => forest.late eager fresh)
      refine done.toInside.visits fresh forest done.full done.serves fun eager solid =>
        done.children ?_ ?_
      · rwa [node]
      · rwa [node]

/-- A visit completes its node and spares the others. -/
theorem visit_at (h : Ends (visit d i) r u r') (forest : r.graph.Forest) : r.VisitsAt d i r' := by
  unfold visit at h
  simp only [Ends.bind_iff, Ends.get_iff] at h
  obtain ⟨_, _, ⟨rfl, rfl⟩, h⟩ := h
  exact visitWithin_steps h forest

/-- A visit leaves its node visited. -/
theorem visit_steps (h : Ends (visit d i) r u r') (forest : r.graph.Forest) :
    r.Visits d r' ∧ (r'.graph.node i).visited = true :=
  ⟨(visit_at h forest).toVisits, (visit_at h forest).done⟩

/-- A node that is visited is not visited again. -/
theorem ends_visit_of_visited (visited : (r.graph.node i).visited = true) :
    Ends (visit d i) r ⟨⟩ r := by
  obtain ⟨depth, reach⟩ : ∃ depth, r.reach = depth + 1 := Nat.exists_eq_add_one.mpr r.reach_pos
  rw [visit]
  refine Ends.bind_iff.mpr ⟨r, r, Ends.get_iff.mpr ⟨rfl, rfl⟩, ?_⟩
  rw [reach, visitWithin]
  refine Ends.bind_iff.mpr ⟨_, r, ends_node.mpr ⟨rfl, rfl⟩, ?_⟩
  rw [if_pos visited]
  exact Ends.pure_iff.mpr ⟨rfl, rfl⟩

/-- The children of a node are those that its visit leaves. -/
theorem ends_childrenOf {children : List Nat} (h : Ends (childrenOf d i) r children r') :
    ∃ u, Ends (visit d i) r u r' ∧ (r'.graph.node i).children = children := by
  unfold childrenOf at h
  simp only [Ends.bind_iff, ends_node, Ends.pure_iff] at h
  obtain ⟨u, _, h, _, _, ⟨rfl, rfl⟩, rfl, rfl⟩ := h
  exact ⟨u, h, rfl⟩

/-- Either the way ends at the node, or it goes on from its first child. -/
theorem targetWithin_cases {e : Nat} (h : Ends (targetWithin d (depth + 1) i) r e r') :
    ∃ u, Ends (visit d i) r ⟨⟩ u ∧
      (((u.graph.node i).kind.isWrapper = true → (u.graph.node i).children = []) ∧ i = e ∧ u = r' ∨
        (u.graph.node i).kind.isWrapper = true ∧ ∃ x, (u.graph.node i).children.head? = some x ∧
          Ends (targetWithin d depth x) u e r') := by
  simp only [targetWithin, Ends.bind_iff, ends_node] at h
  obtain ⟨_, u, visited, _, _, ⟨rfl, rfl⟩, h⟩ := h
  refine ⟨u, visited, ?_⟩
  split at h
  · next x rest children =>
    split at h
    · next wrapper => exact .inr ⟨wrapper, x, by rw [children]; rfl, h⟩
    · next bare => exact .inl ⟨fun wrapper => absurd wrapper bare, Ends.pure_iff.mp h⟩
  · next none => exact .inl ⟨fun _ => none, Ends.pure_iff.mp h⟩

theorem targetWithin_visits {target : Nat} (h : Ends (targetWithin d depth i) r target r')
    (forest : r.graph.Forest) : r.Visits d r' ∧ r'.graph.Leads i target ∧
      (r'.graph.node target).visited = true ∧
      ((r'.graph.node target).kind.isWrapper = true → (r'.graph.node target).children = []) := by
  induction depth generalizing i r with
  | zero => exact absurd h (by rw [targetWithin, Ends.throw_iff]; exact id)
  | succ depth ih =>
    obtain ⟨s, h, way⟩ := targetWithin_cases h
    obtain ⟨visits, visited⟩ := visit_steps h forest
    obtain ⟨childless, rfl, rfl⟩ | ⟨wrapper, c, first, h'⟩ := way
    · exact ⟨visits, .here i, visited, childless⟩
    · obtain ⟨more, leads, ends⟩ := ih h' (visits.forest forest)
      obtain ⟨rest, children⟩ := List.head?_eq_some_iff.mp first
      have first : s.graph.Leads i c := .down wrapper children (.here c)
      exact ⟨visits.trans more, (first.extend more.grows.toExtends).trans leads, ends⟩

/-- **Resolving a target visits the way to it.** -/
theorem resolveTarget_visits {target : Nat} (h : Ends (resolveTarget d i) r target r')
    (forest : r.graph.Forest) : r.Visits d r' ∧ r'.graph.Leads i target ∧
      (r'.graph.node target).visited = true ∧
      ((r'.graph.node target).kind.isWrapper = true → (r'.graph.node target).children = []) := by
  unfold resolveTarget at h
  simp only [Ends.bind_iff, Ends.get_iff] at h
  obtain ⟨_, _, ⟨rfl, rfl⟩, h⟩ := h
  exact targetWithin_visits h forest

end Visit

end Build

end RestGraph
