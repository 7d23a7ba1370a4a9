import RestGraph.Proofs.Graph.Forest

/-!
# Where nodes come from

A node below another is a part of an operation, or it was made from a fragment that the nodes above
it hold, or it is a leaf where nothing more is known. What it comes from is fixed when it is
attached, and no later move changes that.
-/

namespace RestGraph

variable {d : Document} {g h : Graph} {p place c : Nat}

namespace Kind

variable {k k' : Kind}

@[simp] theorem not_isProperty_of_isSchema (schema : k.isSchema = true) : k.isProperty = false := by
  cases k <;> first | rfl | cases schema

/-- Whether the children of nodes of the kind are properties. -/
def isOwner : Kind → Bool
  | .object _ | .property .array _ => true
  | _ => false

/-- What admits schemas is no owner of properties. -/
theorem not_isOwner_of_admits {c : Kind} (admits : k.admits c = true)
    (schema : c.isSchema = true) : k.isOwner = false := by
  have noProperty := not_isProperty_of_isSchema schema
  cases k with
  | object =>
    rw [Kind.admits, noProperty] at admits
    cases admits
  | property shape =>
    cases shape with
    | array =>
      rw [Kind.admits, noProperty] at admits
      cases admits
    | _ => rfl
  | _ => rfl

/-- A leaf that closes a cycle or stands in for an unknown element. -/
def IsBare (k : Kind) : Prop :=
  k.isCircular = true ∨ (∃ type, k = .scalar type true) ∨
    ∃ type required, k = .property (.scalar type true) required

theorem Turns.isCircular (turns : k.Turns k') (circular : k.isCircular = true) :
    k'.isCircular = true := by
  rcases turns with rfl | ⟨_, _, rfl, _, rfl⟩
  · exact circular
  · rfl

theorem IsBare.turn (bare : k.IsBare) (turns : k.Turns k') : k'.IsBare := by
  rcases turns with rfl | ⟨_, _, rfl, _, rfl⟩
  · exact bare
  · exact .inl rfl

/-- The parts of an operation are neither schemas nor properties. -/
theorem part_of_operation (operation : k.tag = .operation)
    (admits : k.admits k' = true) : k'.isSchema = false ∧ k'.isProperty = false := by
  cases k <;> cases operation
  cases k' <;> first | exact ⟨rfl, rfl⟩ | cases admits

end Kind

namespace Node

/-- The node as it was when it had only so many children. -/
def upTo (n : Node) (place : Nat) : Node := { n with children := n.children.take place }

/-- The node was made as the seed says, or closes a cycle in its place. -/
structure StemsFrom (n : Node) (s : Seed) : Prop where
  name : n.name = s.name
  scope : n.scope = s.scope
  schema : n.schema = s.schema
  kind : s.kind.Turns n.kind ∧ n.discriminant = s.discriminant ∨
    n.kind.tag = .circular ∧ n.discriminant = s.id

variable {n n' : Node} {s : Seed}

/-- A node that is kept stems from the same seed. -/
theorem StemsFrom.keep (stems : n.StemsFrom s) (keeps : n.Keeps n') : n'.StemsFrom s where
  name := keeps.name.trans stems.name
  scope := keeps.scope.trans stems.scope
  schema := keeps.schema.trans stems.schema
  kind := by
    rcases stems.kind with ⟨turns, same⟩ | ⟨circular, same⟩
    · exact .inl ⟨turns.trans keeps.kind, keeps.discriminant.trans same⟩
    · exact .inr ⟨keeps.kind.tag.trans circular, keeps.discriminant.trans same⟩

/-- Unless it is a bare leaf, the node is of the kind of the seed. -/
theorem StemsFrom.eq_kind (stems : n.StemsFrom s) (open_ : ¬n.kind.IsBare) :
    n.kind = s.kind ∧ n.discriminant = s.discriminant := by
  rcases stems.kind with ⟨turns, same⟩ | ⟨circular, -⟩
  · refine ⟨?_, same⟩
    rcases turns with kind | ⟨_, _, _, _, kind⟩
    · exact kind
    · exact absurd (.inl (by rw [kind]; rfl)) open_
  · refine absurd (.inl ?_) open_
    cases kind : n.kind <;> rw [kind] at circular <;> first | rfl | cases circular

/-- A node that stems from the seed of a schema is one for a schema. -/
theorem StemsFrom.isSchema (stems : n.StemsFrom s) (schema : s.kind.isSchema = true) :
    n.kind.isSchema = true := by
  rcases stems.kind with ⟨turns, -⟩ | ⟨circular, -⟩
  · rwa [turns.eq_of_not_isProperty (Kind.not_isProperty_of_isSchema schema)]
  · cases kind : n.kind <;> rw [kind] at circular <;> first | rfl | cases circular

/-- Only an owner has properties at its places. -/
theorem isOwner_of_propAt? {place : Nat} {x : String × Json} (here : n.propAt? place = some x) :
    n.kind.isOwner = true := by
  unfold propAt? at here
  split at here
  · next kind => rw [kind]; rfl
  · next kind => rw [kind]; rfl
  · cases here

/-- The names of a child depend on its place, not on the children after it. -/
theorem Keeps.below_upTo (keeps : n.Keeps n') (le : place ≤ n.children.length) :
    ChildNames.below (n'.upTo place) = ChildNames.below (n.upTo place) := by
  have length : (n'.children.take place).length = (n.children.take place).length := by
    have more := keeps.children.length_le
    rw [List.length_take, List.length_take]
    omega
  rcases keeps.kind with kind | ⟨shape, required, kind, -, kind'⟩
  · simp only [ChildNames.below, upTo, kind, keeps.name, keeps.scope, length]
  · simp only [ChildNames.below, upTo, kind, kind', keeps.name, keeps.scope]

/-- The seed below a node hangs on the names below it. -/
theorem seedBelow?_congr (same : ChildNames.below n' = ChildNames.below n) (f : Json) :
    n'.seedBelow? f = n.seedBelow? f := by
  unfold seedBelow?
  rw [same]

/-- Up to all of its children a node is itself. -/
@[simp] theorem upTo_length (n : Node) : n.upTo n.children.length = n := by
  rw [upTo, List.take_length]

def scopeBelow (n : Node) (name : String) : String :=
  if n.isProperty then n.scope ++ "[]" else n.scope ++ "." ++ name

/-- A node that is kept has the same scope for its children. -/
theorem Keeps.scopeBelow (keeps : n.Keeps n') (name : String) :
    n'.scopeBelow name = n.scopeBelow name := by
  rw [Node.scopeBelow, Node.scopeBelow, isProperty, isProperty, keeps.kind.isProperty, keeps.scope]

end Node

namespace Graph

/-- What the child at a place below a node comes from. -/
inductive Derives (d : Document) (g : Graph) (p place c : Nat) : Prop
  /-- A parameter, the body or the response. -/
  | part (tag : (g.node p).kind.tag = .operation)
    (offered : d.Offers (g.node p) (g.node c).schema)
  /-- A node made from a fragment. -/
  | schema {f : Json} {s : Seed} (holds : g.Holds d p place f)
      (made : ((g.node p).upTo place).seedBelow? f = some s) (stems : (g.node c).StemsFrom s)
  /-- A property of an object, or the element of an array property. -/
  | prop {name : String} {schema fragment : Json} {required : Bool} {s : Seed}
      (here : (g.node p).propAt? place = some (name, schema)) (decides : d.Decides schema fragment)
      (kind : s.kind = .property (Build.propShapeOf (Shape.ofSchema fragment)) required)
      (named : s.name = name) (disc : s.discriminant = name) (from_ : s.schema = fragment)
      (scope : s.scope = (g.node p).scopeBelow name)
      (stems : (g.node c).StemsFrom s)
  /-- A leaf where nothing more is known. -/
  | closing (owner : (g.node p).kind.isArray = true ∨ (g.node p).kind.isCircular = true)
      (bare : (g.node c).kind.IsBare)

end Graph

/-- The node is an operation that was found in the description. -/
structure Document.Lists (d : Document) (n : Node) : Prop where
  tag : n.kind.tag = .operation
  schema : n.schema.Within d.root
  shared : ∀ j ∈ n.kind.shared, j.Within d.root

theorem Document.Lists.keep {n n' : Node} (lists : d.Lists n) (keeps : n.Keeps n') :
    d.Lists n' := by
  have same : n'.kind = n.kind := keeps.kind.eq_of_not_isProperty <| by
    rw [Kind.isProperty, lists.tag]
    rfl
  constructor
  · rw [same]
    exact lists.tag
  · rw [keeps.schema]
    exact lists.schema
  · rw [same]
    exact lists.shared

theorem Document.lists_operations {e : OperationEntry} (mem : e ∈ d.operations) :
    e.operation.Within d.root ∧ ∀ j ∈ e.shared, j.Within d.root := by
  obtain ⟨⟨path, item⟩, path, entry⟩ := List.mem_flatMap.mp mem
  obtain ⟨method, -, entry⟩ := List.mem_filterMap.mp entry
  have whole : item.Within d.root := Json.within_of_mem_objectAt path
  split at entry
  · next operation got =>
    split at entry <;> cases entry
    exact ⟨(Json.within_of_get? got).trans whole, fun j mem =>
      (Json.within_of_mem_listAt mem).trans whole⟩
  · cases entry

namespace Graph

/-- Every child comes from what its parent holds, and no node but an operation is without one. -/
structure Derived (d : Document) (g : Graph) : Prop where
  child : ∀ {p place c}, (g.node p).children[place]? = some c → g.Derives d p place c
  root : ∀ {i}, i < g.size → (g.node i).parent = none → d.Lists (g.node i)

theorem Extends.getElem?_children (step : g.Extends h)
    (child : (g.node p).children[place]? = some c) : (h.node p).children[place]? = some c := by
  have lt := lt_size_of_child (List.mem_of_getElem? child)
  obtain ⟨more, grown⟩ := (step.keeps lt).children
  rw [← grown, List.getElem?_append_left (List.getElem?_eq_some_iff.mp child).1, child]

theorem Holds.extend {f : Json} (holds : g.Holds d p place f) (step : g.Extends h)
    (lt : p < g.size) : h.Holds d p place f := by
  cases holds with
  | own here => exact .own (((step.keeps lt).fragmentAt? d place).trans here)
  | wrapped child here =>
    have above := lt_size_of_child (List.mem_of_getElem? child)
    exact .wrapped (step.getElem?_children child) (((step.keeps above).propAt? _).trans here)

theorem Derives.extend (derives : g.Derives d p place c) (step : g.Extends h)
    (child : (g.node p).children[place]? = some c) (lt : c < g.size) : h.Derives d p place c := by
  have inside := lt_size_of_child (List.mem_of_getElem? child)
  have keeps := step.keeps inside
  cases derives with
  | part tag offered =>
    refine .part (keeps.kind.tag.trans tag) ?_
    rw [(step.keeps lt).schema]
    exact offered.keep keeps
  | schema holds made stems =>
    have le := Nat.le_of_lt (List.getElem?_eq_some_iff.mp child).1
    refine .schema (holds.extend step inside) ?_ (stems.keep (step.keeps lt))
    rwa [Node.seedBelow?_congr (keeps.below_upTo le)]
  | prop here decides kind named disc from_ scope stems =>
    exact .prop ((keeps.propAt? place).trans here) decides kind named disc from_
      (scope.trans (keeps.scopeBelow _).symm) (stems.keep (step.keeps lt))
  | closing owner bare =>
    refine .closing (owner.imp (fun array => ?_) keeps.kind.isCircular)
      (bare.turn (step.keeps lt).kind)
    rwa [keeps.kind.isArray]

/-- A node stems from the seed that it was attached with. -/
theorem stemsFrom_sprout {s s' : Seed} (name : s.name = s'.name) (scope : s.scope = s'.scope)
    (schema : s.schema = s'.schema)
    (kind : s'.kind.Turns s.kind ∧ s.discriminant = s'.discriminant ∨
      s.kind.tag = .circular ∧ s.discriminant = s'.id) :
    (g.sprout (some p) s).StemsFrom s' :=
  ⟨name, scope, schema, kind⟩

/-- A node made from a seed that was checked stems from that seed. -/
theorem checked_stems (s : Seed) : (g.sprout (some p) (g.checked p s)).StemsFrom s := by
  unfold checked
  split
  · exact stemsFrom_sprout rfl rfl rfl (.inr ⟨rfl, rfl⟩)
  · exact stemsFrom_sprout rfl rfl rfl (.inl ⟨.refl _, rfl⟩)

/-- A sprout is derived at the next free place of its parent. -/
theorem Sprouts.derives {s : Seed} (sprouts : g.Sprouts d p s) (lt : p < g.size) :
    (g.attach p s).Derives d p (g.node p).children.length g.size := by
  have step : g.Extends (g.attach p s) := .attach
  have keeps := step.keeps lt
  have new := node_attach_size (s := s) lt
  cases sprouts with
  | part tag _ offered =>
    refine .part (keeps.kind.tag.trans tag) ?_
    rw [new]
    exact offered.keep keeps
  | schema holds made =>
    refine .schema (holds.extend step lt) ?_ (new ▸ checked_stems _)
    rw [Node.seedBelow?_congr (keeps.below_upTo (Nat.le_refl _)), Node.upTo_length, made]
  | prop here decides =>
    exact .prop ((keeps.propAt? _).trans here) decides rfl rfl rfl rfl (keeps.scopeBelow _).symm
      (new ▸ stemsFrom_sprout rfl rfl rfl (.inl ⟨.refl _, rfl⟩))
  | closing owner bare =>
    refine .closing (owner.imp (fun array => ?_) keeps.kind.isCircular) ?_
    · rwa [keeps.kind.isArray]
    · rw [new]
      exact bare

theorem Move.extends (step : Move d g h) : g.Extends h := by
  cases step with
  | attach => exact .attach
  | visit => exact .modify { Node.Keeps.refl _ with visited := fun _ => rfl }
  | @turn _ shape required kind wraps =>
    exact .modify { Node.Keeps.refl _ with kind := .inr ⟨shape, required, kind, wraps, rfl⟩ }
  | field => exact .modify { Node.Keeps.refl _ with }
  | consolidate => exact .modify { Node.Keeps.refl _ with consolidated := fun _ => rfl }
  | merge => exact .modify { Node.Keeps.refl _ with }

theorem Moves.extends (steps : Moves d g h) : g.Extends h := by
  induction steps with
  | refl => exact .refl g
  | tail _ step ih => exact ih.trans step.extends

/-- A move adds a child by attaching it, or none. -/
theorem Move.child (step : Move d g h) (child : (h.node p).children[place]? = some c) :
    (g.node p).children[place]? = some c ∨
      ∃ s, h = g.attach p s ∧ g.Sprouts d p s ∧ p < g.size ∧
        place = (g.node p).children.length ∧ c = g.size := by
  cases step with
  | @attach q s inside _ _ _ sprouts =>
    rw [children_attach inside] at child
    split at child
    · next same =>
      subst same
      rw [List.getElem?_append] at child
      split at child
      · exact .inl child
      · next beyond =>
        rw [List.getElem?_singleton] at child
        split at child
        · cases child
          exact .inr ⟨s, rfl, sprouts, inside, by omega, rfl⟩
        · cases child
    · exact .inl child
  | visit | turn | field | consolidate | merge =>
    left
    rwa [part_modify Node.children (fun _ => by rfl)] at child

theorem Move.root (step : Move d g h) {i : Nat} (lt : i < h.size)
    (parent : (h.node i).parent = none) : i < g.size := by
  cases step with
  | @attach q s inside =>
    rw [parent_attach] at parent
    split at parent
    · cases parent
    · next old =>
      rw [size_attach] at lt
      omega
  | visit | turn | field | consolidate | merge =>
    rwa [size_modify] at lt

/-- A step may add one node that the node above it offers, and no root. -/
theorem Derived.grow (derived : g.Derived d) (forest : g.Forest) (extends_ : g.Extends h)
    (child : ∀ {p place c}, (h.node p).children[place]? = some c →
      (g.node p).children[place]? = some c ∨
        ∃ s, h = g.attach p s ∧ g.Sprouts d p s ∧ p < g.size ∧
          place = (g.node p).children.length ∧ c = g.size)
    (root : ∀ {i}, i < h.size → (h.node i).parent = none → i < g.size) : h.Derived d := by
  constructor
  · intro p place c here
    rcases child here with old | ⟨s, rfl, sprouts, lt, rfl, rfl⟩
    · exact (derived.child old).extend extends_ old (forest.below (List.mem_of_getElem? old)).2
    · exact sprouts.derives lt
  · intro i lt parent
    have old := root lt parent
    have keeps := extends_.keeps old
    exact (derived.root old (keeps.parent.symm.trans parent)).keep keeps

theorem Derived.move (derived : g.Derived d) (forest : g.Forest) (step : Move d g h) :
    h.Derived d := derived.grow forest step.extends step.child step.root

/-- What moves make is derived from the document. -/
theorem Derived.moves (derived : g.Derived d) (forest : g.Forest) (steps : Moves d g h) :
    h.Derived d := by
  induction steps with
  | refl => exact derived
  | tail before step ih => exact ih.move (forest.moves before) step

/-- Operations are derived from the document they are listed in. -/
theorem Derived.addOperations (derived : g.Derived d) (childless : ∀ i, (g.node i).children = [])
    (taken : List String) {entries : List OperationEntry}
    (found : ∀ e ∈ entries, e.operation.Within d.root ∧ ∀ j ∈ e.shared, j.Within d.root) :
    (g.addOperations taken entries).Derived d := by
  induction entries generalizing g taken with
  | nil => exact derived
  | cons e rest ih =>
    have bare : ∀ s i, ((g.addRoot s).node i).children = [] := by
      intro s i
      rw [part_addRoot Node.children rfl]
      exact childless i
    refine ih ⟨fun child => ?_, fun lt parent => ?_⟩ (bare _) _ fun e mem => found e (.tail _ mem)
    · rw [bare] at child
      cases child
    · rw [node_addRoot] at parent ⊢
      rw [size_addRoot] at lt
      split at parent
      · rw [if_pos ‹_›]
        obtain ⟨operation, shared⟩ := found e (.head _)
        exact ⟨rfl, operation, shared⟩
      · rw [if_neg ‹_›]
        exact derived.root (by omega) parent

/-- At first there are operations only. -/
theorem ofDocument_derived (d : Document) : (ofDocument d).Derived d := by
  refine Derived.addOperations ⟨fun child => ?_, fun lt => ?_⟩ (fun _ => rfl) _
    fun _ => Document.lists_operations
  · rw [node_of_size_le (Nat.zero_le _)] at child
    cases child
  · cases lt

/-! ## Children -/

/-- A child is derived at the place where it is listed. -/
theorem Derived.child_of_mem (derived : g.Derived d) (mem : c ∈ (g.node p).children) :
    g.Derives d p ((g.node p).children.idxOf c) c :=
  derived.child (List.getElem?_idxOf mem)

/-- A schema node was made from what the node above it holds for it. -/
theorem Derived.seed_of_isSchema {i : Nat} (derived : g.Derived d) (forest : g.Forest)
    (inside : i < g.size)
    (schema : (g.node i).kind.isSchema = true) (open_ : ¬(g.node i).kind.IsBare) :
    ∃ p f s, ((g.node p).upTo ((g.node p).children.idxOf i)).seedBelow? f = some s ∧
      (g.node i).StemsFrom s := by
  cases parent : (g.node i).parent with
  | none =>
    have tag := (derived.root inside parent).tag
    cases kind : (g.node i).kind <;> rw [kind] at tag schema <;> cases tag
    cases schema
  | some p =>
    have child := forest.child parent
    cases derived.child_of_mem child with
    | part tag =>
      rw [(Kind.part_of_operation tag (forest.admits child)).1] at schema
      cases schema
    | schema _ seed stems => exact ⟨p, _, _, seed, stems⟩
    | prop _ _ made _ _ _ _ stems =>
      rw [(stems.eq_kind open_).1, made] at schema
      cases schema
    | closing _ bare => exact absurd bare open_

/-- A property was made from what the fragment of the node above it declares, with its references
followed. -/
theorem Derived.declared_of_isProperty {i : Nat} (derived : g.Derived d) (forest : g.Forest)
    (inside : i < g.size) (prop : (g.node i).kind.isProperty = true)
    (open_ : ¬(g.node i).kind.IsBare) : ∃ p name x required, (g.node i).parent = some p ∧
      (g.node p).propAt? ((g.node p).children.idxOf i) = some (name, x) ∧
      d.Decides x (g.node i).schema ∧
      (g.node i).kind = .property (Build.propShapeOf (Shape.ofSchema (g.node i).schema))
        required := by
  cases parent : (g.node i).parent with
  | none =>
    have tag := (derived.root inside parent).tag
    cases kind : (g.node i).kind <;> rw [kind] at tag prop <;> cases tag
    cases prop
  | some p =>
    have child := forest.child parent
    cases derived.child_of_mem child with
    | part tag =>
      rw [(Kind.part_of_operation tag (forest.admits child)).2] at prop
      cases prop
    | schema _ seed stems =>
      have schema := stems.isSchema (Node.seedBelow?_isSchema seed)
      rw [Kind.not_isProperty_of_isSchema schema] at prop
      cases prop
    | prop here decides made _ _ from_ _ stems =>
      have same := stems.schema.trans from_
      exact ⟨p, _, _, _, rfl, here, same ▸ decides, same ▸ (stems.eq_kind open_).1.trans made⟩
    | closing _ bare => exact absurd bare open_

/-- Below a bare leaf there are bare leaves only. -/
theorem Forest.open_of_child (forest : g.Forest) (child : c ∈ (g.node p).children)
    (open_ : ¬(g.node c).kind.IsBare) : ¬(g.node p).kind.IsBare := by
  intro bare
  have admits := forest.admits child
  rcases bare with circular | ⟨type, kind⟩ | ⟨type, required, kind⟩
  · cases kind : (g.node p).kind <;> rw [kind] at admits circular <;> try cases circular
    · cases admits
    · next shape required =>
      cases shape <;> try cases circular
      apply open_
      left
      have tag : (g.node c).kind.tag = .circular := beq_iff_eq.mp admits
      cases kind : (g.node c).kind <;> rw [kind] at tag <;> first | rfl | cases tag
  · rw [kind] at admits
    cases admits
  · rw [kind] at admits
    cases admits

end Graph

end RestGraph
