import RestGraph.Proofs.Graph.Origins

/-!
# Trails

The trail of a node leads to it from the nearest component above, or else from the part of the
operation that it belongs to. Each mark on it has the place of a child and the text that the child
adds to the scope. The whole trail decides what a node was made from; its text alone is the id.
-/

namespace RestGraph

inductive Trail.Start where
  | component (pointer : String)
  | part (node : Nat)
deriving DecidableEq

/-- One step on a trail, from a node to a child. -/
inductive Trail.Mark where
  | field (place : Nat) (name : String)
  | branch (place : Nat)
  /-- The element of an array schema. -/
  | item
  /-- The element of an array property. -/
  | element
  /-- The schema of a part, or the one that a property wraps. -/
  | value
deriving DecidableEq

structure Trail where
  start : Trail.Start
  marks : List Trail.Mark
deriving DecidableEq

namespace Trail

def Mark.text : Mark → String
  | field _ name => "." ++ name
  | branch place => "#" ++ toString place
  | item | element => "[]"
  | value => ""

def add (t : Trail) (m : Mark) : Trail := { t with marks := t.marks ++ [m] }

/-- The text of a trail, which is the scope of the node that it leads to. -/
def text (g : Graph) (t : Trail) : String :=
  let front := match t.start with
    | .component pointer => componentName pointer
    | .part node => (g.node node).scope
  front ++ String.join (t.marks.map Mark.text)

/-- What tells the schema at the end of the trail from others of its kind. -/
def discriminant (g : Graph) (t : Trail) : String :=
  match t.start, t.marks with
  | .component pointer, [] => componentName pointer
  | _, _ => "[" ++ t.text g ++ "]"

/-- One mark more is spelt at the end. -/
@[simp]
theorem text_add (g : Graph) (t : Trail) (m : Mark) : (t.add m).text g = t.text g ++ m.text := by
  simp [text, add, String.append_assoc, String.join_append]

@[simp] theorem discriminant_add (g : Graph) (t : Trail) (m : Mark) :
    (t.add m).discriminant g = "[" ++ (t.add m).text g ++ "]" := by
  unfold discriminant
  split
  · next none =>
    simp [add] at none
  · rfl

theorem add_ne_nil (t : Trail) (m : Mark) : (t.add m).marks ≠ [] := by
  simp [add]

end Trail

namespace Kind

/-- Whether schemas of the kind are told apart by their ids. -/
def isKeyed : Kind → Bool
  | .object _ | .composed | .union | .enum _ => true
  | _ => false

theorem not_isBare_of_isKeyed {k : Kind} (keyed : k.isKeyed = true) : ¬k.IsBare := by
  rintro (circular | ⟨type, rfl⟩ | ⟨type, required, rfl⟩)
  · cases k <;> first | exact Bool.noConfusion circular | exact Bool.noConfusion keyed
  · cases keyed
  · cases keyed

/-- The parts of an operation are no schemas. -/
theorem not_isKeyed_of_admits {k c : Kind} (operation : k.tag = .operation)
    (admits : k.admits c = true) : c.isKeyed = false := by
  cases k <;> try cases operation
  cases c <;> first | rfl | cases admits

end Kind

namespace Graph

def markOf (g : Graph) (p i : Nat) : Trail.Mark :=
  match (g.node p).kind with
  | .object _ => .field ((g.node p).children.idxOf i) (g.node i).name
  | .composed | .union => .branch ((g.node p).children.idxOf i)
  | .array => .item
  | .property .array _ => .element
  | _ => .value

def trail (g : Graph) (i : Nat) : Trail :=
  match (g.node i).parent with
  | none => ⟨.part i, []⟩
  | some p =>
    if p < i then
      match (g.node p).kind with
      | .reference pointer => ⟨.component pointer, []⟩
      | .operation .. => ⟨.part i, []⟩
      | _ => (g.trail p).add (g.markOf p i)
    else ⟨.part i, []⟩
termination_by i

variable {d : Document} {g : Graph} {a b c i p q : Nat}

@[simp] theorem trail_of_root (parent : (g.node i).parent = none) : g.trail i = ⟨.part i, []⟩ := by
  rw [trail, parent]

/-- The node above decides how a trail goes on. -/
inductive TrailBelow (g : Graph) (p i : Nat) : Prop
  | component {pointer : String} (kind : (g.node p).kind = .reference pointer)
      (trail : g.trail i = ⟨.component pointer, []⟩)
  | part (tag : (g.node p).kind.tag = .operation) (trail : g.trail i = ⟨.part i, []⟩)
  | on (open_ : (g.node p).kind.tag ≠ .operation)
      (plain : ∀ pointer, (g.node p).kind ≠ .reference pointer)
      (trail : g.trail i = (g.trail p).add (g.markOf p i))

/-- The trail of a child goes on from that of its parent, or starts anew. -/
theorem Forest.trail_of_child (forest : g.Forest) (child : i ∈ (g.node p).children) :
    g.TrailBelow p i := by
  have lt := (forest.below child).1
  have trail : g.trail i = match (g.node p).kind with
      | .reference pointer => ⟨.component pointer, []⟩
      | .operation .. => ⟨.part i, []⟩
      | _ => (g.trail p).add (g.markOf p i) := by
    rw [Graph.trail, forest.parent child]
    exact if_pos lt
  cases kind : (g.node p).kind with
  | reference pointer =>
    rw [kind] at trail
    exact .component kind trail
  | operation =>
    rw [kind] at trail
    exact .part (by rw [kind]; rfl) trail
  | _ =>
    rw [kind] at trail
    refine .on ?_ ?_ trail
    · rw [kind]
      exact Tag.noConfusion
    · intro pointer
      rw [kind]
      exact Kind.noConfusion

/-! ## Scopes and ids -/

/-- The names of a schema below a node that is neither an operation nor a reference. -/
theorem Forest.names_below (forest : g.Forest) (child : i ∈ (g.node p).children)
    (schema : (g.node i).kind.isSchema = true)
    (plain : ∀ pointer, (g.node p).kind ≠ .reference pointer) :
    ∃ name, ChildNames.below ((g.node p).upTo ((g.node p).children.idxOf i)) =
      .anonymous name ((g.node p).scope ++ (g.markOf p i).text) := by
  have owner := Kind.not_isOwner_of_admits (forest.admits child) schema
  have place := List.idxOf_lt_length_of_mem child
  have count : ((g.node p).children.take ((g.node p).children.idxOf i)).length =
      (g.node p).children.idxOf i := by
    rw [List.length_take]
    omega
  cases kind : (g.node p).kind with
  | reference pointer => exact absurd kind (plain pointer)
  | response | body =>
    refine ⟨(g.node p).scope, ?_⟩
    simp [ChildNames.below, Node.upTo, markOf, kind, Trail.Mark.text]
  | composed | union =>
    refine ⟨(g.node p).name, ?_⟩
    simp [ChildNames.below, Node.upTo, markOf, kind, Trail.Mark.text, count, String.append_assoc]
  | object =>
    rw [kind] at owner
    cases owner
  | property shape =>
    refine ⟨(g.node p).name, ?_⟩
    cases shape with
    | array =>
      rw [kind] at owner
      cases owner
    | _ => simp [ChildNames.below, Node.upTo, markOf, kind, Trail.Mark.text]
  | _ =>
    refine ⟨(g.node p).name, ?_⟩
    simp [ChildNames.below, Node.upTo, markOf, kind, Trail.Mark.text]

/-- The mark of a property adds its name to the scope, or brackets where it is an element. -/
theorem scopeBelow_eq {name : String} (owner : (g.node p).kind.isOwner = true)
    (named : (g.node i).name = name) :
    (g.node p).scopeBelow name = (g.node p).scope ++ (g.markOf p i).text := by
  subst named
  cases kind : (g.node p).kind <;> rw [kind] at owner <;> try cases owner
  · simp [Node.scopeBelow, Node.isProperty, markOf, kind, Kind.isProperty, Kind.tag,
      Trail.Mark.text, String.append_assoc]
  · next shape required =>
    cases shape <;> try cases owner
    simp [Node.scopeBelow, Node.isProperty, markOf, kind, Kind.isProperty, Kind.tag,
      Trail.Mark.text]

/-- Any node but a bare leaf has the text of its trail for a scope. -/
theorem Derived.scope_eq_text (derived : g.Derived d) (forest : g.Forest)
    (open_ : ¬(g.node i).kind.IsBare) : (g.node i).scope = (g.trail i).text g := by
  induction i using Nat.strongRecOn with
  | ind i ih =>
    cases parent : (g.node i).parent with
    | none =>
      rw [trail_of_root parent]
      simp [Trail.text]
    | some p =>
      have child := forest.child parent
      have origin := derived.child_of_mem child
      cases forest.trail_of_child child with
      | part tag trail =>
        rw [trail]
        simp [Trail.text]
      | component kind trail =>
        cases origin with
        | part tag =>
          rw [kind] at tag
          cases tag
        | schema holds made stems =>
          rw [stems.scope, (Node.seedBelow?_spec made).2.1, trail]
          simp [Trail.text, ChildNames.below, Node.upTo, kind]
        | prop here =>
          have owner := Node.isOwner_of_propAt? here
          rw [kind] at owner
          cases owner
        | closing _ bare => exact absurd bare open_
      | on notOperation plain trail =>
        rw [trail, Trail.text_add, ← ih p (forest.parent_lt parent)
          (forest.open_of_child child open_)]
        cases origin with
        | part tag => exact absurd tag notOperation
        | schema holds made stems =>
          have schema := stems.isSchema (Node.seedBelow?_isSchema made)
          obtain ⟨name, names⟩ := forest.names_below child schema plain
          rw [stems.scope, (Node.seedBelow?_spec made).2.1, names]
          rfl
        | prop here _ _ named _ _ scope stems =>
          rw [stems.scope, scope]
          exact scopeBelow_eq (Node.isOwner_of_propAt? here) (stems.name.trans named)
        | closing _ bare => exact absurd bare open_

/-- The trail of a keyed schema says what tells it from others of its kind. -/
theorem Derived.discriminant_eq (derived : g.Derived d) (forest : g.Forest)
    (keyed : (g.node i).kind.isKeyed = true) :
    (g.node i).discriminant = (g.trail i).discriminant g := by
  have open_ := Kind.not_isBare_of_isKeyed keyed
  have lt : i < g.size := lt_size_of_ne fun nowhere => by
    rw [nowhere] at keyed
    cases keyed
  cases parent : (g.node i).parent with
  | none =>
    have tag := (derived.root lt parent).tag
    cases kind : (g.node i).kind <;> rw [kind] at tag keyed <;>
      first | exact Bool.noConfusion keyed | exact Tag.noConfusion tag
  | some p =>
    have child := forest.child parent
    have below := forest.trail_of_child child
    cases derived.child_of_mem child with
    | part tag =>
      rw [Kind.not_isKeyed_of_admits tag (forest.admits child)] at keyed
      cases keyed
    | schema holds made stems =>
      obtain ⟨kind, same⟩ := stems.eq_kind open_
      obtain ⟨-, scope, ⟨pointer, -, kind', -⟩ | ⟨-, disc⟩⟩ := Node.seedBelow?_spec made
      · rw [kind, kind'] at keyed
        cases keyed
      · rw [same, disc]
        cases below with
        | part tag =>
          rw [Kind.not_isKeyed_of_admits tag (forest.admits child)] at keyed
          cases keyed
        | component kind trail =>
          rw [trail]
          simp [Trail.discriminant, ChildNames.below, Node.upTo, kind]
        | on notOperation plain trail =>
          have schema := stems.isSchema (Node.seedBelow?_isSchema made)
          obtain ⟨name, names⟩ := forest.names_below child schema plain
          rw [names, trail, Trail.discriminant_add, Trail.text_add,
            ← derived.scope_eq_text forest (forest.open_of_child child open_)]
          rfl
    | prop here _ kind _ _ _ _ stems =>
      rw [(stems.eq_kind open_).1, kind] at keyed
      cases keyed
    | closing _ bare => exact absurd bare open_

/-! ## Where trails start -/

/-- A trail that is that of a component leads right below a reference to it. -/
theorem Forest.reference_of_trail (forest : g.Forest) {pointer : String}
    (trail : g.trail i = ⟨.component pointer, []⟩) :
    ∃ p, i ∈ (g.node p).children ∧ (g.node p).kind = .reference pointer := by
  cases parent : (g.node i).parent with
  | none =>
    rw [trail_of_root parent] at trail
    cases trail
  | some p =>
    have child := forest.child parent
    cases forest.trail_of_child child with
    | @component pointer' kind trail' =>
      rw [trail] at trail'
      cases trail'
      exact ⟨p, child, kind⟩
    | part _ trail' =>
      rw [trail] at trail'
      cases trail'
    | on _ _ trail' =>
      rw [trail] at trail'
      exact absurd (congrArg Trail.marks trail').symm (Trail.add_ne_nil _ _)

end Graph

end RestGraph
