import RestGraph.Proofs.Graph.Grafting
import RestGraph.Proofs.Graph.Peeking

/-!
# Wrapping

A reference wraps what it names, and a property that is no scalar and no array wraps what its shape
was read off. Whatever the outcome of a step, the first child of a wrapper is of what it wraps, and
a property never stays without it; a reference that was visited has it whenever it leads to
something that a property wraps. Only a client adds to the children of a property.
-/

namespace RestGraph

variable {d : Document} {g h l : Graph} {busy busy' : Set Nat} {r s t : Run} {i o p q c : Nat}
  {x : Seed} {name : String} {schema fragment : Json} {required : Bool}

/-- What the references of the fragment lead to is something that a property wraps. -/
def Document.Lends (d : Document) (j : Json) : Prop :=
  ∃ k e, d.Follows k j e ∧ (Build.propShapeOf (Shape.ofSchema e)).isWrapper = true

namespace Graph

/-- The child is of what the node wraps. -/
inductive Wraps (d : Document) (g : Graph) (p c : Nat) : Prop
  | named {pointer : String} (kind : (g.node p).kind = .reference pointer)
      (found : d.lookup? pointer = some (g.node c).schema) (made : g.IsMade c)
  | shaped {shape : PropShape} {required : Bool} {k : Nat} {e : Json}
      (kind : (g.node p).kind = .property shape required)
      (follows : d.Follows k (g.node c).schema e)
      (same : Build.propShapeOf (Shape.ofSchema e) = shape) (made : g.IsMade c)
  | closing {required : Bool} (kind : (g.node p).kind = .property .circular required)
      (leaf : (g.node c).kind.tag = .circular)

/-- The first child of every wrapper is of what it wraps. -/
def Wrapping (d : Document) (g : Graph) : Prop :=
  ∀ p c, (g.node p).kind.isWrapper = true → (g.node p).children.head? = some c →
    c < g.size ∧ g.Wraps d p c

/-- What the node wraps has its place, if it is a wrapper. -/
def TakenAt (g : Graph) (p : Nat) : Prop :=
  (g.node p).kind.isWrapper = true → (g.node p).children ≠ []

/-- A reference has a child when there is something to lead to. -/
def LedAt (d : Document) (g : Graph) (i : Nat) : Prop :=
  ∀ pointer target, (g.node i).kind = .reference pointer → d.lookup? pointer = some target →
    d.Lends target → (g.node i).children ≠ []

/-- A property that wraps something has it. -/
def HousedAt (g : Graph) (q : Nat) : Prop := (g.node q).isProperty = true → g.TakenAt q

/-- The property has the children that its shape asks for, and no others. -/
def FittedAt (g : Graph) (q : Nat) : Prop :=
  ∀ shape required, (g.node q).kind = .property shape required → match shape with
    | .scalar .. => (g.node q).children = []
    | .array => ∃ c < g.size, (g.node q).children = [c] ∧ (g.node c).isProperty = true ∧
        (g.node c).name = (g.node q).name
    | .object | .composed | .enum | .circular => ∃ c < g.size, (g.node q).children = [c] ∧
        (g.node c).isProperty = false

/-- What is no wrapper has no place to be taken. -/
theorem takenAt_of_plain (plain : (g.node p).kind.isWrapper = false) : g.TakenAt p := by
  intro wrapper
  rw [plain] at wrapper
  cases wrapper

/-- What is no property fits. -/
theorem fittedAt_of_plain (plain : (g.node q).isProperty = false) : g.FittedAt q := by
  intro shape required kind
  rw [Node.isProperty, kind] at plain
  cases plain

/-- A property that fits has what it wraps. -/
theorem FittedAt.housedAt (fitted : g.FittedAt q) : g.HousedAt q := by
  intro prop wrapper
  obtain ⟨shape, required, kind⟩ := Kind.eq_property_of_isProperty prop
  rw [kind] at wrapper
  have fitted := fitted shape required kind
  cases shape with
  | scalar | array => cases wrapper
  | object | composed | enum | circular =>
    obtain ⟨c, -, children, -⟩ := fitted
    rw [children]
    exact List.cons_ne_nil _ _

/-! ## Growth -/

theorem IsMade.grow (made : g.IsMade i) (grown : g.Extends h) (inside : i < g.size) :
    h.IsMade i := by
  obtain ⟨n, s, seed, stems⟩ := made
  have keeps := grown.keeps inside
  exact ⟨n, s, keeps.schema ▸ seed, stems.keep keeps⟩

theorem Wraps.grow (wraps : g.Wraps d p c) (grown : g.Extends h)
    (kind : (h.node p).kind = (g.node p).kind) (inside : c < g.size) : h.Wraps d p c := by
  have keeps := grown.keeps inside
  cases wraps with
  | named here found made =>
    exact .named (kind.trans here) (keeps.schema ▸ found) (made.grow grown inside)
  | shaped here follows same made =>
    exact .shaped (kind.trans here) (keeps.schema ▸ follows) same (made.grow grown inside)
  | closing here leaf => exact .closing (kind.trans here) (keeps.kind.tag.trans leaf)

/-- Growth leaves no node without its children. -/
theorem ne_nil_of_grown (grown : g.Extends h) (inside : i < g.size)
    (some : (g.node i).children ≠ []) : (h.node i).children ≠ [] := fun none =>
  some (List.prefix_nil.mp (none ▸ (grown.keeps inside).children))

theorem LedAt.grow (led : g.LedAt d i) (grown : g.Extends h)
    (kind : (h.node i).kind = (g.node i).kind) (inside : i < g.size) : h.LedAt d i :=
  fun pointer target here found lends =>
    ne_nil_of_grown grown inside (led pointer target (kind ▸ here) found lends)

theorem HousedAt.grow (housed : g.HousedAt q) (grown : g.Extends h) (inside : q < g.size) :
    h.HousedAt q := by
  have keeps := grown.keeps inside
  rw [HousedAt, TakenAt, Node.isProperty, keeps.kind.isProperty, keeps.kind.isWrapper]
  exact fun prop wrapper => ne_nil_of_grown grown inside (housed prop wrapper)

/-- Growth keeps a property that is not busy fitted. -/
theorem FittedAt.grow (fitted : g.FittedAt q) (grown : g.Extends h) (inside : q < g.size)
    (kind : (h.node q).kind = (g.node q).kind)
    (children : (g.node q).isProperty = true → (h.node q).children = (g.node q).children) :
    h.FittedAt q := by
  intro shape required here
  rw [kind] at here
  have fitted := fitted shape required here
  have same := children (by rw [Node.isProperty, here]; rfl)
  have prop : ∀ {c}, c < g.size → (h.node c).isProperty = (g.node c).isProperty := fun lt =>
    (grown.keeps lt).kind.isProperty
  cases shape with
  | scalar => exact same.trans fitted
  | array =>
    obtain ⟨c, lt, only, isProperty, named⟩ := fitted
    refine ⟨c, lt.trans_le grown.size_le, same.trans only, (prop lt).trans isProperty, ?_⟩
    rw [(grown.keeps lt).name, (grown.keeps inside).name, named]
  | object | composed | enum | circular =>
    obtain ⟨c, lt, only, plain⟩ := fitted
    exact ⟨c, lt.trans_le grown.size_le, same.trans only, (prop lt).trans plain⟩

theorem Wrapping.modify {f : Node → Node} (keep : ∀ n : Node, n.Keeps (f n))
    (kind : ∀ n, (f n).kind = n.kind) (children : ∀ n, (f n).children = n.children)
    (wrapping : g.Wrapping d) : (g.modify i f).Wrapping d := by
  intro q c wrapper first
  have grown : g.Extends (g.modify i f) := .modify (keep _)
  have same := part_modify (g := g) (i := i) Node.kind kind q
  rw [same] at wrapper
  rw [part_modify Node.children children] at first
  obtain ⟨lt, wraps⟩ := wrapping q c wrapper first
  exact ⟨lt.trans_le grown.size_le, wraps.grow grown same lt⟩

/-- What a step does to wrappers. Only busy properties get children. -/
structure Weaves (d : Document) (busy : Set Nat) (g h : Graph) : Prop where
  grown : g.Extends h
  kinds : ∀ i < g.size, (h.node i).kind = (g.node i).kind
  kids : ∀ i < g.size, i ∉ busy → (g.node i).isProperty = true →
    (h.node i).children = (g.node i).children
  wraps : g.Wrapping d → h.Wrapping d
  led : ∀ i, h.IsDone i → g.IsDone i ∨ h.LedAt d i

namespace Weaves

theorem refl (g : Graph) : g.Weaves d busy g :=
  ⟨.refl g, fun _ _ => rfl, fun _ _ _ _ => rfl, id, fun _ => .inl⟩

/-- The second step works on what the first does, and on new nodes. -/
theorem trans (first : g.Weaves d busy h) (second : h.Weaves d busy' l)
    (sub : ∀ i < g.size, i ∈ busy' → i ∈ busy) : g.Weaves d busy l where
  grown := first.grown.trans second.grown
  kinds i lt := (second.kinds i (lt.trans_le first.grown.size_le)).trans (first.kinds i lt)
  kids i lt free prop := by
    have lt' := lt.trans_le first.grown.size_le
    have prop' : (h.node i).isProperty = true :=
      ((first.grown.keeps lt).kind.isProperty).trans prop
    exact (second.kids i lt' (free ∘ sub i lt) prop').trans (first.kids i lt free prop)
  wraps := second.wraps ∘ first.wraps
  led i done := (second.led i done).elim
    (fun before => (first.led i before).imp_right fun led =>
      led.grow second.grown (second.kinds i before.1) before.1) .inr

instance : IsPreorder Graph (Weaves d busy) where
  refl := refl
  trans _ _ _ first second := first.trans second fun _ _ mem => mem

/-- What weaves with nothing busy weaves with anything busy. -/
theorem idle (weaves : g.Weaves d ∅ h) : g.Weaves d busy h :=
  (refl g).trans weaves fun _ _ none => absurd none (Set.notMem_empty _)

/-- A node that is no property may get children at any time. -/
theorem plain (weaves : g.Weaves d {p} h) (plain : (g.node p).isProperty = false) :
    g.Weaves d ∅ h where
  __ := weaves
  kids i lt _ prop := weaves.kids i lt (fun same => by
    rw [Set.mem_singleton_iff.mp same, plain] at prop
    cases prop) prop

/-- A child may be woven in when it is what its parent wraps. -/
theorem attach (inside : p < g.size)
    (new : (g.node p).kind.isWrapper = true → (g.node p).children = [] →
      (g.attach p x).Wraps d p g.size) : g.Weaves d {p} (g.attach p x) where
  grown := .attach
  kinds _ lt := kind_attach_of_lt lt
  kids i lt free _ := by rw [node_attach_of_ne free (Nat.ne_of_lt lt)]
  wraps wrapping q c wrapper first := by
    have grown : g.Extends (g.attach p x) := .attach
    by_cases old : q < g.size
    · have kind : ((g.attach p x).node q).kind = (g.node q).kind :=
        kind_attach_of_lt old
      rw [kind] at wrapper
      have before : (g.node q).children.head? = some c →
          c < (g.attach p x).size ∧ (g.attach p x).Wraps d q c := fun here =>
        ⟨(wrapping q c wrapper here).1.trans_le grown.size_le,
          (wrapping q c wrapper here).2.grow grown kind (wrapping q c wrapper here).1⟩
      rw [children_attach inside] at first
      split at first
      · next same =>
        subst same
        cases children : (g.node q).children with
        | nil =>
          rw [children] at first
          cases first
          exact ⟨lt_size_attach, new wrapper children⟩
        | cons _ _ =>
          rw [children] at first before
          exact before first
      · exact before first
    · rw [children_attach inside, if_neg fun same : q = p => old (same ▸ inside),
        node_of_size_le (Nat.le_of_not_lt old)] at first
      cases first
  led i done := .inl (by
    refine (?_ : NoNew Node.visited g (g.attach p x)) done.1 done.2
    exact .attach (fun _ _ => rfl) rfl)

/-- Where it is no matter what the new child is. -/
theorem adopt (inside : p < g.size) (taken : g.TakenAt p) : g.Weaves d {p} (g.attach p x) :=
  .attach inside fun wrapper none => absurd none (taken wrapper)

theorem modify {f : Node → Node} (keep : ∀ n : Node, n.Keeps (f n))
    (kind : ∀ n, (f n).kind = n.kind)
    (children : ∀ n, (f n).children = n.children) (visited : ∀ n, (f n).visited = n.visited) :
    g.Weaves d ∅ (g.modify i f) where
  grown := .modify (keep _)
  kinds j _ := part_modify Node.kind kind j
  kids j _ _ _ := part_modify Node.children children j
  wraps wrapping := wrapping.modify keep kind children
  led j done := .inl ⟨size_modify ▸ done.1, (part_modify Node.visited visited j).symm.trans done.2⟩

/-- A property that was made on the way closes a cycle, as its child does. -/
theorem turn (weaves : g.Weaves d busy h) (new : g.size ≤ i) {shape : PropShape}
    (kind : (h.node i).kind = .property shape required) (wraps : shape.isWrapper = true)
    (closing : ∀ c, (h.node i).children.head? = some c → (h.node c).kind.tag = .circular) :
    g.Weaves d busy (h.modify i (Build.turned required)) := by
  have inside : i < h.size := lt_size_of_ne fun nowhere => by
    rw [nowhere] at kind
    cases kind
  have grown : h.Extends (h.modify i (Build.turned required)) :=
    .modify { Node.Keeps.refl (h.node i) with kind := .inr ⟨shape, required, kind, wraps, rfl⟩ }
  have children : ∀ j, ((h.modify i (Build.turned required)).node j).children =
      (h.node j).children :=
    part_modify Node.children fun _ => rfl
  refine ⟨weaves.grown.trans grown, fun j lt => ?_, fun j lt free prop => ?_,
    fun wrapping q c wrapper first => ?_, fun j done => ?_⟩
  · rw [node_modify_of_ne (Nat.ne_of_lt (lt.trans_le new))]
    exact weaves.kinds j lt
  · rw [children]
    exact weaves.kids j lt free prop
  · rw [children] at first
    by_cases same : q = i
    · subst same
      obtain ⟨lt, -⟩ := weaves.wraps wrapping q c (by rw [kind]; exact wraps) first
      have turned : ((h.modify q (Build.turned required)).node q).kind =
          .property .circular required := by
        rw [node_modify_self inside]
        rfl
      exact ⟨lt.trans_le grown.size_le,
        .closing turned ((grown.keeps lt).kind.tag.trans (closing c first))⟩
    · have stays : ((h.modify i (Build.turned required)).node q).kind = (h.node q).kind := by
        simp [same]
      rw [stays] at wrapper
      obtain ⟨lt, held⟩ := weaves.wraps wrapping q c wrapper first
      exact ⟨lt.trans_le grown.size_le, held.grow grown stays lt⟩
  · have visited : ((h.modify i (Build.turned required)).node j).visited = (h.node j).visited :=
      part_modify Node.visited (f := Build.turned required) (fun _ => rfl) j
    have before : h.IsDone j := ⟨size_modify ▸ done.1, visited ▸ done.2⟩
    refine (weaves.led j before).imp_right fun led => ?_
    intro pointer target here found lends
    have other : j ≠ i := fun same => by
      subst same
      rw [node_modify_self before.1] at here
      cases here
    rw [children]
    rw [node_modify_of_ne other] at here
    exact led pointer target here found lends

end Weaves

end Graph

namespace Build

variable {α β : Type}

/-- Whatever its outcome, the step has worked on wrappers as it should since the graph `g`; and
where it ends, all properties that were made since then have what they ask for. -/
structure Weaving (d : Document) (busy : Set Nat) (g : Graph) (m : Build α) (r : Run) : Prop where
  along : g.Weaves d busy (m.run r).2.graph
  housed : ∀ q, g.size ≤ q → q < (m.run r).2.graph.size → (m.run r).2.graph.HousedAt q
  fitted : ∀ {a s}, Ends m r a s → ∀ q, g.size ≤ q → q < s.graph.size → s.graph.FittedAt q

namespace Weaving

variable {m : Build α}

/-- A weaving that ends has woven. -/
theorem ends (weaving : Weaving d busy g m r) {a : α} (h : Ends m r a s) :
    g.Weaves d busy s.graph := by
  have run : m.run r = (.ok a, s) := h
  have along := weaving.along
  rwa [run] at along

/-- The step leaves the graph alone. -/
theorem of_same (same : (m.run r).2.graph = r.graph) : Weaving d busy r.graph m r where
  along := same ▸ .refl _
  housed q le lt := absurd lt (Nat.not_lt.mpr (same ▸ le))
  fitted {a s} h q le lt := by
    have run : m.run r = (.ok a, s) := h
    have size : s.graph.size = r.graph.size := by
      rw [run] at same
      exact congrArg Graph.size same
    omega

/-- What has woven and left every new node fitted is a weaving. -/
theorem of_ends {a : α} (h : Ends m r a s) (weaves : g.Weaves d busy s.graph)
    (fitted : ∀ q, g.size ≤ q → q < s.graph.size → s.graph.FittedAt q) :
    Weaving d busy g m r := by
  have run : m.run r = (.ok a, s) := h
  refine ⟨?_, ?_, fun h' => ?_⟩
  · rwa [run]
  · rw [run]
    exact fun q le lt => (fitted q le lt).housedAt
  · obtain ⟨-, rfl⟩ := h.unique h'
    exact fitted

/-- What is made first may be completed by what follows. -/
theorem after {f : α → Build β} {a : α} (h : Ends m r a s) (second : Weaving d busy g (f a) s) :
    Weaving d busy g (m >>= f) r := by
  have run : (m >>= f).run r = (f a).run s := Ends.run_bind_of_ends h
  refine ⟨?_, fun q le lt => ?_, fun h' q le lt => ?_⟩
  · rw [run]
    exact second.along
  · rw [run] at lt ⊢
    exact second.housed q le lt
  · exact second.fitted (run.symm.trans h') q le lt

/-- What was made stays as it should while the second step works on nothing of it. -/
theorem bind {f : α → Build β} (first : Weaving d busy g m r)
    (second : ∀ {a u}, Ends m r a u → g.Weaves d busy u.graph → Weaving d ∅ u.graph (f a) u) :
    Weaving d busy g (m >>= f) r := by
  rcases run : m.run r with ⟨e | a, u⟩
  · have bound : (m >>= f).run r = (.error e, u) := by rw [Ends.run_bind, run]
    have along := first.along
    have housed := first.housed
    rw [run] at along housed
    refine ⟨bound ▸ along, bound ▸ housed, fun {b s} h => ?_⟩
    have ends : (m >>= f).run r = (.ok b, s) := h
    cases bound.symm.trans ends
  · have here : Ends m r a u := run
    have next := second here (first.ends here)
    have old : ∀ q, q < u.graph.size → g.size ≤ q → u.graph.FittedAt q :=
      fun q lt le => first.fitted here q le lt
    refine .after here ⟨?_, fun q le lt => ?_, fun {b s} h q le lt => ?_⟩
    · exact (first.ends here).trans next.along fun _ _ none => absurd none (Set.notMem_empty _)
    · rcases lt_or_ge q u.graph.size with before | after
      · exact (old q before le).housedAt.grow next.along.grown before
      · exact next.housed q after lt
    · rcases lt_or_ge q u.graph.size with before | after
      · have weaves := next.ends h
        exact (old q before le).grow weaves.grown before (weaves.kinds q before)
          (weaves.kids q before (Set.notMem_empty _))
      · exact next.fitted h q after lt

theorem pure (a : α) : Weaving d busy r.graph (pure a : Build α) r := .of_same rfl

theorem throw (e : Fault) : Weaving d busy r.graph (throw e : Build α) r := .of_same rfl

theorem modify {f : Run → Run} (same : (f r).graph = r.graph) :
    Weaving d busy r.graph (modify f : Build PUnit) r := .of_same same

/-- A step that leaves the run alone, to whatever outcome it comes. -/
theorem look {f : α → Build β} (same : Along Eq m r)
    (second : ∀ {a}, Ends m r a r → Weaving d busy r.graph (f a) r) :
    Weaving d busy r.graph (m >>= f) r := by
  rcases run : m.run r with ⟨e | a, u⟩
  · obtain rfl := same.fails run
    exact .of_same (by rw [Ends.run_bind, run])
  · obtain rfl := same.ends run
    exact .after run (second run)

theorem discard (weaving : Weaving d busy g m r) : Weaving d busy g (discard m) r := by
  change Weaving d busy g ((fun _ => PUnit.unit) <$> m) r
  rw [← bind_pure_comp]
  exact weaving.bind fun _ _ => .pure _

/-- Nothing needs to be busy where no property is. -/
theorem plain (weaving : Weaving d {p} g m r) (plain : (g.node p).isProperty = false) :
    Weaving d ∅ g m r := ⟨weaving.along.plain plain, weaving.housed, weaving.fitted⟩

/-- A loop weaves when every round does. -/
theorem forM {f : α → Build PUnit} {xs : List α}
    (round : ∀ {x t}, x ∈ xs → r.graph.Weaves d ∅ t.graph → Weaving d ∅ t.graph (f x) t) :
    Weaving d ∅ r.graph (xs.forM f) r := by
  induction xs generalizing r with
  | nil =>
    rw [List.forM_eq_forM, List.forM_nil]
    exact .pure _
  | cons x xs ih =>
    rw [List.forM_eq_forM, List.forM_cons]
    refine (round List.mem_cons_self (.refl _)).bind fun _ weaves => ih fun mem later => ?_
    exact round (List.mem_cons_of_mem x mem) (weaves.trans later fun _ _ => id)

end Weaving

/-! ## Nodes from fragments -/

/-- Reading a node weaves nothing. -/
theorem weaving_node {f : Node → Build β} (second : Weaving d busy g (f (r.graph.node i)) r) :
    Weaving d busy g (node i >>= f) r := .after (ends_node.mpr ⟨rfl, rfl⟩) second

/-- A node that is no property is attached. -/
theorem weaving_attached {a : Nat} {m : Build Nat} (h : Ends m r a s) (inside : p < r.graph.size)
    (graph : s.graph = r.graph.attach p x) (plain : x.kind.isProperty = false)
    (new : (r.graph.node p).kind.isWrapper = true → (r.graph.node p).children = [] →
      (r.graph.attach p x).Wraps d p r.graph.size) : Weaving d {p} r.graph m r := by
  refine .of_ends h (graph ▸ .attach inside new) fun q le lt => ?_
  rw [graph, Graph.size_attach] at lt
  obtain rfl := Nat.le_antisymm (Nat.lt_succ_iff.mp lt) le
  refine Graph.fittedAt_of_plain ?_
  simp [graph, Node.isProperty, inside, plain]

/-- The fragment is of what the node wraps, if it is a wrapper without a child. -/
def Suits (d : Document) (g : Graph) (p : Nat) (schema : Json) : Prop :=
  (g.node p).kind.isWrapper = true → (g.node p).children = [] →
    (∃ pointer, (g.node p).kind = .reference pointer ∧ d.lookup? pointer = some schema) ∨
    ∃ shape required k e, (g.node p).kind = .property shape required ∧ d.Follows k schema e ∧
      propShapeOf (Shape.ofSchema e) = shape

/-- Every schema suits a node whose place is taken. -/
theorem suits_of_taken (taken : g.TakenAt p) : Suits d g p schema := fun wrapper none =>
  absurd none (taken wrapper)

/-- A schema that suits a wrapper makes the child it wraps. -/
theorem Suits.wraps (suits : Suits d g p schema) (inside : p < g.size)
    (made : (g.node p).seedBelow? schema = some x) (wrapper : (g.node p).kind.isWrapper = true)
    (childless : (g.node p).children = []) : (g.attach p (g.checked p x)).Wraps d p g.size := by
  have new := Graph.node_attach_size (s := g.checked p x) inside
  have stems := Graph.checked_stems (g := g) (p := p) x
  have same : ((g.attach p (g.checked p x)).node g.size).schema = schema := by
    rw [new]
    exact Graph.checked_schema.trans (Node.seedBelow?_spec made).1
  have isMade : (g.attach p (g.checked p x)).IsMade g.size := ⟨_, x, same ▸ made, new ▸ stems⟩
  have kind := Graph.kind_attach_of_lt (s := g.checked p x) (p := p)
    inside
  rcases suits wrapper childless with ⟨pointer, here, found⟩ | ⟨shape, required, k, e, here,
    follows, shaped⟩
  · exact .named (kind.trans here) (same ▸ found) isMade
  · exact .shaped (kind.trans here) (same ▸ follows) shaped isMade

/-- Checking a seed for a schema makes no property of it. -/
theorem checked_plain (made : (g.node p).seedBelow? schema = some x) :
    (g.checked p x).kind.isProperty = false :=
  Kind.not_isProperty_of_isSchema (Graph.checked_isSchema (Node.seedBelow?_isSchema made))

theorem attachChecked_weaving (inside : p < r.graph.size)
    (made : (r.graph.node p).seedBelow? schema = some x) (suits : Suits d r.graph p schema) :
    Weaving d {p} r.graph (attachChecked p x) r := by
  obtain ⟨s, h⟩ := attachChecked_ends r p x
  exact weaving_attached h inside (ends_attachChecked h).2.1 (checked_plain made)
    (suits.wraps inside made)

theorem attachPlaceholder_weaving (inside : p < r.graph.size)
    (array : (r.graph.node p).kind = .array) : Weaving d ∅ r.graph (attachPlaceholder p) r := by
  have plain : (r.graph.node p).isProperty = false := by rw [Node.isProperty, array]; rfl
  obtain ⟨s, warned, graph, -⟩ := warnMissingItems_ends r p
  rw [← graph] at inside array plain ⊢
  refine .after warned <| weaving_node <|
    .plain (weaving_attached (ends_attach.mpr ⟨rfl, rfl⟩) inside rfl rfl fun wrapper => ?_) plain
  rw [array] at wrapper
  cases wrapper

theorem settle_weaving {element : Nat → Json → Build Nat} (inside : i < r.graph.size)
    (each : ∀ {items s}, s.graph = r.graph → (r.graph.node i).kind = .array →
      Weaving d ∅ s.graph (element i items) s) :
      Weaving d ∅ r.graph (settle element p i schema) r := by
  have fills : ∀ {s : Run}, s.graph = r.graph →
      Weaving d ∅ s.graph (fillArray element i schema (r.graph.node i).kind) s := by
    intro s graph
    unfold fillArray
    split
    · next array =>
      split
      · exact (each graph array).discard
      · exact (attachPlaceholder_weaving (graph ▸ inside) (graph ▸ array)).discard
    · exact .pure _
  unfold settle
  refine weaving_node (weaving_node ?_)
  dsimp only
  split
  · exact fills rfl
  · refine .bind (.modify rfl) fun h _ => fills ?_
    rw [← Ends.modify_iff.mp h]
    rfl
  · exact fills rfl

theorem fromSchemaWithin_weaving {depth : Nat} (inside : p < r.graph.size)
    (suits : Suits d r.graph p schema) :
    Weaving d {p} r.graph (fromSchemaWithin depth p schema) r := by
  induction depth generalizing p schema r with
  | zero => exact .throw _
  | succ depth ih =>
    rw [fromSchemaWithin]
    refine weaving_node ?_
    split
    · next pointer shape =>
      exact attachChecked_weaving inside (by rw [Node.seedBelow?, shape]) suits
    · next notRef =>
      split
      · exact .after (ends_pathOf.mpr ⟨rfl, rfl⟩) (.throw _)
      · next kind made =>
        have seed := Node.seedBelow?_of_kind (n := r.graph.node p) notRef made
        refine (attachChecked_weaving inside seed suits).bind fun {i s} h weaves => ?_
        have new := (ends_attachChecked h).1
        have graph := (ends_attachChecked h).2.1
        have within : i < s.graph.size := by
          rw [graph, new]
          exact Graph.lt_size_attach
        refine (settle_weaving within fun {items u} same array => ?_).bind fun _ _ => .pure _
        rw [← same] at within array
        exact (ih within (suits_of_taken (Graph.takenAt_of_plain (by rw [array]; rfl)))).plain
          (by rw [Node.isProperty, array]; rfl)

/-- Building a schema that suits is a weaving. -/
theorem fromSchema_weaving (inside : p < r.graph.size) (suits : Suits d r.graph p schema) :
    Weaving d {p} r.graph (fromSchema p schema) r := fromSchemaWithin_weaving inside suits

/-! ## Properties -/

/-- A scalar property fits as soon as it is attached. -/
theorem fittedAt_attach {seed : Seed} {type : ScalarType} {placeholder : Bool} (inside : p < g.size)
    (kind : seed.kind = .property (.scalar type placeholder) required) :
    (g.attach p seed).FittedAt g.size := by
  intro shape required' here
  rw [Graph.kind_attach_size inside, kind, Kind.property.injEq] at here
  rw [← here.1, Graph.node_attach_size inside]
  rfl

/-- A property and the one node that it wraps. -/
theorem fittedAt_pair {shape : PropShape} (kind : (h.node g.size).kind = .property shape required)
    (wraps : shape.isWrapper = true) (size : h.size = g.size + 2)
    (children : (h.node g.size).children = [g.size + 1])
    (plain : (h.node (g.size + 1)).isProperty = false) (le : g.size ≤ q) (lt : q < h.size) :
    h.FittedAt q := by
  rcases Nat.eq_or_lt_of_le le with rfl | later
  · intro shape' required' here
    rw [kind, Kind.property.injEq] at here
    rw [← here.1]
    cases shape with
    | scalar | array => cases wraps
    | object | composed | enum | circular => exact ⟨_, by omega, children, plain⟩
  · obtain rfl : q = g.size + 1 := by omega
    exact Graph.fittedAt_of_plain plain

theorem placeholderElement_weaving (inside : p < r.graph.size)
    (taken : r.graph.TakenAt p) :
    Weaving d {p} r.graph (placeholderElement p name) r := by
  obtain ⟨s, warned, graph, -⟩ := warnMissingItems_ends r p
  rw [← graph] at inside taken ⊢
  refine .after warned <| weaving_node <| .discard ?_
  refine .of_ends (ends_attach.mpr ⟨rfl, rfl⟩) (.adopt inside taken) fun q le lt => ?_
  have size := Graph.size_attach.symm.trans_gt lt
  obtain rfl := Nat.le_antisymm (Nat.lt_succ_iff.mp size) le
  exact fittedAt_attach inside rfl

theorem circularElement_weaving {ancestor : Nat} (inside : p < r.graph.size)
    (taken : r.graph.TakenAt p) :
    Weaving d {p} r.graph (circularElement p name schema ancestor) r := by
  obtain ⟨a, s, h⟩ := circularElement_ends r p ancestor name schema
  obtain ⟨x, y, kind, leaf, graph⟩ : ∃ x y : Seed, x.kind = .property .circular false ∧
      y.kind = .circular ancestor ∧ s.graph = (r.graph.attach p x).attach r.graph.size y := by
    unfold circularElement at h
    simp only [Ends.bind_iff, ends_graph, ends_warn, Ends.discard_iff, ends_attach,
      Ends.pure_iff] at h
    obtain ⟨_, _, ⟨rfl, rfl⟩, _, _, rfl, _, _, ⟨rfl, rfl⟩, _, _, ⟨_, -, rfl⟩, -, rfl⟩ := h
    exact ⟨_, _, rfl, rfl, rfl⟩
  have here : r.graph.size < (r.graph.attach p x).size := Graph.lt_size_attach
  have size : (r.graph.attach p x).size = r.graph.size + 1 := Graph.size_attach
  have turned : ((r.graph.attach p x).node r.graph.size).kind = .property .circular false := by
    simp [inside, kind]
  have kept : (s.graph.node r.graph.size).kind = .property .circular false := by
    rw [graph, Graph.kind_attach_of_lt here, turned]
  have new : (s.graph.node (r.graph.size + 1)).kind = .circular ancestor := by
    rw [graph, ← size, Graph.kind_attach_size here, leaf]
  refine .of_ends h ?_ fun q => fittedAt_pair kept rfl ?_ ?_ ?_
  · rw [graph]
    refine (Graph.Weaves.adopt inside taken).trans (Graph.Weaves.attach here fun _ _ => ?_)
      fun i lt mem => absurd (Set.mem_singleton_iff.mp mem) (Nat.ne_of_lt lt)
    rw [size, ← graph]
    exact .closing kept (by rw [new]; rfl)
  · simp [graph, size]
  · rw [graph, Graph.children_attach here, if_pos rfl, Graph.node_attach_size inside, size]
    rfl
  · rw [Node.isProperty, new]
    rfl

/-- A fragment that makes a wrapper is no reference. -/
theorem ref?_of_isWrapper (wraps : (propShapeOf (Shape.ofSchema fragment)).isWrapper = true) :
    fragment.ref? = none := by
  cases ref : fragment.ref? with
  | none => rfl
  | some pointer =>
    rw [Shape.ofSchema_of_ref? ref] at wraps
    cases wraps

/-- A property that was just attached is the last node. -/
theorem attached_property {u : Run} {shape : PropShape} (inside : o < r.graph.size)
    (kind : x.kind = .property shape required) (graph : u.graph = r.graph.attach o x) :
    r.graph.size < u.graph.size ∧ u.graph.node r.graph.size = r.graph.sprout (some o) x ∧
      (u.graph.node r.graph.size).kind = .property shape required := by
  have new : u.graph.node r.graph.size = r.graph.sprout (some o) x := by
    simp [graph, inside]
  refine ⟨graph ▸ Graph.lt_size_attach, new, ?_⟩
  rw [new]
  exact kind

/-- A property gets what it wraps, and closes a cycle where that does. -/
theorem wrapSchema_weaving {u : Run} {shape : PropShape} (inside : o < r.graph.size)
    (taken : r.graph.TakenAt o) (kind : x.kind = .property shape required)
    (graph : u.graph = r.graph.attach o x) (decides : d.Decides schema fragment)
    (same : propShapeOf (Shape.ofSchema fragment) = shape) (wraps : shape.isWrapper = true) :
    Weaving d {o} r.graph (wrapSchema r.graph.size schema required) u := by
  have size : u.graph.size = r.graph.size + 1 := graph ▸ Graph.size_attach
  obtain ⟨within, new, here⟩ := attached_property inside kind graph
  obtain ⟨y, s, made, h, ends⟩ :=
    @wrapSchema_ends d u r.graph.size schema fragment required within decides (same ▸ wraps)
  obtain ⟨k, follows⟩ := decides.follows (ref?_of_isWrapper (same ▸ wraps))
  have suits : Suits d u.graph r.graph.size schema := fun _ _ =>
    .inr ⟨shape, required, k, fragment, here, follows, same⟩
  have first : r.graph.Weaves d {o} u.graph := by
    rw [graph]
    exact .adopt inside taken
  have second := first.trans
    (Graph.Weaves.attach within (suits.wraps within made))
    fun i lt mem => absurd (Set.mem_singleton_iff.mp mem) (Nat.ne_of_lt lt)
  -- the graph before the property may be turned
  have built : ∀ {l : Graph}, l = u.graph.attach r.graph.size (u.graph.checked r.graph.size y) →
      l.size = r.graph.size + 2 ∧ (l.node r.graph.size).kind = .property shape required ∧
      (l.node r.graph.size).children = [r.graph.size + 1] ∧
      (l.node (r.graph.size + 1)).kind = (u.graph.checked r.graph.size y).kind := by
    rintro l rfl
    refine ⟨?_, ?_, ?_, ?_⟩
    · simp [size]
    · simp [within, here]
    · rw [Graph.children_attach within, if_pos rfl, new, size]
      rfl
    · rw [← size, Graph.kind_attach_size within]
  have leaf := checked_plain made
  rcases ends with ends | ⟨circular, ends⟩
  · obtain ⟨size', kind', children, child⟩ := built ends
    refine .of_ends h (ends ▸ second) fun q => fittedAt_pair kind' wraps size' children ?_
    rw [Node.isProperty, child, leaf]
  · obtain ⟨size', kind', children, child⟩ := built rfl
    have there :
        r.graph.size < (u.graph.attach r.graph.size (u.graph.checked r.graph.size y)).size :=
      within.trans Graph.lt_size_attach
    refine .of_ends h ?_ fun q =>
      fittedAt_pair (?_ : _ = Kind.property .circular required) rfl ?_ ?_ ?_
    · rw [ends]
      refine second.turn le_rfl kind' wraps fun c first => ?_
      rw [children] at first
      cases first
      rw [child, circular]
    · rw [ends, Graph.node_modify_self there]
      rfl
    · simp [ends, size']
    · rw [ends, Graph.node_modify_self there]
      exact children
    · simp [ends, Nat.succ_ne_self _, Node.isProperty, child, leaf]

/-- A property that wraps nothing is attached and then completed. -/
theorem weaving_completed {β : Type} {m : Build β} {u : Run} (inside : o < r.graph.size)
    (taken : r.graph.TakenAt o) (graph : u.graph = r.graph.attach o x)
    (bare : x.kind.isWrapper = false) (rest : Weaving d {r.graph.size} u.graph m u)
    (fitted : ∀ {a s}, Ends m u a s → s.graph.FittedAt r.graph.size) :
    Weaving d {o} r.graph m u := by
  have size : u.graph.size = r.graph.size + 1 := graph ▸ Graph.size_attach
  have first : r.graph.Weaves d {o} u.graph := by
    rw [graph]
    exact .adopt inside taken
  refine ⟨first.trans rest.along fun i lt mem =>
    absurd (Set.mem_singleton_iff.mp mem) (Nat.ne_of_lt lt), fun q le lt => ?_, fun h q le lt => ?_⟩
  · rcases Nat.eq_or_lt_of_le le with rfl | later
    · intro _ wrapper
      rw [rest.along.kinds _ (by omega), graph, Graph.kind_attach_size inside, bare] at wrapper
      cases wrapper
    · exact rest.housed q (by omega) lt
  · rcases Nat.eq_or_lt_of_le le with rfl | later
    · exact fitted h
    · exact rest.fitted h q (by omega) lt

/-- An array property has one element, the property that was made below it. -/
theorem fittedAt_array {u : Run} (adopts : u.graph.Adopts p name i s.graph)
    (kind : (u.graph.node p).kind = .property .array required)
    (childless : (u.graph.node p).children = []) (named : (u.graph.node p).name = name) :
    s.graph.FittedAt p := by
  intro shape required' here
  rw [adopts.owner, kind, Kind.property.injEq] at here
  rw [← here.1, adopts.owner, childless]
  exact ⟨i, adopts.new.2, rfl, adopts.prop.1, adopts.prop.2.1.trans named.symm⟩

/-- The element in place of a missing one is adopted under its name. -/
theorem placeholderElement_adopts (inside : p < r.graph.size)
    (h : Ends (placeholderElement p name) r ⟨⟩ s) :
    r.graph.Adopts p name r.graph.size s.graph := by
  obtain ⟨u, warned, graph, -⟩ := warnMissingItems_ends r p
  obtain ⟨_, v, warned', h⟩ := Ends.bind_iff.mp h
  obtain ⟨-, rfl⟩ := warned.unique warned'
  simp only [Ends.bind_iff, ends_node, Ends.discard_iff, ends_attach] at h
  obtain ⟨_, _, ⟨rfl, rfl⟩, _, -, same⟩ := h
  obtain ⟨x, prop, named, same⟩ : ∃ x : Seed, x.kind.isProperty = true ∧ x.name = name ∧
      s.graph = r.graph.attach p x := 
    ⟨_, rfl, rfl, (congrArg Run.graph same.symm).trans (congrArg (Graph.attach · p _) graph)⟩
  exact adopts_of_attached inside same prop named (.refl _) fun _ _ => rfl

theorem propWithin_weaving {depth : Nat} {followed : List (String × Nat)}
    (inside : o < r.graph.size) (taken : r.graph.TakenAt o) :
    Weaving d {o} r.graph (propWithin d depth o name schema required followed) r := by
  induction depth generalizing o schema required followed r with
  | zero => exact .throw _
  | succ depth ih =>
    rw [propWithin]
    split
    · exact circularElement_weaving inside taken
    · refine weaving_node <| .look along_decisive fun {fragment} decided => ?_
      obtain ⟨decides, -⟩ := ends_decisive decided
      dsimp only
      refine .after (ends_attach.mpr ⟨rfl, rfl⟩) ?_
      generalize shown : propShapeOf (Shape.ofSchema fragment) = shape
      generalize grown : r.onGraph _ = u
      obtain ⟨x, kind, named, graph⟩ : ∃ x : Seed, x.kind = .property shape required ∧
          x.name = name ∧
          u.graph = r.graph.attach o x := ⟨_, rfl, rfl, congrArg Run.graph grown.symm⟩
      obtain ⟨within, new, here⟩ := attached_property inside kind graph
      split
      · refine weaving_completed inside taken graph (by rw [kind]; rfl) (.pure _) fun h => ?_
        obtain ⟨-, rfl⟩ := Ends.pure_iff.mp h
        rw [graph]
        exact fittedAt_attach inside kind
      · exact absurd shown (propShapeOf_ne_circular _)
      · have free : u.graph.TakenAt r.graph.size := Graph.takenAt_of_plain (by rw [here]; rfl)
        split
        · next items _ =>
          refine weaving_completed inside taken graph (by rw [kind]; rfl)
            (.bind (ih within free).discard fun _ _ => .pure _) fun h => ?_
          obtain ⟨_, t, inner, last⟩ := Ends.bind_iff.mp h
          obtain ⟨-, rfl⟩ := Ends.pure_iff.mp last
          obtain ⟨i, inner⟩ := Ends.discard_iff.mp inner
          exact fittedAt_array (propWithin_adopts inner within) here (by rw [new]; rfl)
            (by rw [new]; exact named)
        · refine weaving_completed inside taken graph (by rw [kind]; rfl)
            (.bind (placeholderElement_weaving within free) fun _ _ => .pure _) fun h => ?_
          obtain ⟨_, t, inner, last⟩ := Ends.bind_iff.mp h
          obtain ⟨-, rfl⟩ := Ends.pure_iff.mp last
          exact fittedAt_array (placeholderElement_adopts within inner) here (by rw [new]; rfl)
            (by rw [new]; exact named)
      all_goals
        exact (wrapSchema_weaving inside taken kind graph decides shown rfl).bind fun _ _ => .pure _

/-- Building a property is a weaving. -/
theorem fromProp_weaving (inside : o < r.graph.size)
    (taken : r.graph.TakenAt o) :
    Weaving d {o} r.graph (fromProp d o name schema required) r :=
  .after (Ends.get_iff.mpr ⟨rfl, rfl⟩) (propWithin_weaving inside taken)

end Build

end RestGraph
