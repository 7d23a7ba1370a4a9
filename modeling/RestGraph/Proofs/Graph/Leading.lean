import RestGraph.Proofs.Graph.Visiting
import RestGraph.Proofs.Graph.Wrapping

/-!
# Leading

A visited reference leads to what it names, and a property that wraps something leads to what its
shape was read off. However the visits on the way there come out, the wrappers end as the shape says
or where a cycle is closed.
-/

namespace RestGraph

variable {d : Document} {g h : Graph} {busy : Set Nat} {r s u : Run} {i o p q c e k : Nat}
  {name pointer : String} {schema fragment j : Json} {required : Bool} {shape : PropShape}

/-- What leads to something that a property wraps can be made at once. -/
theorem Document.Lends.single (lends : d.Lends j) :
    (∃ pointer, j.ref? = some pointer) ∨
      ∃ kind, Build.kindOfShape? (Shape.ofSchema j) = some kind ∧ kind.isArray = false := by
  obtain ⟨k, e, follows, wraps⟩ := lends
  cases follows with
  | here => exact .inr (Build.kind_of_isWrapper wraps)
  | next ref => exact .inl ⟨_, ref⟩

namespace Graph

/-! ## Marks -/

/-- To mark a node as visited keeps it. -/
theorem keeps_visited (n : Node) : n.Keeps { n with visited := true } :=
  { Node.Keeps.refl n with visited := fun _ => rfl }

/-- A node is marked before its children are made; a reference has them in the end. -/
theorem Weaves.mark (rest : (g.modify i fun n => { n with visited := true }).Weaves d busy h)
    (led : h.LedAt d i) : g.Weaves d busy h := by
  have grown : g.Extends (g.modify i fun n => { n with visited := true }) :=
    .modify (keeps_visited _)
  have kind : ∀ j, ((g.modify i fun n => { n with visited := true }).node j).kind =
      (g.node j).kind :=
    part_modify Node.kind fun _ => rfl
  have children : ∀ j, ((g.modify i fun n => { n with visited := true }).node j).children =
      (g.node j).children := part_modify Node.children fun _ => rfl
  refine ⟨grown.trans rest.grown, fun j lt => ?_, fun j lt free prop => ?_, fun wrapping => ?_,
    fun j done => ?_⟩
  · exact (rest.kinds j (lt.trans_le grown.size_le)).trans (kind j)
  · have prop' := prop
    rw [Node.isProperty, ← kind] at prop'
    exact (rest.kids j (lt.trans_le grown.size_le) free prop').trans (children j)
  · exact rest.wraps (wrapping.modify keeps_visited (fun _ => rfl) fun _ => rfl)
  · by_cases same : j = i
    · exact .inr (same ▸ led)
    · refine (rest.led j done).imp_left fun before => ⟨size_modify ▸ before.1, ?_⟩
      rw [← before.2, node_modify_of_ne same]

/-- What is known of the wrappers of a graph that was built as it should be. -/
structure Woven (d : Document) (g : Graph) : Prop where
  wrapping : g.Wrapping d
  led : ∀ i, g.IsDone i → g.LedAt d i
  housed : ∀ q < g.size, g.HousedAt q

/-- What is woven goes on woven when the new properties are housed. -/
theorem Woven.weave (woven : g.Woven d) (weaves : g.Weaves d busy h)
    (housed : ∀ q, g.size ≤ q → q < h.size → h.HousedAt q) : h.Woven d where
  wrapping := weaves.wraps woven.wrapping
  led i done := (weaves.led i done).elim
    (fun before => (woven.led i before).grow weaves.grown (weaves.kinds i before.1) before.1) id
  housed q lt := (lt_or_ge q g.size).elim
    (fun old => (woven.housed q old).grow weaves.grown old) fun new => housed q new lt

end Graph

namespace Build

namespace Weaving

variable {α : Type} {m : Build α}

/-- A weaving leaves the graph woven, also where it fails. -/
theorem woven (weaving : Weaving d busy r.graph m r) (woven : r.graph.Woven d) :
    (m.run r).2.graph.Woven d := woven.weave weaving.along weaving.housed

/-- A weaving that ends leaves the graph woven. -/
theorem woven_of_ends {a : α} (weaving : Weaving d busy r.graph m r) (woven : r.graph.Woven d)
    (h : Ends m r a s) : s.graph.Woven d := by
  have run : m.run r = (.ok a, s) := h
  have after := weaving.woven woven
  rwa [run] at after

/-- A mark may come before a weaving. -/
theorem marked (rest : Weaving d ∅ u.graph m u)
    (graph : u.graph = r.graph.modify i fun n => { n with visited := true })
    (led : (m.run u).2.graph.LedAt d i) : Weaving d ∅ r.graph m u := by
  have size : u.graph.size = r.graph.size := graph ▸ Graph.size_modify
  have along := rest.along
  rw [graph] at along
  exact ⟨along.mark led, size ▸ rest.housed, fun h => size ▸ rest.fitted h⟩

/-- A frame is no matter for a weaving. -/
theorem framed {tag : Tag} (rest : Weaving d busy g m (r.enter i tag)) :
    Weaving d busy g (framed i tag m) r := by
  refine ⟨?_, ?_, fun ends => ?_⟩
  · have along := rest.along
    rw [run_framed]
    split <;> next run => rwa [run] at along
  · have housed := rest.housed
    rw [run_framed]
    split <;> next run => rwa [run] at housed
  · obtain ⟨_, h, rfl⟩ := ends_framed.mp ends
    exact fun q => rest.fitted h q

end Weaving

/-! ## Visits -/

theorem visitObject_weaving (inside : i < r.graph.size)
    (kind : (r.graph.node i).kind.tag = .object) : Weaving d ∅ r.graph (visitObject d i) r := by
  refine weaving_node <| .forM fun {x t} _ weaves => ?_
  have kind' : (t.graph.node i).kind.tag = .object := by rw [weaves.kinds i inside, kind]
  have plain : (t.graph.node i).isProperty = false := by
    rw [Node.isProperty, Kind.isProperty, kind']; rfl
  have taken : t.graph.TakenAt i := Graph.takenAt_of_plain <| by
    cases object : (t.graph.node i).kind <;> rw [object] at kind' <;> first | rfl | cases kind'
  refine ((fromProp_weaving (inside.trans_le weaves.grown.size_le) taken).plain plain).bind
    fun _ _ => ?_
  refine .of_ends (a := ⟨⟩) (ends_modifyNode.mpr rfl)
    (.modify (fun _ => { Node.Keeps.refl _ with }) (fun _ => rfl) (fun _ => rfl) fun _ => rfl)
    fun q le lt => ?_
  exact absurd lt (Nat.not_lt.mpr (Graph.size_modify.trans_le le))

section Kinds

variable {visitChild : Nat → Build Unit}
  (visits : ∀ {i r}, Weaving d ∅ r.graph (visitChild i) r)

include visits

theorem enterSchema_weaving (inside : i < r.graph.size)
    (plain : (r.graph.node i).isProperty = false)
    (suits : Suits d r.graph i schema) : Weaving d ∅ r.graph (enterSchema visitChild i schema) r :=
  ((fromSchema_weaving inside suits).plain plain).bind fun _ _ => visits

theorem visitReference_weaving (inside : i < r.graph.size)
    (kind : (r.graph.node i).kind = .reference pointer) :
    Weaving d ∅ r.graph (visitReference d visitChild i pointer) r := by
  refine .look along_pathOf fun _ => .look (.liftExcept _) fun h => ?_
  refine enterSchema_weaving visits inside (by rw [Node.isProperty, kind]; rfl) fun _ _ => ?_
  exact .inl ⟨pointer, kind, Document.lookup?_of_component (Ends.liftExcept_iff.mp h).1⟩

/-- A reference gets its child before that is visited. -/
theorem visitReference_leads {target : Json} (inside : i < r.graph.size)
    (found : d.lookup? pointer = some target) (lends : d.Lends target) :
    (((visitReference d visitChild i pointer).run r).2.graph.node i).children ≠ [] := by
  have component : d.component pointer (r.graph.pathOf i) = .ok target := by
    rw [Document.component, found]
  obtain ⟨_, s, -, made, graph⟩ := fromSchema_ends inside lends.single
  have attached : (s.graph.node i).children ≠ [] := by
    rw [graph, Graph.children_attach inside, if_pos rfl]
    exact List.append_ne_nil_of_right_ne_nil _ (List.cons_ne_nil _ _)
  have within : i < s.graph.size := by
    rw [graph]
    exact inside.trans Graph.lt_size_attach
  rw [visitReference, Ends.run_bind_of_ends (ends_pathOf.mpr ⟨rfl, rfl⟩),
    Ends.run_bind_of_ends (Ends.liftExcept_iff.mpr ⟨component, rfl⟩), enterSchema,
    Ends.run_bind_of_ends made]
  exact Graph.ne_nil_of_grown visits.along.grown within attached

section Operations

variable (inside : i < r.graph.size) (operation : (r.graph.node i).kind.tag = .operation)

include inside operation

theorem attachPart_weaving {part : Seed} (solid : part.kind.isProperty = false) :
    Weaving d ∅ r.graph (do visitChild (← attach i part)) r := by
  have plain : (r.graph.node i).isProperty = false ∧ (r.graph.node i).kind.isWrapper = false := by
    rw [Node.isProperty]
    cases kind : (r.graph.node i).kind <;> rw [kind] at operation <;>
      first | exact ⟨rfl, rfl⟩ | cases operation
  refine .bind (.plain (weaving_attached (ends_attach.mpr ⟨rfl, rfl⟩) inside rfl solid
    fun wrapper => ?_) plain.1) fun _ _ => visits
  rw [plain.2] at wrapper
  cases wrapper

theorem visitParameter_weaving {param : Json} :
    Weaving d ∅ r.graph (visitParameter visitChild i name param) r := by
  unfold visitParameter
  dsimp only
  split
  · exact .pure _
  · exact attachPart_weaving visits inside operation rfl

theorem visitRequest_weaving {path : String} {raw : Json} :
    Weaving d ∅ r.graph (visitRequest d visitChild i name path raw) r := by
  refine .look along_deref fun _ => ?_
  split
  · exact .pure _
  · exact attachPart_weaving visits inside operation rfl

theorem visitResponse_weaving {path : String} {responses : Json} :
    Weaving d ∅ r.graph (visitResponse d visitChild i name path responses) r := by
  refine .look along_chosenResponse fun {chosen} _ => ?_
  cases chosen with
  | some x => exact attachPart_weaving visits inside operation rfl
  | none =>
    dsimp only [Option.getD_none]
    refine .after (a := ⟨⟩) (ends_warn.mpr rfl) ?_
    exact attachPart_weaving (r := r.warn _ _ _) visits inside operation rfl

theorem visitOperation_weaving {method : Method} {shared : List Json} :
    Weaving d ∅ r.graph (visitOperation d visitChild i method shared) r := by
  refine weaving_node <| .look along_pathOf fun _ => .look along_mergeParameters fun _ => ?_
  have later : ∀ {t : Run}, r.graph.Weaves d ∅ t.graph →
      i < t.graph.size ∧ (t.graph.node i).kind.tag = .operation := fun weaves =>
    ⟨inside.trans_le weaves.grown.size_le, by rw [weaves.kinds i inside, operation]⟩
  refine .bind (.forM fun _ weaves => ?_) fun {_ t} _ weaves => ?_
  · exact visitParameter_weaving visits (later weaves).1 (later weaves).2
  · obtain ⟨inside', operation'⟩ := later weaves
    have answers : ∀ {v : Run} {path responses}, t.graph.Weaves d ∅ v.graph →
        Weaving d ∅ v.graph (visitResponse d visitChild i (r.graph.node i).name path responses) v :=
      fun more => visitResponse_weaving visits (later (weaves.trans more fun _ _ => id)).1
        (later (weaves.trans more fun _ _ => id)).2
    split
    · split
      · exact (visitRequest_weaving visits inside' operation').bind fun _ more => answers more
      · exact answers (.refl _)
    · exact answers (.refl _)

end Operations

theorem visitKind_weaving {kind : Kind} (inside : i < r.graph.size)
    (here : (r.graph.node i).kind = kind) :
    Weaving d ∅ r.graph (visitKind d visitChild i kind) r := by
  have later : ∀ {t : Run}, r.graph.Weaves d ∅ t.graph → i < t.graph.size ∧
      (t.graph.node i).isProperty = kind.isProperty ∧
      (t.graph.node i).kind.isWrapper = kind.isWrapper :=
    fun weaves =>
      ⟨inside.trans_le weaves.grown.size_le, by rw [Node.isProperty, weaves.kinds i inside, here],
      by rw [weaves.kinds i inside, here]⟩
  have enters : ∀ {t : Run} {schema}, kind.isProperty = false → kind.isWrapper = false →
      r.graph.Weaves d ∅ t.graph → Weaving d ∅ t.graph (enterSchema visitChild i schema) t :=
    fun plain bare weaves =>
      enterSchema_weaving visits (later weaves).1 ((later weaves).2.1.trans plain)
        (suits_of_taken (Graph.takenAt_of_plain ((later weaves).2.2.trans bare)))
  have children : Weaving d ∅ r.graph (visitChildren visitChild i) r :=
    weaving_node <| .forM fun _ _ => visits
  cases kind with
  | operation => exact visitOperation_weaving visits inside (by rw [here]; rfl)
  | param => exact weaving_node (enters rfl rfl (.refl _))
  | body | response => exact weaving_node (enters rfl rfl (.refl _))
  | reference => exact visitReference_weaving visits inside here
  | object => exact visitObject_weaving inside (by rw [here]; rfl)
  | composed | union => exact weaving_node <| .forM fun _ weaves => enters rfl rfl weaves
  | array | property => exact children
  | scalar | enum | circular => exact .pure _

/-- A reference leads somewhere once it has been visited. -/
theorem visitKind_leads {kind : Kind} (inside : i < r.graph.size)
    (here : (r.graph.node i).kind = kind) :
    ((visitKind d visitChild i kind).run r).2.graph.LedAt d i := by
  intro pointer target reference found lends
  rw [(visitKind_weaving visits inside here).along.kinds i inside, here] at reference
  subst reference
  exact visitReference_leads visits inside found lends

end Kinds

/-- A visit is a weaving, at any depth. -/
theorem visitWithin_weaving {depth : Nat} : Weaving d ∅ r.graph (visitWithin d depth i) r := by
  induction depth generalizing i r with
  | zero => exact .throw _
  | succ depth ih =>
    refine weaving_node ?_
    split
    · exact .pure _
    · next idle =>
      have inside : i < r.graph.size :=
        Graph.lt_size_of_not_visited (Bool.eq_false_iff.mpr idle)
      refine .after (a := ⟨⟩) (ends_modifyNode.mpr rfl) (.framed ?_)
      have inside' : i < (r.visiting i).graph.size := inside.trans_eq Run.size_visiting.symm
      have kind := Run.kind_visiting (r := r) (i := i) i
      exact (visitKind_weaving ih inside' kind).marked rfl (visitKind_leads ih inside' kind)

/-- **A visit is a weaving.** -/
theorem visit_weaving : Weaving d ∅ r.graph (visit d i) r :=
  .after (Ends.get_iff.mpr ⟨rfl, rfl⟩) visitWithin_weaving

end Build

/-! ## Targets -/

namespace Graph

def EndsAs (g : Graph) (q : Nat) (shape : PropShape) (e : Nat) : Prop :=
  match shape with
  | .scalar .. | .array => e = q
  | .object => (g.node e).kind = .object false ∨ (g.node e).kind.tag = .circular
  | .composed => (g.node e).kind.isComposition = true ∨ (g.node e).kind.tag = .circular
  | .enum => (g.node e).kind.tag = .enum ∨ (g.node e).kind.tag = .circular
  | .circular => (g.node e).kind.tag = .circular

/-- Any wrapper may end as a circular reference. -/
theorem endsAs_of_circular (wraps : shape.isWrapper = true)
    (circular : (g.node e).kind.tag = .circular) : g.EndsAs q shape e := by
  cases shape with
  | scalar | array => cases wraps
  | object | composed | enum => exact .inr circular
  | circular => exact circular

/-- A node of the kind that the shape was read off is what the shape says. -/
theorem endsAs_of_shape (wraps : shape.isWrapper = true) {shown : Shape}
    (kind : Build.kindOfShape? shown = some (g.node e).kind)
    (same : Build.propShapeOf shown = shape) : g.EndsAs q shape e := by
  subst same
  cases shown with
  | scalar | array | unknown | reference => cases wraps
  | object synthetic =>
    cases synthetic with
    | true => cases wraps
    | false => exact .inl (Option.some_inj.mp kind).symm
  | composed | union =>
    refine .inl ?_
    rw [← Option.some_inj.mp kind]
    rfl
  | enum values =>
    refine .inl ?_
    rw [← Option.some_inj.mp kind]
    rfl

end Graph

namespace Build

/-- The way from a node that was made from a fragment ends as the fragment says, or where a cycle is
closed. -/
theorem targetWithin_leads {depth : Nat} (woven : r.graph.Woven d) (inside : c < r.graph.size)
    (made : r.graph.IsMade c) (follows : d.Follows k (r.graph.node c).schema fragment)
    (wraps : (propShapeOf (Shape.ofSchema fragment)).isWrapper = true)
    (h : Ends (targetWithin d depth c) r e s) :
    (s.graph.node e).kind.tag = .circular ∨
      kindOfShape? (Shape.ofSchema fragment) = some (s.graph.node e).kind := by
  induction depth generalizing c k r with
  | zero => cases h
  | succ depth ih =>
    obtain ⟨u, visited, way⟩ := targetWithin_cases h
    have weaves := visit_weaving.ends visited
    have woven' := visit_weaving.woven_of_ends woven visited
    have made' := made.grow weaves.grown inside
    have follows' := (weaves.grown.keeps inside).schema ▸ follows
    have ends : (u.graph.node c).kind.isWrapper = false → c = e ∧ u = s := fun bare =>
      way.elim And.right fun ⟨wrapper, _⟩ => Bool.noConfusion (bare.symm.trans wrapper)
    rcases made'.cases with ⟨pointer, ref, kind, -⟩ | kind | ⟨circular, -⟩
    · cases follows' with
      | here plain =>
        rw [plain] at ref
        cases ref
      | next ref' found more =>
        rw [ref, Option.some.injEq] at ref'
        subst ref'
        have wrapper : (u.graph.node c).kind.isWrapper = true := by rw [kind]; rfl
        obtain ⟨childless, -⟩ | ⟨-, x, first, h⟩ := way
        · exact absurd (childless wrapper) <|
            woven'.led c (isDone_of_visit inside visited) _ _ kind found ⟨_, _, more, wraps⟩
        · obtain ⟨lt, held⟩ := woven'.wrapping c x wrapper first
          cases held with
          | named here found' below =>
            rw [kind, Kind.reference.injEq] at here
            subst here
            rw [found, Option.some.injEq] at found'
            exact ih woven' lt below (found' ▸ more) h
          | shaped here | closing here =>
            rw [kind] at here
            cases here
    · obtain ⟨rfl, rfl⟩ := ends (Kind.not_isWrapper_of_shape kind)
      cases follows' with
      | here => exact .inr kind
      | next ref =>
        rw [Shape.ofSchema_of_ref? ref] at kind
        cases kind
    · obtain ⟨rfl, rfl⟩ := ends (Kind.not_isWrapper_of_circular circular)
      exact .inl circular

/-- The way from a circular reference ends at one. -/
theorem targetWithin_circular {depth : Nat} (inside : c < r.graph.size)
    (circular : (r.graph.node c).kind.tag = .circular) (h : Ends (targetWithin d depth c) r e s) :
    (s.graph.node e).kind.tag = .circular := by
  cases depth with
  | zero => cases h
  | succ depth =>
    obtain ⟨u, visited, way⟩ := targetWithin_cases h
    have here : (u.graph.node c).kind.tag = .circular :=
      (congrArg Kind.tag ((visit_weaving.ends visited).kinds c inside)).trans circular
    obtain ⟨-, rfl, rfl⟩ | ⟨wrapper, -⟩ := way
    · exact here
    · rw [Kind.not_isWrapper_of_circular here] at wrapper
      cases wrapper

/-- A property leads to what its shape says. -/
theorem resolveTarget_leads (woven : r.graph.Woven d) (inside : q < r.graph.size)
    (kind : (r.graph.node q).kind = .property shape required)
    (h : Ends (resolveTarget d q) r e s) : s.graph.EndsAs q shape e := by
  obtain ⟨_, _, got, h⟩ := Ends.bind_iff.mp h
  obtain ⟨rfl, rfl⟩ := Ends.get_iff.mp got
  obtain ⟨depth, reach⟩ : ∃ depth, r.reach = depth + 1 := Nat.exists_eq_add_one.mpr r.reach_pos
  rw [reach] at h
  obtain ⟨u, visited, way⟩ := targetWithin_cases h
  have weaves := visit_weaving.ends visited
  have woven' := visit_weaving.woven_of_ends woven visited
  have kind' := (weaves.kinds q inside).trans kind
  obtain ⟨childless, rfl, rfl⟩ | ⟨wrapper, c, first, h⟩ := way
  · have taken := woven'.housed q (inside.trans_le weaves.grown.size_le)
      (by rw [Node.isProperty, kind']; rfl)
    rw [kind'] at childless
    rw [Graph.TakenAt, kind'] at taken
    cases shape with
    | scalar | array => rfl
    | object | composed | enum | circular => exact absurd (childless rfl) (taken rfl)
  · obtain ⟨lt, held⟩ := woven'.wrapping q c wrapper first
    rw [kind'] at wrapper
    cases held with
    | named here =>
      rw [kind'] at here
      cases here
    | shaped here follows same made =>
      rw [kind', Kind.property.injEq] at here
      obtain ⟨rfl, -⟩ := here
      have wraps := wrapper
      rw [Kind.isWrapper, ← same] at wraps
      rcases targetWithin_leads woven' lt made follows wraps h with circular | ends
      · exact Graph.endsAs_of_circular wrapper circular
      · exact Graph.endsAs_of_shape wrapper ends same
    | closing here leaf =>
      exact Graph.endsAs_of_circular wrapper (targetWithin_circular lt leaf h)

end Build

end RestGraph
