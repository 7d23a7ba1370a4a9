import RestGraph.Proofs.Graph.Steps
import RestGraph.Proofs.Graph.Visiting
import RestGraph.Proofs.Run.Outcomes

/-!
# Advancing

Whatever the outcome of a step, its graph has taken guarded steps only. A step that fails has done
what its parts did before the failure, and these found the graph as they need it.
-/

namespace RestGraph

variable {d : Document} {r r' s t : Run} {p i : Nat}

namespace Build

/-- What a step does to registries and warnings is no matter. -/
theorem along_registry {f : Run → Run} (graph : (f r).graph = r.graph)
    (extent : (f r).extent = r.extent) :
    Along (Run.Advances d) (modify f : Build Unit) r :=
  .modify (.of_same graph extent)

theorem along_warn {location message : String} {kind : WarningKind} :
    Along (Run.Advances d) (warn location kind message) r := along_registry rfl rfl

theorem along_attach {seed : Seed} (step : r.graph.Step d (r.graph.attach p seed))
    (graph : s.graph = r.graph) : Along (Run.Advances d) (attach p seed) s :=
  Along.get.bind fun h _ => by
    obtain ⟨rfl, rfl⟩ := Ends.get_iff.mp h
    have step : s.graph.Step d (s.graph.attach p seed) := by rwa [graph]
    exact (Along.modify (.single step rfl)).bind fun _ _ => .pure _

theorem along_modifyNode {f : Node → Node} (move : r.graph.Move d (r.graph.modify i f)) :
    Along (Run.Advances d) (modifyNode i f) r :=
  .modify (.single (.change move Graph.size_modify) rfl)

/-! ## Nodes from fragments -/

/-- No fragment is seeded as a circular reference. -/
theorem seedBelow?_ne_circular {n : Node} {schema : Json} {seed : Seed} {t : Nat}
    (made : n.seedBelow? schema = some seed) : seed.kind ≠ .circular t := by
  obtain ⟨-, -, ⟨_, -, kind, -⟩ | ⟨kind, -⟩⟩ := Node.seedBelow?_spec made
  · rw [kind]
    exact Kind.noConfusion
  · intro circular
    rw [circular] at kind
    unfold kindOfShape? at kind
    split at kind <;> cases kind

theorem attachChecked_along {seed : Seed} {schema : Json} (room : r.graph.Open p)
    (takes : ∀ c : Kind, c.isSchema = true → (r.graph.node p).kind.admits c = true)
    (holds : r.graph.Holds d p (r.graph.node p).children.length schema)
    (made : (r.graph.node p).seedBelow? schema = some seed) :
    Along (Run.Advances d) (attachChecked p seed) r := by
  have isSchema := Node.seedBelow?_isSchema made
  have step : r.graph.Step d (r.graph.attach p (r.graph.checked p seed)) := by
    refine .attach room.inside (takes _ (Graph.checked_isSchema isSchema)) room.room room.due
      (.schema holds made) ⟨fun {t} kind => ?_, fun prop => ?_⟩
    · unfold Graph.checked at kind ⊢
      split at kind
      · next hit =>
        cases kind
        exact .inl hit
      · exact absurd kind (seedBelow?_ne_circular made)
    · rw [Kind.not_isProperty_of_isSchema (Graph.checked_isSchema isSchema)] at prop
      cases prop
  unfold Graph.checked at step
  unfold attachChecked
  refine along_graph.bind fun h _ => ?_
  obtain ⟨rfl, rfl⟩ := ends_graph.mp h
  split
  · next ancestor hit =>
    rw [hit] at step
    refine along_warn.bind fun h _ => ?_
    obtain rfl := ends_warn.mp h
    exact along_attach step rfl
  · next hit =>
    rw [hit] at step
    split
    · refine (along_registry rfl rfl).bind fun h _ => ?_
      obtain rfl := Ends.modify_iff.mp h
      exact along_attach step rfl
    · exact along_attach step rfl

/-- A seed that is neither a property of its own nor closes a cycle needs no check. -/
theorem guarded_of_plain {g : Graph} {seed : Seed} (circular : ∀ t, seed.kind ≠ .circular t)
    (prop : seed.kind.isProperty = true → ∀ place, (g.node p).propAt? place = none) :
    g.Guarded p seed where
  closes kind := absurd kind (circular _)
  unrepeated isProperty _ _ _ _ here := by
    rw [prop isProperty] at here
    cases here

theorem attachPlaceholder_along (array : (r.graph.node p).kind = .array) (room : r.graph.Open p) :
    Along (Run.Advances d) (attachPlaceholder p) r := by
  have step : ∀ {names : ChildNames}, r.graph.Step d (r.graph.attach p
      { kind := .scalar .json true, name := names.name, discriminant := names.discriminant,
        scope := names.scope, schema := .object [] }) :=
    .attach room.inside (array ▸ rfl) room.room room.due
      (.closing (.inl (array ▸ rfl)) (.inr (.inl ⟨_, rfl⟩)))
      (guarded_of_plain (fun _ => Kind.noConfusion) fun prop => by cases prop)
  unfold attachPlaceholder warnMissingItems
  refine (along_pathOf.bind fun _ _ => along_warn).bind fun h _ => along_node.bind fun h' _ => ?_
  simp only [Ends.bind_iff, ends_pathOf, ends_warn] at h
  obtain ⟨_, _, ⟨rfl, rfl⟩, rfl⟩ := h
  obtain ⟨rfl, rfl⟩ := ends_node.mp h'
  exact along_attach step rfl

theorem settle_along {element : Nat → Json → Build Nat} {schema : Json}
    (inside : i < r.graph.size) (same : (r.graph.node i).schema = schema)
    (childless : (r.graph.node i).children = [])
    (ih : ∀ {s items}, s.graph = r.graph → s.graph.Open i → (s.graph.node i).kind = .array →
      s.graph.Holds d i (s.graph.node i).children.length items →
      Along (Run.Advances d) (element i items) s) :
    Along (Run.Advances d) (settle element p i schema) r := by
  have fills : ∀ {s : Run}, s.graph = r.graph →
      Along (Run.Advances d) (fillArray element i schema (r.graph.node i).kind) s := by
    intro s graph
    unfold fillArray
    split
    · next array =>
      rw [← graph] at inside same childless array
      have room : s.graph.Open i :=
        ⟨inside, fun _ => childless, fun eager => by rw [array] at eager; cases eager⟩
      split
      · next items here =>
        refine (ih graph room array (.own ?_)).discard
        rw [Document.fragmentAt?, array, same]
        exact here
      · exact (attachPlaceholder_along array room).discard
    · exact .pure _
  unfold settle
  refine along_node.bind fun h _ => along_node.bind fun h' _ => ?_
  obtain ⟨rfl, rfl⟩ := ends_node.mp h
  obtain ⟨rfl, rfl⟩ := ends_node.mp h'
  dsimp only
  split
  · exact fills rfl
  · refine (along_registry rfl rfl).bind fun h _ => fills ?_
    rw [← Ends.modify_iff.mp h]
    rfl
  · exact fills rfl

theorem fromSchemaWithin_along {depth : Nat} {schema : Json} (forest : r.graph.Forest)
    (room : r.graph.Open p)
    (takes : ∀ c : Kind, c.isSchema = true → (r.graph.node p).kind.admits c = true)
    (holds : r.graph.Holds d p (r.graph.node p).children.length schema) :
    Along (Run.Advances d) (fromSchemaWithin depth p schema) r := by
  induction depth generalizing p schema r with
  | zero => exact .throw _
  | succ depth ih =>
    rw [fromSchemaWithin]
    refine along_node.bind fun h _ => ?_
    obtain ⟨rfl, rfl⟩ := ends_node.mp h
    split
    · next pointer shape =>
      exact attachChecked_along room takes holds (by rw [Node.seedBelow?, shape])
    · next shape notRef =>
      split
      · exact along_pathOf.bind fun _ _ => .throw _
      · next kind made =>
        have seed := Node.seedBelow?_of_kind (n := r.graph.node p) notRef made
        refine (attachChecked_along room takes holds seed).bind fun {i s} h advances => ?_
        have new := node_attachChecked h room.inside
        obtain ⟨handle, graph, -⟩ := ends_attachChecked h
        have inside : i < s.graph.size := by
          rw [graph, Graph.size_attach, handle]
          exact Nat.lt_succ_self _
        refine (settle_along inside ?_ ?_ fun same room array holds => ?_).bind fun _ _ => .pure _
        · rw [new]
          exact Graph.checked_schema
        · rw [new]
          rfl
        · refine ih (same ▸ advances.forest forest) room (fun _ schema => ?_) holds
          rw [array]
          exact schema

/-- A schema is built by steps, also where it fails. -/
theorem fromSchema_along {schema : Json} (forest : r.graph.Forest) (room : r.graph.Open p)
    (takes : ∀ c : Kind, c.isSchema = true → (r.graph.node p).kind.admits c = true)
    (holds : r.graph.Holds d p (r.graph.node p).children.length schema) :
    Along (Run.Advances d) (fromSchema p schema) r :=
  fromSchemaWithin_along forest room takes holds

/-! ## Properties -/

end Build

/-- The references that were followed on the way to an element, and where. -/
structure Graph.Traces (g : Graph) (p : Nat) (followed : List (String × Nat)) : Prop where
  above : ∀ {pointer a}, followed.lookup pointer = some a →
    a ∈ p :: g.ancestors p ∧ (g.node a).kind.isArray = true
  covers : ∀ {a pointer}, a ∈ g.elementsAbove p → g.pointerAt? a = some pointer →
    followed.lookup pointer ≠ none

/-- Above what is no property there is nothing to trace. -/
theorem Graph.Traces.nil {g : Graph} (other : (g.node p).isProperty = false) : g.Traces p [] where
  above found := by cases found
  covers mem := by
    rw [elementsAbove_of_not_isProperty other] at mem
    cases mem

/-- What the element of an array property is made from is followed in turn. -/
theorem Graph.Traces.element {followed : List (String × Nat)} {prop : Nat} {name : String}
    {schema : Json} (traces : r.graph.Traces p followed) (forest : r.graph.Forest)
    (forest' : s.graph.Forest) (inside : p < r.graph.size) (made : Made d p r prop s)
    (array : ∃ required, (s.graph.node prop).kind = .property .array required)
    (here : (r.graph.node p).propAt? (r.graph.node p).children.length = some (name, schema)) :
    s.graph.Traces prop (match schema.ref? with
      | some pointer => (pointer, prop) :: followed
      | none => followed) := by
  obtain ⟨required, kind⟩ := array
  have grows := made.builds.grows
  have way : s.graph.ancestors prop = p :: r.graph.ancestors p := by
    rw [forest'.ancestors_of_child made.mem, grows.ancestors inside]
  have source : s.graph.pointerAt? prop = schema.ref? := by
    rw [Graph.pointerAt?, forest'.sourceOf?_of_last made.child, (grows.keeps inside).propAt?, here]
    rfl
  have elements : s.graph.elementsAbove prop = prop :: r.graph.elementsAbove p := by
    rw [forest'.elementsAbove_of_child made.mem (by rw [Node.isProperty, kind]; rfl),
      grows.toExtends.elementsAbove inside]
  have old : ∀ {pointer a}, followed.lookup pointer = some a →
      a ∈ prop :: s.graph.ancestors prop ∧ (s.graph.node a).kind.isArray = true := by
    intro pointer a found
    obtain ⟨above, array⟩ := traces.above found
    have lt : a < r.graph.size := by
      rcases List.mem_cons.mp above with rfl | above
      · exact inside
      · exact (Graph.lt_of_mem_ancestors above).trans inside
    rw [way, grows.kind lt]
    exact ⟨List.mem_cons_of_mem _ above, array⟩
  have covered : ∀ {a pointer}, a ∈ r.graph.elementsAbove p →
      s.graph.pointerAt? a = some pointer → followed.lookup pointer ≠ none := by
    intro a pointer mem at_
    have above := (Graph.mem_elementsAbove mem).1
    have lt : a < r.graph.size := by
      rcases List.mem_cons.mp above with rfl | above
      · exact inside
      · exact (Graph.lt_of_mem_ancestors above).trans inside
    rw [grows.toExtends.pointerAt? forest lt] at at_
    exact traces.covers mem at_
  constructor
  · intro pointer a found
    split at found
    · next own ref =>
      rw [List.lookup_cons] at found
      split at found
      · cases found
        exact ⟨List.mem_cons_self, by rw [kind]; rfl⟩
      · exact old found
    · exact old found
  · intro a pointer mem at_
    rw [elements] at mem
    rcases List.mem_cons.mp mem with rfl | mem
    · rw [source] at at_
      rw [at_, List.lookup_cons, beq_self_eq_true]
      exact Option.some_ne_none _
    · have found := covered mem at_
      split
      · rw [List.lookup_cons]
        split
        · exact Option.some_ne_none _
        · exact found
      · exact found

namespace Build

/-- The leaf below a property that was just made to close a cycle. -/
theorem step_of_closing {g : Graph} {outer inner : Seed} {ancestor : Nat} (inside : p < g.size)
    (kind : outer.kind = .property .circular false) (leaf : inner.kind = .circular ancestor)
    (above : ancestor ∈ p :: g.ancestors p) (array : (g.node ancestor).kind.isArray = true)
    (named : inner.discriminant = g.idAt ancestor) :
    (g.attach p outer).Step d ((g.attach p outer).attach g.size inner) := by
  have new := Graph.node_attach_size (s := outer) inside
  have same : ((g.attach p outer).node g.size).kind = .property .circular false := new ▸ kind
  have lt : ancestor < g.size := by
    rcases List.mem_cons.mp above with rfl | above
    · exact inside
    · exact (Graph.lt_of_mem_ancestors above).trans inside
  have grows : g.Grows {p} (g.attach p outer) := .attach
  have way : (g.attach p outer).ancestors g.size = p :: g.ancestors p := by
    rw [Graph.ancestors_of_parent (p := p) (new ▸ rfl) inside, grows.ancestors inside]
  refine .attach ?_ ?_ ?_ ?_ (.closing (.inr ?_) (.inl ?_)) ⟨fun circular => ?_, fun prop => ?_⟩
  · rw [Graph.size_attach]
    exact Nat.lt_succ_self _
  · rw [same, leaf]
    rfl
  · exact fun _ => new ▸ rfl
  · rw [same]
    exact fun eager => absurd eager Bool.noConfusion
  · rw [same]
    rfl
  · rw [leaf]
    rfl
  · rw [leaf] at circular
    cases circular
    refine .inr ⟨?_, ?_, ?_⟩
    · rw [way]
      exact List.mem_cons_of_mem _ above
    · rw [grows.kind lt]
      exact array
    · rw [grows.idAt lt, named]
  · rw [leaf] at prop
    cases prop

theorem circularElement_along {name : String} {schema : Json} {ancestor : Nat}
    (room : r.graph.Open p) (array : (r.graph.node p).kind.isArray = true)
    (takes : ∀ c : Kind, c.isProperty = true → (r.graph.node p).kind.admits c = true)
    (above : ancestor ∈ p :: r.graph.ancestors p)
    (steady : (r.graph.node ancestor).kind.isArray = true) :
    Along (Run.Advances d) (circularElement p name schema ancestor) r := by
  have step : ∀ {seed : Seed}, seed.kind = .property .circular false →
      r.graph.Step d (r.graph.attach p seed) := fun {seed} kind => by
    refine .attach room.inside (takes _ (by rw [kind]; rfl)) room.room room.due
      (.closing (.inl array) (.inl (by rw [kind]; rfl))) ⟨fun circular => ?_, fun _ other => ?_⟩
    · rw [kind] at circular
      cases circular
    · rw [kind] at other
      cases other
  unfold circularElement
  refine along_graph.bind fun h _ => along_warn.bind fun h' _ => ?_
  obtain ⟨rfl, rfl⟩ := ends_graph.mp h
  obtain rfl := ends_warn.mp h'
  refine Along.bind ?_ fun h _ => Along.bind ?_ fun _ _ => .pure _
  · exact along_attach (step rfl) rfl
  · obtain ⟨rfl, rfl⟩ := ends_attach.mp h
    refine Along.discard ?_
    exact along_attach (step_of_closing room.inside rfl rfl above steady rfl) rfl

theorem placeholderElement_along {name : String} {required : Bool} (room : r.graph.Open p)
    (kind : (r.graph.node p).kind = .property .array required)
    (bare : itemsOf? (r.graph.node p).schema = none) :
    Along (Run.Advances d) (placeholderElement p name) r := by
  have step : ∀ {seed : Seed}, seed.kind = .property (.scalar .json true) false →
      r.graph.Step d (r.graph.attach p seed) := fun {seed} scalar =>
    .attach room.inside (by rw [kind, scalar]; rfl) room.room room.due
      (.closing (.inl (kind ▸ rfl)) (.inr (.inr ⟨_, _, scalar⟩)))
      (guarded_of_plain (by rw [scalar]; exact fun _ => Kind.noConfusion) fun _ place => by
        rw [Node.propAt?, kind, bare]
        rfl)
  unfold placeholderElement warnMissingItems
  refine (along_pathOf.bind fun _ _ => along_warn).bind fun h _ => along_node.bind fun h' _ => ?_
  simp only [Ends.bind_iff, ends_pathOf, ends_warn] at h
  obtain ⟨_, _, ⟨rfl, rfl⟩, rfl⟩ := h
  obtain ⟨rfl, rfl⟩ := ends_node.mp h'
  refine Along.discard ?_
  exact along_attach (step rfl) rfl

theorem wrapSchema_along {schema : Json} {shape : PropShape} {required : Bool}
    (forest : r.graph.Forest) (room : r.graph.Open p)
    (kind : (r.graph.node p).kind = .property shape required) (wraps : shape.isWrapper = true)
    (takes : ∀ c : Kind, c.isSchema = true → (r.graph.node p).kind.admits c = true)
    (holds : r.graph.Holds d p (r.graph.node p).children.length schema) :
    Along (Run.Advances d) (wrapSchema p schema required) r := by
  unfold wrapSchema
  refine (fromSchema_along forest room takes holds).bind fun {child s} h _ =>
    along_node.bind fun h' _ => ?_
  obtain ⟨rfl, rfl⟩ := ends_node.mp h'
  split
  · next circular =>
    obtain ⟨made, -⟩ := fromSchema_made h forest room takes holds
    refine along_modifyNode (.turn ((made.builds.grows.kind room.inside).trans kind) wraps ?_)
    intro c hc
    rw [made.child, room.room (kind ▸ rfl), List.nil_append] at hc
    rw [List.mem_singleton.mp hc, circular]
    rfl
  · exact .pure _

theorem propWithin_along {depth : Nat} {name : String} {schema : Json} {required : Bool}
    {followed : List (String × Nat)} (forest : r.graph.Forest) (room : r.graph.Open p)
    (takes : ∀ c : Kind, c.isProperty = true → (r.graph.node p).kind.admits c = true)
    (here : (r.graph.node p).propAt? (r.graph.node p).children.length = some (name, schema))
    (element : followed ≠ [] → (r.graph.node p).kind.isArray = true)
    (traces : r.graph.Traces p followed) :
    Along (Run.Advances d) (propWithin d depth p name schema required followed) r := by
  induction depth generalizing p name schema required followed r with
  | zero => exact .throw _
  | succ depth ih =>
    rw [propWithin]
    split
    · next ancestor hit =>
      obtain ⟨pointer, -, found⟩ := Option.bind_eq_some_iff.mp hit
      obtain ⟨above, steady⟩ := traces.above found
      refine circularElement_along room (element ?_) takes above steady
      rintro rfl
      cases found
    · next miss =>
      refine along_node.bind fun h _ => ?_
      obtain ⟨rfl, rfl⟩ := ends_node.mp h
      refine along_decisive.bind fun {fragment _} decided _ => ?_
      obtain ⟨decides, rfl⟩ := ends_decisive decided
      have step : r.graph.Guarded p
          { kind := .property (propShapeOf (Shape.ofSchema fragment)) required, name,
            discriminant := name,
            scope := if (r.graph.node p).isProperty then (r.graph.node p).scope ++ "[]"
              else (r.graph.node p).scope ++ "." ++ name,
            schema := fragment } := by
        refine ⟨fun kind => (by cases kind),
          fun _ _ {name' schema' pointer} here' ref a mem at_ => ?_⟩
        rw [here] at here'
        cases here'
        rw [ref, Option.bind_some] at miss
        exact traces.covers mem at_ miss
      refine (along_attach (.attach room.inside (takes _ rfl) room.room room.due
        (.prop here decides) step) rfl).bind fun {prop t} attached advances => ?_
      have budded := attach_budded attached forest room takes here decides
      split
      · exact (Along.pure ()).bind fun _ _ => .pure _
      · exact (Along.pure ()).bind fun _ _ => .pure _
      · next array =>
        split
        · next items found =>
          refine (ih budded.forest budded.opens ?_ (budded.element array found) ?_ ?_).discard.bind
            fun _ _ => .pure _
          · rw [budded.kind, array]
            exact fun _ => id
          · rw [budded.kind, array]
            exact fun _ => rfl
          · exact traces.element forest budded.forest room.inside budded.made
              ⟨_, budded.kind.trans (by rw [array])⟩ here
        · next none =>
          refine (placeholderElement_along budded.opens (array ▸ budded.kind) ?_).bind
            fun _ _ => .pure _
          rw [budded.made_of]
          exact none
      all_goals
        next shape =>
        refine (wrapSchema_along budded.forest budded.opens budded.kind (shape ▸ rfl) ?_
          budded.holds).bind fun _ _ => .pure _
        rw [budded.kind, shape]
        exact fun _ => id

/-- A property is built by steps, also where it fails. -/
theorem fromProp_along {name : String} {schema : Json} {required : Bool} (forest : r.graph.Forest)
    (room : r.graph.Open p) (object : (r.graph.node p).kind.tag = .object)
    (takes : ∀ c : Kind, c.isProperty = true → (r.graph.node p).kind.admits c = true)
    (here : (r.graph.node p).propAt? (r.graph.node p).children.length = some (name, schema)) :
    Along (Run.Advances d) (fromProp d p name schema required) r := by
  refine Along.get.bind fun h _ => ?_
  obtain ⟨rfl, rfl⟩ := Ends.get_iff.mp h
  refine propWithin_along forest room takes here (fun e => absurd rfl e) (.nil ?_)
  rw [Node.isProperty, Kind.isProperty, object]
  rfl

/-! ## Visits -/

section Kinds

variable {visitChild : Nat → Build Unit}
  (visits : ∀ {c s t u}, Ends (visitChild c) s u t → s.graph.Forest → s.VisitsAt d c t)
  (comes : ∀ {c s}, s.graph.Forest → Along (Run.Advances d) (visitChild c) s)

include comes

theorem attachPart_along {part : Seed} (forest : r.graph.Forest) (room : r.graph.Open i)
    (admits : (r.graph.node i).kind.admits part.kind = true)
    (tag : (r.graph.node i).kind.tag = .operation)
    (single : part.kind.tag.isSingle = true → r.graph.Lacks i part.kind.tag)
    (offered : d.Offers (r.graph.node i) part.schema) (same : s.graph = r.graph) :
    Along (Run.Advances d) (attach i part >>= visitChild) s := by
  have plain : (∀ t, part.kind ≠ .circular t) ∧ part.kind.isProperty = false := by
    cases parent : (r.graph.node i).kind <;> rw [parent] at tag admits <;> cases tag
    cases kind : part.kind <;> rw [kind] at admits <;>
      first | exact ⟨fun _ => Kind.noConfusion, rfl⟩ | cases admits
  have guarded : r.graph.Guarded i part := guarded_of_plain plain.1 fun prop => by
    rw [plain.2] at prop
    cases prop
  refine (along_attach (.attach room.inside admits room.room room.due (.part tag single offered)
    guarded) same).bind fun _ advances => comes (advances.forest ?_)
  rwa [same]

theorem visitParameter_along {operation : String} {param : Json} (forest : r.graph.Forest)
    (room : r.graph.Open i) (tag : (r.graph.node i).kind.tag = .operation)
    (offered : d.Offers (r.graph.node i) param) :
    Along (Run.Advances d) (visitParameter visitChild i operation param) r := by
  unfold visitParameter
  dsimp only
  split
  · exact .pure _
  · exact attachPart_along comes forest room (Kind.admits_part tag (.inl rfl)) tag
      (fun single => by cases single) offered rfl

theorem visitRequest_along {operation path : String} {raw : Json} (forest : r.graph.Forest)
    (room : r.graph.Open i) (tag : (r.graph.node i).kind.tag = .operation)
    (awaits : r.graph.AwaitsAt i .body) (offered : d.Offers (r.graph.node i) raw) :
    Along (Run.Advances d) (visitRequest d visitChild i operation path raw) r := by
  refine along_deref.bind fun h _ => ?_
  obtain ⟨rfl, leads⟩ := ends_deref h
  split
  · exact .pure _
  · next schema found =>
    exact attachPart_along comes forest room (Kind.admits_part tag (.inr (.inl rfl))) tag
      (fun _ => awaits.2) ((offered.follow leads).inside (Media.within_of_schema? found)) rfl

theorem visitResponse_along {operation path : String} {responses : Json} (forest : r.graph.Forest)
    (room : r.graph.Open i) (tag : (r.graph.node i).kind.tag = .operation)
    (awaits : r.graph.AwaitsAt i .response)
    (offered : ∀ {status j}, responses.get? status = some j → d.Offers (r.graph.node i) j) :
    Along (Run.Advances d) (visitResponse d visitChild i operation path responses) r := by
  refine along_chosenResponse.bind fun {chosen s} h _ => ?_
  obtain ⟨rfl, found⟩ := ends_chosenResponse h
  have enters : ∀ {part : Seed} {s : Run}, part.kind.tag = .response →
      d.Offers (r.graph.node i) part.schema → s.graph = r.graph →
      Along (Run.Advances d) (attach i part >>= visitChild) s := fun response offered same =>
    attachPart_along comes forest room (Kind.admits_part tag (.inr (.inr response))) tag
      (fun _ => response ▸ awaits.2) offered same
  cases chosen with
  | some x =>
    refine enters ?_ ?_ rfl
    · rfl
    · rcases found x rfl with ⟨_, response, got, inside⟩ | root
      · exact (offered got).inside inside
      · exact .of_root root
  | none =>
    refine along_warn.bind fun h _ => ?_
    obtain rfl := ends_warn.mp h
    refine enters ?_ ?_ rfl
    · rfl
    · exact .synthetic

theorem enterSchema_along {schema : Json} (forest : r.graph.Forest) (room : r.graph.Open i)
    (takes : ∀ c : Kind, c.isSchema = true → (r.graph.node i).kind.admits c = true)
    (holds : r.graph.Holds d i (r.graph.node i).children.length schema) :
    Along (Run.Advances d) (enterSchema visitChild i schema) r :=
  (fromSchema_along forest room takes holds).bind fun _ advances => comes (advances.forest forest)

include visits

theorem visitOperation_along {method : Method} {shared : List Json} (forest : r.graph.Forest)
    (room : r.graph.Open i) (tag : (r.graph.node i).kind.tag = .operation)
    (childless : (r.graph.node i).children = [])
    (own : (r.graph.node i).kind.shared = shared) :
    Along (Run.Advances d) (visitOperation d visitChild i method shared) r := by
  have lt := room.inside
  have kept : ∀ {s j}, r.Inside d i s → d.Offers (r.graph.node i) j → d.Offers (s.graph.node i) j :=
    fun steps offered => offered.keep (steps.grows.keeps lt)
  have later : ∀ {s}, r.Inside d i s →
      s.graph.Forest ∧ s.graph.Open i ∧ (s.graph.node i).kind.tag = .operation := fun steps =>
    ⟨steps.forest forest, room.after (Kind.not_isNarrow_of_operation tag) steps.grows,
      (steps.grows.keeps room.inside).kind.tag.trans tag⟩
  have awaits : ∀ tag, r.graph.AwaitsAt i tag := fun tag => by
    constructor <;> intro c child <;> rw [childless] at child <;> cases child
  refine along_node.bind fun h _ => along_pathOf.bind fun h' _ =>
    along_mergeParameters.bind fun {params s} h'' _ => ?_
  obtain ⟨rfl, rfl⟩ := ends_node.mp h
  obtain ⟨rfl, rfl⟩ := ends_pathOf.mp h'
  obtain ⟨rfl, offered⟩ := ends_mergeParameters (n := r.graph.node i) h'' fun _ => .of_declared own
  let I : Nat → Run → Prop := fun _ s => r.Inside d i s ∧ ∀ tag ≠ .param, s.graph.AwaitsAt i tag
  have start : I 0 r := ⟨.refl d i r, fun tag _ => awaits tag⟩
  have next : ∀ {k param s t}, params[k]? = some param → I k s →
      Ends (visitParameter visitChild i (r.graph.node i).name param) s ⟨⟩ t → I (k + 1) t := by
    intro k param s t at_ ⟨inside, awaits⟩ h
    obtain ⟨forest, room, tag⟩ := later inside
    obtain ⟨step, waits⟩ := visitParameter_inside visits h forest room tag
      (kept inside (offered _ (List.mem_of_getElem? at_)))
    exact ⟨inside.trans step lt, fun tag other => waits tag other (awaits tag other)⟩
  refine (Along.forM_counts (I := I) (fun at_ before => ?_) next start).bind fun looped _ => ?_
  · obtain ⟨forest, room, tag⟩ := later before.1
    exact visitParameter_along comes forest room tag
      (kept before.1 (offered _ (List.mem_of_getElem? at_)))
  have params := Ends.forM_counts (I := I) next start looped
  have answers : ∀ {v}, r.Inside d i v → v.graph.AwaitsAt i .response →
      Along (Run.Advances d) (visitResponse d visitChild i (r.graph.node i).name
        (r.graph.pathOf i) (((r.graph.node i).schema.get? "responses").getD .null)) v := by
    intro v inside awaits
    obtain ⟨forest, room, tag⟩ := later inside
    refine visitResponse_along comes forest room tag awaits fun got =>
      kept inside (.of_response got)
  have silent := answers params.1 (params.2 .response Tag.noConfusion)
  split
  · next raw found =>
    split
    · obtain ⟨forest, room, tag⟩ := later params.1
      have asked := kept params.1 (.of_schema (Json.within_of_get? found))
      have waiting := params.2 .body Tag.noConfusion
      refine (visitRequest_along comes forest room tag waiting asked).bind fun h _ => ?_
      obtain ⟨step, waits⟩ := visitRequest_inside visits h forest room tag waiting asked
      exact answers (params.1.trans step lt)
        (waits .response Tag.noConfusion (params.2 .response Tag.noConfusion))
    · exact silent
  · exact silent

theorem visitBranches_along {keys : List String} (forest : r.graph.Forest) (room : r.graph.Open i)
    (visited : (r.graph.node i).visited = true) (childless : (r.graph.node i).children = [])
    (composition : (r.graph.node i).kind.isComposition = true)
    (fragments : ∀ place, d.fragmentAt? (r.graph.node i) place =
      (branchesOf (r.graph.node i).schema keys)[place]?) :
    Along (Run.Advances d) (visitBranches visitChild i keys) r := by
  have wide : (r.graph.node i).kind.isNarrow = false := Kind.not_isNarrow_of_composition composition
  refine along_node.bind fun h _ => ?_
  obtain ⟨rfl, rfl⟩ := ends_node.mp h
  -- what a round finds when so many branches were entered before it
  have ready : ∀ {place schema s}, (branchesOf (r.graph.node i).schema keys)[place]? = some schema →
      r.Inside d i s → (s.graph.node i).children.length = place → s.graph.Open i ∧
        (∀ c : Kind, c.isSchema = true → (s.graph.node i).kind.admits c = true) ∧
        s.graph.Holds d i (s.graph.node i).children.length schema := by
    rintro place schema s here inside rfl
    have keeps := inside.grows.keeps room.inside
    refine ⟨room.after wide inside.grows, fun c schema => ?_, .own ?_⟩
    · rw [keeps.kind.eq_of_not_isProperty (Kind.not_isProperty_of_composition composition)]
      exact Kind.admits_of_composition composition schema
    · rw [keeps.fragmentAt?, fragments, here]
  refine Along.forM_counts
    (I := fun k s => r.Inside d i s ∧ (s.graph.node i).children.length = k) ?_ ?_ ?_
  · rintro place schema s here ⟨inside, length⟩
    obtain ⟨room, takes, holds⟩ := ready here inside length
    exact enterSchema_along comes (inside.forest forest) room takes holds
  · rintro place schema s t here ⟨inside, rfl⟩ h
    obtain ⟨room', takes, holds⟩ := ready here inside rfl
    have keeps := inside.grows.keeps room.inside
    have entered := enterSchema_inside visits h (inside.forest forest) room' (keeps.visited visited)
      takes holds
    exact ⟨inside.trans entered.1 room.inside, entered.2⟩
  · exact ⟨.refl d i r, by rw [childless]; rfl⟩

end Kinds

theorem visitObject_along (forest : r.graph.Forest) (room : r.graph.Open i)
    (childless : (r.graph.node i).children = []) {synthetic : Bool}
    (object : (r.graph.node i).kind = .object synthetic) :
    Along (Run.Advances d) (visitObject d i) r := by
  have wide : (r.graph.node i).kind.isNarrow = false := by rw [object]; rfl
  have lt := room.inside
  refine along_node.bind fun h _ => ?_
  obtain ⟨rfl, rfl⟩ := ends_node.mp h
  -- what a round finds when so many properties were made before it
  have ready : ∀ {place name schema s},
      (sortedProperties (r.graph.node i).schema)[place]? = some (name, schema) → r.Inside d i s →
      (s.graph.node i).children.length = place →
      s.graph.Open i ∧ (s.graph.node i).kind = .object synthetic ∧
        (s.graph.node i).propAt? (s.graph.node i).children.length = some (name, schema) := by
    rintro place name schema s here inside rfl
    refine ⟨room.after wide inside.grows, (inside.grows.kind lt).trans object, ?_⟩
    rw [(inside.grows.keeps lt).propAt?, Node.propAt?, object, ← here]
  refine Along.forM_counts
    (I := fun k s => (s.graph.node i).children.length = k ∧ r.Inside d i s) ?_ ?_ ?_
  · rintro place ⟨name, schema⟩ s here ⟨length, inside⟩
    obtain ⟨room, object, here⟩ := ready here inside length
    have forest := inside.forest forest
    refine (fromProp_along forest room (by rw [object]; rfl) (by rw [object]; exact fun _ => id)
      here).bind fun {prop v} h _ => along_modifyNode ?_
    obtain ⟨made, named, -⟩ := fromProp_made h forest room (by rw [object]; exact fun _ => id) here
    refine .field ?_ made.mem ?_ named
    · rw [made.builds.grows.kind room.inside, object]
      rfl
    · have admits := (made.builds.forest forest).admits made.mem
      rwa [made.builds.grows.kind room.inside, object] at admits
  · rintro place ⟨name, schema⟩ s t here ⟨rfl, inside⟩ h
    simp only [Ends.bind_iff, ends_modifyNode] at h
    obtain ⟨prop, v, h, rfl⟩ := h
    obtain ⟨room, object, here⟩ := ready here inside rfl
    obtain ⟨-, entered, -, length⟩ := fromProp_inside h (inside.forest forest) room object here
    exact ⟨length, inside.trans entered lt⟩
  · exact ⟨by rw [childless]; rfl, .refl d i r⟩

theorem visitKind_along {visitChild : Nat → Build Unit}
    (visits : ∀ {c s t u}, Ends (visitChild c) s u t → s.graph.Forest → s.VisitsAt d c t)
    (comes : ∀ {c s}, s.graph.Forest → Along (Run.Advances d) (visitChild c) s)
    (forest : r.graph.Forest) (inside : i < r.graph.size)
    (visited : (r.graph.node i).visited = true)
    (late : (r.graph.node i).kind.isEager = false → (r.graph.node i).children = []) :
    Along (Run.Advances d) (visitKind d visitChild i (r.graph.node i).kind) r := by
  have narrow : (r.graph.node i).kind.isEager = false → r.graph.Open i := fun eager =>
    ⟨inside, fun _ => late eager, fun _ => visited⟩
  have single : ∀ {schema : Json}, (r.graph.node i).kind.isEager = false →
      (∀ c : Kind, c.isSchema = true → (r.graph.node i).kind.admits c = true) →
      d.fragmentAt? (r.graph.node i) (r.graph.node i).children.length = some schema →
      Along (Run.Advances d) (enterSchema visitChild i schema) r := fun eager takes here =>
    enterSchema_along comes forest (narrow eager) takes (.own here)
  cases kind : (r.graph.node i).kind <;> rw [kind] at narrow late single
  case operation =>
    exact visitOperation_along visits comes forest (narrow rfl) (by rw [kind]; rfl) (late rfl)
      (by rw [kind]; rfl)
  case param =>
    refine along_node.bind fun h _ => ?_
    obtain ⟨rfl, rfl⟩ := ends_node.mp h
    refine single rfl (fun _ => id) ?_
    unfold Document.fragmentAt?
    exact kind ▸ rfl
  case body | response =>
    refine along_node.bind fun h _ => ?_
    obtain ⟨rfl, rfl⟩ := ends_node.mp h
    exact single rfl (fun _ => id) (by rw [Document.fragmentAt?, kind])
  case reference pointer =>
    refine along_pathOf.bind fun h _ => (Along.liftExcept _).bind fun h' _ => ?_
    obtain ⟨rfl, rfl⟩ := ends_pathOf.mp h
    obtain ⟨found, rfl⟩ := Ends.liftExcept_iff.mp h'
    refine single rfl (fun _ => id) ?_
    rw [Document.fragmentAt?, kind]
    exact Document.lookup?_of_component found
  case object synthetic => exact visitObject_along forest (narrow rfl) (late rfl) kind
  case composed | union =>
    exact visitBranches_along visits comes forest (narrow rfl) visited (late rfl) (kind ▸ rfl)
      fun place => by rw [Document.fragmentAt?, kind]
  case array | property =>
    refine along_node.bind fun h _ => ?_
    obtain ⟨rfl, rfl⟩ := ends_node.mp h
    exact Along.forM fun _ advances => comes (advances.forest forest)
  case scalar | enum | circular => exact .pure _

/-- A visit is made of steps, at any depth. -/
theorem visitWithin_along {depth : Nat} (forest : r.graph.Forest) :
    Along (Run.Advances d) (visitWithin d depth i) r := by
  induction depth generalizing i r with
  | zero => exact .throw _
  | succ depth ih =>
    rw [visitWithin]
    refine along_node.bind fun h _ => ?_
    obtain ⟨rfl, rfl⟩ := ends_node.mp h
    split
    · exact .pure _
    · next fresh =>
      have fresh := Bool.eq_false_iff.mpr fresh
      have inside := Graph.lt_size_of_not_visited fresh
      refine (along_modifyNode (.visit inside)).bind fun h advances => ?_
      obtain rfl := ends_modifyNode.mp h
      refine along_framed ?_ fun later => ⟨later.steps, later.extent⟩
      have along : Along (Run.Advances d)
          (visitKind d (visitWithin d depth) i ((r.visiting i).graph.node i).kind)
            (r.visiting i) := by
        refine visitKind_along visitWithin_steps ih (Run.forest_visiting forest inside)
          (inside.trans_eq Run.size_visiting.symm) ?_ ?_
        · rw [Run.node_visiting inside]
        · rw [Run.kind_visiting, Run.children_visiting]
          exact fun eager => forest.late eager fresh
      rwa [Run.kind_visiting] at along

/-- **A visit is made of steps, also where it fails.** -/
theorem visit_along (forest : r.graph.Forest) : Along (Run.Advances d) (visit d i) r :=
  Along.get.bind fun h _ => by
    obtain ⟨rfl, rfl⟩ := Ends.get_iff.mp h
    exact visitWithin_along forest

end Build

end RestGraph
