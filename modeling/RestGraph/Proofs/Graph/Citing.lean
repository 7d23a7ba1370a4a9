import RestGraph.Proofs.Graph.Bounds
import RestGraph.Proofs.Run.Outcomes

/-!
# Cited components

Every reference that a step follows is cited by a fragment, and every fragment was found in the
description or is made up of such. Where a step fails for a reference, the description cites it and
has no component for it.
-/

namespace RestGraph

variable {α β : Type} {d : Document} {ptrs : List String} {r : Run} {i p : Nat} {schema : Json}

/-- All references in the fragment are among those given. -/
def Json.Cites (ptrs : List String) (j : Json) : Prop := j.everywhere (isKnown ptrs) = true

namespace Json.Cites

variable {j x : Json}

/-- What is inside a fragment cites what the fragment cites. -/
theorem inside (cites : j.Cites ptrs) (inside : x.Within j) : x.Cites ptrs :=
  everywhere_within cites inside

/-- A reference cites its pointer. -/
theorem pointer (cites : j.Cites ptrs) {pointer : String} (ref : j.ref? = some pointer) :
    pointer ∈ ptrs := everywhere_isKnown.mp cites (ref?_mem_pointers ref)

/-- The branches of a fragment cite what the fragment cites. -/
theorem branch (cites : j.Cites ptrs) {keys : List String} (mem : x ∈ branchesOf j keys) :
    x.Cites ptrs := (passesMade_isKnown ptrs).of_mem_branchesOf cites mem

end Json.Cites

structure Kind.Cites (ptrs : List String) (k : Kind) : Prop where
  shared : ∀ j ∈ k.shared, j.Cites ptrs
  pointer : ∀ {pointer}, k = .reference pointer → pointer ∈ ptrs

/-- A kind made for a shape shares no fragments. -/
theorem Kind.cites_of_shape {shape : Shape} {k : Kind} (made : Build.kindOfShape? shape = some k) :
    k.Cites ptrs := by
  cases shape <;> cases made <;> exact ⟨nofun, nofun⟩

/-- A property shares no fragments. -/
theorem Kind.cites_property {shape : PropShape} {required : Bool} :
    (Kind.property shape required).Cites ptrs :=
  ⟨fun _ mem => absurd mem List.not_mem_nil, fun same => Kind.noConfusion same⟩

structure Node.Cites (ptrs : List String) (n : Node) : Prop where
  schema : n.schema.Cites ptrs
  kind : n.kind.Cites ptrs

/-- All references in the graph are among those given. -/
def Run.Cites (ptrs : List String) (r : Run) : Prop := ∀ i, (r.graph.node i).Cites ptrs

/-- A modification may cite what its node cites. -/
theorem Run.Cites.modify (cites : r.Cites ptrs) {f : Node → Node}
    (keeps : ∀ n, n.Cites ptrs → (f n).Cites ptrs) :
    (r.onGraph fun g => g.modify i f).Cites ptrs := fun k => by
  change ((r.graph.modify i f).node k).Cites ptrs
  by_cases inside : i < r.graph.size
  · rw [Graph.node_modify inside]
    split
    · exact keeps _ (cites i)
    · exact cites k
  · rw [Graph.modify_of_size_le (Nat.le_of_not_lt inside)]
    exact cites k

/-- Where the fault is a reference, it is among those given and leads to no component. -/
def Fault.Misses (d : Document) (ptrs : List String) (e : Fault) : Prop :=
  ∀ {pointer path}, e = .reference pointer path → pointer ∈ ptrs ∧ d.lookup? pointer = none

/-- The step cites nothing but the references given when the run does not: in what it leaves behind
and in what it answers, which passes `good`, or else in what it fails for. -/
def Build.Follows (d : Document) (ptrs : List String) (m : Build α) (good : α → Prop) : Prop :=
  ∀ r : Run, r.Cites ptrs → (m.run r).2.Cites ptrs ∧
    match (m.run r).1 with
    | .ok a => good a
    | .error e => e.Misses d ptrs

namespace Build

namespace Follows

variable {m : Build α} {good : α → Prop} {good' : β → Prop}

theorem pure {a : α} (h : good a) : Follows d ptrs (pure a : Build α) good :=
  fun _ cites => ⟨cites, h⟩

/-- A computation may fail where a cited pointer misses. -/
theorem throw {e : Fault} (misses : e.Misses d ptrs) : Follows d ptrs (throw e : Build α) good :=
  fun _ cites => ⟨cites, misses⟩

theorem get : Follows d ptrs (get : Build Run) (Run.Cites ptrs) := fun _ cites => ⟨cites, cites⟩

/-- A computation may change the run when it cites nothing new. -/
theorem modify {f : Run → Run} (keeps : ∀ r, r.Cites ptrs → (f r).Cites ptrs) :
    Follows d ptrs (modify f : Build PUnit) fun _ => True := fun r cites => ⟨keeps r cites, trivial⟩

/-- A bind follows citations when both its stages do. -/
theorem bind {f : α → Build β} (first : Follows d ptrs m good)
    (second : ∀ a, good a → Follows d ptrs (f a) good') : Follows d ptrs (m >>= f) good' := by
  intro r cites
  have here := first r cites
  rw [Ends.run_bind]
  rcases run : m.run r with ⟨e | a, s⟩ <;> rw [run] at here
  · exact here
  · exact second a here.2 s here.1

/-- What is known of the answer may be weakened. -/
theorem mono {good' : α → Prop} (follows : Follows d ptrs m good) (weaker : ∀ a, good a → good' a) :
    Follows d ptrs m good' := by
  intro r cites
  have here := follows r cites
  rcases run : m.run r with ⟨e | a, s⟩ <;> rw [run] at here
  · exact here
  · exact ⟨here.1, weaker a here.2⟩

theorem discard (follows : Follows d ptrs m good) :
    Follows d ptrs (discard m) fun _ => True := by
  change Follows d ptrs ((fun _ => PUnit.unit) <$> m) _
  rw [← bind_pure_comp]
  exact follows.bind fun _ _ => .pure trivial

theorem liftExcept {x : Except Fault α} (ok : ∀ {a}, x = .ok a → good a)
    (error : ∀ {e}, x = .error e → e.Misses d ptrs) :
    Follows d ptrs (liftExcept x : Build α) good := by
  cases x with
  | error e => exact .throw (error rfl)
  | ok a => exact .pure (ok rfl)

/-- A loop follows citations when every round does. -/
theorem forM {f : α → Build PUnit} {xs : List α}
    (round : ∀ x ∈ xs, Follows d ptrs (f x) fun _ => True) :
    Follows d ptrs (xs.forM f) fun _ => True := by
  induction xs with
  | nil => exact .pure trivial
  | cons x xs ih =>
    rw [List.forM_eq_forM, List.forM_cons]
    exact (round x List.mem_cons_self).bind fun _ _ =>
      ih fun y mem => round y (List.mem_cons_of_mem x mem)

/-- A fold follows citations when every round does. -/
theorem foldlM {f : β → α → Build β} {xs : List α} {b : β} (start : good' b)
    (round : ∀ b, good' b → ∀ x ∈ xs, Follows d ptrs (f b x) good') :
    Follows d ptrs (xs.foldlM f b) good' := by
  induction xs generalizing b with
  | nil => exact .pure start
  | cons x xs ih =>
    rw [List.foldlM_cons]
    exact (round b start x List.mem_cons_self).bind fun c good =>
      ih good fun b good y mem => round b good y (List.mem_cons_of_mem x mem)

end Follows

/-! ## Nodes from fragments -/

theorem follows_graph : Follows d ptrs graph fun _ => True :=
  Follows.get.bind fun _ _ => .pure trivial

theorem follows_node : Follows d ptrs (node i) (Node.Cites ptrs) :=
  Follows.get.bind fun _ cites => .pure (cites i)

theorem follows_pathOf : Follows d ptrs (pathOf i) fun _ => True :=
  Follows.get.bind fun _ _ => .pure trivial

/-- The registries cite nothing. -/
theorem follows_registry {f : Run → Run} (graph : ∀ r, (f r).graph = r.graph) :
    Follows d ptrs (modify f : Build PUnit) fun _ => True := .modify fun r cites i => by
  rw [graph]
  exact cites i

theorem follows_warn {location message : String} {kind : WarningKind} :
    Follows d ptrs (warn location kind message) fun _ => True := follows_registry fun _ => rfl

theorem follows_attach {s : Seed} (schema : s.schema.Cites ptrs) (kind : s.kind.Cites ptrs) :
    Follows d ptrs (attach p s) fun _ => True := by
  refine Follows.get.bind fun r _ => .bind (.modify fun r cites i => ?_) fun _ _ => .pure trivial
  have schemas := Graph.schema_attach (g := r.graph) (p := p) (s := s) i
  have kinds := Graph.kind_attach (g := r.graph) (p := p) (s := s) i
  constructor
  · change ((r.graph.attach p s).node i).schema.Cites ptrs
    rw [schemas]
    split
    · exact schema
    · exact (cites i).schema
  · change ((r.graph.attach p s).node i).kind.Cites ptrs
    rw [kinds]
    split
    · exact kind
    · exact (cites i).kind

theorem follows_modifyNode {f : Node → Node} (keeps : ∀ n, n.Cites ptrs → (f n).Cites ptrs) :
    Follows d ptrs (modifyNode i f) fun _ => True := .modify fun _ cites => cites.modify keeps

theorem follows_attachChecked {s : Seed} (schema : s.schema.Cites ptrs) (kind : s.kind.Cites ptrs) :
    Follows d ptrs (attachChecked p s) fun _ => True := by
  refine follows_graph.bind fun _ _ => ?_
  split
  · exact follows_warn.bind fun _ _ => follows_attach schema ⟨nofun, nofun⟩
  · split
    · exact (follows_registry (f := Run.addRef _) fun _ => rfl).bind fun _ _ =>
        follows_attach schema kind
    · exact follows_attach schema kind

theorem follows_warnMissingItems : Follows d ptrs (warnMissingItems p) fun _ => True :=
  follows_pathOf.bind fun _ _ => follows_warn

theorem follows_attachPlaceholder : Follows d ptrs (attachPlaceholder p) fun _ => True :=
  follows_warnMissingItems.bind fun _ _ => follows_node.bind fun _ _ =>
    follows_attach rfl ⟨nofun, nofun⟩

theorem follows_settle {element : Nat → Json → Build Nat} (cites : schema.Cites ptrs)
    (each : ∀ {i j}, j.Cites ptrs → Follows d ptrs (element i j) fun _ => True) :
    Follows d ptrs (settle element p i schema) fun _ => True := by
  have filled : ∀ {k : Kind}, Follows d ptrs (fillArray element i schema k) fun _ => True := by
    intro k
    unfold fillArray
    split
    · split
      · next items found => exact (each (cites.inside (within_of_itemsOf? found))).discard
      · exact follows_attachPlaceholder.discard
    · exact .pure trivial
  unfold settle
  refine follows_node.bind fun _ _ => follows_node.bind fun _ _ => ?_
  dsimp only
  split
  · exact filled
  · exact (follows_registry (f := Run.register _ _) fun _ => rfl).bind fun _ _ => filled
  · exact filled

theorem follows_fromSchemaWithin {depth : Nat} (cites : schema.Cites ptrs) :
    Follows d ptrs (fromSchemaWithin depth p schema) fun _ => True := by
  induction depth generalizing p schema with
  | zero => exact .throw nofun
  | succ depth ih =>
    refine follows_node.bind fun _ _ => ?_
    dsimp only
    split
    · next pointer shape =>
      refine follows_attachChecked cites ⟨nofun, fun same => ?_⟩
      cases same
      exact cites.pointer (Shape.ref?_of_reference shape)
    · split
      · exact follows_pathOf.bind fun _ _ => .throw nofun
      · next made =>
        exact (follows_attachChecked cites (Kind.cites_of_shape made)).bind fun _ _ =>
          (follows_settle cites fun cites => ih cites).bind fun _ _ => .pure trivial

/-- Building a schema follows its citations. -/
theorem follows_fromSchema (cites : schema.Cites ptrs) :
    Follows d ptrs (fromSchema p schema) fun _ => True := follows_fromSchemaWithin cites

/-! ## Properties -/

variable {name : String} {required : Bool}

theorem follows_circularElement {ancestor : Nat} (cites : schema.Cites ptrs) :
    Follows d ptrs (circularElement p name schema ancestor) fun _ => True :=
  follows_graph.bind fun _ _ => follows_warn.bind fun _ _ =>
    .bind (follows_attach cites ⟨nofun, nofun⟩) fun _ _ =>
      .bind (.discard (follows_attach cites ⟨nofun, nofun⟩)) fun _ _ => .pure trivial

theorem follows_placeholderElement : Follows d ptrs (placeholderElement p name) fun _ => True :=
  follows_warnMissingItems.bind fun _ _ => follows_node.bind fun _ _ =>
    .discard (follows_attach rfl ⟨nofun, nofun⟩)

theorem follows_wrapSchema (cites : schema.Cites ptrs) :
    Follows d ptrs (wrapSchema p schema required) fun _ => True := by
  refine (follows_fromSchema cites).bind fun _ _ => follows_node.bind fun _ _ => ?_
  split
  · exact follows_modifyNode fun n cites => ⟨cites.schema, nofun, nofun⟩
  · exact .pure trivial

/-- A cited pointer that leads nowhere is a miss. -/
theorem misses_of_gap {pointer path : String} (mem : pointer ∈ ptrs)
    (lost : d.lookup? pointer = none) : (Fault.reference pointer path).Misses d ptrs := by
  intro _ _ same
  cases same
  exact ⟨mem, lost⟩

/-- A cited component that is not found is a miss. -/
theorem misses_of_component {pointer path : String} {e : Fault} (mem : pointer ∈ ptrs)
    (fails : d.component pointer path = .error e) : e.Misses d ptrs := by
  obtain ⟨lost, rfl⟩ := Document.lost_of_component fails
  exact misses_of_gap mem lost

section Root

variable (root : d.root.Cites ptrs)

include root

/-- A component that is found cites what the document cites. -/
theorem cites_of_component {pointer path : String} {target : Json}
    (found : d.component pointer path = .ok target) : target.Cites ptrs :=
  root.inside (Document.within_of_component found)

/-- A chain of references fails at a miss. -/
theorem misses_of_followFrom {path : String} {fuel : Nat} {seen : List String} {e : Fault}
    (cites : schema.Cites ptrs) (fails : d.followFrom path fuel seen schema = .error e) :
    e.Misses d ptrs := by
  induction fuel generalizing seen schema with
  | zero =>
    cases fails
    exact nofun
  | succ fuel ih =>
    cases Document.turn_of_followFrom fails with
    | value _ here | again _ _ here => cases here
    | gap ref lost fault =>
      cases fault
      exact misses_of_gap (cites.pointer ref) lost
    | next ref _ found more => exact ih (root.inside (Document.within_of_lookup? found)) more

/-- A chain of references ends at a fragment that cites what the document cites. -/
theorem cites_of_followFrom {path : String} {fuel : Nat} {seen : List String} {target : Json}
    (cites : schema.Cites ptrs) (found : d.followFrom path fuel seen schema = .ok target) :
    target.Cites ptrs := by
  rcases Document.within_of_followFrom found with rfl | inside
  · exact cites
  · exact root.inside inside

theorem follows_decisive (cites : schema.Cites ptrs) :
    Follows d ptrs (decisive d p schema) (Json.Cites ptrs) := by
  unfold decisive
  split
  · exact .pure cites
  · next pointer ref =>
    refine Follows.get.bind fun _ _ => ?_
    refine .bind (.liftExcept (cites_of_component root)
      (misses_of_component (cites.pointer ref))) fun target cites => ?_
    exact .liftExcept (cites_of_followFrom root cites) (misses_of_followFrom root cites)

theorem follows_propWithin {depth : Nat} {followed : List (String × Nat)}
    (cites : schema.Cites ptrs) :
    Follows d ptrs (propWithin d depth p name schema required followed) fun _ => True := by
  induction depth generalizing p schema required followed with
  | zero => exact .throw nofun
  | succ depth ih =>
    rw [propWithin]
    split
    · exact follows_circularElement cites
    · refine follows_node.bind fun _ _ =>
        (follows_decisive root cites).bind fun fragment decisive => ?_
      refine .bind (follows_attach decisive Kind.cites_property) fun _ _ => ?_
      split
      · exact .pure trivial
      · exact .pure trivial
      · split
        · next items found =>
          exact (ih (decisive.inside (within_of_itemsOf? found))).discard.bind fun _ _ =>
            .pure trivial
        · exact follows_placeholderElement.bind fun _ _ => .pure trivial
      all_goals exact (follows_wrapSchema cites).bind fun _ _ => .pure trivial

/-- Building a property follows its citations. -/
theorem follows_fromProp (cites : schema.Cites ptrs) :
    Follows d ptrs (fromProp d p name schema required) fun _ => True :=
  Follows.get.bind fun _ _ => follows_propWithin root cites

/-! ## Visits -/

theorem follows_deref {path : String} (cites : schema.Cites ptrs) :
    Follows d ptrs (deref d path schema) (Json.Cites ptrs) :=
  Follows.get.bind fun _ _ =>
    .liftExcept (cites_of_followFrom root cites) (misses_of_followFrom root cites)

theorem follows_mergeParameters {path : String} {raw : List Json}
    (cites : ∀ j ∈ raw, j.Cites ptrs) :
    Follows d ptrs (mergeParameters d path raw) fun params => ∀ j ∈ params, j.Cites ptrs := by
  have merged : Follows d ptrs (raw.foldlM (addParameter d path) [])
      fun params => ∀ x ∈ params, x.2.Cites ptrs := by
    refine .foldlM nofun fun params good j mem => ?_
    refine (follows_deref root (cites j mem)).bind fun param cites => ?_
    split
    · exact .pure good
    · refine .pure fun x mem => ?_
      rcases Run.mem_assign mem with rfl | old
      · exact cites
      · exact good x old
  refine merged.bind fun params good => .pure fun j mem => ?_
  obtain ⟨x, old, rfl⟩ := List.mem_map.mp mem
  exact good x old

theorem follows_chosenResponse {path : String} {responses : Json} (cites : responses.Cites ptrs) :
    Follows d ptrs (chosenResponse d path responses)
      fun chosen => ∀ x ∈ chosen, x.2.Cites ptrs := by
  unfold chosenResponse
  split
  · exact .pure nofun
  · next status _ =>
    have given : ((responses.get? status).getD .null).Cites ptrs := by
      cases got : responses.get? status with
      | none => exact rfl
      | some response => exact cites.inside (Json.within_of_get? got)
    refine (follows_deref root given).bind fun response cites => .pure fun x chosen => ?_
    obtain ⟨schema, found, rfl⟩ := Option.map_eq_some_iff.mp (Option.mem_def.mp chosen)
    exact cites.inside (Media.within_of_schema? found)

theorem follows_visitObject : Follows d ptrs (visitObject d i) fun _ => True := by
  refine follows_node.bind fun n cites => .forM fun x mem => ?_
  refine (follows_fromProp root (cites.schema.inside (within_of_mem_sortedProperties mem))).bind
    fun _ _ => follows_modifyNode fun _ cites => ⟨cites.schema, cites.kind⟩

section Kinds

variable {visitChild : Nat → Build Unit}
  (visits : ∀ i, Follows d ptrs (visitChild i) fun _ => True)

include visits

omit root in
theorem follows_visitParameter {operation : String} {param : Json} (cites : param.Cites ptrs) :
    Follows d ptrs (visitParameter visitChild i operation param) fun _ => True := by
  unfold visitParameter
  dsimp only
  split
  · exact .pure trivial
  · exact .bind (follows_attach cites ⟨nofun, nofun⟩) fun _ _ => visits _

theorem follows_visitRequest {operation path : String} {raw : Json} (cites : raw.Cites ptrs) :
    Follows d ptrs (visitRequest d visitChild i operation path raw) fun _ => True := by
  refine (follows_deref root cites).bind fun body cites => ?_
  split
  · exact .pure trivial
  · next schema found =>
    exact .bind (follows_attach (cites.inside (Media.within_of_schema? found)) ⟨nofun, nofun⟩)
      fun _ _ => visits _

theorem follows_visitResponse {operation path : String} {responses : Json}
    (cites : responses.Cites ptrs) :
    Follows d ptrs (visitResponse d visitChild i operation path responses) fun _ => True := by
  refine (follows_chosenResponse root cites).bind fun chosen good => ?_
  have answered : (chosen.getD (syntheticStatus, syntheticSchema)).2.Cites ptrs := by
    cases chosen with
    | none => exact (Json.passesMade_isKnown ptrs).response
    | some x => exact good x rfl
  dsimp only
  split
  · exact .bind (follows_attach answered ⟨nofun, nofun⟩) fun _ _ => visits _
  · exact follows_warn.bind fun _ _ =>
      .bind (follows_attach answered ⟨nofun, nofun⟩) fun _ _ => visits _

theorem follows_visitOperation {method : Method} {shared : List Json}
    (cites : ∀ j ∈ shared, j.Cites ptrs) :
    Follows d ptrs (visitOperation d visitChild i method shared) fun _ => True := by
  refine follows_node.bind fun n own => follows_pathOf.bind fun path _ => ?_
  have answered : ∀ {operation}, Follows d ptrs (visitResponse d visitChild i operation path
      ((n.schema.get? "responses").getD .null)) fun _ => True := by
    refine follows_visitResponse root visits ?_
    cases got : n.schema.get? "responses" with
    | none => exact rfl
    | some responses => exact own.schema.inside (Json.within_of_get? got)
  refine (follows_mergeParameters root fun j mem => ?_).bind fun params good => ?_
  · rcases List.mem_append.mp mem with mem | mem
    · exact cites j mem
    · exact own.schema.inside (Json.within_of_mem_listAt mem)
  · refine .bind (.forM fun param mem => follows_visitParameter visits (good param mem))
      fun _ _ => ?_
    split
    · next raw got =>
      split
      · exact (follows_visitRequest root visits (own.schema.inside (Json.within_of_get? got))).bind
          fun _ _ => answered
      · exact answered
    · exact answered

omit root in
theorem follows_enterSchema (cites : schema.Cites ptrs) :
    Follows d ptrs (enterSchema visitChild i schema) fun _ => True :=
  (follows_fromSchema cites).bind fun _ _ => visits _

theorem follows_visitKind {kind : Kind} (cites : kind.Cites ptrs) :
    Follows d ptrs (visitKind d visitChild i kind) fun _ => True := by
  have branches : ∀ {keys}, Follows d ptrs (visitBranches visitChild i keys) fun _ => True :=
    follows_node.bind fun n cites => .forM fun x mem =>
      follows_enterSchema visits (cites.schema.branch mem)
  have children : Follows d ptrs (visitChildren visitChild i) fun _ => True :=
    follows_node.bind fun _ _ => .forM fun _ _ => visits _
  have payload : Follows d ptrs (visitPayload visitChild i) fun _ => True :=
    follows_node.bind fun n cites => follows_enterSchema visits cites.schema
  cases kind with
  | operation => exact follows_visitOperation root visits cites.shared
  | param =>
    refine follows_node.bind fun n cites => follows_enterSchema visits ?_
    split
    · next got => exact cites.schema.inside (Json.within_of_get? got)
    · cases media : Media.schema? n.schema with
      | none => exact (Json.passesMade_isKnown ptrs).param
      | some schema => exact cites.schema.inside (Media.within_of_schema? media)
  | body | response => exact payload
  | reference pointer =>
    refine follows_pathOf.bind fun _ _ => ?_
    exact .bind (.liftExcept (cites_of_component root)
      (misses_of_component (cites.pointer rfl))) fun _ cites =>
        follows_enterSchema visits cites
  | object => exact follows_visitObject root
  | composed | union => exact branches
  | array | property => exact children
  | scalar | enum | circular => exact .pure trivial

end Kinds

omit root in
theorem follows_framed {step : Build Unit} {tag : Tag}
    (follows : Follows d ptrs step fun _ => True) :
    Follows d ptrs (framed i tag step) fun _ => True := by
  intro r cites
  have here := follows (r.enter i tag) cites
  rw [run_framed]
  rcases run : step.run (r.enter i tag) with ⟨e | a, s⟩ <;> rw [run] at here <;> exact here

/-- A visit follows citations, at any depth. -/
theorem follows_visitWithin {depth : Nat} :
    Follows d ptrs (visitWithin d depth i) fun _ => True := by
  induction depth generalizing i with
  | zero => exact .throw nofun
  | succ depth ih =>
    refine follows_node.bind fun n cites => ?_
    split
    · exact .pure trivial
    · refine .bind (follows_modifyNode fun _ cites => ⟨cites.schema, cites.kind⟩) fun _ _ => ?_
      exact follows_framed (follows_visitKind root (fun _ => ih) cites.kind)

/-- **A visit fails only where a cited pointer misses.** -/
theorem follows_visit : Follows d ptrs (visit d i) fun _ => True :=
  Follows.get.bind fun _ _ => follows_visitWithin root

end Root

end Build

end RestGraph
