import RestGraph.Proofs.Graph.Lineages
import RestGraph.Proofs.Schema.Recording

/-!
# Requests

The arguments of an operation are named after its parameters and its body, and they are typed from
the schemas below these. So the whole request side of a draft is read off the graph.
-/

namespace RestGraph

variable {d : Document} {c : Collection} {side : Side} {i j p : Nat}

/-- An argument, whatever its type. -/
structure ArgSketch where
  name : String
  location : Option Location
  wireName : String
  required : Bool
deriving DecidableEq

/-- The arguments of an operation, and its body with the argument that carries it. -/
structure Request where
  args : List ArgSketch
  body : Option (Nat × String)

def ArgDecl.sketch (a : ArgDecl) : ArgSketch := ⟨a.name, a.location, a.wireName, a.required⟩

def OperationDecl.request (o : OperationDecl) : Request := ⟨o.args.map ArgDecl.sketch, o.body⟩

/-- Take in a payload of an operation. -/
def Request.add (q : Request) (p : Nat) (name : String) : Kind → Request
  | .param location required =>
    { q with args := q.args ++ [⟨Naming.unique (q.args.map ArgSketch.name) (Naming.fieldName name),
        some location, name, required⟩] }
  | .body required =>
    let arg := Naming.unique (q.args.map ArgSketch.name) "input"
    { args := q.args ++ [⟨arg, none, arg, required⟩], body := some (p, arg) }
  | _ => q

namespace Graph

variable {g h : Graph}

/-- Take in one child of an operation. -/
def addPayload (g : Graph) (q : Request) (p : Nat) : Request :=
  q.add p (g.node p).name (g.node p).kind

def request (g : Graph) (o : Nat) : Request := (g.node o).children.foldl g.addPayload ⟨[], none⟩

def schemaOf (g : Graph) (p : Nat) : List Nat :=
  if Side.input.isPayload (g.node p).kind.tag then (g.node p).children.head?.toList else []

def schemasOf (g : Graph) (o : Nat) : List Nat := (g.node o).children.flatMap g.schemaOf

/-- What a payload adds hangs on its kind and its name. -/
theorem addPayload_congr (kind : (h.node p).kind = (g.node p).kind)
    (name : (h.node p).name = (g.node p).name) (q : Request) :
    h.addPayload q p = g.addPayload q p := by
  rw [addPayload, addPayload, kind, name]

section Grow

variable (step : g.Grows g.unvisited h) (sound : g.Sound) (visited : (g.node i).visited = true)
  (inside : i < g.size)

include step sound visited inside

theorem Grows.request : h.request i = g.request i := by
  rw [Graph.request, Graph.request, step.children inside (notMem_unvisited.mpr visited)]
  refine List.foldl_ext _ _ _ fun q p child => ?_
  have old := (sound.below child).2
  exact addPayload_congr (step.kind old) (step.keeps old).name q

omit sound in
theorem Grows.schemaOf : h.schemaOf i = g.schemaOf i := by
  rw [Graph.schemaOf, Graph.schemaOf, step.kind inside,
    step.children inside (notMem_unvisited.mpr visited)]

theorem Grows.schemasOf (payloads : ∀ p ∈ (g.node i).children, (g.node p).visited = true) :
    h.schemasOf i = g.schemasOf i := by
  rw [Graph.schemasOf, Graph.schemasOf, step.children inside (notMem_unvisited.mpr visited)]
  exact List.flatMap_congr fun p child =>
    step.schemaOf (payloads p child) (sound.below child).2

end Grow

end Graph

namespace Drafting

open Draft

variable {s t : Draft}

/-- The type of a node records what the node asks for. -/
theorem nodeType_records (unmarked : d.IsUnmarked) {ty : Option TypeRef}
    (h : Ends (nodeType d c i side) s ty t) (fit : s.Fit d) (inside : i < s.run.graph.size)
    (schema : (s.run.graph.node i).kind.isSchema = true) (aside : s.run.Aside side i) :
    Records d c (side.asking [i]) s t := by
  unfold nodeType at h
  simp only [Ends.bind_iff, Ends.get_iff] at h
  obtain ⟨_, _, ⟨rfl, rfl⟩, h⟩ := h
  exact nodeTypeWithin_records unmarked _ h fit inside schema aside

/-- Below a parameter or a body that is on the stack nothing is filtered out. -/
theorem aside_of_payload {r : Run} {tag : Tag} (sound : r.graph.Sound)
    (payload : Side.input.isPayload tag = true) (kind : (r.graph.node i).kind.tag = tag)
    (child : j ∈ (r.graph.node i).children) : (r.enter i tag).Aside .input j := by
  have cases_ : tag = .param ∨ tag = .body := by
    cases tag <;> first | exact .inl rfl | exact .inr rfl | cases payload
  have plain : (r.graph.node i).kind.isComposition = false ∧
      (r.graph.node i).kind.expands = false := by
    cases here : (r.graph.node i).kind <;> rw [here] at kind <;> subst kind <;>
      first | exact ⟨rfl, rfl⟩ | cases payload
  refine ⟨?_, ?_, Graph.not_isBranch_of_child (g := r.graph) sound.toForest child plain.1
    fun expands => ?_⟩
  · unfold Run.isFiltering Run.inContextOf
    rcases cases_ with rfl | rfl
    · exact Bool.and_false _
    · simp [Run.enter]
  · change r.graph.inArguments j = true
    rw [Graph.inArguments, sound.ancestors_of_child child, List.any_cons, kind]
    rcases cases_ with rfl | rfl <;> rfl
  · rw [plain.2] at expands
    cases expands

theorem childType_records (unmarked : d.IsUnmarked) {tag : Tag} {first : Option Nat}
    {ty : Option TypeRef} (h : Ends (childType d c i tag first) s ty t) (fit : s.Fit d)
    (payload : Side.input.isPayload tag = true) (kind : (s.run.graph.node i).kind.tag = tag)
    (below : ∀ j, first = some j → j ∈ (s.run.graph.node i).children ∧
      (s.run.graph.node j).kind.isSchema = true) : Records d c first.toList s t := by
  obtain ⟨rfl, -, rfl⟩ | ⟨schema, u, rfl, types, rfl⟩ := childType_ends h
  · exact .none (fit.same rfl fit.keyed) rfl
  · obtain ⟨child, isSchema⟩ := below schema rfl
    have framed : Fit d { s with run := s.run.enter i tag } := fit.same rfl fit.keyed
    obtain ⟨fit', explored, inputs⟩ := nodeType_records unmarked types framed
      (fit.sound.below child).2 isSchema (aside_of_payload fit.sound payload kind child)
    exact ⟨fit'.same rfl fit'.keyed, explored, inputs⟩

/-- A payload is taken into the request as the graph has it. -/
theorem addChild_records (unmarked : d.IsUnmarked) {op : Nat} {o o' : OperationDecl}
    (h : Ends (addChild d c o i) s o' t) (fit : s.Fit d)
    (tag : (s.run.graph.node op).kind.tag = .operation)
    (child : i ∈ (s.run.graph.node op).children) :
    s.Grows d t ∧ o'.request = s.run.graph.addPayload o.request i ∧
      Records d c (s.run.graph.schemaOf i) s t := by
  have firsts : (∀ k : Kind, (s.run.graph.node i).kind.admits k = k.isSchema) →
      ∀ j, (s.run.graph.node i).children.head? = some j → j ∈ (s.run.graph.node i).children ∧
        (s.run.graph.node j).kind.isSchema = true := fun takes j first => by
    have mem : j ∈ (s.run.graph.node i).children := List.mem_of_head? first
    exact ⟨mem, takes _ ▸ fit.sound.admits mem⟩
  have inside : ∀ {j}, j ∈ (s.run.graph.node i).children → j < s.run.graph.size := fun mem =>
    (fit.sound.below mem).2
  have names : o.request.args.map ArgSketch.name = o.args.map ArgDecl.name := by
    rw [OperationDecl.request, List.map_map]
    rfl
  have responds : (s.run.graph.node i).kind.tag = .response →
      s.run.graph.addPayload o.request i = o.request ∧ s.run.graph.schemaOf i = [] := fun tag => by
    rw [Graph.addPayload, Graph.schemaOf]
    cases kind : (s.run.graph.node i).kind <;> rw [kind] at tag <;> cases tag
    exact ⟨rfl, if_neg Bool.noConfusion⟩
  cases addChild_cases h with
  | param kind type =>
    have below := firsts fun k => by rw [kind]; rfl
    refine ⟨(childType_typed type fit.sound fun j first =>
      ⟨inside (below j first).1, (below j first).2⟩).1.grows, ?_, ?_⟩
    · rw [Graph.addPayload, kind]
      simp only [Request.add, OperationDecl.request, List.map_append, List.map_cons, List.map_nil,
        ArgDecl.sketch, ← names]
    · have recorded := childType_records unmarked type fit rfl (by rw [kind]; rfl) below
      rwa [Graph.schemaOf, kind, if_pos (by rfl)]
  | body kind type marks =>
    have below := firsts fun k => by rw [kind]; rfl
    refine ⟨(childType_typed type fit.sound fun j first =>
      ⟨inside (below j first).1, (below j first).2⟩).1.grows.trans (.of_marks marks), ?_, ?_⟩
    · rw [Graph.addPayload, kind]
      simp only [Request.add, OperationDecl.request, List.map_append, List.map_cons, List.map_nil,
        ArgDecl.sketch, ← names]
    · have recorded := childType_records unmarked type fit rfl (by rw [kind]; rfl) below
      rw [Graph.schemaOf, kind, if_pos (by rfl)]
      have idle : Records d c [] _ t := .none (recorded.fit.marks marks) marks.inputs
      have all := recorded.trans idle (.of_marks marks)
      rwa [List.append_nil] at all
  | @response _ _ schema _ u _ _ kind first type marks =>
    obtain ⟨request, schemas⟩ := responds (by rw [kind]; rfl)
    obtain ⟨mem, isSchema⟩ := firsts (fun k => by rw [kind]; rfl) schema first
    have outside : s.run.graph.inArguments schema = false := by
      rw [Graph.inArguments, fit.sound.ancestors_of_child mem, fit.sound.ancestors_of_child child,
        fit.sound.toForest.ancestors_of_operation tag]
      simp only [List.any_cons, List.any_nil, kind, tag]
      rfl
    have typed := (nodeType_typed type fit.sound (inside mem) isSchema).1
    have aside : s.run.Aside .output schema := outside
    have recorded : Records d c [] s u :=
      nodeType_records unmarked type fit (inside mem) isSchema aside
    rw [request, schemas]
    exact ⟨typed.grows.trans (.of_marks marks), rfl,
      recorded.trans (.none (recorded.fit.marks marks) marks.inputs) (.of_marks marks)⟩
  | silent kind first marks =>
    obtain ⟨request, schemas⟩ := responds (by rw [kind]; rfl)
    rw [request, schemas]
    exact ⟨.of_marks marks, rfl, .none (fit.marks marks) marks.inputs⟩
  | other noParam noBody noResponse =>
    have admits := fit.sound.admits child
    cases kind : (s.run.graph.node op).kind <;> rw [kind] at tag admits <;> cases tag
    cases kind : (s.run.graph.node i).kind <;> rw [kind] at noParam noBody noResponse admits
    case param => exact absurd rfl noParam
    case body => exact absurd rfl noBody
    case response => exact absurd rfl noResponse
    all_goals cases admits

/-- The payloads are taken in one after the other. -/
theorem addChildren_records (unmarked : d.IsUnmarked) {op : Nat} {o o' : OperationDecl}
    {payloads : List Nat} (h : Ends (payloads.foldlM (addChild d c) o) s o' t) (fit : s.Fit d)
    (tag : (s.run.graph.node op).kind.tag = .operation)
    (visited : (s.run.graph.node op).visited = true)
    (tended : ∀ p ∈ payloads, p ∈ (s.run.graph.node op).children ∧
      (s.run.graph.node p).visited = true) :
    s.Grows d t ∧ o'.request = payloads.foldl s.run.graph.addPayload o.request ∧
      Records d c (payloads.flatMap s.run.graph.schemaOf) s t := by
  induction payloads generalizing s o with
  | nil =>
    rw [List.foldlM_nil] at h
    obtain ⟨rfl, rfl⟩ := Ends.pure_iff.mp h
    exact ⟨.refl d s, rfl, .none fit rfl⟩
  | cons p rest ih =>
    rw [List.foldlM_cons] at h
    obtain ⟨o₁, u, first, h⟩ := Ends.bind_iff.mp h
    obtain ⟨⟨child, -⟩, later⟩ := List.forall_mem_cons.mp tended
    obtain ⟨step, request, records⟩ := addChild_records unmarked first fit tag child
    have grows := step.run.grows
    have inside := Graph.lt_size_of_child child
    have old : ∀ p ∈ rest, p < s.run.graph.size := fun p mem => (fit.sound.below (later p mem).1).2
    obtain ⟨step', request', records'⟩ := ih h records.fit
      ((congrArg Kind.tag (grows.kind inside)).trans tag) ((grows.keeps inside).visited visited)
      fun p mem => ⟨by
        rw [grows.children inside (Graph.notMem_unvisited.mpr visited)]
        exact (later p mem).1, (grows.keeps (old p mem)).visited (later p mem).2⟩
    refine ⟨step.trans step', ?_, ?_⟩
    · rw [request', request, List.foldl_cons]
      exact List.foldl_ext _ _ _ fun q p mem =>
        Graph.addPayload_congr (grows.kind (old p mem)) (grows.keeps (old p mem)).name q
    · rw [List.flatMap_cons, List.flatMap_congr fun p mem =>
        (grows.schemaOf (later p mem).2 (old p mem)).symm]
      exact records.trans records' step'

/-- The request of an operation is the one that the graph has. -/
theorem operation_records (unmarked : d.IsUnmarked) {o : OperationDecl}
    (h : Ends (operation d c i) s o t) (fit : s.Fit d) (served : s.run.graph.ServedAt i) :
    o.request = t.run.graph.request i ∧ Records d c (t.run.graph.schemasOf i) s t := by
  unfold operation at h
  simp only [Ends.bind_iff, ends_lift, ends_graph] at h
  obtain ⟨children, u, ⟨r, below, rfl⟩, _, _, ⟨rfl, rfl⟩, h⟩ := h
  obtain ⟨_, visit, rfl⟩ := Build.ends_childrenOf below
  obtain ⟨visits, visited⟩ := Build.visit_steps visit fit.sound
  have fit' : Fit d { s with run := r } := fit.visits visits
  split at h
  · next method path shared kind =>
    have tag : (r.graph.node i).kind.tag = .operation := congrArg Kind.tag kind
    simp only [Ends.bind_iff, ends_onRun, Ends.pure_iff] at h
    obtain ⟨_, _, rfl, o', v, fold, _, _, rfl, rfl, rfl⟩ := h
    have tended := (visits.served served tag visited).1
    have framed : Fit d { s with run := r.enter i .operation } := fit'.same rfl fit'.keyed
    obtain ⟨step, request, records⟩ := addChildren_records unmarked fold framed tag visited
      fun p child => ⟨child, tended p child⟩
    have inside : i < r.graph.size := Graph.lt_size_of_not_array (by rw [kind]; rfl)
    have grows : r.graph.Grows r.graph.unvisited v.run.graph := step.run.grows
    have schemas : v.run.graph.schemasOf i = r.graph.schemasOf i :=
      grows.schemasOf fit'.sound visited inside tended
    refine ⟨request.trans (grows.request fit'.sound visited inside).symm, ?_⟩
    change Records d c (v.run.graph.schemasOf i) s _
    rw [schemas]
    exact ⟨records.fit.same rfl records.fit.keyed, records.explored, records.inputs⟩
  · exact absurd h (by rw [Ends.throw_iff]; exact id)

/-- The containers of the responses add no inputs. -/
theorem declareContainers_records (unmarked : d.IsUnmarked) {u : Unit}
    (h : Ends (declareContainers d c) s u t) (fit : s.Fit d)
    (containers : ∀ j ∈ c.containers, (s.run.graph.node j).kind.isContainer = true) :
    s.Grows d t ∧ Records d c [] s t := by
  unfold declareContainers at h
  refine Ends.forM_keeps (I := fun t => s.Grows d t ∧ Records d c [] s t) ?_
    ⟨.refl d s, .none fit rfl⟩ h
  rintro j t v mem ⟨grows, records⟩ h
  simp only [Ends.bind_iff, Ends.get_iff] at h
  obtain ⟨_, _, ⟨rfl, rfl⟩, h⟩ := h
  have container := containers j mem
  have inside : j < s.run.graph.size := Graph.lt_size_of_ne fun e => by
    rw [e] at container
    cases container
  split at h
  · obtain ⟨-, rfl⟩ := Ends.pure_iff.mp h
    exact ⟨grows, records⟩
  · split at h
    · obtain ⟨-, rfl⟩ := Ends.pure_iff.mp h
      exact ⟨grows, records⟩
    · next declared =>
      obtain ⟨ty, h⟩ := Ends.discard_iff.mp h
      have inside' := inside.trans_le grows.run.grows.size_le
      have schema : (t.run.graph.node j).kind.isSchema = true := by
        rw [grows.run.grows.kind inside]
        cases kind : (s.run.graph.node j).kind <;> rw [kind] at container <;>
          first | rfl | cases container
      rw [Bool.or_eq_true, not_or, Bool.not_eq_true] at declared
      have step := (nodeType_typed h records.fit.sound inside' schema).1.grows
      have aside : t.run.Aside .output j := declared.1
      have more := nodeType_records unmarked h records.fit inside' schema aside
      exact ⟨grows.trans step, records.trans more step⟩

end Drafting

namespace Draft

/-- The requests of a draft are those of its graph, and its inputs what their schemas ask for. -/
structure Requested (d : Document) (c : Collection) (r : Run) (t : Draft)
    (ops : List OperationDecl) : Prop where
  grows : (start r).Grows d t
  visited : ∀ o ∈ ops, (t.run.graph.node o.node).visited = true ∧
    (t.run.graph.node o.node).kind.tag = .operation
  requests : ∀ o ∈ ops, o.request = t.run.graph.request o.node
  records : Records d c ((ops.map OperationDecl.node).flatMap t.run.graph.schemasOf) (start r) t

theorem Requested.add {r : Run} {s t : Draft} {ops : List OperationDecl} {o : OperationDecl}
    (requested : s.Requested d c r ops) (unmarked : d.IsUnmarked) (served : ∀ o, r.graph.ServedAt o)
    (h : Ends (Drafting.operation d c i) s o t) : t.Requested d c r (ops ++ [o]) := by
  have fit := requested.records.fit
  have served : ∀ o, s.run.graph.ServedAt o := fun o => requested.grows.run.served (served o)
  obtain ⟨rfl, -, -, visited, tag, own, typed, -⟩ :=
    Drafting.operation_typed h fit.sound (served i)
  obtain ⟨request, records⟩ := Drafting.operation_records unmarked h fit (served _)
  have step := typed.grows.run.grows
  have inside : ∀ o' ∈ ops, o'.node < s.run.graph.size := fun o' mem =>
      Graph.lt_size_of_ne fun e => by
    have tag := (requested.visited o' mem).2
    rw [e] at tag
    cases tag
  have same : ∀ x ∈ ops.map OperationDecl.node,
      t.run.graph.schemasOf x = s.run.graph.schemasOf x := fun x mem => by
    obtain ⟨o', old, rfl⟩ := List.mem_map.mp mem
    obtain ⟨visited, tag⟩ := requested.visited o' old
    exact step.schemasOf fit.sound visited (inside o' old) (served o'.node tag visited).1
  refine ⟨requested.grows.trans typed.grows, fun o' mem => ?_, fun o' mem => ?_, ?_⟩
  · rcases List.mem_append.mp mem with old | new
    · obtain ⟨visited, tag⟩ := requested.visited o' old
      exact ⟨(step.keeps (inside o' old)).visited visited,
        (congrArg Kind.tag (step.kind (inside o' old))).trans tag⟩
    · rw [List.mem_singleton.mp new]
      exact ⟨visited, tag⟩
  · rcases List.mem_append.mp mem with old | new
    · rw [requested.requests o' old,
        step.request fit.sound (requested.visited o' old).1 (inside o' old)]
    · rw [List.mem_singleton.mp new]
      exact request
  · rw [List.map_append, List.flatMap_append, List.map_singleton, List.flatMap_singleton,
      List.flatMap_congr same]
    exact requested.records.trans records typed.grows

end Draft

/-- **A draft records what its operations ask for.** -/
theorem Build.draft_requested {r r' : Run} {t : Draft} {ops : List OperationDecl}
    (h : Ends (Build.draft d c) r (t, ops) r') (unmarked : d.IsUnmarked)
    (fit : (Draft.start r).Fit d) (served : ∀ o, r.graph.ServedAt o)
    (containers : ∀ j ∈ c.containers, (r.graph.node j).kind.isContainer = true) :
    t.Requested d c r ops := by
  obtain ⟨rfl, s, looped, mapped⟩ := ends_draft h
  obtain ⟨grows, records⟩ := Drafting.declareContainers_records unmarked looped fit containers
  exact Ends.mapM_keeps (I := fun ops t => t.Requested d c r ops)
    (fun _ requested h => requested.add unmarked served h)
    ⟨grows, fun o none => absurd none List.not_mem_nil, fun o none => absurd none List.not_mem_nil,
      records⟩ mapped

end RestGraph
