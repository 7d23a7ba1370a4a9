import RestGraph.Schema.Print
import RestGraph.Proofs.Schema.Typing

/-!
# Generating

A draft is typed from the containers of the selection and from the payloads of its operations. The
root field of an operation has the types of its payloads.
-/

namespace RestGraph

variable {d : Document} {c : Collection} {side : Side} {i : Nat}

/-! ## Frames -/

namespace Run

variable {r s : Run}

theorem Covers.same {n : Nat} (covers : r.Covers n) (graph : s.graph = r.graph)
    (filter : s.filter = r.filter) : s.Covers n := by
  refine ⟨?_, ?_, ?_, ?_⟩ <;> rw [graph]
  · exact covers.visited
  · exact covers.branches
  · rw [filter]
    exact covers.fields
  · exact covers.origin

theorem Complete.same (complete : r.Complete) (graph : s.graph = r.graph)
    (filter : s.filter = r.filter) : s.Complete := fun n composition consolidated => by
  rw [graph] at composition consolidated
  exact (complete n composition consolidated).same graph filter

/-- A frame that is on the stack meanwhile makes no difference. -/
theorem Drafts.framed {tag : Tag} (drafts : (r.enter i tag).Drafts d s) : r.Drafts d s.leave :=
  { drafts with
    complete := fun sound complete => by
      have complete : (r.enter i tag).Complete := complete.same rfl rfl
      exact (drafts.complete sound complete).same rfl rfl
    stack := by
      change s.stack.tail = r.stack
      rw [drafts.stack]
      rfl }

end Run

/-- The payloads of an operation that are typed on a side. -/
def Side.isPayload : Side → Tag → Bool
  | .output, .response => true
  | .input, .param | .input, .body => true
  | _, _ => false

/-- The node is the schema of a payload. -/
def Graph.IsPayload (g : Graph) (op : Nat) (side : Side) (j : Nat) : Prop :=
  ∃ p ∈ (g.node op).children, side.isPayload (g.node p).kind.tag = true ∧ j ∈ (g.node p).children

namespace Draft

variable {s t u : Draft} {starts own : Side → Nat → Prop}

/-- A frame is no matter for the growth of a draft. -/
theorem Grows.framed {tag : Tag} (step : Grows d { s with run := s.run.enter i tag } t) :
    s.Grows d { t with run := t.run.leave } where
  run := step.run.framed
  decls := step.decls
  tidy tidy := (step.tidy (tidy.same rfl)).same rfl
  json := step.json

theorem Typed.framed {tag : Tag}
    (typed : Typed d c starts { s with run := s.run.enter i tag } t) :
    Typed d c starts s { t with run := t.run.leave } where
  grows := typed.grows.framed
  explored := typed.explored
  declares tidy := typed.declares (tidy.same rfl)
  keys decl mem := (typed.keys decl mem).imp_right fun ⟨side, i, e, start, meets, isOf⟩ =>
    ⟨side, i, e, start, meets, isOf.key, isOf.input⟩
  fields := typed.fields
  bottomUp sound before i decl at_ object :=
    (typed.bottomUp sound (fun j old here solid => (before j old here solid).same rfl le_rfl)
      i decl at_ object).same rfl le_rfl

/-! ## Payloads -/

/-- The type is that of the schema of a payload. Where none is found, it is any JSON value. -/
def Gives (t : Draft) (c : Collection) (starts : Side → Nat → Prop) (side : Side) (payload : Nat)
    (ty : TypeRef) : Prop :=
  match (t.run.graph.node payload).children with
  | [] => ty = .scalar .json
  | schema :: _ => starts side schema ∧
      ∃ found, t.Answers c side schema found ∧ ty = found.getD (.scalar .json)

/-- The type is a scalar, or that of a schema from which types are found. -/
def Refers (t : Draft) (c : Collection) (starts : Side → Nat → Prop) (side : Side) (ty : TypeRef) :
    Prop :=
  ty.IsMarked t ∧ (ty.Stands t.decls none ∨ ∃ j, starts side j ∧
    ty.Stands t.decls (t.run.graph.declKey? c side (t.run.graph.elementOf j)))

/-- A root field, and the schemas of the payloads that it was made from. -/
structure Fits (t : Draft) (c : Collection) (starts : Side → Nat → Prop) (o : OperationDecl) :
    Prop where
  response : ∀ p, o.response = some p → p ∈ (t.run.graph.node o.node).children ∧
    (t.run.graph.node p).kind.tag = .response ∧ t.Gives c starts .output p o.returns
  body : ∀ p name, o.body = some (p, name) → p ∈ (t.run.graph.node o.node).children ∧
    (t.run.graph.node p).kind.tag = .body ∧
      ∃ a ∈ o.args, a.name = name ∧ a.location = none ∧ t.Gives c starts .input p a.type
  payload : ∀ side j, starts side j → t.run.graph.IsPayload o.node side j
  roots : ∀ side j, starts side j →
    (∃ a ∈ o.args, ∃ found, t.Answers c side j found ∧ ∀ ty, found = some ty → a.type = ty) ∨
      side = .output ∧ ∃ p, o.response = some p ∧ (t.run.graph.node p).children.head? = some j
  args : ∀ a ∈ o.args, t.Refers c starts .input a.type
  returns : o.response.isSome = true → t.Refers c starts .output o.returns

theorem Refers.mono {ty : TypeRef} (refers : t.Refers c own side ty)
    (sub : ∀ side j, own side j → starts side j) : t.Refers c starts side ty :=
  ⟨refers.1, refers.2.imp_right fun ⟨j, start, stands⟩ => ⟨j, sub side j start, stands⟩⟩

theorem Refers.grow {ty : TypeRef} (refers : s.Refers c starts side ty) (step : s.Grows d t)
    (sound : s.run.graph.Sound)
    (explored : ∀ {side j}, starts side j → s.run.graph.Explored c side j) :
    t.Refers c starts side ty := by
  obtain ⟨marked, scalar | ⟨j, start, stands⟩⟩ := refers
  · exact ⟨marked.grow step, .inl (scalar.grow step)⟩
  · refine ⟨marked.grow step, .inr ⟨j, start, ?_⟩⟩
    rw [(explored start).declKey? sound step.run.grows]
    exact stands.grow step

theorem Gives.mono {p : Nat} {ty : TypeRef} (gives : t.Gives c own side p ty)
    (sub : ∀ side j, own side j → starts side j) : t.Gives c starts side p ty := by
  unfold Gives at gives ⊢
  split
  · next none => rwa [none] at gives
  · next schema _ some =>
    rw [some] at gives
    exact ⟨sub _ _ gives.1, gives.2⟩

theorem Gives.grow {p : Nat} {ty : TypeRef} (gives : s.Gives c starts side p ty)
    (step : s.Grows d t) (sound : s.run.graph.Sound)
    (explored : ∀ {side j}, starts side j → s.run.graph.Explored c side j)
    (children : (t.run.graph.node p).children = (s.run.graph.node p).children) :
    t.Gives c starts side p ty := by
  unfold Gives at gives ⊢
  rw [children]
  split
  · next none => rwa [none] at gives
  · next schema _ some =>
    rw [some] at gives
    obtain ⟨start, found, answers, type⟩ := gives
    exact ⟨start, found, answers.grow step sound (explored start), type⟩

/-- The root field stays right as long as the payloads were visited before. -/
theorem Fits.grow {o : OperationDecl} (fits : s.Fits c starts o) (step : s.Grows d t)
    (sound : s.run.graph.Sound)
    (explored : ∀ {side j}, starts side j → s.run.graph.Explored c side j)
    (visited : (s.run.graph.node o.node).visited = true)
    (payloads : ∀ p ∈ (s.run.graph.node o.node).children, (s.run.graph.node p).visited = true) :
    t.Fits c starts o := by
  have grows := step.run.grows
  have same : ∀ {p}, p < s.run.graph.size → (s.run.graph.node p).visited = true →
      (t.run.graph.node p).children = (s.run.graph.node p).children := fun lt done =>
    grows.children lt (Graph.notMem_unvisited.mpr done)
  have own : ∀ {p}, p ∈ (s.run.graph.node o.node).children →
      p ∈ (t.run.graph.node o.node).children := fun child => by
    rwa [same (Graph.lt_size_of_child child) visited]
  have below : ∀ {p}, p ∈ (s.run.graph.node o.node).children →
      (t.run.graph.node p).kind = (s.run.graph.node p).kind ∧
      (t.run.graph.node p).children = (s.run.graph.node p).children := fun child =>
    ⟨grows.kind (sound.below child).2, same (sound.below child).2 (payloads _ child)⟩
  refine ⟨fun p response => ?_, fun p name body => ?_, fun side j start =>
    ?_, fun side j start => ?_, fun a mem => (fits.args a mem).grow step sound explored,
    fun some => (fits.returns some).grow step sound explored⟩
  · obtain ⟨child, tag, gives⟩ := fits.response p response
    rw [(below child).1]
    exact ⟨own child, tag, gives.grow step sound explored (below child).2⟩
  · obtain ⟨child, tag, a, mem, named, place, gives⟩ := fits.body p name body
    rw [(below child).1]
    exact ⟨own child, tag, a, mem, named, place, gives.grow step sound explored (below child).2⟩
  · obtain ⟨p, child, tag, first⟩ := fits.payload side j start
    exact ⟨p, own child, (below child).1 ▸ tag, (below child).2.symm ▸ first⟩
  · rcases fits.roots side j start with ⟨a, mem, found, answers, type⟩ | ⟨out, p, response, first⟩
    · exact .inl ⟨a, mem, found, answers.grow step sound (explored start), type⟩
    · have child := (fits.response p response).1
      exact .inr ⟨out, p, response, (below child).2.symm ▸ first⟩

/-- A root field with one more argument, which may be that of the body. -/
theorem Fits.withArg {o o' : OperationDecl} {a : ArgDecl} (fits : t.Fits c own o)
    (node : o'.node = o.node) (response : o'.response = o.response)
    (returns : o'.returns = o.returns) (args : o'.args = o.args ++ [a])
    (body : ∀ p name, o'.body = some (p, name) → o.body = some (p, name) ∨
      p ∈ (t.run.graph.node o.node).children ∧ (t.run.graph.node p).kind.tag = .body ∧
        a.name = name ∧ a.location = none ∧ t.Gives c starts .input p a.type)
    (sub : ∀ side j, own side j → starts side j)
    (roots : ∀ side j, starts side j → own side j ∨ t.run.graph.IsPayload o.node side j ∧
      ∃ found, t.Answers c side j found ∧ ∀ ty, found = some ty → a.type = ty)
    (refers : t.Refers c starts .input a.type) : t.Fits c starts o' := by
  refine ⟨fun p response' => ?_, fun p name body' => ?_,
    fun side j start => ?_, fun side j start => ?_, fun b mem => ?_, fun some => ?_⟩
  · rw [response] at response'
    obtain ⟨child, tag, gives⟩ := fits.response p response'
    rw [node, returns]
    exact ⟨child, tag, gives.mono sub⟩
  · rw [node, args]
    rcases body p name body' with old | ⟨child, tag, named, place, gives⟩
    · obtain ⟨child, tag, a, mem, named, place, gives⟩ := fits.body p name old
      exact ⟨child, tag, a, List.mem_append_left _ mem, named, place, gives.mono sub⟩
    · exact ⟨child, tag, a, List.mem_append_right _ (List.mem_singleton_self a),
        named, place, gives⟩
  · rw [node]
    exact (roots side j start).elim (fits.payload side j) And.left
  · rw [args, response]
    rcases roots side j start with old | ⟨-, found, answers, type⟩
    · refine (fits.roots side j old).imp_left ?_
      rintro ⟨a, mem, rest⟩
      exact ⟨a, List.mem_append_left _ mem, rest⟩
    · exact .inl ⟨a, List.mem_append_right _ (List.mem_singleton_self a), found, answers, type⟩
  · rw [args] at mem
    rcases List.mem_append.mp mem with old | new
    · exact (fits.args b old).mono sub
    · exact List.mem_singleton.mp new ▸ refers
  · rw [response] at some
    rw [returns]
    exact (fits.returns some).mono sub

end Draft

namespace Drafting

open Draft

variable {s t : Draft}

/-- **To find the type of a node declares all that is met from it.** -/
theorem nodeType_typed {ty : Option TypeRef} (h : Ends (nodeType d c i side) s ty t)
    (sound : s.run.graph.Sound) (inside : i < s.run.graph.size)
    (schema : (s.run.graph.node i).kind.isSchema = true) :
    Typed d c (At side i) s t ∧ t.Answers c side i ty := by
  unfold nodeType at h
  simp only [Ends.bind_iff, Ends.get_iff] at h
  obtain ⟨_, _, ⟨rfl, rfl⟩, h⟩ := h
  exact nodeTypeWithin_typed _ h sound inside schema

/-- The start for the first child of a payload, if there is one. -/
def First (side : Side) (first : Option Nat) (side' : Side) (j : Nat) : Prop :=
  side' = side ∧ first = some j

/-- The type found for the first child, if there is one. -/
def Finds (t : Draft) (c : Collection) (side : Side) (first : Option Nat) (ty : Option TypeRef) :
    Prop :=
  match first with
  | none => ty = none
  | some schema => t.Answers c side schema ty

/-- The first child of a payload gives it its type. -/
theorem Finds.gives {first : Option Nat} {found : Option TypeRef} {p : Nat}
    {starts : Side → Nat → Prop} (finds : Finds t c side first found)
    (head : (t.run.graph.node p).children.head? = first)
    (sub : ∀ side' j, First side first side' j → starts side' j) :
    t.Gives c starts side p (found.getD (.scalar .json)) := by
  unfold Draft.Gives
  split
  · next empty =>
    rw [empty] at head
    subst head
    rw [show found = none from finds]
    rfl
  · next schema _ children =>
    rw [children] at head
    subst head
    exact ⟨sub side schema ⟨rfl, rfl⟩, found, finds, rfl⟩

/-- A scalar stands where no type was found. -/
theorem Finds.refers {first : Option Nat} {found : Option TypeRef} {type : ScalarType}
    {starts : Side → Nat → Prop} (finds : Finds t c side first found)
    (sub : ∀ side' j, First side first side' j → starts side' j)
    (marked : found = none → type = .json → t.usesJson = true) :
    t.Refers c starts side (found.getD (.scalar type)) := by
  cases found with
  | none => exact ⟨fun core => marked rfl (TypeRef.scalar.inj core), .inl ⟨type, rfl⟩⟩
  | some ty =>
    cases first with
    | none => cases finds
    | some schema =>
      obtain ⟨-, stands, marked⟩ := finds
      exact ⟨marked, .inr ⟨schema, sub side schema ⟨rfl, rfl⟩, stands⟩⟩

/-- To mark that JSON values are used changes nothing that was found. -/
theorem Finds.same {u : Draft} {first : Option Nat} {found : Option TypeRef}
    (finds : Finds s c side first found) (marks : s.Marks u) : Finds u c side first found := by
  obtain ⟨run, decls, json⟩ := marks
  cases first with
  | none => exact finds
  | some schema =>
    cases found with
    | none =>
      change (u.run.graph.node (u.run.graph.elementOf schema)).kind.isCircular = true
      rw [run]
      exact finds
    | some ty =>
      change (u.run.graph.node (u.run.graph.elementOf schema)).kind.isCircular = false ∧
        ty.Stands u.decls (u.run.graph.declKey? c side (u.run.graph.elementOf schema)) ∧
          ty.IsMarked u
      rw [run, decls]
      exact ⟨finds.1, finds.2.1, json ∘ finds.2.2⟩

theorem none_typed : Typed d c (First side none) s s := by
  refine (Typed.none (.refl d s) rfl).mono fun _ _ => ⟨False.elim, fun start => ?_⟩
  cases start.2

theorem some_typed {schema : Nat} {ty : Option TypeRef}
    (h : Ends (nodeType d c schema side) s ty t) (sound : s.run.graph.Sound)
    (inside : schema < s.run.graph.size ∧ (s.run.graph.node schema).kind.isSchema = true) :
    Typed d c (First side (some schema)) s t ∧ Finds t c side (some schema) ty := by
  obtain ⟨typed, answers⟩ := nodeType_typed h sound inside.1 inside.2
  refine ⟨typed.mono fun side' j => and_congr_right fun _ => ?_, answers⟩
  rw [Option.some.injEq]
  exact eq_comm

/-- What the first schema below a node stands for is found with the node on the stack. -/
theorem childType_ends {tag : Tag} {first : Option Nat} {ty : Option TypeRef}
    (h : Ends (childType d c i tag first) s ty t) :
    (first = none ∧ ty = none ∧ t = { s with run := (s.run.enter i tag).leave }) ∨
    ∃ schema u, first = some schema ∧
      Ends (nodeType d c schema .input) { s with run := s.run.enter i tag } ty u ∧
      t = { u with run := u.run.leave } := by
  unfold childType at h
  simp only [Ends.bind_iff, ends_onRun] at h
  obtain ⟨_, _, rfl, h⟩ := h
  cases first with
  | none =>
    simp only [Ends.bind_iff, ends_onRun, Ends.pure_iff] at h
    obtain ⟨_, _, ⟨rfl, rfl⟩, _, _, rfl, rfl, rfl⟩ := h
    exact .inl ⟨rfl, rfl, rfl⟩
  | some schema =>
    simp only [Ends.bind_iff, ends_onRun, Ends.pure_iff] at h
    obtain ⟨_, u, h, _, _, rfl, rfl, rfl⟩ := h
    exact .inr ⟨schema, u, rfl, h, rfl⟩

/-- The type of a payload declares all that is met from its schema. -/
theorem childType_typed {tag : Tag} {first : Option Nat} {ty : Option TypeRef}
    (h : Ends (childType d c i tag first) s ty t) (sound : s.run.graph.Sound)
    (inside : ∀ j, first = some j → j < s.run.graph.size ∧
      (s.run.graph.node j).kind.isSchema = true) :
    Typed d c (First .input first) s t ∧ Finds t c .input first ty := by
  obtain ⟨rfl, rfl, rfl⟩ | ⟨schema, u, rfl, types, rfl⟩ := childType_ends h
  · have typed : Typed d c (First .input none) { s with run := s.run.enter i tag } _ := none_typed
    exact ⟨typed.framed, rfl⟩
  · obtain ⟨typed, finds⟩ := some_typed (s := { s with run := s.run.enter i tag }) types sound
      (inside schema rfl)
    exact ⟨typed.framed, finds⟩

/-- Any JSON value stands where no type was found. -/
theorem ends_orJson {β : Type} {found : Option TypeRef} {next : TypeRef → Drafting β} {b : β}
    (h : Ends (match found with
      | some ty => do
        let ty ← pure ty
        next ty
      | none => do
        let ty ← scalar .json
        next ty) s b t) :
    ∃ u, Ends (next (found.getD (.scalar .json))) u b t ∧ s.Marks u ∧
      (found = none → u.usesJson = true) := by
  cases found with
  | none =>
    obtain ⟨_, u, h, h'⟩ := Ends.bind_iff.mp h
    obtain ⟨rfl, marks, marked⟩ := ends_scalar h
    exact ⟨u, h', marks, fun _ => marked rfl⟩
  | some ty =>
    obtain ⟨_, u, h, h'⟩ := Ends.bind_iff.mp h
    obtain ⟨rfl, rfl⟩ := Ends.pure_iff.mp h
    exact ⟨s, h', .refl s, fun none => by cases none⟩

/-- What the fold over the payloads of an operation has found so far. -/
structure Folding (d : Document) (c : Collection) (op : Nat) (s : Draft) (o : OperationDecl)
    (t : Draft) (own : Side → Nat → Prop) : Prop where
  node : o.node = op
  typed : Typed d c own s t
  fits : t.Fits c own o

/-- The response gives the root field its type. There is no other response. -/
theorem Folding.respond {op : Nat} {s₀ : Draft} {o o' : OperationDecl} {own : Side → Nat → Prop}
    {first : Option Nat} {found : Option TypeRef} (folding : Folding d c op s₀ o s own)
    (sound : s₀.run.graph.Sound) (typed : Typed d c (First .output first) s t)
    (finds : Finds t c .output first found) (fits : t.Fits c own o)
    (child : i ∈ (t.run.graph.node op).children)
    (tag : (t.run.graph.node i).kind.tag = .response)
    (head : (t.run.graph.node i).children.head? = first) (node : o'.node = o.node)
    (args : o'.args = o.args) (body : o'.body = o.body) (response : o'.response = some i)
    (returns : o'.returns = found.getD (.scalar .json))
    (marked : found = none → t.usesJson = true) : ∃ own', Folding d c op s₀ o' t own' := by
  have all := folding.typed.trans typed sound
  have sound' := all.grows.sound sound
  refine ⟨_, node.trans folding.node, all, fun p answer => ?_, fun p name taken => ?_,
    fun side j start => ?_, fun side j start => ?_, fun a mem => ?_, fun _ => ?_⟩
  · rw [response, Option.some.injEq] at answer
    subst answer
    rw [node, folding.node, returns]
    exact ⟨child, tag, finds.gives head fun _ _ => .inr⟩
  · rw [body] at taken
    obtain ⟨mem, tag, a, arg, named, place, gives⟩ := fits.body p name taken
    rw [node, args]
    exact ⟨mem, tag, a, arg, named, place, gives.mono fun _ _ => .inl⟩
  · rw [node]
    rcases start with start | ⟨rfl, start⟩
    · exact fits.payload side j start
    · refine ⟨i, folding.node.symm ▸ child, ?_, List.mem_of_head? (head.trans start)⟩
      rw [tag]
      rfl
  · rw [args, response]
    rcases start with start | ⟨rfl, start⟩
    · refine (fits.roots side j start).imp_right fun ⟨out, p, before, top⟩ => ⟨out, i, rfl, ?_⟩
      obtain ⟨mem, tag', -⟩ := fits.response p before
      rw [folding.node] at mem
      rw [← sound'.single mem child (tag'.trans tag.symm) (tag' ▸ rfl)]
      exact top
    · exact .inr ⟨rfl, i, rfl, head.trans start⟩
  · rw [args] at mem
    exact (fits.args a mem).mono fun _ _ => .inl
  · rw [returns]
    exact finds.refers (fun _ _ => .inr) fun none _ => marked none

/-- A parameter or the body gives the root field one more argument. -/
theorem Folding.take {op : Nat} {s₀ : Draft} {o o' : OperationDecl} {own : Side → Nat → Prop}
    {first : Option Nat} {found : Option TypeRef} {a : ArgDecl} {type : ScalarType}
    (folding : Folding d c op s₀ o s own) (sound : s₀.run.graph.Sound)
    (typed : Typed d c (First .input first) s t) (finds : Finds t c .input first found)
    (fits : t.Fits c own o) (child : i ∈ (t.run.graph.node op).children)
    (payload : Side.input.isPayload (t.run.graph.node i).kind.tag = true)
    (head : (t.run.graph.node i).children.head? = first) (ty : a.type = found.getD (.scalar type))
    (marked : found = none → type = .json → t.usesJson = true) (node : o'.node = o.node)
    (response : o'.response = o.response) (returns : o'.returns = o.returns)
    (args : o'.args = o.args ++ [a])
    (body : o'.body = o.body ∨ (t.run.graph.node i).kind.tag = .body ∧ a.location = none ∧
      type = .json ∧ o'.body = some (i, a.name)) : ∃ own', Folding d c op s₀ o' t own' := by
  refine ⟨_, node.trans folding.node, folding.typed.trans typed sound, ?_⟩
  refine fits.withArg node response returns args ?_ (fun _ _ => .inl) ?_ ?_
  · intro p name taken
    rcases body with same | ⟨tag, place, rfl, mine⟩
    · exact .inl (same ▸ taken)
    · obtain ⟨rfl, rfl⟩ := Prod.mk.inj (Option.some.inj (mine.symm.trans taken))
      rw [folding.node, ty]
      exact .inr ⟨child, tag, rfl, place, finds.gives head fun _ _ => .inr⟩
  · rintro side j (start | ⟨rfl, start⟩)
    · exact .inl start
    · refine .inr
        ⟨⟨i, folding.node.symm ▸ child, payload, List.mem_of_head? (head.trans start)⟩, ?_⟩
      rw [start] at finds
      refine ⟨found, finds, fun _ some => ?_⟩
      rw [ty, some]
      rfl
  · rw [ty]
    exact finds.refers (fun _ _ => .inr) marked

/-- What a root field gains from a child of its operation. -/
inductive AddsChild (d : Document) (c : Collection) (i : Nat) (o : OperationDecl) (s : Draft) :
    OperationDecl → Draft → Prop
  | param {location required found t} (kind : (s.run.graph.node i).kind = .param location required)
      (type : Ends (childType d c i .param (s.run.graph.node i).children.head?) s found t) :
      AddsChild d c i o s { o with args := o.args ++
        [{ name := Naming.unique (o.args.map ArgDecl.name)
             (Naming.fieldName (s.run.graph.node i).name)
           location := some location
           wireName := (s.run.graph.node i).name
           type := found.getD (.scalar .string)
           required
           description := (s.run.graph.node i).description? }] } t
  | body {required found u t comment} (kind : (s.run.graph.node i).kind = .body required)
      (type : Ends (childType d c i .body (s.run.graph.node i).children.head?) s found u)
      (marks : u.Marks t) (marked : found = none → t.usesJson = true) :
      AddsChild d c i o s { o with
        comment
        args := o.args ++
          [{ name := Naming.unique (o.args.map ArgDecl.name) "input"
             location := none
             wireName := Naming.unique (o.args.map ArgDecl.name) "input"
             type := found.getD (.scalar .json)
             required
             description := none }]
        body := some (i, Naming.unique (o.args.map ArgDecl.name) "input") } t
  | response {status synthetic schema found u t comment}
      (kind : (s.run.graph.node i).kind = .response status synthetic)
      (first : (s.run.graph.node i).children.head? = some schema)
      (type : Ends (nodeType d c schema .output) s found u) (marks : u.Marks t)
      (marked : found = none → t.usesJson = true) :
      AddsChild d c i o s
        { o with returns := found.getD (.scalar .json), comment, response := some i } t
  /-- A response without a schema. -/
  | silent {status synthetic t comment}
      (kind : (s.run.graph.node i).kind = .response status synthetic)
      (first : (s.run.graph.node i).children.head? = none) (marks : s.Marks t)
      (marked : t.usesJson = true) :
      AddsChild d c i o s { o with returns := .scalar .json, comment, response := some i } t
  | other (param : (s.run.graph.node i).kind.tag ≠ .param)
      (body : (s.run.graph.node i).kind.tag ≠ .body)
      (response : (s.run.graph.node i).kind.tag ≠ .response) : AddsChild d c i o s o s

/-- What a child adds to an operation, by its kind. -/
theorem addChild_cases {o o' : OperationDecl} (h : Ends (addChild d c o i) s o' t) :
    AddsChild d c i o s o' t := by
  unfold addChild at h
  simp only [Ends.bind_iff, ends_node] at h
  obtain ⟨_, _, ⟨rfl, rfl⟩, h⟩ := h
  split at h
  · next kind =>
    simp only [Ends.bind_iff, Ends.pure_iff] at h
    obtain ⟨found, _, type, rfl, rfl⟩ := h
    exact .param kind type
  · next kind =>
    simp only [Ends.bind_iff, ends_graph] at h
    obtain ⟨found, u, type, _, _, ⟨rfl, rfl⟩, h⟩ := h
    obtain ⟨_, h, marks, marked⟩ := ends_orJson h
    obtain ⟨rfl, rfl⟩ := Ends.pure_iff.mp h
    exact .body kind type marks marked
  · next kind =>
    split at h
    · next schema first =>
      obtain ⟨found, u, type, h⟩ := Ends.bind_iff.mp h
      obtain ⟨_, h, marks, marked⟩ := ends_orJson h
      simp only [Ends.bind_iff, ends_graph, Ends.pure_iff] at h
      obtain ⟨_, _, ⟨rfl, rfl⟩, rfl, rfl⟩ := h
      exact .response kind first type marks marked
    · next first =>
      obtain ⟨_, _, none, h⟩ := Ends.bind_iff.mp h
      obtain ⟨rfl, rfl⟩ := Ends.pure_iff.mp none
      simp only [Ends.bind_iff, ends_graph, Ends.pure_iff] at h
      obtain ⟨_, _, json, _, _, ⟨rfl, rfl⟩, rfl, rfl⟩ := h
      obtain ⟨rfl, marks, marked⟩ := ends_scalar json
      exact .silent kind first marks (marked rfl)
  · next param body response =>
    obtain ⟨rfl, rfl⟩ := Ends.pure_iff.mp h
    cases kind : (s.run.graph.node i).kind
    case param location required => exact (param location required kind).elim
    case body required => exact (body required kind).elim
    case response status synthetic => exact (response status synthetic kind).elim
    all_goals
      exact .other (by rw [kind]; exact Tag.noConfusion) (by rw [kind]; exact Tag.noConfusion)
        (by rw [kind]; exact Tag.noConfusion)

/-- What was found so far stays right, and what the next payload gives is added. -/
theorem addChild_folding {op : Nat} {s₀ : Draft} {o o' : OperationDecl} {starts : Side → Nat → Prop}
    (h : Ends (addChild d c o i) s o' t) (folding : Folding d c op s₀ o s starts)
    (sound : s₀.run.graph.Sound) (visited : (s₀.run.graph.node op).visited = true)
    (payloads : ∀ p ∈ (s₀.run.graph.node op).children, (s₀.run.graph.node p).visited = true)
    (child : i ∈ (s₀.run.graph.node op).children) :
    ∃ own', Folding d c op s₀ o' t own' := by
  have grows := folding.typed.grows.run.grows
  have sound' := folding.typed.grows.sound sound
  have inside := Graph.lt_size_of_child child
  have visited' : (s.run.graph.node op).visited = true := (grows.keeps inside).visited visited
  have same : (s.run.graph.node op).children = (s₀.run.graph.node op).children :=
    grows.children inside (Graph.notMem_unvisited.mpr visited)
  have payloads' : ∀ p ∈ (s.run.graph.node op).children, (s.run.graph.node p).visited = true :=
    fun p mem => by
      rw [same] at mem
      exact (grows.keeps (sound.below mem).2).visited (payloads p mem)
  have here : i < s.run.graph.size := (sound.below child).2.trans_le grows.size_le
  have firsts : (∀ k : Kind, (s.run.graph.node i).kind.admits k = k.isSchema) →
      ∀ j, (s.run.graph.node i).children.head? = some j → j < s.run.graph.size ∧
        (s.run.graph.node j).kind.isSchema = true := fun takes j first => by
    have mem : j ∈ (s.run.graph.node i).children := List.mem_of_head? first
    exact ⟨(sound'.below mem).2, takes _ ▸ sound'.admits mem⟩
  -- the operation and the payload are as they were, and so the root field fits as before
  have grown : ∀ {u}, s.Grows d u → u.Fits c starts o ∧ i ∈ (u.run.graph.node op).children ∧
      (u.run.graph.node i).kind = (s.run.graph.node i).kind ∧
      (u.run.graph.node i).children.head? = (s.run.graph.node i).children.head? := fun step => by
    refine ⟨?_, ?_, step.run.grows.kind here, ?_⟩
    · refine folding.fits.grow step sound' folding.typed.explored ?_ ?_ <;> rw [folding.node]
      · exact visited'
      · exact payloads'
    · rw [step.run.grows.children (inside.trans_le grows.size_le)
        (Graph.notMem_unvisited.mpr visited'), same]
      exact child
    · rw [step.run.grows.children here (Graph.notMem_unvisited.mpr (payloads' i (same ▸ child)))]
  cases addChild_cases h with
  | param kind type =>
    obtain ⟨typed, finds⟩ := childType_typed type sound' (firsts fun k => by rw [kind]; rfl)
    obtain ⟨fits, child, kind', head⟩ := grown typed.grows
    exact folding.take sound typed finds fits child (by rw [kind', kind]; rfl) head rfl
      (fun _ => ScalarType.noConfusion) rfl rfl rfl rfl (.inl rfl)
  | body kind type marks marked =>
    obtain ⟨typed, finds⟩ := childType_typed type sound' (firsts fun k => by rw [kind]; rfl)
    have typed := typed.after (.of_marks marks) marks.decls sound'
    obtain ⟨fits, child, kind', head⟩ := grown typed.grows
    exact folding.take sound typed (finds.same marks) fits child (by rw [kind', kind]; rfl) head rfl
      (fun none _ => marked none) rfl rfl rfl rfl (.inr ⟨by rw [kind', kind]; rfl, rfl, rfl, rfl⟩)
  | @response _ _ schema _ _ _ _ kind first type marks marked =>
    obtain ⟨typed, finds⟩ :=
      some_typed type sound' (firsts (fun k => by rw [kind]; rfl) schema first)
    have typed := typed.after (.of_marks marks) marks.decls sound'
    obtain ⟨fits, child, kind', head⟩ := grown typed.grows
    exact folding.respond sound typed (finds.same marks) fits child (by rw [kind', kind]; rfl)
      (head.trans first) rfl rfl rfl rfl rfl marked
  | silent kind first marks marked =>
    have typed : Typed d c (First .output none) s t :=
      none_typed.after (.of_marks marks) marks.decls sound'
    obtain ⟨fits, child, kind', head⟩ := grown typed.grows
    have finds : Finds t c .output none none := rfl
    exact folding.respond sound typed finds fits child (by rw [kind', kind]; rfl)
      (head.trans first) rfl rfl rfl rfl rfl fun _ => marked
  | other => exact ⟨starts, folding⟩

/-- The node and the name of a root field stay, and so does a response that it has. -/
theorem addChild_keeps {o o' : OperationDecl} (h : Ends (addChild d c o i) s o' t) :
    o'.node = o.node ∧ o'.name = o.name ∧ (o.response.isSome = true → o'.response.isSome = true) ∧
      ((s.run.graph.node i).kind.tag = .response → o'.response.isSome = true) := by
  cases addChild_cases h with
  | param kind =>
    rw [kind]
    exact ⟨rfl, rfl, id, Tag.noConfusion⟩
  | body kind =>
    rw [kind]
    exact ⟨rfl, rfl, id, Tag.noConfusion⟩
  | response | silent => exact ⟨rfl, rfl, fun _ => rfl, fun _ => rfl⟩
  | other _ _ response => exact ⟨rfl, rfl, id, fun tag => absurd tag response⟩

/-- A root field is that of its operation. -/
theorem operation_node {o : OperationDecl} (h : Ends (operation d c i) s o t) : o.node = i := by
  unfold operation at h
  simp only [Ends.bind_iff, ends_lift, ends_graph] at h
  obtain ⟨children, u, -, _, _, ⟨rfl, rfl⟩, h⟩ := h
  split at h
  · simp only [Ends.bind_iff, ends_onRun, Ends.pure_iff] at h
    obtain ⟨_, _, -, o', v, fold, _, _, -, rfl, -⟩ := h
    exact Ends.foldlM_keeps (I := fun o _ => o.node = i)
      (fun _ node h => (addChild_keeps h).1.trans node) rfl fold
  · cases h

/-- The root field of an operation fits the payloads that its types were found from. -/
theorem operation_typed {o : OperationDecl} (h : Ends (operation d c i) s o t)
    (sound : s.run.graph.Sound) (served : s.run.graph.ServedAt i) :
    o.node = i ∧ o.name = (t.run.graph.node i).name ∧ o.response.isSome = true ∧
      (t.run.graph.node i).visited = true ∧ (t.run.graph.node i).kind.tag = .operation ∧
      ∃ own, Typed d c own s t ∧ t.Fits c own o := by
  unfold operation at h
  simp only [Ends.bind_iff, ends_lift, ends_graph] at h
  obtain ⟨children, u, ⟨r, below, rfl⟩, _, _, ⟨rfl, rfl⟩, h⟩ := h
  obtain ⟨_, visit, rfl⟩ := Build.ends_childrenOf below
  obtain ⟨visits, visited⟩ := Build.visit_steps visit sound
  have sound' : r.graph.Sound := visits.sound sound
  split at h
  · next method path shared kind =>
    have tag : (r.graph.node i).kind.tag = .operation := congrArg Kind.tag kind
    simp only [Ends.bind_iff, ends_onRun, Ends.pure_iff] at h
    obtain ⟨_, _, rfl, o', v, fold, _, _, rfl, rfl, rfl⟩ := h
    obtain ⟨tended, answer, child, response⟩ := visits.served served tag visited
    -- the response is among the children, so that the fold comes past it
    let I := fun (o : OperationDecl) (t : Draft) => o.name = (r.graph.node i).name ∧
      ∃ own, Folding d c i { s with run := r.enter i .operation } o t own
    have round : ∀ {o x o' v w}, x ∈ (r.graph.node i).children → I o v →
        Ends (addChild d c o x) v o' w → I o' w := fun child before h => by
      obtain ⟨name, own, folding⟩ := before
      exact ⟨(addChild_keeps h).2.1.trans name,
        addChild_folding h folding sound' visited tended child⟩
    obtain ⟨before, after, children⟩ := List.append_of_mem child
    rw [children, List.foldlM_append] at fold
    simp only [List.foldlM_cons, Ends.bind_iff] at fold
    obtain ⟨o₁, v₁, first, o₂, v₂, middle, last⟩ := fold
    have inside : ∀ {x}, x ∈ before ∨ x = answer ∨ x ∈ after → x ∈ (r.graph.node i).children :=
      fun {x} mem => by
        rw [children, List.mem_append, List.mem_cons]
        exact mem
    have early := Ends.foldlM_keeps (I := I) (fun mem => round (inside (.inl mem))) ?_ first
    swap
    · refine ⟨rfl, fun _ _ => False, rfl, .none (.refl d _) rfl, ?_, ?_, fun _ _ => False.elim,
        fun _ _ => False.elim, fun _ none => absurd none List.not_mem_nil, Bool.noConfusion⟩
      · exact fun _ none => by cases none
      · exact fun _ _ none => by cases none
    have responded : o₂.response.isSome = true := by
      obtain ⟨-, own, folding⟩ := early
      refine (addChild_keeps middle).2.2.2 ?_
      rw [folding.typed.grows.run.grows.kind (sound'.below child).2]
      exact response
    obtain ⟨⟨name, own, node, typed, fits⟩, answered⟩ := Ends.foldlM_keeps
      (I := fun o t => I o t ∧ o.response.isSome = true)
      (fun mem before h =>
        ⟨round (inside (.inr (.inr mem))) before.1 h, (addChild_keeps h).2.2.1 before.2⟩)
      ⟨round (inside (.inr (.inl rfl))) early middle, responded⟩ last
    have lt : i < r.graph.size := Graph.lt_size_of_child child
    have grows := typed.grows.run.grows
    refine ⟨node, ?_, answered, (grows.keeps lt).visited visited, ?_, own, ?_, fits.response,
      fits.body, fits.payload, fits.roots, fits.args, fits.returns⟩
    · exact name.trans (grows.keeps lt).name.symm
    · exact (congrArg Kind.tag (grows.kind lt)).trans tag
    · have framed : Typed d c own { s with run := r } { v with run := v.run.leave } := typed.framed
      exact framed.before (.of_run visits.drafts rfl id) rfl sound
  · exact absurd h (by rw [Ends.throw_iff]; exact id)

/-- Whether the loop over the containers may declare a node. -/
def Kept (c : Collection) (g : Graph) (j : Nat) : Prop :=
  j ∈ c.containers ∧ (g.node j).kind.isCircular = false ∧ g.inArguments j = false

theorem Kept.grow {g h : Graph} {j : Nat} (kept : Kept c g j) (step : g.Grows g.unvisited h)
    (lt : j < g.size) : Kept c h j := by
  obtain ⟨mem, open_, outside⟩ := kept
  refine ⟨mem, ?_, ?_⟩
  · rwa [step.kind lt]
  · rwa [step.toExtends.inArguments lt]

/-- What the loop over the containers does with one of them. -/
def declareContainer (d : Document) (c : Collection) (i : Nat) : Drafting Unit := do
  let r := (← get).run
  match (r.graph.node i).kind with
  | .circular _ => pure ()
  | _ =>
    if r.graph.inArguments i || Draft.isPruned r i then pure ()
    else discard (nodeType d c i .output)

theorem declareContainers_eq :
    declareContainers d c = c.containers.forM (declareContainer d c) := rfl

/-- A container is passed over, or its type is found. -/
theorem declareContainer_cases {u : Unit} (h : Ends (declareContainer d c i) s u t) :
    s = t ∧ ((s.run.graph.node i).kind.tag = .circular ∨ s.run.graph.inArguments i = true ∨
        Draft.isPruned s.run i = true) ∨
      (s.run.graph.node i).kind.tag ≠ .circular ∧ s.run.graph.inArguments i = false ∧
        Draft.isPruned s.run i = false ∧ ∃ ty, Ends (nodeType d c i .output) s ty t := by
  unfold declareContainer at h
  simp only [Ends.bind_iff, Ends.get_iff] at h
  obtain ⟨_, _, ⟨rfl, rfl⟩, h⟩ := h
  split at h
  · next kind =>
    obtain ⟨-, rfl⟩ := Ends.pure_iff.mp h
    exact .inl ⟨rfl, .inl (by rw [kind]; rfl)⟩
  · next open_ =>
    split at h
    · next passed =>
      obtain ⟨-, rfl⟩ := Ends.pure_iff.mp h
      exact .inl ⟨rfl, .inr ((Bool.or_eq_true _ _).mp passed)⟩
    · next declared =>
      rw [Bool.or_eq_true, not_or, Bool.not_eq_true, Bool.not_eq_true] at declared
      refine .inr ⟨fun tag => ?_, declared.1, declared.2, Ends.discard_iff.mp h⟩
      cases kind : (s.run.graph.node i).kind with
      | circular target => exact open_ target kind
      | _ =>
        rw [kind] at tag
        cases tag

/-- A container is declared with all that is met from it, or pruned. -/
theorem declareContainer_typed {u : Unit} (h : Ends (declareContainer d c i) s u t)
    (sound : s.run.graph.Sound) (container : (s.run.graph.node i).kind.isContainer = true) :
    s = t ∨ (s.run.graph.node i).kind.isCircular = false ∧ s.run.graph.inArguments i = false ∧
      Draft.isPruned s.run i = false ∧ Typed d c (At .output i) s t := by
  refine (declareContainer_cases h).imp And.left ?_
  rintro ⟨open_, outside, spared, ty, h⟩
  have inside : i < s.run.graph.size := Graph.lt_size_of_ne fun e => by
    rw [e] at container
    cases container
  obtain ⟨open_, schema⟩ : (s.run.graph.node i).kind.isCircular = false ∧
      (s.run.graph.node i).kind.isSchema = true := by
    cases kind : (s.run.graph.node i).kind <;> rw [kind] at container open_ <;>
      first | exact ⟨rfl, rfl⟩ | exact absurd rfl open_ | cases container
  exact ⟨open_, outside, spared, (nodeType_typed h sound inside schema).1⟩

/-- When its turn comes, the loop over the containers does not prune the node. -/
def Spared (d : Document) (c : Collection) (s : Draft) (j : Nat) : Prop :=
  ∃ turn u, c.containers[turn]? = some j ∧
    Ends ((c.containers.take turn).forM (declareContainer d c)) s ⟨⟩ u ∧
      Draft.isPruned u.run j = false

/-- The containers declare all that is met from those not pruned. -/
theorem declareContainers_typed {u : Unit} (h : Ends (declareContainers d c) s u t)
    (sound : s.run.graph.Sound)
    (containers : ∀ j ∈ c.containers, (s.run.graph.node j).kind.isContainer = true) :
    ∃ starts, Typed d c starts s t ∧
      ∀ side j, starts side j → side = .output ∧ Kept c t.run.graph j ∧ Spared d c s j := by
  rw [declareContainers_eq] at h
  refine Ends.forM_turns (I := fun _ t => ∃ starts, Typed d c starts s t ∧
    ∀ side j, starts side j → side = .output ∧ Kept c t.run.graph j ∧ Spared d c s j) ?_
    ⟨_, .none (.refl d s) rfl, fun _ _ => False.elim⟩ h
  rintro turn j t v at_ before ⟨starts, typed, kept⟩ h
  have sound' := typed.grows.sound sound
  have mem := List.mem_of_getElem? at_
  have container := containers j mem
  have inside : j < s.run.graph.size := Graph.lt_size_of_ne fun e => by
    rw [e] at container
    cases container
  rw [← typed.grows.run.grows.kind inside] at container
  obtain rfl | ⟨open_, outside, spared, typed'⟩ := declareContainer_typed h sound' container
  · exact ⟨starts, typed, kept⟩
  · have step := typed'.grows.run.grows
    refine ⟨_, typed.trans typed' sound, ?_⟩
    rintro side i (start | ⟨rfl, rfl⟩)
    · obtain ⟨out, kept, spared⟩ := kept side i start
      exact ⟨out, kept.grow step (typed.explored start).inside, spared⟩
    · exact ⟨rfl, Kept.grow ⟨mem, open_, outside⟩ step
        (inside.trans_le typed.grows.run.grows.size_le), turn, t, at_, before, spared⟩

end Drafting

namespace Draft

/-- A draft is typed from the containers that are kept and from the payloads of the operations. -/
structure Generated (d : Document) (c : Collection) (r : Run) (t : Draft)
    (ops : List OperationDecl) (starts : Side → Nat → Prop) : Prop where
  typed : Typed d c starts (.start r) t
  fits : ∀ o ∈ ops, ∃ own, t.Fits c own o ∧ ∀ side j, own side j → starts side j
  nodes : ∀ o ∈ ops, o.node ∈ c.operations ∧ (t.run.graph.node o.node).visited = true ∧
    (t.run.graph.node o.node).kind.tag = .operation
  names : ∀ o ∈ ops, o.name = (t.run.graph.node o.node).name ∧ o.response.isSome = true
  roots : ∀ side j, starts side j →
    side = .output ∧ Drafting.Kept c t.run.graph j ∧ Drafting.Spared d c (.start r) j ∨
    ∃ o ∈ ops, ∃ own, t.Fits c own o ∧ (∀ side j, own side j → starts side j) ∧ own side j

end Draft

/-! ## Starts -/

/-- The nodes from which types are found: containers that are kept, and schemas of payloads. -/
def Graph.Starts (g : Graph) (c : Collection) (side : Side) (i : Nat) : Prop :=
  side = .output ∧ Drafting.Kept c g i ∨ ∃ op ∈ c.operations, g.IsPayload op side i

/-- A container for which types are found. -/
def Graph.Shown (g : Graph) (c : Collection) (side : Side) (n : Nat) : Prop :=
  (g.node n).kind.isStructured = true ∧ ∃ i, g.Starts c side i ∧ g.Meets c side i n

theorem Draft.Tidy.start (r : Run) : (Draft.start r).Tidy :=
  ⟨List.nodup_nil, fun _ none => absurd none List.not_mem_nil,
    fun _ none => absurd none List.not_mem_nil⟩

namespace Draft.Generated

variable {r : Run} {t : Draft} {ops : List OperationDecl} {starts : Side → Nat → Prop} {j : Nat}

theorem tidy (gen : t.Generated d c r ops starts) : t.Tidy := gen.typed.grows.tidy (.start r)

/-- Types are found from the starts of the graph and from nowhere else. -/
theorem isStart (gen : t.Generated d c r ops starts) (start : starts side j) :
    t.run.graph.Starts c side j := by
  rcases gen.roots side j start with ⟨out, kept, -⟩ | ⟨o, mem, own, fits, -, here⟩
  · exact .inl ⟨out, kept⟩
  · exact .inr ⟨o.node, (gen.nodes o mem).1, fits.payload side j here⟩

/-- Every field was declared for a container. -/
theorem shows_of_mem (gen : t.Generated d c r ops starts) {decl : TypeDecl} (mem : decl ∈ t.decls)
    {x : FieldDecl} (field : x ∈ decl.definition.fields) :
    ∃ side m, t.run.graph.Shown c side m ∧ t.Shows c side m decl.key x := by
  rcases gen.typed.fields decl mem x field with
    ⟨_, none, -⟩ | ⟨side, i, m, start, meets, structured, shows_⟩
  · cases none
  · exact ⟨side, m, ⟨structured, i, gen.isStart start, meets⟩, shows_⟩

end Draft.Generated

namespace Build

/-- A draft is what the containers and then the operations leave behind. -/
theorem ends_draft {r r' : Run} {t : Draft} {ops : List OperationDecl}
    (h : Ends (Build.draft d c) r (t, ops) r') : r' = t.run ∧ ∃ s,
      Ends (Drafting.declareContainers d c) (.start r) () s ∧
      Ends (c.operations.mapM (Drafting.operation d c)) s ops t := by
  unfold Build.draft at h
  simp only [Ends.bind_iff, Ends.get_iff] at h
  obtain ⟨_, _, ⟨rfl, rfl⟩, h⟩ := h
  split at h
  next result s run =>
    simp only [Ends.bind_iff, Ends.set_iff, Ends.liftExcept_iff, Ends.pure_iff, Prod.mk.injEq] at h
    obtain ⟨_, _, rfl, _, _, ⟨rfl, rfl⟩, ⟨rfl, rfl⟩, rfl⟩ := h
    obtain ⟨_, u, containers, operations⟩ := Ends.bind_iff.mp (show Ends _ _ _ _ from run)
    exact ⟨rfl, u, containers, operations⟩

/-- The root fields stand in the order of the operations. -/
theorem draft_order {r r' : Run} {t : Draft} {ops : List OperationDecl}
    (h : Ends (Build.draft d c) r (t, ops) r') : ops.map OperationDecl.node = c.operations := by
  obtain ⟨-, s, -, mapped⟩ := ends_draft h
  exact Ends.mapM_items Drafting.operation_node mapped

/-- **What a draft has once it is generated.** -/
theorem draft_generated {r r' : Run} {t : Draft} {ops : List OperationDecl}
    (h : Ends (Build.draft d c) r (t, ops) r') (sound : r.graph.Sound)
    (served : ∀ o, r.graph.ServedAt o)
    (containers : ∀ j ∈ c.containers, (r.graph.node j).kind.isContainer = true) :
    r' = t.run ∧ ∃ starts, t.Generated d c r ops starts := by
  obtain ⟨rfl, s, looped, mapped⟩ := ends_draft h
  refine ⟨rfl, ?_⟩
  obtain ⟨kept, typed, loop⟩ := Drafting.declareContainers_typed looped sound containers
  refine Ends.mapM_keeps (I := fun ops t => ∃ starts, t.Generated d c r ops starts) ?_
    ⟨kept, typed, fun o none => absurd none List.not_mem_nil,
      fun o none => absurd none List.not_mem_nil, fun o none => absurd none List.not_mem_nil,
      fun side j start => .inl (loop side j start)⟩ mapped
  rintro i ops o u v mem ⟨starts, gen⟩ h
  have sound' := gen.typed.grows.sound sound
  obtain ⟨node, name, answered, visited, tag, own, typed', fits⟩ :=
    Drafting.operation_typed h sound' (gen.typed.grows.run.served (served i))
  have step := typed'.grows.run.grows
  -- the root fields so far stay right, as their payloads were visited
  have grown : ∀ {o own}, o ∈ ops → u.Fits c own o → (∀ side j, own side j → starts side j) →
      v.Fits c own o := fun {o own} mem fits sub => by
    obtain ⟨-, visited, tag⟩ := gen.nodes o mem
    exact fits.grow typed'.grows sound' (fun start => gen.typed.explored (sub _ _ start)) visited
      (gen.typed.grows.run.served (served o.node) tag visited).1
  have inside : ∀ o' ∈ ops, o'.node < u.run.graph.size := fun o' old =>
      Graph.lt_size_of_ne fun e => by
    have tag := (gen.nodes o' old).2.2
    rw [e] at tag
    cases tag
  refine ⟨_, gen.typed.trans typed' sound, fun o' mem' => ?_, fun o' mem' => ?_, fun o' mem' => ?_,
    fun side j start => ?_⟩
  · rcases List.mem_append.mp mem' with old | new
    · obtain ⟨own', fits', sub⟩ := gen.fits o' old
      exact ⟨own', grown old fits' sub, fun side j start => .inl (sub side j start)⟩
    · rw [List.mem_singleton.mp new]
      exact ⟨own, fits, fun _ _ => .inr⟩
  · rcases List.mem_append.mp mem' with old | new
    · obtain ⟨picked, visited, tag⟩ := gen.nodes o' old
      have lt := inside o' old
      exact ⟨picked, (step.keeps lt).visited visited, (congrArg Kind.tag (step.kind lt)).trans tag⟩
    · rw [List.mem_singleton.mp new, node]
      exact ⟨mem, visited, tag⟩
  · rcases List.mem_append.mp mem' with old | new
    · obtain ⟨name, answered⟩ := gen.names o' old
      exact ⟨name.trans (step.keeps (inside o' old)).name.symm, answered⟩
    · rw [List.mem_singleton.mp new, node]
      exact ⟨name, answered⟩
  · rcases start with start | start
    · rcases gen.roots side j start with ⟨rfl, kept, spared⟩ | ⟨o', old, own', fits', sub, here⟩
      · exact .inl ⟨rfl, kept.grow step (gen.typed.explored start).inside, spared⟩
      · exact .inr ⟨o', List.mem_append_left _ old, own', grown old fits' sub,
          fun side j start => .inl (sub side j start), here⟩
    · exact .inr ⟨o, List.mem_append_right _ (List.mem_singleton_self o), own, fits,
        fun _ _ => .inr, start⟩

end Build

end RestGraph
