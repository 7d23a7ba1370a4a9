import RestGraph.Proofs.Graph.Ids
import RestGraph.Proofs.Schema.Typed

/-!
# Typing

The functions that give a node its type, a property its type and a container its declaration leave
behind what typing promises.
-/

namespace RestGraph

variable {d : Document} {c : Collection} {side : Side} {i m : Nat} {s t u : Draft}

namespace Graph

variable {g : Graph}

/-- Below a node made from a fragment, wrappers lead to such nodes only. -/
theorem Leads.isSchema {target : Nat} (leads : g.Leads i target) (sound : g.Sound)
    (schema : (g.node i).kind.isSchema = true) : (g.node target).kind.isSchema = true := by
  induction leads with
  | here => exact schema
  | @down i c _ rest wrapper children _ ih =>
    refine ih ?_
    have admits := sound.admits (children ▸ List.mem_cons_self : c ∈ (g.node i).children)
    cases kind : (g.node i).kind <;> rw [kind] at wrapper schema admits <;>
      first | exact admits | cases wrapper | cases schema

@[simp] theorem not_isStructured_of_isProperty {n : Node} (prop : n.isProperty = true) :
    n.kind.isStructured = false := by
  obtain ⟨_, _, kind⟩ := Kind.eq_property_of_isProperty prop
  rw [kind]
  rfl

theorem not_enum_of_isProperty {n : Node} (prop : n.isProperty = true) : n.kind.tag ≠ .enum := by
  obtain ⟨_, _, kind⟩ := Kind.eq_property_of_isProperty prop
  rw [kind]
  exact Tag.noConfusion

theorem Leads.lt_size {target : Nat} (leads : g.Leads i target) (sound : g.Sound)
    (inside : i < g.size) : target < g.size := by
  induction leads with
  | here => exact inside
  | down _ children _ ih => exact ih (sound.below (children ▸ List.mem_cons_self)).2

@[simp] theorem isCircular_of_tag {e : Nat} (tag : (g.node e).kind.tag = .circular) :
    (g.node e).kind.isCircular = true := by
  cases kind : (g.node e).kind <;> rw [kind] at tag <;> first | rfl | cases tag

@[simp] theorem not_isStructured_of_tag {e : Nat} (tag : (g.node e).kind.tag = .circular) :
    (g.node e).kind.isStructured = false := by
  cases kind : (g.node e).kind <;> rw [kind] at tag <;> first | rfl | cases tag

@[simp]
theorem not_isCircular_of_isStructured {e : Nat}
    (structured : (g.node e).kind.isStructured = true) : (g.node e).kind.isCircular = false := by
  cases kind : (g.node e).kind <;> rw [kind] at structured <;> first | rfl | cases structured

/-- A container has the key of its declaration, unless it is hollow. -/
theorem declKey?_of_isStructured {e : Nat} (structured : (g.node e).kind.isStructured = true) :
    g.declKey? c side e = if g.isHollow c side e then none else some (g.declKey side e) := by
  unfold declKey?
  cases kind : (g.node e).kind <;> rw [kind] at structured <;> try cases structured
  · next synthetic => cases synthetic <;> first | rfl | cases structured
theorem not_leads_of_tag {e : Nat} (tag : (g.node e).kind.tag = .circular) :
    ¬((g.node e).kind.isWrapper = true ∨ (g.node e).kind.isArray = true) := by
  cases kind : (g.node e).kind <;> rw [kind] at tag <;> cases tag
  exact not_or.mpr ⟨Bool.noConfusion, Bool.noConfusion⟩

/-- Below a property that closes a cycle stands the edge back, or nothing. -/
theorem elementOf_of_closed (sound : g.Sound) {required : Bool}
    (kind : (g.node i).kind = .property .circular required) :
    g.elementOf i = i ∨ (g.node (g.elementOf i)).kind.tag = .circular := by
  cases children : (g.node i).children with
  | nil => exact .inl (elementOf_of_childless children)
  | cons c rest =>
    have child : c ∈ (g.node i).children := children ▸ List.mem_cons_self
    have first : g.elementOf i = g.elementOf c :=
      elementOf_of_first (.inl (by rw [kind]; rfl)) children (sound.below child)
    have admits := sound.admits child
    rw [kind] at admits
    have tag : (g.node c).kind.tag = .circular := beq_iff_eq.mp admits
    rw [first, elementOf_of_isCircular tag]
    exact .inr tag

/-- A visited node leads on to its first child, also when the graph has grown. -/
theorem Grows.elementOf_first {h : Graph} {c : Nat} {rest : List Nat}
    (step : g.Grows g.unvisited h) (sound : g.Sound) (visited : (g.node i).visited = true)
    (leads : (g.node i).kind.isWrapper = true ∨ (g.node i).kind.isArray = true)
    (children : (g.node i).children = c :: rest) : h.elementOf i = h.elementOf c := by
  have child : c ∈ (g.node i).children := children ▸ List.mem_cons_self
  have inside := lt_size_of_child child
  have keeps := step.keeps inside
  refine elementOf_of_first ?_ ((step.children inside ?_).trans children) ?_
  · rwa [keeps.kind.isWrapper, keeps.kind.isArray]
  · exact notMem_unvisited.mpr visited
  · exact ⟨(sound.below child).1, (sound.below child).2.trans_le step.size_le⟩

/-- Only the element itself is met from a node whose element carries no fields. -/
theorem Meets.eq_elementOf {e : Nat} (meets : g.Meets c side i e)
    (plain : (g.node (g.elementOf i)).kind.isStructured = false) : e = g.elementOf i := by
  cases meets with
  | here => rfl
  | field structured =>
    rw [plain] at structured
    cases structured

/-- What is neither container nor enum has no declaration. -/
@[simp] theorem declKey?_eq_none {e : Nat} (plain : (g.node e).kind.isStructured = false)
    (other : (g.node e).kind.tag ≠ .enum) : g.declKey? c side e = none := by
  unfold declKey?
  split
  · next kind => rw [kind] at plain; cases plain
  · next kind => rw [kind] at plain; cases plain
  · next kind => rw [kind] at plain; cases plain
  · next kind => rw [kind] at other; exact absurd rfl other
  · rfl

@[simp]
theorem isMerged_of_plain {n : Node} (plain : n.kind.isStructured = false) : n.isMerged = true := by
  unfold Node.isMerged
  cases kind : n.kind <;> rw [kind] at plain <;> first | rfl | cases plain

end Graph

namespace Draft

/-- A way that ends at a node without fields: at most that node is declared. -/
theorem Typed.of_plain (step : s.Grows d t) (inside : i < t.run.graph.size)
    (plain : (t.run.graph.node (t.run.graph.elementOf i)).kind.isStructured = false)
    (visited : (t.run.graph.node (t.run.graph.elementOf i)).kind.isWrapper = true ∨
      (t.run.graph.node (t.run.graph.elementOf i)).kind.isArray = true →
        (t.run.graph.node (t.run.graph.elementOf i)).visited = true)
    (keys : ∀ decl ∈ t.decls, (∃ old ∈ s.decls, old.Keeps decl) ∨
      t.IsOf c side (t.run.graph.elementOf i) decl)
    (fields : ∀ decl ∈ t.decls, ∀ x ∈ decl.definition.fields,
      ∃ old ∈ s.decls, old.key = decl.key ∧ x ∈ old.definition.fields)
    (bottomUp : s.run.graph.Sound → s.BottomUp c → t.BottomUp c) :
    Typed d c (At side i) s t where
  grows := step
  explored := fun {side' i'} start => by
    obtain ⟨rfl, rfl⟩ := start
    refine ⟨inside, fun e meets => ?_⟩
    rw [meets.eq_elementOf plain]
    refine ⟨Graph.elementOf_lt inside, fun needs => ?_, Graph.isMerged_of_plain plain⟩
    rw [plain] at needs
    exact visited (needs.imp_right fun needs => needs.resolve_right Bool.noConfusion)
  declares _ := fun {side' i' m} start meets structured => by
    obtain ⟨rfl, rfl⟩ := start
    rw [meets.eq_elementOf plain, plain] at structured
    cases structured
  keys decl mem := (keys decl mem).imp_right fun isOf =>
    ⟨side, i, _, ⟨rfl, rfl⟩, .here i, isOf⟩
  fields decl mem x hx := .inl (fields decl mem x hx)
  bottomUp := bottomUp

/-- A way that ends at a node without fields, where nothing is declared. -/
theorem Typed.of_idle (step : s.Grows d t) (decls : t.decls = s.decls)
    (inside : i < t.run.graph.size)
    (plain : (t.run.graph.node (t.run.graph.elementOf i)).kind.isStructured = false)
    (visited : (t.run.graph.node (t.run.graph.elementOf i)).kind.isWrapper = true ∨
      (t.run.graph.node (t.run.graph.elementOf i)).kind.isArray = true →
        (t.run.graph.node (t.run.graph.elementOf i)).visited = true) :
    Typed d c (At side i) s t :=
  .of_plain step inside plain visited (fun decl mem => .inl ⟨decl, decls ▸ mem, .refl decl⟩)
    (fun decl mem _ hx => ⟨decl, decls ▸ mem, rfl, hx⟩)
    fun sound before => before.grow sound step decls

theorem Answers.of_scalar {type : ScalarType} {e : Nat} (element : s.run.graph.elementOf i = e)
    (open_ : (s.run.graph.node e).kind.isCircular = false)
    (none : s.run.graph.declKey? c side e = none)
    (marked : type = .json → s.usesJson = true) : s.Answers c side i (some (.scalar type)) := by
  refine ⟨element ▸ open_, ?_, fun core => marked (TypeRef.scalar.inj core)⟩
  rw [element, none]
  exact ⟨type, rfl⟩

/-- List brackets make no difference. -/
theorem Answers.list {ty : Option TypeRef} (answers : s.Answers c side i ty) :
    s.Answers c side i (ty.map .list) := by
  cases ty with
  | none => exact answers
  | some ty =>
    refine ⟨answers.1, ?_⟩
    have stands := answers.2
    unfold TypeRef.Stands TypeRef.IsMarked at stands ⊢
    exact stands

end Draft

namespace Drafting

open Draft

/-- What a function that types nodes promises. -/
def TypesNodes (d : Document) (c : Collection)
    (typeOf : Nat → Side → Drafting (Option TypeRef)) : Prop :=
  ∀ {i side s ty t}, Ends (typeOf i side) s ty t → s.run.graph.Sound → i < s.run.graph.size →
    (s.run.graph.node i).kind.isSchema = true → Typed d c (At side i) s t ∧ t.Answers c side i ty

/-- A node that is the end of its way, with no fields and no values, has a scalar for its type. -/
theorem typed_of_end {type : ScalarType} (step : s.Grows d t) (decls : t.decls = s.decls)
    (inside : i < t.run.graph.size) (element : t.run.graph.elementOf i = i)
    (visited : (t.run.graph.node i).visited = true)
    (plain : (t.run.graph.node i).kind.isStructured = false)
    (other : (t.run.graph.node i).kind.tag ≠ .enum)
    (open_ : (t.run.graph.node i).kind.isCircular = false)
    (marked : type = .json → t.usesJson = true) :
    Typed d c (At side i) s t ∧ t.Answers c side i (some (.scalar type)) := by
  constructor
  · exact .of_idle step decls inside (by rw [element, plain]) fun _ => by rw [element, visited]
  · exact .of_scalar element open_ (Graph.declKey?_eq_none plain other) marked

/-- Where the type of a property comes from, once it was visited. -/
inductive TypesProp (d : Document) (typeOf : Nat → Side → Drafting (Option TypeRef)) (depth i : Nat)
    (side : Side) (s : Draft) : Option TypeRef → Draft → Prop
  /-- A scalar, and a property with nothing below it. -/
  | scalar {type ty t} (scalar : Ends (scalar type) s ty t) (element : s.run.graph.elementOf i = i)
      (open_ : (s.run.graph.node i).kind.isCircular = false) :
      TypesProp d typeOf depth i side s (some ty) t
  | circular {required} (kind : (s.run.graph.node i).kind = .property .circular required) :
      TypesProp d typeOf depth i side s none s
  | list {required item rest ty t} (type : Ends (propTypeWithin d typeOf depth item side) s ty t)
      (kind : (s.run.graph.node i).kind = .property .array required)
      (children : (s.run.graph.node i).children = item :: rest) :
      TypesProp d typeOf depth i side s (ty.map .list) t
  | wraps {child rest ty t} (type : Ends (typeOf child side) s ty t)
      (wrapper : (s.run.graph.node i).kind.isWrapper = true)
      (children : (s.run.graph.node i).children = child :: rest)
      (schema : (s.run.graph.node child).kind.isSchema = true) :
      TypesProp d typeOf depth i side s ty t

/-- How the type of a property comes about: from its element, or from the node it leads to. -/
theorem propTypeWithin_cases {typeOf : Nat → Side → Drafting (Option TypeRef)} {depth : Nat}
    {ty : Option TypeRef} (h : Ends (propTypeWithin d typeOf (depth + 1) i side) s ty t)
    (sound : s.run.graph.Sound) (inside : i < s.run.graph.size)
    (prop : (s.run.graph.node i).isProperty = true) :
    ∃ r, s.run.Visits d r ∧ (r.graph.node i).visited = true ∧ (r.graph.node i).isProperty = true ∧
      TypesProp d typeOf depth i side { s with run := r } ty t := by
  rw [propTypeWithin] at h
  simp only [Ends.bind_iff, ends_lift, ends_node] at h
  obtain ⟨_, v, ⟨r, visit, rfl⟩, _, _, ⟨rfl, rfl⟩, h⟩ := h
  obtain ⟨visits, visited⟩ := Build.visit_steps visit sound
  have prop' : (r.graph.node i).isProperty = true := by
    rw [Node.isProperty, visits.grows.kind inside]
    exact prop
  refine ⟨r, visits, visited, prop', ?_⟩
  split at h
  · next kind =>
    simp only [Ends.bind_iff, Ends.pure_iff] at h
    obtain ⟨_, _, h, rfl, rfl⟩ := h
    refine .scalar h (Graph.elementOf_of_end ?_ ?_) ?_ <;> dsimp only <;> rw [kind] <;> rfl
  · next kind =>
    obtain ⟨rfl, rfl⟩ := Ends.pure_iff.mp h
    exact .circular kind
  · next kind children =>
    simp only [Ends.bind_iff, Ends.pure_iff] at h
    obtain ⟨ty, _, h, rfl, rfl⟩ := h
    exact .list h kind children
  · next shape required child rest noScalar noCircular noArray kind children =>
    have wraps : shape.isWrapper = true := by
      cases shape <;> first | rfl | exact absurd rfl (noScalar _ _) | exact absurd rfl noArray
    have admits := (visits.sound sound).admits (children ▸ List.mem_cons_self :
      child ∈ (r.graph.node i).children)
    refine .wraps h (by dsimp only; rw [kind]; exact wraps) children ?_
    rw [kind] at admits
    cases shape <;> first | exact admits | exact (noCircular rfl).elim | cases wraps
  · next shape required noScalar noCircular kind children =>
    simp only [Ends.bind_iff, Ends.pure_iff] at h
    obtain ⟨_, _, h, rfl, rfl⟩ := h
    refine .scalar h (Graph.elementOf_of_childless children) ?_
    dsimp only
    rw [kind]
    cases shape <;> first | rfl | exact absurd rfl noCircular
  · next noScalar noCircular noArray noChild none =>
    obtain ⟨shape, required, kind⟩ := Kind.eq_property_of_isProperty prop'
    cases children : (r.graph.node i).children with
    | nil => exact (none shape required kind children).elim
    | cons child rest => exact (noChild shape required child rest kind children).elim

/-- The type of a property declares all that is met from it, at any depth. -/
theorem propTypeWithin_typed {typeOf : Nat → Side → Drafting (Option TypeRef)}
    (spec : TypesNodes d c typeOf) {depth : Nat} {ty : Option TypeRef}
    (h : Ends (propTypeWithin d typeOf depth i side) s ty t) (sound : s.run.graph.Sound)
    (inside : i < s.run.graph.size) (prop : (s.run.graph.node i).isProperty = true) :
    Typed d c (At side i) s t ∧ t.Answers c side i ty := by
  induction depth generalizing i s ty t with
  | zero => exact absurd h (by rw [propTypeWithin, Ends.throw_iff]; exact id)
  | succ depth ih =>
    obtain ⟨r, visits, visited, prop', types⟩ := propTypeWithin_cases h sound inside prop
    have step : s.Grows d { s with run := r } := .of_run visits.drafts rfl id
    have sound' : r.graph.Sound := visits.sound sound
    have inside' : i < r.graph.size := inside.trans_le visits.grows.size_le
    cases types with
    | scalar h element open_ =>
      obtain ⟨rfl, marks, marked⟩ := ends_scalar h
      refine typed_of_end (step.trans (.of_marks marks)) marks.decls ?_ ?_ ?_ ?_ ?_ ?_ marked <;>
        rw [marks.run]
      · exact inside'
      · exact element
      · exact visited
      · exact Graph.not_isStructured_of_isProperty prop'
      · exact Graph.not_enum_of_isProperty prop'
      · exact open_
    | circular kind =>
      -- the node that closes the cycle stands below the property, unless it was left out
      have ends := Graph.elementOf_of_closed sound' kind
      have circular : (r.graph.node (r.graph.elementOf i)).kind.isCircular = true := by
        rcases ends with e | e
        · rw [e, kind]
          rfl
        · exact Graph.isCircular_of_tag e
      refine ⟨.of_idle step rfl inside' ?_ fun needs => ?_, circular⟩
      · rcases ends with e | e
        · rw [e, kind]
          rfl
        · exact Graph.not_isStructured_of_tag e
      · rcases ends with e | e
        · rw [e]
          exact visited
        · exact absurd needs (Graph.not_leads_of_tag e)
    | @list _ item rest ty _ h kind children =>
      have child : item ∈ (r.graph.node i).children := children ▸ List.mem_cons_self
      have admits := sound'.admits child
      rw [kind] at admits
      obtain ⟨typed, answers⟩ := ih h sound' (sound'.below child).2 admits
      have grows := typed.grows.run.grows
      have same := grows.elementOf_first sound' visited (.inr (by rw [kind]; rfl)) children
      exact ⟨(typed.shift (inside'.trans_le grows.size_le) same).before step rfl sound,
        (answers.shift same).list⟩
    | @wraps child rest _ _ h wrapper children schema =>
      have mem : child ∈ (r.graph.node i).children := children ▸ List.mem_cons_self
      obtain ⟨typed, answers⟩ := spec h sound' (sound'.below mem).2 schema
      have grows := typed.grows.run.grows
      have same := grows.elementOf_first sound' visited (.inl wrapper) children
      exact ⟨(typed.shift (inside'.trans_le grows.size_le) same).before step rfl sound,
        answers.shift same⟩

/-- The fields with a name are where the ways from a container start. -/
def Through (side : Side) (fs : List VisibleField) (side' : Side) (i : Nat) : Prop :=
  side' = side ∧ ∃ f ∈ fs, f.name.isSome = true ∧ f.prop = i

/-- What is met through fields is met from one of them. -/
@[simp] theorem through_cons {f : VisibleField} {fs : List VisibleField} {side' : Side} :
    Through side (f :: fs) side' i ↔
      f.name.isSome = true ∧ At side f.prop side' i ∨ Through side fs side' i := by
  unfold Through At
  constructor
  · rintro ⟨rfl, f', mem, named, rfl⟩
    rcases List.mem_cons.mp mem with rfl | mem
    · exact .inl ⟨named, rfl, rfl⟩
    · exact .inr ⟨rfl, f', mem, named, rfl⟩
  · rintro (⟨named, rfl, rfl⟩ | ⟨rfl, f', mem, named, rfl⟩)
    · exact ⟨rfl, f, List.mem_cons_self, named, rfl⟩
    · exact ⟨rfl, f', List.mem_cons_of_mem f mem, named, rfl⟩

/-- The declarations are those of the fields that are declared, with their names and types. -/
structure Pairs (t : Draft) (c : Collection) (side : Side) (fs : List VisibleField)
    (xs : List FieldDecl) : Prop where
  origin : ∀ x ∈ xs, ∃ f ∈ fs, f.isDeclared t.run.graph = true ∧ f.jsonName = x.jsonName ∧
    f.name = some x.name ∧
      x.type.Stands t.decls (t.run.graph.declKey? c side (t.run.graph.elementOf f.prop)) ∧
        x.type.IsMarked t
  covers : ∀ f ∈ fs, f.isDeclared t.run.graph = true → ∃ x ∈ xs, x.jsonName = f.jsonName
  keys : (xs.map FieldDecl.jsonName).Sublist (fs.map VisibleField.jsonName)

theorem Pairs.skip {f : VisibleField} {fs : List VisibleField} {xs : List FieldDecl}
    (pairs : Pairs t c side fs xs) (silent : f.isDeclared t.run.graph = false) :
    Pairs t c side (f :: fs) xs where
  origin x hx := by
    obtain ⟨f', mem, rest⟩ := pairs.origin x hx
    exact ⟨f', List.mem_cons_of_mem f mem, rest⟩
  covers f' mem declared := by
    rcases List.mem_cons.mp mem with rfl | mem
    · rw [silent] at declared
      cases declared
    · exact pairs.covers f' mem declared
  keys := pairs.keys.cons _

/-- A field that is declared comes before the others. -/
theorem Pairs.cons {f : VisibleField} {fs : List VisibleField} {xs : List FieldDecl}
    {x : FieldDecl} {ty : TypeRef} (pairs : Pairs t c side fs xs) (json : x.jsonName = f.jsonName)
    (name : f.name = some x.name) (type : x.type = ty)
    (answers : t.Answers c side f.prop (some ty)) : Pairs t c side (f :: fs) (x :: xs) where
  origin y hy := by
    rcases List.mem_cons.mp hy with rfl | hy
    · refine ⟨f, List.mem_cons_self, ?_, json.symm, name, type ▸ answers.2⟩
      rw [VisibleField.isDeclared, name, answers.1]
      rfl
    · obtain ⟨f', mem, rest⟩ := pairs.origin y hy
      exact ⟨f', List.mem_cons_of_mem f mem, rest⟩
  covers f' mem declared := by
    rcases List.mem_cons.mp mem with rfl | mem
    · exact ⟨x, List.mem_cons_self, json⟩
    · obtain ⟨y, hy, same⟩ := pairs.covers f' mem declared
      exact ⟨y, List.mem_cons_of_mem x hy, same⟩
  keys := by
    rw [List.map_cons, List.map_cons, json]
    exact pairs.keys.cons_cons _

/-- The types of fields declare all that is met from them. -/
theorem fieldDecls_typed {typeOf : Nat → Side → Drafting (Option TypeRef)}
    (spec : TypesNodes d c typeOf) {fs : List VisibleField} {xs : List FieldDecl}
    (h : Ends (fieldDecls d typeOf side fs) s xs t) (sound : s.run.graph.Sound)
    (props : ∀ f ∈ fs, f.prop < s.run.graph.size ∧ (s.run.graph.node f.prop).isProperty = true) :
    Typed d c (Through side fs) s t ∧ Pairs t c side fs xs := by
  induction fs generalizing s t xs with
  | nil =>
    rw [fieldDecls] at h
    obtain ⟨rfl, rfl⟩ := Ends.pure_iff.mp h
    refine ⟨(Typed.none (.refl d s) rfl).mono fun _ _ => ⟨False.elim, ?_⟩, ?_, ?_, .slnil⟩
    · rintro ⟨-, _, none, -⟩
      exact List.not_mem_nil none
    · exact fun x none => absurd none List.not_mem_nil
    · exact fun f none => absurd none List.not_mem_nil
  | cons f rest ih =>
    have later : ∀ f ∈ rest, f.prop < s.run.graph.size ∧
        (s.run.graph.node f.prop).isProperty = true :=
      fun f mem => props f (List.mem_cons_of_mem _ mem)
    rw [fieldDecls] at h
    split at h
    · next unnamed =>
      obtain ⟨typed, pairs⟩ := ih h sound later
      refine ⟨typed.mono fun _ _ => ?_, pairs.skip ?_⟩
      · rw [through_cons, unnamed]
        exact ⟨.inr, fun h => h.resolve_left fun none => Bool.noConfusion none.1⟩
      · rw [VisibleField.isDeclared, unnamed]
        rfl
    · next name named =>
      simp only [Ends.bind_iff, Ends.get_iff] at h
      obtain ⟨_, _, ⟨rfl, rfl⟩, ty, u, h, h'⟩ := h
      obtain ⟨typed, answers⟩ :=
        propTypeWithin_typed spec h sound (props f List.mem_cons_self).1
          (props f List.mem_cons_self).2
      have sound' := typed.grows.sound sound
      have grows := typed.grows.run.grows
      have later' : ∀ f ∈ rest, f.prop < u.run.graph.size ∧
          (u.run.graph.node f.prop).isProperty = true := fun f mem => by
        obtain ⟨lt, prop⟩ := later f mem
        rw [Node.isProperty, grows.kind lt]
        exact ⟨lt.trans_le grows.size_le, prop⟩
      have starts : ∀ side' i, At side f.prop side' i ∨ Through side rest side' i ↔
          Through side (f :: rest) side' i := fun _ _ => by
        rw [through_cons, named]
        exact or_congr_left (and_iff_right rfl).symm
      have explored := typed.explored ⟨rfl, rfl⟩
      split at h'
      · obtain ⟨more, pairs⟩ := ih h' sound' later'
        have circular := answers.grow more.grows sound' explored
        refine ⟨(typed.trans more sound).mono starts, pairs.skip ?_⟩
        rw [VisibleField.isDeclared, named]
        exact congrArg (fun b => true && !b) circular
      · next ty =>
        simp only [Ends.bind_iff, ends_graph, Ends.pure_iff] at h'
        obtain ⟨_, _, ⟨rfl, rfl⟩, xs, _, h', rfl, rfl⟩ := h'
        obtain ⟨more, pairs⟩ := ih h' sound' later'
        have answers := answers.grow more.grows sound' explored
        exact ⟨(typed.trans more sound).mono starts, pairs.cons rfl named rfl answers⟩

/-- From a container that carries its fields the ways go through them. -/
theorem typed_container {target : Nat}
    (structured : (u.run.graph.node target).kind.isStructured = true)
    (settled : u.run.graph.Settled target)
    (typed : Typed d c (Through side (u.run.graph.fieldsOn c side target)) s u)
    (sound : s.run.graph.Sound) (step : u.Grows d t) (graph : t.run.graph = u.run.graph)
    (declares : u.Tidy → t.Declares c side target)
    (keys : ∀ decl ∈ t.decls, (∃ old ∈ u.decls, old.Keeps decl) ∨ t.IsOf c side target decl)
    (fields : ∀ decl ∈ t.decls, ∀ x ∈ decl.definition.fields,
      (∃ old ∈ u.decls, old.key = decl.key ∧ x ∈ old.definition.fields) ∨
        t.Shows c side target decl.key x)
    (bottomUp : u.run.graph.Explored c side target → u.BottomUp c → t.BottomUp c) :
    Typed d c (At side target) s t := by
  have element := Graph.elementOf_of_isStructured structured
  have sound' := typed.grows.sound sound
  have self : u.run.graph.Meets c side target target := by
    have here : u.run.graph.Meets c side target (u.run.graph.elementOf target) := .here target
    rwa [element] at here
  have through : ∀ {side' i e}, Through side (u.run.graph.fieldsOn c side target) side' i →
      u.run.graph.Meets c side' i e → u.run.graph.Meets c side target e :=
      fun {side' i e} start meets => by
    obtain ⟨rfl, f, shown, named, rfl⟩ := start
    refine .field ?_ ?_ named meets <;> rwa [element]
  have apart : ∀ {e}, u.run.graph.Meets c side target e → e = target ∨
      ∃ f ∈ u.run.graph.fieldsOn c side target, f.name.isSome = true ∧
        u.run.graph.Meets c side f.prop e := fun meets => by
    cases meets with
    | here => exact .inl element
    | field _ shown named more => exact .inr ⟨_, element ▸ shown, named, more⟩
  have explored : u.run.graph.Explored c side target := by
    refine ⟨settled.inside, fun e meets => ?_⟩
    rcases apart meets with rfl | ⟨f, shown, named, meets⟩
    · exact settled
    · exact (typed.explored ⟨rfl, f, shown, named, rfl⟩).settled e meets
  refine ⟨typed.grows.trans step, ?_, ?_, fun decl mem => ?_, fun decl mem x hx => ?_,
    fun sound before => bottomUp explored (typed.bottomUp sound before)⟩
  · rintro _ _ ⟨rfl, rfl⟩
    rw [graph]
    exact explored
  · rintro tidy side target m ⟨rfl, rfl⟩ meets carries
    rw [graph] at meets carries
    rcases apart meets with rfl | ⟨f, shown, named, meets⟩
    · exact declares (typed.grows.tidy tidy)
    · have start : Through side (u.run.graph.fieldsOn c side target) side f.prop :=
        ⟨rfl, f, shown, named, rfl⟩
      exact (typed.declares tidy start meets carries).grow step sound'
        ((typed.explored start).of_meets meets) meets.elementOf carries
  · rw [graph]
    rcases keys decl mem with ⟨old, mem, keeps⟩ | isOf
    · refine (typed.keys old mem).imp ?_ ?_
      · rintro ⟨older, mem, keeps'⟩
        exact ⟨older, mem, keeps'.trans keeps⟩
      rintro ⟨side', _, e, start, meets, isOf⟩
      have isOf := isOf.grow step sound' ((typed.explored start).of_meets meets)
        meets.elementOf keeps
      cases start.1
      exact ⟨side, target, e, ⟨rfl, rfl⟩, through start meets, isOf⟩
    · exact .inr ⟨side, target, target, ⟨rfl, rfl⟩, self, isOf⟩
  · rcases fields decl mem x hx with ⟨old, mem, same, hx⟩ | shows_
    · refine (typed.fields old mem x hx).imp
        ?_ ?_
      · rintro ⟨older, mem, same', hx⟩
        exact ⟨older, mem, same'.trans same, hx⟩
      rintro ⟨side', _, m, start, meets, carries, shows_⟩
      have explored := (typed.explored start).of_meets meets
      have shows_ := same ▸ shows_.grow step sound' explored meets.elementOf carries
      cases start.1
      rw [graph]
      exact ⟨side, target, m, ⟨rfl, rfl⟩, through start meets, carries, shows_⟩
    · rw [graph]
      exact .inr ⟨side, target, target, ⟨rfl, rfl⟩, self, structured, shows_⟩

@[simp] theorem isMerged_of_consolidated {n : Node} (consolidated : n.consolidated = true) :
    n.isMerged = true := by
  rw [Node.isMerged, consolidated, Bool.or_true]

section Containers

variable {target : Nat} {xs : List FieldDecl} {ty : TypeRef}
  (structured : (u.run.graph.node target).kind.isStructured = true)
  (settled : u.run.graph.Settled target)
  (typed : Typed d c (Through side (u.run.graph.fieldsOn c side target)) s u)
  (pairs : Pairs u c side (u.run.graph.fieldsOn c side target) xs) (sound : s.run.graph.Sound)

include structured settled typed pairs sound

/-- Where none of its fields is declared, any JSON value stands for the container. -/
theorem hollow_typed (none : xs = []) (h : Ends (scalar .json) u ty t) :
    Typed d c (At side target) s t ∧ t.Answers c side target (some ty) := by
  have element := Graph.elementOf_of_isStructured structured
  have kind := Graph.not_isCircular_of_isStructured structured
  obtain ⟨rfl, marks, marked⟩ := ends_scalar h
  have decls := marks.decls
  have hollow : u.run.graph.isHollow c side target = true := by
    rw [Graph.isHollow, Bool.not_eq_true', List.any_eq_false]
    intro f shown declared
    obtain ⟨x, hx, -⟩ := pairs.covers f shown declared
    rw [none] at hx
    cases hx
  have graph : t.run.graph = u.run.graph := congrArg Run.graph marks.run
  refine ⟨typed_container structured settled typed sound (.of_marks marks) graph ?_ ?_ ?_
    fun _ before => before.grow (d := d) (typed.grows.sound sound) (.of_marks marks) decls, ?_⟩
  · intro _ solid
    rw [graph, hollow] at solid
    cases solid
  · exact fun decl mem => .inl ⟨decl, decls ▸ mem, .refl decl⟩
  · exact fun decl mem x hx => .inl ⟨decl, decls ▸ mem, rfl, hx⟩
  · refine .of_scalar (graph ▸ element) (graph ▸ kind) ?_ marked
    rw [graph, Graph.declKey?_of_isStructured structured, if_pos hollow]

/-- Otherwise the container gets a declaration with its fields. -/
theorem filled_typed (filled : xs ≠ []) (h : Ends (declare target side (.object xs)) u ty t) :
    Typed d c (At side target) s t ∧ t.Answers c side target (some ty) := by
  have element := Graph.elementOf_of_isStructured structured
  have kind := Graph.not_isCircular_of_isStructured structured
  have proper : (Definition.object xs).IsProper :=
    ⟨filled, ((typed.grows.sound sound).nodup_fieldsOn c side target).sublist pairs.keys⟩
  obtain ⟨step, declared⟩ := declare_object (d := d) h structured proper
  have graph := declared.graph
  obtain ⟨x, hx⟩ := List.exists_mem_of_ne_nil xs filled
  have solid : u.run.graph.isHollow c side target = false := by
    obtain ⟨f, shown, open_, -⟩ := pairs.origin x hx
    rw [Graph.isHollow, Bool.not_eq_false', List.any_eq_true]
    exact ⟨f, shown, open_⟩
  have key : u.run.graph.declKey? c side target = some (u.run.graph.declKey side target) := by
    rw [Graph.declKey?_of_isStructured structured, solid]
    rfl
  refine ⟨typed_container structured settled typed sound step graph ?_ ?_ ?_
    fun explored before => ?_, ?_, ?_, ?_⟩
  · intro tidy _
    obtain ⟨i, decl, rfl, at_, same⟩ := declared.type
    have mem := List.mem_of_getElem? at_
    rw [graph]
    refine ⟨decl, mem, same, fun f shown open_ => ?_⟩
    obtain ⟨x, hx, json⟩ := pairs.covers f shown open_
    obtain ⟨y, hy, json'⟩ := declared.covers tidy decl mem same x hx
    exact ⟨y, hy, json'.trans json⟩
  · intro decl mem
    refine (declared.keys decl mem).imp_right fun own => ⟨?_, ?_⟩
    · rw [graph, key, own.1]
    · rw [graph, own.2, structured, Bool.and_true]
  · intro decl mem x hx
    refine (declared.fields decl mem x hx).imp_right fun own => ?_
    obtain ⟨same, hx⟩ := own
    obtain ⟨f, shown, open_, json, name, stands, marked⟩ := pairs.origin x hx
    rw [Draft.Shows, graph]
    exact ⟨same, f, shown, open_, json, name, stands.grow step, marked.grow step⟩
  · refine declare_bottomUp h before (fun x hx j type => ?_) fun _ =>
      ⟨structured, explored, fun key own => ?_⟩
    · obtain ⟨f, -, -, -, -, stands, -⟩ := pairs.origin x hx
      exact stands.lt_length type
    · obtain ⟨f, shown, open_, rfl⟩ := Graph.mem_ownKeys.mp own
      exact pairs.covers f shown open_
  · rw [graph, element]
    exact kind
  · obtain ⟨i, decl, rfl, at_, same⟩ := declared.type
    rw [graph, element, key]
    exact ⟨i, decl, rfl, at_, same⟩
  · obtain ⟨i, _, rfl, -⟩ := declared.type
    exact TypeRef.noConfusion

end Containers

/-- A container that has its fields gets its declaration, unless none of them is declared. -/
theorem container_typed {typeOf : Nat → Side → Drafting (Option TypeRef)}
    (spec : TypesNodes d c typeOf) {target : Nat} {xs : List FieldDecl} {ty : TypeRef}
    (h : Ends (fieldDecls d typeOf side (s.run.graph.fieldsOn c side target)) s xs u)
    (h' : Ends (if xs.isEmpty then scalar .json else declare target side (.object xs)) u ty t)
    (sound : s.run.graph.Sound) (settled : s.run.graph.Settled target)
    (structured : (s.run.graph.node target).kind.isStructured = true) :
    Typed d c (At side target) s t ∧ t.Answers c side target (some ty) := by
  obtain ⟨typed, pairs⟩ := fieldDecls_typed spec h sound fun f shown => by
    have field := sound.fields (Graph.prop_of_mem_fieldsOn shown)
    exact ⟨Graph.lt_size_of_mem_ancestors field.above, field.isProperty⟩
  have grows := typed.grows.run.grows
  have same : u.run.graph.fieldsOn c side target = s.run.graph.fieldsOn c side target :=
    settled.fieldsOn structured sound grows
  rw [← same] at typed pairs
  have settled' := settled.grow grows
  have structured' : (u.run.graph.node target).kind.isStructured = true := by
    rwa [grows.kind settled.inside]
  split at h'
  · next none =>
      exact hollow_typed structured' settled' typed pairs sound (List.isEmpty_iff.mp none) h'
  · next some =>
    have filled : xs ≠ [] := fun none => some (List.isEmpty_iff.mpr none)
    exact filled_typed structured' settled' typed pairs sound filled h'

/-- The fields of a container are typed once it is filled: a composition is merged for that, an
object is visited. -/
theorem objectType_cases {typeOf : Nat → Side → Drafting (Option TypeRef)} {target : Nat}
    {ty : TypeRef} (h : Ends (objectType d c typeOf target side) s ty t) : ∃ r xs u,
      ((s.run.graph.node target).kind.isComposition = true ∧
          (∃ bs, Ends (Build.consolidate d target) s.run bs r) ∨
        (s.run.graph.node target).kind.isComposition = false ∧
          ∃ v, Ends (Build.visit d target) s.run v r) ∧
      Ends (fieldDecls d typeOf side (r.graph.fieldsOn c side target)) { s with run := r } xs u ∧
      Ends (if xs.isEmpty then scalar .json else declare target side (.object xs)) u ty t := by
  unfold objectType at h
  simp only [Ends.bind_iff, ends_node] at h
  obtain ⟨_, _, ⟨rfl, rfl⟩, h⟩ := h
  split at h
  case h_3 noComposed noUnion =>
    simp only [Ends.bind_iff, ends_lift, ends_graph] at h
    obtain ⟨v, _, ⟨r, visit, rfl⟩, _, _, ⟨rfl, rfl⟩, xs, u, h, h'⟩ := h
    refine ⟨r, xs, u, .inr ⟨?_, v, visit⟩, h, h'⟩
    cases kind : (s.run.graph.node target).kind <;>
      first | rfl | exact (noComposed kind).elim | exact (noUnion kind).elim
  all_goals
    next kind =>
    simp only [Ends.bind_iff, Ends.discard_iff, ends_lift, ends_graph] at h
    obtain ⟨_, _, ⟨_, r, merge, rfl⟩, _, _, ⟨rfl, rfl⟩, xs, u, h, h'⟩ := h
    exact ⟨r, xs, u, .inl ⟨by rw [kind]; rfl, _, merge⟩, h, h'⟩

/-- **The type of a container declares it with all that is met from it.** -/
theorem objectType_typed {typeOf : Nat → Side → Drafting (Option TypeRef)}
    (spec : TypesNodes d c typeOf) {target : Nat} {ty : TypeRef}
    (h : Ends (objectType d c typeOf target side) s ty t) (sound : s.run.graph.Sound)
    (structured : (s.run.graph.node target).kind.isStructured = true)
    (visited : (s.run.graph.node target).visited = true) :
    Typed d c (At side target) s t ∧ t.Answers c side target (some ty) := by
  have inside : target < s.run.graph.size := Graph.lt_size_of_ne fun e => by
    rw [e] at structured
    cases structured
  -- once the container is filled, its fields are typed
  have fill : ∀ {r : Run} {xs u}, s.run.Drafts d r → (r.graph.node target).isMerged = true →
      Ends (fieldDecls d typeOf side (r.graph.fieldsOn c side target)) { s with run := r } xs u →
      Ends (if xs.isEmpty then scalar .json else declare target side (.object xs)) u ty t →
      Typed d c (At side target) s t ∧ t.Answers c side target (some ty) :=
    fun {r xs u} drafts merged h h' => by
      have sound' := drafts.sound sound
      have settled : r.graph.Settled target := ⟨inside.trans_le drafts.grows.size_le,
        fun _ => (drafts.grows.keeps inside).visited visited, merged⟩
      have structured' : (r.graph.node target).kind.isStructured = true := by
        rwa [drafts.grows.kind inside]
      obtain ⟨typed, answers⟩ := container_typed (s := { s with run := r })
        spec h h' sound' settled structured'
      exact ⟨typed.before (.of_run drafts rfl id) rfl sound, answers⟩
  obtain ⟨r, xs, u, ⟨composition, _, merge⟩ | ⟨plain, _, visit⟩, h, h'⟩ := objectType_cases h
  · obtain ⟨drafts, consolidated⟩ := Build.consolidate_drafts merge sound composition
    exact fill drafts (by rw [Node.isMerged, consolidated, Bool.or_true]) h h'
  · have visits := (Build.visit_steps visit sound).1
    exact fill visits.drafts (by rw [Node.isMerged, visits.grows.kind inside, plain]; rfl) h h'

theorem enum_typed {values : List String} {ty : TypeRef} (h : Ends (enumType i values) s ty t)
    (kind : (s.run.graph.node i).kind = .enum values) :
    Typed d c (At side i) s t ∧ t.Answers c side i (some ty) := by
  obtain ⟨step, graph, declared⟩ := enumType_spec (d := d) h kind
  have element : t.run.graph.elementOf i = i := by
    rw [graph]
    refine Graph.elementOf_of_end ?_ ?_ <;> rw [kind] <;> rfl
  have inside : i < t.run.graph.size := by
    rw [graph]
    refine Graph.lt_size_of_not_array ?_
    rw [kind]
    rfl
  have plain : (t.run.graph.node (t.run.graph.elementOf i)).kind.isStructured = false := by
    rw [element, graph, kind]
    rfl
  have visited : (t.run.graph.node (t.run.graph.elementOf i)).kind.isWrapper = true ∨
      (t.run.graph.node (t.run.graph.elementOf i)).kind.isArray = true →
      (t.run.graph.node (t.run.graph.elementOf i)).visited = true := by
    rw [element, graph, kind]
    exact fun leads => leads.elim Bool.noConfusion Bool.noConfusion
  have open_ : (t.run.graph.node (t.run.graph.elementOf i)).kind.isCircular = false := by
    rw [element, graph, kind]
    rfl
  have key : t.run.graph.declKey? c side (t.run.graph.elementOf i) =
      if Naming.areEnumValues values then some (s.run.graph.idAt i) else none := by
    rw [element, graph, Graph.declKey?, kind]
  split at declared
  · next names =>
    rw [if_pos names] at key
    refine ⟨.of_plain step inside plain visited (fun decl mem => ?_) (fun decl mem x hx => ?_)
      fun _ before => enumType_bottomUp h before, open_, ?_, ?_⟩
    · refine (declared.keys decl mem).imp_right fun own => ⟨?_, ?_⟩
      · rw [key, own.1]
      · rw [own.2, plain, Bool.and_false]
    · exact (declared.fields decl mem x hx).resolve_right fun none => List.not_mem_nil none.2
    · rw [key]
      obtain ⟨j, decl, rfl, at_, same⟩ := declared.type
      exact ⟨j, decl, rfl, at_, same⟩
    · obtain ⟨j, _, rfl, -⟩ := declared.type
      exact TypeRef.noConfusion
  · next other =>
    rw [if_neg other] at key
    obtain ⟨⟨type, rfl, noJson⟩, decls⟩ := declared
    refine ⟨.of_idle step decls inside plain visited, open_, ?_, ?_⟩
    · rw [key]
      exact ⟨type, rfl⟩
    · exact fun core => absurd (TypeRef.scalar.inj core) noJson

/-- Where the type of a node comes from, once its wrappers were followed to where they lead. -/
inductive TypesTarget (d : Document) (c : Collection) (depth j : Nat) (side : Side) (s : Draft) :
    Option TypeRef → Draft → Prop
  /-- A node without fields and values, and a reference that leads nowhere. -/
  | scalar {type ty t} (scalar : Ends (scalar type) s ty t) (element : s.run.graph.elementOf j = j)
      (plain : (s.run.graph.node j).kind.isStructured = false)
      (other : (s.run.graph.node j).kind.tag ≠ .enum)
      (open_ : (s.run.graph.node j).kind.isCircular = false) :
        TypesTarget d c depth j side s (some ty) t
  | enum {values ty t} (enum : Ends (enumType j values) s ty t)
      (kind : (s.run.graph.node j).kind = .enum values) : TypesTarget d c depth j side s (some ty) t
  | container {ty t} (object : Ends (objectType d c (nodeTypeWithin d c depth) j side) s ty t)
      (structured : (s.run.graph.node j).kind.isStructured = true) :
      TypesTarget d c depth j side s (some ty) t
  | list {item rest ty t} (type : Ends (nodeTypeWithin d c depth item side) s ty t)
      (kind : (s.run.graph.node j).kind = .array)
      (children : (s.run.graph.node j).children = item :: rest) :
      TypesTarget d c depth j side s (ty.map .list) t
  | empty {ty t} (scalar : Ends (scalar .json) s ty t) (kind : (s.run.graph.node j).kind = .array)
      (children : (s.run.graph.node j).children = []) :
      TypesTarget d c depth j side s (some (.list ty)) t
  | circular (element : s.run.graph.elementOf j = j)
      (circular : (s.run.graph.node j).kind.tag = .circular) : TypesTarget d c depth j side s none s

/-- A schema is typed by what its wrappers lead to. -/
theorem nodeTypeWithin_cases {depth : Nat} {ty : Option TypeRef}
    (h : Ends (nodeTypeWithin d c (depth + 1) i side) s ty t) (sound : s.run.graph.Sound)
    (inside : i < s.run.graph.size) (schema : (s.run.graph.node i).kind.isSchema = true) :
    ∃ j r, s.run.Visits d r ∧ r.graph.Leads i j ∧ (r.graph.node j).visited = true ∧
      (r.graph.node j).kind.isSchema = true ∧
      TypesTarget d c depth j side { s with run := r } ty t := by
  rw [nodeTypeWithin] at h
  simp only [Ends.bind_iff, ends_lift, ends_node] at h
  obtain ⟨j, _, ⟨r, resolve, rfl⟩, _, _, ⟨rfl, rfl⟩, h⟩ := h
  obtain ⟨visits, leads, visited, childless⟩ := Build.resolveTarget_visits resolve sound
  have schema' : (r.graph.node j).kind.isSchema = true :=
    leads.isSchema (visits.sound sound) (by rwa [visits.grows.kind inside])
  refine ⟨j, r, visits, leads, visited, schema', ?_⟩
  have element : (r.graph.node j).kind.isArray = false → r.graph.elementOf j = j := fun array => by
    cases wrapper : (r.graph.node j).kind.isWrapper with
    | true => exact Graph.elementOf_of_childless (childless wrapper)
    | false => exact Graph.elementOf_of_end wrapper array
  have scalars : ∀ {type}, Ends (scalar type >>= fun ty => pure (some ty))
      { s with run := r } ty t →
      (r.graph.node j).kind.isArray = false → (r.graph.node j).kind.isStructured = false →
      (r.graph.node j).kind.tag ≠ .enum → (r.graph.node j).kind.isCircular = false →
      TypesTarget d c depth j side { s with run := r } ty t :=
    fun typed array plain other open_ => by
      simp only [Ends.bind_iff, Ends.pure_iff] at typed
      obtain ⟨ty, _, typed, rfl, rfl⟩ := typed
      exact .scalar typed (element array) plain other open_
  dsimp only at h
  cases kind : (r.graph.node j).kind <;> rw [kind] at h scalars schema'
  case scalar | reference => exact scalars h rfl rfl Tag.noConfusion rfl
  case enum =>
    simp only [Ends.bind_iff, Ends.pure_iff] at h
    obtain ⟨ty, _, h, rfl, rfl⟩ := h
    exact .enum h kind
  case object synthetic =>
    cases synthetic with
    | true => exact scalars h rfl rfl Tag.noConfusion rfl
    | false =>
      simp only [Ends.bind_iff, Ends.pure_iff] at h
      obtain ⟨ty, _, h, rfl, rfl⟩ := h
      exact .container h (congrArg Kind.isStructured kind)
  case composed | union =>
    simp only [Ends.bind_iff, Ends.pure_iff] at h
    obtain ⟨ty, _, h, rfl, rfl⟩ := h
    exact .container h (congrArg Kind.isStructured kind)
  case array =>
    cases children : (r.graph.node j).children with
    | cons item rest =>
      rw [children] at h
      simp only [Ends.bind_iff, Ends.pure_iff] at h
      obtain ⟨ty, _, h, rfl, rfl⟩ := h
      exact .list h kind children
    | nil =>
      rw [children] at h
      simp only [Ends.bind_iff, Ends.pure_iff] at h
      obtain ⟨ty, _, h, rfl, rfl⟩ := h
      exact .empty h kind children
  case circular =>
    obtain ⟨rfl, rfl⟩ := Ends.pure_iff.mp h
    exact .circular (element (congrArg Kind.isArray kind)) (congrArg Kind.tag kind)
  all_goals cases schema'

/-- **The type of a node declares all that is met from it, at any depth.** -/
theorem nodeTypeWithin_typed (depth : Nat) : TypesNodes d c (nodeTypeWithin d c depth) := by
  induction depth with
  | zero => exact fun h => absurd h (by rw [nodeTypeWithin, Ends.throw_iff]; exact id)
  | succ depth ih =>
    intro i side s ty t h sound inside schema
    obtain ⟨j, r, visits, leads, visited, schema', target⟩ :=
      nodeTypeWithin_cases h sound inside schema
    have step : s.Grows d { s with run := r } := .of_run visits.drafts rfl id
    have sound' : r.graph.Sound := visits.sound sound
    have old : i < r.graph.size := inside.trans_le visits.grows.size_le
    have inside' : j < r.graph.size := leads.lt_size sound' old
    -- what is found at the target is found from the node
    suffices found : Typed d c (At side j) { s with run := r } t ∧ t.Answers c side j ty by
      obtain ⟨typed, answers⟩ := found
      have grows := typed.grows.run.grows
      have same : t.run.graph.elementOf i = t.run.graph.elementOf j :=
        (leads.extend grows.toExtends).elementOf (typed.grows.sound sound').below
      exact ⟨(typed.shift (old.trans_le grows.size_le) same).before step rfl sound,
        answers.shift same⟩
    have scalars : ∀ {type ty u}, Ends (scalar type) { s with run := r } ty u →
        r.graph.elementOf j = j → (r.graph.node j).kind.isStructured = false →
        (r.graph.node j).kind.tag ≠ .enum → (r.graph.node j).kind.isCircular = false →
        Typed d c (At side j) { s with run := r } u ∧ u.Answers c side j (some ty) :=
      fun {type ty u} h element plain other open_ => by
        obtain ⟨rfl, marks, marked⟩ := ends_scalar h
        refine typed_of_end (.of_marks marks) marks.decls ?_ ?_ ?_ ?_ ?_ ?_ marked <;>
          rw [marks.run] <;> assumption
    cases target with
    | scalar h element plain other open_ => exact scalars h element plain other open_
    | enum h kind => exact enum_typed h kind
    | container h structured => exact objectType_typed ih h sound' structured visited
    | @list item rest ty _ h kind children =>
      have child : item ∈ (r.graph.node j).children := children ▸ List.mem_cons_self
      have admits := sound'.admits child
      rw [kind] at admits
      obtain ⟨typed, answers⟩ := ih h sound' (sound'.below child).2 admits
      have grows := typed.grows.run.grows
      have same := grows.elementOf_first sound' visited (.inr (by rw [kind]; rfl)) children
      exact ⟨typed.shift (inside'.trans_le grows.size_le) same, (answers.shift same).list⟩
    | empty h kind children =>
      obtain ⟨typed, answers⟩ := scalars h (Graph.elementOf_of_childless children)
        (congrArg Kind.isStructured kind) (by rw [kind]; exact Tag.noConfusion)
        (congrArg Kind.isCircular kind)
      exact ⟨typed, answers.list⟩
    | circular element circular =>
      refine ⟨.of_idle (.refl d _) rfl inside' ?_ fun _ => ?_, ?_⟩
      · rw [element]
        exact Graph.not_isStructured_of_tag circular
      · rw [element]
        exact visited
      · change (r.graph.node (r.graph.elementOf j)).kind.isCircular = true
        rw [element]
        exact Graph.isCircular_of_tag circular

end Drafting

end RestGraph
