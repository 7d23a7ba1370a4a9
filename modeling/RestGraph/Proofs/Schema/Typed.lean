import RestGraph.Proofs.Schema.Placing

/-!
# What typing leaves behind

To type a node is to build all that is met on the way down from it, and to declare what is met. Each
container gets a declaration under its key with all fields that it declares, each field with the
type that stands for its element; and nothing else is declared.
-/

namespace RestGraph

variable {d : Document} {c : Collection} {side : Side} {i m : Nat}

/-- The type, without its list brackets, is the declaration with the key, or a scalar. -/
def TypeRef.Stands (decls : List TypeDecl) (key? : Option String) (ty : TypeRef) : Prop :=
  match key? with
  | none => ∃ type, ty.core = .scalar type
  | some key => ∃ i decl, ty.core = .named i ∧ decls[i]? = some decl ∧ decl.key = key

namespace Draft

/-- The type found for a node. A cycle has none. -/
def Answers (s : Draft) (c : Collection) (side : Side) (i : Nat) : Option TypeRef → Prop
  | none => (s.run.graph.node (s.run.graph.elementOf i)).kind.isCircular = true
  | some ty => (s.run.graph.node (s.run.graph.elementOf i)).kind.isCircular = false ∧
      ty.Stands s.decls (s.run.graph.declKey? c side (s.run.graph.elementOf i)) ∧ ty.IsMarked s

/-- The container has a declaration with a field for each that it declares, unless there is none. -/
def Declares (s : Draft) (c : Collection) (side : Side) (m : Nat) : Prop :=
  s.run.graph.isHollow c side m = false → ∃ decl ∈ s.decls,
    decl.key = s.run.graph.declKey side m ∧ ∀ f ∈ s.run.graph.fieldsOn c side m,
      f.isDeclared s.run.graph = true → ∃ x ∈ decl.definition.fields, x.jsonName = f.jsonName

/-- The container declares the field under the key. -/
def Shows (s : Draft) (c : Collection) (side : Side) (m : Nat) (key : String) (x : FieldDecl) :
    Prop :=
  key = s.run.graph.declKey side m ∧ ∃ f ∈ s.run.graph.fieldsOn c side m,
    f.isDeclared s.run.graph = true ∧ f.jsonName = x.jsonName ∧ f.name = some x.name ∧
      x.type.Stands s.decls (s.run.graph.declKey? c side (s.run.graph.elementOf f.prop)) ∧
        x.type.IsMarked s

/-- The declaration is the one that the node has. -/
structure IsOf (s : Draft) (c : Collection) (side : Side) (e : Nat) (decl : TypeDecl) : Prop where
  key : s.run.graph.declKey? c side e = some decl.key
  input : decl.input = (side == .input && (s.run.graph.node e).kind.isStructured)

/-- From `s` to `t` all that is met from the starts was declared, and only that. -/
structure Typed (d : Document) (c : Collection) (starts : Side → Nat → Prop) (s t : Draft) :
    Prop where
  grows : s.Grows d t
  explored : ∀ {side i}, starts side i → t.run.graph.Explored c side i
  declares : s.Tidy → ∀ {side i m}, starts side i → t.run.graph.Meets c side i m →
    (t.run.graph.node m).kind.isStructured = true → t.Declares c side m
  keys : ∀ decl ∈ t.decls, (∃ old ∈ s.decls, old.Keeps decl) ∨
    ∃ side i e, starts side i ∧ t.run.graph.Meets c side i e ∧ t.IsOf c side e decl
  fields : ∀ decl ∈ t.decls, ∀ x ∈ decl.definition.fields,
    (∃ old ∈ s.decls, old.key = decl.key ∧ x ∈ old.definition.fields) ∨
      ∃ side i m, starts side i ∧ t.run.graph.Meets c side i m ∧
        (t.run.graph.node m).kind.isStructured = true ∧ t.Shows c side m decl.key x
  bottomUp : s.run.graph.Sound → s.BottomUp c → t.BottomUp c

def At (side : Side) (i : Nat) (side' : Side) (i' : Nat) : Prop := side' = side ∧ i' = i

end Draft

/-! ## Growth -/

/-- A type goes on standing for its declaration as the draft grows. -/
theorem TypeRef.Stands.grow {s t : Draft} {key? : Option String} {ty : TypeRef}
    (stands : ty.Stands s.decls key?) (step : s.Grows d t) : ty.Stands t.decls key? := by
  cases key? with
  | none => exact stands
  | some key =>
    obtain ⟨i, decl, core, at_, same⟩ := stands
    obtain ⟨decl', at_', keeps⟩ := step.decls at_
    exact ⟨i, decl', core, at_', keeps.key.trans same⟩

theorem TypeRef.Stands.lt_length {decls : List TypeDecl} {key? : Option String} {ty : TypeRef}
    {j : Nat} (stands : ty.Stands decls key?) (core : ty.core = .named j) : j < decls.length := by
  cases key? with
  | none =>
    obtain ⟨type, other⟩ := stands
    cases core.symm.trans other
  | some key =>
    obtain ⟨i, decl, same, at_, -⟩ := stands
    obtain rfl : j = i := TypeRef.named.inj (core.symm.trans same)
    exact (List.getElem?_eq_some_iff.mp at_).1

theorem TypeRef.IsMarked.grow {s t : Draft} {ty : TypeRef} (marked : ty.IsMarked s)
    (step : s.Grows d t) : ty.IsMarked t := fun json => step.json (marked json)

namespace Draft

variable {s t u : Draft} {starts starts' : Side → Nat → Prop}

theorem Grows.sound (step : s.Grows d t) (sound : s.run.graph.Sound) : t.run.graph.Sound :=
  step.run.sound sound

section Growth

variable (step : s.Grows d t) (sound : s.run.graph.Sound)

include step sound

/-- What is answered for a node is so as the draft grows. -/
theorem Answers.grow {ty : Option TypeRef} (answers : s.Answers c side i ty)
    (explored : s.run.graph.Explored c side i) : t.Answers c side i ty := by
  have kind : (t.run.graph.node (t.run.graph.elementOf i)).kind =
      (s.run.graph.node (s.run.graph.elementOf i)).kind := by
    rw [explored.elementOf sound step.run.grows,
      step.run.grows.kind (Graph.elementOf_lt explored.inside)]
  cases ty with
  | none => exact (congrArg Kind.isCircular kind).trans answers
  | some ty =>
    refine ⟨(congrArg Kind.isCircular kind).trans answers.1, ?_⟩
    rw [explored.declKey? sound step.run.grows]
    exact ⟨answers.2.1.grow step, answers.2.2.grow step⟩

theorem IsOf.grow {decl decl' : TypeDecl} (isOf : s.IsOf c side i decl)
    (explored : s.run.graph.Explored c side i) (element : s.run.graph.elementOf i = i)
    (keeps : decl.Keeps decl') : t.IsOf c side i decl' where
  key := by
    have same := explored.declKey? (c := c) sound step.run.grows
    rw [explored.elementOf sound step.run.grows, element] at same
    rw [same, isOf.key, keeps.key]
  input := by
    rw [keeps.input, isOf.input, step.run.grows.kind explored.inside]

variable (explored : s.run.graph.Explored c side m) (element : s.run.graph.elementOf m = m)
  (structured : (s.run.graph.node m).kind.isStructured = true)

include explored element structured

theorem fieldsOn_grow : t.run.graph.fieldsOn c side m = s.run.graph.fieldsOn c side m :=
  (element ▸ explored.settled _ (.here m)).fieldsOn structured sound step.run.grows

omit sound element structured in
theorem declKey_grow : t.run.graph.declKey side m = s.run.graph.declKey side m := by
  cases side <;> simp only [Graph.declKey, step.run.grows.idAt explored.inside]

theorem isDeclared_grow {f : VisibleField} (shown : f ∈ s.run.graph.fieldsOn c side m) :
    f.isDeclared t.run.graph = f.isDeclared s.run.graph :=
  explored.isDeclared sound step.run.grows (element.symm ▸ structured) (element.symm ▸ shown)

/-- What a container declares it declares as the draft grows. -/
theorem Declares.grow (declares : s.Declares c side m) : t.Declares c side m := by
  intro solid
  have hollow := explored.isHollow sound step.run.grows (element.symm ▸ structured)
  rw [element] at hollow
  obtain ⟨decl, old, key, covers⟩ := declares (hollow ▸ solid)
  obtain ⟨decl', new, keeps⟩ := step.mem old
  refine ⟨decl', new, ?_, fun f shown declared => ?_⟩
  · rw [keeps.key, key, declKey_grow step explored]
  · rw [fieldsOn_grow step sound explored element structured] at shown
    rw [isDeclared_grow step sound explored element structured shown] at declared
    obtain ⟨x, hx, same⟩ := covers f shown declared
    exact ⟨x, keeps.fields hx, same⟩

/-- What a container shows it shows as the draft grows. -/
theorem Shows.grow {key : String} {x : FieldDecl} (shows_ : s.Shows c side m key x) :
    t.Shows c side m key x := by
  obtain ⟨same, f, shown, declared, json, name, stands, marked⟩ := shows_
  have named : f.name.isSome = true := ((Bool.and_eq_true _ _).mp declared).1
  have below := explored.of_field (element.symm ▸ structured) (element.symm ▸ shown) named sound
  refine ⟨?_, f, ?_, ?_, json, name, ?_, marked.grow step⟩
  · rw [same, declKey_grow step explored]
  · rwa [fieldsOn_grow step sound explored element structured]
  · rwa [isDeclared_grow step sound explored element structured shown]
  · rw [below.declKey? sound step.run.grows]
    exact stands.grow step

end Growth

/-! ## Ways put together -/

namespace Typed

theorem none (step : s.Grows d t) (keys : t.decls = s.decls) :
    Typed d c (fun _ _ => False) s t where
  grows := step
  explored := False.elim
  declares _ := False.elim
  keys decl mem := .inl ⟨decl, keys ▸ mem, .refl decl⟩
  fields decl mem _ hx := .inl ⟨decl, keys ▸ mem, rfl, hx⟩
  bottomUp sound before := before.grow sound step keys

/-- The starts may be named otherwise. -/
theorem mono (typed : Typed d c starts s t) (same : ∀ side i, starts side i ↔ starts' side i) :
    Typed d c starts' s t := by
  have e : starts = starts' := funext fun side => funext fun i => propext (same side i)
  exact e ▸ typed

/-- What is typed later is added to what was typed first. -/
theorem trans (first : Typed d c starts s t) (second : Typed d c starts' t u)
    (sound : s.run.graph.Sound) :
    Typed d c (fun side i => starts side i ∨ starts' side i) s u := by
  have sound' := first.grows.sound sound
  have step := second.grows.run.grows
  refine ⟨first.grows.trans second.grows, fun {side i} start => ?_,
    fun tidy {side i m} start meets structured => ?_, fun decl mem => ?_, fun decl mem x hx => ?_,
    fun _ before => second.bottomUp sound' (first.bottomUp sound before)⟩
  · rcases start with start | start
    · exact (first.explored start).grow sound' step
    · exact second.explored start
  · rcases start with start | start
    · have explored := first.explored start
      have meets := explored.meets_back sound' step meets
      have explored' := explored.of_meets meets
      rw [step.kind explored'.inside] at structured
      exact (first.declares tidy start meets structured).grow second.grows sound' explored'
        meets.elementOf structured
    · exact second.declares (first.grows.tidy tidy) start meets structured
  · rcases second.keys decl mem with ⟨old, mem, keeps⟩ | ⟨side, i, e, start, meets, isOf⟩
    · rcases first.keys old mem with ⟨older, mem, keeps'⟩ | ⟨side, i, e, start, meets, isOf⟩
      · exact .inl ⟨older, mem, keeps'.trans keeps⟩
      · have explored := first.explored start
        exact .inr ⟨side, i, e, .inl start, explored.meets sound' step meets,
          isOf.grow second.grows sound' (explored.of_meets meets) meets.elementOf keeps⟩
    · exact .inr ⟨side, i, e, .inr start, meets, isOf⟩
  · rcases second.fields decl mem x hx with
      ⟨old, mem, same, hx⟩ | ⟨side, i, m, start, meets, structured, shows_⟩
    · rcases first.fields old mem x hx with
        ⟨older, mem, same', hx⟩ | ⟨side, i, m, start, meets, structured, shows_⟩
      · exact .inl ⟨older, mem, same'.trans same, hx⟩
      · have explored := first.explored start
        have explored' := explored.of_meets meets
        refine .inr ⟨side, i, m, .inl start, explored.meets sound' step meets, ?_, ?_⟩
        · rwa [step.kind explored'.inside]
        · exact same ▸ shows_.grow second.grows sound' explored' meets.elementOf structured
    · exact .inr ⟨side, i, m, .inr start, meets, structured, shows_⟩

/-- Steps before that declare nothing do not count. -/
theorem before (typed : Typed d c starts t u) (step : s.Grows d t) (decls : t.decls = s.decls)
    (sound : s.run.graph.Sound) : Typed d c starts s u :=
  ((none step decls).trans typed sound).mono fun _ _ => ⟨fun h => h.resolve_left id, .inr⟩

/-- Steps after that declare nothing do not count either. -/
theorem after (typed : Typed d c starts s t) (step : t.Grows d u) (decls : u.decls = t.decls)
    (sound : s.run.graph.Sound) : Typed d c starts s u :=
  (typed.trans (none step decls) sound).mono fun _ _ => ⟨fun h => h.resolve_right id, .inl⟩

/-- Another node on the same way may be taken for the start. -/
theorem shift {j : Nat} (typed : Typed d c (At side j) s t) (inside : i < t.run.graph.size)
    (same : t.run.graph.elementOf i = t.run.graph.elementOf j) : Typed d c (At side i) s t where
  grows := typed.grows
  explored := fun {side' i'} start => by
    obtain ⟨rfl, rfl⟩ := start
    exact ⟨inside, fun e meets => (typed.explored ⟨rfl, rfl⟩).settled e (meets.congr same.symm)⟩
  declares tidy := fun {side' i' m} start meets => by
    obtain ⟨rfl, rfl⟩ := start
    exact typed.declares tidy ⟨rfl, rfl⟩ (meets.congr same.symm)
  keys decl mem := by
    refine (typed.keys decl mem).imp_right ?_
    rintro ⟨_, _, e, ⟨rfl, rfl⟩, meets, isOf⟩
    exact ⟨_, i, e, ⟨rfl, rfl⟩, meets.congr same, isOf⟩
  fields decl mem x hx := by
    refine (typed.fields decl mem x hx).imp_right ?_
    rintro ⟨_, _, m, ⟨rfl, rfl⟩, meets, shows_⟩
    exact ⟨_, i, m, ⟨rfl, rfl⟩, meets.congr same, shows_⟩
  bottomUp := typed.bottomUp

end Typed

/-- Nodes with one element have one answer. -/
theorem Answers.shift {ty : Option TypeRef} {j : Nat} (answers : s.Answers c side j ty)
    (same : s.run.graph.elementOf i = s.run.graph.elementOf j) : s.Answers c side i ty := by
  cases ty with
  | none => exact (congrArg (fun e => (s.run.graph.node e).kind.isCircular) same).trans answers
  | some ty =>
    unfold Answers at answers ⊢
    rwa [same]

end Draft

end RestGraph
