import RestGraph.Proofs.Naming.Fresh
import RestGraph.Proofs.Schema.Session

/-!
# Names of fields

A declaration has one field for a JSON key. The name of a field is chosen in one container, where no
other field has it; but a declaration may gather the fields of several containers, and then two keys
may have been given the same name. Unless that is so, the names in a declaration differ.
-/

namespace RestGraph

namespace Graph

variable {g : Graph} {c : Collection} {side side' : Side} {m n : Nat} {f f' : VisibleField}

/-- The first field has no name, or one that is free and taken from then on. -/
theorem nameFields_cons (g : Graph) (taken : List String) (x : String × Nat)
    (rest : List (String × Nat)) :
    (∃ f, f.name = none ∧ nameFields g taken (x :: rest) = f :: nameFields g taken rest) ∨
      ∃ f name, f.name = some name ∧ name ∉ taken ∧
        nameFields g taken (x :: rest) = f :: nameFields g (name :: taken) rest := by
  rw [nameFields]
  split
  · exact .inl ⟨_, rfl, rfl⟩
  · exact .inr ⟨_, _, rfl, Naming.unique_notMem _ _, rfl⟩

theorem name_notMem_taken {taken : List String} {props : List (String × Nat)} {name : String}
    (shown : f ∈ nameFields g taken props) (named : f.name = some name) : name ∉ taken := by
  induction props generalizing taken with
  | nil => cases shown
  | cons x rest ih =>
    rcases nameFields_cons g taken x rest with
      ⟨first, unnamed, fields⟩ | ⟨first, fresh, name', free, fields⟩ <;>
      rw [fields] at shown <;> rcases List.mem_cons.mp shown with rfl | shown
    · rw [unnamed] at named
      cases named
    · exact ih shown
    · rw [name', Option.some.injEq] at named
      exact named ▸ free
    · exact fun mem => ih shown (List.mem_cons_of_mem _ mem)

/-- Fields that are named one after the other have names of their own. -/
theorem eq_of_name {taken : List String} {props : List (String × Nat)} {name : String}
    (shown : f ∈ nameFields g taken props) (shown' : f' ∈ nameFields g taken props)
    (named : f.name = some name) (named' : f'.name = some name) : f = f' := by
  induction props generalizing taken with
  | nil => cases shown
  | cons x rest ih =>
    rcases nameFields_cons g taken x rest with
      ⟨first, unnamed, fields⟩ | ⟨first, fresh, name', -, fields⟩ <;>
      rw [fields, List.mem_cons] at shown shown'
    · have later : ∀ {f : VisibleField}, f.name = some name → f ≠ first := fun named same => by
        rw [same, unnamed] at named
        cases named
      exact ih (shown.resolve_left (later named)) (shown'.resolve_left (later named'))
    · -- a later field cannot have the name of the first one
      have later : ∀ {f : VisibleField}, f ∈ nameFields g (fresh :: taken) rest →
          f.name = some name → first.name ≠ some name := fun shown named same => by
        rw [name', Option.some.injEq] at same
        exact name_notMem_taken shown named (same ▸ List.mem_cons_self)
      rcases shown with rfl | shown <;> rcases shown' with rfl | shown'
      · rfl
      · exact absurd named (later shown' named')
      · exact absurd named' (later shown named)
      · exact ih shown shown'

/-- Two containers give a name to one JSON key only. -/
def NamedApart (g : Graph) (c : Collection) (side : Side) (m : Nat) (side' : Side)
    (n : Nat) : Prop :=
  ∀ f ∈ g.fieldsOn c side m, ∀ f' ∈ g.fieldsOn c side' n, f.isDeclared g = true →
    f'.isDeclared g = true → f.name = f'.name → f.jsonName = f'.jsonName

/-- The containers that share a declaration agree on what its names stand for. -/
def NamesApart (g : Graph) (c : Collection) (key : String) : Prop :=
  ∀ side m, g.Shown c side m → g.declKey side m = key → ∀ side' n, g.Shown c side' n →
    g.declKey side' n = key → g.NamedApart c side m side' n

/-- A container by itself gives each key a name of its own. -/
theorem namedApart_self (g : Graph) (c : Collection) (side : Side) (n : Nat) :
    g.NamedApart c side n side n := fun f shown f' shown' declared _ same => by
  obtain ⟨name, named⟩ := Option.isSome_iff_exists.mp ((Bool.and_eq_true _ _).mp declared).1
  rw [eq_of_name shown shown' named (same ▸ named)]

/-- So there is nothing to agree on where all the fields of a key are those of one container. -/
theorem NamesApart.of_alone {key : String} (alone : ∀ side' n, g.Shown c side' n →
    g.declKey side' n = key → side' = side ∧ n = m) : g.NamesApart c key := by
  intro side₁ m₁ shown₁ key₁ side₂ m₂ shown₂ key₂
  obtain ⟨rfl, rfl⟩ := alone side₁ m₁ shown₁ key₁
  obtain ⟨rfl, rfl⟩ := alone side₂ m₂ shown₂ key₂
  exact namedApart_self g c _ _

end Graph

namespace Draft.Generated

variable {d : Document} {c : Collection} {r : Run} {t : Draft} {ops : List OperationDecl}
  {starts : Side → Nat → Prop} {decl : TypeDecl}

theorem jsonNames_nodup (gen : t.Generated d c r ops starts) (mem : decl ∈ t.decls) :
    (decl.definition.fields.map FieldDecl.jsonName).Nodup := by
  have proper := (gen.tidy.proper decl mem).definition
  cases definition : decl.definition with
  | enum values => exact List.nodup_nil
  | object fields =>
    rw [definition] at proper
    exact proper.2

/-- Two fields of a declaration come from containers that share it. -/
theorem names_nodup (gen : t.Generated d c r ops starts) (mem : decl ∈ t.decls)
    (apart : t.run.graph.NamesApart c decl.key) :
    (decl.definition.fields.map FieldDecl.name).Nodup := by
  have keys := gen.jsonNames_nodup mem
  refine List.Nodup.map_on (fun x hx y hy same => ?_) (List.Nodup.of_map _ keys)
  obtain ⟨side, m, shown, key, f, field, declared, json, name, -⟩ := gen.shows_of_mem mem hx
  obtain ⟨side', n, shown', key', f', field', declared', json', name', -⟩ := gen.shows_of_mem mem hy
  have alike := apart side m shown key.symm side' n shown' key'.symm f field f' field' declared
    declared' (by rw [name, name', same])
  exact List.inj_on_of_nodup_map keys hx hy (json.symm.trans (alike.trans json'))

/-- The names in a declaration differ if one container alone is declared by it. -/
theorem names_nodup_of_alone (gen : t.Generated d c r ops starts) (mem : decl ∈ t.decls)
    {side : Side} {m : Nat} (alone : ∀ side' n, t.run.graph.Shown c side' n →
      t.run.graph.declKey side' n = decl.key → side' = side ∧ n = m) :
    (decl.definition.fields.map FieldDecl.name).Nodup :=
  gen.names_nodup mem (.of_alone alone)

end Draft.Generated

/-- In a declaration no JSON key stands twice, and no name does if the containers that share the
declaration agree on what its names stand for. -/
theorem Session.field_names_nodup {d : Document} {c : Collection} {r r' : Run} {t : Draft}
    {ops : List OperationDecl} (session : Session d r c)
    (step : Ends (Build.draft d c) r (t, ops) r') : ∀ decl ∈ t.decls,
    (decl.definition.fields.map FieldDecl.jsonName).Nodup ∧
      (t.run.graph.NamesApart c decl.key → (decl.definition.fields.map FieldDecl.name).Nodup) := by
  intro decl mem
  obtain ⟨rfl, starts, gen⟩ := session.ready.generated step
  exact ⟨gen.jsonNames_nodup mem, gen.names_nodup mem⟩

/-! ## Two descriptions -/

namespace Graph

variable {g : Graph} {c : Collection} {key : String}

instance {side side' : Side} {m n : Nat} : Decidable (g.NamedApart c side m side' n) :=
  inferInstanceAs (Decidable (∀ f ∈ g.fieldsOn c side m, ∀ f' ∈ g.fieldsOn c side' n,
    f.isDeclared g = true → f'.isDeclared g = true → f.name = f'.name → f.jsonName = f'.jsonName))

/-- Whether all containers of a graph with a key agree on what names stand for. -/
def areNamesApart (g : Graph) (c : Collection) (key : String) : Bool :=
  decide (∀ side ∈ [Side.output, .input], ∀ m < g.size, g.declKey side m = key →
    ∀ side' ∈ [Side.output, .input], ∀ n < g.size, g.declKey side' n = key →
      g.NamedApart c side m side' n)

theorem Shown.lt_size {side : Side} {n : Nat} (shown : g.Shown c side n) : n < g.size :=
  lt_size_of_ne fun nowhere => by
    have structured := shown.1
    rw [nowhere] at structured
    cases structured

theorem namesApart_of_areNamesApart (apart : g.areNamesApart c key = true) :
    g.NamesApart c key := by
  have sides : ∀ side : Side, side ∈ [Side.output, .input] := fun side => by cases side <;> decide
  intro side m shown key side' n shown' key'
  exact of_decide_eq_true apart side (sides side) m shown.lt_size key side' (sides side') n
    shown'.lt_size key'

end Graph

/-- Two operations that answer with the same component, which has two fields. -/
def Document.shared (first second : String) : Document :=
  let get (id : String) : Json := .object [("get", .object [("operationId", .text id),
    ("responses", .object [("200", (Json.refSchema "Foo").jsonContent)])])]
  .ofPaths [("/a", get "a"), ("/b", get "b")]
    [("Foo", .objectSchema [(first, .typeSchema "string"), (second, .typeSchema "integer")])]

/-- The selection of one field for each of the operations. -/
def Document.sharedPaths (first second : String) : List String :=
  ["get:/a>res:200>ref:#/c/s/Foo>obj:Foo>prop:scalar:" ++ first,
    "get:/b>res:200>ref:#/c/s/Foo>obj:Foo>prop:scalar:" ++ second]

/-- Each operation selects one field under the name that it has there by itself. -/
theorem sharedFields_collide :
    ∃ c r, Ends (Build.collect (.shared "a-b" "aB") (Document.sharedPaths "a-b" "aB"))
      (.ofDocument (.shared "a-b" "aB")) c r ∧
    ∃ t ops r', Ends (Build.draft (.shared "a-b" "aB") c) r (t, ops) r' ∧
      ∃ decl ∈ t.decls, ¬(decl.definition.fields.map FieldDecl.name).Nodup := by
  have run : Ends.passes (Build.collect (.shared "a-b" "aB") (Document.sharedPaths "a-b" "aB"))
      (.ofDocument (.shared "a-b" "aB"))
      (fun c r => Ends.passes (Build.draft (.shared "a-b" "aB") c) r fun x _ => decide
        (∃ decl ∈ x.1.decls, ¬(decl.definition.fields.map FieldDecl.name).Nodup)) = true := by
    decide +kernel
  obtain ⟨c, r, collected, drafts⟩ := Ends.of_passes run
  obtain ⟨⟨t, ops⟩, r', drafted, differs⟩ := Ends.of_passes drafts
  exact ⟨c, r, collected, t, ops, r', drafted, of_decide_eq_true differs⟩

/-- Fields that two operations selected stand in one declaration under names of their own. -/
theorem sharedFields_apart : ∃ c r, Session (.shared "a" "b") r c ∧
    ∃ t ops r', Ends (Build.draft (.shared "a" "b") c) r (t, ops) r' ∧
      ∃ decl ∈ t.decls, decl.definition.fields.length = 2 ∧ t.run.graph.NamesApart c decl.key ∧
        (decl.definition.fields.map FieldDecl.name).Nodup := by
  have run : Ends.passes (Build.collect (.shared "a" "b") (Document.sharedPaths "a" "b"))
      (.ofDocument (.shared "a" "b"))
      (fun c r => Ends.passes (Build.draft (.shared "a" "b") c) r fun x _ => decide
        (∃ decl ∈ x.1.decls, decl.definition.fields.length = 2 ∧
          x.1.run.graph.areNamesApart c decl.key = true)) = true := by decide +kernel
  obtain ⟨c, r, collected, drafts⟩ := Ends.of_passes run
  obtain ⟨⟨t, ops⟩, r', drafted, facts⟩ := Ends.of_passes drafts
  obtain ⟨decl, mem, two, apart⟩ := of_decide_eq_true facts
  have session : Session (.shared "a" "b") r c := .collect _ .start collected
  have apart := Graph.namesApart_of_areNamesApart apart
  exact ⟨c, r, session, t, ops, r', drafted, decl, mem, two, apart,
    (session.field_names_nodup drafted decl mem).2 apart⟩

end RestGraph
