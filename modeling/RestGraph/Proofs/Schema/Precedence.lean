import RestGraph.Proofs.Schema.Session

/-!
# What is declared first

A declaration refers to those before it. Only a field that it has gained from another container may
be of a type that is declared later, or of the type that is being declared.
-/

namespace RestGraph

/-- Whatever a session drafts: the type of a field is declared, and before the declaration that has
the field, unless the field stands for a key that the node of this declaration does not have. Then
it was gained from another container with the key of the declaration. -/
theorem Session.refers_back {d : Document} {c : Collection} {r r' : Run} {t : Draft}
    {ops : List OperationDecl} (session : Session d r c)
    (step : Ends (Build.draft d c) r (t, ops) r') :
    ∀ i decl, t.decls[i]? = some decl → ∀ x ∈ decl.definition.fields, ∀ j,
      x.type.core = .named j → j < t.decls.length ∧
        (j < i ∨ x.jsonName ∉ t.run.graph.ownKeys c decl.side decl.node ∧
          ∃ side m, t.run.graph.Shown c side m ∧ t.run.graph.declKey side m = decl.key ∧
            x.jsonName ∈ t.run.graph.ownKeys c side m) := by
  intro i decl at_ x field j type
  obtain ⟨rfl, starts, gen⟩ := session.ready.generated step
  have object : decl.definition.isObject = true := by
    cases definition : decl.definition with
    | enum values =>
      rw [definition] at field
      cases field
    | object fields => rfl
  have placed := gen.typed.bottomUp session.ready.sound (.start r) i decl at_ object
  refine ⟨placed.declared x field j type, ?_⟩
  by_cases own : x.jsonName ∈ t.run.graph.ownKeys c decl.side decl.node
  · exact .inl (placed.before x field j type own)
  · obtain ⟨side, m, shown, key, f, visible, declared, json, -⟩ :=
      gen.shows_of_mem (List.mem_of_getElem? at_) field
    exact .inr ⟨own, side, m, shown, key.symm, Graph.mem_ownKeys.mpr ⟨f, visible, declared, json⟩⟩

/-! ## A description -/

/-- Two operations that answer with the same component, which has another one as a part. -/
def nestedPart : Document :=
  let get (id : String) : Json := .object [("get", .object [("operationId", .text id),
    ("responses", .object [("200", (Json.refSchema "Foo").jsonContent)])])]
  .ofPaths [("/a", get "a"), ("/b", get "b")]
    [("Foo", .objectSchema [("a", .typeSchema "string"), ("b", .refSchema "Bar")]),
      ("Bar", .objectSchema [("x", .typeSchema "string")])]

/-- The first operation leaves the part out, the second one selects it. -/
def nestedPartPaths : List String :=
  ["get:/a>res:200>ref:#/c/s/Foo>obj:Foo>prop:scalar:a",
    "get:/b>res:200>ref:#/c/s/Foo>obj:Foo>prop:obj:b>ref:#/c/s/Bar>obj:Bar>prop:scalar:x"]

/-- The part is declared when the whole is declared already. -/
theorem nestedPart_refers_forward : ∃ c r, Ends (Build.collect nestedPart nestedPartPaths)
      (.ofDocument nestedPart) c r ∧
    ∃ t ops r', Ends (Build.draft nestedPart c) r (t, ops) r' ∧
      ∃ (i : Nat) (decl : TypeDecl), t.decls[i]? = some decl ∧
        ∃ x ∈ decl.definition.fields, ∃ j, x.type.core = .named j ∧ ¬j < i := by
  have run : Ends.passes (Build.collect nestedPart nestedPartPaths) (.ofDocument nestedPart)
      (fun c r => Ends.passes (Build.draft nestedPart c) r fun x _ => decide
        (∃ y ∈ x.1.decls.zipIdx, ∃ f ∈ y.1.definition.fields, ∃ j < x.1.decls.length,
          f.type.core = .named j ∧ ¬j < y.2)) = true := by decide +kernel
  obtain ⟨c, r, collected, drafts⟩ := Ends.of_passes run
  obtain ⟨⟨t, ops⟩, r', drafted, forward⟩ := Ends.of_passes drafts
  obtain ⟨⟨decl, i⟩, at_, x, field, j, -, type, later⟩ := of_decide_eq_true forward
  exact ⟨c, r, collected, t, ops, r', drafted, i, decl,
    List.mem_zipIdx_iff_getElem?.mp at_, x, field, j, type, later⟩

/-- Where the first operation selects the part as well, the whole has the field for itself. -/
theorem nestedPart_refers_back : ∃ c r, Session nestedPart r c ∧
    ∃ t ops r', Ends (Build.draft nestedPart c) r (t, ops) r' ∧
      ∃ (i : Nat) (decl : TypeDecl), t.decls[i]? = some decl ∧
        ∃ x ∈ decl.definition.fields, ∃ j, x.type.core = .named j ∧
          x.jsonName ∈ t.run.graph.ownKeys c decl.side decl.node ∧ j < i := by
  have run : Ends.passes (Build.collect nestedPart ["get:/a>**", "get:/b>**"])
      (.ofDocument nestedPart)
      (fun c r => Ends.passes (Build.draft nestedPart c) r fun x _ => decide
        (∃ y ∈ x.1.decls.zipIdx, ∃ f ∈ y.1.definition.fields, ∃ j < x.1.decls.length,
          f.type.core = .named j ∧
            f.jsonName ∈ x.1.run.graph.ownKeys c y.1.side y.1.node)) = true := by decide +kernel
  obtain ⟨c, r, collected, drafts⟩ := Ends.of_passes run
  obtain ⟨⟨t, ops⟩, r', drafted, facts⟩ := Ends.of_passes drafts
  obtain ⟨⟨decl, i⟩, mem, x, field, j, -, type, own⟩ := of_decide_eq_true facts
  have session : Session nestedPart r c := .collect _ .start collected
  have at_ : t.decls[i]? = some decl := List.mem_zipIdx_iff_getElem?.mp mem
  obtain ⟨-, before | ⟨gained, -⟩⟩ := session.refers_back drafted i decl at_ x field j type
  · exact ⟨c, r, session, t, ops, r', drafted, i, decl, at_, x, field, j, type, own, before⟩
  · exact absurd own gained

end RestGraph
