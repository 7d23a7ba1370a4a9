import RestGraph.Proofs.Schema.Closed
import RestGraph.Proofs.Schema.Precedence
import RestGraph.Proofs.Schema.Signatures

/-!
# Shared names

Of the declarations that want the same name, those with the same signature share one. In general
they are then of the same shape: the signature is legible unless names contain its punctuation. What
is written of a declaration is more than its shape, as the names of fields, and less, as the marks
of outputs; the two agree where the fields for the same key do.
-/

namespace RestGraph

/-! ## What is written -/

structure FieldContent where
  jsonName : String
  name : String
  type : String
  /-- Only fields of inputs are marked. -/
  marked : Bool
deriving DecidableEq

def FieldDecl.content (ns : TypeNames) (input : Bool) (x : FieldDecl) : FieldContent :=
  ⟨x.jsonName, x.name, ns.render x.type, input && x.required⟩

/-- What is written of a declaration: its values, or the kind of an object and its fields. -/
def TypeDecl.content (ns : TypeNames) (t : TypeDecl) : List String ⊕ Bool × List FieldContent :=
  match t.definition with
  | .enum values => .inl values
  | .object fields => .inr (t.input, fields.map (FieldDecl.content ns t.input))

/-- What is written of the fields differs only where their shapes do, and the other way round. -/
structure FieldDecl.Agrees (ns : TypeNames) (input : Bool) (x y : FieldDecl) : Prop where
  name : x.name = y.name
  type : ns.render x.type = ns.render y.type → x.type = y.type
  required : input = false → x.required = y.required

instance {ns : TypeNames} {input : Bool} {x y : FieldDecl} : Decidable (x.Agrees ns input y) :=
  decidable_of_iff (x.name = y.name ∧ (ns.render x.type = ns.render y.type → x.type = y.type) ∧
      (input = false → x.required = y.required))
    ⟨fun h => ⟨h.1, h.2.1, h.2.2⟩, fun h => ⟨h.name, h.type, h.required⟩⟩

/-- The fields for the same key agree. -/
def TypeDecl.Agree (ns : TypeNames) (t t' : TypeDecl) : Prop :=
  ∀ x ∈ t.definition.fields, ∀ y ∈ t'.definition.fields, x.jsonName = y.jsonName →
    x.Agrees ns t.input y

instance {ns : TypeNames} {t t' : TypeDecl} : Decidable (t.Agree ns t') :=
  inferInstanceAs (Decidable (∀ x ∈ t.definition.fields, ∀ y ∈ t'.definition.fields,
    x.jsonName = y.jsonName → x.Agrees ns t.input y))

namespace TypeDecl

variable {ns : TypeNames} {decls : List TypeDecl} {t t' : TypeDecl} {i j : Nat}

/-- What is written alike has one shape. -/
theorem shape_of_content (agree : t.Agree ns t') (same : t.content ns = t'.content ns) :
    t.shape = t'.shape := by
  unfold Agree at agree
  unfold content at same
  unfold shape
  cases definition : t.definition <;> cases definition' : t'.definition <;>
    rw [definition, definition'] at same agree
  case enum.enum => rw [Sum.inl.inj same]
  case enum.object => cases same
  case object.enum => cases same
  case object.object fields fields' =>
    obtain ⟨input, contents⟩ := Prod.mk.inj (Sum.inr.inj same)
    have shapes : fields.map FieldDecl.shape = fields'.map FieldDecl.shape := by
      rw [input] at contents
      refine map_eq_map_of (fun x hx y hy same => ?_) contents
      obtain ⟨key, -, type, marked⟩ := FieldContent.mk.inj same
      have both := agree x hx y hy key
      have required : x.required = y.required := by
        cases side : t.input with
        | false => exact both.required side
        | true => rwa [← input, side, Bool.true_and, Bool.true_and] at marked
      rw [FieldDecl.shape, FieldDecl.shape, key, both.type type, required]
    rw [input]
    exact congrArg (fun shapes => Sum.inr (t'.input, shapes)) shapes

theorem content_of_shape (agree : t.Agree ns t') (same : t.shape = t'.shape) :
    t.content ns = t'.content ns := by
  unfold Agree at agree
  unfold shape at same
  unfold content
  cases definition : t.definition <;> cases definition' : t'.definition <;>
    rw [definition, definition'] at same agree
  case enum.enum => rw [Sum.inl.inj same]
  case enum.object => cases same
  case object.enum => cases same
  case object.object fields fields' =>
    obtain ⟨input, shapes⟩ := Prod.mk.inj (Sum.inr.inj same)
    have contents : fields.map (FieldDecl.content ns t'.input) =
        fields'.map (FieldDecl.content ns t'.input) := by
      refine map_eq_map_of (fun x hx y hy same => ?_) shapes
      obtain ⟨key, type, required⟩ := FieldShape.mk.inj same
      rw [FieldDecl.content, FieldDecl.content, key, type, required, (agree x hx y hy key).name]
    rw [input]
    exact congrArg (fun contents => Sum.inr (t'.input, contents)) contents

/-- Of two declarations that want the same name both get it, or the same other one, if and only if
they have the same signature. -/
theorem nameAt_eq_iff (names : ns.Names decls) (at_ : decls[i]? = some t)
    (at_' : decls[j]? = some t') (base : t.base = t'.base) :
    ns.nameAt i = ns.nameAt j ↔ signature decls t = signature decls t' := by
  refine ⟨fun same => ?_, names.shared at_ at_' base⟩
  obtain ⟨k, u, there, primary, name, content⟩ := names.stands at_
  obtain ⟨k', u', there', primary', name', content'⟩ := names.stands at_'
  obtain rfl : k = k' := names.distinct primary primary' (name.trans (same.trans name'.symm))
  obtain rfl : u = u' := Option.some.inj (there.symm.trans there')
  exact content.symm.trans content'

end TypeDecl

/-! ## Drafts -/

/-- The label of an id stands before a colon. -/
theorem TypeDecl.isKey_of_label {kind : Kind} {discriminant rest l : String} {x : Char}
    (label : kind.label = l) (head : l.toList.head? = some x) (other : x ≠ '[') :
    IsKey (idOf kind discriminant ++ rest) := by
  rw [IsKey, String.toList_append, Kind.toList_idOf, label, List.append_assoc, List.head?_append,
    head]
  refine ⟨by simp, fun same => other (Option.some.inj same)⟩

namespace Draft.Generated

variable {d : Document} {c : Collection} {r : Run} {t : Draft} {ops : List OperationDecl}
  {starts : Side → Nat → Prop}

theorem isKey (gen : t.Generated d c r ops starts) :
    ∀ decl ∈ t.decls, TypeDecl.IsKey decl.key := fun decl mem => by
  have marked : ∀ {id}, (∀ rest, TypeDecl.IsKey (id ++ rest)) → TypeDecl.IsKey id :=
    fun {id} all => String.append_empty (s := id) ▸ all ""
  rcases gen.typed.keys decl mem with ⟨_, none, -⟩ | ⟨side, i, e, -, -, isOf⟩
  · cases none
  · rcases Graph.declKey?_cases isOf.key with ⟨structured, key⟩ | ⟨values, kind, key⟩
    · have all : ∀ rest, TypeDecl.IsKey (t.run.graph.idAt e ++ rest) := fun rest => by
        rw [Graph.idAt, Node.id]
        cases kind : (t.run.graph.node e).kind <;> rw [kind] at structured <;> try cases structured
        · exact TypeDecl.isKey_of_label (l := "obj") (x := 'o') rfl (by decide) (by decide)
        · exact TypeDecl.isKey_of_label (l := "comp") (x := 'c') rfl (by decide) (by decide)
        · exact TypeDecl.isKey_of_label (l := "union") (x := 'u') rfl (by decide) (by decide)
      rw [key]
      cases side with
      | output => exact marked all
      | input => exact all "/input"
    · rw [key, Graph.idAt, Node.id, kind]
      exact marked fun rest =>
        TypeDecl.isKey_of_label (l := "enum") (x := 'e') rfl (by decide) (by decide)

theorem refers (gen : t.Generated d c r ops starts) {decl : TypeDecl} (mem : decl ∈ t.decls) :
    ∀ x ∈ decl.definition.fields, TypeDecl.Refers t.decls x.type := fun x field j core => by
  obtain ⟨_, _, -, -, f, -, -, -, -, stands, -⟩ := gen.shows_of_mem mem field
  exact stands.lt_length core

end Draft.Generated

/-- Whatever a session drafts, of two declarations that want the same name: with the same shape they
share a name. If their fields are legible, they share a name only with the same shape; and if they
agree besides, then if and only if the same is written of them. -/
theorem Session.shares_name_iff {d : Document} {c : Collection} {r r' : Run} {t : Draft}
    {ops : List OperationDecl} (session : Session d r c)
    (step : Ends (Build.draft d c) r (t, ops) r') :
    ∀ i j decl decl', t.decls[i]? = some decl → t.decls[j]? = some decl' →
      decl.base = decl'.base →
        (decl.shape = decl'.shape → t.typeNames.nameAt i = t.typeNames.nameAt j) ∧
        ((∀ x ∈ decl.definition.fields ++ decl'.definition.fields,
            TypeDecl.IsLegible t.decls x) →
          (t.typeNames.nameAt i = t.typeNames.nameAt j ↔ decl.shape = decl'.shape) ∧
          (decl.Agree t.typeNames decl' →
            (t.typeNames.nameAt i = t.typeNames.nameAt j ↔
              decl.content t.typeNames = decl'.content t.typeNames))) := by
  intro i j decl decl' at_ at_' base
  obtain ⟨rfl, starts, gen⟩ := session.ready.generated step
  have mem := List.mem_of_getElem? at_
  have mem' := List.mem_of_getElem? at_'
  have shared := TypeDecl.nameAt_eq_iff gen.typeNames at_ at_' base
  refine ⟨fun same => shared.mpr (TypeDecl.signature_of_shape same), fun legible => ?_⟩
  have shapes : t.typeNames.nameAt i = t.typeNames.nameAt j ↔ decl.shape = decl'.shape := by
    refine ⟨fun same => ?_, fun same => shared.mpr (TypeDecl.signature_of_shape same)⟩
    exact TypeDecl.shape_of_signature gen.tidy.keys gen.isKey (gen.tidy.proper decl mem)
      (gen.tidy.proper decl' mem') (fun x field => legible x (List.mem_append_left _ field))
      (fun x field => legible x (List.mem_append_right _ field)) (gen.refers mem)
      (gen.refers mem') (shared.mp same)
  refine ⟨shapes, fun agree => shapes.trans ?_⟩
  exact ⟨TypeDecl.content_of_shape agree, TypeDecl.shape_of_content agree⟩

/-! ## Pairs of answers -/

/-- Two operations with an answer each. -/
def Document.answers (first second : Json) : Document :=
  let get (id : String) (answer : Json) : Json := .object [("get", .object [
    ("operationId", .text id), ("responses", .object [("200", answer.jsonContent)])])]
  .ofPaths [("/a", get "a" first), ("/b", get "b" second)] []

/-- One answer has a field whose key reads in a signature as the two fields of the other. -/
def spacedKey : Document := .answers
  (.objectSchema [("x", .objectSchema [("a", .typeSchema "string"), ("b", .typeSchema "string")])])
  (.objectSchema [("x", .objectSchema [("a:String b", .typeSchema "string")])])

/-- Two answers that are alike, with an object within an object. -/
def twoItems : Document :=
  let item : Json := .objectSchema [("owner", .objectSchema [("name", .typeSchema "string")])]
  .answers (.objectSchema [("item", item)]) (.objectSchema [("item", item)])

/-- Different fields share a name, and the same fields do not, as a part has another key. -/
theorem signatures_mislead :
    (∃ c r, Ends (Build.collect spacedKey ["get:/a>**", "get:/b>**"]) (.ofDocument spacedKey) c r ∧
      ∃ t ops r', Ends (Build.draft spacedKey c) r (t, ops) r' ∧
        ∃ (i j : Nat) (decl decl' : TypeDecl), t.decls[i]? = some decl ∧ t.decls[j]? = some decl' ∧
          decl.base = decl'.base ∧ t.typeNames.nameAt i = t.typeNames.nameAt j ∧
            decl.content t.typeNames ≠ decl'.content t.typeNames) ∧
    ∃ c r, Ends (Build.collect twoItems ["get:/a>**", "get:/b>**"]) (.ofDocument twoItems) c r ∧
      ∃ t ops r', Ends (Build.draft twoItems c) r (t, ops) r' ∧
        ∃ (i j : Nat) (decl decl' : TypeDecl), t.decls[i]? = some decl ∧ t.decls[j]? = some decl' ∧
          decl.base = decl'.base ∧ t.typeNames.nameAt i ≠ t.typeNames.nameAt j ∧
            decl.content t.typeNames = decl'.content t.typeNames := by
  constructor
  · have run : Ends.passes (Build.collect spacedKey ["get:/a>**", "get:/b>**"])
        (.ofDocument spacedKey)
          (fun c r => Ends.passes (Build.draft spacedKey c) r fun x _ => decide
          (∃ y ∈ x.1.decls.zipIdx, ∃ z ∈ x.1.decls.zipIdx, y.1.base = z.1.base ∧
            x.1.typeNames.nameAt y.2 = x.1.typeNames.nameAt z.2 ∧
              y.1.content x.1.typeNames ≠ z.1.content x.1.typeNames)) = true := by decide +kernel
    obtain ⟨c, r, collected, drafts⟩ := Ends.of_passes run
    obtain ⟨⟨t, ops⟩, r', drafted, facts⟩ := Ends.of_passes drafts
    obtain ⟨⟨decl, i⟩, at_, ⟨decl', j⟩, at_', rest⟩ := of_decide_eq_true facts
    exact ⟨c, r, collected, t, ops, r', drafted, i, j, decl, decl',
      List.mem_zipIdx_iff_getElem?.mp at_, List.mem_zipIdx_iff_getElem?.mp at_', rest⟩
  · have run : Ends.passes (Build.collect twoItems ["get:/a>**", "get:/b>**"])
        (.ofDocument twoItems) (fun c r => Ends.passes (Build.draft twoItems c) r fun x _ => decide
          (∃ y ∈ x.1.decls.zipIdx, ∃ z ∈ x.1.decls.zipIdx, y.1.base = z.1.base ∧
            x.1.typeNames.nameAt y.2 ≠ x.1.typeNames.nameAt z.2 ∧
              y.1.content x.1.typeNames = z.1.content x.1.typeNames)) = true := by decide +kernel
    obtain ⟨c, r, collected, drafts⟩ := Ends.of_passes run
    obtain ⟨⟨t, ops⟩, r', drafted, facts⟩ := Ends.of_passes drafts
    obtain ⟨⟨decl, i⟩, at_, ⟨decl', j⟩, at_', rest⟩ := of_decide_eq_true facts
    exact ⟨c, r, collected, t, ops, r', drafted, i, j, decl, decl',
      List.mem_zipIdx_iff_getElem?.mp at_, List.mem_zipIdx_iff_getElem?.mp at_', rest⟩

/-- Two answers with the same part. -/
def twoParts : Document :=
  let part : Json := .objectSchema [("a", .typeSchema "string"), ("b", .typeSchema "integer")]
  .answers (.objectSchema [("x", part)]) (.objectSchema [("x", part)])

/-- The parts are declared twice, under one name. -/
theorem twoParts_share : ∃ c r, Session twoParts r c ∧
    ∃ t ops r', Ends (Build.draft twoParts c) r (t, ops) r' ∧
      ∃ (i j : Nat) (decl decl' : TypeDecl), t.decls[i]? = some decl ∧ t.decls[j]? = some decl' ∧
        i ≠ j ∧ decl.base = decl'.base ∧
          (∀ x ∈ decl.definition.fields ++ decl'.definition.fields,
            TypeDecl.IsLegible t.decls x) ∧ decl.Agree t.typeNames decl' ∧
              decl.content t.typeNames = decl'.content t.typeNames ∧
                t.typeNames.nameAt i = t.typeNames.nameAt j := by
  have run : Ends.passes (Build.collect twoParts ["get:/a>**", "get:/b>**"])
      (.ofDocument twoParts) (fun c r => Ends.passes (Build.draft twoParts c) r fun x _ => decide
        (∃ y ∈ x.1.decls.zipIdx, ∃ z ∈ x.1.decls.zipIdx, y.2 ≠ z.2 ∧ y.1.base = z.1.base ∧
          (∀ f ∈ y.1.definition.fields ++ z.1.definition.fields,
            TypeDecl.IsLegible x.1.decls f) ∧ y.1.Agree x.1.typeNames z.1 ∧
              y.1.content x.1.typeNames = z.1.content x.1.typeNames)) = true := by decide +kernel
  obtain ⟨c, r, collected, drafts⟩ := Ends.of_passes run
  obtain ⟨⟨t, ops⟩, r', drafted, facts⟩ := Ends.of_passes drafts
  obtain ⟨⟨decl, i⟩, mem, ⟨decl', j⟩, mem', other, base, legible, agree, same⟩ :=
    of_decide_eq_true facts
  have at_ := List.mem_zipIdx_iff_getElem?.mp mem
  have at_' := List.mem_zipIdx_iff_getElem?.mp mem'
  have session : Session twoParts r c := .collect _ .start collected
  obtain ⟨-, shares⟩ := session.shares_name_iff drafted i j decl decl' at_ at_' base
  exact ⟨c, r, session, t, ops, r', drafted, i, j, decl, decl', at_, at_', other, base, legible,
    agree, same, ((shares legible).2 agree).mpr same⟩

end RestGraph
