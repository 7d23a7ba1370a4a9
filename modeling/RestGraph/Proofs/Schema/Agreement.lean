import RestGraph.Proofs.Schema.Session
import RestGraph.Proofs.Schema.Writing

/-!
# Types and mappings agree

The types are drafted in one pass and the mappings are written in another. They agree on a response
when the schema itself closes no cycle, and every container on the way down has a field to declare
and gives its fields the names that they have in the declaration; and so they do on a body. This is
so as long as declarations that are shared mix no types.
-/

namespace RestGraph

/-! ## Agreement -/

/-- The fields of a definition, if it is that of an object. -/
def Definition.fields? : Definition → Option (List FieldDecl)
  | object fields => some fields
  | enum _ => none

namespace TypeRef

/-- The fields of the declared object type that is left without the list brackets. -/
def fields? (decls : List TypeDecl) (ty : TypeRef) : Option (List FieldDecl) :=
  match ty.core with
  | .named i => (decls[i]?).bind fun decl => decl.definition.fields?
  | _ => none

/-- Whether a scalar or an enum is left without the list brackets. -/
def isPlain (decls : List TypeDecl) (ty : TypeRef) : Bool :=
  match ty.core with
  | .scalar _ => true
  | .named i => (decls[i]?).any fun decl => !decl.definition.isObject
  | .list _ => false

end TypeRef

mutual

/-- The entry stands among the fields under its name and key, and it opens a block just where the
type of the field is an object type. -/
def Entry.Agrees (decls : List TypeDecl) (fields : List FieldDecl) : Entry → Prop
  | .circular _ => True
  | .leaf name key _ => ∃ x ∈ fields, x.name = name ∧ x.jsonName = key ∧ x.type.fields? decls = none
  | .block name key entries => ∃ x ∈ fields, x.name = name ∧ x.jsonName = key ∧
      ∃ inner ∈ x.type.fields? decls, Entry.AgreeAll decls inner entries
termination_by structural e => e

def Entry.AgreeAll (decls : List TypeDecl) (fields : List FieldDecl) : List Entry → Prop
  | [] => True
  | e :: rest => e.Agrees decls fields ∧ Entry.AgreeAll decls fields rest
termination_by structural es => es

end

mutual

instance Entry.decidableAgrees (decls : List TypeDecl) (fields : List FieldDecl) :
    (e : Entry) → Decidable (e.Agrees decls fields)
  | .circular _ => isTrue trivial
  | .leaf name key _ => inferInstanceAs (Decidable
      (∃ x ∈ fields, x.name = name ∧ x.jsonName = key ∧ x.type.fields? decls = none))
  | .block name key entries =>
    have (fields : List FieldDecl) := Entry.decidableAgreeAll decls fields entries
    inferInstanceAs (Decidable (∃ x ∈ fields, x.name = name ∧ x.jsonName = key ∧
      ∃ inner ∈ x.type.fields? decls, Entry.AgreeAll decls inner entries))
termination_by structural e => e

instance Entry.decidableAgreeAll (decls : List TypeDecl) (fields : List FieldDecl) :
    (es : List Entry) → Decidable (Entry.AgreeAll decls fields es)
  | [] => isTrue trivial
  | e :: rest =>
    have := Entry.decidableAgrees decls fields e
    have := Entry.decidableAgreeAll decls fields rest
    inferInstanceAs (Decidable (_ ∧ _))
termination_by structural es => es

end

/-- The mapping is a single line just if the type is a scalar or an enum; else its entries agree
with the fields of the type. -/
structure MappingAgrees (decls : List TypeDecl) (ty : TypeRef) (lines : List String)
    (whole : String) (entries : List Entry) : Prop where
  whole : lines = [whole] ↔ ty.isPlain decls = true
  fields : ∀ fields ∈ ty.fields? decls, Entry.AgreeAll decls fields entries

instance {decls : List TypeDecl} {ty : TypeRef} {lines : List String} {whole : String}
    {entries : List Entry} : Decidable (MappingAgrees decls ty lines whole entries) :=
  decidable_of_iff ((lines = [whole] ↔ ty.isPlain decls = true) ∧
      ∀ fields ∈ ty.fields? decls, Entry.AgreeAll decls fields entries)
    ⟨fun both => ⟨both.1, both.2⟩, fun agrees => ⟨agrees.whole, agrees.fields⟩⟩

/-- The entries for the schema of a payload. -/
def Graph.entriesBelow (g : Graph) (selection : Option Collection) (payload : Nat) : List Entry :=
  match (g.node payload).children with
  | [] => []
  | schema :: _ => entriesOf g selection (g.elementOf schema)

/-- Whether the node is a response that the description says nothing about. -/
def Kind.isSyntheticResponse : Kind → Bool
  | response _ synthetic => synthetic
  | _ => false

namespace Draft

/-- The mapping of a response agrees with the type that the operation returns. -/
def ResponseAgrees (t : Draft) (c : Collection) (response : Nat) (ty : TypeRef) : Prop :=
  MappingAgrees t.decls ty (responseLines t.run.graph c response) wholeMark
    (t.run.graph.entriesBelow (some c) response)

/-- The mapping of a body agrees with the type of the argument that carries it. -/
def BodyAgrees (t : Draft) (body : Nat) (arg : String) (ty : TypeRef) : Prop :=
  MappingAgrees t.decls ty (bodyLines t.run.graph body arg) ("$args." ++ arg)
    (t.run.graph.entriesBelow none body)

instance {t : Draft} {c : Collection} {p : Nat} {ty : TypeRef} :
    Decidable (t.ResponseAgrees c p ty) :=
  inferInstanceAs (Decidable (MappingAgrees _ _ _ _ _))

instance {t : Draft} {p : Nat} {arg : String} {ty : TypeRef} : Decidable (t.BodyAgrees p arg ty) :=
  inferInstanceAs (Decidable (MappingAgrees _ _ _ _ _))

end Draft

/-! ## Conditions -/

namespace Graph

variable {g : Graph} {c : Collection} {side side' : Side} {i m n : Nat}

/-- Fields that two containers declare for one JSON key have the same type. -/
def Alike (g : Graph) (c : Collection) (side : Side) (m : Nat) (side' : Side) (n : Nat) : Prop :=
  ∀ f ∈ g.fieldsOn c side m, ∀ f' ∈ g.fieldsOn c side' n, f.isDeclared g = true →
    f'.isDeclared g = true → f.jsonName = f'.jsonName →
      g.declKey? c side (g.elementOf f.prop) = g.declKey? c side' (g.elementOf f'.prop)

/-- What is met shares declarations only with containers that are alike. -/
def Unmixed (g : Graph) (c : Collection) (side : Side) (i : Nat) : Prop :=
  ∀ m, g.Meets c side i m → (g.node m).kind.isStructured = true → ∀ side' n, g.Shown c side' n →
    g.declKey side m = g.declKey side' n → g.Alike c side m side' n

end Graph

namespace Draft

/-- The declaration with the key has the fields of the container, and under the same names. -/
def NamesFields (t : Draft) (c : Collection) (side : Side) (m : Nat) : Prop :=
  ∀ f ∈ t.run.graph.fieldsOn c side m, f.isDeclared t.run.graph = true →
    ∃ decl ∈ t.decls, decl.key = t.run.graph.declKey side m ∧
      ∃ x ∈ decl.definition.fields, x.jsonName = f.jsonName ∧ f.name = some x.name

/-- Every container on the way down has a field that is declared, and the names of all of them. -/
def Mirrors (t : Draft) (c : Collection) (side : Side) (i : Nat) : Prop :=
  ∀ m, t.run.graph.Meets c side i m → (t.run.graph.node m).kind.isStructured = true →
    t.run.graph.isHollow c side m = false ∧ t.NamesFields c side m

end Draft

/-! ## Types that stand for nodes -/

namespace Draft

variable {d : Document} {c : Collection} {side : Side} {t : Draft} {ty : TypeRef} {e : Nat}
  {g : Graph}

theorem Tidy.eq_of_key (tidy : t.Tidy) {a b : TypeDecl} (ha : a ∈ t.decls) (hb : b ∈ t.decls)
    (same : a.key = b.key) : a = b :=
  List.inj_on_of_nodup_map tidy.keys ha hb same

theorem Tidy.isObject_of_key (tidy : t.Tidy) {decl : TypeDecl} (mem : decl ∈ t.decls) {b : Bool}
    (key : TypeDecl.isEnumKey decl.key = !b) : decl.definition.isObject = b := by
  rw [tidy.suits decl mem, key, Bool.not_not]

/-- A container that is not hollow stands for an object type. -/
theorem Tidy.object_of_stands (tidy : t.Tidy)
    (stands : ty.Stands t.decls (g.declKey? c side e))
    (structured : (g.node e).kind.isStructured = true) (solid : g.isHollow c side e = false) :
    ty.isPlain t.decls = false ∧ ∃ decl ∈ t.decls, decl.key = g.declKey side e ∧
      ty.fields? t.decls = some decl.definition.fields := by
  rw [Graph.declKey?_of_isStructured structured, solid] at stands
  obtain ⟨i, decl, core, at_, key⟩ := stands
  have mem := List.mem_of_getElem? at_
  have object := tidy.isObject_of_key (b := true) mem
    (key ▸ TypeDecl.isEnumKey_declKey side structured)
  rw [TypeRef.isPlain, TypeRef.fields?, core]
  simp only [at_, Option.any_some, Option.bind_some, object, Bool.not_true, true_and]
  refine ⟨decl, mem, key, ?_⟩
  cases definition : decl.definition with
  | object fields => rfl
  | enum values =>
    rw [definition] at object
    cases object

/-- Any other node stands for a scalar or an enum. -/
theorem Tidy.plain_of_stands (tidy : t.Tidy)
    (stands : ty.Stands t.decls (g.declKey? c side e))
    (other : (g.node e).kind.isStructured = true → g.isHollow c side e = true) :
    ty.isPlain t.decls = true ∧ ty.fields? t.decls = none := by
  have scalar : ty.Stands t.decls none → ty.isPlain t.decls = true ∧ ty.fields? t.decls = none := by
    rintro ⟨type, core⟩
    rw [TypeRef.isPlain, TypeRef.fields?, core]
    exact ⟨rfl, rfl⟩
  cases structured : (g.node e).kind.isStructured with
  | true =>
    rw [Graph.declKey?_of_isStructured structured, other structured] at stands
    exact scalar stands
  | false =>
    by_cases tag : (g.node e).kind.tag = .enum
    · cases kind : (g.node e).kind with
      | enum values =>
        rw [Graph.declKey?, kind] at stands
        simp only at stands
        split at stands
        · obtain ⟨i, decl, core, at_, key⟩ := stands
          have mem := List.mem_of_getElem? at_
          have object := tidy.isObject_of_key (b := false) mem
            (key ▸ TypeDecl.isEnumKey_of_enum kind)
          rw [TypeRef.isPlain, TypeRef.fields?, core]
          simp only [at_, Option.any_some, Option.bind_some, object, Bool.not_false, true_and]
          cases definition : decl.definition with
          | object fields =>
            rw [definition] at object
            cases object
          | enum values => rfl
        · exact scalar stands
      | _ =>
        rw [kind] at tag
        cases tag
    · rw [Graph.declKey?_eq_none structured tag] at stands
      exact scalar stands

end Draft

/-! ## Both passes -/

@[simp]
theorem Entry.agreeAll_iff {decls : List TypeDecl} {fields : List FieldDecl} {es : List Entry} :
    Entry.AgreeAll decls fields es ↔ ∀ e ∈ es, e.Agrees decls fields := by
  induction es with
  | nil => simp only [Entry.AgreeAll, List.not_mem_nil, false_implies, implies_true]
  | cons e rest ih => rw [Entry.AgreeAll, ih, List.forall_mem_cons]

namespace Draft.Generated

variable {d : Document} {c : Collection} {r : Run} {t : Draft} {ops : List OperationDecl}
  {starts : Side → Nat → Prop} {side : Side} {i j m : Nat}

/-- Wherever a field of the declaration comes from, it is typed as in the container. -/
theorem stands_of_field (gen : t.Generated d c r ops starts)
    (meets : t.run.graph.Meets c side j m)
    (structured : (t.run.graph.node m).kind.isStructured = true)
    (unmixed : t.run.graph.Unmixed c side j) {decl : TypeDecl} (declared : decl ∈ t.decls)
    (key : decl.key = t.run.graph.declKey side m) {f : VisibleField}
    (shown : f ∈ t.run.graph.fieldsOn c side m) (open_ : f.isDeclared t.run.graph = true)
    {x : FieldDecl} (hx : x ∈ decl.definition.fields) (same : x.jsonName = f.jsonName) :
    x.type.Stands t.decls (t.run.graph.declKey? c side (t.run.graph.elementOf f.prop)) := by
  rcases gen.typed.fields decl declared x hx with
    ⟨_, none, -⟩ | ⟨side', i, n, start', meets', structured', key', f', shown', open',
      json, -, stands, -⟩
  · cases none
  · have type := unmixed m meets structured side' n
      ⟨structured', i, gen.isStart start', meets'⟩ (key.symm.trans key') f shown f' shown' open_
      open' (same.symm.trans json.symm)
    exact type ▸ stands

/-- The entries for a container agree with its declaration when all below it is mirrored. -/
theorem agreeAll_of_mirrors (gen : t.Generated d c r ops starts) (sound : t.run.graph.Sound)
    (unmixed : t.run.graph.Unmixed c side j) (mirrors : t.Mirrors c side j) (m : Nat)
    {decl : TypeDecl} (meets : t.run.graph.Meets c side j m)
    (structured : (t.run.graph.node m).kind.isStructured = true) (declared : decl ∈ t.decls)
    (key : decl.key = t.run.graph.declKey side m) :
    Entry.AgreeAll t.decls decl.definition.fields
      (entriesOf t.run.graph (side.selection c) m) := by
  have field : ∀ f ∈ t.run.graph.fieldsOn c side m, f.isDeclared t.run.graph = true →
      ∃ x ∈ decl.definition.fields, x.jsonName = f.jsonName ∧ f.name = some x.name ∧
        x.type.Stands t.decls (t.run.graph.declKey? c side (t.run.graph.elementOf f.prop)) :=
    fun f shown open_ => by
      obtain ⟨decl', declared', key', x, hx, same, name⟩ :=
        (mirrors m meets structured).2 f shown open_
      rw [gen.tidy.eq_of_key declared' declared (key'.trans key.symm)] at hx
      exact ⟨x, hx, same, name,
        gen.stands_of_field meets structured unmixed declared key shown open_ hx same⟩
  refine Entry.agreeAll_iff.mpr fun e mem => ?_
  obtain ⟨f, shown, written⟩ := (Graph.mem_entriesOf sound).mp mem
  cases written with
  | circular => trivial
  | @leaf name named open_ plain =>
    obtain ⟨x, hx, same, name', stands⟩ := field f shown open_
    have type := gen.tidy.plain_of_stands stands fun container => by
      rw [plain] at container
      cases container
    exact ⟨x, hx, Option.some.inj (name'.symm.trans named), same, type.2⟩
  | @block name named open_ container =>
    obtain ⟨x, hx, same, name', stands⟩ := field f shown open_
    have below := meets.step structured shown (by rw [named]; rfl)
    obtain ⟨-, decl', declared', key', type⟩ :=
      gen.tidy.object_of_stands stands container (mirrors _ below container).1
    have bounds := sound.element_of_field shown
    exact ⟨x, hx, Option.some.inj (name'.symm.trans named), same, _, type,
      gen.agreeAll_of_mirrors sound unmixed mirrors _ below container declared' key'⟩
termination_by t.run.graph.size - m
decreasing_by omega

/-- All below a container is mirrored when its entries agree with its declaration. -/
theorem mirrors_of_agreeAll (gen : t.Generated d c r ops starts) (sound : t.run.graph.Sound)
    (unmixed : t.run.graph.Unmixed c side j) (more : t.run.graph.Meets c side i m)
    (structured : (t.run.graph.node m).kind.isStructured = true)
    (meets : t.run.graph.Meets c side j (t.run.graph.elementOf i))
    (solid : t.run.graph.isHollow c side (t.run.graph.elementOf i) = false)
    {decl : TypeDecl} (declared : decl ∈ t.decls)
    (key : decl.key = t.run.graph.declKey side (t.run.graph.elementOf i))
    (agree : Entry.AgreeAll t.decls decl.definition.fields
      (entriesOf t.run.graph (side.selection c) (t.run.graph.elementOf i))) :
    t.run.graph.isHollow c side m = false ∧ t.NamesFields c side m := by
  induction more generalizing decl with
  | here i =>
    refine ⟨solid, fun f shown open_ => ⟨decl, declared, key, ?_⟩⟩
    obtain ⟨name, named⟩ := Option.isSome_iff_exists.mp ((Bool.and_eq_true _ _).mp open_).1
    cases inner : (t.run.graph.node (t.run.graph.elementOf f.prop)).kind.isStructured with
    | false =>
      obtain ⟨x, hx, name', same, -⟩ := Entry.agreeAll_iff.mp agree _
        ((Graph.mem_entriesOf sound).mpr ⟨f, shown, .leaf named open_ inner⟩)
      exact ⟨x, hx, same, named.trans (congrArg some name'.symm)⟩
    | true =>
      obtain ⟨x, hx, name', same, -⟩ := Entry.agreeAll_iff.mp agree _
        ((Graph.mem_entriesOf sound).mpr ⟨f, shown, .block named open_ inner⟩)
      exact ⟨x, hx, same, named.trans (congrArg some name'.symm)⟩
  | @field i e f container shown named more ih =>
    cases inner : (t.run.graph.node (t.run.graph.elementOf f.prop)).kind.isStructured with
    | false =>
      rw [more.eq_elementOf inner, inner] at structured
      cases structured
    | true =>
      obtain ⟨name, named'⟩ := Option.isSome_iff_exists.mp named
      have open_ : f.isDeclared t.run.graph = true := by
        rw [VisibleField.isDeclared, named, Graph.not_isCircular_of_isStructured inner]
        rfl
      obtain ⟨x, hx, -, same, fields, type, agree'⟩ := Entry.agreeAll_iff.mp agree _
        ((Graph.mem_entriesOf sound).mpr ⟨f, shown, .block named' open_ inner⟩)
      have stands :=
        gen.stands_of_field meets container unmixed declared key shown open_ hx same
      have solid' : t.run.graph.isHollow c side (t.run.graph.elementOf f.prop) = false := by
        rw [← Bool.not_eq_true]
        intro hollow
        rw [(gen.tidy.plain_of_stands stands fun _ => hollow).2] at type
        cases type
      obtain ⟨-, decl', declared', key', type'⟩ :=
        gen.tidy.object_of_stands stands inner solid'
      rw [type', Option.mem_some_iff] at type
      exact ih structured (meets.step container shown named) solid' declared' key'
        (type.symm ▸ agree')

/-- A mapping agrees with the type of a schema just if all below the schema is mirrored. -/
theorem mappingAgrees_iff (gen : t.Generated d c r ops starts) (sound : t.run.graph.Sound)
    (unmixed : t.run.graph.Unmixed c side j) {ty : TypeRef}
    (stands : ty.Stands t.decls (t.run.graph.declKey? c side (t.run.graph.elementOf j)))
    {lines : List String} {whole : String}
    (single : (t.run.graph.node (t.run.graph.elementOf j)).kind.isStructured = false →
      lines = [whole])
    (block : (t.run.graph.node (t.run.graph.elementOf j)).kind.isStructured = true →
      lines ≠ [whole]) :
    MappingAgrees t.decls ty lines whole
        (entriesOf t.run.graph (side.selection c) (t.run.graph.elementOf j)) ↔
      t.Mirrors c side j := by
  cases structured : (t.run.graph.node (t.run.graph.elementOf j)).kind.isStructured with
  | false =>
    obtain ⟨plain, none⟩ := gen.tidy.plain_of_stands stands fun container => by
      rw [structured] at container
      cases container
    refine iff_of_true ⟨iff_of_true (single structured) plain, fun fields some => ?_⟩ ?_
    · rw [none] at some
      cases some
    · intro m meets container
      rw [meets.eq_elementOf structured, structured] at container
      cases container
  | true =>
    constructor
    · intro agrees m meets container
      have solid : t.run.graph.isHollow c side (t.run.graph.elementOf j) = false := by
        rw [← Bool.not_eq_true]
        intro hollow
        have plain := (gen.tidy.plain_of_stands stands fun _ => hollow).1
        exact block structured (agrees.whole.mpr plain)
      obtain ⟨-, decl, declared, key, type⟩ := gen.tidy.object_of_stands stands structured solid
      exact gen.mirrors_of_agreeAll sound unmixed meets container (.here j) solid declared key
        (agrees.fields _ type)
    · intro mirrors
      obtain ⟨plain, decl, declared, key, type⟩ :=
        gen.tidy.object_of_stands stands structured (mirrors _ (.here j) structured).1
      refine ⟨iff_of_false (block structured) (by rw [plain]; exact Bool.noConfusion),
        fun fields some => ?_⟩
      rw [type, Option.mem_some_iff] at some
      exact some ▸ gen.agreeAll_of_mirrors sound unmixed mirrors _ (.here j) structured declared
        key

end Draft.Generated

/-! ## Payloads -/

section Lines

variable {g : Graph} {c : Collection} {side : Side} {p e schema : Nat} {rest : List Nat}

@[simp] theorem Graph.declKey?_of_isCircular (circular : (g.node e).kind.isCircular = true) :
    g.declKey? c side e = none := by
  unfold declKey?
  split
  · next kind => rw [kind] at circular; cases circular
  · next kind => rw [kind] at circular; cases circular
  · next kind => rw [kind] at circular; cases circular
  · next kind => rw [kind] at circular; cases circular
  · rfl

@[simp] theorem responseLines_of_childless (real : (g.node p).kind.isSyntheticResponse = false)
    (children : (g.node p).children = []) : responseLines g c p = [wholeMark] := by
  unfold responseLines
  dsimp only
  split
  · next kind =>
    rw [kind] at real
    cases real
  · rfl
  · next some _ =>
    rw [children] at some
    cases some

/-- The lines of a response, by what its schema comes to. -/
theorem responseLines_of_schema (real : (g.node p).kind.isSyntheticResponse = false)
    (children : (g.node p).children = schema :: rest) : responseLines g c p =
      if (g.node (g.elementOf schema)).kind.isCircular then [circularComment]
      else if (g.node (g.elementOf schema)).kind.isStructured then
        Entry.linesOf .response 0 (entriesOf g (some c) (g.elementOf schema))
      else [wholeMark] := by
  unfold responseLines
  dsimp only
  split
  · next kind =>
    rw [kind] at real
    cases real
  · next none _ =>
    rw [children] at none
    cases none
  · next some _ =>
    rw [children] at some
    cases some
    rfl

theorem bodyLines_of_schema (arg : String) (children : (g.node p).children = schema :: rest) :
    bodyLines g p arg =
      if (g.node (g.elementOf schema)).kind.isStructured then
        ["$args." ++ arg ++ " \x7b"] ++
          Entry.linesOf .body 1 (entriesOf g none (g.elementOf schema)) ++ ["\x7d"]
      else ["$args." ++ arg] := by
  unfold bodyLines
  rw [children]

end Lines

/-- A mapping without entries agrees with any JSON value. -/
theorem MappingAgrees.of_scalar {decls : List TypeDecl} {type : ScalarType} {whole : String}
    {entries : List Entry} : MappingAgrees decls (.scalar type) [whole] whole entries where
  whole := iff_of_true rfl rfl
  fields _ some := by cases some

namespace Draft.Generated

variable {d : Document} {c : Collection} {r : Run} {t : Draft} {ops : List OperationDecl}
  {starts : Side → Nat → Prop} {p : Nat} {ty : TypeRef}

/-- **When the type of a response and its selection agree.** -/
theorem responseAgrees_iff (gen : t.Generated d c r ops starts) (sound : t.run.graph.Sound)
    (real : (t.run.graph.node p).kind.isSyntheticResponse = false)
    (unmixed : ∀ j ∈ (t.run.graph.node p).children.head?, t.run.graph.Unmixed c .output j)
    (gives : t.Gives c starts .output p ty) :
    t.ResponseAgrees c p ty ↔ ∀ j ∈ (t.run.graph.node p).children.head?,
      (t.run.graph.node (t.run.graph.elementOf j)).kind.isCircular = false ∧
        t.Mirrors c .output j := by
  unfold ResponseAgrees Graph.entriesBelow
  unfold Gives at gives
  cases children : (t.run.graph.node p).children with
  | nil =>
    rw [children] at gives
    rw [responseLines_of_childless real children, show ty = .scalar .json from gives]
    exact iff_of_true .of_scalar fun j none => by cases none
  | cons schema rest =>
    rw [children] at gives
    obtain ⟨-, found, answers, type⟩ := gives
    have unmixed := unmixed schema (by rw [children]; rfl)
    have lines := responseLines_of_schema (c := c) real children
    simp only [List.head?_cons, Option.mem_some_iff, forall_eq']
    cases found with
    | none =>
      -- the schema closes a cycle, so the mapping is a comment, but the type is a scalar
      have circular : (t.run.graph.node (t.run.graph.elementOf schema)).kind.isCircular = true :=
        answers
      rw [circular, if_pos rfl] at lines
      rw [circular, lines, show ty = .scalar .json from type]
      refine iff_of_false (fun agrees => ?_) fun open_ => Bool.noConfusion open_.1
      have mark : [circularComment] = [wholeMark] := agrees.whole.mpr rfl
      exact absurd mark (by decide)
    | some found =>
      obtain ⟨open_, stands, -⟩ := answers
      rw [open_, if_neg Bool.false_ne_true] at lines
      rw [show ty = found from type]
      refine (gen.mappingAgrees_iff sound unmixed stands ?_ ?_).trans
        (and_iff_right open_).symm
      · intro plain
        rw [lines, plain, if_neg Bool.false_ne_true]
      · intro structured
        rw [lines, structured, if_pos rfl]
        exact sound.linesOf_ne_whole .output

/-- **When the type of a body and its lines agree.** -/
theorem bodyAgrees_iff (gen : t.Generated d c r ops starts) (sound : t.run.graph.Sound)
    (unmixed : ∀ j ∈ (t.run.graph.node p).children.head?, t.run.graph.Unmixed c .input j)
    (gives : t.Gives c starts .input p ty) (arg : String) :
    t.BodyAgrees p arg ty ↔ ∀ j ∈ (t.run.graph.node p).children.head?,
      t.Mirrors c .input j := by
  unfold BodyAgrees Graph.entriesBelow
  unfold Gives at gives
  cases children : (t.run.graph.node p).children with
  | nil =>
    rw [children] at gives
    rw [bodyLines, children, show ty = .scalar .json from gives]
    exact iff_of_true .of_scalar fun j none => by cases none
  | cons schema rest =>
    rw [children] at gives
    obtain ⟨-, found, answers, type⟩ := gives
    have unmixed := unmixed schema (by rw [children]; rfl)
    have lines := bodyLines_of_schema arg children
    simp only [List.head?_cons, Option.mem_some_iff, forall_eq']
    have stands : ty.Stands t.decls
        (t.run.graph.declKey? c .input (t.run.graph.elementOf schema)) := by
      cases found with
      | some found => exact type ▸ answers.2.1
      | none =>
        have circular : (t.run.graph.node (t.run.graph.elementOf schema)).kind.isCircular = true :=
          answers
        rw [Graph.declKey?_of_isCircular circular]
        exact ⟨.json, congrArg TypeRef.core type⟩
    refine gen.mappingAgrees_iff sound unmixed stands ?_ ?_
    · intro plain
      rw [lines, plain, if_neg Bool.false_ne_true]
    · intro structured
      rw [lines, structured, if_pos rfl]
      exact fun same => absurd (congrArg List.length same) (by simp)

end Draft.Generated

/-- The types of the operations agree with their mappings just where all that is met is mirrored in
the declarations, and where the schema of the response closes no cycle. -/
theorem Session.mappings_agree_iff {d : Document} {c : Collection} {r r' : Run} {t : Draft}
    {ops : List OperationDecl} (session : Session d r c)
    (step : Ends (Build.draft d c) r (t, ops) r') : ∀ o ∈ ops,
    (∀ p, o.response = some p →
      (t.run.graph.node p).kind.isSyntheticResponse = false →
      (∀ j ∈ (t.run.graph.node p).children.head?, t.run.graph.Unmixed c .output j) →
      (t.ResponseAgrees c p o.returns ↔ ∀ j ∈ (t.run.graph.node p).children.head?,
        (t.run.graph.node (t.run.graph.elementOf j)).kind.isCircular = false ∧
          t.Mirrors c .output j)) ∧
    ∀ p name, o.body = some (p, name) →
      (∀ j ∈ (t.run.graph.node p).children.head?, t.run.graph.Unmixed c .input j) →
      ∃ a ∈ o.args, a.name = name ∧ a.location = none ∧
        (t.BodyAgrees p name a.type ↔ ∀ j ∈ (t.run.graph.node p).children.head?,
          t.Mirrors c .input j) := by
  intro o mem
  obtain ⟨rfl, starts, gen⟩ := session.ready.generated step
  have sound : t.run.graph.Sound := gen.typed.grows.sound session.ready.sound
  obtain ⟨own, fits, sub⟩ := gen.fits o mem
  refine ⟨fun p response real unmixed => ?_, fun p name body unmixed => ?_⟩
  · obtain ⟨-, -, gives⟩ := fits.response p response
    exact gen.responseAgrees_iff sound real unmixed (gives.mono sub)
  · obtain ⟨-, -, a, arg, named, place, gives⟩ := fits.body p name body
    exact ⟨a, arg, named, place, gen.bodyAgrees_iff sound unmixed (gives.mono sub) name⟩

/-! ## Two descriptions -/

namespace Graph

variable {g : Graph} {c : Collection} {side side' : Side} {i m n : Nat}

instance : Decidable (g.Alike c side m side' n) :=
  inferInstanceAs (Decidable (∀ f ∈ g.fieldsOn c side m, ∀ f' ∈ g.fieldsOn c side' n,
    f.isDeclared g = true → f'.isDeclared g = true → f.jsonName = f'.jsonName →
      g.declKey? c side (g.elementOf f.prop) = g.declKey? c side' (g.elementOf f'.prop)))

/-- Whether all containers of a graph that share a declaration are alike. -/
def isUnmixed (g : Graph) (c : Collection) (side : Side) : Bool :=
  decide (∀ m < g.size, (g.node m).kind.isStructured = true → ∀ n < g.size,
    (g.node n).kind.isStructured = true → ∀ side' ∈ [Side.output, .input],
      g.declKey side m = g.declKey side' n → g.Alike c side m side' n)

theorem unmixed_of_isUnmixed (unmixed : g.isUnmixed c side = true) : g.Unmixed c side i := by
  have inside : ∀ {e}, (g.node e).kind.isStructured = true → e < g.size := fun structured =>
    lt_size_of_ne fun nowhere => by
      rw [nowhere] at structured
      cases structured
  intro m _ structured side' n shown key
  refine of_decide_eq_true unmixed m (inside structured) structured n (inside shown.1) shown.1
    side' ?_ key
  cases side' <;> decide

end Graph

/-- An answer whose only field is a choice of two scalars. -/
def unionField : Document := .answer
  (.objectSchema [("v", .object [("oneOf",
    .list [.typeSchema "string", .typeSchema "integer"])])]) []

/-- The field is any JSON value, but the mapping opens a block for it. -/
theorem unionField_disagrees : ∃ c r, Ends (Build.collect unionField ["get:/a>**"])
      (.ofDocument unionField) c r ∧
    ∃ t ops r', Ends (Build.draft unionField c) r (t, ops) r' ∧
      ∃ o ∈ ops, ∃ p ∈ o.response, (t.run.graph.node p).kind.isSyntheticResponse = false ∧
        ¬t.ResponseAgrees c p o.returns := by
  have run : Ends.passes (Build.collect unionField ["get:/a>**"]) (.ofDocument unionField)
      (fun c r => Ends.passes (Build.draft unionField c) r fun x _ => decide
        (∃ o ∈ x.2, ∃ p ∈ o.response, (x.1.run.graph.node p).kind.isSyntheticResponse = false ∧
          ¬x.1.ResponseAgrees c p o.returns)) = true := by decide +kernel
  obtain ⟨c, r, collected, drafts⟩ := Ends.of_passes run
  obtain ⟨⟨t, ops⟩, r', drafted, differs⟩ := Ends.of_passes drafts
  exact ⟨c, r, collected, t, ops, r', drafted, of_decide_eq_true differs⟩

/-- A body with a nested object, and an answer with a list of a component. -/
def tagList : Document := .exchange
  (.objectSchema [("in", .objectSchema [("k", .typeSchema "integer")])])
  (.objectSchema [("tags", .object [("type", .text "array"), ("items", .refSchema "Tag")])])
  [("Tag", .objectSchema [("label", .typeSchema "string")])]

/-- Where the mappings agree, all that is met is mirrored in the declarations. -/
theorem tagList_mirrors : ∃ c r, Session tagList r c ∧
    ∃ t ops r', Ends (Build.draft tagList c) r (t, ops) r' ∧ ∃ o ∈ ops,
      (∃ p ∈ o.response, t.ResponseAgrees c p o.returns ∧
        ∃ j ∈ (t.run.graph.node p).children.head?, t.Mirrors c .output j) ∧
      ∃ b ∈ o.body, ∃ a ∈ o.args, t.BodyAgrees b.1 b.2 a.type ∧
        ∃ j ∈ (t.run.graph.node b.1).children.head?, t.Mirrors c .input j := by
  have run : Ends.passes (Build.collect tagList ["post:/a>**"]) (.ofDocument tagList)
      (fun c r => Ends.passes (Build.draft tagList c) r fun x _ =>
        x.1.run.graph.isUnmixed c .output && x.1.run.graph.isUnmixed c .input && decide
          (∃ o ∈ x.2, (∃ p ∈ o.response, (x.1.run.graph.node p).kind.isSyntheticResponse = false ∧
              x.1.ResponseAgrees c p o.returns ∧
                (x.1.run.graph.node p).children.head?.isSome = true) ∧
            ∃ b ∈ o.body, (x.1.run.graph.node b.1).children.head?.isSome = true ∧
              ∀ a ∈ o.args, x.1.BodyAgrees b.1 b.2 a.type)) = true := by decide +kernel
  obtain ⟨c, r, collected, drafts⟩ := Ends.of_passes run
  obtain ⟨⟨t, ops⟩, r', drafted, facts⟩ := Ends.of_passes drafts
  simp only [Bool.and_eq_true, decide_eq_true_eq] at facts
  obtain ⟨⟨outputs, inputs⟩, o, mem, ⟨p, response, real, agrees, hasSchema⟩,
    ⟨b, name⟩, body, hasInput, agree⟩ := facts
  have session : Session tagList r c := .collect _ .start collected
  obtain ⟨responses, bodies⟩ := session.mappings_agree_iff drafted o mem
  obtain ⟨j, first⟩ := Option.isSome_iff_exists.mp hasSchema
  obtain ⟨k, input⟩ := Option.isSome_iff_exists.mp hasInput
  obtain ⟨a, arg, -, -, fits⟩ := bodies b name body fun _ _ => Graph.unmixed_of_isUnmixed inputs
  have mirrored := (responses p response real fun _ _ => Graph.unmixed_of_isUnmixed outputs).mp
    agrees
  exact ⟨c, r, session, t, ops, r', drafted, o, mem,
    ⟨p, response, agrees, j, first, (mirrored j first).2⟩,
    (b, name), body, a, arg, agree a arg, k, input, fits.mp (agree a arg) k input⟩

end RestGraph
