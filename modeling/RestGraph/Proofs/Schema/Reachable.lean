import RestGraph.Proofs.Schema.Absorbing
import RestGraph.Proofs.Schema.Binding
import RestGraph.Proofs.Schema.Closed
import RestGraph.Proofs.Schema.Signatures

/-!
# What the root fields lead to

What is written is found from the types of the root fields, by way of the names in them and in the
declarations that they lead to. It is not where the way through the schemas is another one: where a
declaration or a name is shared by what is not alike, where a selected container has no place in
what the response shows, and where a branch is declared beside the composition that it is merged
into, as references are left to what it stands for: for good, or only until the turns of later
compositions.
-/

namespace RestGraph

variable {d : Document} {g : Graph} {c : Collection} {r : Run} {t : Draft}
  {ops : List OperationDecl} {starts : Side → Nat → Prop} {side : Side} {e i j m p : Nat}

/-! ## Ways through a schema -/

namespace Draft

/-- The declaration is written under the name of the type, without its brackets. -/
def Mentions (t : Draft) (ty : TypeRef) (w : TypeDecl × Nat) : Prop :=
  w ∈ t.written ∧ t.typeNames.nameAt w.2 = t.typeNames.render ty.core

/-- What the types of the root fields lead to by way of the names. -/
inductive Reached (t : Draft) (ops : List OperationDecl) : TypeDecl × Nat → Prop
  | returns {o w} (root : o ∈ ops) (mentions : t.Mentions o.returns w) : Reached t ops w
  | arg {o a w} (root : o ∈ ops) (arg : a ∈ o.args) (mentions : t.Mentions a.type w) :
      Reached t ops w
  | field {v x w} (before : Reached t ops v) (field : x ∈ v.1.definition.fields)
      (mentions : t.Mentions x.type w) : Reached t ops w

/-- What is met from the node shares its declaration, and the name of this, only with what is
alike. -/
structure Apart (t : Draft) (c : Collection) (side : Side) (i : Nat) : Prop where
  unmixed : t.run.graph.Unmixed c side i
  shapes : ∀ m, t.run.graph.Meets c side i m → (t.run.graph.node m).kind.isStructured = true →
    ∀ (k l : Nat) (decl other : TypeDecl), t.decls[k]? = some decl →
      decl.key = t.run.graph.declKey side m → t.decls[l]? = some other →
        t.typeNames.nameAt l = t.typeNames.nameAt k → other.shape = decl.shape

/-- A declaration with the key, if there is to be one, is written under a name that is reached. -/
def Reaches (t : Draft) (ops : List OperationDecl) (key? : Option String) : Prop :=
  ∀ key ∈ key?, ∃ (k : Nat) (decl : TypeDecl), t.decls[k]? = some decl ∧ decl.key = key ∧
    ∃ w, t.Reached ops w ∧ t.typeNames.nameAt w.2 = t.typeNames.nameAt k

end Draft

theorem Draft.Reached.written {w : TypeDecl × Nat} (reached : t.Reached ops w) : w ∈ t.written := by
  cases reached with
  | returns _ mentions => exact mentions.1
  | arg _ _ mentions => exact mentions.1
  | field _ _ mentions => exact mentions.1

theorem TypeDecl.exists_field_of_shape {u v : TypeDecl} (same : u.shape = v.shape) {x : FieldDecl}
    (field : x ∈ v.definition.fields) : ∃ y ∈ u.definition.fields, y.shape = x.shape := by
  unfold shape at same
  cases definition : u.definition <;> cases definition' : v.definition <;>
    rw [definition, definition'] at same <;> rw [definition'] at field
  case enum.enum => cases field
  case enum.object => cases same
  case object.enum => cases field
  case object.object fields fields' =>
    obtain ⟨-, shapes⟩ := Prod.mk.inj (Sum.inr.inj same)
    have mem : x.shape ∈ fields'.map FieldDecl.shape := List.mem_map_of_mem field
    rw [← shapes] at mem
    exact List.mem_map.mp mem

namespace Draft.Generated

variable (gen : t.Generated d c r ops starts)

include gen

theorem reaches_of_stands {key? : Option String} {ty : TypeRef} (stands : ty.Stands t.decls key?)
    (mention : ∀ w, t.Mentions ty w → t.Reached ops w) : t.Reaches ops key? := by
  intro key some
  rw [some] at stands
  obtain ⟨k, decl, core, at_, same⟩ := stands
  obtain ⟨l, other, at', primary, name, -⟩ := gen.typeNames.stands at_
  refine ⟨k, decl, at_, same, (other, l), mention _ ⟨mem_written.mpr ⟨at', primary⟩, ?_⟩, name⟩
  rw [core]
  exact name

/-- From a container that is reached every field leads on. -/
theorem reaches_field (apart : t.Apart c side i) (start : starts side i)
    (meets : t.run.graph.Meets c side i m)
    (structured : (t.run.graph.node m).kind.isStructured = true)
    (reached : t.Reaches ops (t.run.graph.declKey? c side m)) {f : VisibleField}
    (shown : f ∈ t.run.graph.fieldsOn c side m) (named : f.name.isSome = true) :
    t.Reaches ops (t.run.graph.declKey? c side (t.run.graph.elementOf f.prop)) := by
  cases open_ : f.isDeclared t.run.graph with
  | false =>
    rw [VisibleField.isDeclared, named, Bool.true_and, Bool.not_eq_false'] at open_
    rw [Graph.declKey?_of_isCircular open_]
    exact fun _ none => by cases none
  | true =>
    have solid : t.run.graph.isHollow c side m = false := by
      rw [Graph.isHollow, Bool.not_eq_false', List.any_eq_true]
      exact ⟨f, shown, open_⟩
    rw [Graph.declKey?_of_isStructured structured, solid] at reached
    obtain ⟨k, decl, at_, key, w, reached, name⟩ := reached _ rfl
    have mem := List.mem_of_getElem? at_
    obtain ⟨decl', mem', key', covers⟩ := gen.typed.declares (.start r) start meets structured solid
    obtain rfl := gen.tidy.eq_of_key mem' mem (key'.trans key.symm)
    obtain ⟨x, field, same⟩ := covers f shown open_
    have stands := gen.stands_of_field meets structured apart.unmixed mem key shown open_ field same
    -- the declaration that is written has the field as well
    obtain ⟨y, field', shape⟩ := TypeDecl.exists_field_of_shape
      (apart.shapes m meets structured k w.2 decl' w.1 at_ key
        (mem_written.mp reached.written).1 name) field
    obtain ⟨-, type, -⟩ := FieldShape.mk.inj shape
    rw [← type] at stands
    exact gen.reaches_of_stands stands fun _ mentions => .field reached field' mentions

/-- So all is reached that is met from a node that is reached. -/
theorem reaches (apart : t.Apart c side j) (start : starts side j)
    (before : t.run.graph.Meets c side j (t.run.graph.elementOf i))
    (reached : t.Reaches ops (t.run.graph.declKey? c side (t.run.graph.elementOf i)))
    (meets : t.run.graph.Meets c side i e) : t.Reaches ops (t.run.graph.declKey? c side e) := by
  induction meets with
  | here => exact reached
  | field structured shown named _ ih =>
    exact ih (before.step structured shown named)
      (gen.reaches_field apart start before structured reached shown named)

/-- The schemas of payloads are those of the types of the root fields. -/
theorem reaches_payload {o : OperationDecl} {own : Side → Nat → Prop} (root : o ∈ ops)
    (fits : t.Fits c own o) (start : own side j) :
    t.Reaches ops (t.run.graph.declKey? c side (t.run.graph.elementOf j)) := by
  have nothing : (t.run.graph.node (t.run.graph.elementOf j)).kind.isCircular = true →
      t.Reaches ops (t.run.graph.declKey? c side (t.run.graph.elementOf j)) := fun circular => by
    rw [Graph.declKey?_of_isCircular circular]
    exact fun _ none => by cases none
  rcases fits.roots side j start with ⟨a, arg, found, answers, type⟩ | ⟨rfl, p, response, first⟩
  · cases found with
    | none => exact nothing answers
    | some ty =>
      rw [← type ty rfl] at answers
      exact gen.reaches_of_stands answers.2.1 fun _ mentions => .arg root arg mentions
  · have gives := (fits.response p response).2.2
    unfold Gives at gives
    cases children : (t.run.graph.node p).children with
    | nil =>
      rw [children] at first
      cases first
    | cons schema rest =>
      rw [children] at first gives
      obtain rfl : schema = j := Option.some.inj first
      obtain ⟨-, found, answers, type⟩ := gives
      cases found with
      | none => exact nothing answers
      | some ty =>
        rw [← show o.returns = ty from type] at answers
        exact gen.reaches_of_stands answers.2.1 fun _ mentions => .returns root mentions

end Draft.Generated

/-! ## Containers -/

/-- A schema of an operation is below a part of it. -/
theorem Graph.Sound.exists_part (sound : g.Sound) (operation : (g.node i).kind.tag = .operation)
    (schema : (g.node j).kind.isSchema = true) (above : i ∈ g.ancestors j) :
    ∃ p ∈ (g.node i).children, p ∈ g.ancestors j ∧ ((g.node p).kind.tag = .param ∨
      (g.node p).kind.tag = .body ∨ (g.node p).kind.tag = .response) := by
  obtain ⟨p, child, way⟩ := sound.toForest.exists_child_of_mem_ancestors above
  obtain ⟨plain, part⟩ : (g.node p).kind.isSchema = false ∧ ((g.node p).kind.tag = .param ∨
      (g.node p).kind.tag = .body ∨ (g.node p).kind.tag = .response) := by
    have admits := sound.admits child
    cases kind : (g.node i).kind <;> rw [kind] at operation <;> cases operation
    cases kind' : (g.node p).kind <;> rw [kind, kind'] at admits <;>
      first
        | exact ⟨rfl, .inl rfl⟩
        | exact ⟨rfl, .inr (.inl rfl)⟩
        | exact ⟨rfl, .inr (.inr rfl)⟩
        | cases admits
  refine ⟨p, child, way.resolve_left fun same => ?_, part⟩
  rw [same, schema] at plain
  cases plain

/-- A selected container outside of the arguments is below a response of a selected operation. -/
theorem Collection.Sound.exists_response (collected : c.Sound g) (sound : g.Sound)
    (operations : ∀ o ∈ c.operations, (g.node o).kind.tag = .operation)
    (kept : Drafting.Kept c g j) : ∃ o ∈ c.operations, ∃ p ∈ (g.node o).children,
      (g.node p).kind.tag = .response ∧ p ∈ g.ancestors j := by
  obtain ⟨mem, -, outside⟩ := kept
  obtain ⟨selected, container⟩ := collected.containers j mem
  obtain ⟨l, leaf, on⟩ := collected.below j selected
  have operation : g.rootOf j ∈ c.operations :=
    Graph.rootOf_eq_of_mem_chain on ▸ collected.roots l leaf
  have schema : (g.node j).kind.isSchema = true := by
    cases kind : (g.node j).kind <;> rw [kind] at container <;> first | rfl | cases container
  have above : g.rootOf j ∈ g.ancestors j := by
    refine (Graph.mem_chain.mp (g.rootOf_mem_chain j)).resolve_left fun same => ?_
    have tag := operations _ operation
    rw [same] at tag
    cases kind : (g.node j).kind <;> rw [kind] at tag schema <;>
      first | exact absurd schema Bool.false_ne_true | cases tag
  obtain ⟨p, child, above, part⟩ := sound.exists_part (operations _ operation) schema above
  refine ⟨_, operation, p, child, ?_, above⟩
  -- the other parts are arguments
  have argues : ¬((g.node p).kind.tag = .param ∨ (g.node p).kind.tag = .body) := fun argument => by
    have inside : g.inArguments j = true := by
      rw [Graph.inArguments, List.any_eq_true]
      exact ⟨p, above, by simpa using argument⟩
    rw [inside] at outside
    cases outside
  rcases part with param | body | response
  · exact absurd (.inl param) argues
  · exact absurd (.inr body) argues
  · exact response

theorem Drafting.Kept.isStructured (kept : Kept c g j) (collected : c.Sound g) :
    (g.node j).kind.isStructured = true := by
  obtain ⟨mem, open_, -⟩ := kept
  have container := (collected.containers j mem).2
  cases kind : (g.node j).kind <;> rw [kind] at container open_ <;>
    first | exact container | cases open_

/-- On a straight way, and unless it is merged into another, what is shown of the response leads to
a selected container. -/
theorem Run.Bound.meets_container (bound : r.Bound d c)
    (kind : (r.graph.node p).kind.tag = .response) (child : j ∈ (r.graph.node p).children)
    (explored : r.graph.Explored c .output j) (kept : Drafting.Kept c r.graph i)
    (above : p ∈ r.graph.ancestors i) (top : r.graph.bearer? i = none)
    (straight : r.graph.isStraight i = true) : r.graph.Meets c .output j i := by
  have forest := bound.sound.toForest
  obtain ⟨schema, top', flat, -⟩ := forest.schema_of_response kind child
  have inner : (r.graph.node j).kind.isInner = true := by rw [Kind.isInner, schema]; rfl
  have way := (forest.below_response kind child above).imp_left Eq.symm
  have leads := bound.leadsTo explored top' flat inner way
    (bound.collected.containers i kept.1).1 straight kept.2.1
  rw [Graph.LeadsTo, top] at leads
  rw [← Graph.elementOf_of_isStructured (kept.isStructured bound.collected)]
  exact leads.meets

/-- The draft in which the turn of the node comes in the loop over the containers: the node has been
absorbed, and references to the pointer that it stands for are left. -/
structure Drafting.Retained (d : Document) (c : Collection) (r : Run) (j : Nat) (u : Draft)
    (pointer : String) : Prop where
  turn : ∃ turn, c.containers[turn]? = some j ∧
    Ends ((c.containers.take turn).forM (declareContainer d c)) (.start r) ⟨⟩ u
  absorbed : u.run.isAbsorbed j = true
  stands : ∃ p, (u.run.graph.node j).parent = some p ∧
    (u.run.graph.node p).kind = .reference pointer
  counted : 0 < u.run.refCount pointer
  /-- What is counted is there. -/
  left : 0 < u.run.live pointer

/-- What is merged into a composition and declared nevertheless is retained. -/
theorem Drafting.Spared.retained (spared : Spared d c (.start r) j) (absorbing : r.Absorbing)
    (collected : c.Sound r.graph) (outside : r.graph.inArguments j = false)
    (borne : (r.graph.bearer? j).isSome = true) : ∃ u pointer, Retained d c r j u pointer := by
  obtain ⟨turn, u, at_, front, spared⟩ := spared
  obtain ⟨a, bearer⟩ := Option.isSome_iff_exists.mp borne
  have absorbed := absorbed_of_turn (s := .start r) absorbing collected at_ front outside bearer
  obtain ⟨p, pointer, parent, kind, counted⟩ := Draft.reference_of_not_isPruned absorbed spared
  have ledger := (absorbing_of_turns (s := .start r) absorbing front).ledger
  exact ⟨u, pointer, ⟨turn, at_, front⟩, absorbed, ⟨p, parent, kind⟩, counted,
    Int.natCast_pos.mp (counted.trans_le (ledger.refCount_le_live pointer))⟩

/-- Why something may be written that no root field leads to. -/
inductive Draft.Strays (t : Draft) (d : Document) (c : Collection) (r : Run)
    (side : Side) (i : Nat) : Prop
  /-- Below the start a declaration, or its name, is shared by what is not alike. -/
  | mixed (start : t.run.graph.Starts c side i) (mixed : ¬t.Apart c side i)
  /-- What is shown of the response does not lead to the container. -/
  | crooked (out : side = .output) (kept : Drafting.Kept c t.run.graph i)
      (top : t.run.graph.bearer? i = none) (crooked : t.run.graph.isStraight i = false)
  /-- The container is merged into a composition, and a reference to what it stands for is merged
  into none, even when all is drafted. -/
  | referenced {u pointer} (out : side = .output) (kept : Drafting.Kept c t.run.graph i)
      (borne : (t.run.graph.bearer? i).isSome = true)
      (retained : Drafting.Retained d c r i u pointer) (left : 0 < t.run.live pointer)
  /-- The container is merged into a composition, and its turn comes before the turns of the
  compositions that take the last references to what it stands for. -/
  | early {u pointer} (out : side = .output) (kept : Drafting.Kept c t.run.graph i)
      (borne : (t.run.graph.bearer? i).isSome = true)
      (retained : Drafting.Retained d c r i u pointer) (gone : t.run.live pointer = 0)

namespace Draft.Generated

variable (gen : t.Generated d c r ops starts)

include gen

/-- A declaration that is written is the one that stands for its key. -/
theorem reached_of_reaches {w : TypeDecl × Nat} (mem : w ∈ t.written)
    (reaches : t.Reaches ops (some w.1.key)) : t.Reached ops w := by
  obtain ⟨k, decl, at_, key, v, reached, name⟩ := reaches _ rfl
  obtain ⟨there, primary⟩ := mem_written.mp mem
  have same : decl = w.1 := gen.tidy.eq_of_key (List.mem_of_getElem? at_)
    (List.mem_of_getElem? there) key
  have index : k = w.2 := by
    have nodup : t.decls.Nodup := .of_map _ gen.tidy.keys
    have lt := (List.getElem?_eq_some_iff.mp at_).1
    exact (List.getElem?_inj lt nodup).mp (at_.trans (same ▸ there.symm))
  obtain ⟨there', primary'⟩ := mem_written.mp reached.written
  have place : v.2 = w.2 := gen.typeNames.distinct primary' primary (index ▸ name)
  rw [place, there, Option.some.injEq] at there'
  rwa [show w = v from Prod.ext there' place.symm]

/-- Below the schema of a payload all is reached, unless something is mixed. -/
theorem reached_or_mixed {w : TypeDecl × Nat} {o : OperationDecl} {own : Side → Nat → Prop}
    (mem : w ∈ t.written) (root : o ∈ ops) (fits : t.Fits c own o) (here : own side j)
    (start : starts side j) (meets : t.run.graph.Meets c side j e)
    (key : t.run.graph.declKey? c side e = some w.1.key) :
    t.Reached ops w ∨ ¬t.Apart c side j := by
  by_cases apart : t.Apart c side j
  · refine .inl (gen.reached_of_reaches mem (key ▸ ?_))
    exact gen.reaches apart start (.here j) (gen.reaches_payload root fits here) meets
  · exact .inr apart

/-- The schema of a response leads to a container that is kept, unless this is merged or out of the
way. -/
theorem exists_payload (bound : t.run.Bound d c)
    (operations : ops.map OperationDecl.node = c.operations) (kept : Drafting.Kept c t.run.graph i)
    (top : t.run.graph.bearer? i = none) (straight : t.run.graph.isStraight i = true) :
    ∃ o ∈ ops, ∃ own, t.Fits c own o ∧ ∃ j, own .output j ∧ starts .output j ∧
      t.run.graph.Meets c .output j i := by
  obtain ⟨op, operation, p, child, tag, above⟩ :=
    bound.collected.exists_response bound.sound (fun op mem => by
      obtain ⟨o, root, rfl⟩ := List.mem_map.mp (operations ▸ mem)
      exact (gen.nodes o root).2.2) kept
  obtain ⟨o, root, rfl⟩ := List.mem_map.mp (operations ▸ operation)
  obtain ⟨own, fits, sub⟩ := gen.fits o root
  -- the response that the root field answers with is the only one
  obtain ⟨p', response⟩ := Option.isSome_iff_exists.mp (gen.names o root).2
  obtain ⟨child', tag', gives⟩ := fits.response p' response
  obtain rfl : p' = p :=
    bound.sound.single child' child (tag'.trans tag.symm) (by rw [tag']; rfl)
  unfold Gives at gives
  cases children : (t.run.graph.node p').children with
  | nil =>
    obtain ⟨j, child, -⟩ := bound.sound.toForest.exists_child_of_mem_ancestors above
    rw [children] at child
    cases child
  | cons schema rest =>
    rw [children] at gives
    have first : schema ∈ (t.run.graph.node p').children := children ▸ List.mem_cons_self
    have start := sub _ _ gives.1
    exact ⟨o, root, own, fits, schema, gives.1, start,
      bound.meets_container tag first (gen.typed.explored start) kept above top straight⟩

/-- Whatever is written is reached, or it is met below a start that strays. -/
theorem reached_or_strays (bound : t.run.Bound d c) (absorbing : r.Absorbing)
    (collected : c.Sound r.graph) (operations : ops.map OperationDecl.node = c.operations) :
    ∀ w ∈ t.written, t.Reached ops w ∨ ∃ side i e, t.Strays d c r side i ∧
      t.run.graph.Meets c side i e ∧ t.run.graph.declKey? c side e = some w.1.key := by
  intro w mem
  obtain ⟨side, i, e, start, meets, isOf⟩ :=
    (gen.typed.keys w.1 (List.mem_of_getElem? (mem_written.mp mem).1)).resolve_left
      fun ⟨_, old, _⟩ => by cases old
  rcases gen.roots side i start with ⟨rfl, kept, spared⟩ | ⟨o, root, own, fits, -, here⟩
  · have step := gen.typed.grows.run.grows
    have inside := collected.inside i (collected.containers i kept.1).1
    cases bearer : t.run.graph.bearer? i with
    | some a =>
      have borne : (t.run.graph.bearer? i).isSome = true := by rw [bearer]; rfl
      have outside : r.graph.inArguments i = false :=
        (step.toExtends.inArguments inside).symm.trans kept.2.2
      have borne' : (r.graph.bearer? i).isSome = true := step.bearer? inside ▸ borne
      obtain ⟨u, pointer, retained⟩ := spared.retained absorbing collected outside borne'
      refine .inr ⟨.output, i, e, ?_, meets, isOf.key⟩
      rcases Nat.eq_zero_or_pos (t.run.live pointer) with gone | left
      · exact .early rfl kept borne retained gone
      · exact .referenced rfl kept borne retained left
    | none =>
      cases straight : t.run.graph.isStraight i with
      | false => exact .inr ⟨.output, i, e, .crooked rfl kept bearer straight, meets, isOf.key⟩
      | true =>
        obtain ⟨o, root, own, fits, j, here, start, leads⟩ :=
          gen.exists_payload bound operations kept bearer straight
        have meets := leads.trans meets
        exact (gen.reached_or_mixed mem root fits here start meets isOf.key).imp_right fun mixed =>
          ⟨.output, j, e, .mixed (gen.isStart start) mixed, meets, isOf.key⟩
  · exact (gen.reached_or_mixed mem root fits here start meets isOf.key).imp_right fun mixed =>
      ⟨side, i, e, .mixed (gen.isStart start) mixed, meets, isOf.key⟩

end Draft.Generated

/-- What is generated from a first collection: whatever is written is reached from the root fields,
or it is met below a start that strays. -/
theorem Build.reached_of_generate {selections : List String} {settings : Settings} {text : String}
    {u : Run} (collected : Ends (collect d selections) (.ofDocument d) c r)
    (generated : Ends (generate d c settings) r text u) : ∃ t ops,
    text = Text.trimEnd (Text.join "\n" (schemaLines d c settings t ops)) ++ "\n" ∧
    Ends (draft d c) r (t, ops) u ∧
    ∀ w ∈ t.written, t.Reached ops w ∨ ∃ side i e, t.Strays d c r side i ∧
      t.run.graph.Meets c side i e ∧ t.run.graph.declKey? c side e = some w.1.key := by
  have bound := bound_of_generate collected generated
  have ready := (Session.collect selections .start collected).ready
  have absorbing : r.Absorbing :=
    (coming_collect (S := (Run.absorbing d).toCourse) (Run.ofDocument_absorbing d)).ends collected
      (Run.ofDocument_absorbing d)
  obtain ⟨t, ops, drafted, written⟩ := ends_generate generated
  obtain ⟨rfl, starts, gen⟩ := ready.generated drafted
  exact ⟨t, ops, written, drafted,
    gen.reached_or_strays bound absorbing ready.collected (draft_order drafted)⟩

/-! ## What is left over -/

namespace Draft

/-- The root fields mention no other names than those on the list, and what has a name on the list
mentions no others either. -/
def Encloses (t : Draft) (ops : List OperationDecl) (names : List String) : Prop :=
  (∀ o ∈ ops, ∀ ty ∈ o.returns :: o.args.map ArgDecl.type, ∀ w ∈ t.written,
    t.typeNames.nameAt w.2 = t.typeNames.render ty.core → t.typeNames.nameAt w.2 ∈ names) ∧
  ∀ v ∈ t.written, t.typeNames.nameAt v.2 ∈ names → ∀ x ∈ v.1.definition.fields, ∀ w ∈ t.written,
    t.typeNames.nameAt w.2 = t.typeNames.render x.type.core → t.typeNames.nameAt w.2 ∈ names

instance {names : List String} : Decidable (t.Encloses ops names) :=
  inferInstanceAs (Decidable (_ ∧ _))

theorem Reached.name_mem {names : List String} {w : TypeDecl × Nat} (reached : t.Reached ops w)
    (encloses : t.Encloses ops names) : t.typeNames.nameAt w.2 ∈ names := by
  induction reached with
  | returns root mentions => exact encloses.1 _ root _ List.mem_cons_self _ mentions.1 mentions.2
  | arg root arg mentions =>
    exact encloses.1 _ root _ (List.mem_cons_of_mem _ (List.mem_map_of_mem arg)) _ mentions.1
      mentions.2
  | field before field mentions ih =>
    exact encloses.2 _ before.written ih _ field _ mentions.1 mentions.2

end Draft

/-- Something is written that no root field leads to. -/
def Document.LeavesOver (d : Document) (selections : List String) : Prop :=
  ∃ c r text u, Ends (Build.collect d selections) (.ofDocument d) c r ∧
    Ends (Build.generate d c .default) r text u ∧
    ∃ t ops, Ends (Build.draft d c) r (t, ops) u ∧ ∃ w ∈ t.written, ¬t.Reached ops w

theorem Document.leavesOver_of_encloses {selections : List String} (names : List String)
    (run : Ends.passes (Build.collect d selections) (.ofDocument d) (fun c r =>
      Ends.passes (Build.draft d c) r fun x _ => decide (x.1.Encloses x.2 names ∧
        ∃ w ∈ x.1.written, x.1.typeNames.nameAt w.2 ∉ names)) = true) :
    d.LeavesOver selections := by
  obtain ⟨c, r, collected, drafts⟩ := Ends.of_passes run
  obtain ⟨⟨t, ops⟩, u, drafted, facts⟩ := Ends.of_passes drafts
  obtain ⟨text, generated⟩ := Build.exists_generate .default drafted
  obtain ⟨encloses, w, mem, outside⟩ := of_decide_eq_true facts
  exact ⟨c, r, text, u, collected, generated, t, ops, drafted, w, mem,
    fun reached => outside (reached.name_mem encloses)⟩

/-- An answer that has its name from a component, beside fields of its own. -/
def Document.inheritedName (fields : List (String × Json)) : Document :=
  .answer (.allOfSchema [.refSchema "Named", .objectSchema fields])
    [("Named", .objectSchema [("name", .typeSchema "string")])]

/-- An answer whose only alternative is a list. -/
def Document.onlyList : Document :=
  .answer (.object [("oneOf", .list [.arraySchema (.objectSchema [("x", .typeSchema "string")])])])
    []

/-- The reference of a field that is not selected keeps the component from being pruned, and the
objects of a list that is merged are bound by nothing. -/
theorem leavesOver_each :
    (Document.inheritedName [("kin", .refSchema "Named")]).LeavesOver
      ["get:/a>res:200>comp:[aResponse]>ref:#/c/s/Named>obj:Named>prop:scalar:name"] ∧
    Document.onlyList.LeavesOver ["get:/a>**"] :=
  ⟨Document.leavesOver_of_encloses ["AResponse"] (by decide +kernel),
    Document.leavesOver_of_encloses [] (by decide +kernel)⟩

/-- Two answers that extend one component. -/
def Document.sharedBase : Document :=
  let extension (id field : String) : Json := .object [("get", .object [("operationId", .text id),
    ("responses", .object [("200", (Json.allOfSchema [.refSchema "Base",
      .objectSchema [(field, .typeSchema "string")]]).jsonContent)])])]
  .ofPaths [("/a", extension "a" "x"), ("/b", extension "b" "y")]
    [("Base", .objectSchema [("name", .typeSchema "string")])]

/-- The component is written though it is merged wherever it is referred to: the second reference to
it is merged after its turn. -/
theorem sharedBase_leftOver : ∃ c r text u,
    Ends (Build.collect .sharedBase ["get:/a>**", "get:/b>**"]) (.ofDocument .sharedBase) c r ∧
    Ends (Build.generate .sharedBase c .default) r text u ∧
    ∃ t ops, Ends (Build.draft .sharedBase c) r (t, ops) u ∧
      u.references "#/components/schemas/Base" = 2 ∧ u.live "#/components/schemas/Base" = 0 ∧
      ∃ w ∈ t.written, t.typeNames.nameAt w.2 = "Base" ∧ ¬t.Reached ops w := by
  have run : Ends.passes (Build.collect .sharedBase ["get:/a>**", "get:/b>**"])
      (.ofDocument .sharedBase) (fun c r => Ends.passes (Build.draft .sharedBase c) r fun x u =>
        decide (x.1.Encloses x.2 ["AResponse", "BResponse"] ∧
          u.references "#/components/schemas/Base" = 2 ∧
          u.live "#/components/schemas/Base" = 0 ∧
          ∃ w ∈ x.1.written, x.1.typeNames.nameAt w.2 = "Base")) = true := by
    decide +kernel
  obtain ⟨c, r, collected, drafts⟩ := Ends.of_passes run
  obtain ⟨⟨t, ops⟩, u, drafted, facts⟩ := Ends.of_passes drafts
  obtain ⟨text, generated⟩ := Build.exists_generate .default drafted
  obtain ⟨encloses, both, gone, w, mem, name⟩ := of_decide_eq_true facts
  refine ⟨c, r, text, u, collected, generated, t, ops, drafted, both, gone, w, mem, name, ?_⟩
  intro reached
  exact absurd (name ▸ reached.name_mem encloses) (by decide)

/-- Nothing strays where all declarations are unmixed, names are shared by one shape only, no
selected container is out of the way, and what is merged is pruned when its turn comes. -/
theorem Draft.not_strays (unmixed : ∀ side, t.run.graph.isUnmixed c side = true)
    (shapes : ∀ x ∈ t.decls.zipIdx, ∀ y ∈ t.decls.zipIdx,
      t.typeNames.nameAt y.2 = t.typeNames.nameAt x.2 → y.1.shape = x.1.shape)
    (straight : ∀ j ∈ c.containers, t.run.graph.bearer? j = none →
      t.run.graph.isStraight j = true)
    (pruned : ∀ x ∈ c.containers.zipIdx, (t.run.graph.bearer? x.1).isSome = true →
      Ends.passes ((c.containers.take x.2).forM (Drafting.declareContainer d c)) (.start r)
        (fun _ u => isPruned u.run x.1) = true) : ¬t.Strays d c r side i := by
  have prunes : ∀ {u pointer}, (t.run.graph.bearer? i).isSome = true →
      ¬Drafting.Retained d c r i u pointer := by
    rintro u pointer borne ⟨⟨turn, at_, front⟩, absorbed, ⟨p, parent, kind⟩, counted, -⟩
    obtain ⟨_, u', front', prunes⟩ := Ends.of_passes
      (pruned (i, turn) (List.mem_zipIdx_iff_getElem?.mpr at_) borne)
    obtain ⟨-, rfl⟩ := front.unique front'
    rw [isPruned, absorbed, parent, Option.map_some, kind, Bool.true_and,
      decide_eq_true_eq] at prunes
    omega
  rintro (⟨-, mixed⟩ | ⟨-, kept, top, crooked⟩ | ⟨-, -, borne, retained, -⟩ |
    ⟨-, -, borne, retained, -⟩)
  · refine mixed ⟨Graph.unmixed_of_isUnmixed (unmixed side), ?_⟩
    intro m _ _ k l decl other at_ _ at_' same
    exact shapes (decl, k) (List.mem_zipIdx_iff_getElem?.mpr at_) (other, l)
      (List.mem_zipIdx_iff_getElem?.mpr at_') same
  · rw [straight i kept.1 top] at crooked
    cases crooked
  · exact prunes borne retained
  · exact prunes borne retained

/-- Where nothing else refers to the component, it is merged and pruned, and all that is written is
reached. -/
theorem inheritedName_reached :
    let d := Document.inheritedName [("bark", .typeSchema "boolean")]
    ∃ c r text u, Ends (Build.collect d ["get:/a>**"]) (.ofDocument d) c r ∧
      Ends (Build.generate d c .default) r text u ∧
      ∃ t ops, Ends (Build.draft d c) r (t, ops) u ∧
        (∃ j ∈ c.containers, u.isAbsorbed j = true) ∧ t.written ≠ [] ∧
          ∀ w ∈ t.written, t.Reached ops w := by
  intro d
  have run : Ends.passes (Build.collect d ["get:/a>**"]) (.ofDocument d)
      (fun c r => Ends.passes (Build.draft d c) r fun x u => decide (
        (∃ j ∈ c.containers, u.isAbsorbed j = true) ∧ x.1.written ≠ [] ∧
        (∀ side ∈ [Side.output, .input], x.1.run.graph.isUnmixed c side = true) ∧
        (∀ y ∈ x.1.decls.zipIdx, ∀ z ∈ x.1.decls.zipIdx,
          x.1.typeNames.nameAt z.2 = x.1.typeNames.nameAt y.2 → z.1.shape = y.1.shape) ∧
        (∀ j ∈ c.containers, x.1.run.graph.bearer? j = none →
          x.1.run.graph.isStraight j = true) ∧
        ∀ y ∈ c.containers.zipIdx, (x.1.run.graph.bearer? y.1).isSome = true →
          Ends.passes ((c.containers.take y.2).forM (Drafting.declareContainer d c)) (.start r)
            (fun _ u => Draft.isPruned u.run y.1) = true)) = true := by
    decide +kernel
  obtain ⟨c, r, collected, drafts⟩ := Ends.of_passes run
  obtain ⟨⟨t, ops⟩, u, drafted, facts⟩ := Ends.of_passes drafts
  obtain ⟨text, generated⟩ := Build.exists_generate .default drafted
  obtain ⟨t', ops', -, drafted', reached⟩ := Build.reached_of_generate collected generated
  obtain ⟨same, -⟩ := drafted.unique drafted'
  cases same
  obtain ⟨merged, some, unmixed, shapes, straight, pruned⟩ := of_decide_eq_true facts
  have unmixed : ∀ side, t.run.graph.isUnmixed c side = true := fun side => by
    cases side with
    | output => exact unmixed .output List.mem_cons_self
    | input => exact unmixed .input (List.mem_cons_of_mem _ List.mem_cons_self)
  refine ⟨c, r, text, u, collected, generated, t, ops, drafted, merged, some, fun w mem => ?_⟩
  refine (reached w mem).resolve_right fun ⟨side, i, e, strays, _⟩ => ?_
  exact Draft.not_strays unmixed shapes straight pruned strays

end RestGraph
