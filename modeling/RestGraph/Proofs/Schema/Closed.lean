import RestGraph.Proofs.Graph.Drawn
import RestGraph.Proofs.Graph.Ids
import RestGraph.Proofs.Graph.Roots
import RestGraph.Proofs.Graph.Trails
import RestGraph.Proofs.Schema.Session
import RestGraph.Proofs.Schema.TypeNames

/-!
# Closed schemas

Whatever a schema mentions it declares, once and under a valid name: the declarations that are
written have names of their own, the types of fields and arguments are scalars or such names, and
inputs and outputs are kept apart. The keys of inputs are told from those of outputs by their ends,
so no reference may end as they do.
-/

namespace RestGraph

variable {d : Document} {g : Graph} {c : Collection} {side : Side} {e : Nat}

/-! ## Keys of inputs -/

/-- Whether a reference, if the value is one, ends other than the keys of inputs. -/
def Json.isUnmarked (j : Json) : Bool :=
  j.ref?.all fun pointer => !"/input".toList.isSuffixOf pointer.toList

/-- No reference of the description ends as the keys of inputs do. -/
def Document.IsUnmarked (d : Document) : Prop := d.root.everywhere Json.isUnmarked = true

instance : Decidable d.IsUnmarked := inferInstanceAs (Decidable (_ = true))

theorem Json.passesMade_isUnmarked : PassesMade isUnmarked where
  response := by decide +kernel
  param := by decide +kernel
  keyword := rfl
  branch members keys := by
    rw [isUnmarked, ref?, textAt?, get?_of_madeKeys keys (by decide)]
    rfl

theorem componentName_suffix (pointer : String) :
    (componentName pointer).toList <:+ pointer.toList := by
  unfold componentName
  cases found : componentSections.findSome? fun s => Text.after? s pointer with
  | none => exact List.suffix_refl _
  | some name =>
    obtain ⟨start, -, after⟩ := List.exists_of_findSome?_eq_some found
    obtain ⟨rest, prefix_, rfl⟩ := Option.map_eq_some_iff.mp after
    rw [Option.getD_some, String.toList_ofList]
    exact ⟨start.toList, List.isPrefixOf?_eq_some_iff_append_eq.mp prefix_⟩

namespace Graph.Derived

variable {i : Nat}

/-- No id of a container is the key of an input. -/
theorem idAt_ne_marked (derived : g.Derived d) (sound : g.Sound) (unmarked : d.IsUnmarked)
    (keyed : (g.node i).kind.isKeyed = true) (other : String) : g.idAt i ≠ other ++ "/input" := by
  intro same
  have suffix : "/input".toList <:+ (g.node i).discriminant.toList := by
    have whole : "/input".toList <:+ (g.idAt i).toList := by
      rw [same, String.toList_append]
      exact List.suffix_append _ _
    rw [Graph.idAt, Node.id, Kind.toList_idOf] at whole
    exact suffix_of_append_cons (by decide) whole
  rw [derived.discriminant_eq sound keyed, Trail.discriminant.eq_def] at suffix
  split at suffix
  · next start marks =>
    obtain ⟨p, -, kind⟩ := sound.reference_of_trail (i := i) (by rw [← start, ← marks])
    have inside : p < g.size := lt_size_of_not_array (by rw [kind]; rfl)
    have open_ : ¬(g.node p).kind.IsBare := kind ▸ Kind.not_isBare_reference _
    have passes := Json.everywhere_self
      (derived.passes sound Json.passesMade_isUnmarked unmarked open_ inside).schema
    rw [Json.isUnmarked, derived.ref?_of_reference sound kind, Option.all_some,
      Bool.not_eq_true'] at passes
    have ends := List.isSuffixOf_iff_suffix.mpr (suffix.trans (componentName_suffix _))
    rw [ends] at passes
    cases passes
  · obtain ⟨front, whole⟩ := suffix
    have last := congrArg List.getLast? whole
    rw [String.toList_append, show "]".toList = [']'] from rfl, List.getLast?_concat] at last
    simp at last

end Graph.Derived

/-! ## Sides -/

/-- A declaration is that of a container or that of an enum. -/
theorem Graph.declKey?_cases {key : String} (found : g.declKey? c side e = some key) :
    (g.node e).kind.isStructured = true ∧ key = g.declKey side e ∨
      ∃ values, (g.node e).kind = .enum values ∧ key = g.idAt e := by
  unfold declKey? at found
  split at found
  case h_5 => cases found
  all_goals split at found <;> cases found
  · next kind _ => exact .inl ⟨by rw [kind]; rfl, rfl⟩
  · next kind _ => exact .inl ⟨by rw [kind]; rfl, rfl⟩
  · next kind _ => exact .inl ⟨by rw [kind]; rfl, rfl⟩
  · next values kind _ => exact .inr ⟨values, kind, rfl⟩

@[simp] theorem Kind.isKeyed_of_isStructured {k : Kind} (structured : k.isStructured = true) :
    k.isKeyed = true := by
  cases k <;> first | rfl | cases structured

/-- The key tells on which side a container is declared. -/
theorem Graph.Derived.side_of_declKey (derived : g.Derived d) (sound : g.Sound)
    (unmarked : d.IsUnmarked) {side' : Side} {e' : Nat}
    (structured : (g.node e).kind.isStructured = true)
    (structured' : (g.node e').kind.isStructured = true)
    (same : g.declKey side e = g.declKey side' e') : side = side' := by
  have apart := derived.idAt_ne_marked sound unmarked (Kind.isKeyed_of_isStructured structured)
  have apart' := derived.idAt_ne_marked sound unmarked (Kind.isKeyed_of_isStructured structured')
  cases side <;> cases side'
  · rfl
  · exact absurd same (apart _)
  · exact absurd same.symm (apart' _)
  · rfl

namespace Draft

variable {r : Run} {t : Draft} {ops : List OperationDecl} {starts : Side → Nat → Prop}
  {decl : TypeDecl}

/-- A declaration that a side refers to suits it. -/
theorem Generated.suits_of_key (gen : t.Generated d c r ops starts)
    (derived : t.run.graph.Derived d) (sound : t.run.graph.Sound) (unmarked : d.IsUnmarked)
    (mem : decl ∈ t.decls) (key : t.run.graph.declKey? c side e = some decl.key) :
    decl.Suits side := by
  intro object
  have plain : TypeDecl.isEnumKey decl.key = false := by
    rw [gen.tidy.suits decl mem, Bool.not_eq_true'] at object
    exact object
  have container : ∀ {side e}, t.run.graph.declKey? c side e = some decl.key →
      (t.run.graph.node e).kind.isStructured = true ∧ decl.key = t.run.graph.declKey side e := by
    intro side e key
    rcases Graph.declKey?_cases key with both | ⟨values, kind, same⟩
    · exact both
    · rw [same, TypeDecl.isEnumKey_of_enum kind] at plain
      cases plain
  rcases gen.typed.keys decl mem with ⟨_, none, -⟩ | ⟨side', i, e', -, -, isOf⟩
  · cases none
  · obtain ⟨structured, same⟩ := container key
    obtain ⟨structured', same'⟩ := container isOf.key
    rw [isOf.input, structured', Bool.and_true,
      derived.side_of_declKey sound unmarked structured structured' (same.symm.trans same')]

/-- The type without its brackets is a scalar that is there, or its name is that of exactly one
declaration that is written. It suits the side. -/
inductive Resolves (t : Draft) (side : Side) (ty : TypeRef) : Prop
  | scalar {type : ScalarType} (core : ty.core = .scalar type)
    (marked : type = .json → t.usesJson = true) : Resolves t side ty
  | named {w : TypeDecl × Nat} (mem : w ∈ t.written)
    (name : t.typeNames.nameAt w.2 = t.typeNames.render ty.core)
    (single : ∀ w' ∈ t.written, t.typeNames.nameAt w'.2 = t.typeNames.render ty.core → w' = w)
    (suits : w.1.Suits side) : Resolves t side ty

/-- A declaration is written when it is the primary one of its name. -/
@[simp] theorem mem_written {w : TypeDecl × Nat} :
    w ∈ t.written ↔ t.decls[w.2]? = some w.1 ∧ t.typeNames.isPrimary w.2 = true := by
  rw [written, List.mem_filter, List.mem_zipIdx_iff_getElem?]

namespace Generated

/-- The names of a draft are those of its declarations. -/
theorem typeNames (gen : t.Generated d c r ops starts) : t.typeNames.Names t.decls := by
  refine TypeDecl.assignNames_names t.run fun decl mem => ?_
  obtain ⟨raw, base⟩ := (gen.tidy.proper decl mem).base
  rw [base]
  exact TypeDecl.isStem_baseOf _ _

theorem resolves_of_scalar {ty : TypeRef} (stands : ty.Stands t.decls none)
    (marked : ty.IsMarked t) : t.Resolves side ty := by
  obtain ⟨type, core⟩ := stands
  exact .scalar core fun json => marked (core.trans (congrArg TypeRef.scalar json))

/-- A type that stands for a node has the name of what is written for the node. -/
theorem resolves (gen : t.Generated d c r ops starts) (derived : t.run.graph.Derived d)
    (sound : t.run.graph.Sound) (unmarked : d.IsUnmarked) {ty : TypeRef}
    (stands : ty.Stands t.decls (t.run.graph.declKey? c side e)) (marked : ty.IsMarked t) :
    t.Resolves side ty := by
  cases found : t.run.graph.declKey? c side e with
  | none =>
    rw [found] at stands
    exact resolves_of_scalar stands marked
  | some key =>
    rw [found] at stands
    obtain ⟨i, decl, core, at_, rfl⟩ := stands
    have suits := gen.suits_of_key derived sound unmarked (List.mem_of_getElem? at_) found
    obtain ⟨j, other, at', primary, name, content⟩ := gen.typeNames.stands at_
    refine .named (w := (other, j)) (mem_written.mpr ⟨at', primary⟩) ?_ (fun w mem same => ?_)
      (suits.of_signature content)
    · rw [core]
      exact name
    · obtain ⟨there, primary'⟩ := mem_written.mp mem
      rw [core] at same
      have index : w.2 = j := gen.typeNames.distinct primary' primary (same.trans name.symm)
      rw [index, at', Option.some.injEq] at there
      exact Prod.ext there.symm index

end Generated

/-- The name may stand in a schema: it is an identifier and none of the language itself. -/
def IsValidName (name : String) : Prop :=
  Naming.isIdentifier name = true ∧ Text.startsWith "__" name = false

end Draft

theorem Naming.IsStem.isValidName {name : String} (stem : IsStem name) : Draft.IsValidName name :=
  ⟨stem.isIdentifier, stem.not_reserved⟩

end RestGraph
