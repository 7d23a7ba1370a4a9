import RestGraph.Proofs.Graph.Merging
import RestGraph.Proofs.Schema.Meeting

/-!
# Declaring

The declarations of a draft are only added to: each keeps its place, its key and its fields, and no
two have the same key. The key tells whether fields or values are declared.
-/

namespace RestGraph

/-! ## Steps on a draft -/

namespace Drafting

variable {s t : Draft} {i : Nat}

/-- A step on the graph ends inside a draft where it ends by itself. -/
@[simp] theorem ends_lift {α : Type} {step : Build α} {a : α} :
    Ends (lift step) s a t ↔ ∃ r, Ends step s.run a r ∧ { s with run := r } = t := by
  have run : (lift step).run s = ((step.run s.run).1, { s with run := (step.run s.run).2 }) := rfl
  unfold Ends
  rw [run, Prod.mk.injEq]
  constructor
  · rintro ⟨answer, rfl⟩
    exact ⟨_, Prod.ext answer rfl, rfl⟩
  · rintro ⟨r, answer, rfl⟩
    rw [answer]
    exact ⟨rfl, rfl⟩

@[simp] theorem ends_graph {g : Graph} : Ends graph s g t ↔ s.run.graph = g ∧ s = t :=
  Ends.reads_iff

@[simp] theorem ends_node {n : Node} : Ends (node i) s n t ↔ s.run.graph.node i = n ∧ s = t :=
  Ends.reads_iff

@[simp] theorem ends_put {v : Draft} {u : Unit} : Ends (put v) s u t ↔ v = t := Ends.set_iff

@[simp] theorem ends_onRun {f : Run → Run} {u : Unit} :
    Ends (onRun f) s u t ↔ { s with run := f s.run } = t := Ends.modify_iff

end Drafting

/-- A step that at most marks that JSON values are used. -/
structure Draft.Marks (s t : Draft) : Prop where
  run : t.run = s.run
  decls : t.decls = s.decls
  json : s.usesJson = true → t.usesJson = true

theorem Draft.Marks.refl (s : Draft) : s.Marks s := ⟨rfl, rfl, id⟩

/-- Any JSON value is used as a type only where that is marked. -/
def TypeRef.IsMarked (t : Draft) (ty : TypeRef) : Prop :=
  ty.core = .scalar .json → t.usesJson = true

/-- A scalar is no declaration. -/
theorem Drafting.ends_scalar {s t : Draft} {type : ScalarType} {ty : TypeRef}
    (h : Ends (scalar type) s ty t) :
    ty = .scalar type ∧ s.Marks t ∧ (type = .json → t.usesJson = true) := by
  unfold scalar at h
  split at h
  · simp only [Ends.bind_iff, Ends.modify_iff, Ends.pure_iff] at h
    obtain ⟨_, _, rfl, rfl, rfl⟩ := h
    exact ⟨rfl, ⟨rfl, rfl, fun _ => rfl⟩, fun _ => rfl⟩
  · next other =>
    obtain ⟨rfl, rfl⟩ := Ends.pure_iff.mp h
    exact ⟨rfl, .refl s, fun json => absurd (beq_iff_eq.mpr json) other⟩

/-! ## Merged definitions -/

def Definition.fields : Definition → List FieldDecl
  | object fields => fields
  | enum _ => []

def Definition.values : Definition → List String
  | object _ => []
  | enum values => values

section Merge

variable {fields more : List FieldDecl} {x : FieldDecl}

/-- Merged fields are those there were and those with new names. -/
@[simp] theorem mem_mergeFields : x ∈ mergeFields fields more ↔
    x ∈ fields ∨ x ∈ more ∧ ∀ y ∈ fields, y.jsonName ≠ x.jsonName := by
  have added : x ∈ (more.filter fun f => !fields.any fun g => g.jsonName == f.jsonName) ↔
      x ∈ more ∧ ∀ y ∈ fields, y.jsonName ≠ x.jsonName := by
    rw [List.mem_filter, Bool.not_eq_true', List.any_eq_false]
    refine and_congr_right fun _ => forall₂_congr fun y _ => ?_
    rw [Bool.not_eq_true, beq_eq_false_iff_ne]
  rw [mergeFields, ← added]
  split
  · next none =>
    rw [List.isEmpty_iff.mp none]
    simp only [List.not_mem_nil, or_false]
  · exact (Text.sortByName_perm _ _).mem_iff.trans List.mem_append

/-- A key that either side has stays a key. -/
theorem key_mem_mergeFields (mem : x ∈ fields ∨ x ∈ more) :
    ∃ y ∈ mergeFields fields more, y.jsonName = x.jsonName := by
  rcases mem with mem | mem
  · exact ⟨x, mem_mergeFields.mpr (.inl mem), rfl⟩
  · by_cases new : ∀ y ∈ fields, y.jsonName ≠ x.jsonName
    · exact ⟨x, mem_mergeFields.mpr (.inr ⟨mem, new⟩), rfl⟩
    · push Not at new
      obtain ⟨y, hy, same⟩ := new
      exact ⟨y, mem_mergeFields.mpr (.inl hy), same⟩

/-- Merging leaves some fields where there were some. -/
theorem mergeFields_ne_nil (some : fields ≠ []) : mergeFields fields more ≠ [] := by
  obtain ⟨x, mem⟩ := List.exists_mem_of_ne_nil fields some
  exact List.ne_nil_of_mem (mem_mergeFields.mpr (.inl mem))

/-- Keys stay apart when fields with new keys are added. -/
theorem nodup_mergeFields (own : (fields.map FieldDecl.jsonName).Nodup)
    (others : (more.map FieldDecl.jsonName).Nodup) :
    ((mergeFields fields more).map FieldDecl.jsonName).Nodup := by
  rw [mergeFields]
  split
  · exact own
  · refine ((Text.sortByName_perm _ _).map FieldDecl.jsonName).nodup_iff.mpr ?_
    rw [List.map_append]
    refine List.nodup_append.mpr ⟨own, others.sublist (List.filter_sublist.map _), ?_⟩
    intro a ha b hb same
    obtain ⟨y, hy, rfl⟩ := List.mem_map.mp ha
    obtain ⟨x, hx, rfl⟩ := List.mem_map.mp hb
    have new := (List.mem_filter.mp hx).2
    rw [Bool.not_eq_true', List.any_eq_false] at new
    exact new y hy (beq_iff_eq.mpr same)

end Merge

namespace Definition

variable {own other : Definition} {x : FieldDecl}

/-- Merging leaves an object an object. -/
@[simp] theorem isObject_merge : (own.merge other).isObject = own.isObject := by
  cases own <;> cases other <;> rfl

/-- Merging leaves the values of an enum. -/
@[simp] theorem values_merge : (own.merge other).values = own.values := by
  cases own <;> cases other <;> rfl

theorem fields_subset_merge : own.fields ⊆ (own.merge other).fields := by
  cases own <;> cases other
  · exact fun _ mem => mem
  · exact fun _ mem => mem
  · exact fun _ mem => mem
  · exact fun _ mem => mem_mergeFields.mpr (.inl mem)

/-- A merged field comes from one of the two. -/
theorem mem_fields_merge (mem : x ∈ (own.merge other).fields) : x ∈ own.fields ∨
    x ∈ other.fields := by
  cases own <;> cases other
  · exact .inl mem
  · exact .inl mem
  · exact .inl mem
  · exact (mem_mergeFields.mp mem).imp_right And.left

/-- No field is gained for a key that is there already. -/
theorem mem_fields_of_key {y : FieldDecl} (mem : x ∈ (own.merge other).fields)
    (there : y ∈ own.fields) (same : y.jsonName = x.jsonName) : x ∈ own.fields := by
  cases own <;> cases other
  · exact mem
  · exact mem
  · exact mem
  · exact (mem_mergeFields.mp mem).resolve_right fun new => new.2 y there same

/-- Merging keeps the names of the fields of both. -/
theorem key_mem_merge (same : own.isObject = other.isObject) (mem : x ∈ other.fields) :
    ∃ y ∈ (own.merge other).fields, y.jsonName = x.jsonName := by
  cases own <;> cases other
  · cases mem
  · cases same
  · cases same
  · exact key_mem_mergeFields (.inr mem)

/-- Something is declared, and no JSON key has two fields. -/
def IsProper : Definition → Prop
  | enum values => values ≠ []
  | object fields => fields ≠ [] ∧ (fields.map FieldDecl.jsonName).Nodup

/-- Merging keeps a definition proper. -/
theorem IsProper.merge (proper : own.IsProper) (more : other.IsProper) :
    (own.merge other).IsProper := by
  cases own <;> cases other
  · exact proper
  · exact proper
  · exact proper
  · exact ⟨mergeFields_ne_nil proper.1, nodup_mergeFields proper.2 more.2⟩

end Definition

/-! ## Declarations -/

/-- Whether a key is that of an enum. No other kind has a label with this first letter. -/
def TypeDecl.isEnumKey (key : String) : Bool := key.toList.head? == some 'e'

namespace TypeDecl

/-- The first letter of the label decides. -/
theorem isEnumKey_of_label {kind : Kind} {discriminant rest l : String} {x : Char}
    (label : kind.label = l) (head : l.toList.head? = some x) :
    isEnumKey (idOf kind discriminant ++ rest) = (x == 'e') := by
  rw [isEnumKey, idOf, label, String.append_assoc, String.append_assoc, String.toList_append,
    List.head?_append, head]
  rfl

/-- The key of a container is that of no enum. -/
theorem isEnumKey_declKey {g : Graph} {n : Nat} (side : Side)
    (structured : (g.node n).kind.isStructured = true) :
    isEnumKey (g.declKey side n) = false := by
  have other : ∀ rest, isEnumKey (g.idAt n ++ rest) = false := fun rest => by
    rw [Graph.idAt, Node.id]
    cases kind : (g.node n).kind <;> rw [kind] at structured <;> try cases structured
    · exact isEnumKey_of_label (l := "obj") (x := 'o') rfl (by decide)
    · exact isEnumKey_of_label (l := "comp") (x := 'c') rfl (by decide)
    · exact isEnumKey_of_label (l := "union") (x := 'u') rfl (by decide)
  cases side with
  | output =>
    rw [Graph.declKey, ← String.append_empty (s := g.idAt n)]
    exact other ""
  | input => exact other "/input"

theorem isEnumKey_of_enum {g : Graph} {n : Nat} {values : List String}
    (kind : (g.node n).kind = .enum values) : isEnumKey (g.idAt n) = true := by
  rw [Graph.idAt, Node.id, kind, ← String.append_empty (s := idOf _ _)]
  exact isEnumKey_of_label (l := "enum") (x := 'e') rfl (by decide)

end TypeDecl

/-- The declaration has only been added to. -/
structure TypeDecl.Keeps (t t' : TypeDecl) : Prop where
  node : t'.node = t.node
  key : t'.key = t.key
  base : t'.base = t.base
  input : t'.input = t.input
  isObject : t'.definition.isObject = t.definition.isObject
  fields : t.definition.fields ⊆ t'.definition.fields

namespace TypeDecl.Keeps

variable {t t' t'' : TypeDecl}

theorem refl (t : TypeDecl) : Keeps t t := ⟨rfl, rfl, rfl, rfl, rfl, fun _ mem => mem⟩

theorem trans (first : Keeps t t') (second : Keeps t' t'') : Keeps t t'' where
  node := second.node.trans first.node
  key := second.key.trans first.key
  base := second.base.trans first.base
  input := second.input.trans first.input
  isObject := second.isObject.trans first.isObject
  fields _ mem := second.fields (first.fields mem)

end TypeDecl.Keeps

def TypeDecl.baseOf (input : Bool) (raw : String) : String :=
  let name := Naming.typeName raw
  if input && !name.endsWith "Input" then name ++ "Input" else name

/-- The definition is proper, its values are names, and the base name was made from a raw name. -/
structure TypeDecl.IsProper (t : TypeDecl) : Prop where
  definition : t.definition.IsProper
  values : ∀ v ∈ t.definition.values, Naming.isEnumValue v = true
  base : ∃ raw, t.base = TypeDecl.baseOf t.input raw

namespace Draft

/-- No two declarations have the same key, each key suits what is declared, and all of them declare
something. -/
structure Tidy (s : Draft) : Prop where
  keys : (s.decls.map TypeDecl.key).Nodup
  suits : ∀ t ∈ s.decls, t.definition.isObject = !TypeDecl.isEnumKey t.key
  proper : ∀ t ∈ s.decls, t.IsProper

theorem Tidy.same {s t : Draft} (tidy : s.Tidy) (decls : t.decls = s.decls) : t.Tidy :=
  ⟨decls ▸ tidy.keys, decls ▸ tidy.suits, decls ▸ tidy.proper⟩

/-- The run went on, and the declarations were only added to. -/
structure Grows (d : Document) (s t : Draft) : Prop where
  run : s.run.Drafts d t.run
  decls : ∀ {i : Nat} {decl : TypeDecl}, s.decls[i]? = some decl →
    ∃ decl', t.decls[i]? = some decl' ∧ decl.Keeps decl'
  tidy : s.Tidy → t.Tidy
  json : s.usesJson = true → t.usesJson = true

namespace Grows

variable {d : Document} {s t u : Draft}

/-- A draft grows when its run does and its declarations stay. -/
theorem of_run (run : s.run.Drafts d t.run) (decls : t.decls = s.decls)
    (json : s.usesJson = true → t.usesJson = true) : Grows d s t where
  run := run
  decls {_ decl} at_ := ⟨decl, decls ▸ at_, .refl decl⟩
  tidy tidy := tidy.same decls
  json := json

theorem refl (d : Document) (s : Draft) : Grows d s s := .of_run (.refl d _) rfl id

theorem trans (first : Grows d s t) (second : Grows d t u) : Grows d s u where
  run := first.run.trans second.run
  decls at_ := by
    obtain ⟨t', at_', keeps⟩ := first.decls at_
    obtain ⟨t'', at_'', keeps'⟩ := second.decls at_'
    exact ⟨t'', at_'', keeps.trans keeps'⟩
  tidy := second.tidy ∘ first.tidy
  json := second.json ∘ first.json

theorem of_marks (marks : s.Marks t) : Grows d s t :=
  .of_run (by rw [marks.run]; exact .refl d _) marks.decls marks.json

theorem mem {decl : TypeDecl} (step : Grows d s t) (old : decl ∈ s.decls) :
    ∃ decl' ∈ t.decls, decl.Keeps decl' := by
  obtain ⟨i, at_⟩ := List.mem_iff_getElem?.mp old
  obtain ⟨decl', at_', keeps⟩ := step.decls at_
  exact ⟨decl', List.mem_of_getElem? at_', keeps⟩

end Grows

end Draft

/-- A mark on a declaration leaves the graph. -/
@[simp] theorem Run.graph_markGenerated {r : Run} {key : String} :
    (r.markGenerated key).graph = r.graph := by
  unfold markGenerated
  split <;> rfl

/-- A mark on a declaration is drafting. -/
theorem Run.Drafts.of_markGenerated {d : Document} {r : Run} {key : String} :
    r.Drafts d (r.markGenerated key) := by
  unfold markGenerated
  split
  · exact .refl d r
  · exact Visits.drafts (.of_same rfl rfl rfl rfl)

/-- A declaration with more fields. -/
def TypeDecl.gain (own : Definition) (t : TypeDecl) : TypeDecl :=
  { t with definition := t.definition.merge own }

/-- A declaration that gains fields is kept. -/
theorem TypeDecl.keeps_gain (own : Definition) (t : TypeDecl) : t.Keeps (t.gain own) :=
  ⟨rfl, rfl, rfl, rfl, Definition.isObject_merge, Definition.fields_subset_merge⟩

/-- An index that is found is that of a declaration with the key. -/
theorem Draft.indexOf?_eq_some {s : Draft} {key : String} {index : Nat}
    (found : s.indexOf? key = some index) : ∃ decl, s.decls[index]? = some decl ∧
    decl.key = key := by
  obtain ⟨lt, same, -⟩ := List.findIdx?_eq_some_iff_getElem.mp found
  exact ⟨_, List.getElem?_eq_getElem lt, beq_iff_eq.mp same⟩

/-- Where no index is found, no declaration has the key. -/
theorem Draft.indexOf?_eq_none {s : Draft} {key : String} (new : s.indexOf? key = none) :
    key ∉ s.decls.map TypeDecl.key := fun mem => by
  obtain ⟨decl, old, same⟩ := List.mem_map.mp mem
  have other := List.findIdx?_eq_none_iff.mp new decl old
  rw [same, beq_self_eq_true] at other
  cases other

/-- No keyword means any JSON value. -/
theorem ScalarType.fallback_ne_json (keyword? : Option String) :
    (keyword?.bind ofKeyword?).getD .string ≠ .json := by
  cases keyword? with
  | none => decide
  | some keyword =>
    rw [Option.bind_some]
    unfold ofKeyword?
    split <;> decide

namespace Drafting

variable {s t : Draft} {target : Nat} {side : Side} {own : Definition} {ty : TypeRef}

def keyFor (g : Graph) (target : Nat) (side : Side) (own : Definition) : String :=
  if side == .input && own.isObject then g.idAt target ++ "/input" else g.idAt target

/-- Either the declaration with the key gains the definition, or one is added at the end. -/
theorem declare_ends (h : Ends (declare target side own) s ty t) :
    (∃ index, s.indexOf? (keyFor s.run.graph target side own) = some index ∧ ty = .named index ∧
      t = { s with decls := s.decls.modify index (TypeDecl.gain own) }) ∨
    s.indexOf? (keyFor s.run.graph target side own) = none ∧ ty = .named s.decls.length ∧
      ∃ new : TypeDecl, new.node = target ∧ new.key = keyFor s.run.graph target side own ∧
        new.input = (side == .input && own.isObject) ∧ new.definition = own ∧
        (∃ raw, new.base = TypeDecl.baseOf new.input raw) ∧
        t = { s with
          run := s.run.markGenerated (keyFor s.run.graph target side own)
          decls := s.decls ++ [new] } := by
  unfold declare at h
  simp only [Ends.bind_iff, ends_node, Ends.get_iff] at h
  obtain ⟨_, _, ⟨rfl, rfl⟩, _, _, ⟨rfl, rfl⟩, h⟩ := h
  split at h
  · next index found =>
    simp only [Ends.bind_iff, ends_put, Ends.pure_iff] at h
    obtain ⟨_, _, rfl, rfl, rfl⟩ := h
    exact .inl ⟨index, found, rfl, rfl⟩
  · next free =>
    simp only [Ends.bind_iff, ends_put, Ends.pure_iff] at h
    obtain ⟨_, _, rfl, rfl, rfl⟩ := h
    exact .inr ⟨free, rfl, _, rfl, rfl, rfl, rfl, ⟨_, rfl⟩, rfl⟩

/-- What becomes of the declarations. -/
theorem declare_cases (h : Ends (declare target side own) s ty t) :
    t.run.graph = s.run.graph ∧
      ((∃ index, s.indexOf? (keyFor s.run.graph target side own) = some index ∧
          t.decls = s.decls.modify index (TypeDecl.gain own)) ∨
        s.indexOf? (keyFor s.run.graph target side own) = none ∧ ∃ new, t.decls = s.decls ++ [new] ∧
          new.node = target ∧ new.key = keyFor s.run.graph target side own ∧
            new.input = (side == .input && own.isObject) ∧ new.definition = own) := by
  obtain ⟨index, found, -, rfl⟩ | ⟨free, -, new, node, key, input, definition, -, rfl⟩ :=
    declare_ends h
  · exact ⟨rfl, .inl ⟨index, found, rfl⟩⟩
  · exact ⟨Run.graph_markGenerated, .inr ⟨free, new, rfl, node, key, input, definition⟩⟩

/-- What a declaration adds to a draft. -/
structure Declared (s : Draft) (key : String) (input : Bool) (own : Definition) (ty : TypeRef)
    (t : Draft) : Prop where
  graph : t.run.graph = s.run.graph
  type : ∃ i decl, ty = .named i ∧ t.decls[i]? = some decl ∧ decl.key = key
  keys : ∀ decl ∈ t.decls, (∃ old ∈ s.decls, old.Keeps decl) ∨ decl.key = key ∧ decl.input = input
  fields : ∀ decl ∈ t.decls, ∀ x ∈ decl.definition.fields,
    (∃ old ∈ s.decls, old.key = decl.key ∧ x ∈ old.definition.fields) ∨
      decl.key = key ∧ x ∈ own.fields
  covers : s.Tidy → ∀ decl ∈ t.decls, decl.key = key →
    ∀ x ∈ own.fields, ∃ y ∈ decl.definition.fields, y.jsonName = x.jsonName

/-- The declaration with the key gains the new fields. -/
theorem gain_spec {d : Document} {key : String} {input : Bool} {index : Nat}
    (found : s.indexOf? key = some index) (suits : own.isObject = !TypeDecl.isEnumKey key)
    (proper : own.IsProper) (run : t.run = s.run)
    (decls : t.decls = s.decls.modify index (TypeDecl.gain own)) (json : t.usesJson = s.usesJson) :
    s.Grows d t ∧ Declared s key input own (.named index) t := by
  obtain ⟨first, at_, same⟩ := Draft.indexOf?_eq_some found
  have there : first ∈ s.decls := List.mem_of_getElem? at_
  have gained : ∀ j, t.decls[j]? =
      if index = j then (s.decls[j]?).map (TypeDecl.gain own) else s.decls[j]? := fun j => by
    rw [decls, List.getElem?_modify]
    split
    · rfl
    · exact congrFun Option.map_id _
  have isOld : ∀ decl ∈ t.decls, decl ∈ s.decls ∨ decl = first.gain own := fun decl mem => by
    obtain ⟨j, here⟩ := List.mem_iff_getElem?.mp mem
    rw [gained] at here
    split at here
    · next e =>
      rw [← e, at_, Option.map_some, Option.some.injEq] at here
      exact .inr here.symm
    · exact .inl (List.mem_of_getElem? here)
  have keys : t.decls.map TypeDecl.key = s.decls.map TypeDecl.key := by
    refine List.ext_getElem? fun j => ?_
    rw [List.getElem?_map, List.getElem?_map, gained]
    split
    · rw [Option.map_map]
      rfl
    · rfl
  have grows : s.Grows d t := by
    refine ⟨run ▸ .refl d _, fun {j decl} here => ?_, fun tidy => ⟨keys ▸ tidy.keys,
      fun decl mem => ?_, fun decl mem => ?_⟩, fun used => json.trans used⟩
    · rw [gained, here]
      split
      · exact ⟨_, rfl, decl.keeps_gain own⟩
      · exact ⟨_, rfl, .refl decl⟩
    · rcases isOld decl mem with old | rfl
      · exact tidy.suits decl old
      · exact Definition.isObject_merge.trans (tidy.suits first there)
    · rcases isOld decl mem with old | rfl
      · exact tidy.proper decl old
      · have before := tidy.proper first there
        refine ⟨before.definition.merge proper, fun v mem => before.values v ?_, before.base⟩
        rwa [← Definition.values_merge]
  have kept := first.keeps_gain own
  refine ⟨grows, run ▸ rfl, ⟨index, first.gain own, rfl, ?_, same⟩, fun decl mem => ?_,
    fun decl mem x hx => ?_, fun tidy decl mem key' x hx => ?_⟩
  · rw [gained, if_pos rfl, at_]
    rfl
  · rcases isOld decl mem with old | rfl
    · exact .inl ⟨decl, old, .refl decl⟩
    · exact .inl ⟨first, there, kept⟩
  · rcases isOld decl mem with old | rfl
    · exact .inl ⟨decl, old, rfl, hx⟩
    · exact (Definition.mem_fields_merge hx).imp (fun hx => ⟨first, there, rfl, hx⟩)
        fun hx => ⟨same, hx⟩
  · have only : decl = first.gain own := by
      have unique := (grows.tidy tidy).keys
      refine List.inj_on_of_nodup_map unique mem ?_ (key'.trans same.symm)
      refine List.mem_of_getElem? (i := index) ?_
      rw [gained, if_pos rfl, at_]
      rfl
    rw [only]
    refine Definition.key_mem_merge ?_ hx
    rw [suits, tidy.suits first there, same]

/-- A key that is new gets a declaration of its own. -/
theorem append_spec {d : Document} {key : String} {input : Bool} {new : TypeDecl}
    (free : s.indexOf? key = none) (suits : own.isObject = !TypeDecl.isEnumKey key)
    (proper : new.IsProper) (named : new.key = key) (sided : new.input = input)
    (defined : new.definition = own) (graph : t.run.graph = s.run.graph)
    (run : s.run.Drafts d t.run) (decls : t.decls = s.decls ++ [new])
    (json : t.usesJson = s.usesJson) :
    s.Grows d t ∧ Declared s key input own (.named s.decls.length) t := by
  have fresh := Draft.indexOf?_eq_none free
  have isOld : ∀ decl ∈ t.decls, decl ∈ s.decls ∨ decl = new := fun decl mem => by
    rw [decls] at mem
    exact (List.mem_append.mp mem).imp_right List.mem_singleton.mp
  have grows : s.Grows d t := by
    refine ⟨run, fun {j decl} here => ⟨decl, ?_, .refl decl⟩, fun tidy => ⟨?_, fun decl mem => ?_,
      fun decl mem => ?_⟩, fun used => json.trans used⟩
    · obtain ⟨lt, -⟩ := List.getElem?_eq_some_iff.mp here
      rw [decls, List.getElem?_append_left lt, here]
    · rw [decls, List.map_append, List.map_singleton, named]
      exact List.nodup_append.mpr ⟨tidy.keys, List.nodup_singleton _, fun a ha b hb e => by
        rw [List.mem_singleton.mp hb] at e
        exact fresh (e ▸ ha)⟩
    · rcases isOld decl mem with old | rfl
      · exact tidy.suits decl old
      · rw [defined, named, suits]
    · rcases isOld decl mem with old | rfl
      · exact tidy.proper decl old
      · exact proper
  refine ⟨grows, graph, ⟨s.decls.length, new, rfl, ?_, named⟩, fun decl mem => ?_,
    fun decl mem x hx => ?_, fun tidy decl mem key' x hx => ?_⟩
  · rw [decls, List.getElem?_append_right (Nat.le_refl _), Nat.sub_self]
    rfl
  · rcases isOld decl mem with old | rfl
    · exact .inl ⟨decl, old, .refl decl⟩
    · exact .inr ⟨named, sided⟩
  · rcases isOld decl mem with old | rfl
    · exact .inl ⟨decl, old, rfl, hx⟩
    · exact .inr ⟨named, defined ▸ hx⟩
  · rcases isOld decl mem with old | rfl
    · exact absurd (List.mem_map.mpr ⟨decl, old, key'⟩) fresh
    · exact ⟨x, defined ▸ hx, rfl⟩

/-- **What it takes and what it gives to declare a definition.** -/
theorem declare_spec {d : Document} (h : Ends (declare target side own) s ty t)
    (suits : own.isObject = !TypeDecl.isEnumKey (keyFor s.run.graph target side own))
    (proper : own.IsProper) (values : ∀ v ∈ own.values, Naming.isEnumValue v = true) :
    s.Grows d t ∧ Declared s (keyFor s.run.graph target side own) (side == .input && own.isObject)
      own ty t := by
  obtain ⟨index, found, rfl, rfl⟩ | ⟨free, rfl, new, -, key, input, definition, base, rfl⟩ :=
    declare_ends h
  · exact gain_spec found suits proper rfl rfl rfl
  · exact append_spec free suits ⟨definition ▸ proper, definition ▸ values, base⟩
      key input definition Run.graph_markGenerated .of_markGenerated rfl rfl

/-- An object is declared under the key of its container. -/
theorem declare_object {d : Document} {fields : List FieldDecl}
    (h : Ends (declare target side (.object fields)) s ty t)
    (structured : (s.run.graph.node target).kind.isStructured = true)
    (proper : (Definition.object fields).IsProper) :
    s.Grows d t ∧
      Declared s (s.run.graph.declKey side target) (side == .input) (.object fields) ty t := by
  have key : keyFor s.run.graph target side (.object fields) = s.run.graph.declKey side target := by
    cases side <;> rfl
  rw [← key, ← Bool.and_true (side == .input)]
  refine declare_spec h ?_ proper fun v none => absurd none List.not_mem_nil
  rw [key, TypeDecl.isEnumKey_declKey side structured]
  rfl

/-- An enum is declared if its values are names; otherwise a scalar stands for it. -/
theorem enumType_spec {d : Document} {values : List String}
    (h : Ends (enumType target values) s ty t)
    (kind : (s.run.graph.node target).kind = .enum values) :
    s.Grows d t ∧ t.run.graph = s.run.graph ∧
      if Naming.areEnumValues values
        then Declared s (s.run.graph.idAt target) false (.enum values.eraseDups) ty t
        else (∃ type, ty = .scalar type ∧ type ≠ .json) ∧ t.decls = s.decls := by
  unfold enumType at h
  dsimp only at h
  split at h
  · next declared =>
    have names := List.all_eq_true.mp ((Bool.and_eq_true _ _).mp declared).2
    have proper : (Definition.enum values.eraseDups).IsProper := fun none => by
      rw [none] at declared
      cases declared
    have spec := declare_spec (d := d) h (TypeDecl.isEnumKey_of_enum kind ▸ rfl) proper names
    rw [if_pos (show Naming.areEnumValues values = true from declared)]
    exact ⟨spec.1, spec.2.graph, spec.2⟩
  · next other =>
    rw [if_neg (show ¬Naming.areEnumValues values = true from other)]
    simp only [Ends.bind_iff, Ends.get_iff] at h
    obtain ⟨_, _, ⟨rfl, rfl⟩, h⟩ := h
    split at h
    · simp only [Ends.bind_iff, ends_put, ends_node, Ends.pure_iff] at h
      obtain ⟨_, _, rfl, _, _, ⟨rfl, rfl⟩, rfl, rfl⟩ := h
      exact ⟨.of_run (Run.Visits.drafts (.of_same rfl rfl rfl rfl)) rfl id, rfl,
        ⟨_, rfl, ScalarType.fallback_ne_json _⟩, rfl⟩
    · simp only [Ends.bind_iff, ends_node, Ends.pure_iff] at h
      obtain ⟨_, _, ⟨rfl, rfl⟩, rfl, rfl⟩ := h
      exact ⟨.refl d s, rfl, ⟨_, rfl, ScalarType.fallback_ne_json _⟩, rfl⟩

end Drafting

end RestGraph
