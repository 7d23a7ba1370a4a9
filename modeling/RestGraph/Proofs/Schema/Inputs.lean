import RestGraph.Proofs.Graph.Blending
import RestGraph.Proofs.Schema.Closed

/-!
# Inputs

Arguments are typed with all their fields. So what a draft declares of inputs is read off the graph:
each container on the way down is entered under its key, after the containers below it, and one
whose key is there already adds the fields that are new.
-/

namespace RestGraph

variable {d : Document} {c : Collection} {side : Side} {i j n target : Nat}

/-! ## Declarations of inputs -/

structure InputField where
  jsonName : String
  name : String
  required : Bool
deriving DecidableEq

/-- Inputs by key, in the order of their declarations. -/
abbrev Inputs := List (String × List InputField)

def FieldDecl.asInput (x : FieldDecl) : InputField := ⟨x.jsonName, x.name, x.required⟩

def TypeDecl.asInput (t : TypeDecl) : String × List InputField :=
  (t.key, t.definition.fields.map FieldDecl.asInput)

def Draft.inputs (s : Draft) : Inputs := (s.decls.filter TypeDecl.input).map TypeDecl.asInput

namespace Inputs

/-- The fields that are there, and those of the others whose keys are new. -/
def merge (fields more : List InputField) : List InputField :=
  let added := more.filter fun f => !fields.any fun g => g.jsonName == f.jsonName
  if added.isEmpty then fields else Text.sortByName InputField.jsonName (fields ++ added)

/-- An input with a key that is there already adds its fields to the first one. -/
def enter : Inputs → String × List InputField → Inputs
  | [], x => [x]
  | y :: rest, x => if y.1 = x.1 then (y.1, merge y.2 x.2) :: rest else y :: enter rest x

end Inputs

@[simp] theorem asInput_mergeFields (fields more : List FieldDecl) :
    (mergeFields fields more).map FieldDecl.asInput =
      Inputs.merge (fields.map FieldDecl.asInput) (more.map FieldDecl.asInput) := by
  have added : (more.map FieldDecl.asInput).filter
      (fun f => !(fields.map FieldDecl.asInput).any fun g => g.jsonName == f.jsonName) =
      (more.filter fun f => !fields.any fun g => g.jsonName == f.jsonName).map
        FieldDecl.asInput := by
    rw [List.filter_map]
    refine congrArg (List.map _) (List.filter_congr fun f _ => ?_)
    rw [Function.comp_apply, List.any_map]
    rfl
  rw [mergeFields, Inputs.merge, added, List.isEmpty_map]
  split
  · rfl
  · exact (Text.map_sortByName (fun _ => rfl) _).trans
      (congrArg (Text.sortByName InputField.jsonName) List.map_append)

/-! ## Drafts that keep inputs apart -/

/-- The key tells whether the declaration is an input, and an input has fields. -/
structure TypeDecl.IsKeyed (t : TypeDecl) : Prop where
  object : t.input = true → t.definition.isObject = true
  marked : t.input = true ↔ ∃ id, t.key = id ++ "/input"

def Draft.Keyed (s : Draft) : Prop := ∀ decl ∈ s.decls, decl.IsKeyed

namespace TypeDecl

variable {decl : TypeDecl} {decls : List TypeDecl} {own : Definition} {id key : String}
  {fields : List FieldDecl} {index : Nat}

theorem IsKeyed.gain (keyed : decl.IsKeyed) : (decl.gain own).IsKeyed where
  object input := Definition.isObject_merge.trans (keyed.object input)
  marked := keyed.marked

/-- The input of a declaration gains what the declaration gains. -/
theorem asInput_gain (object : decl.definition.isObject = true) :
    (decl.gain (.object fields)).asInput =
      (decl.key, Inputs.merge decl.asInput.2 (fields.map FieldDecl.asInput)) := by
  obtain ⟨own, definition⟩ : ∃ own, decl.definition = .object own := by
    cases definition : decl.definition with
    | object own => exact ⟨own, rfl⟩
    | enum => rw [definition] at object; cases object
  rw [asInput, gain, definition]
  change (decl.key, (mergeFields own fields).map FieldDecl.asInput) = _
  rw [asInput_mergeFields, asInput, definition]
  rfl

/-- The input with the key gains the fields. -/
theorem inputs_gain (keyed : ∀ decl ∈ decls, decl.IsKeyed)
    (found : decls.findIdx? (fun t => t.key == id ++ "/input") = some index) :
    ((decls.modify index (gain (.object fields))).filter input).map asInput =
      Inputs.enter ((decls.filter input).map asInput)
        (id ++ "/input", fields.map FieldDecl.asInput) := by
  induction decls generalizing index with
  | nil => cases found
  | cons decl rest ih =>
    obtain ⟨here, later⟩ := List.forall_mem_cons.mp keyed
    rw [List.findIdx?_cons] at found
    split at found
    · next same =>
      cases found
      have same : decl.key = id ++ "/input" := beq_iff_eq.mp same
      have isInput : decl.input = true := here.marked.mpr ⟨id, same⟩
      rw [List.modify_zero_cons, List.filter_cons_of_pos isInput,
        List.filter_cons_of_pos (show (decl.gain _).input = true from isInput), List.map_cons,
        List.map_cons, Inputs.enter, asInput_gain (here.object isInput)]
      exact (if_pos same).symm
    · next other =>
      obtain ⟨index, before, rfl⟩ := Option.map_eq_some_iff.mp found
      have ih := ih later before
      rw [List.modify_succ_cons, List.filter_cons, List.filter_cons]
      split
      · rw [List.map_cons, List.map_cons, Inputs.enter, ih]
        exact (if_neg fun same => other (beq_iff_eq.mpr same)).symm
      · exact ih

/-- What is no input may gain anything. -/
theorem filter_gain (plain : ∀ decl ∈ decls, decl.key = key → decl.input = false)
    (found : decls.findIdx? (fun t => t.key == key) = some index) :
    (decls.modify index (gain own)).filter input = decls.filter input := by
  induction decls generalizing index with
  | nil => cases found
  | cons decl rest ih =>
    obtain ⟨here, later⟩ := List.forall_mem_cons.mp plain
    rw [List.findIdx?_cons] at found
    split at found
    · next same =>
      cases found
      have isOutput : decl.input ≠ true := Bool.eq_false_iff.mp (here (beq_iff_eq.mp same))
      rw [List.modify_zero_cons, List.filter_cons_of_neg isOutput,
        List.filter_cons_of_neg (show (decl.gain own).input ≠ true from isOutput)]
    · obtain ⟨index, before, rfl⟩ := Option.map_eq_some_iff.mp found
      rw [List.modify_succ_cons, List.filter_cons, List.filter_cons, ih later before]

end TypeDecl

namespace Inputs

/-- Where none has the key, the input comes last. -/
theorem enter_of_new {inputs : Inputs} {x : String × List InputField}
    (new : ∀ y ∈ inputs, y.1 ≠ x.1) : inputs.enter x = inputs ++ [x] := by
  induction inputs with
  | nil => rfl
  | cons y rest ih =>
    obtain ⟨other, new⟩ := List.forall_mem_cons.mp new
    rw [enter, if_neg other, ih new]
    rfl

end Inputs

namespace Drafting

variable {s t : Draft} {own : Definition} {fields : List FieldDecl} {ty : TypeRef}

/-- Declarations stay keyed when another is made. -/
theorem declare_keyed (h : Ends (declare target side own) s ty t) (keyed : s.Keyed)
    (new : ∀ decl : TypeDecl, decl.key = keyFor s.run.graph target side own →
      decl.input = (side == .input && own.isObject) → decl.definition = own → decl.IsKeyed) :
    t.Keyed := by
  intro decl mem
  obtain ⟨-, ⟨index, -, decls⟩ | ⟨-, last, decls, -, key, input, definition⟩⟩ := declare_cases h
  · rw [decls] at mem
    obtain ⟨j, at_⟩ := List.mem_iff_getElem?.mp mem
    rw [List.getElem?_modify] at at_
    obtain ⟨old, before, rfl⟩ := Option.map_eq_some_iff.mp at_
    have keyed := keyed old (List.mem_of_getElem? before)
    split
    · exact keyed.gain
    · exact keyed
  · rw [decls] at mem
    rcases List.mem_append.mp mem with old | here
    · exact keyed decl old
    · rw [List.mem_singleton.mp here]
      exact new last key input definition

/-- The fields of an argument are entered. -/
theorem declare_input (h : Ends (declare target .input (.object fields)) s ty t)
    (keyed : s.Keyed) : t.Keyed ∧ t.inputs =
      s.inputs.enter (s.run.graph.idAt target ++ "/input", fields.map FieldDecl.asInput) := by
  refine ⟨declare_keyed h keyed fun decl key input own => ⟨fun _ => own ▸ rfl, ?_⟩, ?_⟩
  · exact iff_of_true input ⟨_, key⟩
  · obtain ⟨-, ⟨index, found, decls⟩ | ⟨free, new, decls, -, key, input, own⟩⟩ := declare_cases h
    · rw [Draft.inputs, decls]
      exact TypeDecl.inputs_gain keyed found
    · have last : new.asInput =
          (s.run.graph.idAt target ++ "/input", fields.map FieldDecl.asInput) := by
        rw [TypeDecl.asInput, key, own]
        rfl
      rw [Inputs.enter_of_new, Draft.inputs, decls, List.filter_append, List.map_append,
        List.filter_cons_of_pos input, ← last]
      · rfl
      · rintro y mem same
        obtain ⟨decl, old, rfl⟩ := List.mem_map.mp mem
        exact Draft.indexOf?_eq_none free
          (List.mem_map.mpr ⟨decl, (List.mem_filter.mp old).1, same⟩)

/-- Outputs are no matter for inputs. -/
theorem declare_output (h : Ends (declare target .output own) s ty t) (keyed : s.Keyed)
    (unmarked : ∀ id, s.run.graph.idAt target ≠ id ++ "/input") :
    t.Keyed ∧ t.inputs = s.inputs := by
  have key : keyFor s.run.graph target .output own = s.run.graph.idAt target := rfl
  refine ⟨declare_keyed h keyed fun decl same input _ => ⟨?_, ?_⟩, ?_⟩
  · rw [input]
    exact fun h => by cases h
  · rw [input, same]
    exact iff_of_false (fun h => by cases h) fun ⟨id, same⟩ => unmarked id same
  · obtain ⟨-, ⟨index, found, decls⟩ | ⟨free, new, decls, -, -, input, -⟩⟩ := declare_cases h
    · rw [Draft.inputs, decls, TypeDecl.filter_gain (fun decl mem same => ?_) found]
      · rfl
      · refine Bool.eq_false_iff.mpr fun input => ?_
        obtain ⟨id, marked⟩ := (keyed decl mem).marked.mp input
        exact unmarked id (same.symm.trans marked)
    · have plain : new.input ≠ true := by
        rw [input]
        exact fun h => by cases h
      rw [Draft.inputs, decls, List.filter_append, List.filter_cons_of_neg plain, List.filter_nil,
        List.append_nil]
      rfl

end Drafting

/-! ## What a graph asks for -/

def Kind.isRequired : Kind → Bool
  | .property _ required => required
  | _ => false

/-- The fields with a name are where the ways from a container go on. -/
def VisibleField.ways (fs : List VisibleField) : List Nat :=
  (fs.filter fun f => f.name.isSome).map VisibleField.prop

namespace Graph

variable {g h : Graph} {f : VisibleField}

/-- The field of an input, unless it closes a cycle. -/
def inputField? (g : Graph) (f : VisibleField) : Option InputField :=
  f.name.bind fun name =>
    if (g.node (g.elementOf f.prop)).kind.isCircular then none
    else some ⟨f.jsonName, name, (g.node f.prop).kind.isRequired⟩

/-- The input that a container is declared as, if it has a field to declare. -/
def ownInput (g : Graph) (n : Nat) : Inputs :=
  let fields := (visibleFields g n none).filterMap g.inputField?
  if fields.isEmpty then [] else [(g.idAt n ++ "/input", fields)]

/-- The inputs on the way down from a node, a container after those below it. -/
def asked (g : Graph) (i : Nat) : Inputs :=
  let n := g.elementOf i
  if (g.node n).kind.isStructured then
    ((VisibleField.ways (visibleFields g n none)).flatMap fun q =>
      if _h : n < q ∧ q < g.size then g.asked q else []) ++ g.ownInput n
  else []
termination_by g.size - i
decreasing_by
  have below := le_elementOf g i
  omega

theorem asked_congr (same : g.elementOf i = g.elementOf j) : g.asked i = g.asked j := by
  rw [asked, asked, same]

theorem asked_of_plain (plain : (g.node (g.elementOf i)).kind.isStructured = false) :
    g.asked i = [] := by
  rw [asked, plain]
  rfl

/-- The ways on are those of the fields that are named. -/
theorem mem_ways {fs : List VisibleField} {q : Nat} :
    q ∈ VisibleField.ways fs ↔ ∃ f ∈ fs, f.name.isSome = true ∧ f.prop = q := by
  simp only [VisibleField.ways, List.mem_map, List.mem_filter, and_assoc]

/-- The fields of an element come after what leads to it. -/
theorem Sound.below_element (sound : g.Sound) {selection : Option Collection}
    (shown : f ∈ visibleFields g (g.elementOf i) selection) : i < f.prop ∧ f.prop < g.size := by
  have above := (sound.fields (List.mem_filter.mp (mem_nameFields shown)).1).above
  exact ⟨(le_elementOf g i).trans_lt (lt_of_mem_ancestors above), lt_size_of_mem_ancestors above⟩

/-- A container asks for what its fields ask for, and then for itself. -/
theorem asked_of_container (sound : g.Sound)
    (structured : (g.node (g.elementOf i)).kind.isStructured = true) :
    g.asked i = (VisibleField.ways (visibleFields g (g.elementOf i) none)).flatMap g.asked ++
      g.ownInput (g.elementOf i) := by
  rw [asked, if_pos structured]
  refine congrArg (· ++ _) (List.flatMap_congr fun q way => ?_)
  obtain ⟨f, shown, -, rfl⟩ := mem_ways.mp way
  have bounds := sound.below_element ((elementOf_elementOf g i).symm ▸ shown)
  exact dif_pos bounds

section Grow

variable (explored : g.Explored c .input i) (sound : g.Sound) (step : g.Grows g.unvisited h)
  (structured : (g.node (g.elementOf i)).kind.isStructured = true)

include explored sound step structured

theorem Explored.inputField? (shown : f ∈ visibleFields g (g.elementOf i) none) :
    h.inputField? f = g.inputField? f := by
  rw [Graph.inputField?, Graph.inputField?]
  cases named : f.name with
  | none => rfl
  | some name =>
    have below := explored.of_field structured shown (by rw [named]; rfl) sound
    rw [Option.bind_some, Option.bind_some, below.elementOf sound step,
      step.kind (elementOf_lt below.inside), step.kind below.inside]

theorem Explored.ownInput : h.ownInput (g.elementOf i) = g.ownInput (g.elementOf i) := by
  have settled := explored.settled _ (.here i)
  have fields : h.fieldsOn c .input (g.elementOf i) = g.fieldsOn c .input (g.elementOf i) :=
    settled.fieldsOn structured sound step
  change visibleFields h _ none = visibleFields g _ none at fields
  rw [Graph.ownInput, Graph.ownInput, fields, step.idAt settled.inside,
    List.filterMap_congr fun f shown => explored.inputField? sound step structured shown]

end Grow

/-- What was explored goes on asking for the same. -/
theorem Explored.asked {i : Nat} (explored : g.Explored c .input i) (sound : g.Sound)
    (sound' : h.Sound) (step : g.Grows g.unvisited h) : h.asked i = g.asked i := by
  have settled := explored.settled _ (.here i)
  have element := explored.elementOf sound step
  have kind := step.kind settled.inside
  cases structured : (g.node (g.elementOf i)).kind.isStructured with
  | false =>
    rw [asked_of_plain structured, asked_of_plain (by rw [element, kind, structured])]
  | true =>
    have fields : h.fieldsOn c .input (g.elementOf i) = g.fieldsOn c .input (g.elementOf i) :=
      settled.fieldsOn structured sound step
    change visibleFields h _ none = visibleFields g _ none at fields
    rw [asked_of_container sound structured,
      asked_of_container sound' (by rw [element, kind, structured]), element, fields,
      explored.ownInput sound step structured]
    refine congrArg (· ++ _) (List.flatMap_congr fun q way => ?_)
    obtain ⟨f, shown, named, rfl⟩ := mem_ways.mp way
    have bounds := sound.below_element shown
    exact (explored.of_field structured shown named sound).asked sound sound' step
termination_by g.size - i
decreasing_by omega

end Graph

end RestGraph
