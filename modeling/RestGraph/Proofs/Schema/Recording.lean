import RestGraph.Proofs.Schema.Inputs

/-!
# Recording inputs

To type an argument is to enter the inputs that its schema asks for. What else is typed leaves the
inputs alone: responses stand outside of the arguments, and within these nothing is merged that a
filter has thinned out.
-/

namespace RestGraph

variable {d : Document} {c : Collection} {side : Side} {i j target : Nat} {r s : Run}

/-! ## Sides -/

/-- Whether nodes of the kind stand at or below a schema. -/
def Kind.isInner (k : Kind) : Bool := k.isSchema || k.isProperty

/-- A container is inner. -/
theorem Kind.isInner_of_isStructured {k : Kind} (structured : k.isStructured = true) :
    k.isInner = true := by
  cases k <;> first | rfl | cases structured

/-- What an inner node admits is inner. -/
theorem Kind.isInner_of_admits {k k' : Kind} (inner : k.isInner = true)
    (admits : k.admits k' = true) : k'.isInner = true := by
  have schema : ∀ {k' : Kind}, k'.isSchema = true → k'.isInner = true := fun h => by
    rw [isInner, h, Bool.true_or]
  have prop : ∀ {k' : Kind}, k'.isProperty = true → k'.isInner = true := fun h => by
    rw [isInner, h, Bool.or_true]
  have circular : ∀ {k' : Kind}, (k'.tag == .circular) = true →
      k'.isInner = true := fun {k'} h => by
    cases k' <;> first | rfl | cases h
  cases k with
  | property shape =>
    cases shape <;> first | exact schema admits | exact prop admits |
      exact circular admits | cases admits
  | _ => first | exact schema admits | exact prop admits | cases admits | cases inner

namespace Graph

variable {g : Graph} {q : Nat}

/-- A child of an inner node is inside arguments with it. -/
theorem inArguments_of_child (sound : g.Sound) (inner : (g.node i).kind.isInner = true)
    (child : j ∈ (g.node i).children) : g.inArguments j = g.inArguments i := by
  rw [inArguments, inArguments, sound.ancestors_of_child child, List.any_cons]
  have plain : ((g.node i).kind.tag == .param || (g.node i).kind.tag == .body) = false := by
    cases kind : (g.node i).kind <;> rw [kind] at inner <;> first | rfl | cases inner
  rw [plain, Bool.false_or]

/-- All below a schema stands where the schema does. -/
theorem inArguments_of_below (sound : g.Sound) (inner : (g.node i).kind.isInner = true)
    (below : i ∈ g.ancestors q) : g.inArguments q = g.inArguments i ∧
      (g.node q).kind.isInner = true := by
  induction q using Nat.strongRecOn with
  | ind q ih =>
    have way : ∃ p, (g.node q).parent = some p := by
      cases parent : (g.node q).parent with
      | none =>
        rw [ancestors_of_root parent] at below
        cases below
      | some p => exact ⟨p, rfl⟩
    obtain ⟨p, parent⟩ := way
    have child := sound.child parent
    rw [sound.ancestors_of_child child] at below
    rcases List.mem_cons.mp below with rfl | below
    · exact ⟨inArguments_of_child sound inner child,
        Kind.isInner_of_admits inner (sound.admits child)⟩
    · obtain ⟨same, inner⟩ := ih p (sound.parent_lt parent) below
      exact ⟨(inArguments_of_child sound inner child).trans same,
        Kind.isInner_of_admits inner (sound.admits child)⟩

/-- Properties are not merged themselves. -/
theorem not_isBranch_of_isProperty (sound : g.Sound) (prop : (g.node q).isProperty = true) :
    ¬g.IsBranch q := by
  rintro ⟨o, -, branch⟩
  obtain ⟨p, -, expands, child⟩ := Relation.TransGen.tail'_iff.mp branch
  have admits := sound.admits child
  have schema : (g.node q).kind.isSchema = true := by
    cases kind :
      (g.node p).kind <;> rw [kind] at expands admits <;> first | exact admits | cases expands
  rw [Node.isProperty] at prop
  cases kind : (g.node q).kind <;> rw [kind] at prop schema <;>
    first | exact Bool.noConfusion schema | exact Bool.noConfusion prop

end Graph

namespace Run

/-- The node stands where the side is typed: an output outside of arguments; an input within them,
where it is merged into nothing and nothing is filtered out. -/
def Aside (r : Run) : Side → Nat → Prop
  | .output, i => r.graph.inArguments i = false
  | .input, i => r.isFiltering = false ∧ r.graph.inArguments i = true ∧ ¬r.graph.IsBranch i

namespace Aside

/-- What is aside stays so while types are drafted. -/
theorem drafts (aside : r.Aside side i) (drafts : r.Drafts d s) (sound : r.graph.Sound)
    (inside : i < r.graph.size) : s.Aside side i := by
  have grows := drafts.grows
  cases side with
  | output => exact (grows.inArguments inside).trans aside
  | input =>
    obtain ⟨off, within, apart⟩ := aside
    refine ⟨?_, (grows.inArguments inside).trans within, fun branch => apart ?_⟩
    · rw [← off]
      unfold isFiltering inContextOf
      rw [drafts.filter, drafts.stack]
    · exact branch.back grows.toExtends sound (drafts.sound sound) inside

variable (aside : r.Aside side i) (sound : r.graph.Sound)
  (inner : (r.graph.node i).kind.isInner = true)

include aside sound inner

/-- The children of all but compositions stand where the node does. -/
theorem child (child : j ∈ (r.graph.node i).children)
    (plain : (r.graph.node i).kind.isComposition = false) : r.Aside side j := by
  have same := Graph.inArguments_of_child sound inner child
  cases side with
  | output => exact same.trans aside
  | input =>
    obtain ⟨off, within, apart⟩ := aside
    exact ⟨off, same.trans within, Graph.not_isBranch_of_child sound child plain fun _ => apart⟩

/-- The fields of what is aside are aside. -/
theorem field {x : String × Nat} (field : x ∈ (r.graph.node i).props) : r.Aside side x.2 := by
  obtain ⟨above, isProperty, -⟩ := sound.fields field
  have same := (Graph.inArguments_of_below sound inner above).1
  cases side with
  | output => exact same.trans aside
  | input =>
    obtain ⟨off, within, -⟩ := aside
    exact ⟨off, same.trans within, Graph.not_isBranch_of_isProperty sound isProperty⟩

/-- A node that is found through wrappers stands where the first does. -/
theorem leads (leads : r.graph.Leads i target) : r.Aside side target := by
  induction leads with
  | here => exact aside
  | @down i c target rest wrapper children _ ih =>
    have mem : c ∈ (r.graph.node i).children := children ▸ List.mem_cons_self
    have plain : (r.graph.node i).kind.isComposition = false := by
      cases kind : (r.graph.node i).kind <;> rw [kind] at wrapper <;> first | rfl | cases wrapper
    exact ih (aside.child sound inner mem plain) (Kind.isInner_of_admits inner (sound.admits mem))

end Aside

end Run

/-! ## Records -/

/-- The starts that ask for inputs. -/
def Side.asking : Side → List Nat → List Nat
  | .output, _ => []
  | .input, starts => starts

namespace Draft

variable {s t u : Draft} {starts later : List Nat}

/-- A draft in which arguments are typed in full. -/
structure Fit (d : Document) (s : Draft) : Prop where
  sound : s.run.graph.Sound
  derived : s.run.graph.Derived d
  plain : s.run.Plain
  keyed : s.Keyed

/-- From `s` to `t` the inputs were entered that the starts ask for. -/
structure Records (d : Document) (c : Collection) (starts : List Nat) (s t : Draft) : Prop where
  fit : t.Fit d
  explored : ∀ i ∈ starts, t.run.graph.Explored c .input i
  inputs : t.inputs = (starts.flatMap t.run.graph.asked).foldl Inputs.enter s.inputs

namespace Fit

theorem visits {r : Run} (fit : s.Fit d) (visits : s.run.Visits d r) :
    Fit d { s with run := r } where
  sound := visits.sound fit.sound
  derived := fit.derived.moves fit.sound visits.moves
  plain := fit.plain.visits visits fit.sound
  keyed := fit.keyed

/-- To merge a composition is fit where it stands aside. -/
theorem consolidate {r : Run} {branches : List Nat} (fit : s.Fit d)
    (h : Ends (Build.consolidate d i) s.run branches r)
    (composition : (s.run.graph.node i).kind.isComposition = true) (aside : s.run.Aside side i) :
    Fit d { s with run := r } where
  sound := (Build.consolidate_drafts h fit.sound composition).1.sound fit.sound
  derived := fit.derived.moves fit.sound (Build.consolidate_drafts h fit.sound composition).1.moves
  plain := fit.plain.consolidate h fit.sound composition fun within => by
    cases side with
    | output => exact absurd (within.symm.trans aside) Bool.noConfusion
    | input => exact ⟨aside.1, aside.2.2⟩
  keyed := fit.keyed

theorem same (fit : s.Fit d) (graph : t.run.graph = s.run.graph) (keyed : t.Keyed) : t.Fit d where
  sound := graph ▸ fit.sound
  derived := graph ▸ fit.derived
  plain := fit.plain.same graph
  keyed := keyed

theorem marks (fit : s.Fit d) (marks : s.Marks t) : t.Fit d :=
  fit.same (congrArg Run.graph marks.run) fun decl mem => fit.keyed decl (marks.decls ▸ mem)

end Fit

/-- Marks leave the inputs. -/
theorem Marks.inputs (marks : s.Marks t) : t.inputs = s.inputs :=
  congrArg (fun decls : List TypeDecl => (decls.filter TypeDecl.input).map TypeDecl.asInput)
    marks.decls

namespace Records

theorem none (fit : t.Fit d) (inputs : t.inputs = s.inputs) : Records d c [] s t :=
  ⟨fit, fun _ none => absurd none List.not_mem_nil, inputs⟩

theorem trans (first : Records d c starts s t) (second : Records d c later t u)
    (step : t.Grows d u) : Records d c (starts ++ later) s u where
  fit := second.fit
  explored i mem := (List.mem_append.mp mem).elim
    (fun mem => (first.explored i mem).grow first.fit.sound step.run.grows) (second.explored i)
  inputs := by
    rw [second.inputs, first.inputs, List.flatMap_append, List.foldl_append]
    refine congrArg (fun asked => List.foldl _ (List.foldl _ _ asked) _) ?_
    exact List.flatMap_congr fun i mem => ((first.explored i mem).asked first.fit.sound
      second.fit.sound step.run.grows).symm

/-- Another node on the same way may be taken for the start. -/
theorem shift (records : Records d c (side.asking [j]) s t) (inside : i < t.run.graph.size)
    (same : t.run.graph.elementOf i = t.run.graph.elementOf j) :
    Records d c (side.asking [i]) s t := by
  cases side with
  | output => exact records
  | input =>
    refine ⟨records.fit, fun x mem => ?_, ?_⟩
    · rw [List.mem_singleton.mp mem]
      exact ⟨inside, fun e meets =>
        (records.explored j (List.mem_singleton_self j)).settled e (meets.congr same.symm)⟩
    · rw [records.inputs, Side.asking, Side.asking, List.flatMap_singleton, List.flatMap_singleton,
        Graph.asked_congr same]

/-- A node without fields asks for nothing. -/
theorem of_plain (typed : Typed d c (At side i) s t) (fit : t.Fit d) (inputs : t.inputs = s.inputs)
    (plain : (t.run.graph.node (t.run.graph.elementOf i)).kind.isStructured = false) :
    Records d c (side.asking [i]) s t := by
  cases side with
  | output => exact .none fit inputs
  | input =>
    refine ⟨fit, fun x mem => List.mem_singleton.mp mem ▸ typed.explored ⟨rfl, rfl⟩, ?_⟩
    rw [Side.asking, List.flatMap_singleton, Graph.asked_of_plain plain]
    exact inputs

end Records

end Draft

namespace Drafting

open Draft

variable {s t u : Draft} {typeOf : Nat → Side → Drafting (Option TypeRef)}

/-- What a function that types nodes records. -/
def RecordsNodes (d : Document) (c : Collection)
    (typeOf : Nat → Side → Drafting (Option TypeRef)) : Prop :=
  ∀ {i side s ty t}, Ends (typeOf i side) s ty t → s.Fit d → i < s.run.graph.size →
    (s.run.graph.node i).kind.isSchema = true → s.run.Aside side i →
      Records d c (side.asking [i]) s t

theorem propTypeWithin_records (spec : TypesNodes d c typeOf) (records : RecordsNodes d c typeOf)
    {depth : Nat} {ty : Option TypeRef} (h : Ends (propTypeWithin d typeOf depth i side) s ty t)
    (fit : s.Fit d) (inside : i < s.run.graph.size)
    (prop : (s.run.graph.node i).isProperty = true) (aside : s.run.Aside side i) :
    Records d c (side.asking [i]) s t := by
  induction depth generalizing i s ty t with
  | zero => exact absurd h (by rw [propTypeWithin, Ends.throw_iff]; exact id)
  | succ depth ih =>
    have typed := (propTypeWithin_typed spec h fit.sound inside prop).1
    obtain ⟨r, visits, visited, prop', types⟩ := propTypeWithin_cases h fit.sound inside prop
    have fit' : Fit d { s with run := r } := fit.visits visits
    have inside' : i < r.graph.size := inside.trans_le visits.grows.size_le
    have inner : (r.graph.node i).kind.isInner = true := by
      rw [Kind.isInner, show (r.graph.node i).kind.isProperty = true from prop', Bool.or_true]
    have single : (r.graph.node i).kind.isComposition = false := by
      obtain ⟨_, _, kind⟩ := Kind.eq_property_of_isProperty prop'
      rw [kind]
      rfl
    have aside' : r.Aside side i := aside.drafts visits.drafts fit.sound inside
    -- the child of the property is typed in its place
    have below : ∀ {j rest t'}, (r.graph.node i).children = j :: rest →
        (r.graph.node i).kind.isWrapper = true ∨ (r.graph.node i).kind.isArray = true →
        Grows d { s with run := r } t' → Records d c (side.asking [j]) { s with run := r } t' →
        Records d c (side.asking [i]) s t' := fun children leads step records => by
      have same := step.run.grows.elementOf_first fit'.sound visited leads children
      have shifted := records.shift (inside'.trans_le step.run.grows.size_le) same
      exact ⟨shifted.fit, shifted.explored, shifted.inputs⟩
    have alone : r.graph.elementOf i = i →
        (r.graph.node (r.graph.elementOf i)).kind.isStructured = false := fun element => by
      rw [element]
      exact Graph.not_isStructured_of_isProperty prop'
    cases types with
    | scalar h element =>
      obtain ⟨-, marks, -⟩ := ends_scalar h
      exact .of_plain typed (fit'.marks marks) marks.inputs (by rw [marks.run]; exact alone element)
    | circular kind =>
      refine .of_plain typed fit' rfl ?_
      exact (Graph.elementOf_of_closed fit'.sound kind).elim alone Graph.not_isStructured_of_tag
    | @list _ item rest ty _ h kind children =>
      have child : item ∈ (r.graph.node i).children := children ▸ List.mem_cons_self
      have admits := fit'.sound.admits child
      rw [kind] at admits
      have bounds := (fit'.sound.below child).2
      have step := (propTypeWithin_typed spec h fit'.sound bounds admits).1.grows
      exact below children (.inr (by rw [kind]; rfl)) step
        (ih h fit' bounds admits (aside'.child fit'.sound inner child single))
    | @wraps child rest _ _ h wrapper children schema =>
      have mem : child ∈ (r.graph.node i).children := children ▸ List.mem_cons_self
      have bounds := (fit'.sound.below mem).2
      have step := (spec h fit'.sound bounds schema).1.grows
      exact below children (.inl wrapper) step
        (records h fit' bounds schema (aside'.child fit'.sound inner mem single))

/-- The ways from the fields are recorded one after the other, and the declarations are those of
the fields that close no cycle. -/
theorem fieldDecls_records (spec : TypesNodes d c typeOf) (records : RecordsNodes d c typeOf)
    {fs : List VisibleField} {xs : List FieldDecl} (h : Ends (fieldDecls d typeOf side fs) s xs t)
    (fit : s.Fit d)
    (props : ∀ f ∈ fs, f.prop < s.run.graph.size ∧ (s.run.graph.node f.prop).isProperty = true ∧
      s.run.Aside side f.prop) :
    Records d c (side.asking (VisibleField.ways fs)) s t ∧
      xs.map FieldDecl.asInput = fs.filterMap t.run.graph.inputField? := by
  have none : side.asking (VisibleField.ways []) = [] := by cases side <;> rfl
  induction fs generalizing s xs with
  | nil =>
    rw [fieldDecls] at h
    obtain ⟨rfl, rfl⟩ := Ends.pure_iff.mp h
    exact ⟨none ▸ .none fit rfl, rfl⟩
  | cons f rest ih =>
    obtain ⟨⟨inside, prop, aside⟩, later⟩ := List.forall_mem_cons.mp props
    rw [fieldDecls] at h
    split at h
    · next unnamed =>
      obtain ⟨records, fields⟩ := ih h fit later
      have skip : t.run.graph.inputField? f = Option.none := by
        rw [Graph.inputField?, unnamed]
        rfl
      refine ⟨?_, by rw [List.filterMap_cons_none skip, fields]⟩
      rwa [VisibleField.ways, List.filter_cons_of_neg (by rw [unnamed]; exact Bool.noConfusion)]
    · next name named =>
      simp only [Ends.bind_iff, Ends.get_iff] at h
      obtain ⟨_, _, ⟨rfl, rfl⟩, ty, u, h, h'⟩ := h
      obtain ⟨typed, answers⟩ := propTypeWithin_typed spec h fit.sound inside prop
      have first := propTypeWithin_records spec records h fit inside prop aside
      have explored := typed.explored ⟨rfl, rfl⟩
      have grows := typed.grows.run.grows
      have later' : ∀ f ∈ rest, f.prop < u.run.graph.size ∧
          (u.run.graph.node f.prop).isProperty = true ∧ u.run.Aside side f.prop := fun f mem => by
        obtain ⟨lt, prop, aside⟩ := later f mem
        rw [Node.isProperty, grows.kind lt]
        exact ⟨lt.trans_le grows.size_le, prop, aside.drafts typed.grows.run fit.sound lt⟩
      have together : ∀ {xs}, Ends (fieldDecls d typeOf side rest) u xs t →
          u.Grows d t ∧ Records d c (side.asking (VisibleField.ways (f :: rest))) s t ∧
            xs.map FieldDecl.asInput = rest.filterMap t.run.graph.inputField? := fun h => by
        obtain ⟨second, fields⟩ := ih h first.fit later'
        have step := (fieldDecls_typed spec h first.fit.sound fun f mem =>
          ⟨(later' f mem).1, (later' f mem).2.1⟩).1.grows
        refine ⟨step, ?_, fields⟩
        have ways : side.asking (VisibleField.ways (f :: rest)) =
            side.asking [f.prop] ++ side.asking (VisibleField.ways rest) := by
          rw [VisibleField.ways, List.filter_cons_of_pos (by rw [named]; rfl)]
          cases side <;> rfl
        rw [ways]
        exact first.trans second step
      split at h'
      · obtain ⟨step, records, fields⟩ := together h'
        have circular := answers.grow step first.fit.sound explored
        refine ⟨records, ?_⟩
        rw [List.filterMap_cons_none, fields]
        rw [Graph.inputField?, named]
        exact if_pos circular
      · next ty =>
        simp only [Ends.bind_iff, ends_graph, Ends.pure_iff] at h'
        obtain ⟨_, _, ⟨rfl, rfl⟩, xs, _, h', rfl, rfl⟩ := h'
        obtain ⟨step, records, fields⟩ := together h'
        have open_ := (answers.grow step first.fit.sound explored).1
        refine ⟨records, ?_⟩
        rw [List.filterMap_cons_some, List.map_cons, fields]
        rw [Graph.inputField?, named, Option.bind_some, open_,
          step.run.grows.kind explored.inside]
        rfl

/-- A container is entered after what its fields ask for. -/
theorem container_records (spec : TypesNodes d c typeOf) (records : RecordsNodes d c typeOf)
    (unmarked : d.IsUnmarked) {xs : List FieldDecl} {ty : TypeRef}
    (h : Ends (fieldDecls d typeOf side (s.run.graph.fieldsOn c side target)) s xs u)
    (h' : Ends (if xs.isEmpty then scalar .json else declare target side (.object xs)) u ty t)
    (fit : s.Fit d) (settled : s.run.graph.Settled target)
    (structured : (s.run.graph.node target).kind.isStructured = true)
    (aside : s.run.Aside side target) : Records d c (side.asking [target]) s t := by
  have inner := Kind.isInner_of_isStructured structured
  have props : ∀ f ∈ s.run.graph.fieldsOn c side target, f.prop < s.run.graph.size ∧
      (s.run.graph.node f.prop).isProperty = true ∧ s.run.Aside side f.prop := fun f shown => by
    have prop := Graph.prop_of_mem_fieldsOn shown
    have field := fit.sound.fields prop
    exact ⟨Graph.lt_size_of_mem_ancestors field.above, field.isProperty,
      aside.field fit.sound inner prop⟩
  obtain ⟨first, fields⟩ := fieldDecls_records spec records h fit props
  have typed := (container_typed spec h h' fit.sound settled structured).1
  have grows := (fieldDecls_typed spec h fit.sound fun f shown =>
    ⟨(props f shown).1, (props f shown).2.1⟩).1.grows.run.grows
  have structured' : (u.run.graph.node target).kind.isStructured = true := by
    rwa [grows.kind settled.inside]
  have same : u.run.graph.fieldsOn c side target = s.run.graph.fieldsOn c side target :=
    settled.fieldsOn structured fit.sound grows
  have unmarked := first.fit.derived.idAt_ne_marked first.fit.sound unmarked
    (Kind.isKeyed_of_isStructured structured')
  have graph : t.run.graph = u.run.graph := by
    split at h'
    · exact congrArg Run.graph (ends_scalar h').2.1.run
    · exact (declare_cases h').1
  cases side with
  | output =>
    have keyed : t.Keyed ∧ t.inputs = u.inputs := by
      split at h'
      · have marks := (ends_scalar h').2.1
        exact ⟨(first.fit.marks marks).keyed, marks.inputs⟩
      · exact declare_output h' first.fit.keyed unmarked
    exact .none (first.fit.same graph keyed.1) (keyed.2.trans first.inputs)
  | input =>
    have own : u.run.graph.ownInput target = if (xs.map FieldDecl.asInput).isEmpty then [] else
        [(u.run.graph.idAt target ++ "/input", xs.map FieldDecl.asInput)] := by
      rw [Graph.ownInput, show visibleFields u.run.graph target none = _ from same, fields]
    rw [List.isEmpty_map] at own
    have keyed : t.Keyed ∧
        t.inputs = (u.run.graph.ownInput target).foldl Inputs.enter u.inputs := by
      rw [own]
      split at h'
      · next empty =>
        have marks := (ends_scalar h').2.1
        rw [if_pos empty]
        exact ⟨(first.fit.marks marks).keyed, marks.inputs⟩
      · next some =>
        rw [if_neg some]
        exact declare_input h' first.fit.keyed
    refine ⟨first.fit.same graph keyed.1, fun x mem => ?_, ?_⟩
    · rw [List.mem_singleton.mp mem]
      exact typed.explored ⟨rfl, rfl⟩
    · have element := Graph.elementOf_of_isStructured structured'
      rw [keyed.2, first.inputs, Side.asking, Side.asking, List.flatMap_singleton, graph,
        Graph.asked_of_container first.fit.sound (element.symm ▸ structured'), element,
        List.foldl_append, show visibleFields u.run.graph target none = _ from same]

theorem objectType_records (spec : TypesNodes d c typeOf) (records : RecordsNodes d c typeOf)
    (unmarked : d.IsUnmarked) {ty : TypeRef}
    (h : Ends (objectType d c typeOf target side) s ty t) (fit : s.Fit d)
    (structured : (s.run.graph.node target).kind.isStructured = true)
    (visited : (s.run.graph.node target).visited = true) (aside : s.run.Aside side target) :
    Records d c (side.asking [target]) s t := by
  have inside : target < s.run.graph.size := Graph.lt_size_of_ne fun e => by
    rw [e] at structured
    cases structured
  have fill : ∀ {r : Run} {xs u}, s.run.Drafts d r → Fit d { s with run := r } →
      (r.graph.node target).isMerged = true →
      Ends (fieldDecls d typeOf side (r.graph.fieldsOn c side target)) { s with run := r } xs u →
      Ends (if xs.isEmpty then scalar .json else declare target side (.object xs)) u ty t →
      Records d c (side.asking [target]) s t := fun {r xs u} drafts fit' merged h h' => by
    have settled : r.graph.Settled target := ⟨inside.trans_le drafts.grows.size_le,
      fun _ => (drafts.grows.keeps inside).visited visited, merged⟩
    have structured' : (r.graph.node target).kind.isStructured = true := by
      rwa [drafts.grows.kind inside]
    have recorded := container_records (s := { s with run := r }) spec records unmarked h h' fit'
      settled structured' (aside.drafts drafts fit.sound inside)
    exact ⟨recorded.fit, recorded.explored, recorded.inputs⟩
  obtain ⟨r, xs, u, ⟨composition, _, merge⟩ | ⟨plain, _, visit⟩, h, h'⟩ := objectType_cases h
  · obtain ⟨drafts, consolidated⟩ := Build.consolidate_drafts merge fit.sound composition
    exact fill drafts (fit.consolidate merge composition aside)
      (isMerged_of_consolidated consolidated) h h'
  · have visits := (Build.visit_steps visit fit.sound).1
    exact fill visits.drafts (fit.visits visits)
      (by rw [Node.isMerged, visits.grows.kind inside, plain]; rfl) h h'

/-- An enum is no input. -/
theorem enum_records (unmarked : d.IsUnmarked) {values : List String} {ty : TypeRef}
    (h : Ends (enumType i values) s ty t) (fit : s.Fit d)
    (kind : (s.run.graph.node i).kind = .enum values) : Records d c (side.asking [i]) s t := by
  have typed : Typed d c (At side i) s t := (enum_typed h kind).1
  have unmarked := fit.derived.idAt_ne_marked fit.sound unmarked
    (show (s.run.graph.node i).kind.isKeyed = true by rw [kind]; rfl)
  have kept : t.run.graph = s.run.graph ∧ t.Keyed ∧ t.inputs = s.inputs := by
    refine ⟨(enumType_spec (d := d) h kind).2.1, ?_⟩
    unfold enumType at h
    dsimp only at h
    split at h
    · exact declare_output h fit.keyed unmarked
    · simp only [Ends.bind_iff, Ends.get_iff] at h
      obtain ⟨_, _, ⟨rfl, rfl⟩, h⟩ := h
      split at h
      · simp only [Ends.bind_iff, ends_put, ends_node, Ends.pure_iff] at h
        obtain ⟨_, _, rfl, _, _, ⟨rfl, rfl⟩, rfl, rfl⟩ := h
        exact ⟨fit.keyed, rfl⟩
      · simp only [Ends.bind_iff, ends_node, Ends.pure_iff] at h
        obtain ⟨_, _, ⟨rfl, rfl⟩, rfl, rfl⟩ := h
        exact ⟨fit.keyed, rfl⟩
  obtain ⟨graph, keyed, inputs⟩ := kept
  refine .of_plain typed (fit.same graph keyed) inputs ?_
  rw [graph, Graph.elementOf_of_end, kind]
  · rfl
  · rw [kind]
    rfl
  · rw [kind]
    rfl

theorem nodeTypeWithin_records (unmarked : d.IsUnmarked) (depth : Nat) :
    RecordsNodes d c (nodeTypeWithin d c depth) := by
  induction depth with
  | zero => exact fun h => absurd h (by rw [nodeTypeWithin, Ends.throw_iff]; exact id)
  | succ depth ih =>
    intro i side s ty t h fit inside schema aside
    have typed := (nodeTypeWithin_typed (depth + 1) h fit.sound inside schema).1
    obtain ⟨j, r, visits, leads, visited, schema', target⟩ :=
      nodeTypeWithin_cases h fit.sound inside schema
    have fit' : Fit d { s with run := r } := fit.visits visits
    have old : i < r.graph.size := inside.trans_le visits.grows.size_le
    have inside' : j < r.graph.size := leads.lt_size fit'.sound old
    have inner : ∀ {k : Kind}, k.isSchema = true → k.isInner = true := fun h => by
      rw [Kind.isInner, h, Bool.true_or]
    have schema₀ : (r.graph.node i).kind.isSchema = true := by rwa [visits.grows.kind inside]
    have aside' : r.Aside side j := (aside.drafts visits.drafts fit.sound inside).leads
      fit'.sound (inner schema₀) leads
    -- what is recorded for the target is recorded for the node
    have found : Grows d { s with run := r } t →
        Records d c (side.asking [j]) { s with run := r } t →
        Records d c (side.asking [i]) s t := fun step records => by
      have grows := step.run.grows
      have shifted := records.shift (old.trans_le grows.size_le)
        ((leads.extend grows.toExtends).elementOf (step.sound fit'.sound).below)
      exact ⟨shifted.fit, shifted.explored, shifted.inputs⟩
    have scalars : ∀ {type ty}, Ends (scalar type) { s with run := r } ty t →
        (r.graph.node (r.graph.elementOf j)).kind.isStructured = false →
        Records d c (side.asking [i]) s t := fun h plain => by
      obtain ⟨-, marks, -⟩ := ends_scalar h
      refine .of_plain typed (fit'.marks marks) marks.inputs ?_
      rw [marks.run, leads.elementOf fit'.sound.below]
      exact plain
    cases target with
    | scalar h element plain => exact scalars h (element.symm ▸ plain)
    | enum h kind =>
      have typed : Typed d c (At side j) _ _ := (enum_typed h kind).1
      exact found typed.grows (enum_records unmarked h fit' kind)
    | container h structured =>
      have below : TypesNodes d c (nodeTypeWithin d c depth) := nodeTypeWithin_typed depth
      exact found (objectType_typed below h fit'.sound structured visited).1.grows
        (objectType_records below ih unmarked h fit' structured visited aside')
    | @list item rest ty _ h kind children =>
      have child : item ∈ (r.graph.node j).children := children ▸ List.mem_cons_self
      have bounds := (fit'.sound.below child).2
      have admits := fit'.sound.admits child
      rw [kind] at admits
      have step := (nodeTypeWithin_typed depth h fit'.sound bounds admits).1.grows
      have same := step.run.grows.elementOf_first fit'.sound visited
        (.inr (by rw [kind]; rfl)) children
      have below := ih h fit' bounds admits
        (aside'.child fit'.sound (inner schema') child (by rw [kind]; rfl))
      exact found step (below.shift (inside'.trans_le step.run.grows.size_le) same)
    | empty h kind children =>
      exact scalars h (by rw [Graph.elementOf_of_childless children, kind]; rfl)
    | circular element circular =>
      refine .of_plain typed fit' rfl ?_
      change (r.graph.node (r.graph.elementOf i)).kind.isStructured = false
      rw [leads.elementOf fit'.sound.below, element]
      exact Graph.not_isStructured_of_tag circular

end Drafting

end RestGraph
