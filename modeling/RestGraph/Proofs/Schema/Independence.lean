import RestGraph.Proofs.Graph.Twins
import RestGraph.Proofs.Schema.Agreement
import RestGraph.Proofs.Schema.History
import RestGraph.Proofs.Schema.Requests

/-!
# Independence of requests

What is selected of the responses is no matter for the arguments: two drafts for the same operations
have the same requests and the same inputs, whatever else was selected and in whatever order the
graph was built.
-/

namespace RestGraph

variable {d : Document} {c c' : Collection} {r s : Run} {i j : Nat}

/-! ## Fields -/

/-- Whether the node is a property that closes a cycle. -/
def Kind.closes : Kind → Bool
  | .property .circular _ => true
  | _ => false

/-- A field, and the site of its property. -/
def VisibleField.sketch (g : Graph) (f : VisibleField) :
    String × Option String × Option String × Site :=
  (f.jsonName, f.name, f.comment, g.site f.prop)

namespace Graph

variable {g h : Graph}

@[simp] theorem visibleFields_none (g : Graph) (n : Nat) :
    visibleFields g n none = nameFields g [] (g.node n).props := by
  exact congrArg (nameFields g []) (List.filter_eq_self.mpr fun _ _ => rfl)

/-- A field is named apart from those before it, unless it closes a cycle. -/
theorem nameFields_step (g : Graph) (taken : List String) (x : String × Nat)
    (rest : List (String × Nat)) : nameFields g taken (x :: rest) =
      if (g.node x.2).kind.closes then ⟨x.1, x.2, none, none⟩ :: nameFields g taken rest
      else
        ⟨x.1, x.2, some (Naming.unique taken (Naming.guardReserved x.1).name),
          (Naming.guardReserved x.1).comment⟩ ::
            nameFields g (Naming.unique taken (Naming.guardReserved x.1).name :: taken) rest := by
  rw [nameFields]
  split
  · next kind => rw [kind, if_pos (by rfl)]
  · next other =>
    rw [if_neg]
    intro closes
    unfold Kind.closes at closes
    split at closes
    · next required kind => exact other required kind
    · cases closes

/-- Names are given by the kinds and the keys of the properties. -/
theorem nameFields_twins {taken : List String} {props props' : List (String × Nat)}
    (same : g.sited props = h.sited props') :
    (nameFields g taken props).map (VisibleField.sketch g) =
      (nameFields h taken props').map (VisibleField.sketch h) := by
  induction props generalizing taken props' with
  | nil =>
    cases props' with
    | nil => rfl
    | cons => cases same
  | cons x rest ih =>
    cases props' with
    | nil => cases same
    | cons y rest' =>
      obtain ⟨here, later⟩ := List.cons.inj same
      obtain ⟨key, site⟩ := Prod.mk.inj here
      have key : x.1 = y.1 := key
      have ih : ∀ taken, (nameFields g taken rest).map (VisibleField.sketch g) =
          (nameFields h taken rest').map (VisibleField.sketch h) := fun _ => ih later
      rw [nameFields_step, nameFields_step, key, kind_of_site site Kind.closes fun _ _ => rfl]
      split
      · rw [List.map_cons, List.map_cons, ih, VisibleField.sketch, VisibleField.sketch, site]
      · rw [List.map_cons, List.map_cons, ih, VisibleField.sketch, VisibleField.sketch, site]

/-- What the ways from a container lead to, field by field. -/
theorem flatMap_ways {α : Type} (part : Nat → List α) (fs : List VisibleField) :
    (VisibleField.ways fs).flatMap part =
      (fs.map fun f => if f.name.isSome then part f.prop else []).flatten := by
  induction fs with
  | nil => rfl
  | cons f fs ih =>
    rw [List.map_cons, List.flatten_cons, ← ih, VisibleField.ways, List.filter_cons]
    split
    · rfl
    · rfl

def entry (g : Graph) (selection : Option Collection) (f : VisibleField) : Entry :=
  match f.name with
  | none => .circular f.jsonName
  | some name =>
    if (g.node (g.elementOf f.prop)).kind.isCircular then .circular f.jsonName
    else if (g.node (g.elementOf f.prop)).kind.isStructured then
      .block name f.jsonName (entriesOf g selection (g.elementOf f.prop))
    else .leaf name f.jsonName f.comment

/-- There is one entry for each visible field. -/
theorem Sound.entriesOf_eq (sound : g.Sound) (selection : Option Collection) (n : Nat) :
    entriesOf g selection n = (visibleFields g n selection).map (g.entry selection) := by
  rw [entriesOf]
  refine List.map_congr_left fun f shown => ?_
  have above := (sound.fields (List.mem_filter.mp (mem_nameFields shown)).1).above
  have bounds : n < g.elementOf f.prop ∧ g.elementOf f.prop < g.size :=
    ⟨(lt_of_mem_ancestors above).trans_le (le_elementOf g f.prop),
      elementOf_lt (lt_size_of_mem_ancestors above)⟩
  unfold entry
  cases f.name with
  | none => rfl
  | some name =>
    dsimp only
    rw [dif_pos bounds]

/-- The element of a node inside arguments is inside them. -/
theorem inArguments_elementOf (sound : g.Sound) (within : g.inArguments i = true) :
    g.inArguments (g.elementOf i) = true := by
  fun_induction Graph.elementOf g i with
  | case1 i kind leads c bounds first ih =>
    obtain ⟨rest, children⟩ := firstBelow?_eq_some first
    refine ih (inArguments_of_mem_ancestors within ?_)
    rw [sound.ancestors_of_child (children ▸ List.mem_cons_self : c ∈ (g.node i).children)]
    exact List.mem_cons_self
  | case2 | case3 => exact within

end Graph

/-- The node is part of an argument, and all below it was built. -/
structure Run.Sent (r : Run) (c : Collection) (i : Nat) : Prop where
  explored : r.graph.Explored c .input i
  within : r.graph.inArguments i = true

theorem Run.Sent.field {f : VisibleField} (sent : r.Sent c i) (sound : r.graph.Sound)
    (structured : (r.graph.node (r.graph.elementOf i)).kind.isStructured = true)
    (shown : f ∈ r.graph.fieldsOn c .input (r.graph.elementOf i)) (named : f.name.isSome = true) :
    r.Sent c f.prop where
  explored := sent.explored.of_field structured shown named sound
  within := Graph.inArguments_of_mem_ancestors (Graph.inArguments_elementOf sound sent.within)
    (sound.fields (Graph.prop_of_mem_fieldsOn shown)).above

/-! ## Inputs and mappings -/

namespace Run.Full

variable (full : r.Full d) (full' : s.Full d)

include full full'

section Element

variable (same : r.graph.site i = s.graph.site j) (sent : r.Sent c i) (sent' : s.Sent c' j)

include same sent sent'

theorem element : r.graph.site (r.graph.elementOf i) = s.graph.site (s.graph.elementOf j) := by
  refine full.elementOf full' same sent.explored.inside sent'.explored.inside ?_ ?_
  · exact fun leads => (sent.explored.settled _ (.here i)).visited (leads.imp_right .inl)
  · exact fun leads => (sent'.explored.settled _ (.here j)).visited (leads.imp_right .inl)

variable (structured : (r.graph.node (r.graph.elementOf i)).kind.isStructured = true)

include structured

theorem structured_twin : (s.graph.node (s.graph.elementOf j)).kind.isStructured = true := by
  rwa [← Graph.kind_of_site (full.element full' same sent sent') Kind.isStructured fun _ _ => rfl]

/-- Containers that are twins show the same fields. -/
theorem shown : (visibleFields r.graph (r.graph.elementOf i) none).map
      (VisibleField.sketch r.graph) =
    (visibleFields s.graph (s.graph.elementOf j) none).map (VisibleField.sketch s.graph) := by
  have twins := full.element full' same sent sent'
  have structured' := full.structured_twin full' same sent sent' structured
  have settled := sent.explored.settled _ (.here i)
  have settled' := sent'.explored.settled _ (.here j)
  rw [Graph.visibleFields_none, Graph.visibleFields_none]
  exact Graph.nameFields_twins (full.fields full' twins
    ⟨settled.inside, settled.visited (.inr (.inr structured))⟩
    ⟨settled'.inside, settled'.visited (.inr (.inr structured'))⟩ structured settled.merged
    settled'.merged (Graph.inArguments_elementOf full.sound sent.within)
    (Graph.inArguments_elementOf full'.sound sent'.within))

section Field

variable {f f' : VisibleField} (mem : f ∈ visibleFields r.graph (r.graph.elementOf i) none)
  (mem' : f' ∈ visibleFields s.graph (s.graph.elementOf j) none)
  (alike : f.sketch r.graph = f'.sketch s.graph)

include mem mem' alike

/-- What two fields lead to. -/
theorem field_twin (named : f.name.isSome = true) :
    r.graph.site f.prop = s.graph.site f'.prop ∧ r.Sent c f.prop ∧ s.Sent c' f'.prop := by
  obtain ⟨-, name, -, site⟩ : f.jsonName = f'.jsonName ∧ f.name = f'.name ∧
      f.comment = f'.comment ∧ r.graph.site f.prop = s.graph.site f'.prop := by
    simpa [VisibleField.sketch] using alike
  exact ⟨site, sent.field full.sound structured mem named, sent'.field full'.sound
    (full.structured_twin full' same sent sent' structured) mem' (name ▸ named)⟩

theorem inputField?_twin : r.graph.inputField? f = s.graph.inputField? f' := by
  obtain ⟨key, name, -, -⟩ : f.jsonName = f'.jsonName ∧ f.name = f'.name ∧
      f.comment = f'.comment ∧ r.graph.site f.prop = s.graph.site f'.prop := by
    simpa [VisibleField.sketch] using alike
  rw [Graph.inputField?, Graph.inputField?, ← name, key]
  cases named : f.name with
  | none => rfl
  | some n =>
    obtain ⟨site, below, below'⟩ := full.field_twin full' same sent sent' structured mem mem' alike
      (by rw [named]; rfl)
    rw [Option.bind_some, Option.bind_some,
      Graph.kind_of_site (full.element full' site below below') Kind.isCircular fun _ _ => rfl,
      Graph.kind_of_site site Kind.isRequired fun _ _ => rfl]

end Field

/-- What each container declares of itself. -/
theorem ownInput_twin : r.graph.ownInput (r.graph.elementOf i) =
    s.graph.ownInput (s.graph.elementOf j) := by
  have shown := full.shown full' same sent sent' structured
  have fields : (visibleFields r.graph (r.graph.elementOf i) none).filterMap r.graph.inputField? =
      (visibleFields s.graph (s.graph.elementOf j) none).filterMap s.graph.inputField? := by
    have each := map_eq_of_map_eq shown fun f mem f' mem' alike =>
      full.inputField?_twin full' same sent sent' structured mem mem' alike
    exact List.filterMap_map.symm.trans
      ((congrArg (List.filterMap id) each).trans List.filterMap_map)
  rw [Graph.ownInput, Graph.ownInput, fields,
    Graph.idAt_of_site (full.element full' same sent sent')]

end Element

/-- Twins ask for the same inputs. -/
theorem asked_twin {i j : Nat} (same : r.graph.site i = s.graph.site j) (sent : r.Sent c i)
    (sent' : s.Sent c' j) : r.graph.asked i = s.graph.asked j := by
  have twins := full.element full' same sent sent'
  cases structured : (r.graph.node (r.graph.elementOf i)).kind.isStructured with
  | false =>
    rw [Graph.asked_of_plain structured, Graph.asked_of_plain
      ((Graph.kind_of_site twins Kind.isStructured fun _ _ => rfl).symm.trans structured)]
  | true =>
    rw [Graph.asked_of_container full.sound structured, Graph.asked_of_container full'.sound
      (full.structured_twin full' same sent sent' structured),
      full.ownInput_twin full' same sent sent' structured, Graph.flatMap_ways, Graph.flatMap_ways]
    refine congrArg (List.flatten · ++ _) (map_eq_of_map_eq
      (full.shown full' same sent sent' structured) fun f mem f' mem' alike => ?_)
    have name : f.name = f'.name := congrArg (fun x => x.2.1) alike
    rw [← name]
    split
    · next named =>
      obtain ⟨site, below, below'⟩ :=
        full.field_twin full' same sent sent' structured mem mem' alike named
      have bounds := full.sound.below_element mem
      exact asked_twin site below below'
    · rfl
termination_by r.graph.size - i
decreasing_by omega

/-- Containers that are twins are mapped alike. -/
theorem entries_twin {i j : Nat} (same : r.graph.site i = s.graph.site j) (sent : r.Sent c i)
    (sent' : s.Sent c' j)
    (structured : (r.graph.node (r.graph.elementOf i)).kind.isStructured = true) :
    entriesOf r.graph none (r.graph.elementOf i) =
      entriesOf s.graph none (s.graph.elementOf j) := by
  rw [full.sound.entriesOf_eq, full'.sound.entriesOf_eq]
  refine map_eq_of_map_eq (full.shown full' same sent sent' structured)
    fun f mem f' mem' alike => ?_
  obtain ⟨key, name, comment, -⟩ : f.jsonName = f'.jsonName ∧ f.name = f'.name ∧
      f.comment = f'.comment ∧ r.graph.site f.prop = s.graph.site f'.prop := by
    simpa [VisibleField.sketch] using alike
  rw [Graph.entry, Graph.entry, ← name, key, comment]
  cases named : f.name with
  | none => rfl
  | some n =>
    obtain ⟨site, below, below'⟩ := full.field_twin full' same sent sent' structured mem mem' alike
      (by rw [named]; rfl)
    have twins := full.element full' site below below'
    have bounds := full.sound.below_element mem
    dsimp only
    rw [Graph.kind_of_site twins Kind.isCircular fun _ _ => rfl,
      ← Graph.kind_of_site twins Kind.isStructured fun _ _ => rfl]
    split
    · rfl
    · split
      · next inner => rw [entries_twin site below below' inner]
      · rfl
termination_by r.graph.size - i
decreasing_by omega

end Run.Full

/-! ## Requests -/

/-- What is written of a request: the arguments, and the mapping of the body. -/
def Request.text (g : Graph) (q : Request) : List ArgSketch × Option (List String) :=
  (q.args, q.body.map fun b => bodyLines g b.1 b.2)

/-- A payload adds the same text to requests with the same text. -/
theorem Request.text_add {g h : Graph} {q q' : Request} {p p' : Nat} {kind : Kind} {name : String}
    (texts : q.text g = q'.text h)
    (lines : kind.tag = .body → ∀ arg, bodyLines g p arg = bodyLines h p' arg) :
    (q.add p name kind).text g = (q'.add p' name kind).text h := by
  obtain ⟨args, body⟩ := Prod.mk.inj texts
  cases kind with
  | param location required =>
    rw [Request.add, Request.add, Request.text, Request.text, args, body]
  | body required =>
    rw [Request.add, Request.add, Request.text, Request.text, args]
    exact congrArg (fun lines => (_, some lines)) (lines rfl _)
  | _ => exact texts

/-- Payloads at one site that were visited, with all that they send. -/
structure Run.Alike (r s : Run) (c c' : Collection) (p p' : Nat) : Prop where
  site : r.graph.site p = s.graph.site p'
  done : p < r.graph.size ∧ (r.graph.node p).visited = true
  done' : p' < s.graph.size ∧ (s.graph.node p').visited = true
  sent : ∀ i ∈ r.graph.schemaOf p, r.Sent c i
  sent' : ∀ i ∈ s.graph.schemaOf p', s.Sent c' i

/-- The operation and its payloads were visited, and all that is sent was built. -/
structure Run.Serves (r : Run) (c : Collection) (o : Nat) : Prop where
  inside : o < r.graph.size
  visited : (r.graph.node o).visited = true
  tended : ∀ p ∈ (r.graph.node o).children, (r.graph.node p).visited = true
  sent : ∀ i ∈ r.graph.schemasOf o, r.Sent c i

namespace Run.Full

variable (full : r.Full d) (full' : s.Full d)

include full full'

section Payload

variable {p p' : Nat} (alike : r.Alike s c c' p p')

include alike

theorem schemaOf_twin : (r.graph.schemaOf p).map r.graph.site =
    (s.graph.schemaOf p').map s.graph.site := by
  have below := full.children full' alike.site alike.done.1 alike.done'.1 alike.done.2 alike.done'.2
  have first : ∀ (g : Graph) (l : List Nat),
      l.head?.toList.map g.site = (l.map g.site).head?.toList := fun g l => by cases l <;> rfl
  rw [Graph.schemaOf, Graph.schemaOf, Graph.kind_of_site alike.site Kind.tag fun _ _ => rfl]
  split
  · rw [first, first]
    exact congrArg (fun l => l.head?.toList) below
  · rfl

theorem bodyLines_twin (body : (r.graph.node p).kind.tag = .body) (arg : String) :
    bodyLines r.graph p arg = bodyLines s.graph p' arg := by
  have schemas := full.schemaOf_twin full' alike
  have sent := alike.sent
  have sent' := alike.sent'
  have body' := (Graph.kind_of_site alike.site Kind.tag fun _ _ => rfl).symm.trans body
  rw [Graph.schemaOf, if_pos (by rw [body]; rfl)] at schemas sent
  rw [Graph.schemaOf, if_pos (by rw [body']; rfl)] at schemas sent'
  cases children : (r.graph.node p).children with
  | nil =>
    rw [children] at schemas
    cases children' : (s.graph.node p').children with
    | nil => rw [bodyLines, bodyLines, children, children']
    | cons =>
      rw [children'] at schemas
      cases schemas
  | cons schema rest =>
    rw [children] at schemas sent
    cases children' : (s.graph.node p').children with
    | nil =>
      rw [children'] at schemas
      cases schemas
    | cons schema' rest' =>
      rw [children'] at schemas sent'
      have twins : r.graph.site schema = s.graph.site schema' := (List.cons.inj schemas).1
      have sent := sent schema (List.mem_singleton_self schema)
      have sent' := sent' schema' (List.mem_singleton_self schema')
      rw [bodyLines_of_schema arg children, bodyLines_of_schema arg children',
        ← Graph.kind_of_site (full.element full' twins sent sent') Kind.isStructured fun _ _ => rfl]
      split
      · next structured => rw [full.entries_twin full' twins sent sent' structured]
      · rfl

/-- Payloads that are twins add the same to a request. -/
theorem addPayload_twin {q q' : Request} (texts : q.text r.graph = q'.text s.graph) :
    (r.graph.addPayload q p).text r.graph = (s.graph.addPayload q' p').text s.graph := by
  have lines := full.bodyLines_twin full' alike
  rw [Graph.addPayload, Graph.addPayload, ← Graph.name_of_site alike.site,
    ← Graph.kind_of_site alike.site (fun kind => (q'.add p' _ kind).text s.graph) fun _ _ => rfl]
  exact Request.text_add texts lines

end Payload

section Operation

variable {o o' : Nat} (same : r.graph.site o = s.graph.site o') (serves : r.Serves c o)
  (serves' : s.Serves c' o')

include same serves serves'

/-- The payloads of twins are twins, one by one. -/
theorem payload_twins : List.Forall₂ (r.Alike s c c') (r.graph.node o).children
    (s.graph.node o').children := by
  refine forall₂_of_map_eq (full.children full' same serves.inside serves'.inside serves.visited
    serves'.visited) fun p child p' child' twins => ⟨twins,
      ⟨(full.sound.below child).2, serves.tended p child⟩,
      ⟨(full'.sound.below child').2, serves'.tended p' child'⟩, ?_, ?_⟩
  · exact fun i mem => serves.sent i (List.mem_flatMap.mpr ⟨p, child, mem⟩)
  · exact fun i mem => serves'.sent i (List.mem_flatMap.mpr ⟨p', child', mem⟩)

/-- Operations that are twins ask for the same inputs. -/
theorem askedOf_twin : (r.graph.schemasOf o).flatMap r.graph.asked =
    (s.graph.schemasOf o').flatMap s.graph.asked := by
  rw [Graph.schemasOf, Graph.schemasOf, List.flatMap_assoc, List.flatMap_assoc]
  refine congrArg List.flatten (map_eq_of_forall₂ ((full.payload_twins full' same serves
    serves').imp fun p p' alike => ?_))
  exact congrArg List.flatten (map_eq_of_map_eq (full.schemaOf_twin full' alike)
    fun i mem j mem' same => full.asked_twin full' same (alike.sent i mem) (alike.sent' j mem'))

/-- Operations that are twins have the same requests. -/
theorem request_twin : (r.graph.request o).text r.graph = (s.graph.request o').text s.graph := by
  have steps := List.rel_foldl (P := fun q q' : Request => q.text r.graph = q'.text s.graph)
    (R := r.Alike s c c') fun q q' texts p p' alike => full.addPayload_twin full' alike texts
  exact steps rfl (full.payload_twins full' same serves serves')

end Operation

/-- The requests of operations that are twins, and the inputs that they ask for. -/
theorem requests_twin {l l' : List Nat} (same : l.map r.graph.site = l'.map s.graph.site)
    (serves : ∀ o ∈ l, r.Serves c o) (serves' : ∀ o ∈ l', s.Serves c' o) :
    (l.map fun o => (r.graph.request o).text r.graph) =
        (l'.map fun o => (s.graph.request o).text s.graph) ∧
      (l.flatMap r.graph.schemasOf).flatMap r.graph.asked =
        (l'.flatMap s.graph.schemasOf).flatMap s.graph.asked := by
  constructor
  · exact map_eq_of_map_eq same fun o mem o' mem' same =>
      full.request_twin full' same (serves o mem) (serves' o' mem')
  · rw [List.flatMap_assoc, List.flatMap_assoc]
    exact congrArg List.flatten (map_eq_of_map_eq same fun o mem o' mem' same =>
      full.askedOf_twin full' same (serves o mem) (serves' o' mem'))

end Run.Full

/-! ## Selections -/

namespace Graph

theorem ofDocument_filled (d : Document) : (ofDocument d).Filled := by
  intro o object
  have inside : o < (ofDocument d).size := lt_size_of_ne fun nowhere => by
    rw [nowhere] at object
    cases object
  rw [(unvisited_ofDocument d o inside).1] at object
  cases object

/-- Schemas of arguments stand in them. -/
theorem inArguments_of_mem_schemasOf {g : Graph} {o : Nat} (sound : g.Sound)
    (mem : i ∈ g.schemasOf o) : g.inArguments i = true := by
  obtain ⟨p, -, first⟩ := List.mem_flatMap.mp mem
  rw [schemaOf] at first
  split at first
  · next payload =>
    have child : i ∈ (g.node p).children :=
      List.mem_of_head? (Option.mem_toList.mp first)
    have sent : ((g.node p).kind.tag == .param || (g.node p).kind.tag == .body) = true := by
      cases kind : (g.node p).kind <;> rw [kind] at payload <;> first | rfl | cases payload
    rw [inArguments, sound.ancestors_of_child child, List.any_cons, sent, Bool.true_or]
  · cases first

@[simp]
theorem inArguments_ofDocument (d : Document) (i : Nat) : (ofDocument d).inArguments i = false := by
  rw [inArguments, ancestors_of_root]
  · rfl
  · cases parent : ((ofDocument d).node i).parent with
    | none => rfl
    | some p =>
      have child := (ofDocument_forest d).child parent
      rw [children_ofDocument] at child
      cases child

end Graph

theorem Run.ofDocument_plain (d : Document) : (Run.ofDocument d).Plain where
  apart _ inside := absurd inside (Bool.eq_false_iff.mp (Graph.inArguments_ofDocument d _))
  whole _ _ inside := absurd inside (Bool.eq_false_iff.mp (Graph.inArguments_ofDocument d _))

namespace Build

variable {selections : List String} {settings : Settings} {text : String} {u : Run}

/-- A draft for what was selected at first. -/
structure Opening (d : Document) (c : Collection) (t : Draft)
    (ops : List OperationDecl) : Prop where
  steady : t.run.Steady d
  full : t.run.Full d
  serves : ∀ o ∈ c.operations, t.run.Serves c o
  nodes : ops.map OperationDecl.node = c.operations
  ordered : ∃ chosen, c.operations = (Graph.ofDocument d).roots.filter chosen
  requests : ∀ o ∈ ops, o.request = t.run.graph.request o.node
  inputs : t.inputs = ((c.operations.flatMap t.run.graph.schemasOf).flatMap t.run.graph.asked).foldl
    Inputs.enter []

theorem opening (collected : Ends (collect d selections) (.ofDocument d) c r)
    (generated : Ends (generate d c settings) r text u) (unmarked : d.IsUnmarked) : ∃ t ops,
    text = Text.trimEnd (Text.join "\n" (schemaLines d c settings t ops)) ++ "\n" ∧
      Ends (draft d c) r (t, ops) u ∧ Opening d c t ops := by
  obtain ⟨t, ops, drafted, written⟩ := ends_generate generated
  refine ⟨t, ops, written, drafted, ?_⟩
  have session : Session d r c := .collect selections .start collected
  have ready := session.ready
  have after := ready.draft drafted
  obtain ⟨rfl, -⟩ := ready.generated drafted
  obtain ⟨s, visits, rfl, -⟩ := collect_sound collected (Graph.ofDocument_sound d)
    (Graph.ofDocument_rooted d)
  have ordered : ∃ chosen, c.operations = (Graph.ofDocument d).roots.filter chosen := by
    obtain ⟨c₀, s', -, rfl, same⟩ := ends_collect.mp collected
    refine ⟨c₀.operations.contains, ?_⟩
    rw [Collection.inRootOrder, show s'.graph = s.graph from (congrArg Run.graph same).symm,
      visits.grows.roots]
    rfl
  have fit : (Draft.start (s.setFilter (PathFilter.ofPaths c.paths))).Fit d :=
    ⟨ready.sound, ready.derived,
      ((Run.ofDocument_plain d).visits visits (Graph.ofDocument_sound d)).same rfl,
      fun decl none => absurd none List.not_mem_nil⟩
  have requested := draft_requested drafted unmarked fit ready.served
    fun j mem => (ready.collected.containers j mem).2
  have first : Ends ((Call.collect selections).step d) (.ofDocument d) () _ :=
    Ends.discard_iff.mpr ⟨c, collected⟩
  have second : Ends ((Call.generate c settings).step d) _ () t.run :=
    Ends.discard_iff.mpr ⟨text, generated⟩
  have answered : t.run.Answered d := .call _ (.call _ .start first) second
  have nodes := draft_order drafted
  have filled : t.run.graph.Filled := fun _ =>
    requested.grows.run.filled (visits.filled (Graph.ofDocument_filled d _))
  have full : t.run.Full d := ⟨answered.tidy, after.sound, filled, requested.records.fit.plain⟩
  refine ⟨answered.steady, full, fun o mem => ?_, nodes, ordered, requested.requests, ?_⟩
  · obtain ⟨x, mem', rfl⟩ := List.mem_map.mp (nodes ▸ mem)
    obtain ⟨visited, tag⟩ := requested.visited x mem'
    refine ⟨Graph.lt_size_of_ne fun nowhere => ?_, visited, (after.served x.node tag visited).1,
      fun i schema => ⟨?_, Graph.inArguments_of_mem_schemasOf full.sound schema⟩⟩
    · rw [nowhere] at tag
      cases tag
    · exact requested.records.explored i
        (List.mem_flatMap.mpr ⟨x.node, List.mem_map_of_mem mem', schema⟩)
  · rw [← nodes]
    exact requested.records.inputs

/-- Operations that were selected in part by both have the same order in both. -/
theorem Opening.operations_eq {t t' : Draft} {ops ops' : List OperationDecl}
    (first : Opening d c t ops) (second : Opening d c' t' ops')
    (same : ∀ o, o ∈ c.operations ↔ o ∈ c'.operations) : c.operations = c'.operations := by
  obtain ⟨chosen, operations⟩ := first.ordered
  obtain ⟨chosen', operations'⟩ := second.ordered
  rw [operations, operations'] at same ⊢
  refine List.filter_congr fun o root => Bool.eq_iff_iff.mpr ?_
  have both := same o
  rwa [List.mem_filter, List.mem_filter, and_iff_right root, and_iff_right root] at both

end Build

/-- What an operation takes: the names of the arguments, where they are sent and whether they are
required, and the mapping of the body. -/
def OperationDecl.taking (g : Graph) (o : OperationDecl) :
    List ArgSketch × Option (List String) :=
  (o.args.map ArgDecl.sketch, o.body.map fun b => bodyLines g b.1 b.2)

/-- The selection is no matter for what is sent: where the same operations are selected from, they
take the same arguments and bodies, and the same inputs are declared with the same fields. -/
theorem Build.requests_independent {selections selections' : List String}
    {settings settings' : Settings} {text text' : String} {u u' : Run} (unmarked : d.IsUnmarked)
    (collected : Ends (collect d selections) (.ofDocument d) c r)
    (collected' : Ends (collect d selections') (.ofDocument d) c' s)
    (operations : ∀ o, o ∈ c.operations ↔ o ∈ c'.operations)
    (generated : Ends (generate d c settings) r text u)
    (generated' : Ends (generate d c' settings') s text' u') : ∃ t ops t' ops',
    text = Text.trimEnd (Text.join "\n" (schemaLines d c settings t ops)) ++ "\n" ∧
    text' = Text.trimEnd (Text.join "\n" (schemaLines d c' settings' t' ops')) ++ "\n" ∧
    Ends (draft d c) r (t, ops) u ∧ Ends (draft d c') s (t', ops') u' ∧
    ops.map OperationDecl.node = ops'.map OperationDecl.node ∧
    ops.map (OperationDecl.taking t.run.graph) = ops'.map (OperationDecl.taking t'.run.graph) ∧
    t.inputs = t'.inputs := by
  obtain ⟨t, ops, written, drafted, first⟩ := opening collected generated unmarked
  obtain ⟨t', ops', written', drafted', second⟩ := opening collected' generated' unmarked
  have same := first.operations_eq second operations
  have sites : c.operations.map t.run.graph.site = c'.operations.map t'.run.graph.site := by
    obtain ⟨chosen, filtered⟩ := first.ordered
    have roots := first.steady.sites_roots.trans second.steady.sites_roots.symm
    rw [first.steady.grown.roots, second.steady.grown.roots] at roots
    rw [← same]
    refine List.map_congr_left fun o mem => ?_
    rw [filtered] at mem
    exact List.map_inj_left.mp roots o (List.mem_filter.mp mem).1
  have taking : ∀ {c t ops}, Opening d c t ops → ops.map (OperationDecl.taking t.run.graph) =
      c.operations.map fun o => (t.run.graph.request o).text t.run.graph :=
      fun {c t ops} opening => by
    rw [← opening.nodes, List.map_map]
    refine List.map_congr_left fun o mem => ?_
    rw [Function.comp_apply, ← opening.requests o mem]
    rfl
  obtain ⟨requests, asked⟩ :=
    first.full.requests_twin second.full sites first.serves second.serves
  refine ⟨t, ops, t', ops', written, written', drafted, drafted', ?_, ?_, ?_⟩
  · rw [first.nodes, second.nodes, same]
  · rw [taking first, taking second, requests]
  · rw [first.inputs, second.inputs, asked]

/-- What is sent extends a component that is also among what is received. -/
def Document.extended : Document :=
  .exchange (.allOfSchema [.refSchema "Base", .objectSchema [("z", .typeSchema "string")]])
    (.objectSchema [("x", .typeSchema "string"), ("base", .refSchema "Base")])
    [("Base", .objectSchema [("y", .typeSchema "string")])]

/-- One field of the response, or all of them: the input has two fields either way. -/
theorem extended_independent : Document.extended.IsUnmarked ∧ ∃ c c' r s u u' text text',
    Ends (Build.collect .extended ["post:/a>res:200>obj:[aResponse]>prop:scalar:x"])
      (.ofDocument .extended) c r ∧
    Ends (Build.collect .extended ["post:/a>res:200>**"]) (.ofDocument .extended) c' s ∧
    (∀ o, o ∈ c.operations ↔ o ∈ c'.operations) ∧ c.paths.length = 1 ∧ c'.paths.length = 2 ∧
    Ends (Build.generate .extended c .default) r text u ∧
    Ends (Build.generate .extended c' .default) s text' u' ∧
    ∃ t ops t' ops',
      text = Text.trimEnd (Text.join "\n" (schemaLines .extended c .default t ops)) ++ "\n" ∧
      text' = Text.trimEnd (Text.join "\n" (schemaLines .extended c' .default t' ops')) ++ "\n" ∧
      Ends (Build.draft .extended c) r (t, ops) u ∧
        Ends (Build.draft .extended c') s (t', ops') u' ∧
      ops.map OperationDecl.node = ops'.map OperationDecl.node ∧
      ops.map (OperationDecl.taking t.run.graph) = ops'.map (OperationDecl.taking t'.run.graph) ∧
      t.inputs = t'.inputs := by
  have unmarked : Document.extended.IsUnmarked := by decide +kernel
  have one : Ends.passes (Build.collect .extended ["post:/a>res:200>obj:[aResponse]>prop:scalar:x"])
      (.ofDocument .extended) (fun c r => decide (c.operations = [0] ∧ c.paths.length = 1) &&
        Ends.passes (Build.generate .extended c .default) r fun _ _ => true) = true := by
    decide +kernel
  have all : Ends.passes (Build.collect .extended ["post:/a>res:200>**"])
      (.ofDocument .extended) (fun c r => decide (c.operations = [0] ∧ c.paths.length = 2) &&
        Ends.passes (Build.generate .extended c .default) r fun _ _ => true) = true := by
    decide +kernel
  obtain ⟨c, r, collected, facts⟩ := Ends.of_passes one
  obtain ⟨c', s, collected', facts'⟩ := Ends.of_passes all
  obtain ⟨chosen, generates⟩ := Bool.and_eq_true_iff.mp facts
  obtain ⟨chosen', generates'⟩ := Bool.and_eq_true_iff.mp facts'
  obtain ⟨operations, paths⟩ := of_decide_eq_true chosen
  obtain ⟨operations', paths'⟩ := of_decide_eq_true chosen'
  obtain ⟨text, u, generated, -⟩ := Ends.of_passes generates
  obtain ⟨text', u', generated', -⟩ := Ends.of_passes generates'
  have same : ∀ o, o ∈ c.operations ↔ o ∈ c'.operations := fun o => by rw [operations, operations']
  exact ⟨unmarked, c, c', r, s, u, u', text, text', collected, collected', same, paths, paths',
    generated, generated', Build.requests_independent unmarked collected collected' same generated
      generated'⟩

end RestGraph
