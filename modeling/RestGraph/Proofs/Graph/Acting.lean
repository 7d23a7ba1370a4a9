import RestGraph.Proofs.Graph.Changes

/-!
# Acting

What building a node and visiting one are put together from: they attach nodes below nodes that may
be worked on, and of those that were there before they change only such nodes. A property that is
made adds itself to its owner and changes nothing else that was there.
-/

namespace RestGraph

variable {d : Document} {r s : Run} {p i o : Nat} {x : Seed} {name : String} {schema : Json}
  {required : Bool}

/-- The owner has got one more child, a property; all else that was there is as it was. -/
structure Graph.Adopts (g : Graph) (o : Nat) (name : String) (i : Nat) (h : Graph) : Prop where
  new : g.size ≤ i ∧ i < h.size
  prop : (h.node i).isProperty = true ∧ (h.node i).name = name ∧ (h.node i).parent = some o
  owner : h.node o = { g.node o with children := (g.node o).children ++ [i] }
  others : ∀ j < g.size, j ≠ o → h.node j = g.node j

namespace Build

variable {free fresh : Nat → Prop}

/-! ## Nodes from fragments -/

/-- A note adds nothing that stands in for something else. -/
theorem note_adds {f : Run → Run} (notes : r.Notes (f r)) :
    Along (Run.Adds free) (modify f : Build PUnit) r := .modify (.single (.note notes))

theorem attach_adds (may : free p) (solid : x.kind.standsIn? = none)
    (plain : x.kind.pointer? = none) : Along (Run.Adds free) (attach p x) r :=
  Along.get.bind fun _ _ => Along.bind (.modify (.single (.attach may solid plain)))
    fun _ _ => .pure _

theorem attachChecked_adds (may : free p) (solid : x.kind.standsIn? = none) :
    Along (Run.Adds free) (attachChecked p x) r := by
  refine along_graph.bind fun h _ => ?_
  obtain ⟨rfl, rfl⟩ := ends_graph.mp h
  split
  · exact .single (.standIn may rfl)
  · cases kind : x.kind with
    | reference pointer => exact .single (.refer may kind)
    | _ => exact (Along.pure _).bind fun _ _ => attach_adds may solid (by rw [kind]; rfl)

theorem attachPlaceholder_adds (may : free p) : Along (Run.Adds free) (attachPlaceholder p) r :=
  .single (.standIn may rfl)

theorem settle_adds {element : Nat → Json → Build Nat} {schema : Json} (may : free i)
    (ahead : r.Ahead free fresh)
    (each : ∀ {p j r}, free p → r.Ahead free fresh → Along (Run.Adds free) (element p j) r) :
    Along (Run.Adds free) (settle element p i schema) r := by
  have filled : ∀ {k : Kind} {r : Run}, r.Ahead free fresh →
      Along (Run.Adds free) (fillArray element i schema k) r := by
    intro k r ahead
    unfold fillArray
    split
    · split
      · exact (each may ahead).discard
      · exact (attachPlaceholder_adds may).discard
    · exact .pure _
  have registered : ∀ {name r},
      Along (Run.Adds free) (modify (Run.register i name) : Build PUnit) r :=
    note_adds { Run.Notes.refl _ with }
  unfold settle
  refine along_node.bind fun h _ => along_node.bind fun h' _ => ?_
  obtain ⟨rfl, rfl⟩ := ends_node.mp h
  obtain ⟨rfl, rfl⟩ := ends_node.mp h'
  dsimp only
  split
  · exact filled ahead
  · exact registered.bind fun _ adds => filled (adds.works.ahead ahead)
  · exact filled ahead

/-- A node made for a shape stands in for nothing. -/
theorem Kind.solid_of_shape {shape : Shape} {kind : Kind} (made : kindOfShape? shape = some kind) :
    kind.standsIn? = none := by
  unfold kindOfShape? at made
  split at made <;> cases made <;> rfl

/-- A property stands in for nothing. -/
@[simp] theorem Kind.solid_property (shape : Shape) (required : Bool) :
    (Kind.property (propShapeOf shape) required).standsIn? = none := by
  unfold propShapeOf
  split <;> rfl

theorem fromSchemaWithin_adds {depth : Nat} {schema : Json} (may : free p)
    (ahead : r.Ahead free fresh) : Along (Run.Adds free) (fromSchemaWithin depth p schema) r := by
  induction depth generalizing p schema r with
  | zero => exact .throw _
  | succ depth ih =>
    refine along_node.bind fun h _ => ?_
    obtain ⟨rfl, rfl⟩ := ends_node.mp h
    dsimp only
    split
    · exact attachChecked_adds may rfl
    · split
      · exact along_pathOf.bind fun _ _ => .throw _
      · next made =>
        refine (attachChecked_adds may (Kind.solid_of_shape made)).bind fun h adds => ?_
        obtain ⟨rfl, -⟩ := ends_attachChecked h
        exact (settle_adds (ahead.next le_rfl) (adds.works.ahead ahead) ih).bind fun _ _ => .pure _

theorem fromSchema_adds {schema : Json} (may : free p) (ahead : r.Ahead free fresh) :
    Along (Run.Adds free) (fromSchema p schema) r := fromSchemaWithin_adds may ahead

/-! ## Properties -/

theorem circularElement_adds {ancestor : Nat} (may : free p) (ahead : r.Ahead free fresh) :
    Along (Run.Adds free) (circularElement p name schema ancestor) r := by
  -- the warning is that of the second node, so it is as good as given after the first
  have first : r.Addition free (r.onGraph fun g => g.attach p
      { kind := .property .circular false, name, discriminant := name,
        scope := (r.graph.node p).scope ++ "[]", schema }) := .attach may rfl rfl
  exact .tail (.single first) (.standIn (ahead.next le_rfl) rfl)

theorem placeholderElement_adds (may : free p) :
    Along (Run.Adds free) (placeholderElement p name) r := .single (.standIn may rfl)

theorem wrapSchema_acts {shape : PropShape} (may : free p) (new : fresh p)
    (ahead : r.Ahead free fresh)
    (inside : p < r.graph.size) (kind : (r.graph.node p).kind = .property shape required)
    (wraps : shape.isWrapper = true) : Along (Run.Acts free fresh)
    (wrapSchema p schema required) r := by
  refine Along.bind (Run.Adds.acts (fromSchema_adds may ahead)) fun h _ =>
    along_node.bind fun h' _ => ?_
  obtain ⟨-, rfl⟩ := ends_node.mp h'
  have adds : Run.Adds free r _ := (fromSchema_adds may ahead).ends h
  split
  · exact .single (.turn new ((adds.kind inside).trans kind) wraps)
  · exact .pure _

theorem propWithin_acts {depth : Nat} {followed : List (String × Nat)} (may : free p)
    (ahead : r.Ahead free fresh) :
    Along (Run.Acts free fresh) (propWithin d depth p name schema required followed) r := by
  induction depth generalizing p schema required followed r with
  | zero => exact .throw _
  | succ depth ih =>
    rw [propWithin]
    split
    · exact Run.Adds.acts (circularElement_adds may ahead)
    · refine along_node.bind fun h _ => along_decisive.bind fun h' _ => ?_
      obtain ⟨rfl, rfl⟩ := ends_node.mp h
      obtain ⟨-, rfl⟩ := ends_decisive h'
      dsimp only
      refine Along.bind (Run.Adds.acts (attach_adds may (Kind.solid_property _ _) rfl))
        fun {prop u} h acts => ?_
      obtain ⟨rfl, rfl⟩ := ends_attach.mp h
      have ahead' := acts.works.ahead ahead
      have wrapped : ∀ {shape}, shape = propShapeOf (Shape.ofSchema _) → shape.isWrapper = true →
          Along (Run.Acts free fresh) (wrapSchema r.graph.size schema required) _ :=
          fun same wraps =>
        wrapSchema_acts (ahead.next le_rfl) (ahead.beyond le_rfl) ahead' Graph.lt_size_attach
          ((Graph.kind_attach _).trans
            ((if_pos rfl).trans (same ▸ rfl))) wraps
      split
      · exact .pure _
      · exact .pure _
      · split
        · exact (ih (ahead.next le_rfl) ahead').discard.bind fun _ _ => .pure _
        · exact Along.bind (Run.Adds.acts (placeholderElement_adds (ahead.next le_rfl)))
            fun _ _ => .pure _
      all_goals
        next same => exact (wrapped same.symm rfl).bind fun _ _ => .pure _

theorem fromProp_acts (may : free p) (ahead : r.Ahead free fresh) :
    Along (Run.Acts free fresh) (fromProp d p name schema required) r :=
  Along.get.bind fun h _ => by
    obtain ⟨rfl, rfl⟩ := Ends.get_iff.mp h
    exact propWithin_acts may ahead

/-! ## What is adopted -/

/-- What is worked on after a property is attached is the property itself, and what comes below. -/
theorem adopts_of_attached {u : Run} {seed : Seed} (inside : o < r.graph.size)
    (graph : u.graph = r.graph.attach o seed) (prop : seed.kind.isProperty = true)
    (named : seed.name = name) (grown : u.graph.Extends s.graph)
    (spared : ∀ j < r.graph.size, s.graph.node j = u.graph.node j) :
    r.graph.Adopts o name r.graph.size s.graph := by
  have new : u.graph.node r.graph.size = r.graph.sprout (some o) seed := by
    simp [graph, inside]
  have below : r.graph.size < u.graph.size := by
    rw [graph, Graph.size_attach]
    exact Nat.lt_succ_self _
  have keeps := grown.keeps below
  refine ⟨⟨le_rfl, below.trans_le grown.size_le⟩, ⟨?_, ?_, ?_⟩, ?_, fun j lt other => ?_⟩
  · rw [Node.isProperty, keeps.kind.isProperty, new]
    exact prop
  · rw [keeps.name, new]
    exact named
  · rw [keeps.parent, new]
    rfl
  · rw [spared o inside, graph, Graph.node_attach_of_lt inside, if_pos rfl]
  · rw [spared j lt, graph, Graph.node_attach_of_lt lt, if_neg other]

/-- The element that closes a cycle is adopted under its name. -/
theorem circularElement_adopts {ancestor : Nat}
    (h : Ends (circularElement o name schema ancestor) r i s) (inside : o < r.graph.size) :
    r.graph.Adopts o name i s.graph := by
  unfold circularElement at h
  simp only [Ends.bind_iff, ends_graph, ends_warn, Ends.discard_iff, ends_attach,
    Ends.pure_iff] at h
  obtain ⟨_, _, ⟨rfl, rfl⟩, _, _, rfl, _, u, ⟨rfl, same⟩, _, _, ⟨_, -, rfl⟩, rfl, rfl⟩ := h
  have graph : u.graph = r.graph.attach o _ := congrArg Run.graph same.symm
  refine adopts_of_attached inside graph rfl rfl .attach fun j lt => ?_
  have old : j < u.graph.size := by
    rw [graph, Graph.size_attach]
    exact Nat.lt_succ_of_lt lt
  exact Graph.node_attach_of_ne (Nat.ne_of_lt lt) (Nat.ne_of_lt old)

/-- A property is adopted under its name. -/
theorem propWithin_adopts {depth : Nat} {followed : List (String × Nat)}
    (h : Ends (propWithin d depth o name schema required followed) r i s)
    (inside : o < r.graph.size) : r.graph.Adopts o name i s.graph := by
  have may : r.graph.size ≤ r.graph.size := le_rfl
  cases depth with
  | zero => cases h
  | succ depth =>
    rw [propWithin] at h
    split at h
    · exact circularElement_adopts h inside
    · simp only [Ends.bind_iff, ends_node] at h
      obtain ⟨_, _, ⟨rfl, rfl⟩, fragment, _, decided, prop, u, attached, h⟩ := h
      obtain ⟨-, rfl⟩ := ends_decisive decided
      obtain ⟨rfl, same⟩ := ends_attach.mp attached
      obtain ⟨seed, named, kind, graph⟩ : ∃ seed : Seed, seed.name = name ∧
          seed.kind = .property (propShapeOf (Shape.ofSchema fragment)) required ∧
          u.graph = r.graph.attach o seed := ⟨_, rfl, rfl, congrArg Run.graph same.symm⟩
      have below : r.graph.size < u.graph.size := graph ▸ Graph.lt_size_attach
      have ahead : u.Ahead (r.graph.size ≤ ·) (r.graph.size ≤ ·) :=
        ⟨fun _ le => below.le.trans le, fun _ le => below.le.trans le⟩
      have here : ∀ {shape}, propShapeOf (Shape.ofSchema fragment) = shape →
          (u.graph.node r.graph.size).kind = .property shape required := fun same => by
        simp [graph, inside, kind, same]
      obtain ⟨acts, rfl⟩ : u.Acts (r.graph.size ≤ ·) (r.graph.size ≤ ·) s ∧ r.graph.size = i := by
        split at h
        case h_3 =>
          split at h
          · obtain ⟨_, _, inner, last⟩ := Ends.bind_iff.mp h
            obtain ⟨rfl, rfl⟩ := Ends.pure_iff.mp last
            obtain ⟨_, inner⟩ := Ends.discard_iff.mp inner
            exact ⟨(propWithin_acts may ahead).ends inner, rfl⟩
          · obtain ⟨_, _, inner, last⟩ := Ends.bind_iff.mp h
            obtain ⟨rfl, rfl⟩ := Ends.pure_iff.mp last
            exact ⟨Run.Adds.acts ((placeholderElement_adds may).ends inner), rfl⟩
        case h_1 | h_2 =>
          obtain ⟨rfl, rfl⟩ := Ends.pure_iff.mp h
          exact ⟨.refl, rfl⟩
        all_goals
          next shape =>
          obtain ⟨_, _, inner, last⟩ := Ends.bind_iff.mp h
          obtain ⟨rfl, rfl⟩ := Ends.pure_iff.mp last
          exact ⟨(wrapSchema_acts may may ahead below (here shape) rfl).ends inner, rfl⟩
      refine adopts_of_attached inside graph (kind ▸ rfl) named acts.extends fun j lt => ?_
      exact acts.spares (lt.trans below) (Nat.not_le.mpr lt) (Nat.not_le.mpr lt)

/-! ## Visits -/

theorem visitObject_acts (inside : i < r.graph.size) (object : (r.graph.node i).kind.tag = .object)
    (may : free i) (frees : r.Frees free fresh) :
    Along (Run.Acts free fresh) (visitObject d i) r := by
  refine along_node.bind fun h acts => .forM fun _ later => ?_
  obtain ⟨-, rfl⟩ := ends_node.mp h
  have frees' := Run.Acts.frees (acts.trans later) frees
  have inside' := inside.trans_le (Run.Acts.extends later).size_le
  have keeps := (Run.Acts.extends later).keeps inside
  refine (fromProp_acts may frees'.ahead).bind fun h more => .single ?_
  obtain ⟨_, _, got, h⟩ := Ends.bind_iff.mp h
  obtain ⟨rfl, rfl⟩ := Ends.get_iff.mp got
  have adopts := propWithin_adopts h inside'
  refine .field may ?_ ?_ adopts.prop.1 adopts.prop.2.1
  · rw [((Run.Acts.extends more).keeps inside').kind.tag, keeps.kind.tag, object]
  · rw [adopts.owner]
    exact List.mem_append_right _ (List.mem_singleton_self _)

section Kinds

variable {visitChild : Nat → Build Unit}
  (visits : ∀ {i r}, r.Frees free fresh → Along (Run.Acts free fresh) (visitChild i) r)

include visits

theorem attachPart_acts (may : free p) (frees : r.Frees free fresh)
    (solid : x.kind.standsIn? = none) (plain : x.kind.pointer? = none) :
    Along (Run.Acts free fresh) (do visitChild (← attach p x)) r :=
  Along.bind (Run.Adds.acts (attach_adds may solid plain)) fun _ acts =>
    visits (acts.frees frees)

theorem visitParameter_acts {operation : String} {param : Json} (may : free i)
    (frees : r.Frees free fresh) :
    Along (Run.Acts free fresh) (visitParameter visitChild i operation param) r := by
  unfold visitParameter
  dsimp only
  split
  · exact .pure _
  · exact attachPart_acts visits may frees rfl rfl

theorem visitRequest_acts {operation path : String} {raw : Json} (may : free i)
    (frees : r.Frees free fresh) :
    Along (Run.Acts free fresh) (visitRequest d visitChild i operation path raw) r := by
  refine along_deref.bind fun _ acts => ?_
  split
  · exact .pure _
  · exact attachPart_acts visits may (acts.frees frees) rfl rfl

theorem visitResponse_acts {operation path : String} {responses : Json} (may : free i)
    (frees : r.Frees free fresh) :
    Along (Run.Acts free fresh) (visitResponse d visitChild i operation path responses) r := by
  refine along_chosenResponse.bind fun {chosen u} _ acts => ?_
  have frees' := acts.frees frees
  cases chosen with
  | some x => exact attachPart_acts visits may frees' rfl rfl
  | none =>
    dsimp only [Option.getD_none]
    rw [← bind_assoc]
    exact Along.bind (Run.Adds.acts (.single (.standIn may rfl))) fun _ acts =>
      visits (acts.frees frees')

theorem enterSchema_acts (may : free i) (frees : r.Frees free fresh) :
    Along (Run.Acts free fresh) (enterSchema visitChild i schema) r :=
  Along.bind (Run.Adds.acts (fromSchema_adds may frees.ahead)) fun _ acts =>
    visits (acts.frees frees)

theorem visitOperation_acts {method : Method} {shared : List Json} (may : free i)
    (frees : r.Frees free fresh) :
    Along (Run.Acts free fresh) (visitOperation d visitChild i method shared) r := by
  have answered : ∀ {operation path responses u}, Run.Acts free fresh r u →
      Along (Run.Acts free fresh) (visitResponse d visitChild i operation path responses) u :=
      fun acts =>
    visitResponse_acts visits may (acts.frees frees)
  refine along_node.bind fun _ first => along_pathOf.bind fun _ second => ?_
  refine along_mergeParameters.bind fun _ third => ?_
  have before : Run.Acts free fresh r _ := first.trans (second.trans third)
  refine Along.bind (.forM fun _ acts => ?_) fun _ fourth => ?_
  · exact visitParameter_acts visits may (Run.Acts.frees (before.trans acts) frees)
  · have before : Run.Acts free fresh r _ := before.trans fourth
    split
    · split
      · exact (visitRequest_acts visits may (before.frees frees)).bind fun _ acts =>
          answered (before.trans acts)
      · exact answered before
    · exact answered before

theorem visitKind_acts {kind : Kind} (inside : i < r.graph.size)
    (here : (r.graph.node i).kind = kind) (may : free i) (frees : r.Frees free fresh) :
    Along (Run.Acts free fresh) (visitKind d visitChild i kind) r := by
  have branches : ∀ {keys}, Along (Run.Acts free fresh) (visitBranches visitChild i keys) r :=
    along_node.bind fun _ first => .forM fun _ acts =>
      enterSchema_acts visits may (Run.Acts.frees (first.trans acts) frees)
  have children : Along (Run.Acts free fresh) (visitChildren visitChild i) r :=
    along_node.bind fun _ first => .forM fun _ acts =>
      visits (Run.Acts.frees (first.trans acts) frees)
  have payload : Along (Run.Acts free fresh) (visitPayload visitChild i) r :=
    along_node.bind fun _ acts => enterSchema_acts visits may (acts.frees frees)
  cases kind with
  | operation => exact visitOperation_acts visits may frees
  | param =>
    exact along_node.bind fun _ acts => enterSchema_acts visits may (acts.frees frees)
  | body | response => exact payload
  | reference =>
    exact along_pathOf.bind fun _ first => Along.bind (.liftExcept _) fun _ second =>
      enterSchema_acts visits may (Run.Acts.frees (first.trans second) frees)
  | object => exact visitObject_acts inside (by rw [here]; rfl) may frees
  | composed | union => exact branches
  | array | property => exact children
  | scalar | enum | circular => exact .pure _

end Kinds

/-- A visit is made of acts, at any depth. -/
theorem visitWithin_acts {depth : Nat} (frees : r.Frees free fresh) :
    Along (Run.Acts free fresh) (visitWithin d depth i) r := by
  induction depth generalizing i r with
  | zero => exact .throw _
  | succ depth ih =>
    refine along_node.bind fun {_ u} h acts => ?_
    obtain ⟨rfl, rfl⟩ := ends_node.mp h
    split
    · exact .pure _
    · next idle =>
      have may : free i := frees.idle fun done => idle done.2
      have inside : i < r.graph.size := Graph.lt_size_of_not_visited (Bool.eq_false_iff.mpr idle)
      have mark : Along (Run.Acts free fresh)
          (modifyNode i fun n => { n with visited := true }) r :=
        .single (.mark may)
      refine mark.bind fun h acts => ?_
      obtain rfl := ends_modifyNode.mp h
      exact along_framed (visitKind_acts ih (Graph.size_modify.symm ▸ inside)
        (Graph.part_modify (f := fun n => { n with visited := true })
          Node.kind (fun _ => rfl) i) may
        (acts.frees frees).enter) .drop

/-- A visit works on nodes that were not visited before. -/
theorem visit_acts :
    Along (Run.Acts (fun i => ¬r.graph.IsDone i) fun i => r.graph.size ≤ i) (visit d i) r :=
  Along.get.bind fun h _ => by
    obtain ⟨rfl, rfl⟩ := Ends.get_iff.mp h
    exact visitWithin_acts ⟨fun _ idle => idle, fun _ le => le⟩

/-! ## All that a step does -/

/-- Building a schema is work, also where it fails. -/
theorem fromSchema_works : Along Run.Works (fromSchema p schema) r :=
  have adds : Along (Run.Adds fun _ => True) (fromSchema p schema) r :=
    fromSchema_adds trivial .all
  adds.works

/-- Building a property is work, also where it fails. -/
theorem fromProp_works : Along Run.Works (fromProp d p name schema required) r :=
  have acts : Along (Run.Acts (fun _ => True) fun _ => True)
      (fromProp d p name schema required) r :=
    fromProp_acts trivial .all
  acts.works

/-- A visit is work, also where it fails. -/
theorem visit_works : Along Run.Works (visit d i) r := Run.Acts.works visit_acts

/-- The mark of a visited node is set first, and stays whatever the outcome. -/
theorem isDone_visit (inside : i < r.graph.size) : ((visit d i).run r).2.graph.IsDone i := by
  by_cases visited : (r.graph.node i).visited = true
  · exact visit_works.isDone ⟨inside, visited⟩
  · let marked := r.onGraph fun g => g.modify i fun n => { n with visited := true }
    have done : marked.graph.IsDone i := by
      refine ⟨Graph.size_modify.symm ▸ inside, ?_⟩
      change ((r.graph.modify i _).node i).visited = true
      simp [inside]
    obtain ⟨depth, reach⟩ : ∃ depth, r.reach = depth + 1 := Nat.exists_eq_add_one.mpr r.reach_pos
    let kind := (r.graph.node i).kind
    have acts : Along (Run.Acts (fun _ => True) fun _ => True)
        (framed i kind.tag (visitKind d (visitWithin d depth) i kind)) marked :=
      along_framed (visitKind_acts visitWithin_acts done.1
        (Graph.part_modify (f := fun n => { n with visited := true }) Node.kind (fun _ => rfl) i)
        trivial .all) .drop
    rw [visit, Ends.run_bind_of_ends (Ends.get_iff.mpr ⟨rfl, rfl⟩), reach, visitWithin,
      Ends.run_bind_of_ends (ends_node.mpr ⟨rfl, rfl⟩), if_neg visited,
      Ends.run_bind_of_ends (show Ends _ r ⟨⟩ marked from ends_modifyNode.mpr rfl)]
    exact acts.works.isDone done

/-- A node that is visited is done. -/
theorem isDone_of_visit {u : Unit} (inside : i < r.graph.size) (h : Ends (visit d i) r u s) :
    s.graph.IsDone i := by
  have run : (visit d i).run r = (.ok u, s) := h
  have done := isDone_visit (d := d) inside
  rwa [run] at done

end Build

end RestGraph
