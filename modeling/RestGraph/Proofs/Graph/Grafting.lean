import RestGraph.Proofs.Document.Extent
import RestGraph.Proofs.Document.Following
import RestGraph.Proofs.Graph.Acting
import RestGraph.Proofs.Graph.Making

/-!
# Grafting

A property is attached whatever its fragment looks like: its shape is found before anything is made,
and what it wraps can then be made. It fails where a reference on the way through the elements of
the fragment has no target, and only there. Where it does not fail, nothing else changes that was
there.
-/

namespace RestGraph

variable {d : Document} {r s : Run} {p i o : Nat} {name : String} {schema fragment : Json}
  {required : Bool}

namespace Build

/-! ## Fragments that cannot fail -/

theorem eq_array_of_propShapeOf {shape : Shape} (same : propShapeOf shape = .array) :
    shape = .array := by
  cases shape with
  | array => rfl
  | object synthetic => cases synthetic <;> cases same
  | _ => cases same

theorem kind_of_isWrapper {shape : Shape} (wraps : (propShapeOf shape).isWrapper = true) :
    ∃ kind, kindOfShape? shape = some kind ∧ kind.isArray = false := by
  cases shape with
  | object synthetic => exact ⟨_, rfl, rfl⟩
  | composed | union | enum => exact ⟨_, rfl, rfl⟩
  | _ => cases wraps

theorem settle_ends {element : Nat → Json → Build Nat} (r : Run)
    (single : (r.graph.node i).kind.isArray = false) :
    ∃ s, Ends (settle element p i schema) r ⟨⟩ s ∧ s.graph = r.graph := by
  have stays : ∀ {s : Run}, Ends (fillArray element i schema (r.graph.node i).kind) s ⟨⟩ s := by
    intro s
    unfold fillArray
    split
    · next array =>
      rw [array] at single
      cases single
    · exact Ends.pure_iff.mpr ⟨rfl, rfl⟩
  have looked : ∀ {f : Node → Node → Build Unit},
      (∃ s, Ends (f (r.graph.node i) (r.graph.node p)) r ⟨⟩ s ∧ s.graph = r.graph) →
      ∃ s, Ends (node i >>= fun made => node p >>= fun parent => f made parent) r ⟨⟩ s ∧
        s.graph = r.graph := by
    rintro f ⟨s, h, graph⟩
    exact ⟨s, Ends.bind_iff.mpr ⟨_, r, ends_node.mpr ⟨rfl, rfl⟩, Ends.bind_iff.mpr
      ⟨_, r, ends_node.mpr ⟨rfl, rfl⟩, h⟩⟩, graph⟩
  unfold settle
  refine looked ?_
  dsimp only
  split
  · exact ⟨r, stays, rfl⟩
  · exact ⟨_, Ends.bind_iff.mpr ⟨⟨⟩, _, Ends.modify_iff.mpr rfl, stays⟩, rfl⟩
  · exact ⟨r, stays, rfl⟩

/-- A reference, and a fragment that is known to hold no element, is made at once. -/
theorem fromSchema_ends (inside : p < r.graph.size)
    (single : (∃ pointer, schema.ref? = some pointer) ∨
      ∃ kind, kindOfShape? (Shape.ofSchema schema) = some kind ∧ kind.isArray = false) :
    ∃ x s, (r.graph.node p).seedBelow? schema = some x ∧
      Ends (fromSchema p schema) r r.graph.size s ∧
      s.graph = r.graph.attach p (r.graph.checked p x) := by
  obtain ⟨depth, size⟩ : ∃ depth, schema.size = depth + 1 :=
    Nat.exists_eq_add_one.mpr schema.size_pos
  suffices ∃ x s, (r.graph.node p).seedBelow? schema = some x ∧
      Ends (fromSchemaWithin (depth + 1) p schema) r r.graph.size s ∧
      s.graph = r.graph.attach p (r.graph.checked p x) by rwa [fromSchema, size]
  have looked : ∀ {f : Node → Build Nat} {x s}, (r.graph.node p).seedBelow? schema = some x →
      Ends (f (r.graph.node p)) r r.graph.size s →
      s.graph = r.graph.attach p (r.graph.checked p x) →
      ∃ x s, (r.graph.node p).seedBelow? schema = some x ∧
        Ends (node p >>= f) r r.graph.size s ∧ s.graph = r.graph.attach p (r.graph.checked p x) :=
    fun {_ x s} made h graph =>
      ⟨x, s, made, Ends.bind_iff.mpr ⟨_, r, ends_node.mpr ⟨rfl, rfl⟩, h⟩, graph⟩
  rcases single with ⟨pointer, ref⟩ | ⟨kind, made, plain⟩
  · have shape := Shape.ofSchema_of_ref? ref
    let x : Seed := ⟨.reference pointer, componentName pointer, pointer,
      (ChildNames.below (r.graph.node p)).scope, schema⟩
    have seed : (r.graph.node p).seedBelow? schema = some x := by rw [Node.seedBelow?, shape]
    obtain ⟨s, h⟩ := attachChecked_ends r p x
    refine looked seed ?_ (ends_attachChecked h).2.1
    dsimp only
    rw [shape]
    exact h
  · have notRef : ∀ pointer, Shape.ofSchema schema ≠ .reference pointer := fun pointer shape => by
      rw [shape] at made
      cases made
    let x : Seed := ⟨kind, (ChildNames.below (r.graph.node p)).name,
      (ChildNames.below (r.graph.node p)).discriminant, (ChildNames.below (r.graph.node p)).scope,
      schema⟩
    have seed : (r.graph.node p).seedBelow? schema = some x := Node.seedBelow?_of_kind notRef made
    obtain ⟨s, h⟩ := attachChecked_ends r p x
    have stays : (s.graph.node r.graph.size).kind.isArray = false := by
      rw [node_attachChecked h inside]
      change (r.graph.checked p x).kind.isArray = false
      unfold Graph.checked
      split
      · rfl
      · exact plain
    obtain ⟨t, h', graph⟩ :
        ∃ t, Ends (settle (fromSchemaWithin depth) p r.graph.size schema) s ⟨⟩ t ∧
          t.graph = s.graph := settle_ends s stays
    refine looked seed ?_ (graph.trans (ends_attachChecked h).2.1)
    dsimp only
    split
    · next pointer shape => exact absurd shape (notRef pointer)
    · rw [made]
      exact Ends.bind_iff.mpr
        ⟨_, s, h, Ends.bind_iff.mpr ⟨⟨⟩, t, h', Ends.pure_iff.mpr ⟨rfl, rfl⟩⟩⟩

/-- What a property wraps can be made, for its shape was found beforehand. -/
theorem wrapSchema_ends (inside : p < r.graph.size) (decides : d.Decides schema fragment)
    (wraps : (propShapeOf (Shape.ofSchema fragment)).isWrapper = true) :
    ∃ x s, (r.graph.node p).seedBelow? schema = some x ∧
      Ends (wrapSchema p schema required) r ⟨⟩ s ∧
      (s.graph = r.graph.attach p (r.graph.checked p x) ∨
        (r.graph.checked p x).kind.tag = .circular ∧
          s.graph = (r.graph.attach p (r.graph.checked p x)).modify p (turned required)) := by
  have single : (∃ pointer, schema.ref? = some pointer) ∨
      ∃ kind, kindOfShape? (Shape.ofSchema schema) = some kind ∧ kind.isArray = false := by
    unfold Document.Decides at decides
    split at decides
    · exact .inr (decides ▸ kind_of_isWrapper wraps)
    · next pointer ref => exact .inl ⟨pointer, ref⟩
  obtain ⟨x, s, made, h, graph⟩ := fromSchema_ends inside single
  have new : (s.graph.node r.graph.size).kind = (r.graph.checked p x).kind := by
    simp [graph, inside]
  by_cases circular : ∃ ancestor, (s.graph.node r.graph.size).kind = .circular ancestor
  · obtain ⟨ancestor, kind⟩ := circular
    refine ⟨x, s.onGraph (·.modify p (turned required)), made, Ends.bind_iff.mpr
      ⟨_, s, h, Ends.bind_iff.mpr ⟨_, s, ends_node.mpr ⟨rfl, rfl⟩, ?_⟩⟩, .inr ⟨?_, ?_⟩⟩
    · rw [kind]
      exact ends_modifyNode.mpr rfl
    · rw [← new, kind]
      rfl
    · exact congrArg (·.modify p (turned required)) graph
  · refine ⟨x, s, made, Ends.bind_iff.mpr
      ⟨_, s, h, Ends.bind_iff.mpr ⟨_, s, ends_node.mpr ⟨rfl, rfl⟩, ?_⟩⟩, .inl graph⟩
    split
    · next ancestor kind => exact absurd ⟨ancestor, kind⟩ circular
    · exact Ends.pure_iff.mpr ⟨rfl, rfl⟩

theorem circularElement_ends (r : Run) (p ancestor : Nat) (name : String) (schema : Json) :
    ∃ a s, Ends (circularElement p name schema ancestor) r a s := by
  simp only [circularElement, Ends.bind_iff, ends_graph, ends_warn, Ends.discard_iff, ends_attach,
    Ends.pure_iff]
  exact ⟨_, _, _, _, ⟨rfl, rfl⟩, ⟨⟩, _, rfl, _, _, ⟨rfl, rfl⟩, ⟨⟩, _, ⟨_, rfl, rfl⟩, rfl, rfl⟩

theorem placeholderElement_ends (r : Run) (p : Nat) (name : String) :
    ∃ s, Ends (placeholderElement p name) r ⟨⟩ s := by
  obtain ⟨s, warned, -⟩ := warnMissingItems_ends r p
  refine ⟨_, Ends.bind_iff.mpr ⟨⟨⟩, s, warned, Ends.bind_iff.mpr
    ⟨_, s, ends_node.mpr ⟨rfl, rfl⟩, Ends.discard_iff.mpr ⟨_, ends_attach.mpr ⟨rfl, rfl⟩⟩⟩⟩⟩

/-! ## Where properties fail -/

end Build

/-- A fault of the element chain: a reference on it leads nowhere. -/
def Fault.IsGap (d : Document) (schema : Json) (e : Fault) : Prop :=
  e = .depth ∨ ∃ x pointer path, e = .reference pointer path ∧
    d.Nests schema x ∧ d.Names pointer x ∧ d.lookup? pointer = none

namespace Build

theorem failsFor_decisive : FailsFor (Fault.IsGap d schema) (decisive d p schema) r := by
  unfold decisive
  split
  · exact .of_ends (Ends.pure_iff.mpr ⟨rfl, rfl⟩)
  · next pointer ref =>
    refine .bind (.of_ends (Ends.get_iff.mpr ⟨rfl, rfl⟩)) fun _ => ?_
    refine .bind (.liftExcept fun e missing => ?_) fun h => .liftExcept fun e missing => ?_
    · obtain ⟨gap, rfl⟩ := Document.lost_of_component missing
      exact .inr ⟨schema, pointer, _, rfl, .refl, .own ref, gap⟩
    · have found := Document.lookup?_of_component (Ends.liftExcept_iff.mp h).1
      refine (Document.names_of_followFrom missing).imp_right ?_
      rintro ⟨q, rfl, names, gap⟩
      exact ⟨schema, q, _, rfl, .refl, .later ref found names, gap⟩

theorem failsFor_propWithin {depth : Nat} {followed : List (String × Nat)} :
    FailsFor (Fault.IsGap d schema) (propWithin d depth p name schema required followed) r := by
  induction depth generalizing p schema required followed r with
  | zero => exact .throw (.inl rfl)
  | succ depth ih =>
    have stays : ∀ {s : Run} {i : Nat}, FailsFor (Fault.IsGap d schema) (pure i : Build Nat) s :=
      .of_ends (Ends.pure_iff.mpr ⟨rfl, rfl⟩)
    rw [propWithin]
    split
    · next ancestor _ =>
      obtain ⟨a, s, h⟩ := circularElement_ends r p ancestor name schema
      exact .of_ends h
    · refine .bind (.of_ends (ends_node.mpr ⟨rfl, rfl⟩)) fun _ => failsFor_decisive.bind fun h => ?_
      obtain ⟨decides, rfl⟩ := ends_decisive h
      refine .bind (.of_ends (ends_attach.mpr ⟨rfl, rfl⟩)) fun {prop s} h => ?_
      have new : prop < s.graph.size := by
        obtain ⟨rfl, rfl⟩ := ends_attach.mp h
        exact Graph.lt_size_attach
      have wrapped : ∀ {shape}, propShapeOf (Shape.ofSchema _) = shape → shape.isWrapper = true →
          FailsFor (Fault.IsGap d schema) (wrapSchema prop schema required) s := fun same wraps =>
        by
        obtain ⟨_, t, -, h, -⟩ := wrapSchema_ends new decides (same ▸ wraps)
        exact .of_ends h
      split
      · exact stays
      · exact stays
      · next same =>
        split
        · next items here =>
          refine .bind (FailsFor.discard (ih.mono ?_)) fun _ => stays
          rintro e (rfl | ⟨x, pointer, path, rfl, nests, gap⟩)
          · exact .inl rfl
          · have element := decides.elementOf (eq_array_of_propShapeOf same) here
            exact .inr ⟨x, pointer, path, rfl, .head element nests, gap⟩
        · obtain ⟨t, h⟩ := placeholderElement_ends s prop name
          exact .bind (.of_ends h) fun _ => stays
      all_goals
        next same => exact (wrapped same rfl).bind fun _ => stays

/-- A property that is attached has followed all references on the way through its elements. Those
in `followed` were followed before it. -/
theorem propWithin_sealed {depth : Nat} {followed : List (String × Nat)}
    (h : Ends (propWithin d depth p name schema required followed) r i s)
    (known : ∀ {q}, followed.lookup q ≠ none → ∀ {j : Json}, j.ref? = some q → d.Resolves j) :
    ∃ S, schema ∈ S ∧ d.Sealed (fun q => followed.lookup q ≠ none) S := by
  induction depth generalizing p schema required followed r i s with
  | zero => cases h
  | succ depth ih =>
    rw [propWithin] at h
    split at h
    · next ancestor hit =>
      obtain ⟨q, ref, found⟩ := Option.bind_eq_some_iff.mp hit
      have again : followed.lookup q ≠ none := by
        rw [found]
        exact Option.some_ne_none ancestor
      exact ⟨{schema}, rfl, .single (known again ref) fun _ _ => ⟨q, ref, again⟩⟩
    · simp only [Ends.bind_iff, ends_node] at h
      obtain ⟨_, _, ⟨rfl, rfl⟩, fragment, _, decided, prop, u, -, h⟩ := h
      obtain ⟨decides, rfl⟩ := ends_decisive decided
      have leaf : (∀ z, Shape.ofSchema fragment = .array → itemsOf? fragment ≠ some z) →
          ∃ S, schema ∈ S ∧ d.Sealed (fun q => followed.lookup q ≠ none) S := fun childless =>
        ⟨{schema}, rfl, .single decides.resolves fun z element =>
          absurd (element.of_decides decides).2 (childless z (element.of_decides decides).1)⟩
      have other : propShapeOf (Shape.ofSchema fragment) ≠ .array →
          ∃ S, schema ∈ S ∧ d.Sealed (fun q => followed.lookup q ≠ none) S := fun ne =>
        leaf fun _ array => absurd (by rw [array]; rfl) ne
      split at h
      case h_3 array =>
        split at h
        · next items here =>
          obtain ⟨_, _, inner, -⟩ := Ends.bind_iff.mp h
          obtain ⟨_, inner⟩ := Ends.discard_iff.mp inner
          obtain ⟨more, v, inner, before⟩ : ∃ (more : List (String × Nat)) (v : Run),
              Ends (propWithin d depth prop name items false more) u _ v ∧
                ∀ {q}, more.lookup q ≠ none → schema.ref? = some q ∨ followed.lookup q ≠ none := by
            refine ⟨_, _, inner, fun {q} found => ?_⟩
            split at found
            · next pointer ref =>
              rw [List.lookup_cons] at found
              split at found
              · next same => exact .inl (ref.trans (congrArg some (beq_iff_eq.mp same).symm))
              · exact .inr found
            · exact .inr found
          obtain ⟨S, mem, sealed⟩ := ih inner fun found j ref => by
            rcases before found with own | old
            · exact decides.resolves.of_ref own ref
            · exact known old ref
          refine ⟨insert schema S, Set.mem_insert _ _, Document.Sealed.insert
            (sealed.mono fun _ => before) decides.resolves fun z element => ?_⟩
          obtain rfl : items = z :=
            Option.some_inj.mp (here.symm.trans (element.of_decides decides).2)
          exact mem
        · next none => exact leaf fun z _ some => by rw [none] at some; cases some
      all_goals
        next same => exact other (by rw [same]; exact PropShape.noConfusion)

end Build

end RestGraph
