import RestGraph.Proofs.Graph.Acting
import RestGraph.Proofs.Graph.Advancing

/-!
# Enrolling

A visit gives fields to objects only, each a property of its own under its name. So a sound graph
stays sound whatever the outcome of the visit.
-/

namespace RestGraph

variable {d : Document} {g h k : Graph} {r s : Run} {i : Nat} {free fresh : Nat → Prop}

namespace Graph

/-- The field is a property of the object, under its own name. -/
structure OwnField (g : Graph) (i : Nat) (x : String × Nat) : Prop where
  object : (g.node i).kind.tag = .object
  child : x.2 ∈ (g.node i).children
  isProperty : (g.node x.2).isProperty = true
  named : (g.node x.2).name = x.1

theorem OwnField.extend {x : String × Nat} (own : g.OwnField i x) (step : g.Extends h) :
    h.OwnField i x := by
  have inside : x.2 < g.size := lt_size_of_ne fun nowhere => by
    have prop := own.isProperty
    rw [nowhere] at prop
    cases prop
  have keeps := step.keeps (lt_size_of_child own.child)
  have keeps' := step.keeps inside
  exact ⟨keeps.kind.tag.trans own.object, keeps.children.subset own.child,
    keeps'.kind.isProperty.trans own.isProperty, keeps'.name.trans own.named⟩

/-- Fields are new only where they are properties of an object; no node is marked as merged. -/
structure Enrolls (g h : Graph) : Prop where
  grown : g.Extends h
  fields : ∀ i x, x ∈ (h.node i).props → x ∈ (g.node i).props ∨ h.OwnField i x
  keys : ∀ i, ((g.node i).props.map Prod.fst).Nodup → ((h.node i).props.map Prod.fst).Nodup
  unmerged : NoNew Node.consolidated g h

theorem Enrolls.refl (g : Graph) : g.Enrolls g := ⟨.refl g, fun _ _ => .inl, fun _ => id, .refl _ g⟩

theorem Enrolls.trans (first : g.Enrolls h) (second : h.Enrolls k) : g.Enrolls k where
  grown := first.grown.trans second.grown
  fields i x field := (second.fields i x field).elim
    (fun before => (first.fields i x before).imp_right fun own => own.extend second.grown) .inr
  keys i := second.keys i ∘ first.keys i
  unmerged := first.unmerged.trans second.unmerged

/-- Where nothing is changed but the children and marks of nodes. -/
theorem Enrolls.of_props (grown : g.Extends h) (props : ∀ i, (h.node i).props = (g.node i).props)
    (unmerged : NoNew Node.consolidated g h) : g.Enrolls h :=
  ⟨grown, fun i _ field => .inl (props i ▸ field), fun i => by rw [props]; exact id, unmerged⟩

/-- A graph stays sound as nodes are enrolled. -/
theorem Sound.enroll (sound : g.Sound) (enrolls : g.Enrolls h) (forest : h.Forest) : h.Sound := by
  have plain : ∀ {i}, (h.node i).kind.tag = .object → (h.node i).kind.isComposition = false :=
    fun object => by
      cases kind : (h.node _).kind <;> rw [kind] at object <;> first | rfl | cases object
  have old : ∀ {i x}, x ∈ (g.node i).props → (g.node i).Keeps (h.node i) := fun field =>
    enrolls.grown.keeps (lt_size_of_prop field)
  refine ⟨forest, fun {i x} field => ?_,
    fun {i x} other field => ?_, fun {i x} composition field => ?_,
    fun {i} unmerged => ?_, fun i => enrolls.keys i (sound.keys i)⟩
  · rcases enrolls.fields i x field with before | own
    · exact enrolls.grown.isField (sound.fields before)
    · exact ⟨forest.ancestors_of_child own.child ▸ List.mem_cons_self, own.isProperty, own.named⟩
  · rcases enrolls.fields i x field with before | own
    · have keeps := old before
      obtain ⟨object, child⟩ := sound.own (keeps.isComposition ▸ other) before
      exact ⟨keeps.kind.tag.trans object, keeps.children.subset child⟩
    · exact ⟨own.object, own.child⟩
  · rcases enrolls.fields i x field with before | own
    · exact enrolls.grown.inherits
        (sound.inherited ((old before).isComposition ▸ composition) before)
    · rw [plain own.object] at composition
      cases composition
  · refine List.eq_nil_iff_forall_not_mem.mpr fun x field => ?_
    rcases enrolls.fields i x field with before | own
    · have merged : (g.node i).isMerged = false := by
        refine Bool.eq_false_iff.mpr fun merged => ?_
        rw [(old before).isMerged merged] at unmerged
        cases unmerged
      rw [sound.unmerged merged] at before
      cases before
    · rw [Node.isMerged, plain own.object] at unmerged
      cases unmerged

end Graph

namespace Run

/-- An act enrolls nodes. -/
theorem Act.enrolls (act : r.Act free fresh s) : r.graph.Enrolls s.graph := by
  cases act with
  | add addition =>
    have act : r.Act free (fun _ => False) s := .add addition
    have grown := act.extends
    cases addition with
    | note notes =>
      rw [notes.graph]
      exact .refl _
    | attach | refer | standIn =>
      exact .of_props grown Graph.props_attach (.attach (fun _ _ => rfl) rfl)
  | mark =>
    exact .of_props (.modify { Node.Keeps.refl _ with visited := fun _ => rfl })
      (Graph.part_modify Node.props fun _ => rfl) (.modify fun _ => rfl)
  | @turn _ shape required _ kind wraps =>
    exact .of_props
      (.modify { Node.Keeps.refl _ with kind := .inr ⟨shape, required, kind, wraps, rfl⟩ })
      (Graph.part_modify Node.props fun _ => rfl) (.modify fun _ => rfl)
  | @field i prop name may object child isProperty named =>
    have grown : r.graph.Extends (r.graph.modify i fun n =>
        { n with props := Run.assign name prop n.props }) := .modify { Node.Keeps.refl _ with }
    have own : r.graph.OwnField i (name, prop) := ⟨object, child, isProperty, named⟩
    have inside := Graph.lt_size_of_child child
    refine ⟨grown, fun j x field => ?_, fun j nodup => ?_, .modify fun _ => rfl⟩
    · change x ∈ ((r.graph.modify i _).node j).props at field
      rw [Graph.node_modify inside] at field
      split at field
      · next same =>
        subst same
        rcases mem_assign field with rfl | before
        · exact .inr (own.extend grown)
        · exact .inl before
      · exact .inl field
    · change (((r.graph.modify i _).node j).props.map Prod.fst).Nodup
      rw [Graph.node_modify inside]
      split
      · next same =>
        subst same
        exact nodup_keys_assign nodup
      · exact nodup

/-- Acts enroll nodes. -/
theorem Acts.enrolls (acts : r.Acts free fresh s) : r.graph.Enrolls s.graph := by
  induction acts with
  | refl => exact .refl _
  | tail _ act ih => exact ih.trans act.enrolls

end Run

/-- A visit keeps a sound graph sound, also where it fails. -/
theorem Build.visit_sound (sound : r.graph.Sound) :
    Along (fun _ s => s.graph.Sound) (visit d i) r :=
  sound.enroll (Run.Acts.enrolls visit_acts) ((visit_along sound.toForest).forest sound.toForest)

end RestGraph
