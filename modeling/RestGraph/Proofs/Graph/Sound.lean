import RestGraph.Proofs.Graph.Forest

/-!
# Soundness

The graph is a forest, and fields are properties below the node that has them: below an object its
own children, below a composition those of the objects that are merged into it. It is so for the
first graph and stays so under every move.
-/

namespace RestGraph

namespace Run

variable {α β : Type} [DecidableEq α] {key : α} {value : β} {xs : List (α × β)}

/-- An entry after an assignment is the one assigned or was there before. -/
theorem mem_assign {x : α × β} (h : x ∈ assign key value xs) : x = (key, value) ∨ x ∈ xs := by
  induction xs with
  | nil => exact .inl (List.mem_singleton.mp h)
  | cons y rest ih =>
    obtain ⟨k, v⟩ := y
    rw [assign] at h
    split at h
    · next e =>
      rcases List.mem_cons.mp h with rfl | h
      · exact .inl (by rw [e])
      · exact .inr (List.mem_cons_of_mem _ h)
    · rcases List.mem_cons.mp h with rfl | h
      · exact .inr List.mem_cons_self
      · exact (ih h).imp_right (List.mem_cons_of_mem _)

/-- A key that is assigned stands among the keys once. -/
@[simp] theorem keys_assign : (assign key value xs).map Prod.fst =
    if key ∈ xs.map Prod.fst then xs.map Prod.fst else xs.map Prod.fst ++ [key] := by
  induction xs with
  | nil => rfl
  | cons y rest ih =>
    obtain ⟨k, v⟩ := y
    rw [assign]
    by_cases e : k = key
    · simp [e]
    · simp only [e, if_false, List.map_cons, ih, List.mem_cons, Ne.symm e, false_or]
      split <;> rfl

/-- What is looked up after an assignment. -/
@[simp] theorem lookup_assign [BEq α] [LawfulBEq α] (key' : α) : (assign key value xs).lookup key' =
    if key' = key then some value else xs.lookup key' := by
  induction xs with
  | nil =>
    rw [assign, List.lookup_cons, List.lookup_nil]
    split <;> split <;> simp_all
  | cons x rest ih =>
    rw [assign]
    split
    · next here =>
      rw [List.lookup_cons, List.lookup_cons]
      split <;> split <;> simp_all
    · next other =>
      rw [List.lookup_cons, List.lookup_cons, ih]
      split <;> split <;> simp_all

@[simp]
theorem assign_of_notMem (new : key ∉ xs.map Prod.fst) :
    assign key value xs = xs ++ [(key, value)] := by
  induction xs with
  | nil => rfl
  | cons x rest ih =>
    rw [List.map_cons, List.mem_cons, not_or] at new
    rw [assign, if_neg (Ne.symm new.1), ih new.2, List.cons_append]

theorem nodup_keys_assign (h : (xs.map Prod.fst).Nodup) :
    ((assign key value xs).map Prod.fst).Nodup := by
  rw [keys_assign]
  split
  · exact h
  · next new => exact List.nodup_append.mpr ⟨h, List.nodup_singleton _, fun a ha b hb e => by
      rw [List.mem_singleton.mp hb] at e
      exact new (e ▸ ha)⟩

end Run

namespace Graph

structure Sound (g : Graph) : Prop extends g.Forest where
  fields : ∀ {i x}, x ∈ (g.node i).props → g.IsField i x
  own : ∀ {i x}, (g.node i).kind.isComposition = false → x ∈ (g.node i).props →
    (g.node i).kind.tag = .object ∧ x.2 ∈ (g.node i).children
  inherited : ∀ {i x}, (g.node i).kind.isComposition = true → x ∈ (g.node i).props →
    g.Inherits i x
  unmerged : ∀ {i}, (g.node i).isMerged = false → (g.node i).props = []
  keys : ∀ i, ((g.node i).props.map Prod.fst).Nodup

instance {g : Graph} : Coe g.Sound g.Forest := ⟨Sound.toForest⟩

namespace Sound

variable {d : Document} {g h : Graph} {i p : Nat}

/-- What keeps a forest when a node is attached keeps it sound. -/
theorem attach (sound : g.Sound) {s : Seed} (inside : p < g.size)
    (admits : (g.node p).kind.admits s.kind = true)
    (room : (g.node p).kind.isNarrow = true → (g.node p).children = [])
    (due : (g.node p).kind.isEager = false → (g.node p).visited = true)
    (single : s.kind.tag.isSingle = true → g.Lacks p s.kind.tag) : (g.attach p s).Sound := by
  have grows : g.Extends (g.attach p s) := .attach
  refine ⟨sound.toForest.attach inside admits room due single, ?_, ?_, ?_, ?_, ?_⟩
  · intro j x field
    rw [props_attach] at field
    exact grows.isField (sound.fields field)
  · intro j x composition field
    rw [props_attach] at field
    have old := lt_size_of_prop field
    rw [kind_attach_of_lt old] at composition ⊢
    obtain ⟨object, child⟩ := sound.own composition field
    exact ⟨object, (grows.keeps old).children.subset child⟩
  · intro j x composition field
    rw [props_attach] at field
    rw [kind_attach_of_lt (lt_size_of_prop field)] at composition
    exact grows.inherits (sound.inherited composition field)
  · intro j unmerged
    rw [props_attach]
    by_cases lt : j < g.size
    · rw [part_attach_of_lt Node.isMerged (fun _ _ => rfl) lt] at unmerged
      exact sound.unmerged unmerged
    · rw [node_of_size_le (Nat.le_of_not_lt lt)]
      rfl
  · intro j
    rw [props_attach]
    exact sound.keys j

/-- A node may change what it has as long as that still fits in with the other nodes. -/
theorem modify (sound : g.Sound) {f : Node → Node} (inside : i < g.size)
    (keep : (g.node i).Keeps (f (g.node i)))
    (children : (f (g.node i)).children = (g.node i).children)
    (admits : ∀ c ∈ (g.node i).children, (f (g.node i)).kind.admits (g.node c).kind = true)
    (fields : ∀ x ∈ (f (g.node i)).props, g.IsField i x)
    (own : (g.node i).kind.isComposition = false → ∀ x ∈ (f (g.node i)).props,
      (g.node i).kind.tag = .object ∧ x.2 ∈ (g.node i).children)
    (inherited : (g.node i).kind.isComposition = true →
      ∀ x ∈ (f (g.node i)).props, g.Inherits i x)
    (unmerged : (f (g.node i)).isMerged = false → (f (g.node i)).props = [])
    (keys : ((f (g.node i)).props.map Prod.fst).Nodup) : (g.modify i f).Sound := by
  have grows : g.Extends (g.modify i f) := .modify keep
  have node : ∀ j, (g.modify i f).node j = if j = i then f (g.node i) else g.node j :=
    node_modify inside
  have keeps := keeps_modify inside keep
  have sameChildren := children_modify inside children
  refine ⟨sound.toForest.modify inside keep children admits, ?_, ?_, ?_, ?_, ?_⟩
  · intro j x hx
    rw [node] at hx
    refine grows.isField ?_
    split at hx
    · next e => exact e ▸ fields x hx
    · exact sound.fields hx
  · intro j x composition hx
    rw [(keeps j).isComposition] at composition
    rw [sameChildren, (keeps j).kind.tag]
    rw [node] at hx
    split at hx
    · next e =>
      subst e
      exact own composition x hx
    · exact sound.own composition hx
  · intro j x composition hx
    rw [(keeps j).isComposition] at composition
    refine grows.inherits ?_
    rw [node] at hx
    split at hx
    · next e =>
      subst e
      exact inherited composition x hx
    · exact sound.inherited composition hx
  · intro j
    rw [node]
    split
    · exact unmerged
    · exact sound.unmerged
  · intro j
    rw [node]
    split
    · exact keys
    · exact sound.keys j

theorem move (sound : g.Sound) (step : Move d g h) : h.Sound := by
  cases step with
  | attach inside admits room due sprouts =>
    exact sound.attach inside admits room due sprouts.single
  | @visit i inside =>
    exact sound.modify inside { Node.Keeps.refl (g.node i) with visited := fun _ => rfl } rfl
      (fun _ => sound.admits) (fun _ => sound.fields) (fun c _ => sound.own c)
      (fun c _ => sound.inherited c) sound.unmerged (sound.keys i)
  | @turn i shape required kind wraps closed =>
    have inside : i < g.size := lt_size_of_ne fun e => by
      rw [e] at kind
      cases kind
    refine sound.modify inside
      { Node.Keeps.refl (g.node i) with kind := .inr ⟨shape, required, kind, wraps, rfl⟩ } rfl
      (fun c child => ?_) (fun _ => sound.fields) (fun c _ => sound.own c)
      (fun c _ => sound.inherited c) Bool.noConfusion (sound.keys i)
    exact beq_iff_eq.mpr (closed c child)
  | @field i prop name object child prop' named =>
    have plain : (g.node i).kind.isComposition = false := by
      cases kind : (g.node i).kind <;> first | rfl | (rw [kind] at object; cases object)
    refine sound.modify (lt_size_of_child child) { Node.Keeps.refl (g.node i) with } rfl
      (fun _ => sound.admits) (fun x hx => ?_) (fun c x hx => ?_) (fun c => ?_) (fun unmerged => ?_)
      (Run.nodup_keys_assign (sound.keys i))
    · rcases Run.mem_assign hx with rfl | hx
      · exact ⟨sound.ancestors_of_child child ▸ List.mem_cons_self, prop', named⟩
      · exact sound.fields hx
    · rcases Run.mem_assign hx with rfl | hx
      · exact ⟨object, child⟩
      · exact sound.own c hx
    · exact absurd (plain.symm.trans c) Bool.noConfusion
    · rw [Node.isMerged, plain] at unmerged
      cases unmerged
  | @consolidate i inside =>
    refine sound.modify inside { Node.Keeps.refl (g.node i) with consolidated := fun _ => rfl } rfl
      (fun _ => sound.admits) (fun _ => sound.fields) (fun c _ => sound.own c)
      (fun c _ => sound.inherited c) (fun unmerged => ?_) (sound.keys i)
    rw [Node.isMerged, Bool.or_true] at unmerged
    cases unmerged
  | @merge i props composition consolidated fields inherited keys =>
    have inside : i < g.size := lt_size_of_ne fun e => by
      rw [e] at composition
      cases composition
    refine sound.modify inside { Node.Keeps.refl (g.node i) with } rfl
      (fun _ => sound.admits) fields (fun other => ?_) (fun _ => inherited)
        (fun unmerged => ?_) keys
    · rw [composition] at other
      cases other
    · rw [Node.isMerged, consolidated, Bool.or_true] at unmerged
      cases unmerged

/-- Any number of moves keep the graph sound. -/
theorem moves (sound : g.Sound) (steps : Moves d g h) : h.Sound := by
  induction steps with
  | refl => exact sound
  | tail _ step ih => exact ih.move step

theorem empty : Graph.empty.Sound := by
  have bare : ∀ j, Graph.empty.node j = Node.nowhere := fun j => node_of_size_le (Nat.zero_le j)
  have propless : ∀ {j x}, x ∉ (Graph.empty.node j).props := fun {j x} prop => by
    rw [bare] at prop
    cases prop
  refine ⟨.empty, ?_, ?_, ?_, ?_, ?_⟩
  · exact fun prop => absurd prop propless
  · exact fun _ prop => absurd prop propless
  · exact fun _ prop => absurd prop propless
  · intro j _
    rw [bare]
    rfl
  · intro j
    rw [bare]
    exact .nil

theorem addRoot (sound : g.Sound) {s : Seed} : (g.addRoot s).Sound := by
  have children := part_addRoot (g := g) (s := s) Node.children rfl
  have parent := part_addRoot (g := g) (s := s) Node.parent rfl
  have props := part_addRoot (g := g) (s := s) Node.props rfl
  have old : ∀ {j}, j < g.size → (g.addRoot s).node j = g.node j := fun lt => by
    simp [Nat.ne_of_lt lt]
  have ancestors : ∀ j, (g.addRoot s).ancestors j = g.ancestors j := fun j => by
    induction j using Nat.strongRecOn with
    | ind j ih =>
      rw [Graph.ancestors, parent]
      conv_rhs => rw [Graph.ancestors]
      split
      · rfl
      · next p _ =>
        split
        · next lt => rw [ih p lt]
        · rfl
  refine ⟨sound.toForest.addRoot, ?_, ?_, ?_, ?_, ?_⟩
  · intro j x hx
    rw [props] at hx
    have field := sound.fields hx
    have lt := lt_size_of_mem_ancestors field.above
    exact ⟨ancestors x.2 ▸ field.above, old lt ▸ field.isProperty, old lt ▸ field.name⟩
  · intro j x composition hx
    rw [props] at hx
    rw [old (lt_size_of_prop hx)] at composition ⊢
    exact sound.own composition hx
  · intro j x composition hx
    rw [props] at hx
    rw [old (lt_size_of_prop hx)] at composition
    obtain ⟨o, branch, object, child⟩ := sound.inherited composition hx
    refine ⟨o, Relation.TransGen.mono (fun a b edge => ?_) _ _ branch, ?_, ?_⟩
    · exact ⟨old (lt_size_of_child edge.2) ▸ edge.1, children a ▸ edge.2⟩
    · rw [old (lt_size_of_child child), object]
    · rw [children]
      exact child
  · intro j unmerged
    rw [props]
    by_cases lt : j < g.size
    · rw [old lt] at unmerged
      exact sound.unmerged unmerged
    · rw [node_of_size_le (Nat.le_of_not_lt lt)]
      rfl
  · intro j
    rw [props]
    exact sound.keys j

/-- The operations of one entry may be added to a sound graph. -/
theorem addOperations (sound : g.Sound) (taken : List String) (entries : List OperationEntry) :
    (g.addOperations taken entries).Sound := by
  induction entries generalizing g taken with
  | nil => exact sound
  | cons e rest ih => exact ih sound.addRoot _

end Sound

/-- **The graph of a document starts sound.** -/
theorem ofDocument_sound (d : Document) : (ofDocument d).Sound := Sound.empty.addOperations _ _

end Graph

end RestGraph
