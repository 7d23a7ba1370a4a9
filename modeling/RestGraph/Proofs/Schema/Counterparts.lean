import RestGraph.Proofs.Graph.Shading
import RestGraph.Proofs.Graph.Twins
import RestGraph.Proofs.Schema.Resuming

/-!
# Counterparts

Two runs that go on from one in visits and merges may number the nodes that they make differently. A
node that both had from the start is its own counterpart; of the others those at the same place
below counterparts are. What is known of a node by its site is known of its counterpart, and objects
that are counterparts have counterparts for fields.
-/

namespace RestGraph

variable {d : Document} {r s t : Run} {g h : Graph} {b b' c i j k : Nat} {path : List Nat}
  {name : String} {filtering : Bool}

/-- Nodes of two graphs that went on from one with `k` nodes: the same node of that one, or two that
have come since and stand at the same site. -/
structure Graph.Counterpart (k : Nat) (g h : Graph) (i j : Nat) : Prop where
  old : i < k ∨ j < k → i = j
  site : g.site i = h.site j

/-- Fields of the same name for counterparts. -/
def Graph.SameField (k : Nat) (g h : Graph) (x y : String × Nat) : Prop :=
  x.1 = y.1 ∧ g.Counterpart k h x.2 y.2

namespace Graph

theorem Counterpart.symm (pair : Counterpart k g h i j) : Counterpart k h g j i :=
  ⟨fun old => (pair.old old.symm).symm, pair.site.symm⟩

/-- A field that is set in both takes the same place. -/
theorem forall₂_assign {xs ys : List (String × Nat)} (same : List.Forall₂ (SameField k g h) xs ys)
    (pair : Counterpart k g h i j) :
    List.Forall₂ (SameField k g h) (Run.assign name i xs) (Run.assign name j ys) := by
  induction same with
  | nil => exact .cons ⟨rfl, pair⟩ .nil
  | @cons x y xs ys first rest ih =>
    rw [Run.assign.eq_def, Run.assign.eq_def]
    dsimp only
    rw [first.1]
    split
    · exact .cons ⟨rfl, pair⟩ rest
    · exact .cons ⟨rfl, first.2⟩ ih

theorem forall₂_fieldsAt (children : List.Forall₂ (Counterpart k g h) (g.node i).children
    (h.node j).children) : List.Forall₂ (SameField k g h) (g.fieldsAt i) (h.fieldsAt j) := by
  have go : ∀ {l l' fields fields'}, List.Forall₂ (Counterpart k g h) l l' →
      List.Forall₂ (SameField k g h) fields fields' → List.Forall₂ (SameField k g h)
        (l.foldl (fun fields q => Run.assign (g.node q).name q fields) fields)
        (l'.foldl (fun fields q => Run.assign (h.node q).name q fields) fields') := by
    intro l l' fields fields' pairs same
    induction pairs generalizing fields fields' with
    | nil => exact same
    | cons pair _ ih =>
      refine ih ?_
      dsimp only
      rw [name_of_site pair.site]
      exact forall₂_assign same pair
  exact go children .nil

/-- Counterparts are found under the same name. -/
theorem counterpart_of_sameFields {xs ys : List (String × Nat)}
    (same : List.Forall₂ (SameField k g h) xs ys) (nodup : (ys.map Prod.fst).Nodup)
    (mem : (name, i) ∈ xs) (mem' : (name, j) ∈ ys) : Counterpart k g h i j := by
  induction same with
  | nil => cases mem
  | @cons x y xs ys first rest ih =>
    have names : xs.map Prod.fst = ys.map Prod.fst :=
      map_eq_of_forall₂ (rest.imp fun _ _ => And.left)
    obtain ⟨fresh, nodup⟩ := List.nodup_cons.mp nodup
    have clash : ∀ {z : Nat}, (name, z) ∈ ys → name ≠ y.1 := fun mem same =>
      fresh (same ▸ List.mem_map_of_mem mem)
    rcases List.mem_cons.mp mem with rfl | mem <;> rcases List.mem_cons.mp mem' with rfl | mem'
    · exact first.2
    · exact absurd first.1 (clash mem')
    · have named := List.mem_map_of_mem (f := Prod.fst) mem
      rw [names] at named
      exact absurd named fresh
    · exact ih nodup mem mem'

end Graph

namespace Run

/-- The run goes on from another in visits and merges. -/
structure Follows (d : Document) (r s : Run) : Prop where
  resumes : r.Resumes d s
  drafts : r.Drafts d s

section Resumes

variable (first : r.Resumes d s) (second : r.Resumes d t)

include first

/-- What stands below a node is new, unless it was there already with the node. -/
theorem Resumes.seated_of_child (forest : r.graph.Forest) (child : c ∈ (s.graph.node i).children)
    (old : c < r.graph.size) : i ∈ r.graph.seated ∧ c ∈ (r.graph.node i).children := by
  have parent := (first.grown.keeps old).parent.symm.trans (first.forest.parent child)
  have below := forest.child parent
  refine ⟨⟨Graph.lt_size_of_child below, fun pending => ?_⟩, below⟩
  rw [forest.late pending.1 pending.2] at below
  cases below

include second

theorem Resumes.counterpart (inside : i < r.graph.size) :
    s.graph.Counterpart r.graph.size t.graph i i :=
  ⟨fun _ => rfl, (first.site inside).trans (second.site inside).symm⟩

/-- Counterparts that were visited have counterparts for children. -/
theorem Resumes.pairs (forest : r.graph.Forest)
    (pair : s.graph.Counterpart r.graph.size t.graph i j)
    (done : s.graph.IsDone i) (done' : t.graph.IsDone j) :
    List.Forall₂ (s.graph.Counterpart r.graph.size t.graph) (s.graph.node i).children
      (t.graph.node j).children := by
  by_cases seated : i ∈ r.graph.seated
  · obtain rfl := pair.old (.inl seated.1)
    rw [first.children seated, second.children seated]
    exact List.forall₂_same.mpr fun c child => first.counterpart second (forest.below child).2
  · have idle : j ∉ r.graph.seated := fun seated' => seated (pair.old (.inr seated'.1) ▸ seated')
    have settles := first.tidy.settled done.1 done.2 seated
    rw [pair.site] at settles
    refine forall₂_of_map_eq
      (Except.ok.inj (settles.unique (second.tidy.settled done'.1 done'.2 idle)))
      fun a child b child' same => ⟨fun old => ?_, same⟩
    rcases old with old | old
    · exact absurd (first.seated_of_child forest child old).1 seated
    · exact absurd (second.seated_of_child forest child' old).1 idle

end Resumes

namespace Follows

variable (guided : r.Guided d) (first : r.Follows d s) (second : r.Follows d t)
  (pair : s.graph.Counterpart r.graph.size t.graph b b')
  (done : s.graph.IsDone b) (done' : t.graph.IsDone b')

include first

/-- What was visited with its fields keeps them. -/
theorem props_of_visited (inside : b < r.graph.size) (visited : (r.graph.node b).visited = true)
    (merged : (r.graph.node b).isMerged = true) :
    (s.graph.node b).props = (r.graph.node b).props :=
  first.drafts.grows.props inside (Graph.notMem_unvisited.mpr visited) merged

include guided

/-- An object that was not there yet, or not visited, gets its fields in full. -/
theorem filledAt (idle : b ∉ r.graph.seated) : s.graph.FilledAt b := by
  have sound := guided.sound
  refine first.drafts.filled fun object => ?_
  have inside : b < r.graph.size := Graph.lt_size_of_ne fun nowhere => by
    rw [nowhere] at object
    cases object
  have pending := Graph.pending_of_notMem_seated inside idle
  have childless := sound.late pending.1 pending.2
  have plain : (r.graph.node b).kind.isComposition = false :=
    Bool.eq_false_iff.mpr fun composition =>
    Kind.not_object_of_isComposition composition object
  rw [Graph.fieldsAt, childless]
  refine List.eq_nil_iff_forall_not_mem.mpr fun x field => ?_
  have child := (sound.own plain field).2
  rw [childless] at child
  cases child

include second

theorem sameFields (inside : b < r.graph.size) (visited : (r.graph.node b).visited = true)
    (merged : (r.graph.node b).isMerged = true) :
    List.Forall₂ (s.graph.SameField r.graph.size t.graph) (s.graph.node b).props
      (t.graph.node b).props := by
  rw [first.props_of_visited inside visited merged, second.props_of_visited inside visited merged]
  exact List.forall₂_same.mpr fun x field => ⟨rfl, first.resumes.counterpart second.resumes
    (Graph.lt_size_of_mem_ancestors (guided.sound.fields field).above)⟩

/-- A composition that was merged before has the same fields in both. -/
theorem mergedFields (inside : b < r.graph.size)
    (composition : (r.graph.node b).kind.isComposition = true)
    (merged : (r.graph.node b).consolidated = true) :
    List.Forall₂ (s.graph.SameField r.graph.size t.graph) (s.graph.node b).props
      (t.graph.node b).props :=
  sameFields guided first second inside (guided.earned b composition merged)
    (by rw [Node.isMerged, merged, Bool.or_true])

include pair done done'

theorem objectFields (object : (s.graph.node b).kind.tag = .object) :
    List.Forall₂ (s.graph.SameField r.graph.size t.graph) (s.graph.node b).props
      (t.graph.node b').props := by
  have object' := (Graph.kind_of_site pair.site Kind.tag fun _ _ => rfl).symm.trans object
  by_cases seated : b ∈ r.graph.seated
  · obtain rfl := pair.old (.inl seated.1)
    rw [first.drafts.grows.kind seated.1] at object
    have visited : (r.graph.node b).visited = true := by
      by_contra fresh
      exact seated.2 ⟨Kind.isEager_of_object object, Bool.eq_false_iff.mpr fresh⟩
    exact sameFields guided first second seated.1 visited (Node.isMerged_of_object object)
  · have idle : b' ∉ r.graph.seated := fun seated' => seated (pair.old (.inr seated'.1) ▸ seated')
    rw [first.filledAt guided seated object, second.filledAt guided idle object']
    exact Graph.forall₂_fieldsAt
      (first.resumes.pairs second.resumes guided.sound.toForest pair done done')

/-- Counterparts have the same fields of their own. -/
theorem ownFields (own : r.Own s filtering name b) : ¬r.Since t b' ∧
    List.Forall₂ (s.graph.SameField r.graph.size t.graph) (s.graph.node b).props
      (t.graph.node b').props := by
  have sound := guided.sound
  obtain ⟨x, offered, -⟩ := List.mem_map.mp own.named
  have field := (List.mem_filter.mp offered).1
  have alike := Graph.kind_of_site pair.site Kind.isComposition fun _ _ => rfl
  cases composition : (s.graph.node b).kind.isComposition with
  | false =>
    refine ⟨fun since => ?_, objectFields guided first second pair done done'
      ((first.drafts.sound sound).own composition field).1⟩
    have composed := alike.trans since.composition
    rw [composition] at composed
    cases composed
  | true =>
    have merged : (s.graph.node b).consolidated = true := by
      by_contra fresh
      rw [(first.drafts.sound sound).unmerged
        (by rw [Node.isMerged, composition, Bool.eq_false_iff.mpr fresh]; rfl)] at field
      cases field
    obtain ⟨old, before⟩ : b < r.graph.size ∧ (r.graph.node b).consolidated = true := by
      by_contra since
      refine own.before ⟨composition, merged, fun old => Bool.eq_false_iff.mpr fun before => ?_⟩
      exact since ⟨old, before⟩
    obtain rfl := pair.old (.inl old)
    rw [first.drafts.grows.kind old] at composition
    refine ⟨fun since => ?_, mergedFields guided first second old composition before⟩
    rw [since.fresh old] at before
    cases before

theorem offered (own : r.Own s filtering name b) : ¬r.Since t b' ∧
    List.Forall₂ (s.graph.SameField r.graph.size t.graph) (s.offered filtering b)
      (t.offered filtering b') := by
  refine (ownFields guided first second pair done done' own).imp_right fun same => ?_
  refine List.rel_filter (fun x y same => ?_) same
  have path : s.graph.pathOf x.2 = t.graph.pathOf y.2 := by
    rw [← Graph.path_site, ← Graph.path_site, same.2.site]
  change Build.isAllowed s filtering x.2 = true ↔ Build.isAllowed t filtering y.2 = true
  rw [Build.isAllowed, Build.isAllowed, path, first.drafts.filter, second.drafts.filter]

/-- So they have the same names of their own. -/
theorem own (own : r.Own s filtering name b) : r.Own t filtering name b' := by
  obtain ⟨before, same⟩ := offered guided first second pair done done' own
  refine ⟨before, ?_⟩
  rw [← map_eq_of_forall₂ (same.imp fun _ _ => And.left)]
  exact own.named

end Follows

/-- All branches of a composition that was there have counterparts at the same places, where it was
visited in both with all that is below it. -/
theorem Follows.branchAt (guided : r.Guided d) (first : r.Follows d s) (second : r.Follows d t)
    (inside : c < r.graph.size)
    (done : ∀ {path b}, s.graph.BranchAt c path b → s.graph.IsDone b)
    (done' : ∀ {path b}, t.graph.BranchAt c path b → t.graph.IsDone b)
    (here : s.graph.BranchAt c path b) :
    ∃ b', t.graph.BranchAt c path b' ∧ s.graph.Counterpart r.graph.size t.graph b b' := by
  induction here with
  | top => exact ⟨c, .top, first.resumes.counterpart second.resumes inside⟩
  | @down path a b k above expands child ih =>
    obtain ⟨a', above', pair⟩ := ih
    have pairs := first.resumes.pairs second.resumes guided.sound.toForest pair (done above)
      (done' above')
    obtain ⟨within, rfl⟩ := List.getElem?_eq_some_iff.mp child
    have within' : k < (t.graph.node a').children.length := pairs.length_eq ▸ within
    refine ⟨(t.graph.node a').children[k], above'.down ?_ (List.getElem?_eq_getElem within'),
      pairs.get within within'⟩
    rw [← Graph.kind_of_site pair.site Kind.expands fun _ _ => rfl, expands]

end Run

end RestGraph
