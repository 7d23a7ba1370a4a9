import RestGraph.Proofs.Graph.Nearest
import Mathlib.Data.List.Induction

/-!
# Shading

A composition that is merged offers the fields that it got to what is above it, from its own place
and not from that of the branch it has them from. So where compositions are merged one after the
other a name may go to one of them that stands before the nearest branch with a field of its own.
That is the only change: all fields are drawn from branches below.
-/

namespace RestGraph

variable {d : Document} {r s t : Run} {a b c i m k : Nat} {path path' : List Nat} {name : String}
  {filtering : Bool}

namespace Graph.BranchAt

variable {g h : Graph}

theorem trans (first : g.BranchAt c path a) (second : g.BranchAt a path' b) :
    g.BranchAt c (path ++ path') b := by
  induction second with
  | top => rwa [List.append_nil]
  | down _ expands child ih =>
    rw [← List.append_assoc]
    exact ih.down expands child

theorem eq_of_nil (here : g.BranchAt c [] b) : b = c := by
  generalize none : ([] : List Nat) = path at here
  cases here with
  | top => rfl
  | down => exact absurd none.symm (List.append_ne_nil_of_right_ne_nil _ (List.cons_ne_nil _ _))

theorem of_concat (here : g.BranchAt c (path ++ [k]) b) :
    ∃ a, g.BranchAt c path a ∧ (g.node a).kind.expands = true ∧
    (g.node a).children[k]? = some b := by
  generalize more : path ++ [k] = whole at here
  cases here with
  | top => exact absurd more (List.append_ne_nil_of_right_ne_nil _ (List.cons_ne_nil _ _))
  | down above expands child =>
    obtain ⟨rfl, same⟩ := List.append_inj' more rfl
    cases same
    exact ⟨_, above, expands, child⟩

/-- A path leads to one branch at most. -/
theorem same (first : g.BranchAt c path a) (second : g.BranchAt c path b) : a = b := by
  induction path using List.reverseRecOn generalizing a b with
  | nil => rw [first.eq_of_nil, second.eq_of_nil]
  | append_singleton path k ih =>
    obtain ⟨_, above, -, child⟩ := first.of_concat
    obtain ⟨_, above', -, child'⟩ := second.of_concat
    obtain rfl := ih above above'
    exact Option.some.inj (child.symm.trans child')

theorem split (here : g.BranchAt c (path ++ path') b) :
    ∃ a, g.BranchAt c path a ∧ g.BranchAt a path' b := by
  induction path' using List.reverseRecOn generalizing b with
  | nil => exact ⟨b, List.append_nil path ▸ here, .top⟩
  | append_singleton path' k ih =>
    rw [← List.append_assoc] at here
    obtain ⟨_, above, expands, child⟩ := here.of_concat
    obtain ⟨a, first, second⟩ := ih above
    exact ⟨a, first, second.down expands child⟩

/-- What is at a longer path is below what is at its first part. -/
theorem after (first : g.BranchAt c path a) (second : g.BranchAt c (path ++ path') b) :
    g.BranchAt a path' b := by
  obtain ⟨_, above, below⟩ := second.split
  exact first.same above ▸ below

theorem extend (here : g.BranchAt c path b) (step : g.Extends h) : h.BranchAt c path b := by
  induction here with
  | top => exact .top
  | down _ expands child ih =>
    have keeps := step.keeps (lt_size_of_child (List.mem_of_getElem? child))
    have inside := (List.getElem?_eq_some_iff.mp child).1
    obtain ⟨rest, children⟩ := keeps.children
    refine ih.down (keeps.kind.expands ▸ expands) ?_
    rw [← children, List.getElem?_append_left inside, child]

/-- Below nodes that were visited no other branches come up. -/
theorem of_grows (step : g.Grows g.unvisited h) (sound : g.Sound) (inside : c < g.size)
    (visited : (g.node c).visited = true)
    (below : ∀ b, g.Branch c b → (g.node b).visited = true) (here : h.BranchAt c path b) :
    g.BranchAt c path b := by
  induction here with
  | top => exact .top
  | @down _ a _ _ _ expands child ih =>
    have done : a < g.size ∧ (g.node a).visited = true := by
      rcases ih.eq_or_branch with ⟨-, rfl⟩ | branch
      · exact ⟨inside, visited⟩
      · exact ⟨branch.lt_size sound, below _ branch⟩
    refine ih.down (step.kind done.1 ▸ expands) ?_
    rwa [step.children done.1 (notMem_unvisited.mpr done.2)] at child

end Graph.BranchAt

/-! ## Fields of their own -/

/-- The composition was merged in one of two runs, where the first went on to the second, and not in
the first yet. -/
structure Run.Since (r t : Run) (m : Nat) : Prop where
  composition : (t.graph.node m).kind.isComposition = true
  merged : (t.graph.node m).consolidated = true
  fresh : m < r.graph.size → (r.graph.node m).consolidated = false

/-- The branch has the name, and not because it was merged since. -/
structure Run.Own (r t : Run) (filtering : Bool) (name : String) (b : Nat) : Prop where
  before : ¬r.Since t b
  named : name ∈ (t.offered filtering b).map Prod.fst

/-- The least deep and leftmost branch that has the name of its own. -/
structure Run.Foremost (r t : Run) (filtering : Bool) (name : String) (c : Nat) (path : List Nat)
    (b : Nat) : Prop where
  here : t.graph.BranchAt c path b
  own : r.Own t filtering name b
  first : ∀ {path' b'}, t.graph.BranchAt c path' b' → r.Own t filtering name b' →
    path' = path ∨ List.Shortlex (· < ·) path path'

/-- A composition that was merged since and has the name stands before the place, and not above
it. -/
def Run.Shaded (r t : Run) (filtering : Bool) (name : String) (c : Nat) (path : List Nat) : Prop :=
  ∃ path' m, t.graph.BranchAt c path' m ∧ r.Since t m ∧
    name ∈ (t.offered filtering m).map Prod.fst ∧ List.Shortlex (· < ·) path' path ∧
    ¬path' <+: path

/-- The composition has the names that branches below it have of their own, each bound to what the
foremost of these has, unless that one is shaded. -/
structure Run.Draws (r t : Run) (filtering : Bool) (m : Nat) : Prop where
  visited : (t.graph.node m).visited = true
  branches : ∀ b, t.graph.Branch m b → (t.graph.node b).visited = true
  names : ∀ name, name ∈ (t.graph.node m).props.map Prod.fst ↔
    ∃ b, t.graph.Branch m b ∧ r.Own t filtering name b
  foremost : ∀ {name prop path b}, r.Foremost t filtering name m path b →
    (name, prop) ∈ (t.graph.node m).props →
      (name, prop) ∈ t.offered filtering b ∨ r.Shaded t filtering name m path

/-! ## Another composition is merged -/

section Merge

variable {found : List Nat} (h : Ends (Build.consolidate d i) s found t) (sound : s.graph.Sound)
  (composition : (s.graph.node i).kind.isComposition = true)

include h sound composition

/-- What was visited offers the same as before. -/
theorem Build.offered_of_consolidate (inside : b < s.graph.size)
    (visited : (s.graph.node b).visited = true) (ne : b ≠ i) :
    t.offered filtering b = s.offered filtering b := by
  have drafts := (consolidate_drafts h sound composition).1
  have grows := drafts.grows
  have props : (t.graph.node b).props = (s.graph.node b).props := by
    cases merged : (s.graph.node b).isMerged with
    | true => exact grows.props inside (Graph.notMem_unvisited.mpr visited) merged
    | false =>
      rw [sound.unmerged merged]
      refine (drafts.sound sound).unmerged (Bool.eq_false_iff.mpr fun merged' => ?_)
      rw [Node.isMerged, Bool.or_eq_false_iff] at merged
      rw [Node.isMerged, grows.kind inside, merged.1, Bool.false_or] at merged'
      have before := (consolidated_of_consolidate h sound composition
        (inside.trans_le grows.size_le) merged' ne).2
      rw [merged.2] at before
      cases before
  rw [Run.offered, Run.offered, props]
  exact List.filter_congr fun x field => isAllowed_after grows drafts.filter
    (Graph.lt_size_of_mem_ancestors (sound.fields field).above)

/-- Only the node that is consolidated is new since. -/
theorem Run.since_iff (inside : b < s.graph.size) (ne : b ≠ i) :
    r.Since t b ↔ r.Since s b := by
  have grows := (Build.consolidate_drafts h sound composition).1.grows
  refine ⟨fun since => ?_, fun since => ?_⟩
  · obtain ⟨composed, merged, fresh⟩ := since
    rw [grows.kind inside] at composed
    exact ⟨composed, (Build.consolidated_of_consolidate h sound composition
      (inside.trans_le grows.size_le) merged ne).2, fresh⟩
  · exact ⟨(grows.kind inside).symm ▸ since.composition,
      (grows.keeps inside).consolidated since.merged, since.fresh⟩

theorem Run.since_of_consolidate (grown : r.graph.Extends s.graph)
    (fresh : (s.graph.node i).consolidated = false) : r.Since t i := by
  obtain ⟨drafts, merged⟩ := Build.consolidate_drafts h sound composition
  have inside : i < s.graph.size := Graph.lt_size_of_ne fun e => by
    rw [e] at composition
    cases composition
  refine ⟨drafts.grows.kind inside ▸ composition, merged, fun old => ?_⟩
  exact Bool.eq_false_iff.mpr fun before =>
    Bool.eq_false_iff.mp fresh ((grown.keeps old).consolidated before)

/-- What a visited branch has of its own does not change. -/
theorem Run.own_iff (grown : r.graph.Extends s.graph)
    (fresh : (s.graph.node i).consolidated = false) (inside : b < s.graph.size)
    (visited : (s.graph.node b).visited = true) :
    r.Own t filtering name b ↔ r.Own s filtering name b := by
  by_cases ne : b = i
  · subst ne
    refine ⟨fun own => absurd (since_of_consolidate h sound composition grown fresh) own.before,
      fun own => ?_⟩
    obtain ⟨x, offered, -⟩ := List.mem_map.mp own.named
    have field := (List.mem_filter.mp offered).1
    rw [sound.unmerged (by rw [Node.isMerged, composition, fresh]; rfl)] at field
    cases field
  · have since := since_iff h sound composition (r := r) inside ne
    have offered : t.offered filtering b = s.offered filtering b :=
      Build.offered_of_consolidate h sound composition inside visited ne
    exact ⟨fun own => ⟨fun x => own.before (since.mpr x), offered ▸ own.named⟩,
      fun own => ⟨fun x => own.before (since.mp x), offered.symm ▸ own.named⟩⟩

/-- What was merged before keeps its fields. -/
theorem Run.Draws.consolidate (draws : r.Draws s filtering m) (grown : r.graph.Extends s.graph)
    (fresh : (s.graph.node i).consolidated = false) (since : r.Since s m) :
    r.Draws t filtering m := by
  obtain ⟨drafts, -⟩ := Build.consolidate_drafts h sound composition
  have grows := drafts.grows
  have lt : ∀ {x}, r.Since s x → x < s.graph.size := fun since => Graph.lt_size_of_ne fun e => by
    have composed := since.composition
    rw [e] at composed
    cases composed
  have inside := lt since
  have ne : ∀ {x}, r.Since s x → x ≠ i := fun since same => by
    have merged := since.merged
    rw [same, fresh] at merged
    cases merged
  have since' : ∀ {x}, r.Since s x → r.Since t x := fun since =>
    (since_iff h sound composition (lt since) (ne since)).mpr since
  have back : ∀ {b}, t.graph.Branch m b → s.graph.Branch m b := fun branch =>
    branch.of_grows grows sound inside draws.visited draws.branches
  have done : ∀ {b}, s.graph.Branch m b → b < s.graph.size ∧ (s.graph.node b).visited = true :=
    fun branch => ⟨branch.lt_size sound, draws.branches _ branch⟩
  have own : ∀ {name b}, s.graph.Branch m b →
      (r.Own t filtering name b ↔ r.Own s filtering name b) := fun branch =>
    own_iff h sound composition grown fresh (done branch).1 (done branch).2
  have props : (t.graph.node m).props = (s.graph.node m).props :=
    grows.props inside (Graph.notMem_unvisited.mpr draws.visited)
      (by rw [Node.isMerged, since.merged, Bool.or_true])
  have there : ∀ {path b}, t.graph.BranchAt m path b → s.graph.BranchAt m path b := fun here =>
    here.of_grows grows sound inside draws.visited draws.branches
  -- The composition itself has no name of its own.
  have branch : ∀ {path b}, s.graph.BranchAt m path b → ¬r.Since s b → s.graph.Branch m b :=
    fun here before => here.eq_or_branch.resolve_left fun same => before (same.2 ▸ since)
  refine ⟨(grows.keeps inside).visited draws.visited, fun b below => ?_, fun name => ?_, ?_⟩
  · exact (grows.keeps (done (back below)).1).visited (done (back below)).2
  · rw [props, draws.names]
    refine exists_congr fun b => ⟨?_, ?_⟩ <;> rintro ⟨below, mine⟩
    · exact ⟨below.extend grows.toExtends, (own below).mpr mine⟩
    · exact ⟨back below, (own (back below)).mp mine⟩
  · intro name prop path b foremost field
    have here := there foremost.here
    have below := branch here fun since => foremost.own.before (since' since)
    have mine := (own below).mp foremost.own
    rw [props] at field
    refine (draws.foremost ⟨here, mine, fun {path' b'} other mine => ?_⟩ field).imp
      (fun offered => ?_) fun shaded => ?_
    · exact foremost.first (other.extend grows.toExtends)
        ((own (branch other mine.before)).mpr mine)
    · rwa [Build.offered_of_consolidate h sound composition (done below).1 (done below).2
        fun same =>
        foremost.own.before (same ▸ since_of_consolidate h sound composition grown fresh)]
    · obtain ⟨path', x, at_, since, named, less, above⟩ := shaded
      have lower := at_.eq_or_branch.resolve_left fun same => above (same.1 ▸ List.nil_prefix)
      refine ⟨path', x, at_.extend grows.toExtends, since' since, ?_, less, above⟩
      rwa [Build.offered_of_consolidate h sound composition (done lower).1
        (done lower).2 (ne since)]

end Merge

/-! ## A composition is merged itself -/

/-- A common start is no matter in the order of paths. -/
theorem shortlex_of_append {p q q' : List Nat} (less : List.Shortlex (· < ·) (p ++ q) (p ++ q')) :
    List.Shortlex (· < ·) q q' := by
  induction p with
  | nil => exact less
  | cons k p ih => exact ih less.of_cons

namespace Run.MergedAt

variable {found : List Nat} (merged : t.MergedAt c found) (sound : t.graph.Sound)
  (since : r.Since t c)
  (drawn : ∀ b, t.graph.Branch c b → r.Since t b → r.Draws t t.isFiltering b)

include merged

include sound in
/-- Of two branches that have been found the one that comes first stands before the other. -/
theorem before {before after : List Nat} (here : found = before ++ b :: after) (mem : a ∈ after)
    (composition : (t.graph.node c).kind.isComposition = true)
    (at_ : t.graph.BranchAt c path b) (other : t.graph.BranchAt c path' a) :
    List.Shortlex (· < ·) path path' := by
  obtain ⟨-, ordered⟩ := merged.walks.ordered sound
    (.start (Kind.expands_of_isComposition composition))
  rw [here] at ordered
  obtain ⟨p, q, here', there', less⟩ :=
    (List.pairwise_cons.mp (List.pairwise_append.mp ordered).2.1).1 a mem
  rwa [here'.unique sound at_, there'.unique sound other] at less

include drawn

/-- A composition has the names that its branches have of their own. -/
theorem names (name : String) : name ∈ (t.graph.node c).props.map Prod.fst ↔
    ∃ b, t.graph.Branch c b ∧ r.Own t t.isFiltering name b := by
  have perm := Text.sortByName_perm Prod.fst (Graph.addOffers (t.offered t.isFiltering) [] found)
  rw [merged.props, (perm.map Prod.fst).mem_iff, Graph.mem_keys_addOffers, List.map_nil,
    or_iff_right List.not_mem_nil]
  refine ⟨fun ⟨b, mem, named⟩ => ?_, fun ⟨b, branch, own⟩ =>
    ⟨b, (merged.branch b).mpr branch, own.named⟩⟩
  have branch := (merged.branch b).mp mem
  by_cases since : r.Since t b
  · obtain ⟨x, offered, rfl⟩ := List.mem_map.mp named
    have field := List.mem_map_of_mem (f := Prod.fst) (List.mem_filter.mp offered).1
    obtain ⟨o, below, own⟩ := ((drawn b branch since).names x.1).mp field
    exact ⟨o, branch.trans below, own⟩
  · exact ⟨b, branch, since, named⟩

include sound since in
/-- A field is that of the foremost branch with the name, unless the branch is shaded. -/
theorem foremost {prop : Nat} (foremost : r.Foremost t t.isFiltering name c path b)
    (field : (name, prop) ∈ (t.graph.node c).props) :
    (name, prop) ∈ t.offered t.isFiltering b ∨ r.Shaded t t.isFiltering name c path := by
  have perm := Text.sortByName_perm Prod.fst (Graph.addOffers (t.offered t.isFiltering) [] found)
  rw [merged.props, perm.mem_iff] at field
  obtain none | ⟨before, o, after, split, offered, -, first⟩ := Graph.mem_addOffers field
  · cases none
  have mem : o ∈ found := split ▸ List.mem_append_right _ List.mem_cons_self
  have branch := (merged.branch o).mp mem
  obtain ⟨path', here⟩ := Graph.BranchAt.of_branch branch
  have mine : t.graph.Branch c b := foremost.here.eq_or_branch.resolve_left fun same =>
    foremost.own.before (same.2 ▸ since)
  have found : b ∈ before ++ o :: after := split ▸ (merged.branch b).mpr mine
  have named : name ∈ (t.offered t.isFiltering o).map Prod.fst := List.mem_map_of_mem offered
  -- What has the name of its own comes no earlier than the branch that the name went to.
  have later : b = o ∨ List.Shortlex (· < ·) path' path := by
    rcases List.mem_append.mp found with early | late
    · exact absurd foremost.own.named (first b early)
    · exact (List.mem_cons.mp late).imp_right fun late =>
        merged.before sound split late since.composition here foremost.here
  by_cases since : r.Since t o
  · have less := later.resolve_left fun same => foremost.own.before (same ▸ since)
    by_cases above : path' <+: path
    swap
    · exact .inr ⟨path', o, here, since, named, less, above⟩
    obtain ⟨rest, rfl⟩ := above
    have below : r.Foremost t t.isFiltering name o rest b :=
      ⟨here.after foremost.here, foremost.own, fun other own =>
        (foremost.first (here.trans other) own).imp List.append_cancel_left shortlex_of_append⟩
    refine ((drawn o branch since).foremost below (List.mem_filter.mp offered).1).imp_right ?_
    rintro ⟨q, m, there, since, named, less, apart⟩
    refine ⟨path' ++ q, m, here.trans there, since, named, less.append_left path', fun above => ?_⟩
    exact apart ((List.prefix_append_right_inj path').mp above)
  · rcases foremost.first here ⟨since, named⟩ with rfl | less
    · exact .inl (here.same foremost.here ▸ offered)
    · exact .inl (later.resolve_right (asymm_of _ less) ▸ offered)

/-- What a composition gets is drawn from the branches below it, when that holds of those that were
merged since. -/
theorem draws (sound : t.graph.Sound) (since : r.Since t c) : r.Draws t t.isFiltering c where
  visited := merged.visited
  branches b branch := (merged.done b ((merged.branch b).mpr branch)).2
  names := merged.names drawn
  foremost := merged.foremost sound since drawn

end Run.MergedAt

end RestGraph
