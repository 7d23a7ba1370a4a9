import RestGraph.Proofs.Schema.Counterparts
import RestGraph.Proofs.Schema.Session

/-!
# The order of merges

In what order compositions are merged is of little matter for the fields that one of them gets: the
names are the same, and so is what they are bound to, unless a composition that was merged before
shades the nearest branch that has the name.
-/

namespace RestGraph

variable {d : Document} {r s t u : Run} {b c m : Nat} {bs : List Nat} {path : List Nat}
  {name : String} {filtering : Bool}

namespace Run

/-- Compositions are merged one after the other. -/
inductive Merges (d : Document) (r : Run) : List Nat → Run → Prop
  | none : Merges d r [] r
  | merge {bs found : List Nat} {s t : Run} {b : Nat} (before : Merges d r bs s)
      (composition : (s.graph.node b).kind.isComposition = true)
      (ends : Ends (Build.consolidate d b) s found t) : Merges d r (bs ++ [b]) t

namespace Merges

theorem follows (merges : r.Merges d bs s) (guided : r.Guided d) : r.Follows d s := by
  induction merges with
  | none => exact ⟨guided.resumes, .refl d r⟩
  | merge _ composition ends ih =>
    exact ⟨ih.resumes.consolidate ends, ih.drafts.trans
      (Build.consolidate_drafts ends (ih.drafts.sound guided.sound) composition).1⟩

/-- A merge that was made before changes nothing. -/
theorem eq_of_merged {found : List Nat} (ends : Ends (Build.consolidate d b) s found t)
    (merged : (s.graph.node b).consolidated = true) : s = t := by
  obtain ⟨-, same⟩ | ⟨fresh, -⟩ := Build.consolidate_cases ends
  · exact same
  · rw [merged] at fresh
    cases fresh

/-- What was merged since is among what was asked for, and draws its fields from below. -/
theorem draws (merges : r.Merges d bs s) (guided : r.Guided d) (since : r.Since s m) :
    m ∈ bs ∧ r.Draws s r.isFiltering m := by
  induction merges generalizing m with
  | none =>
    have inside : m < r.graph.size := Graph.lt_size_of_ne fun nowhere => by
      have composed := since.composition
      rw [nowhere] at composed
      cases composed
    have fresh := since.fresh inside
    rw [since.merged] at fresh
    cases fresh
  | @merge bs found s t b before composition ends ih =>
    cases fresh : (s.graph.node b).consolidated with
    | true =>
      obtain rfl := eq_of_merged ends fresh
      exact (ih since).imp_left (List.mem_append_left _)
    | false =>
      have follows := before.follows guided
      have sound := follows.drafts.sound guided.sound
      have drafts := (Build.consolidate_drafts ends sound composition).1
      have grown := follows.resumes.grown
      -- Whatever else was merged since had been merged before this one.
      have earlier : ∀ {x}, r.Since t x → x ≠ b → r.Since s x := fun since ne => by
        have inside : _ < t.graph.size := Graph.lt_size_of_ne fun nowhere => by
          have composed := since.composition
          rw [nowhere] at composed
          cases composed
        have old :=
          (Build.consolidated_of_consolidate ends sound composition inside since.merged ne).1
        exact (since_iff ends sound composition old ne).mp since
      have others : ∀ {x}, r.Since t x → x ≠ b → r.Draws t r.isFiltering x := fun since ne =>
        (ih (earlier since ne)).2.consolidate ends sound composition grown fresh (earlier since ne)
      by_cases same : m = b
      · subst same
        refine ⟨List.mem_append_right _ (List.mem_singleton_self m), ?_⟩
        have all := follows.drafts.trans drafts
        rw [← isFiltering_congr all.filter all.stack] at others ⊢
        have sound' := drafts.sound sound
        exact (Build.consolidate_mergedAt ends sound composition fresh).draws
          (fun x branch since => others since
            (Nat.ne_of_gt (Graph.lt_of_mem_ancestors (branch.mem_ancestors sound')))) sound' since
      · exact ⟨List.mem_append_left _ (ih (earlier since same)).1, others since same⟩

end Merges

/-- Of the branches that have a name of their own one is the foremost. -/
theorem exists_foremost (some : ∃ path b, t.graph.BranchAt c path b ∧ r.Own t filtering name b) :
    ∃ path b, r.Foremost t filtering name c path b := by
  have order : WellFounded (List.Shortlex (· < · : Nat → Nat → Prop)) :=
    List.Shortlex.wf wellFounded_lt
  obtain ⟨path, ⟨b, here, own⟩, least⟩ := order.has_min
    { path | ∃ b, t.graph.BranchAt c path b ∧ r.Own t filtering name b } some
  refine ⟨path, b, here, own, fun {path' b'} other mine => ?_⟩
  rcases trichotomous_of (List.Shortlex (· < ·)) path' path with less | same | more
  · exact absurd less (least path' ⟨b', other, mine⟩)
  · exact .inl same
  · exact .inr more

/-- The branches below a composition that was merged were visited. -/
theorem Draws.isDone (draws : r.Draws t filtering c) (sound : t.graph.Sound) (since : r.Since t c)
    (here : t.graph.BranchAt c path b) : t.graph.IsDone b := by
  rcases here.eq_or_branch with ⟨-, rfl⟩ | branch
  · refine ⟨Graph.lt_size_of_ne fun nowhere => ?_, draws.visited⟩
    have composed := since.composition
    rw [nowhere] at composed
    cases composed
  · exact ⟨branch.lt_size sound, draws.branches b branch⟩

theorem Draws.exists_own (draws : r.Draws t filtering c)
    (named : name ∈ (t.graph.node c).props.map Prod.fst) :
    ∃ path b, t.graph.BranchAt c path b ∧ r.Own t filtering name b := by
  obtain ⟨b, branch, own⟩ := (draws.names name).mp named
  obtain ⟨path, here⟩ := Graph.BranchAt.of_branch branch
  exact ⟨path, b, here, own⟩

section Both

variable (guided : r.Guided d) (first : r.Follows d s) (second : r.Follows d t)
  (inside : c < r.graph.size) (since : r.Since s c) (since' : r.Since t c)
  (draws : r.Draws s filtering c) (draws' : r.Draws t filtering c)

include guided first second inside since since' draws draws'

/-- What has a name of its own has a counterpart that has it. -/
theorem own_of_own (here : s.graph.BranchAt c path b) (own : r.Own s filtering name b) :
    ∃ b', t.graph.BranchAt c path b' ∧ s.graph.Counterpart r.graph.size t.graph b b' ∧
      r.Own t filtering name b' := by
  have sound := first.drafts.sound guided.sound
  have sound' := second.drafts.sound guided.sound
  obtain ⟨b', there, pair⟩ := first.branchAt guided second inside (draws.isDone sound since)
    (draws'.isDone sound' since') here
  exact ⟨b', there, pair, Follows.own guided first second pair (draws.isDone sound since here)
    (draws'.isDone sound' since' there) own⟩

theorem names_of_names (named : name ∈ (s.graph.node c).props.map Prod.fst) :
    name ∈ (t.graph.node c).props.map Prod.fst := by
  obtain ⟨path, b, here, own⟩ := draws.exists_own named
  obtain ⟨b', there, -, own'⟩ :=
    own_of_own guided first second inside since since' draws draws' here own
  refine (draws'.names name).mpr ⟨b', there.eq_or_branch.resolve_left fun same => ?_, own'⟩
  exact own'.before (same.2 ▸ since')

theorem foremost_of_foremost (foremost : r.Foremost s filtering name c path b) :
    ∃ b', r.Foremost t filtering name c path b' ∧
      s.graph.Counterpart r.graph.size t.graph b b' := by
  obtain ⟨b', there, pair, own'⟩ := own_of_own guided first second inside since since' draws draws'
    foremost.here foremost.own
  refine ⟨b', ⟨there, own', fun other mine => ?_⟩, pair⟩
  obtain ⟨x, here, -, own⟩ :=
    own_of_own guided second first inside since' since draws' draws other mine
  exact foremost.first here own

end Both

/-- A composition that is merged right away, or after others: the names are the same, and each is
bound to counterparts, unless some other one that was merged has the name and stands before the
foremost branch that has it of its own, and not above it. -/
theorem Guided.consolidate_agrees {found found' : List Nat} (guided : r.Guided d)
    (composition : (r.graph.node c).kind.isComposition = true)
    (alone : Ends (Build.consolidate d c) r found s) (merges : r.Merges d bs t)
    (after : Ends (Build.consolidate d c) t found' u) :
    (∀ name, name ∈ (s.graph.node c).props.map Prod.fst ↔
      name ∈ (u.graph.node c).props.map Prod.fst) ∧
    ∀ name p q, (name, p) ∈ (s.graph.node c).props → (name, q) ∈ (u.graph.node c).props →
      s.graph.Counterpart r.graph.size u.graph p q ∨
      ∃ path b, r.Foremost s s.isFiltering name c path b ∧
        ∃ path', ∃ m ∈ bs, u.graph.BranchAt c path' m ∧
          name ∈ (u.offered u.isFiltering m).map Prod.fst ∧
          List.Shortlex (· < ·) path' path ∧ ¬path' <+: path := by
  have inside : c < r.graph.size := Graph.lt_size_of_ne fun nowhere => by
    rw [nowhere] at composition
    cases composition
  have between := merges.follows guided
  have composition' : (t.graph.node c).kind.isComposition = true :=
    between.drafts.grows.kind inside ▸ composition
  have one : r.Merges d [c] s := .merge .none composition alone
  have all : r.Merges d (bs ++ [c]) u := .merge merges composition' after
  have first := one.follows guided
  have second := all.follows guided
  have filtering := isFiltering_congr first.drafts.filter first.drafts.stack
  have filtering' := isFiltering_congr second.drafts.filter second.drafts.stack
  cases fresh : (r.graph.node c).consolidated with
  | true =>
    have same := Follows.mergedFields guided first second inside composition fresh
    have names : (s.graph.node c).props.map Prod.fst = (u.graph.node c).props.map Prod.fst :=
      map_eq_of_forall₂ (same.imp fun _ _ => And.left)
    refine ⟨fun name => by rw [names], fun name p q field field' => .inl ?_⟩
    exact Graph.counterpart_of_sameFields same ((second.drafts.sound guided.sound).keys c)
      field field'
  | false =>
    have sound := first.drafts.sound guided.sound
    have sound' := second.drafts.sound guided.sound
    have since : r.Since s c := ⟨first.drafts.grows.kind inside ▸ composition,
      (Build.consolidate_drafts alone guided.sound composition).2, fun _ => fresh⟩
    have since' : r.Since u c := ⟨second.drafts.grows.kind inside ▸ composition,
      (Build.consolidate_drafts after (between.drafts.sound guided.sound) composition').2,
      fun _ => fresh⟩
    have draws := (one.draws guided since).2
    have draws' := (all.draws guided since').2
    -- The composition stands above all that is below it, so it shades nothing there.
    have other : ∀ {g : Graph} {path path' m}, g.Sound → g.BranchAt c path' m → ¬path' <+: path →
        m ≠ c := fun sound here apart same => apart <| by
      subst same
      rw [here.unique sound .top]
      exact List.nil_prefix
    refine ⟨fun name => ⟨names_of_names guided first second inside since since' draws draws',
      names_of_names guided second first inside since' since draws' draws⟩,
      fun name p q field field' => ?_⟩
    rw [filtering, filtering']
    obtain ⟨path, b, foremost⟩ := exists_foremost (draws.exists_own (List.mem_map_of_mem field))
    obtain ⟨b', foremost', pair⟩ :=
      foremost_of_foremost guided first second inside since since' draws draws' foremost
    have offered : (name, p) ∈ s.offered r.isFiltering b := by
      refine (draws.foremost foremost field).resolve_right ?_
      rintro ⟨path', m, here, shades, -, -, apart⟩
      exact other sound here apart (List.mem_singleton.mp (one.draws guided shades).1)
    rcases draws'.foremost foremost' field' with offered' |
      ⟨path', m, here, shades, named, less, apart⟩
    · have same :=
        (Follows.offered guided first second pair (draws.isDone sound since foremost.here)
        (draws'.isDone sound' since' foremost'.here) foremost.own).2
      refine .inl (Graph.counterpart_of_sameFields same ?_ offered offered')
      exact (List.filter_sublist.map Prod.fst).nodup (sound'.keys b')
    · have mem := (List.mem_append.mp (all.draws guided shades).1).resolve_right fun last =>
        other sound' here apart (List.mem_singleton.mp last)
      exact .inr ⟨path, b, foremost, path', m, mem, here, named, less, apart⟩

end Run

/-- A composition of a composition and of an object, both with a field of the same name. -/
def Document.shaded : Document :=
  .answer (.allOfSchema [.allOfSchema [.objectSchema [("p", .typeSchema "string")]],
    .objectSchema [("p", .typeSchema "integer")]]) []

/-- On its own the outer composition takes the field of the object next to the inner one. -/
theorem shaded_merges : ∃ r s t u : Run, ∃ found found', r.Guided .shaded ∧
    (r.graph.node 2).kind.isComposition = true ∧ 2 ∈ r.graph.ancestors 3 ∧ r.graph.size = 8 ∧
    Ends (Build.consolidate .shaded 2) r found s ∧ r.Merges .shaded [3] t ∧
    Ends (Build.consolidate .shaded 2) t found' u ∧
    (s.graph.node 2).props = [("p", 7)] ∧ (u.graph.node 2).props = [("p", 5)] := by
  let r := (Call.visit 1).after .shaded ((Call.visit 0).after .shaded (.ofDocument .shaded))
  have guided : r.Guided .shaded := .call (.visit 1) (fun _ other => by cases other)
    (.call (.visit 0) (fun _ other => by cases other) .start)
  have alone : Ends.passes (Build.consolidate .shaded 2) r (fun _ s =>
      (s.graph.node 2).props == [("p", 7)] && (r.graph.node 2).kind.isComposition &&
        (r.graph.ancestors 3).contains 2 && r.graph.size == 8) = true := by decide +kernel
  have inner : Ends.passes (Build.consolidate .shaded 3) r (fun _ t =>
      (r.graph.node 3).kind.isComposition && Ends.passes (Build.consolidate .shaded 2) t fun _ u =>
        (u.graph.node 2).props == [("p", 5)]) = true := by decide +kernel
  clear_value r
  obtain ⟨found, s, alone, facts⟩ := Ends.of_passes alone
  simp only [Bool.and_eq_true, beq_iff_eq, List.contains_iff_mem] at facts
  obtain ⟨⟨⟨props, composition⟩, below⟩, size⟩ := facts
  obtain ⟨_, t, inner, facts⟩ := Ends.of_passes inner
  obtain ⟨composition', after⟩ := Bool.and_eq_true_iff.mp facts
  obtain ⟨found', u, after, props'⟩ := Ends.of_passes after
  exact ⟨r, s, t, u, found, found', guided, composition, below, size, alone,
    .merge .none composition' inner, after, props, beq_iff_eq.mp props'⟩

/-- So the order of merges does matter. -/
theorem shaded_disagrees : ¬∀ (d : Document) (r s t u : Run) (c : Nat) (bs found found' : List Nat),
    r.Guided d → (r.graph.node c).kind.isComposition = true → (∀ b ∈ bs, c ∈ r.graph.ancestors b) →
    Ends (Build.consolidate d c) r found s → r.Merges d bs t →
    Ends (Build.consolidate d c) t found' u →
    ∀ name p q, (name, p) ∈ (s.graph.node c).props → (name, q) ∈ (u.graph.node c).props →
      s.graph.Counterpart r.graph.size u.graph p q := by
  intro claim
  obtain ⟨r, s, t, u, found, found', guided, composition, below, size, alone, merges, after, props,
    props'⟩ := shaded_merges
  have pair := claim .shaded r s t u 2 [3] found found' guided composition
    (fun b mem => List.mem_singleton.mp mem ▸ below) alone merges after "p" 7 5
    (props ▸ List.mem_singleton_self _) (props' ▸ List.mem_singleton_self _)
  cases pair.old (.inl (by rw [size]; decide))

/-- The inner composition, merged first, shades the object. -/
theorem shaded_agrees : ∃ r s t u : Run, r.Guided .shaded ∧
    (r.graph.node 2).kind.isComposition = true ∧ r.Merges .shaded [3] t ∧
    (∃ found, Ends (Build.consolidate .shaded 2) r found s) ∧
    (∃ found, Ends (Build.consolidate .shaded 2) t found u) ∧
    (s.graph.node 2).props = [("p", 7)] ∧ (u.graph.node 2).props = [("p", 5)] ∧
    ∃ path b, r.Foremost s s.isFiltering "p" 2 path b ∧
      ∃ path', u.graph.BranchAt 2 path' 3 ∧ List.Shortlex (· < ·) path' path ∧ ¬path' <+: path := by
  obtain ⟨r, s, t, u, found, found', guided, composition, -, size, alone, merges, after, props,
    props'⟩ := shaded_merges
  refine ⟨r, s, t, u, guided, composition, merges, ⟨found, alone⟩, ⟨found', after⟩,
    props, props', ?_⟩
  obtain pair | ⟨path, b, foremost, path', m, mem, here, -, less, apart⟩ :=
    (guided.consolidate_agrees composition alone merges after).2 "p" 7 5
      (props ▸ List.mem_singleton_self _) (props' ▸ List.mem_singleton_self _)
  · cases pair.old (.inl (by rw [size]; decide))
  · obtain rfl := List.mem_singleton.mp mem
    exact ⟨path, b, foremost, path', here, less, apart⟩

end RestGraph
