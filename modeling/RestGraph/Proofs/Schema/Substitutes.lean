import RestGraph.Proofs.Graph.Tally
import RestGraph.Proofs.Schema.Responding

/-!
# Substitutes

Where something cannot be built, a node stands in for it and a warning says so. Both are made in one
go, whatever comes after, so after any calls there are as many warnings as there are substitutes.
-/

namespace RestGraph

variable {d : Document} {r s : Run} {k : WarningKind} {i : Nat} {free fresh : Nat → Prop}

namespace Run

/-- How many nodes stand in for what a warning of the kind is about. -/
def substitutes (r : Run) (k : WarningKind) : Nat :=
  r.graph.tally fun kind => kind.standsIn? == some k

/-- There are as many new warnings as there are new substitutes. -/
def Accounts (r s : Run) : Prop :=
  ∀ k ≠ .enumFallback, s.warned k + r.substitutes k = r.warned k + s.substitutes k

instance : IsPreorder Run Accounts where
  refl _ _ _ := rfl
  trans _ _ _ first second k real := by
    have := first k real
    have := second k real
    omega

theorem Accounts.of_same (graph : s.graph = r.graph)
    (warned : ∀ k ≠ .enumFallback, s.warned k = r.warned k) : r.Accounts s := fun k real => by
  rw [substitutes, substitutes, graph, warned k real]

/-- A node that is changed stands in for what it stood in for before. -/
theorem Accounts.modify {f : Node → Node}
    (keep : (f (r.graph.node i)).kind.standsIn? = (r.graph.node i).kind.standsIn?) :
    r.Accounts (r.onGraph fun g => g.modify i f) := fun k _ => by
  have same : (r.onGraph fun g => g.modify i f).substitutes k = r.substitutes k :=
    Graph.tally_modify (by rw [keep])
  rw [same]
  rfl

/-- A warning is counted once, among those of its kind. -/
@[simp] theorem warned_warn {location message : String} {k k' : WarningKind} :
    (r.warn location k' message).warned k = r.warned k + if k' = k then 1 else 0 := by
  unfold Run.warned Run.warn
  rw [List.countP_append, List.countP_singleton]
  simp only [beq_iff_eq]

/-- A node that is attached is counted where it stands in for something. -/
@[simp]
theorem substitutes_attach {p : Nat} {x : Seed} : (r.onGraph fun g => g.attach p x).substitutes k =
    r.substitutes k + if x.kind.standsIn? = some k then 1 else 0 := by
  unfold substitutes
  rw [onGraph, Graph.tally_attach]
  simp only [beq_iff_eq]

/-- An addition is accounted for. -/
theorem Addition.accounts (addition : r.Addition free s) : r.Accounts s := by
  cases addition with
  | note notes => exact .of_same notes.graph notes.warned
  | attach may solid plain =>
    intro k _
    rw [substitutes_attach, solid, if_neg (Option.some_ne_none k).symm]
    rfl
  | @refer p x pointer may kind =>
    intro k _
    have solid : x.kind.standsIn? = none := kind ▸ rfl
    rw [substitutes_attach, solid, if_neg (Option.some_ne_none k).symm]
    rfl
  | @standIn p x k' location message may kind =>
    intro k _
    have warned : ((r.warn location k' message).onGraph fun g => g.attach p x).warned k =
      r.warned k + if k' = k then 1 else 0 := warned_warn
    have found : ((r.warn location k' message).onGraph fun g => g.attach p x).substitutes k =
      r.substitutes k + if k' = k then 1 else 0 := by
      rw [substitutes_attach, kind]
      simp only [Option.some.injEq]
      rfl
    rw [warned, found]
    omega

theorem Adds.accounts (adds : r.Adds free s) : r.Accounts s := by
  induction adds with
  | refl => exact refl_of _ r
  | tail _ addition ih => exact trans_of _ ih addition.accounts

theorem Act.accounts (act : r.Act free fresh s) : r.Accounts s := by
  cases act with
  | add addition => exact addition.accounts
  | mark | field => exact .modify rfl
  | turn new kind wraps =>
    refine .modify ?_
    rw [kind]
    cases ‹PropShape› <;> first | rfl | cases wraps

/-- Any number of acts is accounted for. -/
theorem Acts.accounts (acts : r.Acts free fresh s) : r.Accounts s := by
  induction acts with
  | refl => exact refl_of _ r
  | tail _ act ih => exact trans_of _ ih act.accounts

/-- The course of warnings and substitutes. -/
def account (d : Document) : Course d where
  holds _ := True
  along := Accounts
  preorder := inferInstance
  keeps _ _ := trivial
  registry notes _ := .of_same notes.graph notes.warned
  visit _ h := Acts.accounts (Build.visit_acts.ends h)

instance : (account d).Enduring where
  fails _ h := Acts.accounts (Build.visit_acts.fails h)

instance : (account d).Bookless :=
  ⟨fun graph _ _ warnings => .of_same graph fun k _ => by rw [warned, warned, warnings]⟩

def accounting (d : Document) : OpenRegime d where
  toCourse := account d
  consolidate _ := Build.coming_consolidate_of (S := account d) (fun _ => .modify rfl)
    fun _ _ => .modify rfl
  frames := .of_same rfl fun _ _ => rfl

instance : (accounting d).toCourse.Enduring := inferInstanceAs (account d).Enduring

theorem graftSchema_accounts {p : Nat} {schema : Json} :
    Along Accounts (Build.graftSchema p schema) r := by
  have adds : ∀ u, Along (Adds fun _ => True) (Build.fromSchema p schema) u := fun _ =>
    Build.fromSchema_adds trivial .all
  exact Along.bind (.modify (.of_same rfl fun _ _ => rfl)) fun _ _ => (adds _).accounts

theorem graftProp_accounts {p : Nat} {name : String} {schema : Json} {required : Bool} :
    Along Accounts (Build.graftProp d p name schema required) r := by
  have acts : ∀ u, Along (Acts (fun _ => True) fun _ => True)
      (Build.fromProp d p name schema required) u :=
    fun _ => Build.fromProp_acts trivial .all
  exact Along.bind (.modify (.of_same rfl fun _ _ => rfl)) fun _ _ => (acts _).accounts

/-- All nodes of the first run are operations. -/
@[simp] theorem substitutes_ofDocument (d : Document) (k : WarningKind) :
    (ofDocument d).substitutes k = 0 := by
  refine List.countP_eq_zero.mpr fun i mem => ?_
  obtain ⟨operation, -⟩ := Graph.unvisited_ofDocument d i (List.mem_range.mp mem)
  change ¬(((Graph.ofDocument d).node i).kind.standsIn? == some k) = true
  cases kind : ((Graph.ofDocument d).node i).kind <;> rw [kind] at operation <;>
    first | exact Bool.false_ne_true | cases operation

/-- Whatever calls and grafts were made, and whether they failed or not. -/
theorem Touched.warned_eq_substitutes (touched : r.Touched d) :
    ∀ k ≠ .enumFallback, r.warned k = r.substitutes k := by
  have accounts : (ofDocument d).Accounts r := by
    induction touched with
    | start => exact refl_of _ _
    | call c _ before => exact trans_of _ before (c.after_along (S := accounting d) trivial)
    | graftSchema _ _ _ before => exact trans_of _ before graftSchema_accounts
    | graftProp _ _ _ _ _ before => exact trans_of _ before graftProp_accounts
  intro k real
  have first := substitutes_ofDocument d k
  have none : (ofDocument d).warned k = 0 := rfl
  have := accounts k real
  omega

end Run

/-- A type whose rows do not say what they hold, and an operation without an answer. -/
def Document.untold : Document :=
  .ofPaths [("/a", .object [("get", .object [("operationId", .text "a"), ("responses",
      .object [("200", (Json.refSchema "Node").jsonContent)])])]),
    ("/b", .object [("get", .object [("operationId", .text "b")])])]
    [("Node", .objectSchema [("next", .refSchema "Node"), ("rows", .typeSchema "array")])]

open WarningKind in
/-- All leaves of both operations, a path that leads nowhere and an array that is grafted. -/
theorem untold_warned : ∃ r : Run, r.Touched .untold ∧
    (∀ k ∈ [circularReference, missingItems, syntheticResponse], 0 < r.warned k) ∧
    ∀ k ≠ enumFallback, r.warned k = r.substitutes k := by
  have walked : Run.Touched .untold _ := (Run.Touched.start.call (.wildcard 0 .deep)).call
    (.wildcard 1 .deep)
  have failed := walked.call (.resolve ⟨["get:/a", "res:404"], none⟩)
  have last := failed.graftSchema (.typeSchema "array") (show 0 < _ by decide +kernel)
  exact ⟨_, last, by decide +kernel, last.warned_eq_substitutes⟩

end RestGraph
