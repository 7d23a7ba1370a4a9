import RestGraph.Document.References
import RestGraph.Proofs.Graph.Citing
import RestGraph.Proofs.Schema.Attained

/-!
# References of a checked description

A description is checked for references that lead nowhere, wherever in it they lead. References are
followed into the sections of components only. So in a checked description a reference is missed
exactly because it leads somewhere else.
-/

namespace RestGraph

variable {d : Document} {ptrs : List String} {r s : Run}

namespace Json

variable {root : Json} {pointer : String}

mutual

/-- Every reference is checked. -/
theorem referenceFault?_of_issuesIn : ∀ {j : Json} {path : List String},
    issuesIn root path j = [] → pointer ∈ j.pointers → referenceFault? root pointer = none
  | .object members, path, empty, mem => by
    rw [issuesIn, List.append_eq_nil_iff] at empty
    rcases List.mem_append.mp mem with own | inner
    · have ref : (Json.object members).ref? = some pointer := Option.mem_toList.mp own
      have fine := empty.1
      rw [ownIssue, ref] at fine
      dsimp only at fine
      split at fine
      · assumption
      · cases fine
    · exact referenceFault?_of_issuesInMembers empty.2 inner
  | .list items, path, empty, mem => referenceFault?_of_issuesInItems empty mem

theorem referenceFault?_of_issuesInItems : ∀ {items : List Json} {path : List String} {i : Nat},
    issuesInItems root path i items = [] → pointer ∈ pointersItems items →
    referenceFault? root pointer = none
  | j :: rest, path, i, empty, mem => by
    rw [issuesInItems, List.append_eq_nil_iff] at empty
    exact (List.mem_append.mp mem).elim (referenceFault?_of_issuesIn empty.1)
      (referenceFault?_of_issuesInItems empty.2)

theorem referenceFault?_of_issuesInMembers : ∀ {members : List (String × Json)}
    {path : List String}, issuesInMembers root path members = [] →
    pointer ∈ pointersMembers members → referenceFault? root pointer = none
  | (key, j) :: rest, path, empty, mem => by
    rw [issuesInMembers, List.append_eq_nil_iff] at empty
    exact (List.mem_append.mp mem).elim (referenceFault?_of_issuesIn empty.1)
      (referenceFault?_of_issuesInMembers empty.2)

end

end Json

/-- A reference that passes the check leads somewhere. -/
theorem Document.lookup?_of_checked (checked : d.root.referenceIssues = []) {pointer : String}
    (mem : pointer ∈ d.root.pointers)
    (section_ : (componentSections.any fun s => Text.startsWith s pointer) = true) :
    (d.lookup? pointer).isSome = true := by
  have sound := Json.referenceFault?_of_issuesIn checked mem
  unfold Json.referenceFault? at sound
  rw [lookup?, if_pos section_]
  split at sound
  · cases sound
  · next fragment found =>
    split at sound
    · next some =>
      rw [found]
      exact some
    · cases sound

namespace Run

theorem visit_cites (root : d.root.Cites ptrs) {i : Nat} {x : Except Fault PUnit}
    (cites : r.Cites ptrs) (h : (Build.visit d i).run r = (x, s)) : s.Cites ptrs := by
  have after := (Build.follows_visit root (i := i) r cites).1
  rwa [h] at after

/-- The course of runs that cite nothing but the references given. -/
def citing (root : d.root.Cites ptrs) : Course d where
  holds := Cites ptrs
  along r s := r.Cites ptrs → s.Cites ptrs
  preorder := { refl := fun _ => id, trans := fun _ _ _ first second => second ∘ first }
  keeps along := along
  registry notes _ := fun cites i => notes.graph ▸ cites i
  visit _ h cites := visit_cites root cites h

instance (root : d.root.Cites ptrs) : (citing root).Bookless :=
  ⟨fun graph _ _ _ cites i => graph ▸ cites i⟩

def keepsCiting (root : d.root.Cites ptrs) : OpenRegime d where
  toCourse := citing root
  consolidate _ := Build.coming_consolidate_of (S := citing root)
    (fun _ cites => cites.modify fun _ cites => ⟨cites.schema, cites.kind⟩)
    fun _ _ cites => cites.modify fun _ cites => ⟨cites.schema, cites.kind⟩
  frames := id

instance (root : d.root.Cites ptrs) : (keepsCiting root).toCourse.Enduring where
  fails _ h cites := visit_cites root cites h

/-- The run of a document cites the pointers of the document. -/
theorem ofDocument_cites (d : Document) : (Run.ofDocument d).Cites d.root.pointers := fun i => by
  have root : d.root.Cites d.root.pointers := Json.everywhere_isKnown.mpr (List.Subset.refl _)
  change ((Graph.ofDocument d).node i).Cites d.root.pointers
  rcases Graph.ofDocument_lists d i with nowhere | lists
  · rw [nowhere]
    exact ⟨rfl, nofun, nofun⟩
  · refine ⟨root.inside lists.schema, fun j mem => root.inside (lists.shared j mem), fun same => ?_⟩
    have tag := lists.tag
    rw [same] at tag
    cases tag

/-- A run that calls attain cites the pointers of the document. -/
theorem Attained.cites (attained : r.Attained d) : r.Cites d.root.pointers := by
  have root : d.root.Cites d.root.pointers := Json.everywhere_isKnown.mpr (List.Subset.refl _)
  induction attained with
  | start => exact ofDocument_cites d
  | call c _ cites => exact c.after_along (S := keepsCiting root) cites cites

/-- A call fails for a reference that the description cites and that has no component. -/
theorem Attained.misses (attained : r.Attained d) (c : Call) {pointer path : String}
    (fails : (c.step d).run r = (.error (.reference pointer path), s)) :
    pointer ∈ d.root.pointers ∧ d.lookup? pointer = none := by
  have root : d.root.Cites d.root.pointers := Json.everywhere_isKnown.mpr (List.Subset.refl _)
  obtain ⟨x, u, along, visit⟩ := (c.coming (S := keepsCiting root) attained.cites).gaps fails rfl
  have misses := (Build.follows_visit root (i := x) u (along attained.cites)).2
  rw [visit] at misses
  exact misses rfl

/-- In a checked description only references that lead into no section of components are missed. -/
theorem Attained.misses_of_checked (attained : r.Attained d) (checked : d.root.referenceIssues = [])
    (c : Call) {pointer path : String}
    (fails : (c.step d).run r = (.error (.reference pointer path), s)) :
    pointer ∈ d.root.pointers ∧
      componentSections.any (fun s => Text.startsWith s pointer) = false := by
  obtain ⟨cited, lost⟩ := attained.misses c fails
  refine ⟨cited, Bool.eq_false_iff.mpr fun inside => ?_⟩
  have found := Document.lookup?_of_checked checked cited inside
  rw [lost] at found
  cases found

end Run

/-- A description that keeps a schema outside the sections of components. -/
def Document.outside : Document :=
  ⟨.object [("paths", .object [("/a", .object [("get", .object [("operationId", .text "a"),
      ("responses", .object [("200",
        (Json.object [("$ref", .text "#/definitions/Foo")]).jsonContent)])])])]),
    ("definitions", .object [("Foo", .typeSchema "string")])]⟩

/-- The reference passes the check, and is missed. -/
theorem outside_fails : Document.outside.root.referenceIssues = [] ∧ ∃ path s,
    (Build.collect .outside ["get:/a>**"]).run (.ofDocument .outside) =
      (.error (.reference "#/definitions/Foo" path), s) := by
  refine ⟨by decide +kernel, ?_⟩
  have run : (match (Build.collect .outside ["get:/a>**"]).run (.ofDocument .outside) with
      | (.error (.reference pointer _), _) => pointer == "#/definitions/Foo"
      | _ => false) = true := by
    decide +kernel
  split at run
  · next pointer path s fails =>
    rw [beq_iff_eq] at run
    exact ⟨path, s, run ▸ fails⟩
  · cases run

theorem outside_misses : ∃ pointer path s,
    ((Call.visit 0).step .outside).run (.ofDocument .outside) =
      (.error (.reference pointer path), s) ∧
    pointer ∈ Document.outside.root.pointers ∧
      componentSections.any (fun s => Text.startsWith s pointer) = false := by
  have run : (match ((Call.visit 0).step .outside).run (.ofDocument .outside) with
      | (.error (.reference _ _), _) => true
      | _ => false) = true := by
    decide +kernel
  split at run
  · next pointer path s fails =>
    exact ⟨pointer, path, s, fails,
      Run.Attained.misses_of_checked .start (by decide +kernel) (.visit 0) fails⟩
  · cases run

end RestGraph
