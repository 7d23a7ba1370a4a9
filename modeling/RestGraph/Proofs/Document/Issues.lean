import RestGraph.Document.References
import RestGraph.Proofs.Document.Pointers
import RestGraph.Proofs.Graph.Siblings

/-!
# The report on dangling references

The places of a document are its values with the paths that lead to them, in document order. The
report has an issue for each place that holds a reference at fault, in that order, and the location
of an issue is a pointer back to its place.
-/

namespace RestGraph

namespace Json

/-! ## Places -/

mutual

/-- The values at and below a value, each behind the keys and indices that lead to it and before
what it contains. -/
def places : Json → List (List String × Json)
  | .object members => ([], .object members) :: placesMembers members
  | .list items => ([], .list items) :: placesItems 0 items
  | j => [([], j)]
termination_by structural j => j

def placesItems : Nat → List Json → List (List String × Json)
  | _, [] => []
  | i, j :: rest => j.places.map (Prod.map (List.cons (toString i)) id) ++ placesItems (i + 1) rest
termination_by structural _ items => items

def placesMembers : List (String × Json) → List (List String × Json)
  | [] => []
  | (key, j) :: rest => j.places.map (Prod.map (List.cons key) id) ++ placesMembers rest
termination_by structural members => members

end

variable {root j x : Json} {path : List String} {target : String}

theorem mem_map_cons_iff {key : String} {places : List (List String × Json)} :
    (path, x) ∈ places.map (Prod.map (List.cons key) id) ↔
      ∃ rest, path = key :: rest ∧ (rest, x) ∈ places := by
  rw [List.mem_map]
  constructor
  · rintro ⟨⟨rest, y⟩, mem, same⟩
    cases same
    exact ⟨rest, rfl, mem⟩
  · rintro ⟨rest, rfl, mem⟩
    exact ⟨(rest, x), mem, rfl⟩

/-- A place among the members is a place in one of them, below its key. -/
theorem mem_placesMembers_iff {members : List (String × Json)} :
    (path, x) ∈ placesMembers members ↔
      ∃ key y rest, path = key :: rest ∧ (key, y) ∈ members ∧ (rest, x) ∈ y.places := by
  induction members with
  | nil => simp [placesMembers]
  | cons member others ih =>
    rw [placesMembers, List.mem_append, mem_map_cons_iff, ih]
    constructor
    · rintro (⟨rest, here, mem⟩ | ⟨key, y, rest, here, member, mem⟩)
      · exact ⟨member.1, member.2, rest, here, List.mem_cons_self, mem⟩
      · exact ⟨key, y, rest, here, List.mem_cons_of_mem _ member, mem⟩
    · rintro ⟨key, y, rest, here, member, mem⟩
      rcases List.mem_cons.mp member with rfl | member
      · exact .inl ⟨rest, here, mem⟩
      · exact .inr ⟨key, y, rest, here, member, mem⟩

/-- A place among the items is a place in one of them, below its index. -/
theorem mem_placesItems_iff {items : List Json} {start : Nat} :
    (path, x) ∈ placesItems start items ↔
      ∃ i y rest, path = toString (start + i) :: rest ∧ items[i]? = some y ∧
        (rest, x) ∈ y.places := by
  induction items generalizing start with
  | nil => simp [placesItems]
  | cons item others ih =>
    rw [placesItems, List.mem_append, mem_map_cons_iff, ih]
    constructor
    · rintro (⟨rest, here, mem⟩ | ⟨i, y, rest, here, found, mem⟩)
      · exact ⟨0, item, rest, here, rfl, mem⟩
      · exact ⟨i + 1, y, rest, by rw [here, Nat.add_right_comm, Nat.add_assoc], found, mem⟩
    · rintro ⟨i, y, rest, here, found, mem⟩
      cases i with
      | zero =>
        cases found
        exact .inl ⟨rest, here, mem⟩
      | succ i =>
        exact .inr ⟨i, y, rest, by rw [here, Nat.add_right_comm, Nat.add_assoc], found, mem⟩

theorem nil_mem_places (j : Json) : ([], j) ∈ j.places := by
  cases j <;> exact List.mem_cons_self

/-- Nothing but the value itself stands at its own place. -/
theorem eq_of_nil_mem_places (mem : ([], x) ∈ j.places) : x = j := by
  cases j with
  | object members =>
    rcases List.mem_cons.mp mem with here | deeper
    · exact (Prod.mk.inj here).2
    · obtain ⟨_, _, _, cons, -⟩ := mem_placesMembers_iff.mp deeper
      cases cons
  | list items =>
    rcases List.mem_cons.mp mem with here | deeper
    · exact (Prod.mk.inj here).2
    · obtain ⟨_, _, _, cons, -⟩ := mem_placesItems_iff.mp deeper
      cases cons
  | _ => exact (Prod.mk.inj (List.mem_singleton.mp mem)).2

/-- What stands below a value stands at or below a member or an item. -/
theorem cons_mem_places {key : String} (mem : (key :: path, x) ∈ j.places) :
    (∃ members y, j = .object members ∧ (key, y) ∈ members ∧ (path, x) ∈ y.places) ∨
      ∃ items, ∃ i : Nat, ∃ y, j = .list items ∧ key = toString i ∧ items[i]? = some y ∧
        (path, x) ∈ y.places := by
  cases j with
  | object members =>
    rcases List.mem_cons.mp mem with here | deeper
    · cases here
    · obtain ⟨_, y, _, same, member, deeper⟩ := mem_placesMembers_iff.mp deeper
      cases same
      exact .inl ⟨members, y, rfl, member, deeper⟩
  | list items =>
    rcases List.mem_cons.mp mem with here | deeper
    · cases here
    · obtain ⟨i, y, _, same, found, deeper⟩ := mem_placesItems_iff.mp deeper
      cases same
      exact .inr ⟨items, i, y, rfl, by rw [Nat.zero_add], found, deeper⟩
  | _ => cases List.mem_singleton.mp mem

/-- The places are those of the values that stand in the document, at any depth. -/
theorem within_iff_mem_places : x.Within j ↔ ∃ path, (path, x) ∈ j.places := by
  constructor
  · intro inside
    induction inside with
    | refl => exact ⟨[], nil_mem_places x⟩
    | item mem _ ih =>
      obtain ⟨i, found⟩ := List.mem_iff_getElem?.mp mem
      obtain ⟨path, deeper⟩ := ih
      exact ⟨_, List.mem_cons_of_mem _ (mem_placesItems_iff.mpr ⟨i, _, path, rfl, found, deeper⟩)⟩
    | member mem _ ih =>
      obtain ⟨path, deeper⟩ := ih
      exact ⟨_, List.mem_cons_of_mem _ (mem_placesMembers_iff.mpr ⟨_, _, path, rfl, mem, deeper⟩)⟩
  · rintro ⟨path, mem⟩
    induction path generalizing j with
    | nil =>
      cases eq_of_nil_mem_places mem
      exact .refl
    | cons key rest ih =>
      rcases cons_mem_places mem with
        ⟨members, y, rfl, member, deeper⟩ | ⟨items, i, y, rfl, -, found, deeper⟩
      · exact .member member (ih deeper)
      · exact .item (List.mem_of_getElem? found) (ih deeper)

/-! ## Documents in memory -/

/-- Whether a value can be held in memory, as far as it can be told from it alone: an object is a
map, and the length of a list is a word. -/
def isHeld (j : Json) : Bool := j.hasDistinctKeys && j.list?.all fun items =>
    items.length ≤ Nat.pow 2 64

/-- An object that can be held has distinct keys. -/
theorem nodup_of_isHeld {members : List (String × Json)}
    (held : (Json.object members).isHeld = true) : (members.map Prod.fst).Nodup :=
  of_decide_eq_true (Bool.and_eq_true_iff.mp held).1

/-- A list that can be held has indices that fit a machine word. -/
theorem length_le_of_isHeld {items : List Json} (held : (Json.list items).isHeld = true) :
    items.length ≤ Nat.pow 2 64 :=
  of_decide_eq_true (Bool.and_eq_true_iff.mp held).2

/-- The path of a place leads to the value that stands there. -/
theorem follow?_of_mem_places (held : j.everywhere isHeld = true) (mem : (path, x) ∈ j.places) :
    j.follow? path = some x := by
  induction path generalizing j with
  | nil =>
    cases eq_of_nil_mem_places mem
    rfl
  | cons key rest ih =>
    rcases cons_mem_places mem with
      ⟨members, y, rfl, member, deeper⟩ | ⟨items, i, y, rfl, rfl, found, deeper⟩
    · have child : (Json.object members).child? key = some y :=
        lookup_of_mem (nodup_of_isHeld (everywhere_self held)) member
      rw [follow?, child]
      exact ih (everywhere_within held (.member member .refl)) deeper
    · have fits : i < Nat.pow 2 64 :=
        (List.getElem?_eq_some_iff.mp found).1.trans_le
          (length_le_of_isHeld (everywhere_self held))
      have child : (Json.list items).child? (toString i) = some y := by
        rw [child?, readIndex?_toString fits]
        exact found
      rw [follow?, child]
      exact ih (everywhere_within held (.item (List.mem_of_getElem? found) .refl)) deeper

/-- Places below one key are as distinct as they were. -/
theorem nodup_map_cons {key : String} {places : List (List String × Json)}
    (nodup : (places.map Prod.fst).Nodup) :
    ((places.map (Prod.map (List.cons key) id)).map Prod.fst).Nodup := by
  have paths : (places.map (Prod.map (List.cons key) id)).map Prod.fst =
      (places.map Prod.fst).map (List.cons key) := by
    rw [List.map_map, List.map_map]
    rfl
  rw [paths]
  exact nodup.map (List.cons_injective)

/-- Paths that start differently are different. -/
theorem disjoint_paths {key : String} {front others : List (List String × Json)}
    (apart : ∀ rest x, (key :: rest, x) ∉ others) :
    ∀ p ∈ (front.map (Prod.map (List.cons key) id)).map Prod.fst,
      ∀ q ∈ others.map Prod.fst, p ≠ q := by
  rintro _ left q right rfl
  obtain ⟨place, mem, rfl⟩ := List.mem_map.mp left
  obtain ⟨⟨rest, x⟩, mem, rfl⟩ := List.mem_map.mp mem
  obtain ⟨⟨_, y⟩, mem', rfl⟩ := List.mem_map.mp right
  exact apart rest y mem'

mutual

/-- No path leads to two places. -/
theorem nodup_places : ∀ {j : Json}, j.everywhere isHeld = true → (j.places.map Prod.fst).Nodup
  | .object members, held => by
    rw [everywhere, Bool.and_eq_true] at held
    rw [places, List.map_cons, List.nodup_cons]
    refine ⟨fun mem => ?_, nodup_placesMembers (nodup_of_isHeld held.1) held.2⟩
    obtain ⟨⟨_, _⟩, mem, rfl⟩ := List.mem_map.mp mem
    obtain ⟨_, _, _, cons, -⟩ := mem_placesMembers_iff.mp mem
    cases cons
  | .list items, held => by
    rw [everywhere, Bool.and_eq_true] at held
    rw [places, List.map_cons, List.nodup_cons]
    refine ⟨fun mem => ?_, nodup_placesItems held.2⟩
    obtain ⟨⟨_, _⟩, mem, rfl⟩ := List.mem_map.mp mem
    obtain ⟨_, _, _, cons, -⟩ := mem_placesItems_iff.mp mem
    cases cons
  | .null, _ | .bool _, _ | .int _, _ | .real _, _ | .text _, _ => List.nodup_singleton _

theorem nodup_placesItems : ∀ {items : List Json} {start : Nat},
    everywhereItems isHeld items = true → ((placesItems start items).map Prod.fst).Nodup
  | [], _, _ => List.nodup_nil
  | j :: rest, start, held => by
    rw [everywhereItems, Bool.and_eq_true] at held
    rw [placesItems, List.map_append, List.nodup_append]
    refine ⟨nodup_map_cons (nodup_places held.1), nodup_placesItems held.2,
      disjoint_paths fun tail x mem => ?_⟩
    obtain ⟨i, _, _, same, -⟩ := mem_placesItems_iff.mp mem
    have := Naming.toString_inj (List.cons.inj same).1
    omega

theorem nodup_placesMembers : ∀ {members : List (String × Json)},
    (members.map Prod.fst).Nodup → everywhereMembers isHeld members = true →
      ((placesMembers members).map Prod.fst).Nodup
  | [], _, _ => List.nodup_nil
  | (key, j) :: rest, nodup, held => by
    rw [everywhereMembers, Bool.and_eq_true] at held
    rw [List.map_cons, List.nodup_cons] at nodup
    rw [placesMembers, List.map_append, List.nodup_append]
    refine ⟨nodup_map_cons (nodup_places held.1), nodup_placesMembers nodup.2 held.2,
      disjoint_paths fun tail x mem => ?_⟩
    obtain ⟨key', y, _, same, member, -⟩ := mem_placesMembers_iff.mp mem
    rw [(List.cons.inj same).1] at nodup
    exact nodup.1 (List.mem_map.mpr ⟨(key', y), member, rfl⟩)

end

/-! ## Issues -/

/-- What is wrong with the target of a reference: it leads out of the document, or what follows its
hash is no pointer to a value of the document. -/
inductive Dangles (root : Json) (target : String) : IssueKind → Prop
  | external (outside : ∀ fragment, target ≠ "#" ++ fragment) : Dangles root target .external
  | unresolved {fragment : String} (inside : target = "#" ++ fragment)
    (nowhere : root.pointer? fragment = none) : Dangles root target .unresolved

/-- What is left after a start is what follows it. -/
@[simp] theorem after?_eq_some_iff {start fragment : String} :
    Text.after? start target = some fragment ↔ target = start ++ fragment := by
  rw [Text.after?, Option.map_eq_some_iff]
  constructor
  · rintro ⟨rest, found, rfl⟩
    rw [List.isPrefixOf?_eq_some_iff_append_eq] at found
    exact String.toList_inj.mp (by rw [String.toList_append, String.toList_ofList, found])
  · rintro rfl
    refine ⟨fragment.toList, ?_, String.ofList_toList⟩
    rw [List.isPrefixOf?_eq_some_iff_append_eq, String.toList_append]

@[simp] theorem referenceFault?_eq_some_iff {kind : IssueKind} :
    referenceFault? root target = some kind ↔ Dangles root target kind := by
  unfold referenceFault?
  cases rest : Text.after? "#" target with
  | none =>
    have outside : ∀ fragment, target ≠ "#" ++ fragment := fun fragment inside => by
      rw [after?_eq_some_iff.mpr inside] at rest
      cases rest
    constructor
    · intro wrong
      cases wrong
      exact .external outside
    · rintro (_ | ⟨inside, _⟩)
      · rfl
      · exact absurd inside (outside _)
  | some fragment =>
    have inside := after?_eq_some_iff.mp rest
    dsimp only
    split
    · next found =>
      constructor
      · intro wrong
        cases wrong
      · rintro (outside | ⟨inside', nowhere⟩)
        · exact absurd inside (outside fragment)
        · rw [after?_eq_some_iff.mpr inside'] at rest
          cases rest
          rw [nowhere] at found
          cases found
    · next nowhere =>
      constructor
      · intro wrong
        cases wrong
        exact .unresolved inside (Option.not_isSome_iff_eq_none.mp nowhere)
      · rintro (outside | _)
        · exact absurd inside (outside fragment)
        · rfl

/-- The issue of a value at a path, if it is a reference at fault. -/
def issueAt? (root : Json) (path : List String) (j : Json) : Option Issue :=
  j.ref?.bind fun target => (referenceFault? root target).map fun kind => ⟨path, kind, target⟩

/-- There is an issue where a reference dangles. -/
@[simp] theorem issueAt?_eq_some_iff {issue : Issue} :
    issueAt? root path j = some issue ↔
      issue.path = path ∧ j.ref? = some issue.target ∧ Dangles root issue.target issue.kind := by
  rw [issueAt?, Option.bind_eq_some_iff]
  constructor
  · rintro ⟨target, ref, own⟩
    obtain ⟨kind, wrong, rfl⟩ := Option.map_eq_some_iff.mp own
    exact ⟨rfl, ref, referenceFault?_eq_some_iff.mp wrong⟩
  · rintro ⟨rfl, ref, dangles⟩
    exact ⟨issue.target, ref,
      Option.map_eq_some_iff.mpr ⟨issue.kind, referenceFault?_eq_some_iff.mpr dangles, rfl⟩⟩

theorem ownIssue_eq (root j : Json) (path : List String) :
    ownIssue root j path = (issueAt? root path j).toList := by
  unfold ownIssue issueAt?
  cases j.ref? with
  | none => rfl
  | some target =>
    dsimp only [Option.bind_some]
    cases referenceFault? root target <;> rfl

/-- The issues of places below a key are found with that key in front of their paths. -/
theorem filterMap_map_cons {key : String} {places : List (List String × Json)} :
    (places.map (Prod.map (List.cons key) id)).filterMap
        (fun place => issueAt? root (path ++ place.1) place.2) =
      places.filterMap fun place => issueAt? root (path ++ [key] ++ place.1) place.2 := by
  rw [List.filterMap_map]
  congr 1
  funext place
  change issueAt? root (path ++ key :: place.1) place.2 = _
  rw [List.append_assoc, List.singleton_append]

mutual

/-- **The issues in a value are those at its places, in order.** -/
theorem issuesIn_eq : ∀ (j : Json) (path : List String),
    issuesIn root path j =
      j.places.filterMap fun place => issueAt? root (path ++ place.1) place.2
  | .object members, path => by
    rw [issuesIn, places, ownIssue_eq, issuesInMembers_eq members path, List.filterMap_cons,
      List.append_nil]
    cases issueAt? root path (.object members) <;> rfl
  | .list items, path => by
    rw [issuesIn, places, issuesInItems_eq items path 0]
    rfl
  | .null, _ | .bool _, _ | .int _, _ | .real _, _ | .text _, _ => rfl

theorem issuesInItems_eq : ∀ (items : List Json) (path : List String) (start : Nat),
    issuesInItems root path start items =
      (placesItems start items).filterMap fun place => issueAt? root (path ++ place.1) place.2
  | [], _, _ => rfl
  | j :: rest, path, start => by
    rw [issuesInItems, placesItems, List.filterMap_append, filterMap_map_cons,
      issuesIn_eq j (path ++ [toString start]), issuesInItems_eq rest path (start + 1)]

theorem issuesInMembers_eq : ∀ (members : List (String × Json)) (path : List String),
    issuesInMembers root path members =
      (placesMembers members).filterMap fun place => issueAt? root (path ++ place.1) place.2
  | [], _ => rfl
  | (key, j) :: rest, path => by
    rw [issuesInMembers, placesMembers, List.filterMap_append, filterMap_map_cons,
      issuesIn_eq j (path ++ [key]), issuesInMembers_eq rest path]

end

/-- The location of an issue is the pointer of its path. -/
theorem location_eq (issue : Issue) : issue.location = "#" ++ pointerOf issue.path := by
  apply String.toList_inj.mp
  rw [Issue.location, pointerOf, String.toList_append, toList_foldl_tokens, toList_foldl_tokens]
  rfl

/-- The report has one issue for each place that holds a reference at fault and no other, in
document order. In a document that can be held in memory no two places have one path, and the
location of an issue is a hash and a pointer to the object at the place of the issue. -/
theorem referenceIssues_report (root : Json) :
    (∀ x, x.Within root ↔ ∃ path, (path, x) ∈ root.places) ∧
    root.referenceIssues = root.places.filterMap (fun place => issueAt? root place.1 place.2) ∧
    (∀ path j issue, issueAt? root path j = some issue ↔
      issue.path = path ∧ j.ref? = some issue.target ∧ Dangles root issue.target issue.kind) ∧
    (root.everywhere isHeld = true →
      (root.places.map Prod.fst).Nodup ∧
      ∀ issue ∈ root.referenceIssues, ∃ pointer object,
        issue.location = "#" ++ pointer ∧ root.pointer? pointer = some object ∧
          (issue.path, object) ∈ root.places ∧ object.ref? = some issue.target) := by
  have report : root.referenceIssues =
      root.places.filterMap fun place => issueAt? root place.1 place.2 := issuesIn_eq root []
  refine ⟨fun x => within_iff_mem_places, report, fun _ _ _ => issueAt?_eq_some_iff,
    fun held => ⟨nodup_places held, fun issue mem => ?_⟩⟩
  rw [report] at mem
  obtain ⟨⟨path, object⟩, place, own⟩ := List.mem_filterMap.mp mem
  obtain ⟨rfl, ref, -⟩ := issueAt?_eq_some_iff.mp own
  refine ⟨pointerOf issue.path, object, location_eq issue, ?_, place, ref⟩
  rw [pointer?, pointerTokens?_pointerOf]
  exact follow?_of_mem_places held place

/-- A document in which one reference leads out and two lead nowhere, under keys that hold the
characters of pointers. -/
def dangling : Json :=
  .object [
    ("a/b", .object [("~1", .object [("$ref", .text "#/a~1b/~1")])]),
    ("list", .list [.null, .object [("$ref", .text "other.yaml#/Pet"), ("~", .list [
      .object [("$ref", .text "#/a~1b/~01")], .object [("$ref", .text "#/list/01")]])]])]

theorem dangling_report :
    dangling.referenceIssues.map Issue.location =
        ["#/a~1b/~01", "#/list/1", "#/list/1/~0/1"] ∧
      ∀ issue ∈ dangling.referenceIssues, ∃ pointer object,
        issue.location = "#" ++ pointer ∧ dangling.pointer? pointer = some object ∧
          (issue.path, object) ∈ dangling.places ∧ object.ref? = some issue.target :=
  ⟨by decide +kernel, ((referenceIssues_report dangling).2.2.2 (by decide +kernel)).2⟩

end Json

end RestGraph
