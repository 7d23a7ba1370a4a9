import Mathlib.Data.List.Perm.Subperm
import RestGraph.Proofs.Document.Within
import RestGraph.Proofs.Run.Outcomes

/-!
# Extents

How large a fragment is, and which references stand in it. What stands inside a value is smaller,
and there are no more references in it than it is large; so a chain of references that differ from
each other ends.
-/

namespace RestGraph

namespace Json

variable {j x : Json} {key : String}

/-! ## Sizes -/

theorem size_pos (j : Json) : 0 < j.size := by
  cases j <;> simp only [size] <;> omega

/-- An item is no larger than the items. -/
theorem size_le_of_mem_items {items : List Json} (mem : x ∈ items) : x.size ≤ sizeItems items := by
  induction items with
  | nil => cases mem
  | cons y rest ih =>
    rw [sizeItems]
    rcases List.mem_cons.mp mem with rfl | mem
    · exact Nat.le_add_right _ _
    · exact Nat.le_trans (ih mem) (Nat.le_add_left _ _)

/-- A member is smaller than the members, as its key counts. -/
theorem size_lt_of_mem_members {members : List (String × Json)} (mem : (key, x) ∈ members) :
    x.size < sizeMembers members := by
  induction members with
  | nil => cases mem
  | cons y rest ih =>
    rw [sizeMembers]
    rcases List.mem_cons.mp mem with rfl | mem
    · dsimp only
      omega
    · have := ih mem
      omega

theorem Within.size_le (inside : x.Within j) : x.size ≤ j.size := by
  induction inside with
  | refl => exact Nat.le_refl _
  | item mem _ ih =>
    have := size_le_of_mem_items mem
    rw [size]
    omega
  | member mem _ ih =>
    have := size_lt_of_mem_members mem
    rw [size]
    omega

theorem size_lt_of_get? (found : j.get? key = some x) : x.size < j.size := by
  cases j with
  | object members =>
    have := size_lt_of_mem_members (mem_of_lookup found)
    rw [size]
    omega
  | _ => cases found

theorem size_lt_of_list? {items : List Json} (list : j.list? = some items) (mem : x ∈ items) :
    x.size < j.size := by
  cases j <;> cases list
  have := size_le_of_mem_items mem
  rw [size]
  omega

/-- Members under keys that differ stand side by side. -/
theorem sizeMembers_eq_of_lookup {members : List (String × Json)}
    (found : members.lookup key = some x) :
    ∃ rest, sizeMembers members = 1 + x.size + sizeMembers rest ∧
      ∀ other ≠ key, rest.lookup other = members.lookup other := by
  obtain ⟨before, after, rfl, absent⟩ := List.lookup_eq_some_iff.mp found
  have append : ∀ l l' : List (String × Json),
      sizeMembers (l ++ l') = sizeMembers l + sizeMembers l' := fun l l' => by
    induction l with
    | nil => simp only [List.nil_append, sizeMembers, Nat.zero_add]
    | cons y l ih => simp only [List.cons_append, sizeMembers, ih]; omega
  refine ⟨before ++ after, ?_, fun other ne => ?_⟩
  · rw [append, append, sizeMembers]
    omega
  · rw [List.lookup_append, List.lookup_append, List.lookup_cons, beq_false_of_ne ne]

/-! ## References -/

mutual

def pointers : Json → List String
  | .list items => pointersItems items
  | .object members => (Json.object members).ref?.toList ++ pointersMembers members
  | _ => []
termination_by structural j => j

def pointersItems : List Json → List String
  | [] => []
  | j :: rest => j.pointers ++ pointersItems rest
termination_by structural items => items

def pointersMembers : List (String × Json) → List String
  | [] => []
  | (_, j) :: rest => j.pointers ++ pointersMembers rest
termination_by structural members => members

end

mutual

/-- There are no more pointers in a value than its size. -/
theorem length_pointers_le : ∀ j : Json, j.pointers.length ≤ j.size
  | .list items => by
    have := length_pointersItems_le items
    rw [pointers, size]
    omega
  | .object members => by
    have := length_pointersMembers_le members
    have one : (Json.object members).ref?.toList.length ≤ 1 := by
      cases (Json.object members).ref? <;> simp
    rw [pointers, size, List.length_append]
    omega
  | .null | .bool _ | .int _ | .real _ | .text _ => Nat.zero_le _

theorem length_pointersItems_le : ∀ items : List Json, (pointersItems items).length ≤
    sizeItems items
  | [] => Nat.zero_le _
  | j :: rest => by
    have := length_pointers_le j
    have := length_pointersItems_le rest
    rw [pointersItems, sizeItems, List.length_append]
    omega

theorem length_pointersMembers_le : ∀ members : List (String × Json),
    (pointersMembers members).length ≤ sizeMembers members
  | [] => Nat.zero_le _
  | (_, j) :: rest => by
    have := length_pointers_le j
    have := length_pointersMembers_le rest
    rw [pointersMembers, sizeMembers, List.length_append]
    omega

end

/-- The pointer of a reference is one of its pointers. -/
theorem ref?_mem_pointers {pointer : String} (ref : j.ref? = some pointer) :
    pointer ∈ j.pointers := by
  cases j with
  | object members =>
    rw [pointers, ref]
    exact List.mem_append_left _ (List.mem_singleton_self _)
  | _ => cases ref

/-- The pointers of an item are pointers of the items. -/
theorem pointers_subset_items {items : List Json} (mem : x ∈ items) :
    x.pointers ⊆ pointersItems items := by
  induction items with
  | nil => cases mem
  | cons y rest ih =>
    rw [pointersItems]
    rcases List.mem_cons.mp mem with rfl | mem
    · exact List.subset_append_left _ _
    · exact List.Subset.trans (ih mem) (List.subset_append_right _ _)

/-- The pointers of a member are pointers of the members. -/
theorem pointers_subset_members {members : List (String × Json)} (mem : (key, x) ∈ members) :
    x.pointers ⊆ pointersMembers members := by
  induction members with
  | nil => cases mem
  | cons y rest ih =>
    rw [pointersMembers]
    rcases List.mem_cons.mp mem with rfl | mem
    · exact List.subset_append_left _ _
    · exact List.Subset.trans (ih mem) (List.subset_append_right _ _)

/-- The pointers of what is within a value are pointers of the value. -/
theorem Within.pointers_subset (inside : x.Within j) : x.pointers ⊆ j.pointers := by
  induction inside with
  | refl => exact List.Subset.refl _
  | item mem _ ih =>
    rw [pointers]
    exact List.Subset.trans ih (pointers_subset_items mem)
  | member mem _ ih =>
    rw [pointers]
    exact List.Subset.trans ih
      (List.Subset.trans (pointers_subset_members mem) (List.subset_append_right _ _))

/-- Whether a value is no reference, or one of those that are given. -/
def isKnown (ptrs : List String) (j : Json) : Bool := j.ref?.all ptrs.contains

mutual

/-- All pointers are known everywhere when they are known at all. -/
theorem everywhere_isKnown {ptrs : List String} :
    ∀ {j : Json}, j.everywhere (isKnown ptrs) = true ↔ j.pointers ⊆ ptrs
  | .list items => by
    rw [everywhere, pointers, ← everywhereItems_isKnown, Bool.and_eq_true]
    exact and_iff_right rfl
  | .object members => by
    rw [everywhere, pointers, List.append_subset, ← everywhereMembers_isKnown, Bool.and_eq_true,
      isKnown]
    refine and_congr_left fun _ => ?_
    cases (Json.object members).ref? with
    | none => exact iff_of_true rfl (List.nil_subset _)
    | some pointer => simp
  | .null | .bool _ | .int _ | .real _ | .text _ => iff_of_true rfl (List.nil_subset _)

theorem everywhereItems_isKnown {ptrs : List String} :
    ∀ {items : List Json}, everywhereItems (isKnown ptrs) items = true ↔ pointersItems items ⊆ ptrs
  | [] => iff_of_true rfl (List.nil_subset _)
  | j :: rest => by
    rw [everywhereItems, pointersItems, List.append_subset, ← everywhereItems_isKnown,
      ← everywhere_isKnown, Bool.and_eq_true]

theorem everywhereMembers_isKnown {ptrs : List String} : ∀ {members : List (String × Json)},
    everywhereMembers (isKnown ptrs) members = true ↔ pointersMembers members ⊆ ptrs
  | [] => iff_of_true rfl (List.nil_subset _)
  | (_, j) :: rest => by
    rw [everywhereMembers, pointersMembers, List.append_subset, ← everywhereMembers_isKnown,
      ← everywhere_isKnown, Bool.and_eq_true]

end

end Json

theorem length_le_of_nodup_of_subset {α : Type} {l l' : List α} (nodup : l.Nodup) (sub : l ⊆ l') :
    l.length ≤ l'.length :=
  (nodup.subperm sub).length_le

/-- The items of an array schema are smaller than the schema. -/
theorem size_lt_of_itemsOf? {schema items : Json} (found : itemsOf? schema = some items) :
    items.size < schema.size :=
  Json.size_lt_of_get? (Option.filter_eq_some_iff.mp found).1

/-- A property is smaller than its schema. -/
theorem size_lt_of_mem_sortedProperties {schema x : Json} {name : String}
    (mem : (name, x) ∈ sortedProperties schema) : x.size < schema.size := by
  have mem := (Text.sortByName_perm _ _).mem_iff.mp mem
  obtain ⟨members, found, mem⟩ := exists_of_mem_getD mem
  obtain ⟨holder, got, object⟩ := Option.bind_eq_some_iff.mp found
  exact Nat.lt_of_le_of_lt (Json.within_of_mem_object object mem).size_le (Json.size_lt_of_get? got)

/-- A branch is smaller than its composition. -/
theorem size_lt_of_mem_branches {schema x : Json} {key : String} {branches : List Json}
    (found : Shape.branches? schema key = some branches) (mem : x ∈ branches) :
    x.size < schema.size := by
  obtain ⟨found, -⟩ := Option.filter_eq_some_iff.mp found
  obtain ⟨list, got, items⟩ := Option.bind_eq_some_iff.mp found
  exact Nat.lt_trans (Json.size_lt_of_list? items mem) (Json.size_lt_of_get? got)

/-- A list with a branch in it has a size of two at least. -/
theorem large_of_hasBranches {schema : Json} {key : String}
    (some : Shape.hasBranches schema key = true) :
    ∃ list, schema.get? key = .some list ∧ 2 ≤ list.size := by
  obtain ⟨branches, here⟩ := Option.isSome_iff_exists.mp some
  obtain ⟨here, full⟩ := Option.filter_eq_some_iff.mp here
  obtain ⟨list, got, items⟩ := Option.bind_eq_some_iff.mp here
  refine ⟨list, got, ?_⟩
  cases branches with
  | nil => cases full
  | cons b rest =>
    have := Json.size_lt_of_list? items List.mem_cons_self
    have := Json.size_pos b
    omega

/-- The branch that is made up of the properties beside the others is smaller than the whole. -/
theorem size_lt_of_mem_branchesOf {schema x : Json} {keys : List String} {key : String}
    (mem : key ∈ keys) (some : Shape.hasBranches schema key = true)
    (others : ∀ key ∈ keys, key ≠ "properties" ∧ key ≠ "required")
    (branch : x ∈ branchesOf schema keys) : x.size < schema.size := by
  obtain ⟨_, -, _, found, inside⟩ | ⟨properties, found, rfl⟩ := mem_branchesOf branch
  · exact size_lt_of_mem_branches found inside
  · obtain ⟨list, got, large⟩ := large_of_hasBranches some
    cases schema with
    | object members =>
      obtain ⟨rest, size, same⟩ := Json.sizeMembers_eq_of_lookup found
      obtain ⟨notProperties, notRequired⟩ := others key mem
      have got : rest.lookup key = _ := (same key notProperties).trans got
      rw [Json.size, Json.size, size, Json.get?, ← same "required" (by decide)]
      cases here : rest.lookup "required" with
      | some required =>
        obtain ⟨rest', size', same'⟩ := Json.sizeMembers_eq_of_lookup here
        obtain ⟨rest'', size'', -⟩ :=
          Json.sizeMembers_eq_of_lookup ((same' key notRequired).trans got)
        simp only [Option.map_some, Option.toList_some, List.cons_append, List.nil_append,
          Json.sizeMembers, Json.size]
        omega
      | none =>
        obtain ⟨rest', size', -⟩ := Json.sizeMembers_eq_of_lookup got
        simp only [Option.map_none, Option.toList_none, List.append_nil,
          Json.sizeMembers, Json.size]
        omega
    | _ => cases got

/-- There are no more references to follow than the description and the fragment hold. -/
theorem Document.followFrom_lasts {d : Document} {path : String} {ptrs seen : List String}
    {fuel : Nat} {j : Json} (root : d.root.pointers ⊆ ptrs) (own : j.pointers ⊆ ptrs)
    (nodup : seen.Nodup) (sub : seen ⊆ ptrs) (enough : ptrs.length < seen.length + fuel) :
    d.followFrom path fuel seen j ≠ .error .depth := by
  induction fuel generalizing seen j with
  | zero =>
    have := length_le_of_nodup_of_subset nodup sub
    omega
  | succ fuel ih =>
    intro gave
    cases turn_of_followFrom gave with
    | value _ here | again _ _ here => cases here
    | gap _ _ fault => cases fault
    | next ref new found more =>
      refine ih (List.Subset.trans (within_of_lookup? found).pointers_subset root)
        (List.nodup_cons.mpr ⟨new, nodup⟩)
        (List.cons_subset.mpr ⟨own (Json.ref?_mem_pointers ref), sub⟩) ?_ more
      rw [List.length_cons]
      omega

/-- To look up a component takes no depth. -/
theorem Document.component_ne_depth {d : Document} {pointer path : String} :
    d.component pointer path ≠ .error .depth := by
  intro missing
  cases (lost_of_component missing).2

end RestGraph
