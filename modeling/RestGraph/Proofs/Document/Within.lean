import RestGraph.Graph.Visit

/-!
# Values within values

Whatever is looked up in a JSON value stands within it. What holds of all that stands within a
description therefore holds of every fragment that is found in it, through references as well.
-/

namespace RestGraph

/-- What is found under a key stands there. -/
theorem mem_of_lookup {α β : Type} [BEq α] [LawfulBEq α] {entries : List (α × β)} {key : α} {x : β}
    (found : entries.lookup key = some x) : (key, x) ∈ entries := by
  obtain ⟨before, after, rfl, -⟩ := List.lookup_eq_some_iff.mp found
  exact List.mem_append_right _ List.mem_cons_self

/-- Where each key stands once, all that stands there is found. -/
theorem lookup_of_mem {α β : Type} [BEq α] [LawfulBEq α] {entries : List (α × β)} {key : α} {x : β}
    (nodup : (entries.map Prod.fst).Nodup) (mem : (key, x) ∈ entries) :
    entries.lookup key = some x := by
  obtain ⟨before, after, rfl⟩ := List.append_of_mem mem
  refine List.lookup_eq_some_iff.mpr ⟨before, after, rfl, fun e old => ?_⟩
  rw [List.map_append, List.nodup_append] at nodup
  have other := nodup.2.2 e.1 (List.mem_map_of_mem old) key (by simp)
  simpa using other.symm

/-- What is in a list that may be missing is in one that is there. -/
theorem exists_of_mem_getD {α : Type} {x : α} {list : Option (List α)} (mem : x ∈ list.getD []) :
    ∃ items, list = some items ∧ x ∈ items := by
  cases list with
  | none => cases mem
  | some items => exact ⟨items, rfl, mem⟩

namespace Json

/-- The first value is the second or stands somewhere inside it. -/
inductive Within (j : Json) : Json → Prop
  | refl : Within j j
  | item {x : Json} {items : List Json} (mem : x ∈ items) (inside : Within j x) :
    Within j (.list items)
  | member {x : Json} {key : String} {members : List (String × Json)}
    (mem : (key, x) ∈ members) (inside : Within j x) : Within j (.object members)

variable {j x y : Json} {key : String}

theorem Within.trans (inner : x.Within y) (outer : y.Within j) : x.Within j := by
  induction outer with
  | refl => exact inner
  | item mem _ ih => exact .item mem ih
  | member mem _ ih => exact .member mem ih

theorem within_of_mem_object {members : List (String × Json)} (object : j.object? = some members)
    (mem : (key, x) ∈ members) : x.Within j := by
  cases j <;> cases object
  exact .member mem .refl

theorem within_of_mem_list {items : List Json} (list : j.list? = some items) (mem : x ∈ items) :
    x.Within j := by
  cases j <;> cases list
  exact .item mem .refl

theorem within_of_get? (found : j.get? key = some x) : x.Within j := by
  cases j with
  | object members => exact .member (mem_of_lookup found) .refl
  | _ => cases found

/-- What tokens lead to is within the value they start from. -/
theorem within_of_follow? {tokens : List String} (found : j.follow? tokens = some x) :
    x.Within j := by
  induction tokens generalizing j with
  | nil =>
    cases found
    exact .refl
  | cons token rest ih =>
    obtain ⟨c, child, found⟩ := Option.bind_eq_some_iff.mp found
    refine (ih found).trans ?_
    unfold child? at child
    split at child
    · exact .member (mem_of_lookup child) .refl
    · obtain ⟨i, -, here⟩ := Option.bind_eq_some_iff.mp child
      exact .item (List.mem_of_getElem? here) .refl
    · cases child

/-- What a pointer leads to is within the value. -/
theorem within_of_pointer? {pointer : String} (found : j.pointer? pointer = some x) :
    x.Within j := by
  obtain ⟨_, _, found⟩ := Option.bind_eq_some_iff.mp found
  exact within_of_follow? found

/-- The items under a key, if there are any. -/
theorem within_of_mem_listAt (mem : x ∈ ((j.get? key).bind list?).getD []) : x.Within j := by
  obtain ⟨items, found, mem⟩ := exists_of_mem_getD mem
  obtain ⟨holder, got, list⟩ := Option.bind_eq_some_iff.mp found
  exact (within_of_mem_list list mem).trans (within_of_get? got)

/-- The members of the object under a key, if there is one. -/
theorem within_of_mem_objectAt {name : String}
    (mem : (name, x) ∈ ((j.get? key).bind object?).getD []) : x.Within j := by
  obtain ⟨members, found, mem⟩ := exists_of_mem_getD mem
  obtain ⟨holder, got, object⟩ := Option.bind_eq_some_iff.mp found
  exact (within_of_mem_object object mem).trans (within_of_get? got)

/-! ## What holds everywhere -/

mutual

/-- Whether a test holds of a value and of all that stands inside it. -/
def everywhere (p : Json → Bool) : Json → Bool
  | .list items => p (.list items) && everywhereItems p items
  | .object members => p (.object members) && everywhereMembers p members
  | j => p j
termination_by structural j => j

def everywhereItems (p : Json → Bool) : List Json → Bool
  | [] => true
  | j :: rest => everywhere p j && everywhereItems p rest
termination_by structural items => items

def everywhereMembers (p : Json → Bool) : List (String × Json) → Bool
  | [] => true
  | (_, j) :: rest => everywhere p j && everywhereMembers p rest
termination_by structural members => members

end

variable {p : Json → Bool}

theorem everywhere_self (all : j.everywhere p = true) : p j = true := by
  cases j with
  | list | object =>
    rw [everywhere, Bool.and_eq_true] at all
    exact all.1
  | _ => exact all

/-- What holds everywhere holds everywhere in an item. -/
theorem everywhere_item {items : List Json} (all : everywhereItems p items = true)
    (mem : x ∈ items) : x.everywhere p = true := by
  induction items with
  | nil => cases mem
  | cons y rest ih =>
    rw [everywhereItems, Bool.and_eq_true] at all
    rcases List.mem_cons.mp mem with rfl | mem
    · exact all.1
    · exact ih all.2 mem

/-- What holds everywhere holds everywhere in a member. -/
theorem everywhere_member {members : List (String × Json)}
    (all : everywhereMembers p members = true)
    (mem : (key, x) ∈ members) : x.everywhere p = true := by
  induction members with
  | nil => cases mem
  | cons y rest ih =>
    rw [everywhereMembers, Bool.and_eq_true] at all
    rcases List.mem_cons.mp mem with rfl | mem
    · exact all.1
    · exact ih all.2 mem

/-- What holds everywhere in a value holds everywhere in what is within it. -/
theorem everywhere_within (all : j.everywhere p = true) (inside : x.Within j) :
    x.everywhere p = true := by
  induction inside with
  | refl => exact all
  | item mem _ ih =>
    rw [everywhere, Bool.and_eq_true] at all
    exact ih (everywhere_item all.2 mem)
  | member mem _ ih =>
    rw [everywhere, Bool.and_eq_true] at all
    exact ih (everywhere_member all.2 mem)

end Json

/-! ## Fragments that are found -/

/-- The schema of a payload is within its holder. -/
theorem Media.within_of_schema? {holder schema : Json}
    (found : Media.schema? holder = some schema) : schema.Within holder := by
  obtain ⟨⟨mediaType, media⟩, found, within⟩ := Option.bind_eq_some_iff.mp found
  obtain ⟨members, content, first⟩ := Option.bind_eq_some_iff.mp found
  obtain ⟨c, got, object⟩ := Option.bind_eq_some_iff.mp content
  exact ((Json.within_of_get? within).trans
    (Json.within_of_mem_object object (List.mem_of_find?_eq_some first))).trans
    (Json.within_of_get? got)

theorem within_of_itemsOf? {schema items : Json} (found : itemsOf? schema = some items) :
    items.Within schema :=
  Json.within_of_get? (Option.filter_eq_some_iff.mp found).1

theorem within_of_mem_sortedProperties {schema x : Json} {name : String}
    (mem : (name, x) ∈ sortedProperties schema) : x.Within schema :=
  Json.within_of_mem_objectAt ((Text.sortByName_perm _ _).mem_iff.mp mem)

theorem within_of_mem_branches {schema x : Json} {key : String} {branches : List Json}
    (found : Shape.branches? schema key = some branches) (mem : x ∈ branches) :
    x.Within schema := by
  obtain ⟨found, -⟩ := Option.filter_eq_some_iff.mp found
  obtain ⟨list, got, items⟩ := Option.bind_eq_some_iff.mp found
  exact (Json.within_of_mem_list items mem).trans (Json.within_of_get? got)

/-- A branch is declared, or is made up of the properties beside those that are. -/
theorem mem_branchesOf {schema x : Json} {keys : List String}
    (branch : x ∈ branchesOf schema keys) :
    (∃ key ∈ keys, ∃ branches, Shape.branches? schema key = some branches ∧ x ∈ branches) ∨
    ∃ properties, schema.get? "properties" = some properties ∧
      x = .object ([("type", .text "object"), ("properties", properties)] ++
        ((schema.get? "required").map (Prod.mk "required")).toList) := by
  have declared : x ∈ (keys.findSome? (Shape.branches? schema)).getD [] →
      ∃ key ∈ keys, ∃ branches, Shape.branches? schema key = some branches ∧ x ∈ branches := by
    intro mem
    obtain ⟨branches, found, mem⟩ := exists_of_mem_getD mem
    obtain ⟨key, known, found⟩ := List.exists_of_findSome?_eq_some found
    exact ⟨key, known, branches, found, mem⟩
  unfold branchesOf at branch
  dsimp only at branch
  split at branch
  · exact .inl (declared branch)
  · next properties found =>
    rcases List.mem_append.mp branch with old | new
    · exact .inl (declared old)
    · refine .inr ⟨properties, (Option.filter_eq_some_iff.mp found).1, ?_⟩
      rw [List.mem_singleton.mp new]
      cases schema.get? "required" <;> rfl

namespace Document

variable {d : Document} {pointer path : String} {j x : Json}

theorem within_of_lookup? (found : d.lookup? pointer = some x) : x.Within d.root := by
  unfold lookup? at found
  split at found
  · obtain ⟨_, _, found⟩ := Option.bind_eq_some_iff.mp found
    exact Json.within_of_pointer? found
  · cases found

/-- A component that is found is the one looked up. -/
theorem lookup?_of_component (found : d.component pointer path = .ok x) :
    d.lookup? pointer = some x := by
  unfold component at found
  split at found
  · next here =>
    cases found
    exact here
  · cases found

/-- A reference fails for want of its target. -/
theorem lost_of_component {fault : Fault} (missing : d.component pointer path = .error fault) :
    d.lookup? pointer = none ∧ fault = .reference pointer path := by
  unfold component at missing
  split at missing
  · cases missing
  · next lost =>
    cases missing
    exact ⟨lost, rfl⟩

/-- A component that is found is within the document. -/
theorem within_of_component (found : d.component pointer path = .ok x) : x.Within d.root :=
  within_of_lookup? (lookup?_of_component found)

/-- What one round of a search for the end of references comes to: it is over at a fragment that is
no reference, at a reference that was met before and at one without a target, and goes on at the
target otherwise. -/
inductive Turn (d : Document) (path : String) (fuel : Nat) (seen : List String) (j : Json)
    (answer : Except Fault Json) : Prop
  | value (plain : j.ref? = none) (here : answer = .ok j)
  | again {pointer : String} (ref : j.ref? = some pointer) (known : pointer ∈ seen)
    (here : answer = .ok j)
  | gap {pointer : String} (ref : j.ref? = some pointer) (lost : d.lookup? pointer = none)
    (fault : answer = .error (.reference pointer path))
  | next {pointer : String} {target : Json} (ref : j.ref? = some pointer) (new : pointer ∉ seen)
    (found : d.lookup? pointer = some target)
    (more : d.followFrom path fuel (pointer :: seen) target = answer)

/-- One turn of following a chain, by how it comes out. -/
theorem turn_of_followFrom {fuel : Nat} {seen : List String} {answer : Except Fault Json}
    (h : d.followFrom path (fuel + 1) seen j = answer) : d.Turn path fuel seen j answer := by
  rw [followFrom] at h
  split at h
  · next plain => exact .value plain h.symm
  · next pointer ref =>
    split at h
    · next known => exact .again ref (List.contains_iff_mem.mp known) h.symm
    · next new =>
      unfold component at h
      cases found : d.lookup? pointer with
      | none =>
        rw [found] at h
        exact .gap ref found h.symm
      | some target =>
        rw [found] at h
        exact .next ref (fun mem => new (List.contains_iff_mem.mpr mem)) found h

/-- References lead into the description. -/
theorem within_of_followFrom {fuel : Nat} {seen : List String}
    (found : d.followFrom path fuel seen j = .ok x) : x = j ∨ x.Within d.root := by
  induction fuel generalizing seen j with
  | zero => cases found
  | succ fuel ih =>
    cases turn_of_followFrom found with
    | value _ here | again _ _ here =>
      cases here
      exact .inl rfl
    | gap _ _ fault => cases fault
    | next _ _ target more =>
      rcases ih more with rfl | inside
      · exact .inr (within_of_lookup? target)
      · exact .inr inside

/-- Where a reference ends is in the description. -/
theorem within_of_target {fuel : Nat} {seen : List String} {target : Json}
    (component : d.component pointer path = .ok target)
    (follow : d.followFrom path fuel seen target = .ok x) : x.Within d.root := by
  rcases within_of_followFrom follow with rfl | inside
  · exact within_of_component component
  · exact inside

end Document

end RestGraph
