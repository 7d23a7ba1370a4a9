import Mathlib.Data.List.Forall2
import Mathlib.Data.List.Induction
import RestGraph.Proofs.Document.Following
import RestGraph.Proofs.Document.Sites
import RestGraph.Proofs.Document.Within
import RestGraph.Proofs.Graph.Sound
import RestGraph.Proofs.Run.Ends

/-!
# Declared parameters

Parameters are declared for a path and for each of its operations, perhaps through references. What
they come to is told without the table that they are entered in: for each name and place the last
declaration, in the order in which names and places are met first.
-/

namespace RestGraph

variable {d : Document} {j : Json}

/-- Under a key that is there something is found. -/
theorem exists_lookup {α β : Type} [BEq α] [LawfulBEq α] {entries : List (α × β)} {key : α}
    (mem : key ∈ entries.map Prod.fst) : ∃ x, entries.lookup key = some x := by
  cases found : entries.lookup key with
  | some x => exact ⟨x, rfl⟩
  | none =>
    obtain ⟨entry, inside, rfl⟩ := List.mem_map.mp mem
    exact absurd rfl (bne_iff_ne.mp (List.lookup_eq_none_iff.mp found entry inside))

/-! ## Merging -/

/-- What tells parameters apart: their name, and the text that says where they go. -/
def Json.slot (param : Json) : String × String := (Build.paramName param, Build.paramPlace param)

def IsNamed (slot : String × String) : Bool := !slot.1.isEmpty

def IsCookie (slot : String × String) : Bool := Location.ofText slot.2 == .cookie

/-- For each name and place the last declaration, in the order in which these are met first. What
has no name or goes into a cookie is left out. -/
structure Merges (declarations params : List Json) : Prop where
  slots : params.map Json.slot =
    ((declarations.map Json.slot).filter fun slot => !IsCookie slot && IsNamed slot).eraseDups
  last : ∀ param ∈ params, (declarations.filter (·.slot == param.slot)).getLast? = some param

section Duplicates

variable {α : Type} [BEq α] [LawfulBEq α]

/-- The last of a list is dropped when it occurred before. -/
@[simp] theorem eraseDups_concat (xs : List α) (x : α) :
    (xs ++ [x]).eraseDups = if x ∈ xs then xs.eraseDups else xs.eraseDups ++ [x] := by
  rw [List.eraseDups_append]
  split
  · next old => simp [List.removeAll, old]
  · next new => simp [List.removeAll, new, List.eraseDups_cons]

theorem filter_eraseDups (p : α → Bool) (xs : List α) :
    xs.eraseDups.filter p = (xs.filter p).eraseDups := by
  induction xs using List.reverseRecOn with
  | nil => rfl
  | append_singleton rest x ih =>
    rw [eraseDups_concat, List.filter_append]
    cases chosen : p x with
    | false =>
      have none : [x].filter p = [] := by simp [chosen]
      rw [none, List.append_nil, ← ih]
      split
      · rfl
      · rw [List.filter_append, none, List.append_nil]
    | true =>
      have one : [x].filter p = [x] := by simp [chosen]
      rw [one, eraseDups_concat, ← ih]
      simp only [List.mem_filter, chosen, and_true]
      split
      · rfl
      · rw [List.filter_append, one]

theorem nodup_eraseDups (xs : List α) : xs.eraseDups.Nodup := by
  induction xs using List.reverseRecOn with
  | nil => exact .nil
  | append_singleton rest x ih =>
    rw [eraseDups_concat]
    split
    · exact ih
    · next new =>
      refine List.nodup_append.mpr ⟨ih, List.nodup_singleton x, fun a old b last same => ?_⟩
      rw [List.mem_singleton.mp last] at same
      exact new (List.mem_eraseDups.mp (same ▸ old))

end Duplicates

namespace Run

/-- The table of parameters with one more declaration. -/
def enterParam (table : List ((String × String) × Json)) (param : Json) :
    List ((String × String) × Json) :=
  if IsNamed param.slot then assign param.slot param table else table

def entered (declarations : List Json) : List ((String × String) × Json) :=
  declarations.foldl enterParam []

variable {declarations : List Json} {slot : String × String}

@[simp] theorem entered_concat (declarations : List Json) (param : Json) :
    entered (declarations ++ [param]) = enterParam (entered declarations) param :=
  List.foldl_concat ..

/-- Every slot that has a name is entered once, where it comes first. -/
@[simp] theorem slots_entered (declarations : List Json) : (entered declarations).map Prod.fst =
    ((declarations.map Json.slot).filter IsNamed).eraseDups := by
  induction declarations using List.reverseRecOn with
  | nil => rfl
  | append_singleton rest param ih =>
    rw [entered_concat, enterParam, List.map_append, List.filter_append, List.map_singleton]
    split
    · next named =>
      have one : [param.slot].filter IsNamed = [param.slot] := by simp [named]
      rw [one, keys_assign, ih, eraseDups_concat]
      simp only [List.mem_eraseDups]
    · next nameless =>
      have none : [param.slot].filter IsNamed = [] := by simp [nameless]
      rw [none, List.append_nil, ih]

@[simp] theorem lookup_entered (named : IsNamed slot = true) : (entered declarations).lookup slot =
    (declarations.filter (·.slot == slot)).getLast? := by
  induction declarations using List.reverseRecOn with
  | nil => rfl
  | append_singleton rest param ih =>
    rw [entered_concat, enterParam, List.filter_append]
    by_cases same : param.slot = slot
    · have one : [param].filter (·.slot == slot) = [param] := by simp [same]
      rw [same, if_pos named, lookup_assign, if_pos rfl, one, List.getLast?_concat]
    · have none : [param].filter (·.slot == slot) = [] := by simp [same]
      rw [none, List.append_nil, ← ih]
      split
      · rw [lookup_assign, if_neg (Ne.symm same)]
      · rfl

/-- What stands in the table is the last that was declared for its slot. -/
theorem last_of_mem_entered {param : Json} (mem : (slot, param) ∈ entered declarations) :
    param.slot = slot ∧ (declarations.filter (·.slot == slot)).getLast? = some param := by
  have nodup : ((entered declarations).map Prod.fst).Nodup :=
    slots_entered declarations ▸ nodup_eraseDups _
  have key : slot ∈ (entered declarations).map Prod.fst := List.mem_map_of_mem mem
  rw [slots_entered, List.mem_eraseDups, List.mem_filter] at key
  have last := lookup_of_mem nodup mem
  rw [lookup_entered key.2] at last
  have declared := List.mem_of_getLast? last
  exact ⟨beq_iff_eq.mp (List.mem_filter.mp declared).2, last⟩

/-- The declarations are merged to what is entered, but for the cookies. -/
theorem merges_entered (declarations : List Json) : Merges declarations
    (((entered declarations).map Prod.snd).filter fun param => !IsCookie param.slot) where
  slots := by
    have slots : ((entered declarations).map Prod.snd).map Json.slot =
        (entered declarations).map Prod.fst := by
      rw [List.map_map]
      exact List.map_congr_left fun _ mem => (last_of_mem_entered mem).1
    rw [← List.filter_filter, ← filter_eraseDups, ← slots_entered, ← slots]
    exact (List.filter_map (p := fun slot => !IsCookie slot)).symm
  last param mem := by
    obtain ⟨⟨slot, _⟩, inside, rfl⟩ := List.mem_map.mp (List.mem_of_mem_filter mem)
    obtain ⟨rfl, last⟩ := last_of_mem_entered inside
    exact last

end Run

namespace Document

variable {path : String} {raw : List Json}

/-- Parameters are entered as the declarations that they lead to. -/
theorem entered_of_foldlM {table table' : List ((String × String) × Json)}
    (h : raw.foldlM (d.addParameter path) table = .ok table') :
    ∃ declarations, List.Forall₂ (d.LeadsTo []) raw declarations ∧
      table' = declarations.foldl Run.enterParam table := by
  induction raw generalizing table with
  | nil =>
    cases h
    exact ⟨[], .nil, rfl⟩
  | cons j rest ih =>
    rw [List.foldlM_cons] at h
    obtain ⟨next, entered, h⟩ := bind_eq_ok_iff.mp h
    obtain ⟨param, leads, entered⟩ := bind_eq_ok_iff.mp entered
    obtain rfl : next = Run.enterParam table param := by
      unfold Run.enterParam IsNamed Json.slot
      cases empty : (Build.paramName param).isEmpty <;> rw [empty] at entered <;>
        exact (Except.ok.inj entered).symm
    obtain ⟨declarations, more, rfl⟩ := ih h
    exact ⟨param :: declarations, .cons (leadsTo_of_followFrom leads) more, rfl⟩

/-- Merged parameters are the declarations that the raw ones lead to. -/
theorem entered_of_mergeParameters {params : List Json}
    (h : d.mergeParameters path raw = .ok params) :
    ∃ declarations, List.Forall₂ (d.LeadsTo []) raw declarations ∧
      params = (Run.entered declarations).map Prod.snd := by
  obtain ⟨_, folded, h⟩ := bind_eq_ok_iff.mp h
  cases h
  obtain ⟨declarations, leads, rfl⟩ := entered_of_foldlM folded
  exact ⟨declarations, leads, rfl⟩

end Document

end RestGraph
