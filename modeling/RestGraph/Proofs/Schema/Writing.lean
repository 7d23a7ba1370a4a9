import RestGraph.Proofs.Naming.Letters
import RestGraph.Proofs.Schema.Meeting
import RestGraph.Schema.Mapping

/-!
# What a mapping writes

Each field that is shown of a container is written as one entry: as a comment where it closes a
cycle, as a block where it leads to a container, and as a leaf elsewhere. No list of entries is
printed as the single `$` that stands for a whole response.
-/

namespace RestGraph

variable {g : Graph} {c : Collection} {side : Side} {n : Nat} {f : VisibleField} {e : Entry}

/-- The entry that is written for a field. -/
inductive Graph.Writes (g : Graph) (c : Collection) (side : Side) (f : VisibleField) : Entry → Prop
  | circular (closed : f.isDeclared g = false) : Writes g c side f (.circular f.jsonName)
  | leaf {name : String} (named : f.name = some name) (declared : f.isDeclared g = true)
      (plain : (g.node (g.elementOf f.prop)).kind.isStructured = false) :
      Writes g c side f (.leaf name f.jsonName f.comment)
  | block {name : String} (named : f.name = some name) (declared : f.isDeclared g = true)
      (structured : (g.node (g.elementOf f.prop)).kind.isStructured = true) :
      Writes g c side f
        (.block name f.jsonName (entriesOf g (side.selection c) (g.elementOf f.prop)))

namespace Graph

theorem Writes.unique {e' : Entry} (h : g.Writes c side f e) (h' : g.Writes c side f e') :
    e = e' := by
  cases h <;> cases h' <;> simp_all

/-- The element of a field comes after the container. -/
theorem Sound.element_of_field (sound : g.Sound) (shown : f ∈ g.fieldsOn c side n) :
    n < g.elementOf f.prop ∧ g.elementOf f.prop < g.size := by
  have above := (sound.fields (prop_of_mem_fieldsOn shown)).above
  exact ⟨(lt_of_mem_ancestors above).trans_le (le_elementOf g f.prop),
    elementOf_lt (lt_size_of_mem_ancestors above)⟩

/-- The entries of a container are those that its fields are written as. -/
theorem mem_entriesOf (sound : g.Sound) : e ∈ entriesOf g (side.selection c) n ↔
    ∃ f ∈ g.fieldsOn c side n, g.Writes c side f e := by
  rw [entriesOf, List.mem_map]
  refine exists_congr fun f => and_congr_right fun shown => ?_
  have bounds := sound.element_of_field shown
  suffices written : g.Writes c side f _ from
    ⟨fun same => same ▸ written, fun other => written.unique other⟩
  cases named : f.name with
  | none => exact .circular (by rw [VisibleField.isDeclared, named]; rfl)
  | some name =>
    cases circular : (g.node (g.elementOf f.prop)).kind.isCircular with
    | true =>
      simp only [circular, if_true]
      exact .circular (by rw [VisibleField.isDeclared, named, circular]; rfl)
    | false =>
      have declared : f.isDeclared g = true := by
        rw [VisibleField.isDeclared, named, circular]
        rfl
      cases structured : (g.node (g.elementOf f.prop)).kind.isStructured with
      | true =>
        simp only [circular, structured, if_true, Bool.false_eq_true, if_false, dif_pos bounds]
        exact .block named declared structured
      | false =>
        simp only [circular, structured, Bool.false_eq_true, if_false]
        exact .leaf named declared structured

end Graph

/-! ## Lines -/

theorem isNameChar_of_mem_nameFields {taken : List String} {props : List (String × Nat)}
    {name : String} (shown : f ∈ nameFields g taken props) (named : f.name = some name) {x : Char}
    (mem : x ∈ name.toList) : Naming.isNameChar x = true := by
  induction props generalizing taken with
  | nil => cases shown
  | cons entry rest ih =>
    rw [nameFields] at shown
    split at shown
    · rcases List.mem_cons.mp shown with rfl | shown
      · cases named
      · exact ih shown
    · rcases List.mem_cons.mp shown with rfl | shown
      · rw [← Option.some.inj named] at mem
        exact Naming.isNameChar_unique (fun _ => Naming.isNameChar_guardReserved) mem
      · exact ih shown

def wholeMark : String := "$"

/-- A line with another character is not the mark for a whole. -/
theorem ne_wholeMark {line : String} {x : Char} (mem : x ∈ line.toList) (other : x ≠ '$') :
    line ≠ wholeMark := fun same => by
  rw [same, show wholeMark.toList = ['$'] by decide, List.mem_singleton] at mem
  exact other mem

/-- A head either has a colon in it or is the name of the field. -/
theorem selectionEntry_ne_wholeMark {name : String} (key : String)
    (chars : ∀ x ∈ name.toList, Naming.isNameChar x = true) :
    Naming.selectionEntry name key ≠ wholeMark := by
  unfold Naming.selectionEntry
  split
  · next same =>
    rintro rfl
    have mark := chars '$' (by rw [same]; decide)
    exact absurd mark (by decide)
  · refine ne_wholeMark (x := ':') ?_ (by decide)
    simp only [String.toList_append, List.mem_append]
    exact .inl (.inr (by decide))

theorem Graph.Writes.first_line (written : g.Writes c side f e) (shown : f ∈ g.fieldsOn c side n) :
    ∃ line rest, e.lines .response 0 = line :: rest ∧ line ≠ wholeMark := by
  have empty : indentation 0 = "" := rfl
  cases written with
  | circular =>
    refine ⟨_, [], by rw [Entry.lines], ne_wholeMark (x := '#') ?_ (by decide)⟩
    simp only [String.toList_append, List.mem_append]
    exact .inl (.inl (.inr (by decide)))
  | leaf named =>
    have head := selectionEntry_ne_wholeMark f.jsonName
      fun x => isNameChar_of_mem_nameFields shown named (x := x)
    cases comment : f.comment with
    | none =>
      refine ⟨_, [], by rw [Entry.lines], ?_⟩
      rwa [empty, String.empty_append]
    | some text =>
      refine ⟨_, [], by rw [Entry.lines], ne_wholeMark (x := ' ') ?_ (by decide)⟩
      simp only [String.toList_append, List.mem_append]
      exact .inl (.inr (by decide))
  | block =>
    refine ⟨_, _, by rw [Entry.lines, List.append_assoc, List.singleton_append],
      ne_wholeMark (x := ' ') ?_ (by decide)⟩
    simp only [String.toList_append, List.mem_append]
    exact .inr (by decide)

/-- The block of a container is never printed as the mark of a whole response. -/
theorem Graph.Sound.linesOf_ne_whole (sound : g.Sound) (side : Side) :
    Entry.linesOf .response 0 (entriesOf g (side.selection c) n) ≠ [wholeMark] := by
  cases entries : entriesOf g (side.selection c) n with
  | nil => exact fun same => by cases same
  | cons e rest =>
    obtain ⟨f, shown, written⟩ := (mem_entriesOf sound).mp (entries ▸ List.mem_cons_self)
    obtain ⟨line, more, lines, other⟩ := written.first_line shown
    rw [Entry.linesOf, lines, List.cons_append]
    exact fun same => other (List.cons.inj same).1

end RestGraph
