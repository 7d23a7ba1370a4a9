import RestGraph.Proofs.Document.Extent
import RestGraph.Proofs.Graph.Building

/-!
# Lasting

No step gives up for want of depth. Arrays are built through fragments that shrink; between two
references of an element chain fragments shrink too, and no reference is followed twice.
-/

namespace RestGraph

variable {d : Document} {r s : Run} {p i : Nat}

namespace Build

/-! ## Nodes from fragments -/

theorem lasts_attachChecked {seed : Seed} : Lasts (attachChecked p seed) r := by
  unfold attachChecked
  refine lasts_graph.bind fun _ => ?_
  split
  · exact lasts_warn.bind fun _ => lasts_attach
  · split
    · exact Lasts.bind (.modify _) fun _ => lasts_attach
    · exact lasts_attach

theorem lasts_warnMissingItems : Lasts (warnMissingItems i) r :=
  lasts_pathOf.bind fun _ => lasts_warn

theorem lasts_attachPlaceholder : Lasts (attachPlaceholder i) r :=
  lasts_warnMissingItems.bind fun _ => lasts_node.bind fun _ => lasts_attach

theorem lasts_settle {element : Nat → Json → Build Nat} {schema : Json}
    (lasts : ∀ items s, itemsOf? schema = some items → Lasts (element i items) s) :
    Lasts (settle element p i schema) r := by
  have fills : ∀ (kind : Kind) (s : Run), Lasts (fillArray element i schema kind) s := by
    intro kind s
    unfold fillArray
    split
    · split
      · next items here => exact (lasts items s here).discard
      · exact lasts_attachPlaceholder.discard
    · exact .pure _
  unfold settle
  refine lasts_node.bind fun _ => lasts_node.bind fun _ => ?_
  dsimp only
  split
  · exact fills _ _
  · exact Lasts.bind (.modify _) fun _ => fills _ _
  · exact fills _ _

theorem lasts_fromSchemaWithin {depth : Nat} {schema : Json} (enough : schema.size ≤ depth) :
    Lasts (fromSchemaWithin depth p schema) r := by
  induction depth generalizing p schema r with
  | zero => exact absurd schema.size_pos (by omega)
  | succ depth ih =>
    rw [fromSchemaWithin]
    refine lasts_node.bind fun _ => ?_
    split
    · exact lasts_attachChecked
    · split
      · exact lasts_pathOf.bind fun _ => .throw Fault.noConfusion
      · refine lasts_attachChecked.bind fun _ => Lasts.bind ?_ fun _ => .pure _
        refine lasts_settle fun items s here => ih ?_
        have := size_lt_of_itemsOf? here
        omega

/-- **A schema is built to the end.** -/
theorem lasts_fromSchema {schema : Json} : Lasts (fromSchema p schema) r :=
  lasts_fromSchemaWithin (Nat.le_refl _)

/-! ## Properties -/

theorem lasts_circularElement {name : String} {schema : Json} {ancestor : Nat} :
    Lasts (circularElement p name schema ancestor) r :=
  lasts_graph.bind fun _ => lasts_warn.bind fun _ => lasts_attach.bind fun _ =>
    lasts_attach.discard.bind fun _ => .pure _

theorem lasts_placeholderElement {name : String} : Lasts (placeholderElement p name) r :=
  lasts_warnMissingItems.bind fun _ => lasts_node.bind fun _ => lasts_attach.discard

theorem lasts_wrapSchema {schema : Json} {required : Bool} :
    Lasts (wrapSchema p schema required) r := by
  refine lasts_fromSchema.bind fun _ => lasts_node.bind fun _ => ?_
  split
  · exact lasts_modifyNode
  · exact .pure _

theorem lasts_decisive {schema : Json} (extent : d.root.size ≤ r.extent) :
    Lasts (decisive d p schema) r := by
  unfold decisive
  split
  · exact .pure _
  · refine Lasts.get.bind fun h => (Lasts.liftExcept Document.component_ne_depth).bind fun h' => ?_
    obtain ⟨rfl, rfl⟩ := Ends.get_iff.mp h
    obtain ⟨found, rfl⟩ := Ends.liftExcept_iff.mp h'
    refine .liftExcept (Document.followFrom_lasts (List.Subset.refl _)
      (Document.within_of_component found).pointers_subset .nil (List.nil_subset _) ?_)
    have := d.root.length_pointers_le
    rw [List.length_nil]
    omega

/-- What may still be built below an element: a reference that was not followed leads to fragments
of any size. -/
def elementRoom (ptrs : List String) (bound : Nat) (followed : List (String × Nat))
    (schema : Json) : Nat :=
  (ptrs.length - followed.length) * (bound + 1) + schema.size

theorem lasts_propWithin {depth bound : Nat} {name : String} {schema : Json} {required : Bool}
    {followed : List (String × Nat)} {ptrs : List String} (root : d.root.pointers ⊆ ptrs)
    (size : d.root.size ≤ bound) (extent : d.root.size ≤ r.extent) (own : schema.pointers ⊆ ptrs)
    (nodup : (followed.map Prod.fst).Nodup) (sub : followed.map Prod.fst ⊆ ptrs)
    (enough : elementRoom ptrs bound followed schema < depth) :
    Lasts (propWithin d depth p name schema required followed) r := by
  induction depth generalizing p name schema required followed r with
  | zero => exact absurd enough (Nat.not_lt_zero _)
  | succ depth ih =>
    rw [propWithin]
    split
    · exact lasts_circularElement
    · next miss =>
      refine lasts_node.bind fun h => (lasts_decisive ?_).bind fun {fragment s} h' =>
        lasts_attach.bind fun {prop t} h'' => ?_
      · rw [← (ends_node.mp h).2]
        exact extent
      · obtain ⟨rfl, rfl⟩ := ends_node.mp h
        obtain ⟨decides, rfl⟩ := ends_decisive h'
        have extent' : d.root.size ≤ t.extent := by
          rw [← (ends_attach.mp h'').2]
          exact extent
        split
        · exact .pure _
        · exact .pure _
        · split
          · next items here =>
            refine Lasts.bind (Lasts.discard ?_) fun _ => .pure _
            have smaller := size_lt_of_itemsOf? here
            have inside := (within_of_itemsOf? here).pointers_subset
            unfold elementRoom at enough ih
            unfold Document.Decides at decides
            split at decides
            · next noRef =>
              subst decides
              simp only [noRef]
              exact ih extent' (List.Subset.trans inside own) nodup sub (by omega)
            · next pointer ref =>
              obtain ⟨path, fuel, target, found, followed'⟩ := decides
              have within := Document.within_of_target found followed'
              have fresh : pointer ∉ followed.map Prod.fst := by
                rw [ref, Option.bind_some] at miss
                intro mem
                obtain ⟨⟨_, a⟩, known, rfl⟩ := List.mem_map.mp mem
                rw [lookup_of_mem nodup known] at miss
                cases miss
              have nodup' : (((pointer, prop) :: followed).map Prod.fst).Nodup :=
                List.nodup_cons.mpr ⟨fresh, nodup⟩
              have sub' : ((pointer, prop) :: followed).map Prod.fst ⊆ ptrs :=
                List.cons_subset.mpr ⟨own (Json.ref?_mem_pointers ref), sub⟩
              have more := length_le_of_nodup_of_subset nodup' sub'
              rw [List.length_map, List.length_cons] at more
              simp only [ref]
              refine ih extent' (List.Subset.trans inside
                (List.Subset.trans within.pointers_subset root)) nodup' sub' ?_
              have small := within.size_le
              rw [List.length_cons]
              -- one reference less is worth more than any fragment
              obtain ⟨k, left⟩ := Nat.exists_eq_add_of_le more
              have left' : ptrs.length - followed.length = k + 1 := by omega
              have left'' : ptrs.length - (followed.length + 1) = k := by omega
              rw [left', Nat.succ_mul] at enough
              rw [left'']
              omega
          · exact lasts_placeholderElement.bind fun _ => .pure _
        all_goals exact lasts_wrapSchema.bind fun _ => .pure _

end Build

end RestGraph
