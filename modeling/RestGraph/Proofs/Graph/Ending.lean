import Mathlib.Tactic.Linarith
import RestGraph.Proofs.Graph.Lasting
import RestGraph.Proofs.Graph.Proceeding
import RestGraph.Selection.Resolve

/-!
# Every step ends

A step that goes down the graph first meets nodes that were there, which come later and later, and
then nodes that it makes itself, each of which needs less depth than the one above. It does not go
on below an object, so it makes no way of properties within properties.
-/

namespace RestGraph

variable {d : Document} {ptrs : List String} {bound k : Nat} {since : Option Nat} {b r s t : Run}
  {p i c : Nat} {schema : Json}

def depthBound (ptrs : List String) (bound : Nat) : Nat :=
  ptrs.length * (2 * bound + 6) + (2 * bound + 5)

/-- A bound for how far a step goes below a node, of which those from `k` on are new. -/
def Graph.room (ptrs : List String) (bound k : Nat) (g : Graph) (i : Nat) : Nat :=
  if i < k then k - i + depthBound ptrs bound else (g.node i).need ptrs bound

namespace Run.Bounded

/-- No node needs more depth than the bound. -/
theorem need_le (bounded : r.Bounded d ptrs bound since) (i : Nat) :
    (r.graph.node i).need ptrs bound ≤ depthBound ptrs bound := Node.need_le (bounded.fits i).size

/-- A step goes on with less room below a node that is no object. -/
theorem room_lt (bounded : r.Bounded d ptrs bound (some k)) (child : c ∈ (r.graph.node i).children)
    (other : (r.graph.node i).kind.tag ≠ .object)
    (plain : k ≤ i → (r.graph.node i).isProperty = false) :
    (k ≤ c → (r.graph.node c).isProperty = false) ∧
      r.graph.room ptrs bound k c < r.graph.room ptrs bound k i := by
  have below := (bounded.below child).1
  have plain' : k ≤ c → (r.graph.node c).isProperty = false := by
    intro le
    by_contra prop
    have owner := bounded.owned child k rfl le (Bool.not_eq_false _ ▸ prop)
    have early := bounded.early child k rfl le
    rw [Node.isProperty] at plain
    cases kind : (r.graph.node i).kind <;> rw [kind] at owner early plain other <;> try cases owner
    · exact other rfl
    · next shape _ =>
      cases shape <;> cases owner
      cases plain (early rfl)
  refine ⟨plain', ?_⟩
  have small := bounded.need_le c
  unfold Graph.room
  by_cases old : i < k
  · rw [if_pos old]
    split <;> omega
  · have le : k ≤ i := Nat.le_of_not_lt old
    have less := bounded.less child k rfl le (plain le) (plain' (by omega))
    rwa [if_neg old, if_neg (by omega)]

/-- Room stays what it is. -/
theorem room_eq (next : Proceeds d ptrs bound since r s) (inside : i < r.graph.size)
    (plain : k ≤ i → (r.graph.node i).isProperty = false) :
    s.graph.room ptrs bound k i = r.graph.room ptrs bound k i := by
  unfold Graph.room
  split
  · rfl
  · next new => rw [(next.grown.keeps inside).need (plain (Nat.le_of_not_lt new))]

/-- The depth of every loop is enough. -/
theorem lt_reach (bounded : r.Bounded d ptrs bound since) :
    r.graph.size + depthBound ptrs bound < r.reach := by
  have known := bounded.known
  have room := bounded.room
  have nine : syntheticSchema.size = 9 := rfl
  have cube : Nat.pow (2 * r.extent + 16) 3 =
      (2 * r.extent + 16) * (2 * r.extent + 16) * (2 * r.extent + 16) := by
    change (2 * r.extent + 16) ^ 3 = _
    rw [Nat.pow_succ, Nat.pow_two]
  have product : ptrs.length * (2 * bound + 6) ≤ r.extent * (2 * r.extent + 24) :=
    Nat.mul_le_mul known (by omega)
  have square : r.extent * (2 * r.extent + 24) + (2 * r.extent + 23) <
      (2 * r.extent + 16) * (2 * r.extent + 16) := by nlinarith
  have more : (2 * r.extent + 16) * (2 * r.extent + 16) ≤
      (2 * r.extent + 16) * (2 * r.extent + 16) * (2 * r.extent + 16) :=
    Nat.le_mul_of_pos_right _ (by omega)
  unfold Run.reach depthBound
  rw [cube]
  omega

/-- A run reaches deeper than any of its nodes may need. -/
theorem room_lt_reach (bounded : r.Bounded d ptrs bound since) (i : Nat) :
    r.graph.room ptrs bound r.graph.size i < r.reach := by
  have enough := bounded.lt_reach
  have small := bounded.need_le i
  unfold Graph.room
  split <;> omega

end Run.Bounded

namespace Build

theorem lasts_deref {path : String} {j : Json} (bounded : r.Bounded d ptrs bound since)
    (fits : j.Fits ptrs bound) : Lasts (deref d path j) r := by
  refine Lasts.get.bind fun h => ?_
  obtain ⟨rfl, rfl⟩ := Ends.get_iff.mp h
  have known := bounded.known
  refine .liftExcept (Document.followFrom_lasts bounded.root.pointers fits.pointers .nil
    (List.nil_subset _) ?_)
  rw [List.length_nil]
  omega

theorem lasts_mergeParameters {path : String} {raw : List Json}
    (bounded : r.Bounded d ptrs bound since) (fits : ∀ j ∈ raw, j.Fits ptrs bound) :
    Lasts (mergeParameters d path raw) r := by
  refine (Lasts.foldlM (I := fun s => r = s) (fun {param merged s} mem same => ?_)
    (fun {param merged merged' s t} mem same h => ?_) rfl).bind fun _ => .pure _
  · subst same
    refine (lasts_deref bounded (fits param mem)).bind fun _ => ?_
    split <;> exact .pure _
  · obtain ⟨_, _, h, h'⟩ := Ends.bind_iff.mp h
    obtain ⟨rfl, -⟩ := ends_deref h
    split at h' <;> exact same.trans (Ends.pure_iff.mp h').2

theorem lasts_chosenResponse {path : String} {responses : Json}
    (bounded : r.Bounded d ptrs bound since)
    (fits : ∀ {status j}, responses.get? status = some j → j.Fits ptrs bound) :
    Lasts (chosenResponse d path responses) r := by
  unfold chosenResponse
  split
  · exact .pure _
  · next status _ =>
    refine (lasts_deref bounded ?_).bind fun _ => .pure _
    cases found : responses.get? status with
    | none =>
      have large := bounded.room
      have nine : syntheticSchema.size = 9 := rfl
      have one : Json.null.size = 1 := rfl
      exact ⟨by rw [Option.getD_none]; omega, rfl⟩
    | some response => exact fits found

/-- A property that fits is built to the end. -/
theorem lasts_fromProp {name : String} {required : Bool} (bounded : r.Bounded d ptrs bound since)
    (fits : schema.Fits ptrs bound) : Lasts (fromProp d p name schema required) r := by
  refine Lasts.get.bind fun h => ?_
  obtain ⟨rfl, rfl⟩ := Ends.get_iff.mp h
  have enough := bounded.lt_reach
  have large : d.root.size ≤ bound := bounded.root.size.trans (bounded.room ▸ Nat.le_add_right _ _)
  refine lasts_propWithin bounded.root.pointers large bounded.root.size fits.pointers .nil
    (List.nil_subset _) ?_
  have size := fits.size
  have product : ptrs.length * (bound + 1) ≤ ptrs.length * (2 * bound + 6) :=
    Nat.mul_le_mul_left _ (by omega)
  unfold elementRoom
  unfold depthBound at enough
  rw [List.length_nil, Nat.sub_zero]
  omega

/-- A node that is made for a fragment stands below its parent. -/
theorem mem_of_fromSchema (bounded : r.Bounded d ptrs bound since)
    (suits : r.graph.Suits ptrs bound since p schema) (h : Ends (fromSchema p schema) r c s) :
    c ∈ (s.graph.node p).children := by
  have attached : ∀ {seed : Seed} {c s}, Ends (attachChecked p seed) r c s →
      c ∈ (s.graph.node p).children := fun h => by
    obtain ⟨rfl, graph, -⟩ := ends_attachChecked h
    rw [graph, Graph.children_attach suits.inside, if_pos rfl]
    exact List.mem_append_right _ (List.mem_singleton_self _)
  unfold fromSchema at h
  obtain ⟨depth, same⟩ := Nat.exists_eq_succ_of_ne_zero (Nat.ne_of_gt schema.size_pos)
  rw [same, fromSchemaWithin] at h
  simp only [Ends.bind_iff, ends_node] at h
  obtain ⟨_, _, ⟨rfl, rfl⟩, h⟩ := h
  split at h
  · exact attached h
  · next shape notRef =>
    split at h
    · exact absurd h (by
        simp only [Ends.bind_iff, Ends.throw_iff, and_false, exists_false, not_false_eq_true])
    · next kind made =>
      simp only [Ends.bind_iff, Ends.pure_iff] at h
      obtain ⟨i, t, h, _, u, settled, rfl, rfl⟩ := h
      have seed := Node.seedBelow?_of_kind (n := r.graph.node p) notRef made
      have next := (attachChecked_proceeds (d := d) suits seed).ends h
      have new := node_attachChecked h suits.inside
      obtain ⟨handle, graph, -⟩ := ends_attachChecked h
      have inside : i < t.graph.size := by
        rw [graph, handle]
        exact Graph.lt_size_attach
      have later := (settle_proceeds (next.bounded bounded) inside
        (fun k new => handle ▸ bounded.began k new) (by rw [new]; exact Graph.checked_schema)
        fromSchemaWithin_proceeds).ends settled
      exact (later.grown.keeps (suits.inside.trans_le next.grown.size_le)).children.subset
        (attached h)

theorem lasts_visitObject {synthetic : Bool} (bounded : b.Bounded d ptrs bound since)
    (inside : i < b.graph.size) (kind : (b.graph.node i).kind = .object synthetic) :
    Lasts (visitObject d i) b := by
  refine lasts_node.bind fun h => ?_
  obtain ⟨rfl, rfl⟩ := ends_node.mp h
  have fits : ∀ {x}, x ∈ sortedProperties (b.graph.node i).schema → x.2.Fits ptrs bound :=
    fun mem => (bounded.fits i).inside (within_of_mem_sortedProperties mem)
  refine Lasts.forM (I := Run.Proceeds d ptrs bound since b) (fun {x s} mem next => ?_)
    (fun {x s t} mem next h => trans_of _ next ?_) (refl_of _ b)
  · exact (lasts_fromProp (next.bounded bounded) (fits mem)).bind fun _ => lasts_modifyNode
  · exact (enterField_proceeds (next.bounded bounded) (inside.trans_le next.grown.size_le)
      ((next.kind inside (by rw [Node.isProperty, kind]; rfl)).trans kind) (fits mem)).ends h

section Kinds

variable {visitChild : Nat → Build Unit}
  (comes : ∀ {c s}, s.Bounded d ptrs bound since →
    Along (Run.Proceeds d ptrs bound since) (visitChild c) s)
  (lasts : ∀ {c s}, Run.Proceeds d ptrs bound since b s → c ∈ (s.graph.node i).children →
    Lasts (visitChild c) s)

include lasts

theorem lasts_attachPart {part : Seed} (next : Run.Proceeds d ptrs bound since b r)
    (takes : r.graph.Takes ptrs bound since i part) : Lasts (attach i part >>= visitChild) r := by
  refine lasts_attach.bind fun {c s} h => ?_
  refine lasts (trans_of _ next ((attach_proceeds takes).ends h)) ?_
  obtain ⟨rfl, rfl⟩ := ends_attach.mp h
  change _ ∈ ((r.graph.attach i part).node i).children
  rw [Graph.children_attach takes.inside, if_pos rfl]
  exact List.mem_append_right _ (List.mem_singleton_self _)

theorem lasts_visitParameter {operation : String} {param : Json}
    (next : Run.Proceeds d ptrs bound since b r) (inside : i < r.graph.size)
    (tag : (r.graph.node i).kind.tag = .operation) (fits : param.Fits ptrs bound) :
    Lasts (visitParameter visitChild i operation param) r := by
  unfold visitParameter
  dsimp only
  split
  · exact .pure _
  · exact lasts_attachPart lasts next
      (takes_of_part inside tag (Kind.admits_part tag (.inl rfl)) fits)

theorem lasts_visitRequest {operation path : String} {raw : Json}
    (bounded : b.Bounded d ptrs bound since) (next : Run.Proceeds d ptrs bound since b r)
    (inside : i < r.graph.size) (tag : (r.graph.node i).kind.tag = .operation)
    (fits : raw.Fits ptrs bound) :
    Lasts (visitRequest d visitChild i operation path raw) r := by
  have bounded := next.bounded bounded
  refine (lasts_deref bounded fits).bind fun h => ?_
  obtain ⟨rfl, leads⟩ := ends_deref h
  split
  · exact .pure _
  · next schema found =>
    have inner := Media.within_of_schema? found
    refine lasts_attachPart lasts next
      (takes_of_part inside tag (Kind.admits_part tag (.inr (.inl rfl))) ?_)
    rcases leads with rfl | root
    · exact fits.inside inner
    · exact bounded.of_root (inner.trans root)

theorem lasts_visitResponse {operation path : String} {responses : Json}
    (bounded : b.Bounded d ptrs bound since) (next : Run.Proceeds d ptrs bound since b r)
    (inside : i < r.graph.size) (tag : (r.graph.node i).kind.tag = .operation)
    (fits : ∀ {status j}, responses.get? status = some j → j.Fits ptrs bound) :
    Lasts (visitResponse d visitChild i operation path responses) r := by
  have bounded := next.bounded bounded
  refine (lasts_chosenResponse bounded fits).bind fun {chosen s} h => ?_
  obtain ⟨rfl, found⟩ := ends_chosenResponse h
  have takes : ∀ {part : Seed}, part.kind.tag = .response → part.schema.Fits ptrs bound →
      r.graph.Takes ptrs bound since i part := fun response fits =>
    takes_of_part inside tag (Kind.admits_part tag (.inr (.inr response))) fits
  cases chosen with
  | some x =>
    refine lasts_attachPart lasts next (takes rfl ?_)
    rcases found x rfl with ⟨_, response, got, inner⟩ | root
    · exact (fits got).inside inner
    · exact bounded.of_root root
  | none =>
    refine lasts_warn.bind fun {_ s} h => ?_
    have next : Run.Proceeds d ptrs bound since b s := trans_of _ next (warn_proceeds.ends h)
    obtain rfl := ends_warn.mp h
    exact lasts_attachPart lasts next (takes rfl (bounded.of_offers (i := i) .synthetic))

theorem lasts_enterSchema (bounded : b.Bounded d ptrs bound since)
    (next : Run.Proceeds d ptrs bound since b r)
    (suits : r.graph.Suits ptrs bound since i schema) :
    Lasts (enterSchema visitChild i schema) r := by
  have bounded := next.bounded bounded
  exact lasts_fromSchema.bind fun h =>
    lasts (trans_of _ next ((fromSchema_proceeds bounded suits).ends h))
      (mem_of_fromSchema bounded suits h)

include comes

theorem lasts_visitOperation {method : Method} {shared : List Json}
    (bounded : b.Bounded d ptrs bound since) (inside : i < b.graph.size)
    (tag : (b.graph.node i).kind.tag = .operation) (own : (b.graph.node i).kind.shared = shared) :
    Lasts (visitOperation d visitChild i method shared) b := by
  have later : ∀ {s : Run}, Run.Proceeds d ptrs bound since b s → s.Bounded d ptrs bound since ∧
      i < s.graph.size ∧ (s.graph.node i).kind.tag = .operation := fun next =>
    ⟨next.bounded bounded, inside.trans_le next.grown.size_le,
      (next.grown.keeps inside).kind.tag.trans tag⟩
  have offered : ∀ {j}, d.Offers (b.graph.node i) j → j.Fits ptrs bound := bounded.of_offers
  have declared : ∀ j ∈ shared ++ (((b.graph.node i).schema.get? "parameters").bind
      Json.list?).getD [], d.Offers (b.graph.node i) j := fun _ => .of_declared own
  refine lasts_node.bind fun h => lasts_pathOf.bind fun h' => ?_
  obtain ⟨rfl, rfl⟩ := ends_node.mp h
  obtain ⟨rfl, rfl⟩ := ends_pathOf.mp h'
  refine (lasts_mergeParameters bounded fun j mem => offered (declared j mem)).bind
    fun {params s} h => ?_
  obtain ⟨rfl, offers⟩ := ends_mergeParameters (n := b.graph.node i) h declared
  have start : Run.Proceeds d ptrs bound since b b := refl_of _ b
  have next : ∀ {param s t}, param ∈ params → Run.Proceeds d ptrs bound since b s →
      Ends (visitParameter visitChild i (b.graph.node i).name param) s ⟨⟩ t →
      Run.Proceeds d ptrs bound since b t := fun mem before h => by
    obtain ⟨bounded, inside, tag⟩ := later before
    exact trans_of _ before
      ((visitParameter_proceeds comes bounded inside tag (offered (offers _ mem))).ends h)
  refine (Lasts.forM (fun {param s} mem before => ?_) next start).bind fun {_ t} h => ?_
  · obtain ⟨-, inside, tag⟩ := later before
    exact lasts_visitParameter lasts before inside tag (offered (offers _ mem))
  have before := Ends.forM_keeps (I := Run.Proceeds d ptrs bound since b) next start h
  have answers : ∀ {v : Run}, Run.Proceeds d ptrs bound since b v →
      Lasts (visitResponse d visitChild i (b.graph.node i).name (b.graph.pathOf i)
        (((b.graph.node i).schema.get? "responses").getD .null)) v := by
    intro v next
    obtain ⟨-, inside, tag⟩ := later next
    refine lasts_visitResponse lasts bounded next inside tag fun got =>
      offered (.of_response got)
  split
  · next raw found =>
    split
    · obtain ⟨bounded', inside, tag⟩ := later before
      have fits := offered (.of_schema (Json.within_of_get? found))
      refine (lasts_visitRequest lasts bounded before inside tag fits).bind fun h => ?_
      exact answers (trans_of _ before
        ((visitRequest_proceeds comes bounded' inside tag fits).ends h))
    · exact answers before
  · exact answers before

theorem lasts_visitBranches {keys : List String} (bounded : b.Bounded d ptrs bound since)
    (inside : i < b.graph.size) (late : (b.graph.node i).kind.isEager = false)
    (fragments : ∀ place, d.fragmentAt? (b.graph.node i) place =
      (branchesOf (b.graph.node i).schema keys)[place]?) :
    Lasts (visitBranches visitChild i keys) b := by
  refine lasts_node.bind fun h => ?_
  obtain ⟨rfl, rfl⟩ := ends_node.mp h
  have suits : ∀ {schema s}, schema ∈ branchesOf (b.graph.node i).schema keys →
      Run.Proceeds d ptrs bound since b s → s.graph.Suits ptrs bound since i schema :=
    fun mem next => by
      obtain ⟨place, here⟩ := List.mem_iff_getElem?.mp mem
      exact next.suits bounded inside late ((fragments place).trans here)
  refine Lasts.forM (I := Run.Proceeds d ptrs bound since b)
    (fun mem next => lasts_enterSchema lasts bounded next (suits mem next))
    (fun mem next h => trans_of _ next ?_) (refl_of _ b)
  exact (enterSchema_proceeds comes (next.bounded bounded) (suits mem next)).ends h

theorem lasts_visitKind (bounded : b.Bounded d ptrs bound since) (inside : i < b.graph.size) :
    Lasts (visitKind d visitChild i (b.graph.node i).kind) b := by
  have single : ∀ {schema : Json}, (b.graph.node i).kind.isEager = false →
      d.fragmentAt? (b.graph.node i) 0 = some schema →
      Lasts (enterSchema visitChild i schema) b := fun late here =>
    lasts_enterSchema lasts bounded (refl_of _ b) (bounded.suits_of_fragmentAt? inside late here)
  cases kind : (b.graph.node i).kind <;> rw [kind] at single
  case operation =>
    exact lasts_visitOperation comes lasts bounded inside (by rw [kind]; rfl) (by rw [kind]; rfl)
  case param =>
    refine lasts_node.bind fun h => ?_
    obtain ⟨rfl, rfl⟩ := ends_node.mp h
    refine single rfl ?_
    unfold Document.fragmentAt?
    exact kind ▸ rfl
  case body | response =>
    refine lasts_node.bind fun h => ?_
    obtain ⟨rfl, rfl⟩ := ends_node.mp h
    exact single rfl (by rw [Document.fragmentAt?, kind])
  case reference pointer =>
    refine lasts_pathOf.bind fun h =>
      (Lasts.liftExcept Document.component_ne_depth).bind fun h' => ?_
    obtain ⟨rfl, rfl⟩ := ends_pathOf.mp h
    obtain ⟨found, rfl⟩ := Ends.liftExcept_iff.mp h'
    refine single rfl ?_
    rw [Document.fragmentAt?, kind]
    exact Document.lookup?_of_component found
  case object synthetic => exact lasts_visitObject bounded inside kind
  case composed | union =>
    exact lasts_visitBranches comes lasts bounded inside (kind ▸ rfl) fun place => by
      rw [Document.fragmentAt?, kind]
  case array | property =>
    refine lasts_node.bind fun h => ?_
    obtain ⟨rfl, rfl⟩ := ends_node.mp h
    refine Lasts.forM (I := Run.Proceeds d ptrs bound since b) (fun {c s} mem next => ?_)
      (fun {c s t} mem next h => trans_of _ next ((comes (next.bounded bounded)).ends h))
        (refl_of _ b)
    exact lasts next ((next.grown.keeps inside).children.subset mem)
  case scalar | enum | circular => exact .pure _

end Kinds

/-- A visit goes on below a node with less room, and not below an object. -/
theorem lasts_visitBelow {depth : Nat} (bounded : b.Bounded d ptrs bound (some k))
    (inside : i < b.graph.size) (plain : k ≤ i → (b.graph.node i).isProperty = false)
    (ih : ∀ {c s}, s.Bounded d ptrs bound (some k) →
      (k ≤ c → (s.graph.node c).isProperty = false) →
      s.graph.room ptrs bound k c < b.graph.room ptrs bound k i → Lasts (visitWithin d depth c) s) :
    Lasts (visitKind d (visitWithin d depth) i (b.graph.node i).kind) b := by
  by_cases object : (b.graph.node i).kind.tag = .object
  · cases kind : (b.graph.node i).kind <;> rw [kind] at object <;> cases object
    exact lasts_visitObject bounded inside kind
  · refine lasts_visitKind visitWithin_proceeds (fun {c s} next child => ?_) bounded inside
    have keeps := next.grown.keeps inside
    obtain ⟨plainChild, less⟩ := (next.bounded bounded).room_lt child
      (fun is => object (keeps.kind.tag.symm.trans is))
      fun le => keeps.kind.isProperty.trans (plain le)
    rw [Run.Bounded.room_eq next inside plain] at less
    exact ih (next.bounded bounded) plainChild less

/-- A visit that starts with more depth than its node has room for does not run out. -/
theorem lasts_visitWithin {depth : Nat} (bounded : r.Bounded d ptrs bound (some k))
    (plain : k ≤ i → (r.graph.node i).isProperty = false)
    (enough : r.graph.room ptrs bound k i < depth) : Lasts (visitWithin d depth i) r := by
  induction depth generalizing i r with
  | zero => exact absurd enough (Nat.not_lt_zero _)
  | succ depth ih =>
    rw [visitWithin]
    refine lasts_node.bind fun h => ?_
    obtain ⟨rfl, rfl⟩ := ends_node.mp h
    split
    · exact .pure _
    · next fresh =>
      have inside := Graph.lt_size_of_not_visited (Bool.eq_false_iff.mpr fresh)
      refine lasts_modifyNode.bind fun {_ s} h => lasts_framed ?_
      have next : Run.Proceeds d ptrs bound (some k) r s := markVisited_proceeds.ends h
      have kind : (s.graph.node i).kind = (r.graph.node i).kind := by
        rw [← ends_modifyNode.mp h]
        exact Graph.part_modify (f := fun n => { n with visited := true }) Node.kind
          (fun _ => rfl) i
      have entered : Run.Proceeds d ptrs bound (some k) r (s.enter i (r.graph.node i).kind.tag) :=
        trans_of _ next .enter
      have lasts := lasts_visitBelow (entered.bounded bounded)
        (inside.trans_le entered.grown.size_le) (fun le =>
          (entered.grown.keeps inside).kind.isProperty.trans (plain le))
        fun bounded plain less => ih bounded plain (by
          rw [Run.Bounded.room_eq entered inside ‹_›] at less
          omega)
      have same : ((s.enter i (r.graph.node i).kind.tag).graph.node i).kind =
          (r.graph.node i).kind :=
        kind
      rwa [same] at lasts

/-! ## Calls -/

/-- **A visit never runs out of depth.** -/
theorem lasts_visit (bounded : r.Bounded d ptrs bound since) : Lasts (visit d i) r := by
  refine Lasts.get.bind fun h => ?_
  obtain ⟨rfl, rfl⟩ := Ends.get_iff.mp h
  refine lasts_visitWithin bounded.restart (fun le => ?_) (bounded.room_lt_reach i)
  rw [Graph.node_of_size_le le]
  rfl

theorem lasts_childrenOf (bounded : r.Bounded d ptrs bound since) : Lasts (childrenOf d i) r :=
  (lasts_visit bounded).bind fun _ => lasts_node.bind fun _ => .pure _

theorem lasts_targetWithin {depth : Nat} (bounded : r.Bounded d ptrs bound (some k))
    (plain : k ≤ i → (r.graph.node i).isProperty = false)
    (enough : r.graph.room ptrs bound k i < depth) : Lasts (targetWithin d depth i) r := by
  induction depth generalizing i r with
  | zero => exact absurd enough (Nat.not_lt_zero _)
  | succ depth ih =>
    refine (lasts_visit bounded).bind fun {_ s} h => lasts_node.bind fun h' => ?_
    have next := (visit_proceeds bounded).ends h
    obtain ⟨rfl, rfl⟩ := ends_node.mp h'
    split
    · next c rest children =>
      split
      · next wrapper =>
        have child : c ∈ (s.graph.node i).children := children ▸ List.mem_cons_self
        have inside : i < r.graph.size := Nat.lt_of_not_le fun out => by
          have visited : (r.graph.node i).visited = true := by
            rw [Graph.node_of_size_le out]
            rfl
          obtain ⟨-, rfl⟩ := h.unique (ends_visit_of_visited visited)
          exact absurd (Graph.lt_size_of_child child) (Nat.not_lt.mpr out)
        have other : (s.graph.node i).kind.tag ≠ .object := fun is => by
          cases kind : (s.graph.node i).kind <;> rw [kind] at is wrapper <;>
            first | exact Tag.noConfusion is | exact Bool.noConfusion wrapper
        obtain ⟨plainChild, less⟩ := (next.bounded bounded).room_lt child other fun le =>
          (next.grown.keeps inside).kind.isProperty.trans (plain le)
        rw [Run.Bounded.room_eq next inside plain] at less
        exact ih (next.bounded bounded) plainChild (by omega)
      · exact .pure _
    · exact .pure _

/-- **The way to a target never runs out of depth.** -/
theorem lasts_resolveTarget (bounded : r.Bounded d ptrs bound since) :
    Lasts (resolveTarget d i) r := by
  refine Lasts.get.bind fun h => ?_
  obtain ⟨rfl, rfl⟩ := Ends.get_iff.mp h
  refine lasts_targetWithin bounded.restart (fun le => ?_) (bounded.room_lt_reach i)
  rw [Graph.node_of_size_le le]
  rfl

theorem lasts_descend {path : SelectionPath} {reached segments : List String}
    (bounded : r.Bounded d ptrs bound since) : Lasts (descend d path reached i segments) r := by
  induction segments generalizing reached i r with
  | nil => exact .pure _
  | cons segment rest ih =>
    refine (lasts_visit bounded).bind fun {_ s} h => lasts_graph.bind fun h' => ?_
    have next := (visit_proceeds bounded).ends h
    obtain ⟨rfl, rfl⟩ := ends_graph.mp h'
    split
    · exact ih (next.bounded bounded)
    · exact .throw Fault.noConfusion

/-- **A path is resolved to its end.** -/
theorem lasts_resolve {path : SelectionPath} (bounded : r.Bounded d ptrs bound since) :
    Lasts (resolve d path) r := by
  unfold resolve
  refine lasts_graph.bind fun h => ?_
  obtain ⟨rfl, rfl⟩ := ends_graph.mp h
  split
  · exact .throw Fault.noConfusion
  · split
    · exact lasts_descend bounded
    · exact .throw Fault.noConfusion

end Build

end RestGraph
