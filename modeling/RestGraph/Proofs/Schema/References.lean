import Mathlib.Data.List.Dedup
import Mathlib.Data.List.Pairwise
import RestGraph.Proofs.Graph.Tally
import RestGraph.Proofs.Schema.Balance
import RestGraph.Proofs.Schema.History

/-!
# Counted references

A reference is counted as it is attached, and given back by every composition that it is merged
into. So the count of a pointer is the number of references to it, less the number of times that one
of them was merged. A reference below nested compositions may be merged into more than one of them.
-/

namespace RestGraph

variable {d : Document} {r s t : Run} {i : Nat} {p : String} {pending l : List Nat}
  {free fresh : Nat → Prop}

namespace Run

/-! ## Registries -/

@[simp] theorem refCount_addRef (p' : String) :
    (r.addRef p).refCount p' = r.refCount p' + if p = p' then 1 else 0 := by
  unfold addRef refCount
  rw [lookup_assign]
  by_cases same : p' = p
  · rw [if_pos same, if_pos same.symm, same]
    rfl
  · rw [if_neg same, if_neg (Ne.symm same), Int.add_zero]

theorem refCount_releaseRef (counted : (r.refCounts.lookup p).isSome = true) (p' : String) :
    (r.releaseRef p).refCount p' = r.refCount p' - if p = p' then 1 else 0 := by
  obtain ⟨n, found⟩ := Option.isSome_iff_exists.mp counted
  unfold releaseRef refCount
  rw [found]
  dsimp only
  rw [lookup_assign]
  by_cases same : p' = p
  · rw [if_pos same, if_pos same.symm, same, found]
    rfl
  · rw [if_neg same, if_neg (Ne.symm same), Int.sub_zero]

/-- Pointers that are counted stay so. -/
theorem isCounted_assign {n : Int} {p' : String} (counted : (r.refCounts.lookup p').isSome = true) :
    ((assign p n r.refCounts).lookup p').isSome = true := by
  rw [lookup_assign]
  split
  · rfl
  · exact counted

/-! ## The ledger -/

/-- How many nodes refer to the pointer. -/
def references (r : Run) (p : String) : Nat := r.graph.tally fun k => k.pointer? == some p

/-- How many of the nodes refer to the pointer. -/
def referring (r : Run) (p : String) (l : List Nat) : Nat :=
  l.countP fun i => (r.graph.node i).kind.pointer? == some p

/-- The books on references and on merged branches, while some branches are gathered that are not
entered yet. -/
structure Ledger (pending : List Nat) (r : Run) : Prop where
  counts : ∀ p, r.refCount p + r.referring p (r.absorbed ++ pending) = r.references p
  counted : ∀ {i p}, (r.graph.node i).kind.pointer? = some p → (r.refCounts.lookup p).isSome = true
  inside : ∀ i ∈ r.absorbed ++ pending, i < r.graph.size
  apart : pending.Nodup
  absorbed : r.absorbed = r.consumed.flatMap Prod.snd
  keys : (r.consumed.map Prod.fst).Nodup
  once : ∀ x ∈ r.consumed, x.2.Nodup
  marked : ∀ x ∈ r.consumed, x.1 < r.graph.size ∧ (r.graph.node x.1).consolidated = true

/-- What refers hangs on the pointers of the nodes. -/
theorem referring_congr (same : ∀ i ∈ l,
    (s.graph.node i).kind.pointer? = (r.graph.node i).kind.pointer?) :
    s.referring p l = r.referring p l := by
  refine List.countP_congr fun i mem => ?_
  rw [same i mem]

namespace Ledger

theorem note (ledger : r.Ledger pending) (notes : r.Notes s) : s.Ledger pending := by
  obtain ⟨graph, -, refCounts, consumed, absorbed, -⟩ := notes
  have counts : ∀ p, s.refCount p + s.referring p (s.absorbed ++ pending) = s.references p := by
    intro p
    rw [refCount, referring, references, graph, refCounts, absorbed]
    exact ledger.counts p
  exact ⟨counts, by rw [graph, refCounts]; exact ledger.counted,
    by rw [graph, absorbed]; exact ledger.inside, ledger.apart,
    by rw [consumed, absorbed]; exact ledger.absorbed, by rw [consumed]; exact ledger.keys,
    by rw [consumed]; exact ledger.once, by rw [consumed, graph]; exact ledger.marked⟩

/-- A node is attached, and counted if it is a reference. -/
theorem attach (ledger : r.Ledger pending) {q : Nat} {x : Seed}
    (graph : s.graph = r.graph.attach q x) (consumed : s.consumed = r.consumed)
    (absorbed : s.absorbed = r.absorbed)
    (counts : ∀ p, s.refCount p = r.refCount p + if x.kind.pointer? = some p then 1 else 0)
    (keeps : ∀ {p}, (r.refCounts.lookup p).isSome = true → (s.refCounts.lookup p).isSome = true)
    (counted : ∀ {p}, x.kind.pointer? = some p → (s.refCounts.lookup p).isSome = true) :
    s.Ledger pending := by
  have old : ∀ j < r.graph.size, (s.graph.node j).kind = (r.graph.node j).kind := fun j lt => by
    rw [graph, Graph.kind_attach_of_lt lt]
  have size : s.graph.size = r.graph.size + 1 := by rw [graph, Graph.size_attach]
  refine ⟨fun p => ?_, fun {i p} pointer => ?_, fun i mem => ?_, ledger.apart, ?_, ?_, ?_, ?_⟩
  · have merged : s.referring p (r.absorbed ++ pending) = r.referring p (r.absorbed ++ pending) :=
      referring_congr fun j mem => by rw [old j (ledger.inside j mem)]
    have references : s.references p = r.references p + if x.kind.pointer? =
        some p then 1 else 0 := by
      rw [Run.references, graph, Graph.tally_attach]
      simp only [beq_iff_eq]
      rfl
    have before := ledger.counts p
    rw [absorbed, merged, references, counts]
    split <;> push_cast <;> omega
  · rw [graph, Graph.kind_attach] at pointer
    split at pointer
    · exact counted pointer
    · exact keeps (ledger.counted pointer)
  · rw [size]
    exact Nat.lt_succ_of_lt (ledger.inside i (absorbed ▸ mem))
  · rw [absorbed, consumed]
    exact ledger.absorbed
  · rw [consumed]
    exact ledger.keys
  · rw [consumed]
    exact ledger.once
  · intro y mem
    rw [consumed] at mem
    obtain ⟨inside, mark⟩ := ledger.marked y mem
    rw [graph]
    exact ⟨inside.trans Graph.lt_size_attach, by simpa [Nat.ne_of_lt inside] using mark⟩

/-- A node is changed that refers to what it referred to before. -/
theorem modify (ledger : r.Ledger pending) {f : Node → Node}
    (pointer : (f (r.graph.node i)).kind.pointer? = (r.graph.node i).kind.pointer?)
    (marks : (r.graph.node i).consolidated = true → (f (r.graph.node i)).consolidated = true) :
    (r.onGraph fun g => g.modify i f).Ledger pending := by
  obtain inside | outside := Nat.lt_or_ge i r.graph.size
  swap
  · rw [onGraph, Graph.modify_of_size_le outside]
    exact ledger
  have same : ∀ j,
      ((r.graph.modify i f).node j).kind.pointer? = (r.graph.node j).kind.pointer? := by
    intro j
    rw [Graph.node_modify inside]
    split
    · next same => rw [same, pointer]
    · rfl
  refine ⟨fun p => ?_, fun {j p} refers => ?_, fun j mem => ?_, ledger.apart, ledger.absorbed,
    ledger.keys, ledger.once, fun x mem => ?_⟩
  · have merged : (r.onGraph fun g => g.modify i f).referring p (r.absorbed ++ pending) =
      r.referring p (r.absorbed ++ pending) := referring_congr fun j _ => same j
    have references : (r.onGraph fun g => g.modify i f).references p = r.references p :=
      Graph.tally_modify (by rw [pointer])
    rw [references, ← ledger.counts p]
    exact congrArg (fun n : Nat => r.refCount p + n) merged
  · exact ledger.counted ((same j).symm.trans refers)
  · exact (ledger.inside j mem).trans_eq Graph.size_modify.symm
  · obtain ⟨within, mark⟩ := ledger.marked x mem
    refine ⟨within.trans_eq Graph.size_modify.symm, ?_⟩
    change ((r.graph.modify i f).node x.1).consolidated = true
    rw [Graph.node_modify inside]
    split
    · next same => exact marks (same ▸ mark)
    · exact mark

end Ledger

/-- Nothing is merged, and the books stay right whatever is gathered. -/
structure Keeps (r s : Run) : Prop where
  consumed : s.consumed = r.consumed
  ledger : ∀ {pending}, r.Ledger pending → s.Ledger pending

instance : IsPreorder Run Keeps where
  refl _ := ⟨rfl, id⟩
  trans _ _ _ first second :=
    ⟨second.consumed.trans first.consumed, second.ledger ∘ first.ledger⟩

theorem Addition.keeps (addition : r.Addition free s) : r.Keeps s := by
  cases addition with
  | note notes => exact ⟨notes.consumed, fun ledger => ledger.note notes⟩
  | attach may solid plain =>
    refine ⟨rfl, fun ledger => ledger.attach rfl rfl rfl (fun p => ?_) id fun pointer => ?_⟩
    · rw [plain, if_neg (Option.some_ne_none p).symm, Int.add_zero]
      rfl
    · rw [plain] at pointer
      cases pointer
  | @refer p x pointer may kind =>
    have points : x.kind.pointer? = some pointer := kind ▸ rfl
    refine ⟨rfl, fun ledger => ledger.attach rfl rfl rfl (fun p => ?_)
      isCounted_assign fun refers => ?_⟩
    · rw [points]
      simp only [Option.some_inj]
      exact refCount_addRef p
    · rw [points, Option.some_inj] at refers
      subst refers
      change ((assign pointer (r.refCount pointer + 1) r.refCounts).lookup pointer).isSome = true
      rw [lookup_assign, if_pos rfl]
      rfl
  | @standIn p x k location message may kind =>
    have plain : x.kind.pointer? = none := by
      cases same : x.kind <;> rw [same] at kind <;> first | rfl | cases kind
    refine ⟨rfl, fun ledger => ledger.attach rfl rfl rfl (fun p => ?_) id fun pointer => ?_⟩
    · rw [plain, if_neg (Option.some_ne_none p).symm, Int.add_zero]
      rfl
    · rw [plain] at pointer
      cases pointer

theorem Act.keeps (act : r.Act free fresh s) : r.Keeps s := by
  cases act with
  | add addition => exact addition.keeps
  | mark | field => exact ⟨rfl, fun ledger => ledger.modify rfl id⟩
  | turn new kind =>
    refine ⟨rfl, fun ledger => ledger.modify ?_ id⟩
    rw [kind]
    rfl

theorem Acts.keeps (acts : r.Acts free fresh s) : r.Keeps s := by
  induction acts with
  | refl => exact refl_of Keeps r
  | tail _ act ih => exact trans_of Keeps ih act.keeps

@[simp] theorem consumed_released : (r.released i).consumed = r.consumed := by
  unfold released releaseRef
  split
  · split <;> rfl
  · rfl

/-- A branch is gathered that was not gathered before. -/
theorem Ledger.gather (ledger : r.Ledger pending) (inside : i < r.graph.size) (new : i ∉ pending) :
    (r.released i).Ledger (pending ++ [i]) := by
  obtain ⟨graph, -, -, -⟩ := same_of_released (r := r) (i := i) rfl
  have consumed := consumed_released (r := r) (i := i)
  have absorbed : (r.released i).absorbed = r.absorbed := by
    unfold released releaseRef
    split
    · split <;> rfl
    · rfl
  have lookup : ∀ {p}, (r.refCounts.lookup p).isSome = true →
      ((r.released i).refCounts.lookup p).isSome = true := fun counted => by
    unfold released
    split
    · unfold releaseRef
      split
      · exact isCounted_assign counted
      · exact counted
    · exact counted
  have counts : ∀ p, (r.released i).refCount p =
      r.refCount p - if (r.graph.node i).kind.pointer? = some p then 1 else 0 := fun p => by
    unfold released
    split
    · next pointer kind =>
      have points : (r.graph.node i).kind.pointer? = some pointer := kind ▸ rfl
      rw [refCount_releaseRef (ledger.counted points), points]
      simp only [Option.some_inj]
    · next plain =>
      have points : (r.graph.node i).kind.pointer? = none := by
        cases kind : (r.graph.node i).kind <;> first | rfl | exact absurd kind (plain _)
      rw [points, if_neg (Option.some_ne_none p).symm, Int.sub_zero]
  refine ⟨fun p => ?_, ?_, fun j mem => ?_, ?_, ?_, ?_, ?_, ?_⟩
  · have before := ledger.counts p
    have merged : (r.released i).referring p (r.absorbed ++ (pending ++ [i])) =
        r.referring p (r.absorbed ++ pending) +
          if (r.graph.node i).kind.pointer? = some p then 1 else 0 := by
      rw [referring, graph, ← List.append_assoc, List.countP_append, List.countP_singleton]
      simp only [beq_iff_eq]
      rfl
    have references : (r.released i).references p = r.references p := by
      rw [Run.references, graph]
      rfl
    rw [absorbed, merged, references, counts]
    split <;> push_cast <;> omega
  · rw [graph]
    exact fun pointer => lookup (ledger.counted pointer)
  · rw [graph]
    rw [absorbed, ← List.append_assoc, List.mem_append, List.mem_singleton] at mem
    exact mem.elim (ledger.inside j) fun same => same ▸ inside
  · refine List.nodup_append.mpr ⟨ledger.apart, List.nodup_singleton i, fun a old b same => ?_⟩
    exact fun e => new (List.mem_singleton.mp same ▸ e ▸ old)
  · rw [absorbed, consumed]
    exact ledger.absorbed
  · rw [consumed]
    exact ledger.keys
  · rw [consumed]
    exact ledger.once
  · rw [consumed, graph]
    exact ledger.marked

/-- What was gathered is entered under a composition that was not merged before. -/
theorem Ledger.absorb (ledger : r.Ledger pending) (inside : i < r.graph.size)
    (mark : (r.graph.node i).consolidated = true) (new : i ∉ r.consumed.map Prod.fst) :
    (r.absorb i pending).Ledger [] := by
  have consumed : (r.absorb i pending).consumed = r.consumed ++ [(i, pending)] :=
    assign_of_notMem new
  refine ⟨fun p => ?_, ledger.counted, fun j mem => ?_, List.nodup_nil, ?_, ?_, fun x mem => ?_,
    fun x mem => ?_⟩
  · rw [List.append_nil]
    exact ledger.counts p
  · rw [List.append_nil] at mem
    exact ledger.inside j mem
  · rw [consumed, List.flatMap_append, ← ledger.absorbed, List.flatMap_singleton]
    rfl
  · rw [consumed, List.map_append]
    refine List.nodup_append.mpr ⟨ledger.keys, List.nodup_singleton _, fun a old b same e => ?_⟩
    rw [e, List.mem_singleton.mp same] at old
    exact new old
  · rw [consumed, List.mem_append, List.mem_singleton] at mem
    exact mem.elim (ledger.once x) fun same => same ▸ ledger.apart
  · rw [consumed, List.mem_append, List.mem_singleton] at mem
    exact mem.elim (ledger.marked x) fun same => same ▸ ⟨inside, mark⟩

end Run

namespace Build

variable {filtering : Bool} {m m' : Merged} {level below : List Nat} {depth : Nat}

/-- The books are right while branches are gathered, and all that is still to be gathered is
there. -/
structure Booked (r : Run) (m : Merged) (level : List Nat) (s : Run) : Prop where
  consumed : s.consumed = r.consumed
  ledger : s.Ledger m.consumed
  inside : ∀ i ∈ level, i < s.graph.size

theorem Booked.sub {level' : List Nat} (booked : Booked r m level s) (sub : level' ⊆ level) :
    Booked r m level' s := { booked with inside := fun i mem => booked.inside i (sub mem) }

theorem mergeBranch_booked (holds : (Run.growth d).holds s) (booked : Booked r m (i :: l) s)
    (h : Ends (mergeBranch d filtering m i) s (m', below) t) : Booked r m' (below ++ l) t := by
  have along : Run.Advances d s t := (coming_mergeBranch (S := Run.growth d) holds).ends h
  have inside : ∀ j ∈ i :: l, j < t.graph.size := fun j mem =>
    (booked.inside j mem).trans_le along.grown.size_le
  obtain ⟨-, rfl, rfl, rfl⟩ | ⟨new, v, visits, released, rfl, rfl⟩ := mergeBranch_cases h
  · exact booked.sub (List.subset_cons_self i l)
  · have keeps : s.Keeps v := Run.Acts.keeps (visit_acts.ends visits)
    obtain ⟨graph, -⟩ := Run.same_of_released released
    have here : i < v.graph.size := graph ▸ inside i List.mem_cons_self
    have forest := ((Run.growth d).keeps along holds).1
    refine ⟨?_, released ▸ (keeps.ledger booked.ledger).gather here new, fun j mem => ?_⟩
    · rw [released, Run.consumed_released, keeps.consumed, booked.consumed]
    · obtain branch | later := List.mem_append.mp mem
      · exact (forest.below (Graph.edge_of_mem_branchesOn branch).2).2
      · exact inside j (List.mem_cons_of_mem i later)

/-- All branches are booked when the last level is merged. -/
theorem mergeLevels_booked (holds : (Run.growth d).holds s) (booked : Booked r m level s)
    (h : Ends (mergeLevels d filtering depth m level) s m' t) : Booked r m' [] t := by
  refine (mergeLevels_keeps (I := fun m pending s => (Run.growth d).holds s ∧ Booked r m pending s)
    (fun same => And.imp_right fun booked => booked.sub same.symm.subset) ?_ h ⟨holds, booked⟩).2
  intro m m' i below pending s t h ⟨holds, booked⟩
  exact ⟨(Run.growth d).keeps ((coming_mergeBranch (S := Run.growth d) holds).ends h) holds,
    mergeBranch_booked holds booked h⟩

end Build

namespace Run

/-- The course of the books. A step that fails may have given back references of branches that it
has not entered, so nothing is said of where it stops. -/
def bookkeeping (d : Document) : Course d where
  lasting := False
  holds := (growth d).holds
  along r s := Advances d r s ∧ (r.Ledger [] → s.Ledger [])
  preorder := {
    refl := fun r => ⟨.refl r, id⟩
    trans := fun _ _ _ first second => ⟨first.1.trans second.1, second.2 ∘ first.2⟩ }
  keeps along := (growth d).keeps along.1
  registry notes extent := ⟨(growth d).registry notes extent, fun ledger => ledger.note notes⟩
  visit holds h := ⟨(growth d).visit holds h, (Acts.keeps (Build.visit_acts.ends h)).ledger⟩

/-- The books are right while the branches of a node are merged for the first time. -/
theorem booked_of_merge {filtering : Bool} {depth : Nat} {m : Build.Merged}
    (holds : (growth d).holds s) (ledger : s.Ledger [])
    (merges : Ends (Build.mergeLevels d filtering depth ⟨[], []⟩
      (Build.branchesBelow (s.marked i).graph i)) (s.marked i) m t) :
    Build.Booked (s.marked i) m [] t := by
  have holds : (growth d).holds (s.marked i) := (growth d).keeps Advances.merged holds
  have marked : (s.marked i).Ledger [] := ledger.modify rfl fun _ => rfl
  exact Build.mergeLevels_booked holds
    ⟨rfl, marked, fun j mem => (holds.1.below (List.mem_filter.mp mem).1).2⟩ merges

/-- What merging a node for the first time does to the books. -/
theorem ledger_of_merge {filtering : Bool} {depth : Nat} {m : Build.Merged}
    (holds : (growth d).holds s) (inside : i < s.graph.size)
    (new : i ∉ s.consumed.map Prod.fst) (ledger : s.Ledger [])
    (merges : Ends (Build.mergeLevels d filtering depth ⟨[], []⟩
      (Build.branchesBelow (s.marked i).graph i)) (s.marked i) m t) :
    ((t.onGraph fun g => g.modify i (Node.withProps (Text.sortByName Prod.fst m.props))).absorb i
      m.consumed).Ledger [] := by
  have works : (s.marked i).Works t :=
    (Build.coming_mergeLevels (S := labour d) trivial).ends merges
  have booked : Build.Booked (s.marked i) m [] t := booked_of_merge holds ledger merges
  have here : i < (s.marked i).graph.size := inside.trans_eq Graph.size_modify.symm
  obtain ⟨within, keeps⟩ := works.marks here
  have mark : (t.graph.node i).consolidated = true := by
    refine keeps.consolidated ?_
    change ((s.graph.modify i _).node i).consolidated = true
    simp [inside]
  have filled : (t.onGraph fun g =>
      g.modify i (Node.withProps (Text.sortByName Prod.fst m.props))).Ledger m.consumed :=
    booked.ledger.modify rfl id
  refine filled.absorb (within.trans_eq Graph.size_modify.symm) ?_ ?_
  · change ((t.graph.modify i _).node i).consolidated = true
    rw [Graph.node_modify_self within]
    exact mark
  · exact booked.consumed ▸ new

/-- Consolidating comes along with the books. -/
theorem comes_books : Coming (bookkeeping d) id (Build.consolidate d i) := by
  intro r holds
  have visited : ∀ {s}, Ends (Build.visit d i) r ⟨⟩ s → Advances d r s := (growth d).visit holds
  refine Build.comes_consolidate (S := growth d) (T := bookkeeping d) holds
    (fun visits => (growth d).keeps .merged ((growth d).keeps (visited visits) holds))
    (fun _ _ _ => nofun) fun {s m t _ _} fresh visits merges => ⟨?_, fun ledger => ?_⟩
  · have marks : Advances d r (s.marked i) := (visited visits).trans .merged
    have levels : Advances d (s.marked i) t :=
      (Build.coming_mergeLevels (S := growth d) ((growth d).keeps marks holds)).ends merges
    have fill := Build.fill_of_mergeLevels ((growth d).keeps marks holds) merges
    exact marks.trans (levels.trans (fill.trans (.of_same rfl rfl)))
  · have keeps : r.Keeps s := Acts.keeps (Build.visit_acts.ends visits)
    have inside : i < r.graph.size := Graph.lt_size_of_ne fun nowhere => by
      rw [nowhere] at fresh
      cases fresh
    have new : i ∉ s.consumed.map Prod.fst := fun entered => by
      obtain ⟨x, mem, same⟩ := List.mem_map.mp (keeps.consumed ▸ entered)
      obtain ⟨-, mark⟩ := ledger.marked x mem
      rw [same, fresh] at mark
      cases mark
    exact ledger_of_merge ((growth d).keeps (visited visits) holds)
      (inside.trans_le (visited visits).grown.size_le) new (keeps.ledger ledger) merges

def keepingBooks (d : Document) : OpenRegime d where
  toCourse := bookkeeping d
  consolidate _ := comes_books
  frames := ⟨.of_same rfl rfl, fun ledger => ⟨ledger.counts, ledger.counted, ledger.inside,
    ledger.apart, ledger.absorbed, ledger.keys, ledger.once, ledger.marked⟩⟩

/-- Nothing refers to anything in the first run. -/
theorem ofDocument_ledger (d : Document) : (ofDocument d).Ledger [] := by
  have plain : ∀ i, ((ofDocument d).graph.node i).kind.pointer? = none := fun i => by
    obtain inside | outside := Nat.lt_or_ge i (Graph.ofDocument d).size
    · obtain ⟨operation, -⟩ := Graph.unvisited_ofDocument d i inside
      change ((Graph.ofDocument d).node i).kind.pointer? = none
      cases kind : ((Graph.ofDocument d).node i).kind <;> rw [kind] at operation <;>
        first | rfl | cases operation
    · change ((Graph.ofDocument d).node i).kind.pointer? = none
      rw [Graph.node_of_size_le outside]
      rfl
  refine ⟨fun p => ?_, fun {i p} pointer => ?_, nofun, List.nodup_nil, rfl, List.nodup_nil,
    nofun, nofun⟩
  · have none : (ofDocument d).references p = 0 := List.countP_eq_zero.mpr fun i _ => by
      change ¬(((ofDocument d).graph.node i).kind.pointer? == some p) = true
      rw [plain]
      exact Bool.false_ne_true
    rw [none]
    rfl
  · rw [plain] at pointer
    cases pointer

/-- After calls that are all answered the ledger is right. -/
theorem Answered.ledger (answered : r.Answered d) : r.Ledger [] := by
  induction answered with
  | start => exact ofDocument_ledger d
  | call c before ends ledger =>
    exact ((c.coming (S := keepingBooks d) before.attained.kept.holds).ends ends).2 ledger

/-! ## Merged once -/

/-- How many nodes refer to the pointer and went into no composition. -/
def live (r : Run) (p : String) : Nat :=
  (List.range r.graph.size).countP fun i =>
    (r.graph.node i).kind.pointer? == some p && !r.isAbsorbed i

/-- No reference to the pointer was merged into two compositions. -/
def MergesOnce (r : Run) (p : String) : Prop :=
  ∀ ⦃i j l m x⦄, r.consumedBy? i = some l → r.consumedBy? j = some m → x ∈ l → x ∈ m →
    (r.graph.node x).kind.pointer? = some p → i = j

namespace Ledger

/-- The references that were merged, each of them once. -/
theorem references_eq (ledger : r.Ledger []) (p : String) : r.references p = r.live p +
    (r.absorbed.filter fun i => (r.graph.node i).kind.pointer? == some p).dedup.length := by
  have split := List.countP_eq_countP_filter_add (List.range r.graph.size)
    (fun i => (r.graph.node i).kind.pointer? == some p) fun i => !r.isAbsorbed i
  rw [references, Graph.tally, split, List.countP_filter, List.countP_filter, live]
  refine congrArg _ (List.countP_eq_length_filter.trans (List.Perm.length_eq ?_))
  refine (List.perm_ext_iff_of_nodup (List.nodup_range.filter _) (List.nodup_dedup _)).mpr
    fun i => ?_
  have inside : i ∈ r.absorbed → i < r.graph.size := fun mem => ledger.inside i (by simpa using mem)
  simp only [List.mem_filter, List.mem_range, List.mem_dedup, isAbsorbed, Bool.and_eq_true,
    Bool.not_not, List.contains_iff_mem]
  constructor
  · rintro ⟨-, refers, merged⟩
    exact ⟨merged, refers⟩
  · rintro ⟨merged, refers⟩
    exact ⟨inside merged, refers, merged⟩

/-- Only references that went into no composition are still counted. -/
theorem refCount_le_live (ledger : r.Ledger []) (p : String) : r.refCount p ≤ r.live p := by
  have counts := ledger.counts p
  have references := ledger.references_eq p
  have merged : r.referring p r.absorbed =
      (r.absorbed.filter fun i => (r.graph.node i).kind.pointer? == some p).length :=
    List.countP_eq_length_filter
  have once := (List.dedup_sublist
    (r.absorbed.filter fun i => (r.graph.node i).kind.pointer? == some p)).length_le
  rw [List.append_nil] at counts
  omega

/-- What was merged has repeats only where two compositions took in the same. -/
theorem nodup_iff_mergesOnce (ledger : r.Ledger []) (p : String) :
    (r.absorbed.filter fun i => (r.graph.node i).kind.pointer? == some p).Nodup ↔
    r.MergesOnce p := by
  rw [ledger.absorbed, List.filter_flatMap, List.nodup_flatMap]
  constructor
  · rintro ⟨-, apart⟩ i j l m x first second left right refers
    by_contra other
    have symmetric : Std.Symm fun a b : Nat × List Nat => List.Disjoint
        (a.2.filter fun i => (r.graph.node i).kind.pointer? == some p)
        (b.2.filter fun i => (r.graph.node i).kind.pointer? == some p) :=
          ⟨fun _ _ => List.Disjoint.symm⟩
    have disjoint := List.Pairwise.forall apart (mem_of_lookup first) (mem_of_lookup second)
      fun same => other (congrArg Prod.fst same)
    have refers := beq_iff_eq.mpr refers
    exact disjoint (List.mem_filter.mpr ⟨left, refers⟩) (List.mem_filter.mpr ⟨right, refers⟩)
  · intro once
    refine ⟨fun x mem => (ledger.once x mem).filter _, ?_⟩
    refine (List.pairwise_map.mp ledger.keys).imp_of_mem
      fun {x y} left right other z inLeft inRight => ?_
    obtain ⟨inLeft, refers⟩ := List.mem_filter.mp inLeft
    exact other (once (lookup_of_mem ledger.keys left) (lookup_of_mem ledger.keys right) inLeft
      (List.mem_filter.mp inRight).1 (beq_iff_eq.mp refers))

end Ledger

/-- After calls none of which has failed, a pointer is counted as often as it is referred to, less
the times that one of its references was merged. These are the references that went into no
composition if and only if none of them went into two. -/
theorem Answered.refCount_eq (answered : r.Answered d) (p : String) :
    r.refCount p = r.references p - r.referring p r.absorbed ∧
      (r.refCount p = r.live p ↔ r.MergesOnce p) := by
  have ledger := answered.ledger
  have counts := ledger.counts p
  rw [List.append_nil] at counts
  refine ⟨by omega, ?_⟩
  have references := ledger.references_eq p
  let merged := r.absorbed.filter fun i => (r.graph.node i).kind.pointer? == some p
  have referring : r.referring p r.absorbed = merged.length := List.countP_eq_length_filter
  have once : merged.dedup.length = merged.length ↔ r.MergesOnce p := by
    rw [← ledger.nodup_iff_mergesOnce, ← List.dedup_eq_self]
    exact (List.dedup_sublist merged).length_eq
  rw [← once]
  change r.references p = r.live p + merged.dedup.length at references
  omega

end Run

/-- A component that a composition merges and a field refers to. -/
def Document.remainder : Document :=
  .answer (.objectSchema [("x", .allOfSchema [.refSchema "Base"]), ("y", .refSchema "Base")])
    [("Base", .objectSchema [("x", .typeSchema "string")])]

/-- All leaves are found, then the composition is merged: the reference of the field is left. -/
theorem remainder_refCount : ∃ r : Run, r.Answered .remainder ∧
    r.refCount "#/components/schemas/Base" = 1 ∧ r.references "#/components/schemas/Base" = 2 ∧
    r.MergesOnce "#/components/schemas/Base" := by
  have answered : Run.Answered .remainder _ :=
    (Run.Answered.start.after (c := .wildcard 0 .deep) (by decide +kernel)).after
      (c := .consolidate 4) (by decide +kernel)
  exact ⟨_, answered, by decide +kernel, by decide +kernel,
    (answered.refCount_eq "#/components/schemas/Base").2.mp (by decide +kernel)⟩

/-- A composition of a composition of a component. -/
def Document.twofold : Document :=
  .answer (.allOfSchema [.allOfSchema [.refSchema "Base"]])
    [("Base", .objectSchema [("x", .typeSchema "string")])]

/-- The outer composition is merged, then the inner one: both give back the only reference. -/
theorem twofold_overdrawn : ∃ r : Run, r.Answered .twofold ∧
    r.refCount "#/components/schemas/Base" = -1 ∧ r.live "#/components/schemas/Base" = 0 := by
  have answered : Run.Answered .twofold _ :=
    (((Run.Answered.start.after (c := .visit 0) (by decide +kernel)).after (c := .visit 1)
      (by decide +kernel)).after (c := .consolidate 2) (by decide +kernel)).after
        (c := .consolidate 3) (by decide +kernel)
  exact ⟨_, answered, by decide +kernel, by decide +kernel⟩

end RestGraph
