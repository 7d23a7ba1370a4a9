import RestGraph.Proofs.Schema.Balance

/-!
# Visited nodes

A node stays what it is, and once it was visited it is done with: no later call gives it more
children. Its fields change once at most, as its branches are merged, and only compositions are
merged unless a client asks for more. Nothing is asked of the run, and the calls may fail.
-/

namespace RestGraph

variable {d : Document} {r s t u : Run} {n m l : Node} {i : Nat} {merged merged' : Prop}

/-- What stays of every node. -/
structure Node.Remains (n m : Node) : Prop extends n.KeepsMarks m where
  kind : m.kind = n.kind
  name : m.name = n.name
  scope : m.scope = n.scope
  discriminant : m.discriminant = n.discriminant
  schema : m.schema = n.schema
  parent : m.parent = n.parent

/-- What stays of a node that was visited. Its fields change together with the mark that its
branches are merged, which is never taken off; `merged` says that a node that is no composition
may be merged as well. -/
structure Node.Frozen (merged : Prop) (n m : Node) : Prop extends n.Remains m where
  children : m.children = n.children
  props : m.props = n.props ∨ n.consolidated = false ∧ m.consolidated = true ∧
    (n.kind.isComposition = true ∨ merged)

namespace Node

theorem Remains.refl (n : Node) : n.Remains n where
  visited done := done
  consolidated mark := mark
  kind := rfl
  name := rfl
  scope := rfl
  discriminant := rfl
  schema := rfl
  parent := rfl

theorem Remains.trans (first : n.Remains m) (second : m.Remains l) : n.Remains l where
  visited := second.visited ∘ first.visited
  consolidated := second.consolidated ∘ first.consolidated
  kind := second.kind.trans first.kind
  name := second.name.trans first.name
  scope := second.scope.trans first.scope
  discriminant := second.discriminant.trans first.discriminant
  schema := second.schema.trans first.schema
  parent := second.parent.trans first.parent

theorem Frozen.refl (n : Node) : n.Frozen merged n := ⟨.refl n, rfl, .inl rfl⟩

theorem Frozen.trans (first : n.Frozen merged m) (second : m.Frozen merged l) :
    n.Frozen merged l where
  toRemains := first.toRemains.trans second.toRemains
  children := second.children.trans first.children
  props := by
    obtain later | ⟨fresh, marked, may⟩ := second.props
    · obtain before | ⟨fresh, marked, may⟩ := first.props
      · exact .inl (later.trans before)
      · exact .inr ⟨fresh, second.consolidated marked, may⟩
    · refine .inr ⟨?_, marked, first.kind ▸ may⟩
      exact Bool.eq_false_iff.mpr fun old => by
        rw [first.consolidated old] at fresh
        cases fresh

theorem Frozen.mono (frozen : n.Frozen merged m) (more : merged → merged') :
    n.Frozen merged' m where
  __ := frozen
  props := frozen.props.imp_right fun ⟨fresh, marked, may⟩ => ⟨fresh, marked, may.imp_right more⟩

end Node

namespace Run

/-- Every node remains, and those that were visited are frozen. -/
structure Freezes (merged : Nat → Prop) (r s : Run) : Prop where
  size_le : r.graph.size ≤ s.graph.size
  remains : ∀ i < r.graph.size, (r.graph.node i).Remains (s.graph.node i)
  frozen : ∀ i, r.graph.IsDone i → (r.graph.node i).Frozen (merged i) (s.graph.node i)

variable {merged : Nat → Prop}

theorem Freezes.of_same (graph : s.graph = r.graph) : r.Freezes merged s :=
  ⟨by rw [graph], fun _ _ => graph ▸ .refl _, fun _ _ => graph ▸ .refl _⟩

theorem Freezes.isDone (freezes : r.Freezes merged s) (done : r.graph.IsDone i) :
    s.graph.IsDone i :=
  ⟨done.1.trans_le freezes.size_le, (freezes.remains i done.1).visited done.2⟩

instance : IsPreorder Run (Freezes merged) where
  refl _ := .of_same rfl
  trans _ _ _ first second :=
    ⟨first.size_le.trans second.size_le,
      fun i inside => (first.remains i inside).trans
        (second.remains i (inside.trans_le first.size_le)),
      fun i done => (first.frozen i done).trans (second.frozen i (first.isDone done))⟩

/-- A registry is changed. -/
theorem Freezes.note (before : r.Freezes merged s) (graph : t.graph = s.graph) :
    r.Freezes merged t := trans_of _ before (.of_same graph)

/-- A node is changed that is new, or that was not visited before, or that stays frozen. -/
theorem Freezes.modify {f : Node → Node} (before : r.Freezes merged s)
    (remains : i < r.graph.size → (s.graph.node i).Remains (f (s.graph.node i)))
    (frozen : r.graph.IsDone i → (r.graph.node i).Frozen (merged i) (f (s.graph.node i))) :
    r.Freezes merged (s.onGraph fun g => g.modify i f) where
  size_le := before.size_le.trans_eq Graph.size_modify.symm
  remains j inside := by
    change (r.graph.node j).Remains ((s.graph.modify i f).node j)
    by_cases same : j = i
    · subst same
      rw [Graph.node_modify_self (inside.trans_le before.size_le)]
      exact (before.remains j inside).trans (remains inside)
    · rw [Graph.node_modify_of_ne same]
      exact before.remains j inside
  frozen j done := by
    change (r.graph.node j).Frozen _ ((s.graph.modify i f).node j)
    by_cases same : j = i
    · subst same
      rw [Graph.node_modify_self (done.1.trans_le before.size_le)]
      exact frozen done
    · rw [Graph.node_modify_of_ne same]
      exact before.frozen j done

/-- A node is attached below one that was not visited before. -/
theorem Freezes.attach {p : Nat} {x : Seed} (before : r.Freezes merged s)
    (idle : ¬r.graph.IsDone p) : r.Freezes merged (s.onGraph fun g => g.attach p x) where
  size_le := before.size_le.trans (Graph.size_attach ▸ Nat.le_succ _)
  remains j inside := by
    have old := inside.trans_le before.size_le
    refine (before.remains j inside).trans ?_
    change (s.graph.node j).Remains ((s.graph.attach p x).node j)
    rw [Graph.node_attach_of_lt old]
    split
    · next same =>
      rw [same]
      exact { Node.Remains.refl (s.graph.node p) with }
    · exact .refl _
  frozen j done := by
    change (r.graph.node j).Frozen _ ((s.graph.attach p x).node j)
    have other : j ≠ p := fun same => idle (same ▸ done)
    rw [Graph.node_attach_of_lt (done.1.trans_le before.size_le), if_neg other]
    exact before.frozen j done

/-- Additions leave frozen what is done. -/
theorem Freezes.addition (before : r.Freezes merged s)
    (addition : s.Addition (fun i => ¬r.graph.IsDone i) t) : r.Freezes merged t := by
  cases addition with
  | note notes => exact before.note notes.graph
  | attach idle => exact before.attach idle
  | @refer p x pointer idle =>
    have counted : r.Freezes merged (s.addRef pointer) := before.note rfl
    exact counted.attach idle
  | @standIn p x k location message idle =>
    have warned : r.Freezes merged (s.warn location k message) := before.note rfl
    exact warned.attach idle

/-- Acts leave frozen what is done. -/
theorem Freezes.act (before : r.Freezes merged s)
    (act : s.Act (fun i => ¬r.graph.IsDone i) (fun i => r.graph.size ≤ i) t) :
    r.Freezes merged t := by
  cases act with
  | add addition => exact before.addition addition
  | mark idle =>
    exact before.modify (fun _ => { Node.Remains.refl _ with visited := fun _ => rfl }) fun done =>
      absurd done idle
  | turn new =>
    exact before.modify (fun inside => absurd inside (Nat.not_lt.mpr new)) fun done =>
      absurd done.1 (Nat.not_lt.mpr new)
  | field idle =>
    exact before.modify (fun _ => { Node.Remains.refl _ with }) fun done => absurd done idle

/-- A visit leaves alone what was visited before it. -/
theorem Freezes.of_visit
    (acts : r.Acts (fun i => ¬r.graph.IsDone i) (fun i => r.graph.size ≤ i) s) :
    r.Freezes merged s := by
  induction acts with
  | refl => exact refl_of _ r
  | tail _ act ih => exact ih.act act

/-- The mark that branches are merged. -/
theorem Freezes.marked (i : Nat) : r.Freezes merged (r.marked i) :=
  (refl_of (Freezes merged) r).modify
    (fun _ => { Node.Remains.refl _ with consolidated := fun _ => rfl })
    fun _ => { Node.Remains.refl _ with
      consolidated := fun _ => rfl, children := rfl, props := .inl rfl }

def freeze (d : Document) (merged : Nat → Prop) : Course d where
  holds _ := True
  along := Freezes merged
  preorder := inferInstance
  keeps _ _ := trivial
  registry notes _ := .of_same notes.graph
  visit _ h := .of_visit (Build.visit_acts.ends h)

instance : (freeze d merged).Enduring where
  fails _ h := .of_visit (Build.visit_acts.fails h)

instance : (freeze d merged).Bookless := ⟨fun graph _ _ _ => .of_same graph⟩

instance : (freeze d merged).Frameless := ⟨.of_same rfl⟩

/-- The fields are set once the node is marked, and it was not marked before. -/
theorem comes_consolidate (may : (r.graph.node i).kind.isComposition = true ∨ merged i) :
    Comes (freeze d merged) id (Build.consolidate d i) r := by
  have visit : ∀ {s}, Ends (Build.visit d i) r ⟨⟩ s → r.Freezes merged (s.marked i) := fun visits =>
    trans_of _ ((freeze d merged).visit trivial visits) (.marked i)
  refine Build.comes_consolidate (S := freeze d merged) trivial (fun _ => trivial)
    (fun _ visits along _ => trans_of _ (visit visits) (along trivial))
      fun {s m t _ _} fresh visits merges => ?_
  have levels : (s.marked i).Freezes merged t :=
    (Build.coming_mergeLevels (S := freeze d merged) trivial).ends merges
  have before : r.Freezes merged t := trans_of _ (visit visits) levels
  have filled : r.Freezes merged (t.onGraph fun g =>
      g.modify i (Node.withProps (Text.sortByName Prod.fst m.props))) := by
    refine before.modify (fun _ => { Node.Remains.refl _ with }) fun done => ?_
    have inside := done.1.trans_le (visit visits).size_le
    have mark : ((s.marked i).graph.node i).consolidated = true := by
      change ((s.graph.modify i _).node i).consolidated = true
      simp [inside.trans_eq Graph.size_modify]
    exact { before.frozen i done with
      props := .inr ⟨fresh, (levels.remains i inside).consolidated mark, may⟩ }
  exact filled.note rfl

/-- Merging is asked for of the nodes `merged` only, unless it is a composition. -/
def freezing (d : Document) (merged : Nat → Prop) : Routine d where
  toCourse := freeze d merged
  compose _ composition := comes_consolidate (.inl composition)

instance : (freezing d merged).toCourse.Enduring := inferInstanceAs (freeze d merged).Enduring

instance : (freezing d merged).toCourse.Frameless := inferInstanceAs (freeze d merged).Frameless

/-- The run that calls leave behind, one after the other, also where they fail. -/
def afterAll (d : Document) (r : Run) (calls : List Call) : Run :=
  calls.foldl (fun r c => c.after d r) r

/-- **Whatever calls follow, what is done is frozen.** -/
theorem freezes_afterAll {calls : List Call} (asked : ∀ j, .consolidate j ∈ calls → merged j) :
    r.Freezes merged (r.afterAll d calls) := by
  induction calls generalizing r with
  | nil => exact refl_of _ r
  | cons c rest ih =>
    have coming : Coming (freeze d merged) id (c.step d) :=
      c.coming_of (S := freezing d merged) fun j same _ _ =>
        comes_consolidate (.inr (asked j (same ▸ List.mem_cons_self)))
    have first : r.Freezes merged (c.after d r) := (coming (s := r) trivial).along trivial
    exact trans_of _ first (ih fun j mem => asked j (List.mem_cons_of_mem c mem))

/-- Fields that have changed are those of a merged composition, and stay. -/
theorem Freezes.props_eq {merged' : Nat → Prop} (first : r.Freezes merged s)
    (second : s.Freezes merged' t) (done : r.graph.IsDone i)
    (changed : (s.graph.node i).props ≠ (r.graph.node i).props) :
    (t.graph.node i).props = (s.graph.node i).props := by
  obtain ⟨-, mark, -⟩ := (first.frozen i done).props.resolve_left changed
  refine (second.frozen i (first.isDone done)).props.resolve_right fun ⟨fresh, _⟩ => ?_
  rw [mark] at fresh
  cases fresh

/-- Whatever run the visit began in, and whatever calls follow it. -/
theorem freezes_of_visit (inside : i < r.graph.size) (visit : Ends (Build.visit d i) r ⟨⟩ s)
    (calls : List Call) : s.graph.IsDone i ∧
      s.Freezes (fun j => .consolidate j ∈ calls) (s.afterAll d calls) ∧
      ∀ j, s.graph.IsDone j → ((s.afterAll d calls).graph.node j).props ≠ (s.graph.node j).props →
        ∀ more, (((s.afterAll d calls).afterAll d more).graph.node j).props =
          ((s.afterAll d calls).graph.node j).props := by
  have done : s.graph.IsDone i := Build.isDone_of_visit inside visit
  have frozen : ∀ {r : Run} (calls : List Call),
      r.Freezes (fun j => .consolidate j ∈ calls) (r.afterAll d calls) := fun _ =>
    freezes_afterAll fun _ asked => asked
  exact ⟨done, frozen calls, fun j done changed more =>
    (frozen calls).props_eq (frozen more) done changed⟩

end Run

/-- A composition of one object. -/
def Document.wrapped : Document :=
  .answer (.allOfSchema [.objectSchema [("x", .typeSchema "string")]]) []

/-- The composition is visited, then merged, which gives it a field, and then a path leads
nowhere. -/
theorem wrapped_freezes : ∃ r s : Run, r.Attained .wrapped ∧ 2 < r.graph.size ∧
    Ends (Build.visit .wrapped 2) r ⟨⟩ s ∧
    ∃ t : Run, s.Freezes (fun j => Call.consolidate j ∈ [.consolidate 2, .resolve ⟨[], none⟩]) t ∧
      (s.graph.node 2).props = [] ∧ (t.graph.node 2).props ≠ [] := by
  have attained : Run.Attained .wrapped _ := (Run.Attained.start.call (.visit 0)).call (.visit 1)
  have visit : Ends.passes (Build.visit .wrapped 2) (.afterAll .wrapped (.ofDocument .wrapped)
      [.visit 0, .visit 1]) (fun _ s => (s.graph.node 2).props.isEmpty &&
        !((s.afterAll .wrapped [.consolidate 2, .resolve ⟨[], none⟩]).graph.node 2).props.isEmpty) =
      true := by decide +kernel
  obtain ⟨_, s, visit, found⟩ := Ends.of_passes visit
  obtain ⟨before, after⟩ := Bool.and_eq_true_iff.mp found
  obtain ⟨-, freezes, -⟩ := Run.freezes_of_visit (by decide +kernel) visit
    [.consolidate 2, .resolve ⟨[], none⟩]
  refine ⟨_, s, attained, by decide +kernel, visit, _, freezes, List.isEmpty_iff.mp before, ?_⟩
  rwa [Bool.not_eq_true', ← Bool.not_eq_true, List.isEmpty_iff] at after

/-- The object below it was visited; when a client asks to merge the object itself, its field is
gone. -/
theorem wrapped_object_cleared : ∃ r s : Run, r.Attained .wrapped ∧
    Ends (Build.visit .wrapped 3) r ⟨⟩ s ∧ (s.graph.node 3).kind.tag = .object ∧
    (s.graph.node 3).props = [("x", 4)] ∧
    (((Call.consolidate 3).after .wrapped s).graph.node 3).props = [] := by
  have attained : Run.Attained .wrapped _ :=
    ((Run.Attained.start.call (.visit 0)).call (.visit 1)).call (.visit 2)
  have visit : Ends.passes (Build.visit .wrapped 3) (.afterAll .wrapped (.ofDocument .wrapped)
      [.visit 0, .visit 1, .visit 2]) (fun _ s => (s.graph.node 3).kind.tag == .object &&
        (s.graph.node 3).props == [("x", 4)] &&
        (((Call.consolidate 3).after .wrapped s).graph.node 3).props == []) = true := by
    decide +kernel
  obtain ⟨_, s, visit, found⟩ := Ends.of_passes visit
  simp only [Bool.and_eq_true, beq_iff_eq] at found
  exact ⟨_, s, attained, visit, found.1.1, found.1.2, found.2⟩

end RestGraph
