import RestGraph.Proofs.Document.Operations
import RestGraph.Proofs.Schema.Frozen
import RestGraph.Proofs.Schema.History
import RestGraph.Proofs.Schema.Substitutes

/-!
# Parts of operations

A visit gives an operation the parts of its signature as children, in their order, and no later call
changes them. Where the response is made up, and only there, the visit says so once.
-/

namespace RestGraph

variable {d : Document} {r s : Run} {i j : Nat} {e : OperationEntry}

/-! ## Entries -/

/-- The node is made from the entry of the description. -/
structure Node.IsOperation (n : Node) (e : OperationEntry) : Prop where
  kind : n.kind = .operation e.method e.path e.shared
  schema : n.schema = e.operation

/-- The nodes that are added are those of the operations. -/
theorem Graph.isOperation_of_addOperations {g : Graph} {known : List OperationEntry}
    (old : ∀ i < g.size, ∃ e ∈ known, (g.node i).IsOperation e) (taken : List String)
    {entries : List OperationEntry} (sub : entries ⊆ known) :
    ∀ i < (g.addOperations taken entries).size,
      ∃ e ∈ known, ((g.addOperations taken entries).node i).IsOperation e := by
  induction entries generalizing g taken with
  | nil => exact old
  | cons e rest ih =>
    refine ih (fun i lt => ?_) _ fun x mem => sub (List.mem_cons_of_mem e mem)
    rw [node_addRoot]
    rw [size_addRoot] at lt
    split
    · exact ⟨e, sub List.mem_cons_self, rfl, rfl⟩
    · exact old i (by omega)

theorem Graph.isOperation_ofDocument (d : Document) : ∀ i < (ofDocument d).size,
    ∃ e ∈ d.operations, ((ofDocument d).node i).IsOperation e :=
  isOperation_of_addOperations (fun _ lt => absurd lt (Nat.not_lt_zero _)) [] (List.Subset.refl _)

theorem Graph.Forest.parent_of_operation {g : Graph} (forest : g.Forest)
    (operation : (g.node i).kind.tag = .operation) : (g.node i).parent = none := by
  cases above : (g.node i).parent with
  | none => rfl
  | some p =>
    have admits := forest.admits (forest.child above)
    exact absurd operation (Kind.not_operation_of_admits admits)

/-- An operation of the graph is one of the description, whatever was called. -/
theorem Run.Attained.exists_entry (attained : r.Attained d)
    (operation : (r.graph.node i).kind.tag = .operation) :
    ∃ e ∈ d.operations, (r.graph.node i).IsOperation e := by
  have firm := attained.firm.graph
  have inside : i < r.graph.size := Graph.lt_size_of_ne fun e => by
    rw [e] at operation
    cases operation
  have root := (firm.rooted.top inside).mp (firm.forest.parent_of_operation operation)
  rw [attained.grown.roots] at root
  have old := (Graph.ofDocument_rooted d).inside i root
  obtain ⟨e, mem, kind, schema⟩ := Graph.isOperation_ofDocument d i old
  have keeps := attained.grown.keeps old
  refine ⟨e, mem, ?_, keeps.schema.trans schema⟩
  rw [keeps.kind.eq_of_not_isProperty (by rw [kind]; rfl), kind]

/-! ## Children -/

/-- The parts of an operation are those of its signature. -/
theorem Site.signature_of_settles (site : Site) {sites : List Site}
    (kind : site.seed.kind = .operation e.method e.path e.shared)
    (schema : site.seed.schema = e.operation)
    (settles : Settles (fun n => site.children d n) (.ok sites)) :
    ∃ signature : Signature d e, sites.map Site.seed = signature.parts site.seed.name := by
  obtain ⟨n, settles⟩ := settles
  have children : site.children d (n + 1) = .ok sites := settles (n + 1) (Nat.le_succ n)
  rw [Site.children, kind] at children
  have found : ∃ signature : Signature d ⟨e.method, e.path, site.seed.schema, e.shared⟩, _ :=
    signature_of_operation children
  rwa [schema] at found

namespace Graph

variable {g : Graph}

/-- What the children of a node are made from. -/
def partsOf (g : Graph) (i : Nat) : List Seed := (g.node i).children.map g.seedAt

@[simp] theorem seeds_sitesBelow : (g.sitesBelow i).map Site.seed = g.partsOf i := by
  rw [sitesBelow, List.map_map]
  rfl

/-- The nodes that do not stand at a node or below it. -/
def beside (g : Graph) (i : Nat) : Set Nat := { b | b < g.size ∧ i ∉ b :: g.ancestors b }

theorem apart_beside : g.Apart (g.beside i) i := fun _ => id

end Graph

namespace Run

theorem Firm.visit (firm : r.Firm d) (visit : Ends (Build.visit d i) r ⟨⟩ s) : s.Firm d :=
  ((Build.visit_along firm.graph.forest).ends visit).firm firm

/-- Below a node that was not visited nothing was, whatever failed elsewhere. -/
theorem Firm.tidy (firm : r.Firm d) (late : (r.graph.node i).kind.isEager = false)
    (fresh : (r.graph.node i).visited = false) : r.Tidy d (r.graph.beside i) where
  orderly := firm.graph.forest.orderly firm.graph.lineal
  extent := firm.extent
  settled {o} inside visited idle := by
    refine absurd ⟨inside, fun above => ?_⟩ idle
    rcases List.mem_cons.mp above with rfl | above
    · rw [fresh] at visited
      cases visited
    · obtain ⟨c, child, -⟩ := firm.graph.forest.exists_child_of_mem_ancestors above
      rw [firm.graph.forest.late late fresh] at child
      cases child

/-- A first visit gives a node the children that its site says. -/
theorem Firm.visit_unfolds (firm : r.Firm d) (late : (r.graph.node i).kind.isEager = false)
    (fresh : (r.graph.node i).visited = false) (visit : Ends (Build.visit d i) r ⟨⟩ s) :
    Settles (fun n => (r.graph.site i).children d n) (.ok (s.graph.sitesBelow i)) := by
  have inside := Graph.lt_size_of_not_visited fresh
  have unfolding : Yields (· = .depth) (Build.visit d i) r
      (fun n => (r.graph.site i).children d n) _ := .after (Ends.get_iff.mpr ⟨rfl, rfl⟩)
    (Build.visitWithin_unfolding _ (firm.tidy late fresh) Graph.apart_beside inside)
  obtain ⟨sites, settles, unfolds⟩ := unfolding.ends visit
  rw [unfolds.sites]
  exact settles

/-- The children of a node that was visited stay what they are. -/
theorem Freezes.partsOf {merged : Nat → Prop} (freezes : r.Freezes merged s)
    (forest : r.graph.Forest) (done : r.graph.IsDone i) :
    s.graph.partsOf i = r.graph.partsOf i := by
  unfold Graph.partsOf
  rw [(freezes.frozen i done).children]
  refine List.map_congr_left fun c child => ?_
  have remains := freezes.remains c (forest.below child).2
  rw [Graph.seedAt, Graph.seedAt, Node.seed, Node.seed, remains.kind, remains.name,
    remains.discriminant, remains.scope, remains.schema]

end Run

/-! ## Warnings -/

/-- Where the nodes of a graph keep their kind, a tally grows by what is new. -/
theorem Graph.tally_grow {g h : Graph} {q : Kind → Bool} (size : g.size ≤ h.size)
    (kept : ∀ i < g.size, (h.node i).kind = (g.node i).kind) : h.tally q = g.tally q +
      (List.range' g.size (h.size - g.size)).countP fun i => q (h.node i).kind := by
  have split : List.range h.size = List.range g.size ++ List.range' g.size (h.size - g.size) := by
    have both : List.range' 0 g.size ++ List.range' (0 + g.size) (h.size - g.size) = _ :=
      List.range'_append_1
    rwa [Nat.zero_add, Nat.add_sub_cancel' size, ← List.range_eq_range', ← List.range_eq_range',
      eq_comm] at both
  have old : (List.range g.size).countP (fun i => q (h.node i).kind) = g.tally q :=
    List.countP_congr fun i mem => by rw [kept i (List.mem_range.mp mem)]
  rw [tally, split, List.countP_append, old]

theorem countP_of_only {xs : List Nat} {q : Nat → Bool} {c : Nat} (nodup : xs.Nodup) (mem : c ∈ xs)
    (only : ∀ j ∈ xs, q j = true → j = c) : xs.countP q = (q c).toNat := by
  cases here : q c with
  | false =>
    refine List.countP_eq_zero.mpr fun j mem holds => ?_
    rw [only j mem holds, here] at holds
    cases holds
  | true =>
    have same : xs.countP q = xs.count c := List.countP_congr fun j mem =>
      ⟨fun holds => beq_iff_eq.mpr (only j mem holds), fun same => by rwa [beq_iff_eq.mp same]⟩
    exact same.trans (List.count_eq_one_of_mem nodup mem)

/-- Responses stand below operations only. -/
theorem Kind.operation_of_admits {k c : Kind} (admits : k.admits c = true)
    (response : c.tag = .response) : k.tag = .operation := by
  cases c <;> cases response
  cases k with
  | operation => rfl
  | property shape => cases shape <;> cases admits
  | _ => cases admits

theorem Kind.response_of_standsIn {k : Kind} (stands : k.standsIn? = some .syntheticResponse) :
    k.tag = .response := by
  cases k with
  | response => rfl
  | scalar _ placeholder => cases placeholder <;> cases stands
  | property shape =>
    cases shape with
    | scalar _ placeholder => cases placeholder <;> cases stands
    | _ => cases stands
  | _ => cases stands

namespace Run

/-- A visit of an operation makes no response but its own. -/
theorem Firm.parent_of_response (firm : r.Firm d) (visit : Ends (Build.visit d i) r ⟨⟩ s)
    (new : r.graph.size ≤ j) (inside : j < s.graph.size)
    (response : (s.graph.node j).kind.tag = .response) : j ∈ (s.graph.node i).children := by
  have at_ := Build.visit_at visit firm.graph.forest
  have freezes : r.Freezes (fun _ => False) s := .of_visit (Build.visit_acts.ends visit)
  have later := firm.visit visit
  have forest := later.graph.forest
  have roots : ∀ k < s.graph.size, (s.graph.node k).parent = none → k < r.graph.size :=
    fun k inside top => firm.graph.rooted.inside k
      (at_.grows.roots ▸ (later.graph.rooted.top inside).mp top)
  cases parent : (s.graph.node j).parent with
  | none => exact absurd (roots j inside parent) (Nat.not_lt.mpr new)
  | some o =>
    have child := forest.child parent
    have operation : (s.graph.node o).kind.tag = .operation :=
      Kind.operation_of_admits (forest.admits child) response
    have top := forest.parent_of_operation operation
    have old := roots o (Graph.lt_size_of_child child) top
    by_cases same : o = i
    · exact same ▸ child
    have free : i ∉ r.graph.ancestors o := by
      rw [Graph.ancestors_of_root ((freezes.remains o old).parent.symm.trans top)]
      exact List.not_mem_nil
    have visited : (s.graph.node o).visited = true := by
      by_contra idle
      rw [forest.late (Kind.isEager_of_operation operation) (Bool.eq_false_iff.mpr idle)] at child
      cases child
    have before := at_.spares o old same free visited
    rw [(freezes.frozen o ⟨old, before⟩).children] at child
    exact absurd (firm.graph.forest.below child).2 (Nat.not_lt.mpr new)

/-- Of all that a visit makes below an operation, only its response may stand in for one. -/
theorem Firm.substitutes_of_visit {signature : Signature d e} {name : String} (firm : r.Firm d)
    (late : (r.graph.node i).kind.isEager = false) (fresh : (r.graph.node i).visited = false)
    (visit : Ends (Build.visit d i) r ⟨⟩ s) (parts : s.graph.partsOf i = signature.parts name) :
    s.substitutes .syntheticResponse =
      r.substitutes .syntheticResponse + signature.synthetic.toNat := by
  have freezes : r.Freezes (fun _ => False) s := .of_visit (Build.visit_acts.ends visit)
  have forest := (firm.visit visit).graph.forest
  obtain ⟨c, child, seed⟩ := List.mem_map.mp
    (parts.symm ▸ signature.response_mem_parts name : _ ∈ s.graph.partsOf i)
  have kind : (s.graph.node c).kind = .response signature.status signature.synthetic := by
    have unaimed : (s.graph.node c).kind.unaimed = _ := congrArg Seed.kind seed
    cases here : (s.graph.node c).kind <;> rw [here] at unaimed <;> cases unaimed
    rfl
  have new : r.graph.size ≤ c := by
    refine Nat.le_of_not_lt fun old => ?_
    have before := firm.graph.forest.child ((freezes.remains c old).parent.symm.trans
      (forest.parent child))
    rw [firm.graph.forest.late late fresh] at before
    cases before
  have only : ∀ j ∈ List.range' r.graph.size (s.graph.size - r.graph.size),
      ((s.graph.node j).kind.standsIn? == some .syntheticResponse) = true → j = c := by
    intro j mem holds
    obtain ⟨new, inside⟩ := List.mem_range'_1.mp mem
    rw [Nat.add_sub_cancel' freezes.size_le] at inside
    have response := Kind.response_of_standsIn (beq_iff_eq.mp holds)
    refine forest.single (firm.parent_of_response visit new inside response) child ?_ ?_
    · rw [response, kind]
      rfl
    · rw [response]
      rfl
  unfold substitutes
  rw [Graph.tally_grow freezes.size_le fun k inside => (freezes.remains k inside).kind,
    countP_of_only (List.nodup_range' ..) ?_ only, kind]
  · cases signature.synthetic <;> rfl
  · refine List.mem_range'_1.mpr ⟨new, ?_⟩
    rw [Nat.add_sub_cancel' freezes.size_le]
    exact (forest.below child).2

/-- The first visit of an operation, wherever it is made. -/
theorem Firm.signs_of_visit (firm : r.Firm d) (operation : (r.graph.node i).IsOperation e)
    (fresh : (r.graph.node i).visited = false) (visit : Ends (Build.visit d i) r ⟨⟩ s) :
    ∃ signature : Signature d e, s.graph.partsOf i = signature.parts (r.graph.node i).name ∧
      s.warned .syntheticResponse =
        r.warned .syntheticResponse + signature.synthetic.toNat := by
  have late : (r.graph.node i).kind.isEager = false := operation.kind ▸ rfl
  obtain ⟨signature, parts⟩ := Site.signature_of_settles (r.graph.site i)
    (congrArg Kind.unaimed operation.kind) operation.schema (firm.visit_unfolds late fresh visit)
  rw [Graph.seeds_sitesBelow] at parts
  refine ⟨signature, parts, ?_⟩
  have accounts := Run.Acts.accounts (Build.visit_acts.ends visit) .syntheticResponse
    WarningKind.noConfusion
  rw [firm.substitutes_of_visit late fresh visit parts] at accounts
  omega

/-- Whatever calls were made before, and whether they failed or not, an operation that is visited
for the first time has the parts of its signature below it, and so it has after any calls; the visit
warns of its response once if that is made up. As long as no call has failed, an operation that was
visited before has these parts, too, and another visit does nothing. -/
theorem Attained.visit_signs (attained : r.Attained d)
    (operation : (r.graph.node i).kind.tag = .operation) (visit : Ends (Build.visit d i) r ⟨⟩ s) :
    ∃ e ∈ d.operations, (r.graph.node i).IsOperation e ∧
      ((r.graph.node i).visited = false ∨ r.Answered d → ∃ signature : Signature d e,
        (∀ calls, (s.afterAll d calls).graph.partsOf i = signature.parts (r.graph.node i).name) ∧
        ((r.graph.node i).visited = false → s.warned .syntheticResponse =
          r.warned .syntheticResponse + signature.synthetic.toNat)) ∧
      ((r.graph.node i).visited = true → s = r) := by
  have firm := attained.firm
  obtain ⟨e, mem, entry⟩ := attained.exists_entry operation
  have inside : i < r.graph.size := Graph.lt_size_of_ne fun e => by
    rw [e] at operation
    cases operation
  have again : (r.graph.node i).visited = true → s = r := fun visited =>
    ((Build.ends_visit_of_visited visited).unique visit).2.symm
  have done : s.graph.IsDone i := Build.isDone_of_visit inside visit
  have forest := (firm.visit visit).graph.forest
  have stays : ∀ calls, (s.afterAll d calls).graph.partsOf i = s.graph.partsOf i := fun calls => by
    have freezes : s.Freezes (fun _ => True) (s.afterAll d calls) :=
      freezes_afterAll fun _ _ => trivial
    exact freezes.partsOf forest done
  refine ⟨e, mem, entry, fun known => ?_, again⟩
  by_cases fresh : (r.graph.node i).visited = false
  · obtain ⟨signature, parts, warned⟩ := firm.signs_of_visit entry fresh visit
    exact ⟨signature, fun calls => (stays calls).trans parts, fun _ => warned⟩
  · have visited := Bool.of_not_eq_false fresh
    have same := again visited
    subst same
    obtain ⟨signature, parts⟩ := Site.signature_of_settles (s.graph.site i)
      (congrArg Kind.unaimed entry.kind) entry.schema
      ((known.resolve_left fresh).tidy.settled inside visited (Set.notMem_empty i))
    rw [Graph.seeds_sitesBelow] at parts
    exact ⟨signature, fun calls => (stays calls).trans parts, fun idle => absurd idle fresh⟩

end Run

/-- A parameter of a path that an operation declares again, through a reference, beside one that
goes into a cookie; its body is JSON, and its answer has no content. -/
def Document.posted : Document :=
  .ofPaths [("/a", .object [
      ("parameters", .list [.object [("name", .text "limit"), ("schema", .typeSchema "integer")]]),
      ("post", .object [("operationId", .text "a"),
        ("parameters", .list [.object [("name", .text "session"), ("in", .text "cookie")],
          .refSchema "Limit"]),
        ("requestBody", (Json.typeSchema "string").jsonContent),
        ("responses", .object [("204", .object [])])])])]
    [("Limit", .object [("name", .text "limit"), ("in", .text "query"),
      ("schema", .typeSchema "string")])]

/-- After a path that leads nowhere. -/
theorem posted_signs : ∃ r s : Run, r.Attained .posted ∧ Ends (Build.visit .posted 0) r ⟨⟩ s ∧
    ∃ e ∈ Document.posted.operations, ∃ signature : Signature .posted e,
      s.graph.partsOf 0 = signature.parts (r.graph.node 0).name ∧ signature.synthetic = true ∧
      (signature.parts (r.graph.node 0).name).map Seed.name = ["limit", "aInput", "aResponse"] := by
  have attained : Run.Attained .posted _ := .call (.resolve ⟨["get:/b"], none⟩) .start
  have visit : Ends.passes (Build.visit .posted 0)
      (Call.after .posted (.ofDocument .posted) (.resolve ⟨["get:/b"], none⟩))
      (fun _ s => s.warned .syntheticResponse == 1 &&
        (s.graph.partsOf 0).map Seed.name == ["limit", "aInput", "aResponse"]) = true := by
    decide +kernel
  obtain ⟨_, s, visit, found⟩ := Ends.of_passes visit
  obtain ⟨warned, names⟩ := Bool.and_eq_true_iff.mp found
  have fresh : ((Call.after .posted (.ofDocument .posted)
      (.resolve ⟨["get:/b"], none⟩)).graph.node 0).visited = false := by decide +kernel
  have silent : (Call.after .posted (.ofDocument .posted)
      (.resolve ⟨["get:/b"], none⟩)).warned .syntheticResponse = 0 := by decide +kernel
  obtain ⟨e, mem, -, signs, -⟩ := attained.visit_signs (by decide +kernel) visit
  obtain ⟨signature, parts, warns⟩ := signs (.inl fresh)
  have parts := parts []
  refine ⟨_, s, attained, visit, e, mem, signature, parts, ?_, parts ▸ beq_iff_eq.mp names⟩
  have once := (warns fresh).symm.trans (beq_iff_eq.mp warned)
  rw [silent, Nat.zero_add] at once
  cases made : signature.synthetic with
  | true => rfl
  | false =>
    rw [made] at once
    cases once

/-- The only parameter of the operation is a reference that leads nowhere. -/
def Document.goneParameter : Document :=
  .ofPaths [("/a", .object [("get", .object [("operationId", .text "a"),
    ("parameters", .list [.object [("$ref", .text "#/components/parameters/Gone")]]),
    ("responses", .object [("200", (Json.typeSchema "string").jsonContent)])])])] []

/-- The first visit fails, and another one answers at once: the operation has no part at all then,
not even a response that is made up. -/
theorem goneParameter_unsigned : ∃ (r : Run) (e : Fault), r.Attained .goneParameter ∧
    (Build.visit .goneParameter 0).run (.ofDocument .goneParameter) = (.error e, r) ∧
    (r.graph.node 0).kind.tag = .operation ∧ Ends (Build.visit .goneParameter 0) r ⟨⟩ r ∧
    r.warned .syntheticResponse = 0 ∧ ∀ (entry : OperationEntry)
      (signature : Signature .goneParameter entry),
      r.graph.partsOf 0 ≠ signature.parts (r.graph.node 0).name := by
  have attained : Run.Attained .goneParameter _ := .call (.visit 0) .start
  have run : (match (Build.visit .goneParameter 0).run (.ofDocument .goneParameter) with
      | (.error _, r) => (r.graph.node 0).kind.tag == .operation &&
          (r.graph.node 0).visited && (r.graph.node 0).children.isEmpty &&
          r.warned .syntheticResponse == 0
      | _ => false) = true := by
    decide +kernel
  split at run
  · next e r fails =>
    have here : r = Call.after .goneParameter (.ofDocument .goneParameter) (.visit 0) :=
      (congrArg Prod.snd fails).symm
    simp only [Bool.and_eq_true, beq_iff_eq, List.isEmpty_iff] at run
    obtain ⟨⟨⟨operation, visited⟩, childless⟩, silent⟩ := run
    refine ⟨r, e, here ▸ attained, fails, operation, Build.ends_visit_of_visited visited, silent,
      fun entry signature same => ?_⟩
    have response := signature.response_mem_parts (r.graph.node 0).name
    rw [← same, Graph.partsOf, childless] at response
    cases response
  · cases run

end RestGraph
