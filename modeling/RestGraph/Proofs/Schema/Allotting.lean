import RestGraph.Proofs.Naming.Fresh
import RestGraph.Proofs.Schema.Arguments
import RestGraph.Proofs.Schema.Independence
import RestGraph.Proofs.Schema.TypeNames

/-!
# Where names are given out

Root fields, fields, arguments and declarations get their names one after the other, none of them
one that was given before. A root field, a field or an argument gets the name it wants or that name
with the least free number; a declaration tries its candidates first.
-/

namespace RestGraph

open Naming (Allots Gives Numbers)

/-! ## Root fields, fields and arguments -/

namespace Graph

variable {g : Graph}

theorem addOperations_allots (inside : ∀ i ∈ g.roots, i < g.size) (taken : List String)
    (entries : List OperationEntry) :
    ∃ names, Allots Gives taken.toFinset
        (entries.map fun e =>
          Naming.operationName e.method e.path (e.operation.textAt? "operationId")) names ∧
      ((g.addOperations taken entries).roots.map fun i =>
        ((g.addOperations taken entries).node i).name) =
        (g.roots.map fun i => (g.node i).name) ++ names := by
  induction entries generalizing g taken with
  | nil => exact ⟨[], .nil, (List.append_nil _).symm⟩
  | cons e rest ih =>
    let wanted := Naming.operationName e.method e.path (e.operation.textAt? "operationId")
    let name := Naming.unique taken wanted
    let h := g.addRoot (operationSeed e name)
    have roots : h.roots = g.roots ++ [g.size] := rfl
    have inside' : ∀ i ∈ h.roots, i < h.size := fun i mem => by
      rw [size_addRoot]
      rcases List.mem_append.mp (roots ▸ mem) with old | new
      · exact (inside i old).trans (Nat.lt_succ_self _)
      · exact List.mem_singleton.mp new ▸ Nat.lt_succ_self _
    obtain ⟨names, allots, all⟩ := ih inside' (name :: taken)
    rw [List.toFinset_cons] at allots
    refine ⟨name :: names, .cons (Naming.unique_gives taken wanted) allots, all.trans ?_⟩
    have old : ∀ i ∈ g.roots, (h.node i).name = (g.node i).name := fun i mem => by
      rw [node_addRoot, if_neg (inside i mem).ne]
    have new : (h.node g.size).name = name := by
      rw [node_addRoot, if_pos rfl]
      rfl
    rw [roots, List.map_append, List.map_singleton, List.map_congr_left old, new, List.append_assoc]
    rfl

/-- The operations of a description are given their names in order. -/
theorem ofDocument_allots (d : Document) : Allots Gives ∅
    (d.operations.map fun e =>
      Naming.operationName e.method e.path (e.operation.textAt? "operationId"))
    ((ofDocument d).roots.map fun i => ((ofDocument d).node i).name) := by
  obtain ⟨names, allots, all⟩ := addOperations_allots (g := empty)
    (fun i none => absurd none List.not_mem_nil) [] d.operations
  rw [ofDocument, all]
  exact allots

theorem nameFields_allots (g : Graph) (taken : List String) (props : List (String × Nat)) :
    Allots Gives taken.toFinset
      ((props.filter fun x => !(g.node x.2).kind.closes).map fun x =>
        (Naming.guardReserved x.1).name)
      ((nameFields g taken props).filterMap VisibleField.name) := by
  induction props generalizing taken with
  | nil => exact .nil
  | cons x rest ih =>
    rw [nameFields_step]
    cases closes : (g.node x.2).kind.closes with
    | true =>
      rw [List.filter_cons_of_neg (by simp [closes]), if_pos rfl, List.filterMap_cons_none rfl]
      exact ih taken
    | false =>
      have rest := ih (Naming.unique taken (Naming.guardReserved x.1).name :: taken)
      rw [List.toFinset_cons] at rest
      rw [List.filter_cons_of_pos (by simp [closes]), if_neg Bool.false_ne_true]
      exact .cons (Naming.unique_gives taken _) rest

/-- The fields of a container that close no cycle are given their names in order. -/
theorem visibleFields_allots (g : Graph) (container : Nat) (selection : Option Collection) :
    Allots Gives ∅
      ((((g.node container).props.filter fun x => selection.all fun c => c.isSelected x.2).filter
        fun x => !(g.node x.2).kind.closes).map fun x => (Naming.guardReserved x.1).name)
      ((visibleFields g container selection).filterMap VisibleField.name) :=
  nameFields_allots g [] _

end Graph

/-- The name that an argument asks for: that of its parameter, or the one for bodies. -/
def ArgDecl.wanted (a : ArgDecl) : String :=
  match a.location with
  | some _ => Naming.fieldName a.wireName
  | none => "input"

namespace Drafting

variable {d : Document} {c : Collection} {i : Nat} {o o' : OperationDecl} {s t : Draft}

/-- The arguments so far were given their names in order. -/
def AllotsArgs (o : OperationDecl) : Prop :=
  Allots Gives ∅ (o.args.map ArgDecl.wanted) (o.args.map ArgDecl.name)

theorem AllotsArgs.add (allots : AllotsArgs o) {a : ArgDecl}
    (name : a.name = Naming.unique (o.args.map ArgDecl.name) a.wanted)
    (args : o'.args = o.args ++ [a]) : AllotsArgs o' := by
  have gave := Naming.unique_gives (o.args.map ArgDecl.name) a.wanted
  rw [← name, ← Finset.empty_union (List.toFinset _)] at gave
  rw [AllotsArgs, args, List.map_append, List.map_append]
  exact allots.concat gave

/-- A child of an operation adds arguments with names of their own. -/
theorem addChild_allots (step : Ends (addChild d c o i) s o' t) (allots : AllotsArgs o) :
    AllotsArgs o' := by
  cases addChild_cases step with
  | param | body => exact allots.add rfl rfl
  | response | silent | other => exact allots

/-- The arguments of a root field are given their names in order. -/
theorem operation_allots (h : Ends (operation d c i) s o t) : AllotsArgs o := by
  unfold operation at h
  simp only [Ends.bind_iff, ends_lift, ends_graph] at h
  obtain ⟨children, _, ⟨r, below, rfl⟩, _, _, ⟨rfl, rfl⟩, h⟩ := h
  split at h
  · simp only [Ends.bind_iff, ends_onRun, Ends.pure_iff] at h
    obtain ⟨_, _, rfl, _, v, fold, _, _, rfl, rfl, rfl⟩ := h
    refine Ends.foldlM_keeps (I := fun o _ => AllotsArgs o)
      (fun _ allots step => addChild_allots step allots) ?_ fold
    exact Allots.nil
  · exact absurd h (by rw [Ends.throw_iff]; exact id)

end Drafting

/-! ## Declarations -/

namespace TypeDecl

variable {g : Graph} {t : TypeDecl} {decls : List TypeDecl} {i : Nat}
  {entries : List (TypeDecl × Nat)}

/-- What a declaration is given: a free name, its base name if that is free, else the first of its
candidates that is, and if none is free, the base name with a number. -/
structure Chooses (g : Graph) (taken : Finset String) (t : TypeDecl) (name : String) : Prop where
  free : name ∉ taken
  same : t.base ∉ taken → name = t.base
  first : ∀ other ∈ candidates g t, other ∉ taken → ∃ before after,
    candidates g t = before ++ name :: after ∧ ∀ c ∈ before, c ∈ taken
  numbered : (∀ other ∈ candidates g t, other ∈ taken) → Numbers taken t.base name

theorem chooseName_chooses (g : Graph) (taken : List String) (t : TypeDecl) :
    Chooses g taken.toFinset t (chooseName g taken t) := by
  unfold chooseName
  split
  · next name found =>
    obtain ⟨free, before, after, tried, occupied⟩ := List.find?_eq_some_iff_append.mp found
    have free : name ∉ taken.toFinset := by simpa using free
    have occupied : ∀ c ∈ before, c ∈ taken.toFinset := by simpa using occupied
    refine ⟨free, fun base => ?_, fun _ _ _ => ⟨before, after, tried, occupied⟩, fun full => ?_⟩
    · cases before with
      | nil => exact (List.cons.inj tried).1.symm
      | cons c rest =>
        have first : t.base = c := (List.cons.inj tried).1
        exact absurd (first ▸ occupied c List.mem_cons_self) base
    · exact absurd (full name (tried ▸ by simp)) free
  · next none =>
    have full : ∀ other ∈ candidates g t, other ∈ taken := by
      simpa using List.find?_eq_none.mp none
    have base := full t.base List.mem_cons_self
    have free : Naming.firstFree taken t.base taken.length 2 ∉ taken :=
      Naming.firstFree_notMem le_rfl
    exact ⟨mt List.mem_toFinset.mp free, fun other => absurd (List.mem_toFinset.mpr base) other,
      fun other mem free => absurd (List.mem_toFinset.mpr (full other mem)) free,
      fun _ => Naming.firstFree_numbers base⟩

/-- A step names the declaration that it takes. -/
theorem exists_assigned (g : Graph) (decls : List TypeDecl) (n : Naming) (entry : TypeDecl × Nat) :
    ∃ a, (nameNext g decls n entry).assigned = (entry.2, a) :: n.assigned := by
  unfold nameNext
  dsimp only
  split <;> exact ⟨_, rfl⟩

/-- What is named is not named again by steps that take others. -/
theorem lookup_foldl_nameNext {n : Naming} (absent : i ∉ entries.map Prod.snd) :
    (entries.foldl (nameNext g decls) n).assigned.lookup i = n.assigned.lookup i := by
  induction entries generalizing n with
  | nil => rfl
  | cons entry rest ih =>
    obtain ⟨other, absent⟩ := not_or.mp (mt List.mem_cons.mpr absent)
    obtain ⟨a, assigned⟩ := exists_assigned g decls n entry
    rw [List.foldl_cons, ih absent, assigned, List.lookup_cons, beq_eq_false_iff_ne.mpr other]

/-- In a run of steps the declarations that are written choose their names one after the other; the
others share one and leave the names that are taken as they are. -/
theorem foldl_nameNext_allots {n : Naming} {ns : TypeNames}
    (distinct : (entries.map Prod.snd).Nodup) (read : ∀ entry ∈ entries, ns.entries[entry.2]? =
      some (((entries.foldl (nameNext g decls) n).assigned.lookup entry.2).getD ⟨"", true⟩)) :
    Allots (Chooses g) n.taken.toFinset
      ((entries.filter fun entry => ns.isPrimary entry.2).map Prod.fst)
      ((entries.filter fun entry => ns.isPrimary entry.2).map fun entry => ns.nameAt entry.2) := by
  induction entries generalizing n with
  | nil => exact .nil
  | cons entry rest ih =>
    obtain ⟨t, i⟩ := entry
    obtain ⟨absent, distinct⟩ := List.nodup_cons.mp distinct
    have later := ih distinct fun entry mem => read entry (List.mem_cons_of_mem _ mem)
    have own := read (t, i) List.mem_cons_self
    rw [List.foldl_cons, lookup_foldl_nameNext absent] at own
    unfold nameNext at own later
    dsimp only at own later
    cases met : n.shapes.lookup (t.base, signature decls t) with
    | some name =>
      rw [met] at own later
      have shared : ns.isPrimary i = false := by
        rw [TypeNames.isPrimary, own, List.lookup_cons_self]
        rfl
      rw [List.filter_cons_of_neg (by simp [shared])]
      exact later
    | none =>
      rw [met] at own later
      rw [List.lookup_cons_self] at own
      have written : ns.isPrimary i = true := by
        rw [TypeNames.isPrimary, own]
        rfl
      have name : ns.nameAt i = chooseName g n.taken t := by
        rw [TypeNames.nameAt, own]
        rfl
      rw [List.filter_cons_of_pos (by simp [written]), List.map_cons, List.map_cons, name]
      dsimp only at later
      rw [List.toFinset_cons] at later
      exact .cons (chooseName_chooses g n.taken t) later

/-- The declarations that are written, in the order in which they choose. -/
def choosing (r : Run) (decls : List TypeDecl) : List (TypeDecl × Nat) :=
  (turns r decls).filter fun entry => (assignNames r decls).isPrimary entry.2

theorem assignNames_allots (r : Run) (decls : List TypeDecl) :
    Allots (Chooses r.graph) reservedTypeNames.toFinset ((choosing r decls).map Prod.fst)
      ((choosing r decls).map fun entry => (assignNames r decls).nameAt entry.2) := by
  have distinct : ((turns r decls).map Prod.snd).Nodup := by
    rw [((turns_perm r decls).map Prod.snd).nodup_iff, List.zipIdx_map_snd]
    exact List.nodup_range'
  have read : ∀ entry ∈ turns r decls, (assignNames r decls).entries[entry.2]? =
      some ((((turns r decls).foldl (nameNext r.graph decls)
        ⟨reservedTypeNames, [], []⟩).assigned.lookup entry.2).getD ⟨"", true⟩) :=
        fun entry mem => by
    have at_ := List.mem_zipIdx_iff_getElem?.mp ((turns_perm r decls).mem_iff.mp mem)
    have inside := (List.getElem?_eq_some_iff.mp at_).1
    change ((List.range decls.length).map _)[entry.2]? = _
    rw [List.getElem?_map, List.getElem?_range inside]
    rfl
  exact foldl_nameNext_allots distinct read

/-- Names that are made unique one after the other are given as they are wanted, or with the least
free number, after no more trials than names are taken; they differ from each other and from those
taken before. So do the names of declarations, which try their candidates before they are
numbered. -/
theorem names_allotted (taken names : List String) (r : Run) (decls : List TypeDecl) :
    (Allots Gives taken.toFinset names (RestGraph.Naming.uniques taken names) ∧
      (RestGraph.Naming.uniques taken names).Nodup ∧
      (RestGraph.Naming.uniques taken names).Disjoint taken) ∧
    let chosen := (choosing r decls).map fun entry => (assignNames r decls).nameAt entry.2
    Allots (Chooses r.graph) reservedTypeNames.toFinset ((choosing r decls).map Prod.fst) chosen ∧
      chosen.Nodup ∧ chosen.Disjoint reservedTypeNames := by
  have allots := RestGraph.Naming.uniques_allots taken names
  have allots' := assignNames_allots r decls
  obtain ⟨distinct, apart⟩ := allots.distinct Gives.free
  obtain ⟨distinct', apart'⟩ := allots'.distinct Chooses.free
  exact ⟨⟨allots, distinct, fun name mem known => apart name mem (List.mem_toFinset.mpr known)⟩,
    allots', distinct', fun name mem known => apart' name mem (List.mem_toFinset.mpr known)⟩

/-- A name that is wanted with a number is numbered itself when that number was given before. -/
example : RestGraph.Naming.uniques [] ["pets", "pets", "pets2", "pets"] =
    ["pets", "pets2", "pets22", "pets3"] := by decide +kernel

end TypeDecl

end RestGraph
