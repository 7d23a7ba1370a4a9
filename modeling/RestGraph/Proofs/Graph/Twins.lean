import RestGraph.Proofs.Graph.Blending
import RestGraph.Proofs.Graph.Unfolding

/-!
# Twins

Two graphs of one description, built in different orders and to different depths. Where nodes stand
at the same site and both are built, they have the same children, lead to the same elements and have
the same fields, each field at the same site again.
-/

namespace RestGraph

variable {d : Document} {r s : Run} {i j b b' : Nat}

/-- Items with the same parts are related, when that relates them. -/
theorem forall₂_of_map_eq {α β γ : Type} {f : α → γ} {f' : β → γ} {R : α → β → Prop}
    {l : List α} {l' : List β} (same : l.map f = l'.map f')
    (each : ∀ a ∈ l, ∀ b ∈ l', f a = f' b → R a b) : List.Forall₂ R l l' := by
  induction l generalizing l' with
  | nil => rw [List.map_eq_nil_iff.mp same.symm]; exact .nil
  | cons a l ih =>
    cases l' with
    | nil => cases same
    | cons b l' =>
      obtain ⟨here, later⟩ := List.cons.inj same
      exact .cons (each a List.mem_cons_self b List.mem_cons_self here)
        (ih later fun a mem b mem' =>
          each a (List.mem_cons_of_mem _ mem) b (List.mem_cons_of_mem _ mem'))

/-- Lists that are alike member by member have one image. -/
theorem map_eq_of_forall₂ {α β δ : Type} {F : α → δ} {F' : β → δ} {l : List α} {l' : List β}
    (alike : List.Forall₂ (fun a b => F a = F' b) l l') : l.map F = l'.map F' :=
  List.forall₂_eq_eq_eq ▸ List.forall₂_map_left_iff.mpr (List.forall₂_map_right_iff.mpr alike)

/-- Parts of the items agree where other parts of them do. -/
theorem map_eq_of_map_eq {α β γ δ : Type} {f : α → γ} {f' : β → γ} {F : α → δ} {F' : β → δ}
    {l : List α} {l' : List β} (same : l.map f = l'.map f')
    (each : ∀ a ∈ l, ∀ b ∈ l', f a = f' b → F a = F' b) : l.map F = l'.map F' :=
  map_eq_of_forall₂ (forall₂_of_map_eq same each)

namespace Kind

/-- What does not depend on where a circular leaf leads is told by the kind without that. -/
theorem congr_of_unaimed {α : Type} {k k' : Kind} (part : Kind → α)
    (aimless : ∀ a b, part (.circular a) = part (.circular b)) (same : k.unaimed = k'.unaimed) :
    part k = part k' := by
  cases k <;> cases k' <;> first | exact aimless _ _ | (cases same <;> rfl)

end Kind

namespace Graph

variable {g h : Graph}

/-- The kinds of nodes at the same site. -/
theorem kind_of_site {α : Type} (same : g.site i = h.site j) (part : Kind → α)
    (aimless : ∀ a b, part (.circular a) = part (.circular b)) :
    part (g.node i).kind = part (h.node j).kind :=
  Kind.congr_of_unaimed part aimless (congrArg (fun s : Site => s.seed.kind) same)

theorem name_of_site (same : g.site i = h.site j) : (g.node i).name = (h.node j).name :=
  congrArg (fun s : Site => s.seed.name) same

theorem idAt_of_site (same : g.site i = h.site j) : g.idAt i = h.idAt j := by
  rw [← id_seedAt, ← id_seedAt]
  exact congrArg (fun s : Site => s.seed.id) same

/-- What is built at once with a node is told by its site. -/
theorem Orderly.sitesBelow_of_eager (orderly : g.Orderly)
    (eager : (g.node i).kind.isEager = true) :
    g.sitesBelow i = (g.site i).element?.toList := by
  unfold Site.element?
  cases below : (g.node i).children with
  | nil =>
    rw [show (g.site i).inner = [] from innerOf_of_childless below, sitesBelow, below]
    rfl
  | cons c rest =>
    have narrow := orderly.narrow eager
    rw [below, List.length_cons] at narrow
    obtain rfl : rest = [] := List.eq_nil_of_length_eq_zero (by omega)
    have child : c ∈ (g.node i).children := below ▸ List.mem_singleton_self c
    rw [show (g.site i).inner = _ from innerOf_of_first eager below (orderly.below child),
      sitesBelow, below, List.map_singleton, orderly.site_of_child child]
    rfl

end Graph

/-- A run whose graph can be told from the description: what was visited has its children, objects
have their fields, and what was merged in the arguments was merged in full. -/
structure Run.Full (d : Document) (r : Run) : Prop where
  tidy : r.Tidy d ∅
  sound : r.graph.Sound
  filled : r.graph.Filled
  plain : r.Plain

namespace Run.Full

variable (full : r.Full d) (full' : s.Full d) (same : r.graph.site i = s.graph.site j)
  (inside : i < r.graph.size) (inside' : j < s.graph.size)

include full full' same inside inside'

/-- Twins that were visited have twins for children. -/
theorem children (visited : (r.graph.node i).visited = true)
    (visited' : (s.graph.node j).visited = true) :
    r.graph.sitesBelow i = s.graph.sitesBelow j := by
  have settles := full.tidy.settled inside visited (Set.notMem_empty i)
  rw [same] at settles
  exact Except.ok.inj (settles.unique (full'.tidy.settled inside' visited' (Set.notMem_empty j)))

/-- On the way to an element that was built the children are twins. -/
theorem childrenOnWay
    (leads : (r.graph.node i).kind.isWrapper = true ∨ (r.graph.node i).kind.isArray = true)
    (done : (r.graph.node (r.graph.elementOf i)).kind.isWrapper = true ∨
      (r.graph.node (r.graph.elementOf i)).kind.isArray = true →
        (r.graph.node (r.graph.elementOf i)).visited = true)
    (done' : (s.graph.node (s.graph.elementOf j)).kind.isWrapper = true ∨
      (s.graph.node (s.graph.elementOf j)).kind.isArray = true →
        (s.graph.node (s.graph.elementOf j)).visited = true) :
    r.graph.sitesBelow i = s.graph.sitesBelow j := by
  have eager := Graph.kind_of_site same Kind.isEager fun _ _ => rfl
  have leads' : (s.graph.node j).kind.isWrapper = true ∨ (s.graph.node j).kind.isArray = true := by
    rwa [← Graph.kind_of_site same Kind.isWrapper fun _ _ => rfl,
      ← Graph.kind_of_site same Kind.isArray fun _ _ => rfl]
  cases late : (r.graph.node i).kind.isEager with
  | true =>
    rw [full.tidy.orderly.sitesBelow_of_eager late,
      full'.tidy.orderly.sitesBelow_of_eager (eager ▸ late), same]
  | false =>
    refine full.children full' same inside inside' ?_ ?_
    · by_contra unvisited
      have childless := full.tidy.orderly.late late (Bool.eq_false_iff.mpr unvisited)
      rw [Graph.elementOf_of_childless childless] at done
      exact unvisited (done leads)
    · by_contra unvisited
      have childless := full'.tidy.orderly.late (eager ▸ late) (Bool.eq_false_iff.mpr unvisited)
      rw [Graph.elementOf_of_childless childless] at done'
      exact unvisited (done' leads')

end Run.Full

namespace Run.Full

variable (full : r.Full d) (full' : s.Full d)

include full full'

/-- Twins lead to twins. -/
theorem elementOf (same : r.graph.site i = s.graph.site j) (inside : i < r.graph.size)
    (inside' : j < s.graph.size)
    (done : (r.graph.node (r.graph.elementOf i)).kind.isWrapper = true ∨
      (r.graph.node (r.graph.elementOf i)).kind.isArray = true →
        (r.graph.node (r.graph.elementOf i)).visited = true)
    (done' : (s.graph.node (s.graph.elementOf j)).kind.isWrapper = true ∨
      (s.graph.node (s.graph.elementOf j)).kind.isArray = true →
        (s.graph.node (s.graph.elementOf j)).visited = true) :
    r.graph.site (r.graph.elementOf i) = s.graph.site (s.graph.elementOf j) := by
  have alike : ∀ {i j}, r.graph.site i = s.graph.site j →
      ((s.graph.node j).kind.isWrapper || (s.graph.node j).kind.isArray) =
        ((r.graph.node i).kind.isWrapper || (r.graph.node i).kind.isArray) := fun same => by
    rw [Graph.kind_of_site same Kind.isWrapper fun _ _ => rfl,
      Graph.kind_of_site same Kind.isArray fun _ _ => rfl]
  fun_induction Graph.elementOf r.graph i generalizing j with
  | case1 i kind leads c bounds first =>
    rename_i ih
    obtain ⟨rest, children⟩ := Graph.firstBelow?_eq_some first
    have leads := (Bool.or_eq_true _ _).mp leads
    have element := Graph.elementOf_of_first leads children bounds
    have twins := full.childrenOnWay full' same inside inside' leads (by rwa [element]) done'
    rw [Graph.sitesBelow, Graph.sitesBelow, children] at twins
    cases children' : (s.graph.node j).children with
    | nil =>
      rw [children'] at twins
      cases twins
    | cons c' rest' =>
      rw [children'] at twins
      have bounds' :=
        full'.sound.below (children' ▸ List.mem_cons_self : c' ∈ (s.graph.node j).children)
      have leads' : (s.graph.node j).kind.isWrapper = true ∨ (s.graph.node j).kind.isArray = true :=
        (Bool.or_eq_true _ _).mp ((alike same).trans ((Bool.or_eq_true _ _).mpr leads))
      have element' := Graph.elementOf_of_first leads' children' bounds'
      rw [element'] at done' ⊢
      exact ih (List.cons.inj twins).1 bounds.2 bounds'.2 done done'
  | case2 i kind leads =>
    rename_i first
    have childless := full.tidy.orderly.children_of_first_none first
    have leads := (Bool.or_eq_true _ _).mp leads
    have twins := full.childrenOnWay full' same inside inside' leads
      (by rwa [Graph.elementOf_of_childless childless]) done'
    rw [Graph.sitesBelow, Graph.sitesBelow, childless] at twins
    rw [Graph.elementOf_of_childless (List.map_eq_nil_iff.mp twins.symm)]
    exact same
  | case3 i kind =>
    rename_i leads
    have leads' := leads
    rw [← alike same, Bool.or_eq_true, not_or, Bool.not_eq_true, Bool.not_eq_true] at leads'
    rw [Graph.elementOf_of_end leads'.1 leads'.2]
    exact same

end Run.Full

/-! ## Fields -/

@[simp] theorem Run.map_assign {α β γ : Type} [DecidableEq α] (f : β → γ) (key : α) (value : β)
    (xs : List (α × β)) : (assign key value xs).map (Prod.map id f) =
      assign key (f value) (xs.map (Prod.map id f)) := by
  induction xs with
  | nil => rfl
  | cons x xs ih =>
    rw [List.map_cons, assign.eq_def, assign.eq_def]
    dsimp only [Prod.map, id]
    split
    · rfl
    · exact congrArg (_ :: ·) ih

namespace Graph

variable {g h : Graph} {props props' all all' : List (String × Nat)} {level level' : List Nat}

@[simp] theorem lookup_map_snd {β γ : Type} (f : β → γ) (key : String) (xs : List (String × β)) :
    ((xs.map (Prod.map id f)).lookup key) = (xs.lookup key).map f := by
  induction xs with
  | nil => rfl
  | cons x xs ih =>
    rw [List.map_cons, List.lookup_cons, List.lookup_cons, ih]
    dsimp only [Prod.map, id]
    split <;> rfl

@[simp] theorem map_addFields {β γ : Type} (f : β → γ) (fields own : List (String × β)) :
    (addFields fields own).map (Prod.map id f) =
      addFields (fields.map (Prod.map id f)) (own.map (Prod.map id f)) := by
  unfold addFields
  induction own generalizing fields with
  | nil => rfl
  | cons x own ih =>
    rw [List.foldl_cons, ih, List.map_cons, List.foldl_cons, lookup_map_snd, Option.isNone_map]
    dsimp only [Prod.map, id]
    split
    · rw [List.map_append]
      rfl
    · rfl

/-- Fields with the sites of their properties. -/
def sited (g : Graph) (props : List (String × Nat)) : List (String × Site) :=
  props.map (Prod.map id g.site)

/-- The fields of an object are told by the sites of its children. -/
theorem sited_fieldsAt (g : Graph) (o : Nat) : g.sited (g.fieldsAt o) =
    (g.sitesBelow o).foldl (fun fields q => Run.assign q.seed.name q fields) [] := by
  have go : ∀ (l : List Nat) (fields : List (String × Nat)),
      g.sited (l.foldl (fun fields q => Run.assign (g.node q).name q fields) fields) =
        (l.map g.site).foldl (fun fields q => Run.assign q.seed.name q fields)
          (g.sited fields) := by
    intro l
    induction l with
    | nil => exact fun _ => rfl
    | cons q l ih =>
      intro fields
      rw [List.foldl_cons, ih, List.map_cons, List.foldl_cons]
      exact congrArg (List.foldl _ · _) (Run.map_assign g.site _ q fields)
  exact go _ []

@[simp] theorem sited_addLevel (g : Graph) (props : List (String × Nat)) (level : List Nat) :
    g.sited (g.addLevel props level) =
      (level.map fun b => g.sited (g.ownFields b)).foldl addFields (g.sited props) := by
  unfold addLevel
  induction level generalizing props with
  | nil => rfl
  | cons b level ih =>
    rw [List.foldl_cons, ih, List.map_cons, List.foldl_cons]
    exact congrArg (List.foldl _ · _) (map_addFields g.site props _)

@[simp] theorem branchesBelow_sites (g : Graph) (i : Nat) : (Build.branchesBelow g i).map g.site =
    (g.sitesBelow i).filter fun s => !s.seed.kind.isProperty := by
  rw [sitesBelow, List.filter_map, Build.branchesBelow]
  refine congrArg (List.map _) (List.filter_congr fun c _ => ?_)
  exact congrArg (!·) isProperty_seedAt.symm

end Graph

namespace Run.Full

variable (full : r.Full d) (full' : s.Full d)

include full full'

section Branch

variable (same : r.graph.site b = s.graph.site b')
  (done : b < r.graph.size ∧ (r.graph.node b).visited = true)
  (done' : b' < s.graph.size ∧ (s.graph.node b').visited = true)

include same done done'

/-- Objects that are twins have twins for fields. -/
theorem objectFields (object : (r.graph.node b).kind.tag = .object) :
    r.graph.sited (r.graph.node b).props = s.graph.sited (s.graph.node b').props := by
  have object' := (Graph.kind_of_site same Kind.tag fun _ _ => rfl).symm.trans object
  rw [full.filled b object, full'.filled b' object', Graph.sited_fieldsAt, Graph.sited_fieldsAt,
    full.children full' same done.1 done'.1 done.2 done'.2]

/-- Twins have the same fields of their own, by their sites. -/
theorem ownFields : r.graph.sited (r.graph.ownFields b) = s.graph.sited (s.graph.ownFields b') := by
  rw [Graph.ownFields, Graph.ownFields, Graph.kind_of_site same Kind.tag fun _ _ => rfl]
  split
  · next object =>
    exact full.objectFields full' same done done'
      ((Graph.kind_of_site same Kind.tag fun _ _ => rfl).trans object)
  · rfl

/-- Twins have the same branches below them, by their sites. -/
theorem branchesBelow : (Build.branchesBelow r.graph b).map r.graph.site =
    (Build.branchesBelow s.graph b').map s.graph.site := by
  rw [Graph.branchesBelow_sites, Graph.branchesBelow_sites,
    full.children full' same done.1 done'.1 done.2 done'.2]

theorem branchesOn : (r.graph.branchesOn b).map r.graph.site =
    (s.graph.branchesOn b').map s.graph.site := by
  rw [Graph.branchesOn, Graph.branchesOn, Graph.kind_of_site same Kind.expands fun _ _ => rfl]
  split
  · exact full.branchesBelow full' same done done'
  · rfl

end Branch

/-- Level by level, branches that are twins add twins. -/
theorem blends {props props' all all' : List (String × Nat)} {level level' : List Nat}
    (first : r.graph.Blends props level all) (second : s.graph.Blends props' level' all')
    (sameProps : r.graph.sited props = s.graph.sited props')
    (sameLevel : level.map r.graph.site = level'.map s.graph.site) :
    r.graph.sited all = s.graph.sited all' := by
  induction first generalizing props' level' with
  | done =>
    cases second with
    | done => exact sameProps
    | level => cases sameLevel
  | level visited _ ih =>
    cases second with
    | done => cases sameLevel
    | level visited' more' =>
      refine ih more' ?_ ?_
      · rw [Graph.sited_addLevel, Graph.sited_addLevel, sameProps]
        refine congrArg (List.foldl _ _) (map_eq_of_map_eq sameLevel fun b mem b' mem' same => ?_)
        exact full.ownFields full' same (visited b mem) (visited' b' mem')
      · rw [List.map_flatMap, List.map_flatMap]
        refine congrArg List.flatten (map_eq_of_map_eq sameLevel fun b mem b' mem' same => ?_)
        exact full.branchesOn full' same (visited b mem) (visited' b' mem')

/-- Containers in the arguments that are twins have twins for fields. -/
theorem fields (same : r.graph.site i = s.graph.site j)
    (done : i < r.graph.size ∧ (r.graph.node i).visited = true)
    (done' : j < s.graph.size ∧ (s.graph.node j).visited = true)
    (structured : (r.graph.node i).kind.isStructured = true)
    (merged : (r.graph.node i).isMerged = true) (merged' : (s.graph.node j).isMerged = true)
    (within : r.graph.inArguments i = true) (within' : s.graph.inArguments j = true) :
    r.graph.sited (r.graph.node i).props = s.graph.sited (s.graph.node j).props := by
  cases composition : (r.graph.node i).kind.isComposition with
  | false =>
    refine full.objectFields full' same done done' ?_
    cases kind : (r.graph.node i).kind <;> rw [kind] at composition structured <;>
      first | rfl | exact Bool.noConfusion structured | exact Bool.noConfusion composition
  | true =>
    have composition' := (Graph.kind_of_site same Kind.isComposition fun _ _ => rfl).symm.trans
      composition
    rw [Node.isMerged, composition] at merged
    rw [Node.isMerged, composition'] at merged'
    obtain ⟨-, all, blends, props⟩ := full.plain.whole composition merged within
    obtain ⟨-, all', blends', props'⟩ := full'.plain.whole composition' merged' within'
    have sorted : ∀ (g : Graph) (all : List (String × Nat)),
        g.sited (Text.sortByName Prod.fst all) = Text.sortByName Prod.fst (g.sited all) :=
      fun g all =>
        have key : ∀ x : String × Nat, (Prod.map id g.site x).fst = x.fst := fun _ => rfl
        Text.map_sortByName key all
    rw [props, props', sorted, sorted]
    exact congrArg _ (full.blends full' blends blends' rfl
      (full.branchesBelow full' same done done'))

end Run.Full

end RestGraph
