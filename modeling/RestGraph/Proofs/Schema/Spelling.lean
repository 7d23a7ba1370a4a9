import RestGraph.Proofs.Graph.Peeking
import RestGraph.Proofs.Graph.Siblings
import RestGraph.Proofs.Schema.History

/-!
# Spelling

The id of an object, a composition or an enum spells the trail that leads to it, and names are spelt
as they are. So a name with a dot may spell what two names spell, and two schemas that have nothing
in common have one id. Where no name goes on where another ends, an id says what its schema was made
from.
-/

namespace RestGraph

variable {d : Document} {g : Graph}

/-! ## Texts -/

namespace Trail

def opens (c : Char) : Bool := c == '.' || c == '#' || c == '['

/-- Whether the second text is the first one with marks behind it. -/
def goesOn (s t : String) : Bool :=
  match s.toList.isPrefixOf? t.toList with
  | some (c :: _) => opens c
  | _ => false

/-- The text begins with a mark, if with anything. -/
def IsOpen (t : String) : Prop := ∀ c ∈ t.toList.head?, opens c = true

variable {s s' x x' : String}

/-- What stops a text and what opens the next part do not mix. -/
theorem eq_nil_of_not_goesOn {rest : List Char} (stops : goesOn s s' = false)
    (longer : s'.toList = s.toList ++ rest) (open_ : ∀ c ∈ rest.head?, opens c = true) :
    rest = [] := by
  have found : s.toList.isPrefixOf? s'.toList = some rest :=
    List.isPrefixOf?_eq_some_iff_append_eq.mpr longer.symm
  rw [goesOn, found] at stops
  cases rest with
  | nil => rfl
  | cons c rest =>
    have opened : opens c = true := open_ c rfl
    exact absurd opened (Bool.eq_false_iff.mp stops)

/-- Two texts end in the same place, if neither goes on where the other ends. -/
theorem eq_of_append (open_ : IsOpen x) (open' : IsOpen x') (stops : goesOn s s' = false)
    (stops' : goesOn s' s = false) (same : s ++ x = s' ++ x') : s = s' ∧ x = x' := by
  have whole : s.toList ++ x.toList = s'.toList ++ x'.toList := by
    rw [← String.toList_append, same, String.toList_append]
  obtain ⟨rest, longer, tail⟩ | ⟨rest, longer, tail⟩ := List.append_eq_append_iff.mp whole
  · have none : rest = [] := eq_nil_of_not_goesOn stops longer fun c first => open_ c (by
      rw [tail, List.head?_append, first]
      rfl)
    subst none
    rw [List.append_nil] at longer
    exact ⟨String.toList_inj.mp longer.symm, String.toList_inj.mp tail⟩
  · have none : rest = [] := eq_nil_of_not_goesOn stops' longer fun c first => open' c (by
      rw [tail, List.head?_append, first]
      rfl)
    subst none
    rw [List.append_nil] at longer
    exact ⟨String.toList_inj.mp longer, String.toList_inj.mp tail.symm⟩

/-- No number goes on where another ends. -/
@[simp] theorem not_goesOn_toString (m n : Nat) : goesOn (toString m) (toString n) = false := by
  unfold goesOn
  split
  · next c rest found =>
    have mem : c ∈ (toString n).toList := by
      rw [← List.isPrefixOf?_eq_some_iff_append_eq.mp found]
      exact List.mem_append_right _ List.mem_cons_self
    have digit := Naming.isNameChar_toString mem
    cases marks : opens c with
    | false => rfl
    | true =>
      simp only [opens, Bool.or_eq_true, beq_iff_eq, or_assoc] at marks
      obtain rfl | rfl | rfl := marks <;> cases digit
  · rfl

theorem isOpen_empty : IsOpen "" := fun c none => by cases none

theorem IsOpen.append (first : IsOpen s) (second : IsOpen x) : IsOpen (s ++ x) := by
  intro c head
  rw [String.toList_append, List.head?_append] at head
  cases here : s.toList.head? with
  | some c' =>
    rw [here] at head
    cases head
    exact first c here
  | none =>
    rw [here] at head
    exact second c head

theorem Mark.isOpen_text (m : Mark) : IsOpen m.text := by
  cases m with
  | value => exact isOpen_empty
  | item | element => exact fun c first => by cases first; rfl
  | field | branch =>
    intro c first
    rw [Mark.text, String.toList_append] at first
    cases first
    rfl

def Start.text (g : Graph) : Start → String
  | component pointer => componentName pointer
  | part node => (g.node node).scope

end Trail

namespace Graph

/-- The marks on the way from one node down to another, spelt one after the other. -/
inductive Spells (g : Graph) : Nat → String → Nat → Prop
  | here (i : Nat) : Spells g i "" i
  | on {p c i : Nat} {text : String} (child : c ∈ (g.node p).children)
      (inner : (g.node p).kind.tag ≠ .operation)
      (plain : ∀ pointer, (g.node p).kind ≠ .reference pointer) (rest : Spells g c text i) :
      Spells g p ((g.markOf p c).text ++ text) i

variable {a b c h i m n p q place : Nat} {text text' : String}

theorem Spells.isOpen (spells : g.Spells p text i) : Trail.IsOpen text := by
  induction spells with
  | here => exact Trail.isOpen_empty
  | on _ _ _ _ ih => exact (Trail.Mark.isOpen_text _).append ih

theorem Spells.not_isBare (spells : g.Spells p text i) (forest : g.Forest)
    (keyed : (g.node i).kind.isKeyed = true) : ¬(g.node p).kind.IsBare := by
  induction spells with
  | here => exact Kind.not_isBare_of_isKeyed keyed
  | on child _ _ _ ih => exact forest.open_of_child child (ih keyed)

theorem Spells.snoc (spells : g.Spells h text p) (child : c ∈ (g.node p).children)
    (inner : (g.node p).kind.tag ≠ .operation)
    (plain : ∀ pointer, (g.node p).kind ≠ .reference pointer) :
    g.Spells h (text ++ (g.markOf p c).text) c := by
  induction spells with
  | here p =>
    have one := Spells.on child inner plain (.here c)
    rwa [String.append_empty] at one
  | on first inner' plain' _ ih =>
    rw [String.append_assoc]
    exact .on first inner' plain' (ih child inner plain)

/-- The text of the trail is that of its start and what is spelt from there on. -/
structure SpeltFrom (g : Graph) (h : Nat) (text : String) (i : Nat) : Prop where
  head : g.trail h = ⟨(g.trail i).start, []⟩
  spells : g.Spells h text i
  whole : (g.trail i).text g = (g.trail i).start.text g ++ text

theorem SpeltFrom.refl {start : Trail.Start} (trail : g.trail i = ⟨start, []⟩) :
    g.SpeltFrom i "" i where
  head := by rw [trail]
  spells := .here i
  whole := by
    rw [trail]
    rfl

theorem Forest.exists_speltFrom (forest : g.Forest) (i : Nat) : ∃ h text, g.SpeltFrom h text i := by
  induction i using Nat.strongRecOn with
  | ind i ih =>
    cases parent : (g.node i).parent with
    | none => exact ⟨i, "", .refl (trail_of_root parent)⟩
    | some p =>
      have child := forest.child parent
      cases forest.trail_of_child child with
      | component _ trail => exact ⟨i, "", .refl trail⟩
      | part _ trail => exact ⟨i, "", .refl trail⟩
      | on inner plain trail =>
        obtain ⟨h, text, head, spells, whole⟩ := ih p (forest.parent_lt parent)
        refine ⟨h, text ++ (g.markOf p i).text, ?_, spells.snoc child inner plain, ?_⟩
        · rw [trail]
          exact head
        · rw [trail, Trail.text_add, whole, String.append_assoc]
          rfl

/-! ## Twins -/

/-- The nodes were made from the same and hold the same for their children. -/
structure Twins (d : Document) (g : Graph) (a b : Nat) : Prop where
  schema : (g.node a).schema = (g.node b).schema
  kind : (g.node a).kind = (g.node b).kind ∨ ∃ shape required required',
    (g.node a).kind = .property shape required ∧ (g.node b).kind = .property shape required'
  holds : ∀ {place f f'}, g.Holds d a place f → g.Holds d b place f' → f = f'
  props : ∀ place, (g.node a).propAt? place = (g.node b).propAt? place

theorem Twins.symm (twins : g.Twins d a b) : g.Twins d b a where
  schema := twins.schema.symm
  kind := twins.kind.imp Eq.symm fun ⟨shape, required, required', first, second⟩ =>
    ⟨shape, required', required, second, first⟩
  holds first second := (twins.holds second first).symm
  props place := (twins.props place).symm

end Graph

namespace Graph

variable {a b c h i m n p q place : Nat} {text text' : String}

/-- Children in the same place of nodes that hold the same are twins. -/
theorem Derived.twins (derived : g.Derived d) (forest : g.Forest)
    (ha : (g.node p).children[place]? = some a) (hb : (g.node q).children[place]? = some b)
    (open_ : ¬(g.node a).kind.IsBare) (open' : ¬(g.node b).kind.IsBare)
    (inner : (g.node p).kind.tag ≠ .operation) (inner' : (g.node q).kind.tag ≠ .operation)
    (holds : ∀ {f f'}, g.Holds d p place f → g.Holds d q place f' → f = f')
    (props : (g.node p).propAt? place = (g.node q).propAt? place) : g.Twins d a b := by
  have foreign : ∀ {p c : Nat} {x : String × Json}, c ∈ (g.node p).children →
      (g.node c).kind.isSchema = true → (g.node p).propAt? place ≠ some x :=
      fun child schema here => by
    have owner := Kind.not_isOwner_of_admits (forest.admits child) schema
    rw [Node.isOwner_of_propAt? here] at owner
    cases owner
  cases derived.child ha with
  | part tag => exact absurd tag inner
  | closing _ bare => exact absurd bare open_
  | @schema f s held made stems =>
    have schema := stems.isSchema (Node.seedBelow?_isSchema made)
    cases derived.child hb with
    | part tag => exact absurd tag inner'
    | closing _ bare => exact absurd bare open'
    | prop here' => exact absurd (props.trans here') (foreign (List.mem_of_getElem? ha) schema)
    | @schema f' s' held' made' stems' =>
      have schema' := stems'.isSchema (Node.seedBelow?_isSchema made')
      cases holds held held'
      have fragment : (g.node a).schema = (g.node b).schema := by
        rw [stems.schema, stems'.schema, (Node.seedBelow?_spec made).1,
          (Node.seedBelow?_spec made').1]
      have kind : (g.node a).kind = (g.node b).kind := by
        rw [(stems.eq_kind open_).1, (stems'.eq_kind open').1, Node.seedBelow?_kind made made']
      refine ⟨fragment, .inl kind, fun {k x x'} first second => ?_, fun k => ?_⟩
      · have here := forest.fragmentAt?_of_holds schema first
        have there := forest.fragmentAt?_of_holds schema' second
        rw [Document.fragmentAt?, kind, fragment] at here
        rw [Document.fragmentAt?, here, Option.some.injEq] at there
        exact there
      · have plain : ∀ shape required, (g.node b).kind ≠ .property shape required :=
          fun shape required prop => by
            rw [prop] at schema'
            cases schema'
        unfold Node.propAt?
        rw [kind, fragment]
        split
        · rfl
        · next prop => exact absurd prop (plain _ _)
        · rfl
  | prop here decides kind named disc from_ scope stems =>
    cases derived.child hb with
    | part tag => exact absurd tag inner'
    | closing _ bare => exact absurd bare open'
    | schema _ made' stems' =>
      have schema' := stems'.isSchema (Node.seedBelow?_isSchema made')
      exact absurd (props.symm.trans here) (foreign (List.mem_of_getElem? hb) schema')
    | prop here' decides' kind' named' disc' from' scope' stems' =>
      have same := Option.some_inj.mp (here.symm.trans (props.trans here'))
      cases same
      cases decides.unique decides'
      have fragment : (g.node a).schema = (g.node b).schema := by
        rw [stems.schema, stems'.schema, from_, from']
      have kinds := (stems.eq_kind open_).1.trans kind
      have kinds' := (stems'.eq_kind open').1.trans kind'
      refine ⟨fragment, .inr ⟨_, _, _, kinds, kinds'⟩, fun {k x x'} first second => ?_, fun k => ?_⟩
      · obtain ⟨_, first⟩ := forest.propAt?_of_holds (by rw [kinds]; rfl) ha first
        obtain ⟨_, second⟩ := forest.propAt?_of_holds (by rw [kinds']; rfl) hb second
        have both := first.symm.trans (props.trans second)
        rw [Option.some.injEq, Prod.mk.injEq] at both
        exact both.2
      · have names : (g.node a).name = (g.node b).name :=
          (stems.name.trans named).trans (stems'.name.trans named').symm
        unfold Node.propAt?
        rw [kinds, kinds', fragment, names]
        cases Build.propShapeOf (Shape.ofSchema _) <;> rfl

/-! ## Legible graphs -/

/-- Where the trails of a graph may start. -/
def starts (g : Graph) : List Trail.Start :=
  (List.range g.size).filterMap fun i => match (g.node i).kind with
    | .reference pointer => some (.component pointer)
    | .param .. | .body _ | .response .. => some (.part i)
    | _ => none

def fieldNames (g : Graph) (i : Nat) : List String :=
  (sortedProperties (g.node i).schema).map Prod.fst

/-- No name goes on where another ends that may stand in its place. -/
structure IsLegible (g : Graph) : Prop where
  starts : ∀ s ∈ g.starts, ∀ t ∈ g.starts, s ≠ t →
    s.text g ≠ t.text g ∧ Trail.goesOn (s.text g) (t.text g) = false
  unbracketed : ∀ s ∈ g.starts, (s.text g).toList.head? ≠ some '['
  fields : ∀ i < g.size, (g.node i).kind.tag = .object →
    ∀ x ∈ g.fieldNames i, ∀ y ∈ g.fieldNames i, Trail.goesOn x y = false

/-- Below a keyed schema, no mark is empty. -/
theorem Forest.text_markOf_ne (forest : g.Forest) (keyed : (g.node p).kind.isKeyed = true)
    (child : c ∈ (g.node p).children) : (g.markOf p c).text ++ text ≠ "" := by
  intro empty
  have none := congrArg String.toList empty
  have admits := forest.admits child
  unfold markOf at none
  cases kind : (g.node p).kind <;> rw [kind] at keyed admits none <;> try cases keyed
  · cases admits
  all_goals
    rw [Trail.Mark.text, String.toList_append, String.toList_append] at none
    cases none

theorem markOf_of_narrow (c c' : Nat) (narrow : (g.node n).kind.isNarrow = true)
    (twins : g.Twins d n m) : g.markOf n c = g.markOf m c' := by
  unfold markOf
  obtain same | ⟨shape, required, required', kind, kind'⟩ := twins.kind
  · rw [← same]
    cases kind : (g.node n).kind <;> rw [kind] at narrow <;> first | rfl | cases narrow
    next shape _ => cases shape <;> rfl
  · rw [kind, kind']
    cases shape <;> rfl

/-- The number of the mark of a branch. -/
theorem text_markOf_of_composition (composition : (g.node p).kind.isComposition = true)
    (here : (g.node p).children[place]? = some c) (forest : g.Forest) :
    (g.markOf p c).text = "#" ++ toString place := by
  have nodup : (g.node p).children.Nodup := (forest.sorted p).imp Nat.ne_of_lt
  obtain ⟨lt, rfl⟩ := List.getElem?_eq_some_iff.mp here
  unfold markOf
  cases kind : (g.node p).kind <;> rw [kind] at composition <;> try cases composition
  all_goals
    rw [Trail.Mark.text, nodup.idxOf_getElem]

/-- Below an object a child is marked by its name. -/
@[simp] theorem text_markOf_of_object (object : (g.node p).kind.tag = .object) (c : Nat) :
    (g.markOf p c).text = "." ++ (g.node c).name := by
  unfold markOf
  cases kind : (g.node p).kind <;> rw [kind] at object <;> first | rfl | cases object

/-- Fields of twins whose marks begin the same text stand at one place. -/
theorem Twins.place_of_field (twins : g.Twins d n m) (derived : g.Derived d) (forest : g.Forest)
    (keys : d.HasDistinctKeys) (legible : g.IsLegible) {a b k k' : Nat}
    (object : (g.node n).kind.tag = .object) (object' : (g.node m).kind.tag = .object)
    (here : (g.node n).children[k]? = some a) (there : (g.node m).children[k']? = some b)
    (open_ : Trail.IsOpen text) (open' : Trail.IsOpen text')
    (same : (g.markOf n a).text ++ text = (g.markOf m b).text ++ text') :
    k = k' ∧ text = text' := by
  obtain ⟨name, _, field, -, -, -, -, named⟩ := derived.field_of_child forest object here
  obtain ⟨name', _, field', -, -, -, -, named'⟩ := derived.field_of_child forest object' there
  rw [← twins.schema] at field'
  rw [text_markOf_of_object object, text_markOf_of_object object', named, named',
    String.append_assoc, String.append_assoc, String.append_right_inj] at same
  have inside : n < g.size := lt_size_of_child (List.mem_of_getElem? here)
  have stops := legible.fields n inside object
  have mem : name ∈ g.fieldNames n := List.mem_map_of_mem (List.mem_of_getElem? field)
  have mem' : name' ∈ g.fieldNames n := List.mem_map_of_mem (List.mem_of_getElem? field')
  obtain ⟨rfl, texts⟩ := Trail.eq_of_append open_ open' (stops _ mem _ mem')
    (stops _ mem' _ mem) same
  have notBare : ¬(g.node n).kind.IsBare := Kind.not_isBare_of_isOwner (by
    cases kind : (g.node n).kind <;> rw [kind] at object <;> first | rfl | cases object)
  exact ⟨derived.place_of_name forest keys inside notBare field field', texts⟩

/-- So do branches, which are numbered. -/
theorem Twins.place_of_branch (forest : g.Forest) {a b k k' : Nat}
    (composition : (g.node n).kind.isComposition = true)
    (composition' : (g.node m).kind.isComposition = true)
    (here : (g.node n).children[k]? = some a) (there : (g.node m).children[k']? = some b)
    (open_ : Trail.IsOpen text) (open' : Trail.IsOpen text')
    (same : (g.markOf n a).text ++ text = (g.markOf m b).text ++ text') :
    k = k' ∧ text = text' := by
  rw [text_markOf_of_composition composition here forest,
    text_markOf_of_composition composition' there forest, String.append_assoc,
    String.append_assoc, String.append_right_inj] at same
  obtain ⟨number, texts⟩ := Trail.eq_of_append open_ open' (Trail.not_goesOn_toString _ _)
    (Trail.not_goesOn_toString _ _) same
  exact ⟨Naming.toString_inj number, texts⟩

/-- Twins go on to the same place, if what is spelt below them is the same. -/
theorem Twins.same_place (twins : g.Twins d n m) (derived : g.Derived d) (forest : g.Forest)
    (keys : d.HasDistinctKeys) (legible : g.IsLegible) {c' : Nat}
    (child : c ∈ (g.node n).children) (child' : c' ∈ (g.node m).children)
    (inner : (g.node n).kind.tag ≠ .operation) (open_ : Trail.IsOpen text)
    (open' : Trail.IsOpen text')
    (same : (g.markOf n c).text ++ text = (g.markOf m c').text ++ text') :
    ∃ k : Nat, (g.node n).children[k]? = some c ∧ (g.node m).children[k]? = some c' ∧
      text = text' := by
  cases narrow : (g.node n).kind.isNarrow with
  | true =>
    have narrow' : (g.node m).kind.isNarrow = true := by
      obtain same | ⟨shape, _, _, -, kind'⟩ := twins.kind
      · rw [← same, narrow]
      · rw [kind']
        rfl
    rw [markOf_of_narrow c c' narrow twins] at same
    exact ⟨0, forest.child_of_narrow narrow child, forest.child_of_narrow narrow' child',
      (String.append_right_inj _).mp same⟩
  | false =>
    have kinds : (g.node n).kind = (g.node m).kind := by
      obtain same | ⟨shape, _, _, kind, -⟩ := twins.kind
      · exact same
      · rw [kind] at narrow
        cases narrow
    obtain ⟨k, here⟩ := List.mem_iff_getElem?.mp child
    obtain ⟨k', there⟩ := List.mem_iff_getElem?.mp child'
    have admits := forest.admits child
    have rest : k = k' ∧ text = text' → ∃ k : Nat, (g.node n).children[k]? = some c ∧
        (g.node m).children[k]? = some c' ∧ text = text' := fun ⟨places, texts⟩ =>
      ⟨k, here, places ▸ there, texts⟩
    cases kind : (g.node n).kind with
    | object =>
      have object : (g.node n).kind.tag = .object := by rw [kind]; rfl
      exact rest
        (twins.place_of_field derived forest keys legible object (kinds ▸ object) here there
        open_ open' same)
    | composed | union =>
      have composition : (g.node n).kind.isComposition = true := by rw [kind]; rfl
      exact rest (Twins.place_of_branch forest composition (kinds ▸ composition) here there
        open_ open' same)
    | operation =>
      rw [kind] at inner
      exact absurd rfl inner
    | scalar | enum | circular =>
      rw [kind] at admits
      cases admits
    | _ =>
      rw [kind] at narrow
      cases narrow

/-- From twins down, the same text leads to twins. -/
theorem Spells.twins (derived : g.Derived d) (forest : g.Forest) (keys : d.HasDistinctKeys)
    (legible : g.IsLegible) (spells : g.Spells n text a) (spells' : g.Spells m text' b)
    (same : text = text') (twins : g.Twins d n m) (keyed : (g.node a).kind.isKeyed = true)
    (keyed' : (g.node b).kind.isKeyed = true) : g.Twins d a b := by
  have akin : ∀ {n m}, g.Twins d n m → (g.node n).kind.isKeyed = true →
      (g.node m).kind.isKeyed = true := fun twins keyed => by
    obtain same | ⟨_, _, _, kind, -⟩ := twins.kind
    · rwa [← same]
    · rw [kind] at keyed
      cases keyed
  induction spells generalizing m text' with
  | here =>
    cases spells' with
    | here => exact twins
    | on child => exact absurd same.symm (forest.text_markOf_ne (akin twins keyed) child)
  | on child inner plain rest ih =>
    cases spells' with
    | here => exact absurd same (forest.text_markOf_ne (akin twins.symm keyed') child)
    | on child' inner' plain' rest' =>
      obtain ⟨k, here, there, texts⟩ :=
        twins.same_place derived forest keys legible child child' inner
        rest.isOpen rest'.isOpen same
      refine ih rest' texts ?_ keyed
      exact derived.twins forest here there (rest.not_isBare forest keyed)
        (rest'.not_isBare forest keyed') inner inner' twins.holds (twins.props k)

/-! ## What an id says -/

/-- A trail with no marks starts at a root or at a part of an operation. -/
theorem Forest.part_of_trail (forest : g.Forest) {j : Nat} (trail : g.trail i = ⟨.part j, []⟩) :
    j = i ∧ ((g.node i).parent = none ∨ ∃ p, i ∈ (g.node p).children ∧
      (g.node p).kind.tag = .operation) := by
  cases parent : (g.node i).parent with
  | none =>
    rw [trail_of_root parent] at trail
    cases trail
    exact ⟨rfl, .inl rfl⟩
  | some p =>
    have child := forest.child parent
    cases forest.trail_of_child child with
    | component _ trail' =>
      rw [trail] at trail'
      cases trail'
    | part tag trail' =>
      rw [trail] at trail'
      cases trail'
      exact ⟨rfl, .inr ⟨p, child, tag⟩⟩
    | on _ _ trail' =>
      rw [trail] at trail'
      exact absurd (congrArg Trail.marks trail').symm (Trail.add_ne_nil _ _)

/-- The node from which a keyed one is spelt is no operation. -/
theorem Spells.inner (spells : g.Spells p text i) (keyed : (g.node i).kind.isKeyed = true) :
    (g.node p).kind.tag ≠ .operation := by
  cases spells with
  | here =>
    intro operation
    cases kind : (g.node i).kind <;> rw [kind] at keyed operation <;>
      first | exact Tag.noConfusion operation | cases keyed
  | on _ inner => exact inner

theorem Spells.inside (spells : g.Spells p text i) (keyed : (g.node i).kind.isKeyed = true) :
    p < g.size := by
  cases spells with
  | here =>
    refine lt_size_of_ne fun nowhere => ?_
    rw [nowhere] at keyed
    cases keyed
  | on child => exact lt_size_of_child child

/-- The trail of a keyed schema starts where trails may start. -/
theorem Derived.start_mem (derived : g.Derived d) (forest : g.Forest) (spelt : g.SpeltFrom h text i)
    (keyed : (g.node i).kind.isKeyed = true) : (g.trail i).start ∈ g.starts := by
  obtain ⟨head, spells, -⟩ := spelt
  refine List.mem_filterMap.mpr ?_
  cases start : (g.trail i).start with
  | component pointer =>
    rw [start] at head
    obtain ⟨p, -, kind⟩ := forest.reference_of_trail head
    have inside : p < g.size := lt_size_of_not_array (by rw [kind]; rfl)
    exact ⟨p, List.mem_range.mpr inside, by rw [kind]⟩
  | part j =>
    rw [start] at head
    obtain ⟨rfl, top | ⟨p, child, operation⟩⟩ := forest.part_of_trail head
    · exact absurd (derived.root (spells.inside keyed) top).tag (spells.inner keyed)
    · have admits := forest.admits child
      refine ⟨j, List.mem_range.mpr (forest.below child).2, ?_⟩
      cases kind : (g.node p).kind <;> rw [kind] at operation admits <;> try cases operation
      cases kind : (g.node j).kind <;> rw [kind] at admits <;> first | rfl | cases admits

/-- What a node holds for a place is one fragment. -/
theorem Forest.holds_unique (forest : g.Forest) {f f' : Json} (first : g.Holds d a place f)
    (second : g.Holds d a place f') : f = f' := by
  have property : ∀ {owner k : Nat} {x : String × Json}, (g.node owner).children[k]? = some a →
      (g.node owner).propAt? k = some x → (g.node a).kind.isProperty = true :=
      fun {owner k x} child here => by
    have owns := Node.isOwner_of_propAt? here
    have admits := forest.admits (List.mem_of_getElem? child)
    cases kind : (g.node owner).kind <;> rw [kind] at owns admits <;> try cases owns
    · exact admits
    · next shape _ =>
      cases shape <;> first | exact admits | cases owns
  by_cases prop : (g.node a).kind.isProperty = true
  · cases first with
    | own here =>
      obtain ⟨shape, required, kind⟩ := Kind.eq_property_of_isProperty prop
      rw [Document.fragmentAt?, kind] at here
      cases here
    | wrapped child here =>
      obtain ⟨_, there⟩ := forest.propAt?_of_holds prop child second
      rw [here, Option.some.injEq, Prod.mk.injEq] at there
      exact there.2
  · cases first with
    | wrapped child here => exact absurd (property child here) prop
    | own here =>
      cases second with
      | wrapped child here => exact absurd (property child here) prop
      | own there => exact Option.some_inj.mp (here.symm.trans there)

/-- Where two trails start alike, they start at twins. -/
theorem Derived.twins_of_start (derived : g.Derived d) (forest : g.Forest) {start : Trail.Start}
    (head : g.trail n = ⟨start, []⟩) (head' : g.trail m = ⟨start, []⟩)
    (open_ : ¬(g.node n).kind.IsBare) (open' : ¬(g.node m).kind.IsBare) : g.Twins d n m := by
  cases start with
  | part j =>
    obtain ⟨rfl, -⟩ := forest.part_of_trail head
    obtain ⟨rfl, -⟩ := forest.part_of_trail head'
    exact ⟨rfl, .inl rfl, forest.holds_unique, fun _ => rfl⟩
  | component pointer =>
    obtain ⟨p, child, kind⟩ := forest.reference_of_trail head
    obtain ⟨q, child', kind'⟩ := forest.reference_of_trail head'
    refine derived.twins forest (forest.child_of_narrow (by rw [kind]; rfl) child)
      (forest.child_of_narrow (by rw [kind']; rfl) child')
        open_ open' ?_ ?_ (fun first second => ?_) ?_
    · rw [kind]
      exact Tag.noConfusion
    · rw [kind']
      exact Tag.noConfusion
    · have here := forest.fragmentAt?_of_holds (by rw [kind]; rfl) first
      have there := forest.fragmentAt?_of_holds (by rw [kind']; rfl) second
      rw [Document.fragmentAt?, kind] at here
      rw [Document.fragmentAt?, kind'] at there
      exact Option.some_inj.mp (here.symm.trans there)
    · rw [Node.propAt?, kind, Node.propAt?, kind']

/-- The discriminant is the name of a component, or a text in brackets. -/
theorem discriminant_cases (t : Trail) : (t.marks = [] ∧ t.discriminant g = t.start.text g) ∨
    t.discriminant g = "[" ++ t.text g ++ "]" := by
  unfold Trail.discriminant
  split
  · next start marks => exact .inl ⟨marks, by rw [start]; rfl⟩
  · exact .inr rfl

/-- In a legible graph, discriminants tell texts. -/
theorem IsLegible.text_eq (legible : g.IsLegible) {t t' : Trail} (mem : t.start ∈ g.starts)
    (mem' : t'.start ∈ g.starts) (same : t.discriminant g = t'.discriminant g) :
    t.text g = t'.text g := by
  have bracketed : ∀ {t u : Trail}, t.start ∈ g.starts →
      t.start.text g ≠ "[" ++ u.text g ++ "]" := fun {t u} mem same => by
    refine legible.unbracketed _ mem ?_
    rw [same, String.append_assoc, String.toList_append]
    rfl
  have bare : ∀ {t : Trail}, t.marks = [] → t.text g = t.start.text g := fun {t} none => by
    obtain ⟨start, marks⟩ := t
    subst none
    cases start <;> exact String.append_empty
  obtain ⟨none, disc⟩ | disc := discriminant_cases (g := g) t <;>
    obtain ⟨none', disc'⟩ | disc' := discriminant_cases (g := g) t' <;> rw [disc, disc'] at same
  · rw [bare none, bare none', same]
  · exact absurd same (bracketed mem)
  · exact absurd same.symm (bracketed mem')
  · rw [String.append_assoc, String.append_assoc, String.append_right_inj,
      String.append_left_inj] at same
    exact same

/-- In a legible graph, schemas of the same id are twins. -/
theorem Firm.twins_of_id (firm : g.Firm d) (keys : d.HasDistinctKeys) (legible : g.IsLegible)
    (keyed : (g.node a).kind.isKeyed = true) (keyed' : (g.node b).kind.isKeyed = true)
    (same : g.idAt a = g.idAt b) : g.Twins d a b := by
  have plain : ∀ {k : Kind}, k.isKeyed = true → k.isProperty = false := fun {k} keyed => by
    cases k <;> first | rfl | cases keyed
  obtain ⟨forest, derived, -⟩ := firm
  have disc := (Kind.idOf_inj (plain keyed) (plain keyed') same).2
  rw [derived.discriminant_eq forest keyed, derived.discriminant_eq forest keyed'] at disc
  obtain ⟨n, text, spelt⟩ := forest.exists_speltFrom a
  obtain ⟨m, text', spelt'⟩ := forest.exists_speltFrom b
  have mem := derived.start_mem forest spelt keyed
  have mem' := derived.start_mem forest spelt' keyed'
  have whole := legible.text_eq mem mem' disc
  rw [spelt.whole, spelt'.whole] at whole
  by_cases alike : (g.trail a).start = (g.trail b).start
  · rw [alike, String.append_right_inj] at whole
    have heads := derived.twins_of_start forest (alike ▸ spelt.head) spelt'.head
      (spelt.spells.not_isBare forest keyed) (spelt'.spells.not_isBare forest keyed')
    exact spelt.spells.twins derived forest keys legible spelt'.spells whole heads keyed keyed'
  · obtain ⟨other, stops⟩ := legible.starts _ mem _ mem' alike
    obtain ⟨-, stops'⟩ := legible.starts _ mem' _ mem (Ne.symm alike)
    exact absurd (Trail.eq_of_append spelt.spells.isOpen spelt'.spells.isOpen stops stops' whole).1
      other

end Graph

namespace Run

variable {r : Run} {a b : Nat}

/-- Whatever calls were made, and whether they failed or not: as long as no name goes on where
another ends, objects, compositions and enums of the same id are made from the same. -/
theorem Attained.same_schema_of_id (attained : r.Attained d) (keys : d.HasDistinctKeys)
    (legible : r.graph.IsLegible) (keyed : (r.graph.node a).kind.isKeyed = true)
    (keyed' : (r.graph.node b).kind.isKeyed = true) (same : r.graph.idAt a = r.graph.idAt b) :
    (r.graph.node a).schema = (r.graph.node b).schema ∧
      (r.graph.node a).kind = (r.graph.node b).kind := by
  have twins := attained.firm.graph.twins_of_id keys legible keyed keyed' same
  refine ⟨twins.schema, twins.kind.resolve_right ?_⟩
  rintro ⟨_, _, _, kind, -⟩
  rw [kind] at keyed
  cases keyed

end Run

/-- An object with a component below two of its fields. -/
def Document.doubled : Document :=
  .answer (.objectSchema [("x", .refSchema "Base"), ("y", .refSchema "Base")])
    [("Base", .objectSchema [("z", .typeSchema "string")])]

/-- The component below the one field and below the other. -/
theorem doubled_same_schema : ∃ r : Run, r.Attained .doubled ∧ r.graph.IsLegible ∧
    r.graph.idAt 7 = r.graph.idAt 9 ∧ (r.graph.node 7).schema = (r.graph.node 9).schema := by
  have attained : Run.Attained .doubled _ := Run.Attained.start.call (.wildcard 0 .deep)
  have legible :
      Graph.IsLegible ((Call.wildcard 0 .deep).after .doubled (.ofDocument .doubled)).graph :=
    ⟨by decide +kernel, by decide +kernel, by decide +kernel⟩
  refine ⟨_, attained, legible, by decide +kernel, ?_⟩
  exact (attained.same_schema_of_id (by decide +kernel) legible (by decide +kernel)
    (by decide +kernel) (by decide +kernel)).1

/-- An object two names below another, and one whose name spells both. -/
def Document.dotted : Document :=
  .answer (.objectSchema [("a", .objectSchema [("b", .objectSchema [("x", .typeSchema "string")])]),
    ("a.b", .objectSchema [("y", .typeSchema "integer")])]) []

/-- Once all leaves are collected, both objects are there. -/
theorem dotted_same_id : ∃ r : Run, r.Answered .dotted ∧ Document.HasDistinctKeys .dotted ∧
    (r.graph.node 6).kind.isKeyed = true ∧ (r.graph.node 8).kind.isKeyed = true ∧
    r.graph.idAt 6 = r.graph.idAt 8 ∧ (r.graph.node 6).schema ≠ (r.graph.node 8).schema := by
  have answered : Run.Answered .dotted _ :=
    Run.Answered.start.after (c := .collect ["get:/a>**"]) (by decide +kernel)
  exact ⟨_, answered, by decide +kernel, by decide +kernel, by decide +kernel, by decide +kernel,
    fun same => absurd (congrArg (fun j => (sortedProperties j).map Prod.fst) same)
      (by decide +kernel)⟩

end RestGraph
