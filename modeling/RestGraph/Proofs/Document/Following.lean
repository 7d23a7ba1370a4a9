import RestGraph.Proofs.Graph.Moves

/-!
# Following references

Where references lead, told without the search for it. The search stops at a reference that it has
met before; then the way has no end, and every reference on it leads somewhere.
-/

namespace RestGraph

variable {d : Document} {k k' : Nat} {j e e' x y : Json} {met : List String}

/-! ## Ends -/

theorem Shape.ofSchema_of_ref? {schema : Json} {pointer : String}
    (ref : schema.ref? = some pointer) : ofSchema schema = .reference pointer := by
  rw [ofSchema, ref]

theorem Shape.ref?_of_reference {schema : Json} {pointer : String}
    (shape : ofSchema schema = .reference pointer) : schema.ref? = some pointer := by
  unfold ofSchema at shape
  split at shape
  · next found =>
    cases shape
    exact found
  · dsimp only at shape
    unfold structured plain at shape
    repeat' split at shape
    all_goals cases shape

namespace Document

/-- As many references as said lead from the first fragment to the second, which is none. -/
inductive Follows (d : Document) : Nat → Json → Json → Prop
  | here {j : Json} (plain : j.ref? = none) : Follows d 0 j j
  | next {k : Nat} {pointer : String} {j target e : Json} (ref : j.ref? = some pointer)
      (found : d.lookup? pointer = some target) (more : Follows d k target e) :
      Follows d (k + 1) j e

namespace Follows

/-- A chain of references ends at what is none. -/
theorem plain (follows : d.Follows k j e) : e.ref? = none := by
  induction follows with
  | here plain => exact plain
  | next _ _ _ ih => exact ih

/-- From a reference the way goes on from what it names. -/
theorem of_ref {pointer : String} (follows : d.Follows k j e) (ref : j.ref? = some pointer) :
    ∃ n target, k = n + 1 ∧ d.lookup? pointer = some target ∧ d.Follows n target e := by
  cases follows with
  | here plain =>
    rw [plain] at ref
    cases ref
  | next ref' found more =>
    rw [ref'] at ref
    cases ref
    exact ⟨_, _, rfl, found, more⟩

theorem steps_unique (first : d.Follows k j e) (second : d.Follows k' j e') : k = k' := by
  induction first generalizing k' with
  | here plain =>
    cases second with
    | here => rfl
    | next ref =>
      rw [plain] at ref
      cases ref
  | next ref found _ ih =>
    obtain ⟨n, target, rfl, found', more⟩ := second.of_ref ref
    rw [found, Option.some.injEq] at found'
    exact congrArg (· + 1) (ih (found' ▸ more))

end Follows

/-! ## Searches -/

/-- Where the references of a fragment lead, other than those that were met on the way to it: to the
first fragment that is none, or to the first that was met before. -/
inductive LeadsTo (d : Document) : List String → Json → Json → Prop
  | value {met : List String} {j : Json} (plain : j.ref? = none) : LeadsTo d met j j
  | again {met : List String} {j : Json} {pointer : String} (ref : j.ref? = some pointer)
      (known : pointer ∈ met) : LeadsTo d met j j
  | next {met : List String} {j target x : Json} {pointer : String} (ref : j.ref? = some pointer)
      (new : pointer ∉ met) (found : d.lookup? pointer = some target)
      (more : LeadsTo d (pointer :: met) target x) : LeadsTo d met j x

theorem leadsTo_of_followFrom {path : String} {fuel : Nat}
    (h : d.followFrom path fuel met j = .ok x) : d.LeadsTo met j x := by
  induction fuel generalizing met j with
  | zero => cases h
  | succ fuel ih =>
    cases turn_of_followFrom h with
    | value plain here =>
      cases here
      exact .value plain
    | again ref known here =>
      cases here
      exact .again ref known
    | gap _ _ fault => cases fault
    | next ref new found more => exact .next ref new found (ih more)

theorem LeadsTo.unique (first : d.LeadsTo met j x) (second : d.LeadsTo met j y) : x = y := by
  have same : ∀ {p q : String}, j.ref? = some p → j.ref? = some q → p = q := fun here there =>
    Option.some.inj (here.symm.trans there)
  induction first with
  | value plain =>
    cases second with
    | value | again => rfl
    | next ref => cases plain.symm.trans ref
  | again ref known =>
    cases second with
    | value | again => rfl
    | next ref' new =>
      cases same ref ref'
      exact absurd known new
  | next ref new found more ih =>
    cases second with
    | value plain => cases plain.symm.trans ref
    | again ref' known =>
      cases same ref ref'
      exact absurd known new
    | next ref' _ found' more' =>
      cases same ref ref'
      cases found.symm.trans found'
      exact ih more' fun here there => Option.some.inj (here.symm.trans there)

/-- A search that finds a fragment of another shape has followed the references to their end. -/
theorem LeadsTo.follows (leads : d.LeadsTo met j e) (plain : e.ref? = none) :
    ∃ k, d.Follows k j e := by
  induction leads with
  | value here => exact ⟨0, .here here⟩
  | again ref =>
    rw [ref] at plain
    cases plain
  | next ref _ found _ ih =>
    obtain ⟨k, more⟩ := ih plain
    exact ⟨k + 1, .next ref found more⟩

/-- Where the way has an end, the search finds it. -/
theorem Follows.eq_of_leadsTo (follows : d.Follows k j e) (leads : d.LeadsTo met j x)
    (known : ∀ p ∈ met, ∃ t n, d.lookup? p = some t ∧ d.Follows n t e ∧ k ≤ n) : x = e := by
  induction leads generalizing k with
  | value plain =>
    cases follows with
    | here => rfl
    | next ref =>
      rw [plain] at ref
      cases ref
  | again ref mem =>
    -- from a reference met before, the end would be as far away as it was then
    obtain ⟨n, target, rfl, found, more⟩ := follows.of_ref ref
    obtain ⟨t, n', found', more', le⟩ := known _ mem
    rw [found, Option.some.injEq] at found'
    subst found'
    exact absurd (more'.steps_unique more) (by omega)
  | next ref _ found _ ih =>
    obtain ⟨n, target, rfl, found', more⟩ := follows.of_ref ref
    rw [found, Option.some.injEq] at found'
    subst found'
    refine ih more fun p mem => ?_
    rcases List.mem_cons.mp mem with rfl | old
    · exact ⟨_, n, found, more, Nat.le_refl _⟩
    · obtain ⟨t, n', found', more', le⟩ := known p old
      exact ⟨t, n', found', more', Nat.le_of_succ_le le⟩

/-- A decisive schema that is no reference is at the end of a chain. -/
theorem Decides.follows (decides : d.Decides j e) (plain : e.ref? = none) :
    ∃ k, d.Follows k j e := by
  unfold Decides at decides
  split at decides
  · next ref =>
    subst decides
    exact ⟨0, .here ref⟩
  · next pointer ref =>
    obtain ⟨path, fuel, target, component, follow⟩ := decides
    obtain ⟨k, more⟩ := (leadsTo_of_followFrom follow).follows plain
    exact ⟨k + 1, .next ref (lookup?_of_component component) more⟩

/-- A fragment decides on one shape. -/
theorem Decides.unique {j x y : Json} (first : d.Decides j x) (second : d.Decides j y) : x = y := by
  unfold Decides at first second
  cases ref : j.ref? with
  | none =>
    rw [ref] at first second
    exact first.trans second.symm
  | some pointer =>
    rw [ref] at first second
    obtain ⟨_, _, target, component, follow⟩ := first
    obtain ⟨_, _, target', component', follow'⟩ := second
    have same : target = target' := Option.some_inj.mp
      ((lookup?_of_component component).symm.trans (lookup?_of_component component'))
    subst same
    exact (leadsTo_of_followFrom follow).unique (leadsTo_of_followFrom follow')

/-- The end of a chain is the decisive schema. -/
theorem Follows.eq_of_decides (follows : d.Follows k j e) (decides : d.Decides j x) : x = e := by
  unfold Decides at decides
  split at decides
  · next plain =>
    cases follows with
    | here => exact decides
    | next ref =>
      rw [plain] at ref
      cases ref
  · next pointer ref =>
    obtain ⟨path, fuel, target, component, follow⟩ := decides
    obtain ⟨n, target', -, found, more⟩ := follows.of_ref ref
    rw [lookup?_of_component component, Option.some.injEq] at found
    subst found
    exact more.eq_of_leadsTo (leadsTo_of_followFrom follow) nofun

/-! ## Gaps -/

/-- The references on the way from a fragment to the first that is none. -/
inductive Names (d : Document) (pointer : String) : Json → Prop
  | own {j : Json} (ref : j.ref? = some pointer) : Names d pointer j
  | later {j target : Json} {p : String} (ref : j.ref? = some p) (found : d.lookup? p = some target)
      (names : Names d pointer target) : Names d pointer j

/-- Every reference on the way leads somewhere. -/
def Resolves (d : Document) (j : Json) : Prop := ∀ pointer, d.Names pointer j →
    d.lookup? pointer ≠ none

variable {pointer p : String} {i z : Json}

/-- The way depends on the reference alone. -/
theorem Names.of_ref (names : d.Names pointer j) (ref : j.ref? = some p) (ref' : i.ref? = some p) :
    d.Names pointer i := by
  cases names with
  | own here => exact .own (ref'.trans (ref.symm.trans here))
  | later here found names => exact .later (ref'.trans (ref.symm.trans here)) found names

/-- Whether a reference resolves hangs on its pointer. -/
theorem Resolves.of_ref (resolves : d.Resolves j) (ref : j.ref? = some p) (ref' : i.ref? = some p) :
    d.Resolves i := fun q names => resolves q (names.of_ref ref' ref)

theorem resolves_of_plain (plain : j.ref? = none) : d.Resolves j := by
  rintro pointer (ref | ⟨ref, -, -⟩)
  all_goals
    rw [plain] at ref
    cases ref

theorem Resolves.of_target (ref : j.ref? = some p) (found : d.lookup? p = some x)
    (resolves : d.Resolves x) : d.Resolves j := by
  rintro pointer (here | ⟨here, found', names⟩)
  · rw [ref, Option.some.injEq] at here
    rw [← here, found]
    exact Option.some_ne_none x
  · rw [ref, Option.some.injEq] at here
    rw [← here, found, Option.some.injEq] at found'
    subst found'
    exact resolves pointer names

/-- What the search has met leads on to what it has met, or to where it is. -/
theorem LeadsTo.resolves (leads : d.LeadsTo met j x)
    (known : ∀ p ∈ met, ∃ t, d.lookup? p = some t ∧
      ∀ q, t.ref? = some q → q ∈ met ∨ j.ref? = some q) : d.Resolves j := by
  induction leads with
  | value plain => exact resolves_of_plain plain
  | @again met j pointer ref mem =>
    have own : ∀ {p}, j.ref? = some p → p ∈ met := fun here => by
      rw [ref, Option.some.injEq] at here
      exact here ▸ mem
    -- on the way from a reference that was met all that follows was met as well
    have stays : ∀ {y q}, d.Names q y → (∀ p, y.ref? = some p → p ∈ met) → q ∈ met := by
      intro y q names inside
      induction names with
      | own here => exact inside _ here
      | later here found _ ih =>
        obtain ⟨t, found', next⟩ := known _ (inside _ here)
        rw [found, Option.some.injEq] at found'
        subst found'
        exact ih fun p ref' => (next p ref').elim id own
    intro q names
    obtain ⟨t, found, -⟩ := known q (stays names fun p => own)
    rw [found]
    exact Option.some_ne_none t
  | next ref _ found _ ih =>
    refine .of_target ref found (ih fun p mem => ?_)
    rcases List.mem_cons.mp mem with rfl | old
    · exact ⟨_, found, fun q here => .inr here⟩
    · obtain ⟨t, found', next⟩ := known p old
      refine ⟨t, found', fun q here => .inl ?_⟩
      rcases next q here with old | back
      · exact List.mem_cons_of_mem _ old
      · rw [ref, Option.some.injEq] at back
        exact back ▸ List.mem_cons_self

theorem Decides.resolves (decides : d.Decides j x) : d.Resolves j := by
  unfold Decides at decides
  split at decides
  · next plain => exact resolves_of_plain plain
  · next pointer ref =>
    obtain ⟨path, fuel, target, component, follow⟩ := decides
    exact .of_target ref (lookup?_of_component component)
      ((leadsTo_of_followFrom follow).resolves nofun)

/-- A search that fails has met a reference without a target, unless it gives up. -/
theorem names_of_followFrom {path : String} {fuel : Nat} {seen : List String} {f : Fault}
    (h : d.followFrom path fuel seen j = .error f) : f = .depth ∨
      ∃ pointer, f = .reference pointer path ∧ d.Names pointer j ∧ d.lookup? pointer = none := by
  induction fuel generalizing seen j with
  | zero =>
    cases h
    exact .inl rfl
  | succ fuel ih =>
    cases turn_of_followFrom h with
    | value _ here | again _ _ here => cases here
    | gap ref lost fault =>
      cases fault
      exact .inr ⟨_, rfl, .own ref, lost⟩
    | next ref _ found more =>
      refine (ih more).imp_right ?_
      rintro ⟨q, fault, names, gap⟩
      exact ⟨q, fault, .later ref found names, gap⟩

/-! ## Elements within elements -/

/-- The references of the first fragment end at an array of the second. -/
def ElementOf (d : Document) (j items : Json) : Prop :=
  ∃ k array, d.Follows k j array ∧ Shape.ofSchema array = .array ∧ itemsOf? array = some items

/-- What the elements within the elements of a fragment are made from, and the fragment itself. -/
def Nests (d : Document) : Json → Json → Prop := Relation.ReflTransGen d.ElementOf

/-- Some reference on the way through the elements of a fragment leads nowhere. -/
def Lacks (d : Document) (j : Json) : Prop :=
  ∃ x pointer, d.Nests j x ∧ d.Names pointer x ∧ d.lookup? pointer = none

/-- The element of a reference hangs on its pointer. -/
theorem ElementOf.of_ref (element : d.ElementOf j z) (ref : j.ref? = some p)
    (ref' : i.ref? = some p) : d.ElementOf i z := by
  obtain ⟨k, array, follows, shape, items⟩ := element
  obtain ⟨n, target, -, found, more⟩ := follows.of_ref ref
  exact ⟨n + 1, array, .next ref' found more, shape, items⟩

/-- Where the references were searched, elements are made from what was found. -/
theorem ElementOf.of_decides (element : d.ElementOf j z) (decides : d.Decides j x) :
    Shape.ofSchema x = .array ∧ itemsOf? x = some z := by
  obtain ⟨k, array, follows, shape, items⟩ := element
  rw [follows.eq_of_decides decides]
  exact ⟨shape, items⟩

/-- The items of a decisive array are the element. -/
theorem Decides.elementOf (decides : d.Decides j x) (array : Shape.ofSchema x = .array)
    (items : itemsOf? x = some z) : d.ElementOf j z := by
  have plain : x.ref? = none := by
    cases ref : x.ref? with
    | none => rfl
    | some pointer =>
      rw [Shape.ofSchema_of_ref? ref] at array
      cases array
  obtain ⟨k, follows⟩ := decides.follows plain
  exact ⟨k, x, follows, array, items⟩

/-- Fragments without gaps whose elements are among them, except where a reference of the kind
`cut` is entered again. -/
structure Sealed (d : Document) (cut : String → Prop) (S : Set Json) : Prop where
  resolves : ∀ {j}, j ∈ S → d.Resolves j
  closed : ∀ {j z}, j ∈ S → d.ElementOf j z → z ∈ S ∨ ∃ p, j.ref? = some p ∧ cut p

variable {cut : String → Prop} {S : Set Json}

/-- Nothing is missing in a set that is sealed with no exceptions. -/
theorem Sealed.not_lacks (sealed : d.Sealed (fun _ => False) S) (mem : j ∈ S) : ¬d.Lacks j := by
  rintro ⟨x, pointer, nests, names, gap⟩
  have inside : x ∈ S := by
    clear names
    induction nests with
    | refl => exact mem
    | tail _ element ih => exact (sealed.closed ih element).resolve_right fun ⟨_, _, never⟩ => never
  exact sealed.resolves inside pointer names gap

/-- A fragment whose elements, if there are any, are entered again. -/
theorem Sealed.single (resolves : d.Resolves j)
    (ends : ∀ z, d.ElementOf j z → ∃ p, j.ref? = some p ∧ cut p) : d.Sealed cut {j} where
  resolves mem := Set.mem_singleton_iff.mp mem ▸ resolves
  closed mem element := by
    rw [Set.mem_singleton_iff.mp mem] at element ⊢
    exact .inr (ends _ element)

theorem Sealed.mono {cut' : String → Prop} (sealed : d.Sealed cut S)
    (weaker : ∀ p, cut p → cut' p) : d.Sealed cut' S where
  resolves := sealed.resolves
  closed mem element := (sealed.closed mem element).imp_right fun ⟨p, ref, again⟩ =>
    ⟨p, ref, weaker p again⟩

/-- A fragment around the others closes the cycles that lead back to it. -/
theorem Sealed.insert (sealed : d.Sealed (fun p => j.ref? = some p ∨ cut p) S)
    (resolves : d.Resolves j) (own : ∀ z, d.ElementOf j z → z ∈ S) :
    d.Sealed cut (insert j S) where
  resolves mem := by
    rcases Set.mem_insert_iff.mp mem with rfl | mem
    · exact resolves
    · exact sealed.resolves mem
  closed {i z} mem element := by
    rcases Set.mem_insert_iff.mp mem with rfl | mem
    · exact .inl (Set.mem_insert_of_mem _ (own z element))
    · rcases sealed.closed mem element with inside | ⟨p, ref, back | again⟩
      · exact .inl (Set.mem_insert_of_mem _ inside)
      · exact .inl (Set.mem_insert_of_mem _ (own z (element.of_ref ref back)))
      · exact .inr ⟨p, ref, again⟩

end Document

end RestGraph
