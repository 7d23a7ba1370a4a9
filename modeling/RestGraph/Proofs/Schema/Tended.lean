import RestGraph.Proofs.Graph.Leading
import RestGraph.Proofs.Schema.Responding

/-!
# Tended graphs

A client calls in any order and grafts fragments of its own, but never in the place of what a
wrapper has yet to get. Then the shape of every property, read off the end of its references when it
was made, agrees with where these references lead when they are followed one by one.
-/

namespace RestGraph

variable {d : Document} {P : Graph → Nat → Prop} {busy : Set Nat} {r s t : Run} {i p q : Nat}
  {shape : PropShape} {required : Bool}

namespace Run

/-- Wrappers were worked on as they should be, and the properties made meanwhile pass the test. -/
structure Weaves (d : Document) (P : Graph → Nat → Prop) (r s : Run) : Prop where
  along : r.graph.Weaves d ∅ s.graph
  new : ∀ q, r.graph.size ≤ q → q < s.graph.size → P s.graph q

theorem Weaves.of_same (graph : s.graph = r.graph) : r.Weaves d P s where
  along := graph ▸ .refl _
  new _ le lt := absurd lt (Nat.not_lt.mpr (graph ▸ le))

theorem Weaves.modify {f : Node → Node} (keep : ∀ n : Node, n.Keeps (f n))
    (kind : ∀ n, (f n).kind = n.kind) (children : ∀ n, (f n).children = n.children)
    (visited : ∀ n, (f n).visited = n.visited) :
      r.Weaves d P (r.onGraph fun g => g.modify i f) where
  along := .modify keep kind children visited
  new _ le lt := absurd lt (Nat.not_lt.mpr (Graph.size_modify.trans_le le))

/-- What passes the test still passes it after work on other wrappers. -/
def Stays (d : Document) (P : Graph → Nat → Prop) : Prop :=
  ∀ g h q, g.Weaves d ∅ h → q < g.size → P g q → P h q

theorem stays_housedAt : Stays d Graph.HousedAt := fun _ _ _ weaves inside housed =>
  housed.grow weaves.grown inside

theorem stays_fittedAt : Stays d Graph.FittedAt := fun _ _ q weaves inside fitted =>
  fitted.grow weaves.grown inside (weaves.kinds q inside)
    (weaves.kids q inside (Set.notMem_empty q))

theorem Stays.preorder (stays : Stays d P) : IsPreorder Run (Weaves d P) where
  refl _ := .of_same rfl
  trans _ s _ first second := ⟨first.along.trans second.along fun _ _ => id, fun q le lt =>
    (lt_or_ge q s.graph.size).elim
      (fun old => stays _ _ q second.along old (first.new q le old)) fun new => second.new q new lt⟩

def weave (stays : Stays d P) (visit : ∀ {r s i}, Ends (Build.visit d i) r ⟨⟩ s → r.Weaves d P s) :
    Course d where
  holds _ := True
  along := Weaves d P
  preorder := stays.preorder
  keeps _ _ := trivial
  registry notes _ := .of_same notes.graph
  visit _ h := visit h

variable {stays : Stays d P} {visit : ∀ {r s i}, Ends (Build.visit d i) r ⟨⟩ s → r.Weaves d P s}

instance : (weave stays visit).Bookless := ⟨fun graph _ _ _ => .of_same graph⟩

def weaving (stays : Stays d P)
    (visit : ∀ {r s i}, Ends (Build.visit d i) r ⟨⟩ s → r.Weaves d P s) : OpenRegime d where
  toCourse := weave stays visit
  consolidate _ := Build.coming_consolidate_of (S := weave stays visit)
    (fun _ => .modify (fun n => { Node.Keeps.refl n with consolidated := fun _ => rfl })
      (fun _ => rfl) (fun _ => rfl) fun _ => rfl)
    fun _ _ => .modify (fun n => { Node.Keeps.refl n with }) (fun _ => rfl) (fun _ => rfl)
      fun _ => rfl
  frames := .of_same rfl

/-- A visit weaves, also where it fails. -/
theorem visit_weaves : Along (Weaves d Graph.HousedAt) (Build.visit d i) r :=
  ⟨Build.visit_weaving.along, Build.visit_weaving.housed⟩

/-- Whatever the outcome, new properties have what they wrap. -/
def housing (d : Document) : OpenRegime d := weaving stays_housedAt visit_weaves.ends

instance : (housing d).toCourse.Enduring where
  fails _ h := visit_weaves.fails h

/-- Where a step ends, new properties have all that they should. -/
def fitting (d : Document) : OpenRegime d :=
  weaving stays_fittedAt fun h => ⟨Build.visit_weaving.ends h, Build.visit_weaving.fitted h⟩

/-- **Every call weaves.** -/
theorem weaves_after (c : Call) (r : Run) : r.Weaves d Graph.HousedAt (c.after d r) :=
  c.after_along (S := housing d) trivial

/-- What a client comes to from a run by calls, and by grafts onto nodes of the set. A wrapper gets
nothing grafted before it has what it wraps. -/
inductive Tends (d : Document) (busy : Set Nat) (r : Run) : Run → Prop
  | refl : Tends d busy r r
  | call {s : Run} (c : Call) (before : Tends d busy r s) : Tends d busy r (c.after d s)
  | graftSchema {s : Run} {parent : Nat} (schema : Json) (inside : parent < s.graph.size)
    (may : parent ∈ busy) (taken : s.graph.TakenAt parent) (before : Tends d busy r s) :
    Tends d busy r ((Build.graftSchema parent schema).run s).2
  | graftProp {s : Run} {owner : Nat} (name : String) (schema : Json) (required : Bool)
    (inside : owner < s.graph.size) (may : owner ∈ busy) (taken : s.graph.TakenAt owner)
    (before : Tends d busy r s) :
    Tends d busy r ((Build.graftProp d owner name schema required).run s).2

/-- A step that makes properties and does not fail. -/
inductive Makes (d : Document) (r s : Run) : Prop
  | call (c : Call) (h : Ends (c.step d) r ⟨⟩ s)
  | graftProp {owner i : Nat} {name : String} {schema : Json} {required : Bool}
    (inside : owner < r.graph.size) (taken : r.graph.TakenAt owner)
    (h : Ends (Build.graftProp d owner name schema required) r i s)

theorem graftSchema_weaving {schema : Json} (inside : p < r.graph.size)
    (taken : r.graph.TakenAt p) : Build.Weaving d {p} r.graph (Build.graftSchema p schema) r :=
  .after (Build.ends_widen r schema) <|
    Build.fromSchema_weaving (r := r.widen schema) inside (Build.suits_of_taken taken)

theorem graftProp_weaving {name : String} {schema : Json} (inside : p < r.graph.size)
    (taken : r.graph.TakenAt p) :
    Build.Weaving d {p} r.graph (Build.graftProp d p name schema required) r :=
  .after (Build.ends_widen r schema) <|
    Build.fromProp_weaving (r := r.widen schema) inside taken

theorem Tends.weaves (tends : r.Tends d busy s) : r.graph.Weaves d busy s.graph := by
  have only : ∀ {p i : Nat}, p ∈ busy → i ∈ ({p} : Set Nat) → i ∈ busy := fun may mem =>
    Set.mem_singleton_iff.mp mem ▸ may
  induction tends with
  | refl => exact .refl _
  | call c _ before =>
    exact before.trans (weaves_after c _).along fun _ _ none => absurd none (Set.notMem_empty _)
  | graftSchema _ inside may taken _ before =>
    exact before.trans (graftSchema_weaving inside taken).along fun _ _ => only may
  | graftProp _ _ _ inside may taken _ before =>
    exact before.trans (graftProp_weaving inside taken).along fun _ _ => only may

/-- What is tended stays woven. -/
theorem Tends.woven (tends : r.Tends d busy s) (woven : r.graph.Woven d) : s.graph.Woven d := by
  induction tends with
  | refl => exact woven
  | call c _ before => exact before.weave (weaves_after c _).along (weaves_after c _).new
  | graftSchema _ inside _ taken _ before => exact (graftSchema_weaving inside taken).woven before
  | graftProp _ _ _ inside _ taken _ before => exact (graftProp_weaving inside taken).woven before

/-- What is made stays woven. -/
theorem Makes.woven (makes : r.Makes d s) (woven : r.graph.Woven d) : s.graph.Woven d := by
  cases makes with
  | call c h =>
    have after := (c.coming (S := housing d) trivial).ends h
    exact woven.weave after.along after.new
  | graftProp inside taken h => exact (graftProp_weaving inside taken).woven_of_ends woven h

/-- What is made fits. -/
theorem Makes.fitted (makes : r.Makes d s) (new : r.graph.size ≤ q) (inside : q < s.graph.size) :
    s.graph.FittedAt q := by
  cases makes with
  | call c h => exact ((c.coming (S := fitting d) trivial).ends h).new q new inside
  | graftProp within taken h => exact (graftProp_weaving within taken).fitted h q new inside

/-- The run of a document starts woven. -/
theorem woven_ofDocument (d : Document) : (ofDocument d).graph.Woven d := by
  have operation : ∀ i < (ofDocument d).graph.size,
      ((ofDocument d).graph.node i).kind.tag = .operation := fun i lt =>
    (Graph.unvisited_ofDocument d i lt).1
  refine ⟨fun p c wrapper _ => ?_, fun i done => ?_, fun q lt prop => ?_⟩
  · by_cases inside : p < (ofDocument d).graph.size
    · have tag := operation p inside
      cases kind : ((ofDocument d).graph.node p).kind <;> rw [kind] at tag wrapper <;>
        first | exact Tag.noConfusion tag | exact Bool.noConfusion wrapper
    · rw [Graph.node_of_size_le (Nat.le_of_not_lt inside)] at wrapper
      cases wrapper
  · have free := (Graph.unvisited_ofDocument d i done.1).2
    exact Bool.noConfusion (free.symm.trans done.2)
  · rw [Node.isProperty, Kind.isProperty, operation q lt] at prop
    cases prop

/-- A property that a step has made is of its shape for good. Followed at any later time, it leads
to what the shape says, or to where a cycle is closed; and it has the children that the shape asks
for unless a client adds more. -/
theorem Tends.property_leads (before : (ofDocument d).Tends d Set.univ r) (makes : r.Makes d s)
    (after : s.Tends d busy t) (new : r.graph.size ≤ q) (inside : q < s.graph.size)
    (kind : (s.graph.node q).kind = .property shape required) :
    (t.graph.node q).kind = .property shape required ∧
      (∀ e u, Ends (Build.resolveTarget d q) t e u → u.graph.EndsAs q shape e) ∧
      (q ∉ busy → t.graph.FittedAt q) := by
  have weaves := after.weaves
  have kind' := (weaves.kinds q inside).trans kind
  refine ⟨kind', fun e u h => ?_, fun free => ?_⟩
  · have woven := after.woven (makes.woven (before.woven (woven_ofDocument d)))
    exact Build.resolveTarget_leads woven (inside.trans_le weaves.grown.size_le) kind' h
  · exact (makes.fitted new inside).grow weaves.grown inside (weaves.kinds q inside)
      (weaves.kids q inside free)

end Run

/-- A type with an enum behind two references, and rows of a composition behind one. -/
def Document.assorted : Document :=
  .answer (.refSchema "Node") [
    ("Node", .objectSchema [("kind", .refSchema "Alias"),
      ("rows", .arraySchema (.refSchema "Base"))]),
    ("Alias", .refSchema "Color"),
    ("Color", .object [("type", .text "string"), ("enum", .list [.text "red"])]),
    ("Base", .allOfSchema [.objectSchema []])]

/-- Whether a kind is that of a property of a shape that is not required. -/
def Kind.isOptional (shape : PropShape) : Kind → Bool
  | .property shape' required => shape' == shape && !required
  | _ => false

theorem Kind.eq_of_isOptional {shape : PropShape} {k : Kind}
    (optional : k.isOptional shape = true) : k = .property shape false := by
  cases k with
  | property shape' required =>
    simp only [isOptional, Bool.and_eq_true, beq_iff_eq, Bool.not_eq_true'] at optional
    rw [optional.1, optional.2]
  | _ => cases optional

/-- Rows get one more element, and the branches below the others are merged; the field behind two
references still leads to the enum. -/
theorem assorted_leads : ∃ s t e u, (Run.ofDocument .assorted).Makes .assorted s ∧
    s.Tends .assorted {6} t ∧ Ends (Build.resolveTarget .assorted 4) t e u ∧
    u.graph.EndsAs 4 .enum e ∧ t.graph.FittedAt 4 := by
  let s : Run := Call.after .assorted (.ofDocument .assorted) (.visit 0)
  have passes : Ends.passes (Call.step .assorted (.visit 0)) (.ofDocument .assorted) (fun _ s =>
      decide (6 < s.graph.size) && !(s.graph.node 6).kind.isWrapper &&
        (s.graph.node 4).kind.isOptional .enum) = true := by decide +kernel
  obtain ⟨_, _, visits, shown⟩ := Ends.of_passes passes
  obtain rfl : s = _ := congrArg Prod.snd visits
  simp only [Bool.and_eq_true, decide_eq_true_eq, Bool.not_eq_true'] at shown
  obtain ⟨⟨within, bare⟩, shown⟩ := shown
  have kind := Kind.eq_of_isOptional shown
  have start : s.Tends .assorted {6} s := .refl
  have after := (start.graftProp "more" (.typeSchema "string") false within (Set.mem_singleton 6)
    (Graph.takenAt_of_plain bare)).call (.consolidate 8)
  have passes : Ends.passes (Build.resolveTarget .assorted 4) (Call.after .assorted
      ((Build.graftProp .assorted 6 "more" (.typeSchema "string") false).run s).2 (.consolidate 8))
      (fun _ _ => true) = true := by decide +kernel
  obtain ⟨e, u, ends, -⟩ := Ends.of_passes passes
  obtain ⟨-, leads, fitted⟩ := Run.Tends.property_leads .refl (.call _ visits) after
    (show _ ≤ 4 by decide +kernel) (by omega) kind
  exact ⟨s, _, e, u, .call _ visits, after, ends, leads e u ends, fitted (by decide)⟩

end RestGraph
