import RestGraph.Proofs.Graph.Enrolling
import RestGraph.Proofs.Schema.Attained

/-!
# Guided runs

A client that merges nothing but compositions, in any order and whether its calls fail or not,
leaves a sound graph behind. It may change what it keeps beside the graph, as its filter and its
frames, at any time.
-/

namespace RestGraph

variable {d : Document} {r s : Run} {i : Nat}

namespace Run

/-- The runs that calls lead to where nothing but compositions is merged. -/
inductive Guided (d : Document) : Run → Prop
  | start : Guided d (.ofDocument d)
  | call {r : Run} (c : Call)
      (apt : ∀ i, c = .consolidate i → (r.graph.node i).kind.isComposition = true)
      (before : Guided d r) : Guided d (c.after d r)
  /-- What is kept beside the graph is changed. -/
  | beside {r s : Run} (graph : s.graph = r.graph) (extent : s.extent = r.extent)
      (before : Guided d r) : Guided d s

def sounds (d : Document) : Course d where
  holds r := r.graph.Sound
  along r s := r.graph.Sound → s.graph.Sound
  preorder := { refl := fun _ => id, trans := fun _ _ _ first second => second ∘ first }
  keeps := id
  registry notes _ := notes.graph ▸ id
  visit _ h := fun sound => (Build.visit_sound sound).ends h

instance : (sounds d).Enduring where
  fails _ h := fun sound => (Build.visit_sound sound).fails h

instance : (sounds d).Bookless :=
  ⟨fun {r s} graph _ _ _ => show r.graph.Sound → s.graph.Sound from graph ▸ id⟩

instance : (sounds d).Frameless := ⟨id⟩

/-- Merging keeps a graph sound where it is that of a composition, also where it fails. -/
theorem sounds_consolidate (sound : r.graph.Sound)
    (composition : (r.graph.node i).kind.isComposition = true) :
    Comes (sounds d) id (Build.consolidate d i) r where
  ends h := (Build.consolidate_drafts h sound composition).1.sound
  fails h := by
    have inside : i < r.graph.size := Graph.lt_size_of_ne fun e => by
      rw [e] at composition
      cases composition
    obtain ⟨-, fails | ⟨s, visits, fails⟩⟩ := Build.fails_consolidate h
    · exact (Build.coming_visit (S := sounds d) sound).fails fails
    · have steps := (Build.visit_steps visits sound).1
      have marked : (s.marked i).graph.Sound :=
        (steps.sound sound).move (d := d) (.consolidate (inside.trans_le steps.grows.size_le))
      obtain ⟨u, along, given⟩ := (Build.coming_mergeLevels (S := sounds d) marked).fails fails
      exact ⟨u, fun lasting _ => along lasting marked, given⟩

def sounding (d : Document) : Routine d where
  toCourse := sounds d
  compose := sounds_consolidate

instance : (sounding d).toCourse.Enduring := inferInstanceAs (sounds d).Enduring

instance : (sounding d).toCourse.Frameless := inferInstanceAs (sounds d).Frameless

/-- The filter may be set at any time. -/
theorem Guided.setFilter (guided : r.Guided d) (f : PathFilter) : (r.setFilter f).Guided d :=
  .beside (r := r) rfl rfl guided

theorem Guided.sound (guided : r.Guided d) : r.graph.Sound := by
  induction guided with
  | start => exact Graph.ofDocument_sound d
  | @call r c apt _ sound =>
    cases c with
    | consolidate i =>
      exact (sounds_consolidate sound (apt i rfl)).map.along sound sound
    | _ =>
      exact ((Call.coming_of (S := sounding d) _ fun i other => by cases other)
        (s := r) sound).along sound sound
  | beside graph _ _ sound => exact graph ▸ sound

end Run

end RestGraph
