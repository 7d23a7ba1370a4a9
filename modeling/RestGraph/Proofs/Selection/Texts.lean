import RestGraph.Proofs.Schema.Session
import RestGraph.Proofs.Selection.Addresses

/-!
# Texts of nodes

Whatever a session has built, the path text of a node leads back to it: ids on the way are told
apart by names, numbers and pointers. What no text can say are ids with a separator or with the
short form of a section in them, and which of two parameters of one name, or of two branches for one
component, is meant.
-/

namespace RestGraph

variable {d : Document} {r r' : Run} {c : Collection} {n : Nat}

/-- Once the nodes above a node can be visited, its text leads to it; no two nodes have one text,
and the paths of a collection are those of its leaves, one for each. -/
theorem Session.texts_address (session : Session d r c) (keys : d.HasDistinctKeys) :
    (∀ n r', r.graph.Addressable n →
      Ends ((r.graph.above n).forM (Build.visit d)) r ⟨⟩ r' →
      Ends (Build.resolve d (.ofText (r.graph.pathOf n))) r n r') ∧
    (∀ n, r.graph.Addressable n → (∀ a ∈ r.graph.ancestors n, (r.graph.node a).visited = true) →
      Ends (Build.resolve d (.ofText (r.graph.pathOf n))) r n r) ∧
    (∀ m n, r.graph.Addressable m → r.graph.Addressable n → r.graph.pathOf m = r.graph.pathOf n →
      m = n) ∧
    ((∀ l ∈ c.leaves, r.graph.Addressable l) →
      c.paths = c.leaves.map r.graph.pathOf ∧ c.paths.Nodup) := by
  have ready := session.ready
  have reaches : ∀ n r', r.graph.Addressable n →
      Ends ((r.graph.above n).forM (Build.visit d)) r ⟨⟩ r' →
      Ends (Build.resolve d (.ofText (r.graph.pathOf n))) r n r' := by
    intro n r' addressable visited
    have visits := Build.forM_visits visited ready.sound
    have grown := addressable.grow ready.sound visits.grows (visits.sound ready.sound)
    rw [← visits.grows.above addressable.inside] at visited
    rw [← visits.grows.pathOf addressable.inside]
    exact Build.ends_resolve_pathOf visited ready.sound
      ((Graph.ofDocument_rooted d).moves ready.moves).inside
      (grown.addressed (ready.moves.trans visits.moves) keys)
  have apart : ∀ m n, r.graph.Addressable m → r.graph.Addressable n →
      r.graph.pathOf m = r.graph.pathOf n → m = n := fun m n first second =>
    (first.addressed ready.moves keys).eq_of_pathOf (second.addressed ready.moves keys)
  refine ⟨reaches, fun n addressable visited => ?_, apart, fun leaves => ?_⟩
  · exact reaches n r addressable
      (Build.forM_of_visited fun a mem => visited a (List.mem_reverse.mp mem))
  · have nodup : (c.leaves.map r.graph.pathOf).Nodup :=
      List.Nodup.map_on (fun m own n other => apart m n (leaves m own) (leaves n other))
        ready.collected.distinct
    have paths := ready.collected.texts
    rw [Collection.foldl_addNew_of_nodup nodup, List.nil_append] at paths
    exact ⟨paths, paths ▸ nodup⟩

/-! ## Small descriptions -/

/-- The text of the node does not lead to it. -/
def Run.Loses (d : Document) (r : Run) (n : Nat) : Prop :=
  n < r.graph.size ∧ ∀ r', ¬Ends (Build.resolve d (.ofText (r.graph.pathOf n))) r n r'

def Run.loses (d : Document) (r : Run) (n : Nat) : Bool :=
  decide (n < r.graph.size) &&
    !Ends.passes (Build.resolve d (.ofText (r.graph.pathOf n))) r fun target _ => target == n

theorem Run.loses_of_loses (lost : r.loses d n = true) : r.Loses d n := by
  rw [loses, Bool.and_eq_true, decide_eq_true_eq, Bool.not_eq_true'] at lost
  refine ⟨lost.1, fun r' found => ?_⟩
  rw [Ends.passes_of found (beq_self_eq_true n)] at lost
  cases lost.2

/-- In some session there is a node whose text does not lead to it. -/
def Document.LosesNode (d : Document) : Prop := ∃ r c, Session d r c ∧ ∃ n, r.Loses d n

theorem Document.losesNode_of_resolve {path : String}
    (run : Ends.passes (Build.resolve d (.ofText path)) (.ofDocument d)
      (fun _ r => r.loses d n) = true) : d.LosesNode := by
  obtain ⟨_, r, found, lost⟩ := Ends.of_passes run
  exact ⟨r, .empty, .resolve _ .start found, n, Run.loses_of_loses lost⟩

/-- An operation with two parameters of one name. -/
def Document.sameNamed : Document :=
  .ofPaths [("/a", .object [("get", .object [("operationId", .text "a"),
    ("parameters", .list [.object [("name", .text "k"), ("in", .text "query")],
      .object [("name", .text "k"), ("in", .text "header")]]),
    ("responses", .object [("200", (Json.typeSchema "string").jsonContent)])])])] []

def Document.separated : Document := .answer (.objectSchema [("x>y", .typeSchema "string")]) []

def Document.repeated : Document :=
  .answer (.allOfSchema [.refSchema "Foo", .refSchema "Foo"])
    [("Foo", .objectSchema [("x", .typeSchema "string")])]

def Document.dangling : Document :=
  .answer (.objectSchema [("p", .allOfSchema [.refSchema "Foo"])]) []

def Document.named : Document := .answer (.objectSchema [("x", .typeSchema "string")]) []

/-- The leaf that is collected has the one path of the collection, which leads back to it. -/
theorem named_texts_address : Document.named.HasDistinctKeys ∧
    ∃ r c, Session .named r c ∧ ∃ n, c.leaves = [n] ∧ r.graph.Addressable n ∧
      Ends (Build.resolve .named (.ofText (r.graph.pathOf n))) r n r ∧
      c.paths = [r.graph.pathOf n] := by
  have keys : Document.named.HasDistinctKeys := by decide +kernel
  have run : Ends.passes (Build.collect .named ["get:/a>**"]) (.ofDocument .named) (fun c r =>
      decide (c.leaves = [3] ∧ r.graph.Addressable 3 ∧
        ∀ a ∈ r.graph.ancestors 3, (r.graph.node a).visited = true)) = true := by decide +kernel
  obtain ⟨c, r, collected, facts⟩ := Ends.of_passes run
  obtain ⟨leaves, addressable, visited⟩ := of_decide_eq_true facts
  have session : Session .named r c := .collect _ .start collected
  obtain ⟨-, leads, -, paths⟩ := session.texts_address keys
  refine ⟨keys, r, c, session, 3, leaves, addressable, leads 3 addressable visited, ?_⟩
  rw [leaves] at paths
  exact (paths fun l mem => List.mem_singleton.mp mem ▸ addressable).1

/-- A text fails a node below a name with a separator, a second parameter of one name or a second
branch for one component, and one below a property that cannot be visited. -/
theorem texts_fail : Document.separated.LosesNode ∧ Document.sameNamed.LosesNode ∧
    Document.repeated.LosesNode ∧ Document.dangling.LosesNode := by
  refine ⟨?_, ?_, ?_, ?_⟩
  · have run : Ends.passes (Build.resolve .separated (.ofText "get:/a>res:200>obj:[aResponse]"))
        (.ofDocument .separated) (fun _ r => r.loses .separated 3) = true := by decide +kernel
    exact Document.losesNode_of_resolve run
  · have run : Ends.passes (Build.resolve .sameNamed (.ofText "get:/a>param:k"))
        (.ofDocument .sameNamed) (fun _ r => r.loses .sameNamed 3) = true := by decide +kernel
    exact Document.losesNode_of_resolve run
  · have run : Ends.passes (Build.resolve .repeated (.ofText "get:/a>res:200>comp:[aResponse]"))
        (.ofDocument .repeated) (fun _ r => r.loses .repeated 6) = true := by decide +kernel
    exact Document.losesNode_of_resolve run
  · have run : Ends.passes
        (Build.resolve .dangling (.ofText "get:/a>res:200>obj:[aResponse]>prop:comp:p"))
        (.ofDocument .dangling) (fun _ r => r.loses .dangling 4) = true := by decide +kernel
    exact Document.losesNode_of_resolve run

end RestGraph
