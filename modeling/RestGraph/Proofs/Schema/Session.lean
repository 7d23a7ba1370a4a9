import RestGraph.Proofs.Graph.Reached
import RestGraph.Proofs.Schema.Generating
import RestGraph.Proofs.Selection.Collecting

/-!
# Sessions

A client starts with the first graph of a description and visits, expands, resolves, collects and
generates in any order. Whatever it has reached by steps that did not fail is sound, and below each
operation that was visited every node was.
-/

namespace RestGraph

variable {d : Document} {r r' : Run} {c : Collection}

/-- A run and the current collection of a session. -/
inductive Session (d : Document) : Run → Collection → Prop
  | start : Session d (.ofDocument d) .empty
  | visit {r r' c u} (i : Nat) (before : Session d r c) (step : Ends (Build.visit d i) r u r') :
      Session d r' c
  | expand {r r' c children} (i : Nat) (before : Session d r c)
      (step : Ends (Build.childrenOf d i) r children r') : Session d r' c
  | resolve {r r' c target} (p : SelectionPath) (before : Session d r c)
      (step : Ends (Build.resolve d p) r target r') : Session d r' c
  | resolveLeaves {r r' c leaves} (p : SelectionPath) (before : Session d r c)
      (step : Ends (Build.resolveLeaves d p) r leaves r') : Session d r' c
  | wildcard {r r' c leaves} (i : Nat) (w : Wildcard) (before : Session d r c)
      (step : Ends (Build.leavesBelow d i w) r leaves r') : Session d r' c
  | collect {r r' c c'} (selections : List String) (before : Session d r c)
      (step : Ends (Build.collect d selections) r c' r') : Session d r' c'
  | generate {r r' c text} (s : Settings) (before : Session d r c)
      (step : Ends (Build.generate d c s) r text r') : Session d r' c

namespace Build

/-- A schema is written once its declarations are drafted. -/
theorem ends_generate {s : Settings} {text : String} (h : Ends (generate d c s) r text r') :
    ∃ t ops, Ends (draft d c) r (t, ops) r' ∧
      text = Text.trimEnd (Text.join "\n" (schemaLines d c s t ops)) ++ "\n" := by
  unfold generate at h
  obtain ⟨⟨t, ops⟩, u, drafted, written⟩ := Ends.bind_iff.mp h
  obtain ⟨rfl, rfl⟩ := Ends.pure_iff.mp written
  exact ⟨t, ops, drafted, rfl⟩

/-- Once declarations are drafted, a schema is written. -/
theorem exists_generate {t : Draft} {ops : List OperationDecl} (s : Settings)
    (h : Ends (draft d c) r (t, ops) r') : ∃ text, Ends (generate d c s) r text r' :=
  ⟨_, Ends.bind_iff.mpr ⟨(t, ops), r', h, Ends.pure_iff.mpr ⟨rfl, rfl⟩⟩⟩

end Build

namespace Run

/-- A run that a session may reach, with what was collected. -/
structure Ready (d : Document) (r : Run) (c : Collection) : Prop where
  moves : (Graph.ofDocument d).Moves d r.graph
  served : ∀ o, r.graph.ServedAt o
  collected : c.Sound r.graph
  ordered : c.operations.Sublist r.graph.roots

namespace Ready

/-- A session starts ready. -/
theorem ofDocument (d : Document) : (Run.ofDocument d).Ready d .empty where
  moves := .refl
  served := (Reached.ofDocument d).served
  collected := .empty _
  ordered := List.nil_sublist _

theorem sound (ready : r.Ready d c) : r.graph.Sound := (Graph.ofDocument_sound d).moves ready.moves

theorem derived (ready : r.Ready d c) : r.graph.Derived d :=
  (Graph.ofDocument_derived d).moves (Graph.ofDocument_sound d) ready.moves

theorem rooted (ready : r.Ready d c) : r.graph.Rooted :=
  (Graph.ofDocument_rooted d).moves ready.moves

theorem drafts (ready : r.Ready d c) (drafts : r.Drafts d r') : r'.Ready d c where
  moves := ready.moves.trans drafts.moves
  served o := drafts.served (ready.served o)
  collected := ready.collected.grow drafts.grows
  ordered := by
    rw [drafts.grows.roots]
    exact ready.ordered

/-- A session that collects is ready for more. -/
theorem collect {c' : Collection} {selections : List String} (ready : r.Ready d c)
    (step : Ends (Build.collect d selections) r c' r') : r'.Ready d c' := by
  obtain ⟨s, visits, rfl, collected, -⟩ := Build.collect_sound step ready.sound ready.rooted
  obtain ⟨c₀, s', -, rfl, same⟩ := Build.ends_collect.mp step
  refine ⟨ready.moves.trans visits.moves, fun o => visits.served (ready.served o), collected, ?_⟩
  rw [show s'.graph = s.graph from (congrArg Run.graph same).symm]
  exact List.filter_sublist

/-- The containers of a collection are what a draft is typed from. -/
theorem generated {t : Draft} {ops : List OperationDecl} (ready : r.Ready d c)
    (step : Ends (Build.draft d c) r (t, ops) r') :
    r' = t.run ∧ ∃ starts, t.Generated d c r ops starts :=
  Build.draft_generated step ready.sound ready.served
    fun j mem => (ready.collected.containers j mem).2

/-- A session that drafts is ready for more. -/
theorem draft {t : Draft} {ops : List OperationDecl} (ready : r.Ready d c)
    (step : Ends (Build.draft d c) r (t, ops) r') : r'.Ready d c := by
  obtain ⟨rfl, _, generated⟩ := ready.generated step
  exact ready.drafts generated.typed.grows.run

end Ready

end Run

/-- **Whatever a session does, it is ready for more.** -/
theorem Session.ready (session : Session d r c) : r.Ready d c := by
  induction session with
  | start => exact .ofDocument d
  | visit i _ step ready => exact ready.drafts (Build.visit_steps step ready.sound).1.drafts
  | expand i _ step ready =>
    obtain ⟨_, visit, -⟩ := Build.ends_childrenOf step
    exact ready.drafts (Build.visit_steps visit ready.sound).1.drafts
  | resolve p _ step ready => exact ready.drafts (Build.resolve_visits step ready.sound).drafts
  | resolveLeaves p _ step ready =>
    exact ready.drafts (Build.resolveLeaves_finds step ready.sound).visits.drafts
  | wildcard i w _ step ready =>
    exact ready.drafts (Build.leavesBelow_finds step ready.sound).visits.drafts
  | collect selections _ step ready => exact ready.collect step
  | generate s _ step ready =>
    obtain ⟨t, ops, step, -⟩ := Build.ends_generate step
    exact ready.draft step

/-! ## Small descriptions -/

namespace Json

def jsonContent (schema : Json) : Json :=
  .object [("content", .object [("application/json", .object [("schema", schema)])])]

/-- A schema with the given properties. -/
def objectSchema (properties : List (String × Json)) : Json :=
  .object [("type", .text "object"), ("properties", .object properties)]

def typeSchema (type : String) : Json := .object [("type", .text type)]

def arraySchema (items : Json) : Json := .object [("type", .text "array"), ("items", items)]

def allOfSchema (branches : List Json) : Json := .object [("allOf", .list branches)]

def refSchema (name : String) : Json :=
  .object [("$ref", .text ("#/components/schemas/" ++ name))]

end Json

/-- A description of operations, listed by path, and of components. -/
def Document.ofPaths (paths : List (String × Json)) (schemas : List (String × Json)) : Document :=
  ⟨.object [("openapi", .text "3.0.3"),
    ("info", .object [("title", .text "T"), ("version", .text "1")]),
    ("paths", .object paths),
    ("components", .object [("schemas", .object schemas)])]⟩

/-- A description of the operation `a`, which takes a body and answers. -/
def Document.exchange (request answer : Json) (schemas : List (String × Json)) : Document :=
  .ofPaths [("/a", .object [("post", .object [("operationId", .text "a"),
    ("requestBody", request.jsonContent),
    ("responses", .object [("200", answer.jsonContent)])])])] schemas

/-- A description of the operation `a`, which only answers. -/
def Document.answer (answer : Json) (schemas : List (String × Json)) : Document :=
  .ofPaths [("/a", .object [("get", .object [("operationId", .text "a"),
    ("responses", .object [("200", answer.jsonContent)])])])] schemas

end RestGraph
