import RestGraph.Proofs.Schema.Attempts
import RestGraph.Proofs.Schema.Generating
import RestGraph.Proofs.Schema.Session
import RestGraph.Proofs.Schema.Templates

/-!
# Arguments and references to them

The arguments of an operation are declared one after the other for its parameters and its body, each
under a name that no other has. The directive that is printed later refers to arguments only, finds
those of path parameters by their names on the wire, and leaves no required query parameter and no
header parameter out.
-/

namespace RestGraph

variable {d : Document} {c : Collection} {g h : Graph} {i p : Nat} {o o' : OperationDecl}

/-! ## What calls leave in place -/

/-- The course of graphs from which nothing is taken back. -/
def Run.extension (d : Document) : Course d where
  holds _ := True
  along r s := r.graph.Extends s.graph
  preorder := { refl := fun _ => .refl _, trans := fun _ _ _ => .trans }
  keeps _ _ := trivial
  registry notes _ := by
    rw [notes.graph]
    exact .refl _
  visit _ h := Run.Acts.extends (Build.visit_acts.ends h)

instance : (Run.extension d).Bookless where
  books {r s} graph _ _ _ := by
    change r.graph.Extends s.graph
    rw [graph]
    exact .refl _

def Run.extending (d : Document) : OpenRegime d where
  toCourse := Run.extension d
  consolidate _ := Build.coming_consolidate_of (S := Run.extension d)
    (fun _ => .modify { Node.Keeps.refl _ with consolidated := fun _ => rfl })
    fun _ _ => .modify { Node.Keeps.refl _ with }
  frames := .refl _

/-! ## Declarations -/

/-- The argument is declared for a parameter or a body. -/
inductive Graph.Declares (g : Graph) (p : Nat) (a : ArgDecl) : Prop
  | param {location : Location} (kind : (g.node p).kind = .param location a.required)
    (place : a.location = some location) (wire : a.wireName = (g.node p).name)
  | body (kind : (g.node p).kind = .body a.required) (place : a.location = none)

/-- The arguments of a root field that are declared for payloads of an operation. -/
structure Graph.Arguments (g : Graph) (payloads : List Nat) (o : OperationDecl) : Prop where
  /-- Every payload has its argument, in the same order. -/
  declared : List.Forall₂ g.Declares payloads o.args
  names : (o.args.map ArgDecl.name).Nodup
  identifiers : ∀ a ∈ o.args, Naming.isIdentifier a.name = true
  /-- The argument that carries the body is the one that is declared for it. -/
  carrier : ∀ b name, o.body = some (b, name) →
    ∃ a, (b, a) ∈ payloads.zip o.args ∧ a.location = none ∧ a.name = name
  carried : ∀ a ∈ o.args, a.location = none → o.body.isSome = true

theorem Graph.Extends.kind_of_payload (step : g.Extends h)
    (payload : Side.input.isPayload (g.node p).kind.tag = true) :
    (h.node p).kind = (g.node p).kind := by
  have inside : p < g.size := lt_size_of_ne fun nowhere => by
    rw [nowhere] at payload
    cases payload
  refine (step.keeps inside).kind.eq_of_not_isProperty ?_
  cases kind : (g.node p).kind <;> rw [kind] at payload <;> first | rfl | cases payload

namespace Graph.Declares

variable {a : ArgDecl}

theorem payload (declares : g.Declares p a) : Side.input.isPayload (g.node p).kind.tag = true := by
  cases declares with
  | param kind | body kind =>
    rw [kind]
    rfl

theorem along (declares : g.Declares p a) (step : g.Extends h) : h.Declares p a := by
  have kept := step.kind_of_payload declares.payload
  cases declares with
  | param kind place wire =>
    have inside : p < g.size := lt_size_of_ne fun nowhere => by
      rw [nowhere] at kind
      cases kind
    exact .param (kept.trans kind) place (wire.trans (step.keeps inside).name.symm)
  | body kind place => exact .body (kept.trans kind) place

end Graph.Declares

namespace Graph.Arguments

variable {payloads : List Nat} {a : ArgDecl}

/-- The arguments go on being those of their payloads as the graph grows. -/
theorem along (arguments : g.Arguments payloads o) (step : g.Extends h) : h.Arguments payloads o :=
  { arguments with declared := arguments.declared.imp fun _ _ declares => declares.along step }

/-- Nothing that the arguments depend on has changed. -/
theorem same (arguments : g.Arguments payloads o) (args : o'.args = o.args)
    (body : o'.body = o.body) : g.Arguments payloads o' := by
  obtain ⟨declared, names, identifiers, carrier, carried⟩ := arguments
  constructor <;> simp only [args, body] <;> assumption

theorem length_eq (arguments : g.Arguments payloads o) : payloads.length = o.args.length :=
  arguments.declared.length_eq

/-- One more argument has a name of its own. -/
theorem add (arguments : g.Arguments payloads o) (declares : g.Declares p a) {raw : String}
    (stem : Naming.IsStem raw) (name : a.name = Naming.unique (o.args.map ArgDecl.name) raw)
    (args : o'.args = o.args ++ [a])
    (body : o'.body = o.body ∧ a.location ≠ none ∨ o'.body = some (p, a.name) ∧ a.location = none) :
    g.Arguments (payloads ++ [p]) o' where
  declared := by
    rw [args]
    exact List.rel_append arguments.declared (.cons declares .nil)
  names := by
    rw [args, List.map_append, List.map_singleton, List.nodup_append]
    refine ⟨arguments.names, List.nodup_singleton _, fun x old y new same => ?_⟩
    rw [List.mem_singleton.mp new, name] at same
    exact Naming.unique_notMem _ _ (same ▸ old)
  identifiers x mem := by
    rw [args] at mem
    rcases List.mem_append.mp mem with old | new
    · exact arguments.identifiers x old
    · rw [List.mem_singleton.mp new, name]
      exact (stem.unique _).isIdentifier
  carrier b n carries := by
    have zip : (payloads ++ [p]).zip o'.args = payloads.zip o.args ++ [(p, a)] := by
      rw [args, List.zip_append arguments.length_eq]
      rfl
    rw [zip]
    rcases body with ⟨kept, -⟩ | ⟨given, place⟩
    · rw [kept] at carries
      obtain ⟨x, mem, place, named⟩ := arguments.carrier b n carries
      exact ⟨x, List.mem_append_left _ mem, place, named⟩
    · rw [given] at carries
      cases carries
      exact ⟨a, List.mem_append_right _ List.mem_cons_self, place, rfl⟩
  carried x mem unplaced := by
    rw [args] at mem
    rcases body with ⟨kept, placed⟩ | ⟨given, -⟩
    · rw [kept]
      rcases List.mem_append.mp mem with old | new
      · exact arguments.carried x old unplaced
      · rw [List.mem_singleton.mp new] at unplaced
        exact absurd unplaced placed
    · rw [given]
      rfl

end Graph.Arguments

/-! ## One child after the other -/

namespace Drafting

variable {s t : Draft} {payloads : List Nat}

/-- The graph is only extended from one step of a draft to the next. -/
theorem extends_of_coming {α : Type} {m : Drafting α} {a : α}
    (coming : Coming (Run.extending d).toCourse Draft.run m) (h : Ends m s a t) :
    s.run.graph.Extends t.run.graph :=
  (coming trivial).ends h

theorem isStem_input : Naming.IsStem "input" := ⟨by decide, List.all_eq_true.mp (by decide)⟩

/-- A child gets an argument exactly if it is a parameter or a body. -/
theorem addChild_arguments (step : Ends (addChild d c o i) s o' t)
    (arguments : s.run.graph.Arguments payloads o) : o'.path = o.path ∧
      ∃ more, t.run.graph.Arguments (payloads ++ more) o' ∧ more.Sublist [i] ∧
        (Side.input.isPayload (s.run.graph.node i).kind.tag = true → i ∈ more) := by
  have grows := extends_of_coming coming_addChild step
  have silent : s.run.graph.Arguments payloads o' → Side.input.isPayload
      (s.run.graph.node i).kind.tag = false → ∃ more, t.run.graph.Arguments (payloads ++ more) o' ∧
        more.Sublist [i] ∧ (Side.input.isPayload (s.run.graph.node i).kind.tag = true → i ∈ more) :=
    fun arguments other => ⟨[], by
      rw [List.append_nil]
      exact arguments.along grows, List.nil_sublist _, fun payload => by
        rw [other] at payload
        cases payload⟩
  cases addChild_cases step with
  | param kind type =>
    refine ⟨rfl, [i], ?_, .refl _, fun _ => List.mem_singleton_self i⟩
    refine (arguments.add ?_ (Naming.isStem_fieldName _) rfl rfl ?_).along grows
    · exact .param kind rfl rfl
    · exact .inl ⟨rfl, Option.some_ne_none _⟩
  | body kind type marks =>
    refine ⟨rfl, [i], ?_, .refl _, fun _ => List.mem_singleton_self i⟩
    refine (arguments.add ?_ isStem_input rfl rfl ?_).along grows
    · exact .body kind rfl
    · exact .inr ⟨rfl, rfl⟩
  | response kind | silent kind =>
    exact ⟨rfl, silent (arguments.same rfl rfl) (by rw [kind]; rfl)⟩
  | other noParam noBody noResponse =>
    refine ⟨rfl, silent arguments ?_⟩
    generalize (s.run.graph.node i).kind.tag = tag at noParam noBody
    cases tag <;> first | rfl | exact absurd rfl noParam | exact absurd rfl noBody

/-- The children of an operation add the arguments that they declare. -/
theorem addChildren_arguments {children : List Nat}
    (fold : Ends (children.foldlM (addChild d c) o) s o' t)
    (arguments : s.run.graph.Arguments payloads o) : s.run.graph.Extends t.run.graph ∧
      o'.path = o.path ∧ ∃ more, t.run.graph.Arguments (payloads ++ more) o' ∧
        more.Sublist children ∧ ∀ p ∈ children,
          Side.input.isPayload (s.run.graph.node p).kind.tag = true → p ∈ more := by
  induction children generalizing s o payloads with
  | nil =>
    rw [List.foldlM_nil] at fold
    obtain ⟨rfl, rfl⟩ := Ends.pure_iff.mp fold
    refine ⟨.refl _, rfl, [], ?_, .refl _, fun p none => absurd none List.not_mem_nil⟩
    rwa [List.append_nil]
  | cons p rest ih =>
    rw [List.foldlM_cons] at fold
    obtain ⟨o₁, u, first, fold⟩ := Ends.bind_iff.mp fold
    have grows := extends_of_coming coming_addChild first
    obtain ⟨path, own, arguments, sub, all⟩ := addChild_arguments first arguments
    obtain ⟨grows', path', more, arguments, sub', all'⟩ := ih fold arguments
    refine ⟨grows.trans grows', path'.trans path, own ++ more, ?_, sub.append sub',
      fun q mem payload => ?_⟩
    · rwa [← List.append_assoc]
    · rcases List.mem_cons.mp mem with rfl | later
      · exact List.mem_append_left _ (all payload)
      · refine List.mem_append_right _ (all' q later ?_)
        rwa [grows.kind_of_payload payload]

end Drafting

/-! ## References -/

/-- What the directive of a root field refers to. -/
structure OperationDecl.Refers (o : OperationDecl) (g : Graph) (configured : List Header)
    (x : ConnectDirective) : Prop where
  /-- If every placeholder has exactly one path parameter, it becomes a reference to the argument of
  that parameter; then come the required query parameters with theirs. -/
  path : ∀ parts (argument : String → ArgDecl), PathParts o.path.toList parts →
    (∀ name, .placeholder name ∈ parts →
      o.args.filter (fun a => a.location = some .path ∧ a.wireName = name) = [argument name]) →
    ∃ sep ∈ ["?", "&"], x.path.toList =
      parts.flatMap (fun part => (part.text fun name => (argument name).name).toList) ++
        (queryText sep o.args).toList
  headers : x.headers = (o.args.filter fun a => a.location = some .header).map
    (fun a => ⟨escapeLiteral a.wireName, argText a.name⟩) ++
      configured.map fun h => ⟨escapeLiteral h.name, escapeLiteral h.value⟩
  /-- The body mapping starts from the argument of the body, and what it says apart from JSON keys
  holds no dollar sign. -/
  body : ∀ b name, o.body = some (b, name) → ∃ end_ ∈ ["", " \x7b"], ∃ more,
    x.body = ("$args." ++ name ++ end_) :: more ∧ ∀ line ∈ more, '$' ∉ line.toList ∨
      ∃ key p m, (key, p) ∈ (g.node m).props ∧ Copies key line
  bodiless : o.body = none → x.body = []

/-- The one argument for a placeholder is the one that is found for it. -/
theorem pathArgument_eq {args : List ArgDecl} {name : String} {a : ArgDecl}
    (only : args.filter (fun a => a.location = some .path ∧ a.wireName = name) = [a]) :
    pathArgument args name = a.name := by
  have found : args.find? (fun a => a.location = some .path ∧ a.wireName = name) = some a := by
    rw [← List.head?_filter, only]
    rfl
  rw [pathArgument, found]

/-- **The templates of an operation refer to its arguments.** -/
theorem OperationDecl.refers (o : OperationDecl) (g : Graph) (selected : Collection)
    (settings : Settings) (identifiers : ∀ a ∈ o.args, Naming.isIdentifier a.name = true) :
    o.Refers g settings.headers (operationDirective g selected settings o) where
  path parts argument falls only := by
    obtain ⟨sep, mark, whole⟩ := toList_pathTemplate identifiers falls
    have same : parts.flatMap (fun part => (part.text (pathArgument o.args)).toList) =
        parts.flatMap fun part => (part.text fun name => (argument name).name).toList :=
      List.flatMap_congr fun part mem => by
        cases part with
        | char => rfl
        | placeholder name => rw [PathPart.text, PathPart.text, pathArgument_eq (only name mem)]
    rw [same] at whole
    exact ⟨sep, mark, whole⟩
  headers := rfl
  body b name carries := by
    have lines : (operationDirective g selected settings o).body = bodyLines g b name := by
      rw [operationDirective, carries]
    rw [lines]
    exact bodyLines_from g b name
  bodiless none := by rw [operationDirective, none]

/-- A root field declares an argument for each parameter and for the body of its operation, under
names that are identifiers and differ, and its directive refers to these arguments. -/
theorem Drafting.operation_refers {s t : Draft} (h : Ends (operation d c i) s o t) :
    (∃ children payloads r, Ends (Build.childrenOf d i) s.run children r ∧
      payloads.Sublist children ∧ (∀ p ∈ children,
        Side.input.isPayload (r.graph.node p).kind.tag = true → p ∈ payloads) ∧
      t.run.graph.Arguments payloads o) ∧
    (∃ method shared, (t.run.graph.node i).kind = .operation method o.path shared) ∧
    (∃ parts, PathParts o.path.toList parts) ∧
    ∀ g selected settings,
      o.Refers g settings.headers (operationDirective g selected settings o) := by
  unfold operation at h
  simp only [Ends.bind_iff, ends_lift, ends_graph] at h
  obtain ⟨children, _, ⟨r, below, rfl⟩, _, _, ⟨rfl, rfl⟩, h⟩ := h
  split at h
  · next method path shared kind =>
    simp only [Ends.bind_iff, ends_onRun, Ends.pure_iff] at h
    obtain ⟨_, _, rfl, _, v, fold, _, _, rfl, rfl, rfl⟩ := h
    obtain ⟨grows, same, payloads, arguments, sub, all⟩ := addChildren_arguments fold
      ⟨.nil, List.nodup_nil, fun a none => absurd none List.not_mem_nil,
        fun b name none => absurd none (Option.some_ne_none _).symm,
        fun a none => absurd none List.not_mem_nil⟩
    have inside : i < r.graph.size := Graph.lt_size_of_not_array (by rw [kind]; rfl)
    have plain : (r.graph.node i).kind.isProperty = false := by rw [kind]; rfl
    refine ⟨⟨children, payloads, r, below, sub, all, arguments⟩, ⟨method, shared, ?_⟩,
      exists_pathParts _, fun g selected settings =>
        OperationDecl.refers _ g selected settings arguments.identifiers⟩
    rw [same]
    exact ((grows.keeps inside).kind.eq_of_not_isProperty plain).trans kind
  · exact absurd h (by rw [Ends.throw_iff]; exact id)

/-- An operation whose parameters all want the name of the body. -/
def Document.crowded : Document :=
  let parameter (place : String) : Json := .object [("name", .text "input"), ("in", .text place),
    ("required", .bool true), ("schema", .typeSchema "string")]
  .ofPaths [("/\x7binput\x7d", .object [("put", .object [("operationId", .text "a"),
    ("parameters", .list [parameter "query", parameter "path", parameter "header"]),
    ("requestBody", (Json.objectSchema [("$args.b", .typeSchema "string")]).jsonContent)])])] []

/-- Each reference leads to the argument of its parameter, and the key of the body stays a key. -/
theorem crowded_refers : ∃ o t, Ends (Drafting.operation .crowded .empty 0)
      (.start (.ofDocument .crowded)) o t ∧
    o.args.map ArgDecl.name = ["input", "input2", "input3", "input4"] ∧
    (∃ parts, ∃ argument : String → ArgDecl, PathParts o.path.toList parts ∧
      ∀ name, .placeholder name ∈ parts →
        o.args.filter (fun a => a.location = some .path ∧ a.wireName = name) = [argument name]) ∧
    let x := operationDirective t.run.graph .empty .default o
    x.path = "/\x7b$args.input2\x7d?input=\x7b$args.input\x7d" ∧
      x.body = ["$args.input4 \x7b", "  \"$args.b\": argsB", "\x7d"] ∧
      o.Refers t.run.graph Settings.default.headers x := by
  have run : Ends.passes (Drafting.operation .crowded .empty 0) (.start (.ofDocument .crowded))
      (fun o t => decide (o.args.map ArgDecl.name = ["input", "input2", "input3", "input4"] ∧
        o.path = "/\x7binput\x7d" ∧
        (o.args.filter fun a => a.location = some .path ∧ a.wireName = "input").length = 1 ∧
        (operationDirective t.run.graph .empty .default o).path =
          "/\x7b$args.input2\x7d?input=\x7b$args.input\x7d" ∧
        (operationDirective t.run.graph .empty .default o).body =
          ["$args.input4 \x7b", "  \"$args.b\": argsB", "\x7d"])) = true := by decide +kernel
  obtain ⟨o, t, drafted, facts⟩ := Ends.of_passes run
  obtain ⟨names, path, single, template, body⟩ := of_decide_eq_true facts
  obtain ⟨a, only⟩ := List.length_eq_one_iff.mp single
  have chars : ("/\x7binput\x7d" : String).toList =
      '/' :: '\x7b' :: (("input" : String).toList ++ '\x7d' :: []) := by decide
  have parts : PathParts o.path.toList
      [.char '/', .placeholder (String.ofList ("input" : String).toList)] := by
    rw [path, chars]
    exact .char (fun name more _ _ same => by cases same)
      (.placeholder (by decide) (by decide) .nil)
  refine ⟨o, t, drafted, names, ⟨_, fun _ => a, parts, fun name mem => ?_⟩, template, body,
    (Drafting.operation_refers drafted).2.2.2 t.run.graph .empty .default⟩
  have named : name = "input" := by simpa using mem
  rw [named, only]

end RestGraph
