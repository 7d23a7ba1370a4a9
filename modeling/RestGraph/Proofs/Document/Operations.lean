import RestGraph.Proofs.Document.Parameters

/-!
# What operations declare

An operation declares parameters, perhaps a body, and responses. Its signature has all of the
parameters, the body if its method takes one, and one response.
-/

namespace RestGraph

/-! ## Payloads -/

/-- The schema of the first JSON media type of a payload. -/
def Json.Carries (payload schema : Json) : Prop :=
  ∃ before mediaType media after,
    payload.get? "content" = some (.object (before ++ (mediaType, media) :: after)) ∧
    (∀ entry ∈ before, Media.isJson entry.1 = false) ∧ Media.isJson mediaType = true ∧
    media.get? "schema" = some schema

/-- The schema of a payload is the one it carries. -/
@[simp] theorem Media.schema?_eq_some_iff {payload schema : Json} :
    schema? payload = some schema ↔ payload.Carries schema := by
  constructor
  · intro found
    obtain ⟨⟨mediaType, media⟩, found, within⟩ := Option.bind_eq_some_iff.mp found
    obtain ⟨members, content, first⟩ := Option.bind_eq_some_iff.mp found
    obtain ⟨types, got, object⟩ := Option.bind_eq_some_iff.mp content
    obtain ⟨json, before, after, rfl, others⟩ := List.find?_eq_some_iff_append.mp first
    obtain rfl : types = .object (before ++ (mediaType, media) :: after) := by
      cases types <;> cases object
      rfl
    exact ⟨before, mediaType, media, after, got, fun entry mem => by simpa using others entry mem,
      json, within⟩
  · rintro ⟨before, mediaType, media, after, content, others, json, within⟩
    have first : (before ++ (mediaType, media) :: after).find? (fun entry => isJson entry.1) =
        some (mediaType, media) := List.find?_eq_some_iff_append.mpr
      ⟨json, before, after, rfl, fun entry mem => by rw [others entry mem]; rfl⟩
    rw [schema?, content]
    exact (congrArg (·.bind fun entry => entry.2.get? "schema") first).trans within

/-! ## Statuses -/

/-- The status of the response to use: `200`, else the least that starts with `2`, else
`default`. -/
inductive Prefers (statuses : List String) : String → Prop
  | ok (mem : "200" ∈ statuses) : Prefers statuses "200"
  | success {status : String} (other : "200" ∉ statuses) (mem : status ∈ statuses)
      (starts : Text.startsWith "2" status = true)
      (least : ∀ s ∈ statuses, Text.startsWith "2" s = true → status ≤ s) : Prefers statuses status
  | default (none : ∀ s ∈ statuses, Text.startsWith "2" s = false) (mem : "default" ∈ statuses) :
    Prefers statuses "default"

theorem Prefers.mem {statuses : List String} {status : String} (prefers : Prefers statuses status) :
    status ∈ statuses := by
  cases prefers <;> assumption

theorem Prefers.unique {statuses : List String} {a b : String} (first : Prefers statuses a)
    (second : Prefers statuses b) : a = b := by
  have plain : Text.startsWith "2" "200" = true := by decide
  have clash : ∀ {s : String}, s ∈ statuses → Text.startsWith "2" s = true →
      (∀ s ∈ statuses, Text.startsWith "2" s = false) → False := fun mem starts none =>
    Bool.false_ne_true ((none _ mem).symm.trans starts)
  cases first with
  | ok mem =>
    cases second with
    | ok => rfl
    | success other => exact absurd mem other
    | default none => exact (clash mem plain none).elim
  | success other mem starts least =>
    cases second with
    | ok mem' => exact absurd mem' other
    | success _ mem' starts' least' =>
      exact String.le_antisymm (least b mem' starts') (least' a mem starts)
    | default none => exact (clash mem starts none).elim
  | default none =>
    cases second with
    | ok mem' => exact (clash mem' plain none).elim
    | success _ mem' starts' => exact (clash mem' starts' none).elim
    | default => rfl

section Sorting

variable {xs rest : List String} {x : String} {p : String → Bool}

/-- What is sorted begins with the least. -/
theorem least_of_mergeSort (sorted : (xs.mergeSort fun a b => a ≤ b) = x :: rest) :
    x ∈ xs ∧ ∀ y ∈ xs, x ≤ y := by
  have mem : ∀ y, y ∈ x :: rest ↔ y ∈ xs := fun y => sorted ▸ List.mem_mergeSort
  have ordered : (x :: rest).Pairwise fun a b => decide (a ≤ b) = true := by
    rw [← sorted]
    refine List.pairwise_mergeSort (fun a b c first second => ?_) (fun a b => ?_) xs
    · exact decide_eq_true (String.le_trans (of_decide_eq_true first) (of_decide_eq_true second))
    · simpa using String.le_total a b
  refine ⟨(mem x).mp List.mem_cons_self, fun y inside => ?_⟩
  rcases List.mem_cons.mp ((mem y).mpr inside) with rfl | later
  · exact String.le_refl y
  · exact of_decide_eq_true ((List.pairwise_cons.mp ordered).1 y later)

/-- A filter that leaves nothing to sort holds of nothing. -/
theorem none_of_mergeSort (sorted : ((xs.filter p).mergeSort fun a b => a ≤ b) = []) :
    ∀ y ∈ xs, p y = false := fun y mem => Bool.eq_false_iff.mpr fun chosen => by
  have inside : y ∈ (xs.filter p).mergeSort fun a b => a ≤ b :=
    List.mem_mergeSort.mpr (List.mem_filter.mpr ⟨mem, chosen⟩)
  rw [sorted] at inside
  cases inside

end Sorting

section Choice

variable {members : List (String × Json)} {status : String}

/-- The status that is chosen is the preferred one. -/
theorem prefers_of_chooseStatus? (chosen : chooseStatus? (.object members) = some status) :
    Prefers (members.map Prod.fst) status := by
  unfold chooseStatus? at chosen
  dsimp only at chosen
  split at chosen
  · next ok =>
    cases chosen
    exact .ok (List.contains_iff_mem.mp ok)
  · next other =>
    split at chosen
    · next sorted =>
      cases chosen
      obtain ⟨mem, least⟩ := least_of_mergeSort sorted
      obtain ⟨mem, starts⟩ := List.mem_filter.mp mem
      exact .success (fun ok => other (List.contains_iff_mem.mpr ok)) mem starts
        fun s inside success => least s (List.mem_filter.mpr ⟨inside, success⟩)
    · next sorted =>
      split at chosen
      · next found =>
        cases chosen
        exact .default (none_of_mergeSort sorted) (List.contains_iff_mem.mp found)
      · cases chosen

/-- Where none is chosen, none is preferred. -/
theorem not_prefers_of_chooseStatus? (chosen : chooseStatus? (.object members) = none) :
    ¬Prefers (members.map Prod.fst) status := by
  unfold chooseStatus? at chosen
  dsimp only at chosen
  split at chosen
  · cases chosen
  · next other =>
    split at chosen
    · cases chosen
    · next sorted =>
      split at chosen
      · cases chosen
      · next missing =>
        rintro (mem | ⟨-, mem, starts, -⟩ | ⟨-, mem⟩)
        · exact other (List.contains_iff_mem.mpr mem)
        · rw [none_of_mergeSort sorted status mem] at starts
          cases starts
        · exact missing (List.contains_iff_mem.mpr mem)

/-- **A status is chosen when it is the preferred one.** -/
@[simp]
theorem chooseStatus?_eq_some_iff {responses : Json} : chooseStatus? responses = some status ↔
    ∃ members, responses = .object members ∧ Prefers (members.map Prod.fst) status := by
  constructor
  · intro chosen
    cases responses with
    | object members => exact ⟨members, rfl, prefers_of_chooseStatus? chosen⟩
    | _ => cases chosen
  · rintro ⟨members, rfl, prefers⟩
    cases chosen : chooseStatus? (.object members) with
    | none => exact absurd prefers (not_prefers_of_chooseStatus? chosen)
    | some other => rw [(prefers_of_chooseStatus? chosen).unique prefers]

end Choice

/-! ## Signatures -/

namespace Document

variable {d : Document} {method : Method} {shared : List Json} {operation payload schema : Json}
  {status path : String}

/-- The payload and the schema of the body that a method may send. -/
def Sends (d : Document) (method : Method) (operation payload schema : Json) : Prop :=
  method ∈ [.post, .put, .patch] ∧ ∃ raw, operation.get? "requestBody" = some raw ∧
    d.LeadsTo [] raw payload ∧ payload.Carries schema

/-- The status and the schema of the response that an operation declares for success. -/
def Responds (d : Document) (operation : Json) (status : String) (schema : Json) : Prop :=
  ∃ members raw payload, operation.get? "responses" = some (.object members) ∧
    Prefers (members.map Prod.fst) status ∧ members.lookup status = some raw ∧
    d.LeadsTo [] raw payload ∧ payload.Carries schema

/-- Whether the body of an operation is required, and its schema. -/
inductive Requests (d : Document) (method : Method) (operation : Json) : Option (Bool × Json) → Prop
  | body {payload schema : Json} (sends : d.Sends method operation payload schema) :
    Requests d method operation
      (some (((payload.get? "required").bind Json.bool?).getD false, schema))
  | none (nothing : ∀ payload schema, ¬d.Sends method operation payload schema) :
    Requests d method operation none

/-- The status and the schema of the response to use, and whether they are made up. -/
inductive Answers (d : Document) (operation : Json) : String → Json → Bool → Prop
  | declared {status : String} {schema : Json} (responds : d.Responds operation status schema) :
    Answers d operation status schema false
  | synthetic (nothing : ∀ status schema, ¬d.Responds operation status schema) :
    Answers d operation syntheticStatus syntheticSchema true

section Responses

variable {chosen : Option (String × Json)}
  (h : d.chosenResponse path ((operation.get? "responses").getD .null) = .ok chosen)

include h

/-- The response that is chosen is what the operation responds. -/
theorem responds_of_chosenResponse (found : chosen = some (status, schema)) :
    d.Responds operation status schema := by
  subst found
  unfold chosenResponse at h
  cases choice : chooseStatus? ((operation.get? "responses").getD .null) with
  | none =>
    rw [choice] at h
    cases h
  | some first =>
    rw [choice] at h
    obtain ⟨payload, leads, h⟩ := bind_eq_ok_iff.mp h
    obtain ⟨_, carries, same⟩ := Option.map_eq_some_iff.mp (Except.ok.inj h)
    cases same
    obtain ⟨members, object, prefers⟩ := chooseStatus?_eq_some_iff.mp choice
    obtain ⟨raw, entry⟩ := exists_lookup prefers.mem
    have own : operation.get? "responses" = some (.object members) := by
      cases here : operation.get? "responses" <;> rw [here] at object <;> cases object
      rfl
    have leads := leadsTo_of_followFrom leads
    rw [object, Json.get?, entry, Option.getD_some] at leads
    exact ⟨members, raw, payload, own, prefers, entry, leads,
      Media.schema?_eq_some_iff.mp carries⟩

theorem chosenResponse_of_responds (responds : d.Responds operation status schema) :
    chosen = some (status, schema) := by
  obtain ⟨members, raw, payload, own, prefers, entry, leads, carries⟩ := responds
  have choice : chooseStatus? (.object members) = some status :=
    chooseStatus?_eq_some_iff.mpr ⟨members, rfl, prefers⟩
  rw [own, Option.getD_some] at h
  unfold chosenResponse at h
  rw [choice] at h
  obtain ⟨payload', found, h⟩ := bind_eq_ok_iff.mp h
  rw [Json.get?, entry, Option.getD_some] at found
  cases leads.unique (leadsTo_of_followFrom found)
  rw [Media.schema?_eq_some_iff.mpr carries] at h
  exact (Except.ok.inj h).symm

end Responses

end Document

/-- The parts of an operation, as the description declares them. -/
structure Signature (d : Document) (e : OperationEntry) where
  /-- The declarations for the path, then those for the operation, with references followed. -/
  declarations : List Json
  params : List Json
  body : Option (Bool × Json)
  status : String
  schema : Json
  synthetic : Bool
  resolved : List.Forall₂ (d.LeadsTo [])
    (e.shared ++ ((e.operation.get? "parameters").bind Json.list?).getD []) declarations
  merged : Merges declarations params
  requested : d.Requests e.method e.operation body
  answered : d.Answers e.operation status schema synthetic

namespace Seed

/-- A parameter of an operation, made from its declaration. -/
def param (operation : String) (declaration : Json) : Seed where
  kind := .param (Location.ofText (Build.paramPlace declaration))
    (Location.ofText (Build.paramPlace declaration) == .path ||
      ((declaration.get? "required").bind Json.bool?).getD false)
  name := Build.paramName declaration
  discriminant := Build.paramName declaration
  scope := operation ++ "." ++ Build.paramName declaration
  schema := declaration

def body (operation : String) (required : Bool) (schema : Json) : Seed where
  kind := .body required
  name := operation ++ "Input"
  discriminant := "request"
  scope := operation ++ "Input"
  schema := schema

def response (operation status : String) (schema : Json) (synthetic : Bool) : Seed where
  kind := .response status synthetic
  name := operation ++ "Response"
  discriminant := status
  scope := operation ++ "Response"
  schema := schema

end Seed

namespace Signature

variable {d : Document} {e : OperationEntry}

/-- What the children of an operation that goes by a name are made from. -/
def parts (s : Signature d e) (name : String) : List Seed :=
  s.params.map (Seed.param name) ++
    (s.body.map fun (required, schema) => Seed.body name required schema).toList ++
    [Seed.response name s.status s.schema s.synthetic]

theorem response_mem_parts (s : Signature d e) (name : String) :
    Seed.response name s.status s.schema s.synthetic ∈ s.parts name :=
  List.mem_append_right _ (List.mem_singleton_self _)

end Signature

namespace Site

variable {d : Document} {visit : Site → Except Fault (List Site)} {s : Site} {method : Method}
  {shared : List Json} {sites : List Site}

theorem eq_of_visited {c : Site} (h : visited visit c = .ok sites) : sites = [c] := by
  obtain ⟨_, -, h⟩ := bind_eq_ok_iff.mp h
  cases h
  rfl

/-- A parameter gives its seed, unless it is a cookie. -/
theorem seeds_of_parameter {param : Json} (h : s.parameter visit param = .ok sites) :
    sites.map Site.seed =
      ([param].filter fun param => !IsCookie param.slot).map (Seed.param s.seed.name) := by
  have seed : Seed.param s.seed.name param = _ := rfl
  unfold Seed.param at seed
  unfold parameter at h
  have kept : IsCookie param.slot = (Location.ofText (Build.paramPlace param) == .cookie) := rfl
  cases place : Location.ofText (Build.paramPlace param) with
  | cookie =>
    rw [place] at h kept
    cases h
    simp [kept]
  | _ =>
    rw [place] at h kept
    cases eq_of_visited h
    simp [kept, Seed.param, place, below]

/-- Parameters give their seeds in order, but for the cookies. -/
theorem seeds_of_parameters {params : List Json} {count : Nat}
    (h : gather (fun _ => s.parameter visit) count params = .ok sites) : sites.map Site.seed =
      (params.filter fun param => !IsCookie param.slot).map (Seed.param s.seed.name) := by
  induction params generalizing count sites with
  | nil =>
    cases h
    rfl
  | cons param rest ih =>
    obtain ⟨more, first, h⟩ := bind_eq_ok_iff.mp h
    obtain ⟨later, others, h⟩ := bind_eq_ok_iff.mp h
    cases h
    rw [List.map_append, seeds_of_parameter first, ih others, ← List.map_append,
      ← List.filter_append, List.singleton_append]

theorem requests_of_requested (h : s.requested d visit method = .ok sites) :
    ∃ body, d.Requests method s.seed.schema body ∧ sites.map Site.seed =
      (body.map fun (required, schema) => Seed.body s.seed.name required schema).toList := by
  have write : method.isWrite = true ↔ method ∈ [.post, .put, .patch] := by cases method <;> decide
  unfold requested at h
  cases own : s.seed.schema.get? "requestBody" with
  | none =>
    rw [own] at h
    cases h
    refine ⟨none, .none ?_, rfl⟩
    rintro payload schema ⟨-, raw, found, -⟩
    cases own.symm.trans found
  | some raw =>
    rw [own] at h
    dsimp only at h
    split at h
    · next writes =>
      obtain ⟨payload, leads, h⟩ := bind_eq_ok_iff.mp h
      have leads := Document.leadsTo_of_followFrom leads
      cases carries : Media.schema? payload with
      | none =>
        rw [carries] at h
        cases h
        refine ⟨none, .none ?_, rfl⟩
        rintro payload' schema ⟨-, raw', found, leads', carries'⟩
        cases own.symm.trans found
        cases leads.unique leads'
        cases carries.symm.trans (Media.schema?_eq_some_iff.mpr carries')
      | some schema =>
        rw [carries] at h
        cases eq_of_visited h
        exact ⟨_,
          .body ⟨write.mp writes, raw, own, leads, Media.schema?_eq_some_iff.mp carries⟩, rfl⟩
    · next reads =>
      cases h
      exact ⟨none, .none fun _ _ sends => reads (write.mpr sends.1), rfl⟩

/-- A response gives the seed of the answer. -/
theorem answers_of_response
    (h : s.response d visit ((s.seed.schema.get? "responses").getD .null) = .ok sites) :
    ∃ status schema synthetic, d.Answers s.seed.schema status schema synthetic ∧
      sites.map Site.seed = [Seed.response s.seed.name status schema synthetic] := by
  obtain ⟨chosen, choice, h⟩ := bind_eq_ok_iff.mp h
  cases chosen with
  | none =>
    cases eq_of_visited h
    refine ⟨_, _, _, .synthetic fun _ _ responds => ?_, rfl⟩
    cases Document.chosenResponse_of_responds choice responds
  | some answer =>
    cases eq_of_visited h
    exact ⟨_, _, _, .declared (Document.responds_of_chosenResponse choice rfl), rfl⟩

/-- The children of an operation are the parts of its signature. -/
theorem signature_of_operation {path : String}
    (h : s.operation d visit method shared = .ok sites) :
    ∃ signature : Signature d ⟨method, path, s.seed.schema, shared⟩,
      sites.map Site.seed = signature.parts s.seed.name := by
  obtain ⟨params, merged, h⟩ := bind_eq_ok_iff.mp h
  obtain ⟨args, gathered, h⟩ := bind_eq_ok_iff.mp h
  obtain ⟨body, requested, h⟩ := bind_eq_ok_iff.mp h
  obtain ⟨answer, responded, h⟩ := bind_eq_ok_iff.mp h
  cases h
  obtain ⟨declarations, resolved, rfl⟩ := Document.entered_of_mergeParameters merged
  obtain ⟨_, requests, bodySeeds⟩ := requests_of_requested requested
  obtain ⟨status, schema, synthetic, answers, answerSeeds⟩ := answers_of_response responded
  refine ⟨⟨declarations, _, _, status, schema, synthetic, resolved,
    Run.merges_entered declarations, requests, answers⟩, ?_⟩
  rw [List.map_append, List.map_append, seeds_of_parameters gathered, bodySeeds, answerSeeds,
    ← List.append_assoc]
  rfl

end Site

end RestGraph
