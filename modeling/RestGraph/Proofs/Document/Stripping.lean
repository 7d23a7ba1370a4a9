import RestGraph.Document.PathItem
import RestGraph.Proofs.Document.Within
import RestGraph.Proofs.Graph.Siblings

/-!
# Stripping path items

Members with unknown keys are removed from the path items of a description, and while they are, the
order of the others changes. No operation, component or address is lost or moved by that, and
nothing else of the description is touched.
-/

namespace RestGraph.PathItem

variable {key : String} {members : List (String × Json)} {j v : Json}

/-! ## Known keys -/

/-- A standard field or a method, capitals or not, or an extension. -/
def IsKnown (key : String) : Prop :=
  Text.asciiLower key ∈ ["summary", "description", "servers", "parameters", "$ref"] ∨
    Text.asciiLower key ∈ ["get", "post", "put", "delete", "patch", "options", "head", "trace"] ∨
      "x-".toList <+: key.toList

@[simp] theorem keeps_iff : keeps key = true ↔ IsKnown key := by
  have standard : standardKeys = ["summary", "description", "servers", "parameters", "$ref"] ++
      ["get", "post", "put", "delete", "patch", "options", "head", "trace"] := rfl
  rw [keeps, Bool.or_eq_true, List.contains_iff_mem, standard, List.mem_append, or_assoc,
    Text.startsWith, List.isPrefixOf_iff_prefix, IsKnown]

instance : Decidable (IsKnown key) := decidable_of_iff _ keeps_iff

/-- What the scan for operations looks up is kept. -/
@[simp] theorem keeps_method (m : Method) : keeps m.key = true := by cases m <;> decide

@[simp] theorem keeps_parameters : keeps "parameters" = true := by decide

/-! ## Members -/

/-- The last member in front of the others. -/
theorem gap_perm (rest : List (String × Json)) : (match rest.getLast? with
    | some last => last :: rest.dropLast
    | none => []).Perm rest := by
  cases found : rest.getLast? with
  | none =>
    rw [List.getLast?_eq_none_iff.mp found]
  | some last =>
    obtain ⟨front, rfl⟩ := List.getLast?_eq_some_iff.mp found
    rw [List.dropLast_concat]
    exact (List.perm_append_singleton last front).symm

/-- Removing a key by a swap leaves the other keys. -/
theorem map_fst_swapRemove (key : String) (members : List (String × Json)) :
    ((swapRemove key members).map Prod.fst).Perm ((members.map Prod.fst).erase key) := by
  induction members with
  | nil => exact .nil
  | cons m rest ih =>
    obtain ⟨k, x⟩ := m
    rw [swapRemove]
    split
    · next here =>
      rw [List.map_cons, here, List.erase_cons_head]
      exact (gap_perm rest).map Prod.fst
    · next other =>
      rw [List.map_cons, List.map_cons, List.erase_cons_tail (by simpa using other)]
      exact ih.cons k

/-- The removal of an unknown key leaves the known ones. -/
theorem filter_swapRemove (unknown : keeps key = false) (members : List (String × Json)) :
    ((swapRemove key members).filter fun m => keeps m.1).Perm
      (members.filter fun m => keeps m.1) := by
  induction members with
  | nil => exact .nil
  | cons m rest ih =>
    obtain ⟨k, x⟩ := m
    rw [swapRemove]
    split
    · next here =>
      rw [List.filter_cons_of_neg (by simp [here, unknown])]
      exact (gap_perm rest).filter _
    · rw [List.filter_cons, List.filter_cons]
      split
      · exact ih.cons _
      · exact ih

/-- A key stands as many times less as it is removed. -/
theorem count_foldl_swapRemove (key : String) (keys : List String)
    (members : List (String × Json)) :
    ((keys.foldl (fun ms k => swapRemove k ms) members).map Prod.fst).count key =
      (members.map Prod.fst).count key - keys.count key := by
  induction keys generalizing members with
  | nil => rfl
  | cons k keys ih =>
    rw [List.foldl_cons, ih, (map_fst_swapRemove k members).count_eq, List.count_erase,
      List.count_cons, Nat.sub_sub, Nat.add_comm]

/-- Removing unknown keys leaves the known ones. -/
theorem filter_foldl_swapRemove {keys : List String} (unknown : ∀ k ∈ keys, keeps k = false)
    (members : List (String × Json)) :
    ((keys.foldl (fun ms k => swapRemove k ms) members).filter fun m => keeps m.1).Perm
      (members.filter fun m => keeps m.1) := by
  induction keys generalizing members with
  | nil => exact .refl _
  | cons k keys ih =>
    exact (ih (fun k mem => unknown k (List.mem_cons_of_mem _ mem)) _).trans
      (filter_swapRemove (unknown k List.mem_cons_self) members)

/-- No unknown key is left. -/
theorem keeps_of_mem_stripMembers {m : String × Json} (mem : m ∈ stripMembers members) :
    keeps m.1 = true := by
  by_contra unknown
  rw [Bool.not_eq_true] at unknown
  have left : 0 < ((stripMembers members).map Prod.fst).count m.1 :=
    List.count_pos_iff.mpr (List.mem_map.mpr ⟨m, mem, rfl⟩)
  rw [stripMembers, count_foldl_swapRemove, List.count_filter (by simp [unknown]),
    Nat.sub_self] at left
  exact Nat.lt_irrefl 0 left

/-- What is left are the members with known keys, perhaps in another order. -/
theorem stripMembers_perm (members : List (String × Json)) :
    (stripMembers members).Perm (members.filter fun m => keeps m.1) := by
  have unknown : ∀ k ∈ (members.map Prod.fst).filter fun k => !keeps k,
      keeps k = false := fun k mem => by
    simpa using (List.mem_filter.mp mem).2
  have same := filter_foldl_swapRemove unknown members
  rw [← stripMembers, List.filter_eq_self.mpr fun m mem => keeps_of_mem_stripMembers mem] at same
  exact same

/-- Nothing is stripped where all keys are known. -/
@[simp] theorem stripMembers_of_forall (known : ∀ m ∈ members, keeps m.1 = true) :
    stripMembers members = members := by
  have none : (members.map Prod.fst).filter (fun k => !keeps k) = [] := by
    refine List.filter_eq_nil_iff.mpr fun k mem => ?_
    obtain ⟨m, member, rfl⟩ := List.mem_map.mp mem
    simp [known m member]
  rw [stripMembers, none, List.foldl_nil]

/-- Each known key that stands once is found as before. -/
@[simp]
theorem lookup_stripMembers (distinct : (members.map Prod.fst).Nodup) (known : keeps key = true) :
    (stripMembers members).lookup key = members.lookup key := by
  have perm := stripMembers_perm members
  have distinct' : ((stripMembers members).map Prod.fst).Nodup :=
    (perm.map Prod.fst).nodup_iff.mpr (distinct.sublist (List.filter_sublist.map Prod.fst))
  refine Option.ext fun x => ⟨fun found => ?_, fun found => ?_⟩
  · exact lookup_of_mem distinct (List.mem_filter.mp (perm.subset (mem_of_lookup found))).1
  · refine lookup_of_mem distinct'
      (perm.symm.subset (List.mem_filter.mpr ⟨mem_of_lookup found, known⟩))

@[simp] theorem stripMembers_stripMembers (members : List (String × Json)) :
    stripMembers (stripMembers members) = stripMembers members :=
  stripMembers_of_forall fun _ => keeps_of_mem_stripMembers

/-! ## Descriptions -/

/-- An object has lost its members with unknown keys; any other value is as it was. -/
inductive ItemStrips : Json → Json → Prop
  | object {before after : List (String × Json)}
    (left : after.Perm (before.filter fun m => IsKnown m.1)) :
    ItemStrips (.object before) (.object after)
  | other {j : Json} (plain : j.isObject = false) : ItemStrips j j

/-- The items under the paths are stripped, and the paths stay in order. -/
inductive PathsStrip : Json → Json → Prop
  | object {before after : List (String × Json)}
    (items : List.Forall₂ (fun a b => b.1 = a.1 ∧ ItemStrips a.2 b.2) before after) :
    PathsStrip (.object before) (.object after)
  | other {j : Json} (plain : j.isObject = false) : PathsStrip j j

/-- The paths are stripped, and all else stays where and as it was. -/
inductive DocumentStrips : Json → Json → Prop
  | object {before after : List (String × Json)} (members : List.Forall₂
      (fun a b => b.1 = a.1 ∧ if a.1 = "paths" then PathsStrip a.2 b.2 else b.2 = a.2)
        before after) :
    DocumentStrips (.object before) (.object after)
  | other {j : Json} (plain : j.isObject = false) : DocumentStrips j j

theorem itemStrips_strip (j : Json) : ItemStrips j (strip j) := by
  have same : ∀ key, decide (IsKnown key) = keeps key := fun key =>
    Bool.eq_iff_iff.mpr (decide_eq_true_iff.trans keeps_iff.symm)
  cases j with
  | object members =>
    refine .object ?_
    simp only [same]
    exact stripMembers_perm members
  | _ => exact .other rfl

theorem pathsStrip_stripAll (j : Json) : PathsStrip j (stripAll j) := by
  cases j with
  | object items =>
    refine .object ?_
    rw [List.forall₂_map_right_iff, List.forall₂_same]
    exact fun item _ => ⟨rfl, itemStrips_strip item.2⟩
  | _ => exact .other rfl

theorem documentStrips_stripDocument (v : Json) : DocumentStrips v (stripDocument v) := by
  cases v with
  | object members =>
    refine .object ?_
    rw [List.forall₂_map_right_iff, List.forall₂_same]
    rintro ⟨k, x⟩ -
    dsimp only
    split
    · exact ⟨rfl, pathsStrip_stripAll x⟩
    · exact ⟨rfl, rfl⟩
  | _ => exact .other rfl

@[simp] theorem strip_strip (j : Json) : strip (strip j) = strip j := by
  cases j with
  | object members => exact congrArg Json.object (stripMembers_stripMembers members)
  | _ => rfl

@[simp] theorem stripAll_stripAll (j : Json) : stripAll (stripAll j) = stripAll j := by
  cases j with
  | object items => simp [stripAll]
  | _ => rfl

@[simp] theorem stripDocument_stripDocument (v : Json) :
    stripDocument (stripDocument v) = stripDocument v := by
  cases v with
  | object members =>
    rw [stripDocument, stripDocument, List.map_map]
    refine congrArg Json.object (List.map_congr_left fun m _ => ?_)
    obtain ⟨k, x⟩ := m
    by_cases paths : k = "paths" <;> simp [paths]
  | _ => rfl

/-! ## What is looked up -/

/-- What stripping makes of the value of a member of the description. -/
def stripMember (key : String) (x : Json) : Json := if key = "paths" then stripAll x else x

@[simp] theorem stripDocument_object (members : List (String × Json)) :
    stripDocument (.object members) =
    .object (members.map fun m => (m.1, stripMember m.1 m.2)) := by
  refine congrArg Json.object (List.map_congr_left fun m _ => ?_)
  dsimp only [stripMember]
  split <;> rfl

/-- A member that is looked up is the stripped one. -/
@[simp] theorem lookup_map_stripMember (members : List (String × Json)) (key : String) :
    (members.map fun m => (m.1, stripMember m.1 m.2)).lookup key =
      (members.lookup key).map (stripMember key) := by
  induction members with
  | nil => rfl
  | cons m rest ih =>
    rw [List.map_cons, List.lookup_cons, List.lookup_cons, ih]
    cases here : key == m.1 with
    | false => rfl
    | true =>
      rw [beq_iff_eq.mp here]
      rfl

/-- Beside the paths, the children of a document stay as they are. -/
@[simp] theorem child?_stripDocument {token : String} (other : token ≠ "paths") :
    (stripDocument v).child? token = v.child? token := by
  cases v with
  | object members =>
    have kept : stripMember token = id := funext fun _ => if_neg other
    rw [stripDocument_object, Json.child?, Json.child?, lookup_map_stripMember, kept,
      Option.map_id_fun]
    rfl
  | _ => rfl

/-- So does all that is reached beside the paths. -/
@[simp]
theorem follow?_stripDocument {token : String} (other : token ≠ "paths") (tokens : List String) :
    (stripDocument v).follow? (token :: tokens) = v.follow? (token :: tokens) := by
  rw [Json.follow?, Json.follow?, child?_stripDocument other]

/-- So does all that a pointer reaches beside the paths. -/
theorem pointer?_stripDocument {pointer token : String} {tokens : List String}
    (read : Json.pointerTokens? pointer = some (token :: tokens)) (other : token ≠ "paths") :
    (stripDocument v).pointer? pointer = v.pointer? pointer := by
  rw [Json.pointer?, Json.pointer?, read, Option.bind_some, Option.bind_some,
    follow?_stripDocument other]

/-- The paths of a stripped document are stripped. -/
@[simp] theorem get?_paths_stripDocument (v : Json) :
    (stripDocument v).get? "paths" = (v.get? "paths").map stripAll := by
  cases v with
  | object members =>
    have stripped : stripMember "paths" = stripAll := funext fun _ => if_pos rfl
    rw [stripDocument_object, Json.get?, Json.get?, lookup_map_stripMember, stripped]
  | _ => rfl

@[simp] theorem get?_strip {key : String} (keys : j.everywhere Json.hasDistinctKeys = true)
    (known : keeps key = true) : (strip j).get? key = j.get? key := by
  cases j with
  | object members =>
    exact lookup_stripMembers (of_decide_eq_true (Json.everywhere_self keys)) known
  | _ => rfl

/-- A stripped path item has the operations it had. -/
theorem itemOperations_strip (keys : j.everywhere Json.hasDistinctKeys = true) (path : String) :
    Document.itemOperations path (strip j) = Document.itemOperations path j := by
  simp only [Document.itemOperations, get?_strip keys keeps_parameters,
    get?_strip keys (keeps_method _)]

/-- A stripped document has the operations it had. -/
theorem operations_stripDocument (keys : Document.HasDistinctKeys ⟨v⟩) :
    Document.operations ⟨stripDocument v⟩ = Document.operations ⟨v⟩ := by
  unfold Document.operations
  rw [get?_paths_stripDocument]
  cases paths : v.get? "paths" with
  | none => rfl
  | some j =>
    cases j with
    | object items =>
      rw [Option.map_some, Option.bind_some, stripAll, Option.bind_some]
      dsimp only [Json.object?, Option.getD_some]
      rw [List.flatMap_map]
      refine List.flatMap_congr fun item mem => ?_
      have inside := Json.within_of_get? paths
      have within : item.2.Within v := (Json.Within.member mem .refl).trans inside
      exact itemOperations_strip (Json.everywhere_within keys within) item.1
    | _ => rfl

/-- The pointer of a component starts below the components. -/
theorem exists_pointerTokens?_of_component {pointer rest : String}
    (component : componentSections.any fun s => Text.startsWith s pointer)
    (after : Text.after? "#" pointer = some rest) :
    ∃ tokens, Json.pointerTokens? rest = some ("components" :: tokens) := by
  have sections : ∀ s ∈ componentSections, "#/components/".toList.isPrefixOf s.toList := by decide
  obtain ⟨s, mem, starts⟩ := List.any_eq_true.mp component
  obtain ⟨chars, begun, rfl⟩ := Option.map_eq_some_iff.mp after
  rw [List.isPrefixOf?_eq_some_iff_append_eq] at begun
  have front : "#/components/".toList <+: pointer.toList :=
    (List.isPrefixOf_iff_prefix.mp (sections s mem)).trans (List.isPrefixOf_iff_prefix.mp starts)
  obtain ⟨more, whole⟩ := front
  have same : "#".toList ++ chars = "#".toList ++ ('/' :: ("components".toList ++ '/' :: more)) :=
    begun.trans whole.symm
  obtain rfl := List.append_cancel_left same
  have some : ¬(String.ofList ('/' :: ("components".toList ++ '/' :: more))).isEmpty = true :=
    fun empty => by
      have none := congrArg String.toList (String.isEmpty_iff.mp empty)
      rw [String.toList_ofList] at none
      exact List.cons_ne_nil _ _ none
  have plain : ∀ c ∈ "components".toList, (c == '/') = false := fun c mem => by
    have all : ("components".toList.all (· != '/')) = true := by decide
    simpa using List.all_eq_true.mp all c mem
  refine ⟨((more.splitOnP (· == '/')).map String.ofList).map Json.unescapeToken, ?_⟩
  rw [Json.pointerTokens?, if_neg some, String.toList_ofList]
  change Option.some ((Text.split '/' (String.ofList _)).map Json.unescapeToken) = _
  rw [Text.split, Text.splitWhere, String.toList_ofList,
    List.splitOnP_append_cons_of_forall_mem plain '/' rfl, List.map_cons, List.map_cons,
    String.ofList_toList]
  rfl

/-- References are looked up in a stripped document as before. -/
@[simp] theorem lookup?_stripDocument (v : Json) (pointer : String) :
    Document.lookup? ⟨stripDocument v⟩ pointer = Document.lookup? ⟨v⟩ pointer := by
  unfold Document.lookup?
  split
  · next component =>
    cases after : Text.after? "#" pointer with
    | none => rfl
    | some rest =>
      obtain ⟨tokens, read⟩ := exists_pointerTokens?_of_component component after
      rw [Option.bind_some, Option.bind_some, pointer?_stripDocument read (by decide)]
  · rfl

@[simp] theorem title?_stripDocument (v : Json) :
    Document.title? ⟨stripDocument v⟩ = Document.title? ⟨v⟩ := by
  have read : Json.pointerTokens? "/info/title" = some ["info", "title"] := by decide
  rw [Document.title?, Document.title?, pointer?_stripDocument read (by decide)]

/-- A stripped document has the base address it had. -/
@[simp] theorem baseUrl?_stripDocument (v : Json) :
    Document.baseUrl? ⟨stripDocument v⟩ = Document.baseUrl? ⟨v⟩ := by
  have read : Json.pointerTokens? "/servers/0/url" = some ["servers", "0", "url"] := by decide
  rw [Document.baseUrl?, Document.baseUrl?, pointer?_stripDocument read (by decide)]

/-- Path items lose exactly their members with unknown keys, and nothing of that is seen by who
lists the operations or looks up components, the title or the address. That an object has each key
once is what tells its members apart: of two members with one key the later one could come first. -/
theorem stripDocument_invisible (v : Json) (keys : Document.HasDistinctKeys ⟨v⟩) :
    Document.operations ⟨stripDocument v⟩ = Document.operations ⟨v⟩ ∧
    (∀ pointer, Document.lookup? ⟨stripDocument v⟩ pointer = Document.lookup? ⟨v⟩ pointer) ∧
    Document.baseUrl? ⟨stripDocument v⟩ = Document.baseUrl? ⟨v⟩ ∧
    Document.title? ⟨stripDocument v⟩ = Document.title? ⟨v⟩ ∧
    DocumentStrips v (stripDocument v) ∧ stripDocument (stripDocument v) = stripDocument v :=
  ⟨operations_stripDocument keys, lookup?_stripDocument v, baseUrl?_stripDocument v,
    title?_stripDocument v, documentStrips_stripDocument v, stripDocument_stripDocument v⟩

/-- A path item with keys of a vendor's own, and with a method in capitals that is kept but is no
operation. -/
def vendorItem : Json := .object [("vendor", .null), ("GET", .object []), ("get", .object []),
  ("x-note", .null), ("X-note", .null), ("parameters", .list [])]

/-- Two members are lost and the last one moves to the front; the one operation is still listed. -/
theorem vendorItem_invisible :
    let v : Json := .object [("paths", .object [("/pets", vendorItem)])]
    Document.HasDistinctKeys ⟨v⟩ ∧
      (strip vendorItem).object?.map (·.map Prod.fst) =
        some ["parameters", "GET", "get", "x-note"] ∧
      (Document.operations ⟨v⟩).map (·.method) = [.get] ∧
      Document.operations ⟨stripDocument v⟩ = Document.operations ⟨v⟩ := by
  intro v
  have keys : Document.HasDistinctKeys ⟨v⟩ := by decide +kernel
  exact ⟨keys, by decide +kernel, by decide +kernel, (stripDocument_invisible v keys).1⟩

end RestGraph.PathItem
