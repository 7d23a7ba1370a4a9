import RestGraph.Schema.Names
import RestGraph.Proofs.Naming.Fresh
import RestGraph.Proofs.Naming.Letters
import RestGraph.Proofs.Schema.Declaring

/-!
# Names of declarations

Declarations are named one after the other. The names of those that are written differ from each
other and are none of the reserved ones; each of the others has the name of one that is written and
has the same content.
-/

namespace RestGraph

namespace TypeDecl

variable {g : Graph} {t t' : TypeDecl} {decls : List TypeDecl} {base name : String}

/-! ## Candidates -/

theorem isStem_baseOf (input : Bool) (raw : String) : Naming.IsStem (baseOf input raw) := by
  unfold baseOf
  dsimp only
  split
  · exact (Naming.isStem_typeName raw).append (List.all_eq_true.mp (by decide))
  · exact Naming.isStem_typeName raw

/-- The words that tell a context are stems. -/
theorem isStem_of_mem_contextWords {word : String} {i : Nat} (mem : word ∈ contextWords g base i) :
    Naming.IsStem word := by
  unfold contextWords at mem
  refine List.foldlRecOn (motive := fun words => ∀ w ∈ words, Naming.IsStem w) _ _
    (fun w none => by cases none) (fun words stems a _ w hw => ?_) word mem
  have either : w ∈ words ++ [Naming.typeName (g.node a).name] := by
    dsimp only at hw
    split at hw <;> split at hw <;> first | exact hw | exact List.mem_append_left _ hw
  rcases List.mem_append.mp either with old | new
  · exact stems w old
  · rw [List.mem_singleton.mp new]
    exact Naming.isStem_typeName _

/-- Stems put before a base leave a stem. -/
theorem isStem_of_mem_prefixed {front : String} {words : List String}
    (chars : ∀ c ∈ base.toList, Naming.isNameChar c = true)
    (before : ∀ c ∈ front.toList, Naming.isNameChar c = true)
    (stems : ∀ w ∈ words, Naming.IsStem w) (mem : name ∈ prefixed base front words) :
    Naming.IsStem name := by
  induction words generalizing front with
  | nil => cases mem
  | cons word rest ih =>
    have first := stems word List.mem_cons_self
    rcases List.mem_cons.mp mem with rfl | mem
    · exact (first.append before).append chars
    · exact ih (first.append before).chars (fun w hw => stems w (List.mem_cons_of_mem word hw)) mem

/-- Every name that is tried is a stem. -/
theorem isStem_of_mem_candidates (stem : Naming.IsStem t.base) (mem : name ∈ candidates g t) :
    Naming.IsStem name := by
  rcases List.mem_cons.mp mem with rfl | mem
  · exact stem
  · exact isStem_of_mem_prefixed stem.chars (fun c none => by cases none)
      (fun w => isStem_of_mem_contextWords) mem

/-- A name is chosen that is free. -/
theorem chooseName_spec (stem : Naming.IsStem t.base) (taken : List String) :
    chooseName g taken t ∉ taken ∧ Naming.IsStem (chooseName g taken t) := by
  unfold chooseName
  split
  · next name found =>
    have free := List.find?_some found
    have mem := List.mem_of_find?_eq_some found
    refine ⟨fun mem => ?_, isStem_of_mem_candidates stem mem⟩
    rw [List.contains_iff_mem.mpr mem] at free
    cases free
  · exact ⟨Naming.firstFree_notMem le_rfl, stem.firstFree _ _ _⟩

/-! ## Content -/

/-- The declaration may be mentioned on a side. Enums are mentioned on both. -/
def Suits (side : Side) (t : TypeDecl) : Prop :=
  t.definition.isObject = true → t.input = (side == .input)

/-- The keyword of a declaration starts its signature. -/
theorem head_signature (decls : List TypeDecl) (t : TypeDecl) : (signature decls t).toList.head? =
    some (if t.definition.isObject then if t.input then 'i' else 't' else 'e') := by
  unfold signature
  cases definition : t.definition with
  | enum => simp [Definition.isObject]
  | object => cases input : t.input <;> simp [Definition.isObject]

theorem Suits.of_signature {side : Side} (suits : t.Suits side)
    (same : signature decls t' = signature decls t) : t'.Suits side := fun object' => by
  have heads := (head_signature decls t').symm.trans
    ((congrArg (fun s => s.toList.head?) same).trans (head_signature decls t))
  rw [object', Option.some.injEq] at heads
  have object : t.definition.isObject = true := by
    by_contra enum
    rw [Bool.not_eq_true] at enum
    rw [enum] at heads
    revert heads
    cases t'.input <;> cases t.input <;> decide
  rw [object] at heads
  have input : t'.input = t.input := by
    revert heads
    cases t'.input <;> cases t.input <;> decide
  rw [input]
  exact suits object

/-! ## Naming one by one -/

/-- What was named so far: the names that are written are free ones, and each content has one. -/
structure Naming.Named (decls : List TypeDecl) (n : Naming) (done : List (TypeDecl × Nat)) :
    Prop where
  indices : n.assigned.map Prod.fst = (done.map Prod.snd).reverse
  reserved : ∀ name ∈ reservedTypeNames, name ∈ n.taken
  content : ∀ {i a}, (i, a) ∈ n.assigned →
    ∃ t, (t, i) ∈ done ∧ ((t.base, signature decls t), a.name) ∈ n.shapes
  shapes : ∀ {shape name}, (shape, name) ∈ n.shapes → ∃ t i, (t, i) ∈ done ∧
    (t.base, signature decls t) = shape ∧ (i, ⟨name, true⟩) ∈ n.assigned
  taken : ∀ {i name}, (i, ⟨name, true⟩) ∈ n.assigned →
    name ∈ n.taken ∧ name ∉ reservedTypeNames ∧ RestGraph.Naming.IsStem name
  distinct : ∀ {i j name}, (i, ⟨name, true⟩) ∈ n.assigned → (j, ⟨name, true⟩) ∈ n.assigned → i = j
  unique : (n.shapes.map Prod.fst).Nodup

namespace Naming.Named

variable {n : Naming} {done : List (TypeDecl × Nat)}

theorem start (decls : List TypeDecl) : Named decls ⟨reservedTypeNames, [], []⟩ [] where
  indices := rfl
  reserved _ mem := mem
  content none := by cases none
  shapes none := by cases none
  taken none := by cases none
  distinct none := by cases none
  unique := .nil

/-- A content that was met before has its name. -/
theorem share (named : Named decls n done) {i : Nat}
    (met : ((t.base, signature decls t), name) ∈ n.shapes) :
    Named decls { n with assigned := (i, ⟨name, false⟩) :: n.assigned } (done ++ [(t, i)]) where
  indices := by simp [named.indices]
  reserved := named.reserved
  content mem := by
    rcases List.mem_cons.mp mem with new | old
    · cases new
      exact ⟨t, by simp, met⟩
    · obtain ⟨t', mem, shape⟩ := named.content old
      exact ⟨t', List.mem_append_left _ mem, shape⟩
  shapes mem := by
    obtain ⟨t', j, old, shape, assigned⟩ := named.shapes mem
    exact ⟨t', j, List.mem_append_left _ old, shape, List.mem_cons_of_mem _ assigned⟩
  taken mem := by
    rcases List.mem_cons.mp mem with new | old
    · cases new
    · exact named.taken old
  distinct mem mem' := by
    rcases List.mem_cons.mp mem with new | old
    · cases new
    · rcases List.mem_cons.mp mem' with new | old'
      · cases new
      · exact named.distinct old old'
  unique := named.unique

/-- A new content gets a name that is free. -/
theorem choose (named : Named decls n done) {i : Nat} (free : name ∉ n.taken)
    (stem : RestGraph.Naming.IsStem name)
    (new : (t.base, signature decls t) ∉ n.shapes.map Prod.fst) :
    Named decls
      { taken := name :: n.taken
        shapes := ((t.base, signature decls t), name) :: n.shapes
        assigned := (i, ⟨name, true⟩) :: n.assigned } (done ++ [(t, i)]) where
  indices := by simp [named.indices]
  reserved other mem := List.mem_cons_of_mem _ (named.reserved other mem)
  content mem := by
    rcases List.mem_cons.mp mem with new | old
    · cases new
      exact ⟨t, by simp, List.mem_cons_self⟩
    · obtain ⟨t', mem, shape⟩ := named.content old
      exact ⟨t', List.mem_append_left _ mem, List.mem_cons_of_mem _ shape⟩
  shapes mem := by
    rcases List.mem_cons.mp mem with new | old
    · cases new
      exact ⟨t, i, by simp, rfl, List.mem_cons_self⟩
    · obtain ⟨t', j, old, shape, assigned⟩ := named.shapes old
      exact ⟨t', j, List.mem_append_left _ old, shape, List.mem_cons_of_mem _ assigned⟩
  taken mem := by
    rcases List.mem_cons.mp mem with new | old
    · cases new
      exact ⟨List.mem_cons_self, fun reserved => free (named.reserved _ reserved), stem⟩
    · exact (named.taken old).imp_left (List.mem_cons_of_mem _)
  distinct mem mem' := by
    rcases List.mem_cons.mp mem with new | old <;> rcases List.mem_cons.mp mem' with new' | old'
    · cases new
      cases new'
      rfl
    · cases new
      exact absurd (named.taken old').1 free
    · cases new'
      exact absurd (named.taken old).1 free
    · exact named.distinct old old'
  unique := List.nodup_cons.mpr ⟨new, named.unique⟩

theorem next (named : Named decls n done) {i : Nat} (stem : RestGraph.Naming.IsStem t.base) :
    Named decls (nameNext g decls n (t, i)) (done ++ [(t, i)]) := by
  unfold nameNext
  dsimp only
  split
  · next name met => exact named.share (mem_of_lookup met)
  · next new =>
    obtain ⟨free, stem⟩ := chooseName_spec (g := g) stem n.taken
    refine named.choose free stem fun mem => ?_
    obtain ⟨⟨shape, name⟩, met, same⟩ := List.mem_map.mp mem
    exact absurd same.symm (by simpa using List.lookup_eq_none_iff.mp new _ met)

theorem all (named : Named decls n done) {entries : List (TypeDecl × Nat)}
    (stems : ∀ e ∈ entries, RestGraph.Naming.IsStem e.1.base) :
    Named decls (entries.foldl (nameNext g decls) n) (done ++ entries) := by
  induction entries generalizing n done with
  | nil => rwa [List.append_nil]
  | cons e rest ih =>
    rw [List.foldl_cons, List.append_cons]
    exact ih (named.next (stems e List.mem_cons_self)) fun e mem =>
      stems e (List.mem_cons_of_mem _ mem)

end Naming.Named

end TypeDecl

/-! ## All names -/

/-- The names of those that are written differ and are free; a declaration that is not written has
the name of one with the same content. Declarations that want the same name and have the same
content get the same name. -/
structure TypeNames.Names (ns : TypeNames) (decls : List TypeDecl) : Prop where
  stands : ∀ {i t}, decls[i]? = some t → ∃ j t', decls[j]? = some t' ∧ ns.isPrimary j = true ∧
    ns.nameAt j = ns.nameAt i ∧ TypeDecl.signature decls t' = TypeDecl.signature decls t
  distinct : ∀ {i j}, ns.isPrimary i = true → ns.isPrimary j = true → ns.nameAt i = ns.nameAt j →
    i = j
  shared : ∀ {i j t t'}, decls[i]? = some t → decls[j]? = some t' → t.base = t'.base →
    TypeDecl.signature decls t = TypeDecl.signature decls t' → ns.nameAt i = ns.nameAt j
  free : ∀ {i}, ns.isPrimary i = true →
    ns.nameAt i ∉ reservedTypeNames ∧ Naming.IsStem (ns.nameAt i)

namespace TypeDecl

/-- Once all declarations are named, what is read off is what was assigned. -/
theorem Naming.Named.names {n : Naming} {entries : List (TypeDecl × Nat)} {ns : TypeNames}
    (named : Named decls n entries) (perm : entries.Perm decls.zipIdx)
    (result : ns.entries = (List.range decls.length).map fun i =>
      (n.assigned.lookup i).getD ⟨"", true⟩) : ns.Names decls := by
  have entry : ∀ {t i}, (t, i) ∈ entries ↔ decls[i]? = some t := fun {t i} => by
    rw [perm.mem_iff, List.mem_zipIdx_iff_getElem?]
  have keys : (n.assigned.map Prod.fst).Nodup := by
    rw [named.indices, List.nodup_reverse, (perm.map Prod.snd).nodup_iff, List.zipIdx_map_snd]
    exact List.nodup_range'
  have assigned : ∀ {i t}, decls[i]? = some t → ∃ a, (i, a) ∈ n.assigned := fun {i t} at_ => by
    have mem : i ∈ n.assigned.map Prod.fst := by
      rw [named.indices, List.mem_reverse]
      exact List.mem_map_of_mem (entry.mpr at_)
    obtain ⟨⟨_, a⟩, found, rfl⟩ := List.mem_map.mp mem
    exact ⟨a, found⟩
  have read : ∀ {i a}, (i, a) ∈ n.assigned → ns.entries[i]? = some a := fun {i a} mem => by
    obtain ⟨t, found, -⟩ := named.content mem
    have lt := (List.getElem?_eq_some_iff.mp (entry.mp found)).1
    rw [result, List.getElem?_map, List.getElem?_range lt, Option.map_some, lookup_of_mem keys mem,
      Option.getD_some]
  have primary : ∀ {i}, ns.isPrimary i = true → (i, ⟨ns.nameAt i, true⟩) ∈ n.assigned :=
      fun {i} written => by
    obtain ⟨a, at_, written⟩ := (Option.any_eq_true _ _).mp written
    have lt : i < decls.length := by
      have lt := (List.getElem?_eq_some_iff.mp at_).1
      rwa [result, List.length_map, List.length_range] at lt
    obtain ⟨a', mem⟩ := assigned (List.getElem?_eq_getElem lt)
    have same := read mem
    rw [at_, Option.some.injEq] at same
    subst same
    rw [TypeNames.nameAt, at_]
    cases a
    cases written
    exact mem
  have shape : ∀ {i t}, decls[i]? = some t →
      ((t.base, signature decls t), ns.nameAt i) ∈ n.shapes := fun {i t} at_ => by
    obtain ⟨a, mem⟩ := assigned at_
    obtain ⟨t', found, content⟩ := named.content mem
    rw [entry, at_, Option.some.injEq] at found
    subst found
    rw [TypeNames.nameAt, read mem]
    exact content
  refine ⟨fun {i t} at_ => ?_, fun here there same => ?_, fun at_ at_' base same => ?_,
    fun here => (named.taken (primary here)).2⟩
  · obtain ⟨t', j, found, same, chosen⟩ := named.shapes (shape at_)
    refine ⟨j, t', entry.mp found, ?_, ?_, congrArg Prod.snd same⟩
    · rw [TypeNames.isPrimary, read chosen]
      rfl
    · rw [TypeNames.nameAt, read chosen]
      rfl
  · exact named.distinct (primary here) (same ▸ primary there)
  · refine congrArg Prod.snd (List.inj_on_of_nodup_map named.unique (shape at_) (shape at_') ?_)
    exact Prod.ext base same

/-- The declarations in the order in which they are named: those of named components come first. -/
def turns (r : Run) (decls : List TypeDecl) : List (TypeDecl × Nat) :=
  let parts := decls.zipIdx.partition fun entry => (r.registeredName? entry.1.node).isSome
  parts.1 ++ parts.2

/-- Every declaration has its turn. -/
theorem turns_perm (r : Run) (decls : List TypeDecl) : (turns r decls).Perm decls.zipIdx := by
  rw [turns, List.partition_eq_filter_filter]
  exact List.filter_append_perm _ _

/-- **All declarations are named.** -/
theorem assignNames_names (r : Run) {decls : List TypeDecl}
    (stems : ∀ t ∈ decls, RestGraph.Naming.IsStem t.base) :
    (assignNames r decls).Names decls := by
  have perm := turns_perm r decls
  have stems : ∀ e ∈ turns r decls, RestGraph.Naming.IsStem e.1.base := fun e mem =>
    stems e.1 (List.mem_of_getElem? (List.mem_zipIdx_iff_getElem?.mp (perm.mem_iff.mp mem)))
  have named := (Naming.Named.start decls).all (g := r.graph) stems
  exact named.names perm rfl

end TypeDecl

end RestGraph
