import RestGraph.Proofs.Graph.Ids
import RestGraph.Proofs.Schema.TypeNames

/-!
# Signatures

A signature is a row of words: a keyword, and then a value each or a field each. Nothing is escaped
in it, so that only of words that are legible can be said that they are read back. Of those, the
signature tells the kind of a declaration, its values, and the keys, types and marks of its fields.
-/

namespace RestGraph

/-- Words without the separator are read back from their row. -/
theorem Text.join_injective (sep : Char) {words words' : List String}
    (apart : ∀ w ∈ words, sep ∉ w.toList) (apart' : ∀ w ∈ words', sep ∉ w.toList)
    (some : words ≠ []) (some' : words' ≠ [])
    (same : join (String.singleton sep) words = join (String.singleton sep) words') :
    words = words' := by
  have split : ∀ {ws : List String}, (∀ w ∈ ws, sep ∉ w.toList) → ws ≠ [] →
      (join (String.singleton sep) ws).toList.splitOn sep = ws.map String.toList :=
    fun {ws} apart some => by
      rw [join, String.toList_ofList, String.toList_singleton, List.splitOn_intercalate]
      · exact List.forall_mem_map.mpr apart
      · exact fun none => some (List.map_eq_nil_iff.mp none)
  have chars := split apart some
  rw [same, split apart' some'] at chars
  exact (List.map_injective_iff.mpr fun _ _ => String.toList_inj.mp) chars.symm

theorem Text.join_cons (sep word : String) (words : List String) :
    join sep (word :: words) = word ++ String.join (words.map (sep ++ ·)) := by
  refine String.toList_inj.mp ?_
  induction words generalizing word with
  | nil => simp [join]
  | cons next rest ih =>
    have later := ih next
    simp only [join, List.map_cons, String.toList_ofList, List.intercalate_cons_cons,
      String.join_cons, String.toList_append, List.append_assoc] at later ⊢
    rw [later]

/-- Lists with the same images have the same images under another map that tells no more. -/
theorem map_eq_map_of {α β γ : Type} {f : α → β} {g : α → γ} {xs ys : List α}
    (tells : ∀ x ∈ xs, ∀ y ∈ ys, f x = f y → g x = g y) (same : xs.map f = ys.map f) :
    xs.map g = ys.map g := by
  induction xs generalizing ys with
  | nil =>
    cases ys with
    | nil => rfl
    | cons => cases same
  | cons x xs ih =>
    cases ys with
    | nil => cases same
    | cons y ys =>
      obtain ⟨head, tail⟩ := List.cons.inj same
      rw [List.map_cons, List.map_cons, tells x List.mem_cons_self y List.mem_cons_self head,
        ih (fun x hx y hy => tells x (List.mem_cons_of_mem _ hx) y (List.mem_cons_of_mem _ hy))
          tail]

theorem ScalarType.graphqlName_injective : Function.Injective graphqlName := by
  intro type type' same
  cases type <;> cases type' <;> first | rfl | exact absurd same (by decide)

/-- What a signature says of a field. -/
structure FieldShape where
  jsonName : String
  type : TypeRef
  required : Bool
deriving DecidableEq

def FieldDecl.shape (x : FieldDecl) : FieldShape := ⟨x.jsonName, x.type, x.required⟩

/-- What a signature says of a declaration: its values, or whether it is an input, and its
fields. -/
def TypeDecl.shape (t : TypeDecl) : List String ⊕ Bool × List FieldShape :=
  match t.definition with
  | .enum values => .inl values
  | .object fields => .inr (t.input, fields.map FieldDecl.shape)

theorem Naming.space_notMem_of_isEnumValue {s : String} (value : isEnumValue s = true) :
    ' ' ∉ s.toList := by
  unfold isEnumValue at value
  simp only [Bool.and_eq_true] at value
  have identifier := value.1.1.1
  unfold isIdentifier at identifier
  cases chars : s.toList with
  | nil => exact List.not_mem_nil
  | cons x xs =>
    rw [chars, isIdentifierChars, Bool.and_eq_true, List.all_eq_true] at identifier
    intro mem
    rcases List.mem_cons.mp mem with rfl | mem
    · exact absurd identifier.1 (by decide)
    · exact absurd (identifier.2 _ mem) (by decide)

namespace TypeDecl

variable {decls : List TypeDecl} {t t' : TypeDecl} {ty ty' : TypeRef}

/-! ## Types -/

/-- The text has a colon, and no bracket before it. -/
def IsKey (key : String) : Prop := ':' ∈ key.toList ∧ key.toList.head? ≠ some '['

/-- The type without its brackets is declared, if it is no scalar. -/
def Refers (decls : List TypeDecl) (ty : TypeRef) : Prop :=
  ∀ j, ty.core = .named j → j < decls.length

theorem keyAt_eq {j : Nat} (lt : j < decls.length) : keyAt decls j = decls[j].key := by
  rw [keyAt, List.getElem?_eq_getElem lt]
  rfl

/-- No type has the key of another one. -/
theorem typeKey_injective (nodup : (decls.map TypeDecl.key).Nodup)
    (keys : ∀ t ∈ decls, IsKey t.key) (refers : Refers decls ty) (refers' : Refers decls ty')
    (same : typeKey decls ty = typeKey decls ty') : ty = ty' := by
  have isKey : ∀ {j}, j < decls.length → IsKey (keyAt decls j) := fun lt => by
    rw [keyAt_eq lt]
    exact keys _ (List.getElem_mem lt)
  have noScalar : ∀ {j type}, j < decls.length → keyAt decls j ≠ ScalarType.graphqlName type :=
    fun {j type} lt same => by
      have colon := (isKey lt).1
      rw [same] at colon
      cases type <;> exact absurd colon (by decide)
  have noList : ∀ {j ty}, j < decls.length → keyAt decls j ≠ "[" ++ typeKey decls ty ++ "]" :=
    fun {j ty} lt same => by
      refine (isKey lt).2 ?_
      rw [same]
      simp
  have noScalarList : ∀ {type ty}, ScalarType.graphqlName type ≠ "[" ++ typeKey decls ty ++ "]" :=
    fun {type ty} same => by
      have heads := congrArg (fun s => s.toList.head?) same
      simp only [String.toList_append] at heads
      cases type <;> exact absurd heads (by simp [ScalarType.graphqlName])
  induction ty generalizing ty' with
  | scalar type =>
    cases ty' with
    | scalar type' => rw [ScalarType.graphqlName_injective same]
    | named j => exact absurd same.symm (noScalar (refers' j rfl))
    | list => exact absurd same noScalarList
  | named i =>
    cases ty' with
    | scalar => exact absurd same (noScalar (refers i rfl))
    | named j =>
      have lt := refers i rfl
      have lt' := refers' j rfl
      have keys : (decls.map TypeDecl.key)[i]? = (decls.map TypeDecl.key)[j]? := by
        rw [List.getElem?_map, List.getElem?_map, List.getElem?_eq_getElem lt,
          List.getElem?_eq_getElem lt', Option.map_some, Option.map_some, ← keyAt_eq lt,
          ← keyAt_eq lt']
        exact congrArg some same
      rw [(List.getElem?_inj (by rwa [List.length_map]) nodup).mp keys]
    | list => exact absurd same (noList (refers i rfl))
  | list element ih =>
    cases ty' with
    | scalar => exact absurd same.symm noScalarList
    | named j => exact absurd same.symm (noList (refers' j rfl))
    | list element' =>
      have inner : typeKey decls element = typeKey decls element' := by
        have chars := congrArg String.toList same
        simp only [typeKey, String.toList_append, List.append_assoc, List.append_cancel_left_eq,
          List.append_cancel_right_eq] at chars
        exact String.toList_inj.mp chars
      have declared : Refers decls element' := refers'
      rw [ih refers declared inner]

/-! ## Fields -/

def fieldWord (decls : List TypeDecl) (x : FieldDecl) : String :=
  x.jsonName ++ ":" ++ typeKey decls x.type ++ if x.required then "!" else ""

def words (decls : List TypeDecl) (t : TypeDecl) : List String :=
  match t.definition with
  | .enum values => "enum" :: values
  | .object fields => (if t.input then "input" else "type") :: fields.map (fieldWord decls)

/-- The words of the field can be told apart, and the parts of its own word as well. -/
structure IsLegible (decls : List TypeDecl) (x : FieldDecl) : Prop where
  name : ':' ∉ x.jsonName.toList
  word : ' ' ∉ (fieldWord decls x).toList
  unmarked : (typeKey decls x.type).toList.getLast? ≠ some '!'

instance {x : FieldDecl} : Decidable (IsLegible decls x) :=
  decidable_of_iff (':' ∉ x.jsonName.toList ∧ ' ' ∉ (fieldWord decls x).toList ∧
      (typeKey decls x.type).toList.getLast? ≠ some '!')
    ⟨fun h => ⟨h.1, h.2.1, h.2.2⟩, fun h => ⟨h.name, h.word, h.unmarked⟩⟩

/-- A signature spells the words of its declaration. -/
theorem signature_eq_join (proper : t.IsProper) :
    signature decls t = Text.join " " (words decls t) := by
  unfold signature words
  cases definition : t.definition with
  | enum values =>
    have some := proper.definition
    rw [definition] at some
    obtain ⟨v, vs, rfl⟩ := List.exists_cons_of_ne_nil some
    simp only [Text.join_cons, List.map_cons, String.join_cons, String.append_assoc]
    rfl
  | object fields =>
    dsimp only
    rw [Text.join_cons, List.map_map]
    simp only [Function.comp_def, fieldWord, String.append_assoc]

/-- The word of a legible field tells its key, its type and its mark. -/
theorem shape_of_fieldWord {x y : FieldDecl} (nodup : (decls.map TypeDecl.key).Nodup)
    (keys : ∀ t ∈ decls, IsKey t.key) (legible : IsLegible decls x) (legible' : IsLegible decls y)
    (refers : Refers decls x.type) (refers' : Refers decls y.type)
    (same : fieldWord decls x = fieldWord decls y) : x.shape = y.shape := by
  have chars := congrArg String.toList same
  simp only [fieldWord, String.toList_append, List.append_assoc] at chars
  obtain ⟨name, rest⟩ := both_eq_of_append_cons (x := ':') legible.name legible'.name chars
  have ends : ∀ {a b : String}, a.toList = b.toList ++ "!".toList → a.toList.getLast? = some '!' :=
    fun same => by
      rw [same]
      exact List.getLast?_concat
  have type : typeKey decls x.type = typeKey decls y.type ∧ x.required = y.required := by
    cases marked : x.required <;> cases marked' : y.required <;> rw [marked, marked'] at rest
    · exact ⟨String.toList_inj.mp (by simpa using rest), rfl⟩
    · exact absurd (ends (by simpa using rest)) legible.unmarked
    · exact absurd (ends (by simpa using rest.symm)) legible'.unmarked
    · exact ⟨String.toList_inj.mp (by simpa using rest), rfl⟩
  unfold FieldDecl.shape
  rw [String.toList_inj.mp name, typeKey_injective nodup keys refers refers' type.1, type.2]

/-! ## Declarations -/

/-- Declarations of one shape have one signature. -/
theorem signature_of_shape (same : t.shape = t'.shape) :
    signature decls t = signature decls t' := by
  unfold shape at same
  unfold signature
  cases definition : t.definition <;> cases definition' : t'.definition <;>
    rw [definition, definition'] at same <;> dsimp only at same ⊢
  · rw [Sum.inl.inj same]
  · cases same
  · cases same
  · obtain ⟨input, fields⟩ := Prod.mk.inj (Sum.inr.inj same)
    rw [input, map_eq_map_of (fun x _ y _ same => ?_) fields]
    obtain ⟨name, type, required⟩ := FieldShape.mk.inj same
    rw [name, type, required]

/-- No word has a space, so that all of them are read back. -/
theorem space_notMem_of_mem_words (proper : t.IsProper)
    (legible : ∀ x ∈ t.definition.fields, IsLegible decls x) :
    ∀ w ∈ words decls t, ' ' ∉ w.toList := fun w mem => by
  unfold words at mem
  cases definition : t.definition with
  | enum values =>
    rw [definition] at mem
    rcases List.mem_cons.mp mem with rfl | mem
    · decide
    · refine Naming.space_notMem_of_isEnumValue (proper.values w ?_)
      rwa [definition]
  | object fields =>
    rw [definition] at mem legible
    rcases List.mem_cons.mp mem with rfl | mem
    · cases t.input <;> decide
    · obtain ⟨x, field, rfl⟩ := List.mem_map.mp mem
      exact (legible x field).word

theorem words_ne_nil : words decls t ≠ [] := by
  unfold words
  split <;> exact List.cons_ne_nil _ _

/-- The keyword tells the kind. -/
theorem shape_of_words
    (tells : ∀ x ∈ t.definition.fields, ∀ y ∈ t'.definition.fields,
      fieldWord decls x = fieldWord decls y → x.shape = y.shape)
    (same : words decls t = words decls t') : t.shape = t'.shape := by
  have other : ∀ input : Bool, "enum" ≠ if input then "input" else "type" := by decide
  unfold words at same
  unfold shape
  cases definition : t.definition <;> cases definition' : t'.definition <;>
    rw [definition, definition'] at same tells
  case enum.enum => rw [(List.cons.inj same).2]
  case enum.object => exact absurd (List.cons.inj same).1 (other _)
  case object.enum => exact absurd (List.cons.inj same).1.symm (other _)
  case object.object fields fields' =>
    obtain ⟨keyword, tail⟩ := List.cons.inj same
    have input : t.input = t'.input := by
      revert keyword
      cases t.input <;> cases t'.input <;> decide
    have shapes : fields.map FieldDecl.shape = fields'.map FieldDecl.shape :=
      map_eq_map_of tells tail
    rw [input]
    exact congrArg (fun shapes => Sum.inr (t'.input, shapes)) shapes

/-- Where the fields are legible, the signature tells all that goes into it. -/
theorem shape_of_signature (nodup : (decls.map TypeDecl.key).Nodup)
    (keys : ∀ t ∈ decls, IsKey t.key) (proper : t.IsProper)
    (proper' : t'.IsProper)
    (legible : ∀ x ∈ t.definition.fields, IsLegible decls x)
    (legible' : ∀ x ∈ t'.definition.fields, IsLegible decls x)
    (refers : ∀ x ∈ t.definition.fields, Refers decls x.type)
    (refers' : ∀ x ∈ t'.definition.fields, Refers decls x.type)
    (same : signature decls t = signature decls t') : t.shape = t'.shape := by
  rw [signature_eq_join proper, signature_eq_join proper'] at same
  refine shape_of_words (fun x hx y hy => ?_) (Text.join_injective ' '
    (space_notMem_of_mem_words proper legible) (space_notMem_of_mem_words proper' legible')
    words_ne_nil words_ne_nil same)
  exact shape_of_fieldWord nodup keys (legible x hx) (legible' y hy) (refers x hx) (refers' y hy)

end TypeDecl

end RestGraph
