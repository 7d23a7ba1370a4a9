import RestGraph.Proofs.Naming.Letters
import RestGraph.Proofs.Graph.Roots
import RestGraph.Proofs.Schema.Closed
import RestGraph.Proofs.Schema.TypeNames

/-!
# Legal names

Whatever a name is made from, it matches `[A-Za-z_][A-Za-z0-9_]*` and does not begin with two
underscores, and numbers and prefixes that make names differ keep it so. The name of a type is
settled: to name it again changes nothing.
-/

namespace RestGraph.Naming

variable {name : String} {cs : List Char}

/-- The text is a letter or an underscore, then letters, digits and underscores, and the first two
characters are not both underscores. -/
def IsLegal (name : String) : Prop :=
  (∃ first rest, name.toList = first :: rest ∧ (first.isAlpha = true ∨ first = '_') ∧
    ∀ c ∈ rest, c.isAlphanum = true ∨ c = '_') ∧
  ¬ ['_', '_'] <+: name.toList

@[simp] theorem isLetter_iff {c : Char} : isLetter c = true ↔ c.isAlpha = true ∨ c = '_' := by
  rw [isLetter, Bool.or_eq_true, beq_iff_eq]

@[simp]
theorem isNameChar_iff {c : Char} : isNameChar c = true ↔ c.isAlphanum = true ∨ c = '_' := by
  rw [isNameChar, Bool.or_eq_true, isLetter_iff, Char.isAlphanum, Bool.or_eq_true]
  exact or_right_comm

/-- The legal names are those that are tested for when a schema is written. -/
theorem isLegal_iff : IsLegal name ↔ Draft.IsValidName name := by
  have reserved : Text.startsWith "__" name = false ↔ ¬ ['_', '_'] <+: name.toList := by
    rw [← Bool.not_eq_true, Text.startsWith]
    exact not_congr List.isPrefixOf_iff_prefix
  rw [Draft.IsValidName, reserved]
  refine and_congr_left fun _ => ?_
  unfold isIdentifier
  cases name.toList with
  | nil => simp [isIdentifierChars]
  | cons first rest =>
    rw [isIdentifierChars, Bool.and_eq_true, isLetter_iff, List.all_eq_true]
    constructor
    · rintro ⟨_, _, same, start, chars⟩
      cases same
      exact ⟨start, fun c mem => isNameChar_iff.mpr (chars c mem)⟩
    · rintro ⟨start, chars⟩
      exact ⟨first, rest, rfl, start, fun c mem => isNameChar_iff.mp (chars c mem)⟩

/-- A stem is a legal name. -/
theorem IsStem.isLegal (stem : IsStem name) : IsLegal name := isLegal_iff.mpr stem.isValidName

theorem isStem_reservedName : IsStem reservedName :=
  ⟨by decide, List.all_eq_true.mp (by decide)⟩

/-- A guarded name is a stem. -/
theorem isStem_guardReserved (raw : String) : IsStem (guardReserved raw).name := by
  unfold guardReserved
  split
  · exact isStem_reservedName
  · exact isStem_fieldName raw

/-! ## Numbers and prefixes -/

/-- A number behind a legal name keeps it legal, since no digit is an underscore. -/
theorem IsLegal.numbered (legal : IsLegal name) (k : Nat) : IsLegal (name ++ toString k) := by
  obtain ⟨⟨first, rest, chars, start, others⟩, plain⟩ := legal
  have digits : ∀ c ∈ (toString k).toList, c.isDigit = true := fun c mem => by
    rw [Nat.toString_eq_repr, Nat.toList_repr] at mem
    exact Nat.isDigit_of_mem_toDigits (by decide) (by decide) mem
  unfold IsLegal
  rw [String.toList_append, chars, List.cons_append]
  rw [chars] at plain
  refine ⟨⟨first, _, rfl, start, fun c mem => ?_⟩, fun reserved => ?_⟩
  · refine (List.mem_append.mp mem).elim (others c) fun digit => .inl ?_
    rw [Char.isAlphanum, digits c digit, Bool.or_true]
  · obtain ⟨same, after⟩ := List.cons_prefix_cons.mp reserved
    cases rest with
    | nil =>
      have first := digits '_' (after.subset List.mem_cons_self)
      cases first
    | cons second rest =>
      obtain ⟨same', -⟩ := List.cons_prefix_cons.mp after
      exact plain (same ▸ same' ▸ List.prefix_append ['_', '_'] rest)

theorem IsLegal.firstFree (legal : IsLegal name) (taken : List String) (count n : Nat) :
    IsLegal (firstFree taken name count n) := by
  obtain ⟨k, numbered⟩ := exists_firstFree_eq taken name count n
  exact numbered ▸ legal.numbered k

/-- A unique name is as legal as the wanted one. -/
theorem IsLegal.unique (legal : IsLegal name) (taken : List String) :
    IsLegal (unique taken name) := by
  unfold Naming.unique
  split
  · exact legal.firstFree _ _ _
  · exact legal

/-! ## Names of types are settled -/

@[simp]
theorem wordsBy_of_forall_not {p : Char → Bool} (some : cs ≠ []) (none : ∀ c ∈ cs, p c = false) :
    wordsBy p cs = [cs] := by
  rw [wordsBy, List.splitOnP_eq_singleton none]
  exact List.filter_eq_self.mpr (by simpa using some)

/-- Every section of a component pointer starts with a hash. -/
@[simp] theorem withoutSection_of_head? (other : cs.head? ≠ some '#') : withoutSection cs = cs := by
  have hash : ∀ s ∈ componentSections ++ [schemasAbbreviation], s.toList.head? = some '#' := by
    decide
  have none : (componentSections ++ [schemasAbbreviation]).findSome?
      (fun s => s.toList.isPrefixOf? cs) = none := by
    refine List.findSome?_eq_none_iff.mpr fun s mem => Option.eq_none_iff_forall_ne_some.mpr ?_
    intro rest begun
    rw [List.isPrefixOf?_eq_some_iff_append_eq] at begun
    rw [← begun, List.head?_append, hash s mem] at other
    exact other rfl
  rw [withoutSection, none]
  rfl

section Plain

variable (chars : ∀ c ∈ cs, isNameChar c = true)

include chars

theorem stripSection_of_plain : Step.stripSection.apply cs = cs := by
  refine withoutSection_of_head? fun hash => ?_
  have char := chars '#' (List.mem_of_head? hash)
  cases char

theorem openBrackets_of_plain : Step.openBrackets.apply cs = cs := by
  have same : ∀ c ∈ cs, (if c = '[' ∨ c = ']' then ' ' else c) = c := fun c mem => by
    refine if_neg fun bracket => ?_
    have char := chars c mem
    rcases bracket with rfl | rfl <;> cases char
  rw [Step.apply, List.map_congr_left same, List.map_id']

theorem dropInvalid_of_plain : Step.dropInvalid.apply cs = cs := by
  refine List.filter_eq_self.mpr fun c mem => ?_
  rcases isNameChar_iff.mp (chars c mem) with alnum | rfl
  · simp [isValid, alnum]
  · rfl

end Plain

@[simp] theorem isLower_toUpper (c : Char) : c.toUpper.isLower = false := by
  delta Char.toUpper Char.isLower
  split <;> grind [UInt32.toNat_add]

@[simp] theorem toUpper_toUpper (c : Char) : c.toUpper.toUpper = c.toUpper := by
  have large : ¬ (c.toUpper.val ≥ 'a'.val ∧ c.toUpper.val ≤ 'z'.val) := fun small =>
    Bool.eq_false_iff.mp (isLower_toUpper c) (by
      delta Char.isLower
      simpa using small)
  exact dif_neg large

theorem capitalise_flatMap (ws : List (List Char)) :
    capitalise (ws.flatMap capitalise) = ws.flatMap capitalise := by
  induction ws with
  | nil => rfl
  | cons w ws ih =>
    cases w with
    | nil => exact ih
    | cons c rest =>
      rw [List.flatMap_cons, capitalise, List.cons_append, capitalise, toUpper_toUpper]

@[simp] theorem isSeparator_of_isAlphanum {c : Char} (alnum : c.isAlphanum = true) :
    isSeparator c = false := by
  have blank : Text.isBlank c = false := by
    delta Char.isAlphanum Char.isAlpha Char.isUpper Char.isLower Char.isDigit at alnum
    simp only [Bool.or_eq_true, Bool.and_eq_true, decide_eq_true_eq, UInt32.le_iff_toNat_le,
      ge_iff_le, UInt32.reduceToNat, Char.reduceVal] at alnum
    have code : c.val.toNat = c.toNat := rfl
    simp only [Text.isBlank, Bool.or_eq_false_iff, Bool.and_eq_false_imp, decide_eq_true_eq,
      decide_eq_false_iff_not, beq_eq_false_iff_ne]
    omega
  refine Bool.eq_false_iff.mpr fun separator => ?_
  simp only [isSeparator, blank, Bool.or_false, Bool.or_eq_true, beq_iff_eq] at separator
  rcases separator with (((rfl | rfl) | rfl) | rfl) | rfl <;> cases alnum

/-- Some letters and digits, the first of them no small letter. -/
structure IsPascal (cs : List Char) : Prop where
  some : cs ≠ []
  alnum : ∀ c ∈ cs, c.isAlphanum = true
  capital : capitalise cs = cs

namespace IsPascal

theorem guarded_chars (pascal : IsPascal cs) : ∀ c ∈ guarded cs, isNameChar c = true := by
  have stem := isStem_guarded pascal.alnum pascal.some
  rw [← String.toList_ofList (l := guarded cs)]
  exact stem.chars

/-- A text in Pascal case is one word. -/
theorem wordsBy_eq (pascal : IsPascal cs) {p : Char → Bool}
    (other : ∀ c : Char, c.isAlphanum = true → p c = false) : wordsBy p cs = [cs] :=
  wordsBy_of_forall_not pascal.some fun c mem => other c (pascal.alnum c mem)

@[simp]
theorem splitWords_guarded (pascal : IsPascal cs) : Step.splitWords.apply (guarded cs) = cs := by
  have word : wordsBy isSeparator cs = [cs] := pascal.wordsBy_eq fun _ => isSeparator_of_isAlphanum
  have words : wordsBy isSeparator (guarded cs) = [cs] := by
    cases cs with
    | nil => exact absurd rfl pascal.some
    | cons c rest =>
      rw [guarded]
      split
      · rw [wordsBy, List.splitOnP_cons_eq_if_modifyHead, if_pos (by decide)]
        exact word
      · exact word
  rw [Step.apply, words, List.intercalate_singleton]

/-- A text in Pascal case is not changed by the last step. -/
@[simp] theorem pascal_eq (pascal : IsPascal cs) : Step.pascal.apply cs = cs := by
  have word : wordsBy (· == ' ') cs = [cs] := pascal.wordsBy_eq fun c alnum =>
    beq_eq_false_iff_ne.mpr fun blank => by
      rw [blank] at alnum
      cases alnum
  rw [Step.apply, word, List.flatMap_singleton, pascal.capital]

/-- A settled list, with the underscore before its first digit, is what all steps make of it. -/
@[simp] theorem run_guarded (pascal : IsPascal cs) : run typeSteps (guarded cs) = guarded cs := by
  have chars := pascal.guarded_chars
  simp only [run, typeSteps, List.foldl_cons, List.foldl_nil]
  rw [stripSection_of_plain chars, openBrackets_of_plain chars, dropInvalid_of_plain chars,
    pascal.splitWords_guarded, pascal.pascal_eq, Step.apply]

end IsPascal

@[simp] theorem orElse_guarded (fallback : String) (some : cs ≠ []) :
    orElse fallback (guarded cs) = String.ofList (guarded cs) := by
  obtain ⟨first, rest, rfl⟩ := List.exists_cons_of_ne_nil some
  rw [orElse, if_neg]
  rw [guarded]
  split <;> exact Bool.false_ne_true

theorem isPascal_anonymous : IsPascal "Anonymous".toList where
  some := by decide
  alnum := List.all_eq_true.mp (by decide)
  capital := by decide

/-- The name of a type is settled letters and digits, with an underscore before a digit in front. -/
theorem exists_isPascal (raw : String) :
    ∃ cs, IsPascal cs ∧ typeName raw = String.ofList (guarded cs) := by
  unfold typeName
  simp only [run, typeSteps, List.foldl_cons, List.foldl_nil, Step.apply]
  -- the words that are joined, each of letters and digits
  generalize made : wordsBy (· == ' ') _ = words
  by_cases empty : words.flatMap capitalise = []
  · have plain : guarded "Anonymous".toList = "Anonymous".toList := by decide
    refine ⟨"Anonymous".toList, isPascal_anonymous, ?_⟩
    rw [empty, plain, String.ofList_toList]
    rfl
  · refine ⟨words.flatMap capitalise, ⟨empty, fun c mem => ?_, capitalise_flatMap words⟩,
      orElse_guarded _ empty⟩
    obtain ⟨w, word, mem⟩ := List.mem_flatMap.mp mem
    exact isAlphanum_capitalise (fun x mem => isAlphanum_of_spaced (made ▸ word) mem) mem

/-- **A type name is its own type name.** -/
@[simp] theorem typeName_typeName (raw : String) : typeName (typeName raw) = typeName raw := by
  obtain ⟨cs, pascal, named⟩ := exists_isPascal raw
  have again : typeName (String.ofList (guarded cs)) = String.ofList (guarded cs) := by
    rw [typeName, String.toList_ofList, pascal.run_guarded, orElse_guarded _ pascal.some]
  rw [named, again]

/-! ## Names of declarations -/

/-- The names that are tried for a declaration are legal, since each is made from names of types. -/
theorem isLegal_of_mem_candidates {g : Graph} {t : TypeDecl} {raw : String}
    (base : t.base = typeName raw ∨ t.base = TypeDecl.baseOf t.input raw)
    (mem : name ∈ TypeDecl.candidates g t) : IsLegal name := by
  have stem : IsStem t.base := by
    rcases base with made | made
    · exact made ▸ isStem_typeName raw
    · exact made ▸ TypeDecl.isStem_baseOf t.input raw
  exact (TypeDecl.isStem_of_mem_candidates stem mem).isLegal

/-- All names that are made are legal, the name of a type is settled, and a name stays legal under
the numbers and prefixes that make it differ from others. -/
theorem names_isLegal (raw : String) (method : Method) (path : String) (id : Option String) :
    IsLegal (typeName raw) ∧ IsLegal (fieldName raw) ∧ IsLegal (operationName method path id) ∧
    IsLegal (guardReserved raw).name ∧ typeName (typeName raw) = typeName raw ∧
    (∀ taken name, IsLegal name → IsLegal (unique taken name)) ∧
    ∀ (g : Graph) (t : TypeDecl),
      t.base = typeName raw ∨ t.base = TypeDecl.baseOf t.input raw →
      ∀ name ∈ TypeDecl.candidates g t, IsLegal name :=
  ⟨(isStem_typeName raw).isLegal, (isStem_fieldName raw).isLegal,
    (isStem_operationName method path id).isLegal, (isStem_guardReserved raw).isLegal,
    typeName_typeName raw, fun taken _ legal => legal.unique taken,
    fun _ _ base _ mem => isLegal_of_mem_candidates base mem⟩

/-- Below the operation "get pets", an item of a list has the names to try "Item" and "GetPetsItem",
and a name of one underscore stays legal when it is numbered. -/
theorem item_names_isLegal :
    let operation : Node :=
      { Node.nowhere with kind := .operation .get "/pets" [], name := "get pets" }
    let item : Node := { Node.nowhere with name := "item", parent := some 0 }
    let g : Graph := ⟨#[operation, item], [0]⟩
    let t : TypeDecl := ⟨1, "item", typeName "item", false, .object [], none⟩
    TypeDecl.candidates g t = ["Item", "GetPetsItem"] ∧
      (∀ name ∈ TypeDecl.candidates g t, IsLegal name) ∧
      unique ["_"] "_" = "_2" ∧ IsLegal (unique ["_"] "_") := by
  intro operation item g t
  have underscore : IsLegal "_" := isLegal_iff.mpr ⟨by decide, by decide⟩
  obtain ⟨-, -, -, -, -, numbered, tried⟩ := names_isLegal "item" .get "/pets" none
  exact ⟨by decide +kernel, tried g t (.inl rfl), by decide +kernel, numbered ["_"] "_" underscore⟩

end RestGraph.Naming
