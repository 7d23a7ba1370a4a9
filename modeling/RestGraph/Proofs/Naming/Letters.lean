import RestGraph.Naming.Basic

/-!
# Characters of names

The names of fields consist of letters, digits and underscores, whatever text they were taken from,
and stay so when they are made unique.
-/

namespace RestGraph.Naming

/-- Whether a character may stand in a name. -/
def isNameChar (c : Char) : Bool := isLetter c || c.isDigit

@[simp]
theorem isNameChar_of_isAlphanum {c : Char} (alnum : c.isAlphanum = true) :
    isNameChar c = true := by
  rw [Char.isAlphanum, Bool.or_eq_true] at alnum
  rw [isNameChar, isLetter, Bool.or_eq_true, Bool.or_eq_true]
  exact alnum.imp_left .inl

@[simp] theorem isAlphanum_toUpper {c : Char} (alnum : c.isAlphanum = true) :
    c.toUpper.isAlphanum = true := by
  delta Char.isAlphanum Char.isAlpha Char.isUpper Char.isLower Char.isDigit Char.toUpper at *
  simp [UInt32.le_iff_toNat_le] at alnum ⊢
  split
  · simp only [Char.toNat, UInt32.toNat_add, UInt32.reduceToNat]
    have code : c.val.toNat = c.toNat := rfl
    omega
  · omega

@[simp] theorem isAlphanum_toLower {c : Char} (alnum : c.isAlphanum = true) :
    c.toLower.isAlphanum = true := by
  delta Char.isAlphanum Char.isAlpha Char.isUpper Char.isLower Char.isDigit Char.toLower at *
  simp [UInt32.le_iff_toNat_le] at alnum ⊢
  split
  · simp only [Char.toNat, UInt32.toNat_add, UInt32.reduceToNat]
    have code : c.val.toNat = c.toNat := rfl
    omega
  · omega

/-! ## Words -/

theorem mem_splitOnP {p : Char → Bool} {cs w : List Char} {c : Char} (word : w ∈ cs.splitOnP p)
    (mem : c ∈ w) : c ∈ cs ∧ p c = false := by
  induction cs generalizing w with
  | nil =>
    rw [List.splitOnP_nil, List.mem_singleton] at word
    rw [word] at mem
    cases mem
  | cons x rest ih =>
    rw [List.splitOnP_cons_eq_if_modifyHead] at word
    split at word
    · rcases List.mem_cons.mp word with rfl | word
      · cases mem
      · exact (ih word mem).imp_left (List.mem_cons_of_mem x)
    · next other =>
      cases pieces : rest.splitOnP p with
      | nil => exact absurd pieces (List.splitOnP_ne_nil p rest)
      | cons first more =>
        rw [pieces, List.modifyHead_cons, List.mem_cons] at word
        rcases word with rfl | word
        · rcases List.mem_cons.mp mem with rfl | mem
          · exact ⟨List.mem_cons_self, Bool.not_eq_true _ ▸ other⟩
          · exact (ih (pieces ▸ List.mem_cons_self) mem).imp_left (List.mem_cons_of_mem x)
        · exact (ih (pieces ▸ List.mem_cons_of_mem _ word) mem).imp_left (List.mem_cons_of_mem x)

theorem mem_wordsBy {p : Char → Bool} {cs w : List Char} {c : Char} (word : w ∈ wordsBy p cs)
    (mem : c ∈ w) : c ∈ cs ∧ p c = false :=
  mem_splitOnP (List.mem_filter.mp word).1 mem

theorem mem_intercalate {sep : List Char} {ws : List (List Char)} {c : Char}
    (mem : c ∈ sep.intercalate ws) : c ∈ sep ∨ ∃ w ∈ ws, c ∈ w := by
  induction ws with
  | nil => cases mem
  | cons w rest ih =>
    cases rest with
    | nil =>
      rw [List.intercalate_singleton] at mem
      exact .inr ⟨w, List.mem_singleton_self w, mem⟩
    | cons w' more =>
      rw [List.intercalate_cons_cons, List.mem_append, List.mem_append] at mem
      rcases mem with (mem | mem) | mem
      · exact .inr ⟨w, List.mem_cons_self, mem⟩
      · exact .inl mem
      · refine (ih mem).imp_right ?_
        rintro ⟨v, hv, mem⟩
        exact ⟨v, List.mem_cons_of_mem w hv, mem⟩

theorem isAlphanum_capitalise {w : List Char} (alnum : ∀ c ∈ w, c.isAlphanum = true) {c : Char}
    (mem : c ∈ capitalise w) : c.isAlphanum = true := by
  cases w with
  | nil => cases mem
  | cons x rest =>
    rcases List.mem_cons.mp mem with rfl | mem
    · exact isAlphanum_toUpper (alnum x List.mem_cons_self)
    · exact alnum c (List.mem_cons_of_mem x mem)

theorem isAlphanum_uncapitalise {w : List Char} (alnum : ∀ c ∈ w, c.isAlphanum = true) {c : Char}
    (mem : c ∈ uncapitalise w) : c.isAlphanum = true := by
  unfold uncapitalise at mem
  split at mem
  · obtain ⟨x, hx, rfl⟩ := List.mem_map.mp mem
    exact isAlphanum_toLower (alnum x hx)
  · cases w with
    | nil => cases mem
    | cons x rest =>
      rcases List.mem_cons.mp mem with rfl | mem
      · exact isAlphanum_toLower (alnum x List.mem_cons_self)
      · exact alnum c (List.mem_cons_of_mem x mem)

/-- Words of letters and digits are joined to such a word. -/
theorem isAlphanum_joinCamel {ws : List (List Char)}
    (alnum : ∀ w ∈ ws, ∀ c ∈ w, c.isAlphanum = true) {c : Char} (mem : c ∈ joinCamel ws) :
    c.isAlphanum = true := by
  cases ws with
  | nil => cases mem
  | cons w rest =>
    rcases List.mem_append.mp mem with mem | mem
    · exact isAlphanum_uncapitalise (alnum w List.mem_cons_self) mem
    · obtain ⟨w', hw, mem⟩ := List.mem_flatMap.mp mem
      exact isAlphanum_capitalise (alnum w' (List.mem_cons_of_mem w hw)) mem

/-! ## Names -/

/-- After the invalid characters are dropped, the words are letters and digits. -/
theorem isAlphanum_of_word {cs w : List Char} {c : Char}
    (word : w ∈ wordsBy isSeparator (cs.filter isValid)) (mem : c ∈ w) : c.isAlphanum = true := by
  obtain ⟨kept, inner⟩ := mem_wordsBy word mem
  have valid : isValid c = true := (List.mem_filter.mp kept).2
  simp only [isSeparator, Bool.or_eq_false_iff, beq_eq_false_iff_ne] at inner
  obtain ⟨⟨⟨⟨⟨dash, under⟩, dot⟩, colon⟩, slash⟩, blank⟩ := inner
  have space : c ≠ ' ' := fun e => by
    rw [e] at blank
    exact absurd blank (by decide)
  simpa [isValid, dash, under, dot, colon, slash, space] using valid

/-- So are the words that come out of a text once all of its separators are spaces. -/
theorem isAlphanum_of_spaced {cs w : List Char} {c : Char}
    (word : w ∈ wordsBy (· == ' ') ([' '].intercalate (wordsBy isSeparator (cs.filter isValid))))
    (mem : c ∈ w) : c.isAlphanum = true := by
  obtain ⟨inside, other⟩ := mem_wordsBy word mem
  rcases mem_intercalate inside with space | ⟨w', hw', inside⟩
  · rw [List.mem_singleton.mp space] at other
    cases other
  · exact isAlphanum_of_word hw' inside

/-- A letter, or an underscore before a digit. -/
def startsStem : List Char → Bool
  | c :: rest => c.isAlpha || c == '_' && (rest.head?.any Char.isDigit)
  | [] => false

/-- The name starts as identifiers do that are no reserved names, and goes on with characters of
names. -/
structure IsStem (name : String) : Prop where
  start : startsStem name.toList = true
  chars : ∀ c ∈ name.toList, isNameChar c = true

/-- Letters and digits make a name, if an underscore is put before a digit at the start. -/
theorem isStem_guarded {cs : List Char} (alnum : ∀ c ∈ cs, c.isAlphanum = true) (some : cs ≠ []) :
    IsStem (String.ofList (guarded cs)) := by
  cases cs with
  | nil => exact absurd rfl some
  | cons c rest =>
    have first := alnum c List.mem_cons_self
    have chars : ∀ x ∈ c :: rest, isNameChar x = true := fun x mem =>
      isNameChar_of_isAlphanum (alnum x mem)
    rw [guarded]
    split
    · next digit =>
      constructor
      · simp [startsStem, digit]
      · intro x mem
        rw [String.toList_ofList] at mem
        rcases List.mem_cons.mp mem with rfl | mem
        · rfl
        · exact chars x mem
    · next letter =>
      constructor
      · rw [Char.isAlphanum, Bool.or_eq_true] at first
        simp [startsStem, first.resolve_right letter]
      · rwa [String.toList_ofList]

theorem isStem_orElse {fallback : String} {cs : List Char} (plain : IsStem fallback)
    (alnum : ∀ c ∈ cs, c.isAlphanum = true) : IsStem (orElse fallback (guarded cs)) := by
  cases cs with
  | nil => exact plain
  | cons c rest =>
    have full : (guarded (c :: rest)).isEmpty = false := by
      rw [guarded]
      split <;> rfl
    rw [orElse, full]
    exact isStem_guarded alnum (List.cons_ne_nil c rest)

/-- A field name is a stem. -/
@[simp] theorem isStem_fieldName (raw : String) : IsStem (fieldName raw) := by
  unfold fieldName
  simp only [run, fieldSteps, List.foldl_cons, List.foldl_nil, Step.apply]
  refine isStem_orElse ⟨by decide, List.all_eq_true.mp (by decide)⟩ fun c mem => ?_
  exact isAlphanum_joinCamel (fun w hw c mem => isAlphanum_of_spaced hw mem) mem

/-- A type name is a stem. -/
@[simp] theorem isStem_typeName (raw : String) : IsStem (typeName raw) := by
  unfold typeName
  simp only [run, typeSteps, List.foldl_cons, List.foldl_nil, Step.apply]
  refine isStem_orElse ⟨by decide, List.all_eq_true.mp (by decide)⟩ fun c mem => ?_
  obtain ⟨w, hw, mem⟩ := List.mem_flatMap.mp mem
  exact isAlphanum_capitalise (fun x mem => isAlphanum_of_spaced hw mem) mem

theorem isNameChar_fieldName {raw : String} {c : Char} (mem : c ∈ (fieldName raw).toList) :
    isNameChar c = true :=
  (isStem_fieldName raw).chars c mem

namespace IsStem

variable {name : String}

/-- A stem may be continued with name characters. -/
theorem append (stem : IsStem name) {more : String}
    (chars : ∀ c ∈ more.toList, isNameChar c = true) : IsStem (name ++ more) := by
  obtain ⟨start, own⟩ := stem
  constructor
  · rw [String.toList_append]
    cases cs : name.toList with
    | nil =>
      rw [cs] at start
      cases start
    | cons c rest =>
      rw [cs] at start
      cases rest with
      | nil => simp_all [startsStem]
      | cons x rest => exact start
  · intro c mem
    rw [String.toList_append] at mem
    exact (List.mem_append.mp mem).elim (own c) (chars c)

/-- A stem is an identifier. -/
theorem isIdentifier (stem : IsStem name) : isIdentifier name = true := by
  obtain ⟨start, chars⟩ := stem
  unfold Naming.isIdentifier
  cases cs : name.toList with
  | nil =>
    rw [cs] at start
    cases start
  | cons c rest =>
    rw [cs] at start chars
    rw [isIdentifierChars, Bool.and_eq_true, List.all_eq_true]
    refine ⟨?_, fun x mem => chars x (List.mem_cons_of_mem c mem)⟩
    rw [startsStem, Bool.or_eq_true, Bool.and_eq_true] at start
    rw [isLetter, Bool.or_eq_true]
    exact start.imp_right And.left

/-- No name of the language itself begins so. -/
theorem not_reserved (stem : IsStem name) : Text.startsWith "__" name = false := by
  obtain ⟨start, -⟩ := stem
  unfold Text.startsWith
  cases cs : name.toList with
  | nil => rfl
  | cons c rest =>
    rw [cs] at start
    cases rest with
    | nil => simp [List.isPrefixOf]
    | cons x rest =>
      refine Bool.eq_false_iff.mpr fun reserved => ?_
      have both : '_' = c ∧ '_' = x := by simpa [List.isPrefixOf] using reserved
      obtain ⟨rfl, rfl⟩ := both
      cases start

end IsStem

theorem isNameChar_guardReserved {raw : String} {c : Char}
    (mem : c ∈ (guardReserved raw).name.toList) : isNameChar c = true := by
  unfold guardReserved at mem
  split at mem
  · have reserved : reservedName.toList.all isNameChar = true := by decide
    exact List.all_eq_true.mp reserved c mem
  · exact isNameChar_fieldName mem

/-- The digits of a number tell which it is. -/
theorem toString_inj {m n : Nat} (same : toString m = toString n) : m = n := by
  have digits := congrArg String.toList same
  rw [Nat.toString_eq_repr, Nat.toString_eq_repr, Nat.toList_repr, Nat.toList_repr] at digits
  have value := congrArg (fun cs => Nat.ofDigitChars 10 cs 0) digits
  simpa [Nat.ofDigitChars_ten_toDigits] using value

@[simp] theorem isNameChar_toString {n : Nat} {c : Char} (mem : c ∈ (toString n).toList) :
    isNameChar c = true := by
  rw [Nat.toString_eq_repr, Nat.toList_repr] at mem
  rw [isNameChar, Bool.or_eq_true]
  exact .inr (Nat.isDigit_of_mem_toDigits (by decide) (by decide) mem)

/-- The search ends at the base name with a number behind it. -/
theorem exists_firstFree_eq (taken : List String) (base : String) (count n : Nat) :
    ∃ k : Nat, firstFree taken base count n = base ++ toString k := by
  induction count generalizing n with
  | zero => exact ⟨n, rfl⟩
  | succ count ih =>
    rw [firstFree]
    split
    · exact ih (n + 1)
    · exact ⟨n, rfl⟩

theorem isNameChar_unique {taken : List String} {name : String}
    (chars : ∀ c ∈ name.toList, isNameChar c = true) {c : Char}
    (mem : c ∈ (unique taken name).toList) : isNameChar c = true := by
  unfold unique at mem
  split at mem
  · obtain ⟨k, numbered⟩ := exists_firstFree_eq taken name taken.length 2
    rw [numbered, String.toList_append] at mem
    exact (List.mem_append.mp mem).elim (chars c) isNameChar_toString
  · exact chars c mem

theorem IsStem.firstFree {base : String} (stem : IsStem base) (taken : List String)
    (count n : Nat) : IsStem (firstFree taken base count n) := by
  obtain ⟨k, numbered⟩ := exists_firstFree_eq taken base count n
  rw [numbered]
  exact stem.append fun _ => isNameChar_toString

/-- A unique name is a stem when the wanted one is. -/
theorem IsStem.unique {name : String} (stem : IsStem name) (taken : List String) :
    IsStem (unique taken name) := by
  unfold Naming.unique
  split
  · exact stem.firstFree _ _ _
  · exact stem

end RestGraph.Naming
