import RestGraph.Naming.Entry
import RestGraph.Proofs.Naming.Letters
import RestGraph.Proofs.Text.Replace

/-!
# Reading mapping entries

An entry is one name, or a name and a key with a colon between them. A key is an identifier or a
text in quotes, where a backslash stands before a character that is meant itself. The entries that
are written put it before quotes only, so a key with a backslash is not read back; all other keys
are. Still no two keys are written alike.
-/

namespace RestGraph.Naming

variable {cs more rest : List Char} {name key key' text : String}

/-! ## The reader -/

/-- The text up to the closing quote, and what follows the quote. -/
def readQuoted? : List Char → Option (List Char × List Char)
  | [] => none
  | '"' :: rest => some ([], rest)
  | ['\\'] => none
  | '\\' :: c :: rest => (readQuoted? rest).map fun (cs, more) => (c :: cs, more)
  | c :: rest => (readQuoted? rest).map fun (cs, more) => (c :: cs, more)

/-- The longest identifier that the text begins with, and what follows it. -/
def readIdentifier? (cs : List Char) : Option (String × List Char) :=
  let word := cs.takeWhile isNameChar
  if isIdentifierChars word then some (String.ofList word, cs.dropWhile isNameChar) else none

def readKey? : List Char → Option (String × List Char)
  | '"' :: rest => (readQuoted? rest).map fun (cs, more) => (String.ofList cs, more)
  | cs => readIdentifier? cs

/-- One part that stands for both, or two parts with a colon between them. -/
def readParts? (first second : List Char → Option (String × List Char)) (text : String) :
    Option (String × String) :=
  match first text.toList with
  | some (a, []) => some (a, a)
  | some (a, ':' :: ' ' :: rest) => match second rest with
    | some (b, []) => some (a, b)
    | _ => none
  | _ => none

/-- The name and the key of an entry that fills a field. -/
def readSelection? (text : String) : Option (String × String) :=
  readParts? readIdentifier? readKey? text

/-- The name and the key of an entry that fills a key. -/
def readBody? (text : String) : Option (String × String) :=
  (readParts? readKey? readIdentifier? text).map Prod.swap

/-! ## Identifiers -/

/-- An identifier is made of name characters. -/
theorem isNameChar_of_isIdentifier (identifier : isIdentifier name = true) :
    ∀ c ∈ name.toList, isNameChar c = true := by
  unfold isIdentifier at identifier
  cases chars : name.toList with
  | nil => exact fun c none => absurd none List.not_mem_nil
  | cons first rest =>
    rw [chars, isIdentifierChars, Bool.and_eq_true, List.all_eq_true] at identifier
    intro c mem
    rcases List.mem_cons.mp mem with rfl | mem
    · rw [isNameChar, identifier.1, Bool.true_or]
    · exact identifier.2 c mem

theorem notMem_of_isIdentifier {c : Char} (identifier : isIdentifier name = true)
    (other : isNameChar c = false) : c ∉ name.toList := fun mem => by
  rw [isNameChar_of_isIdentifier identifier c mem] at other
  cases other

/-- No identifier before the text goes on into it. -/
def Stops (rest : List Char) : Prop := ∀ c ∈ rest.head?, isNameChar c = false

theorem stops_nil : Stops [] := fun c none => absurd none (Option.not_mem_none c)

theorem stops_colon (rest : List Char) : Stops (':' :: rest) := fun c first => by
  cases first
  decide

/-- An identifier is read up to where it stops. -/
@[simp] theorem readIdentifier?_append (identifier : isIdentifier name = true) (stop : Stops rest) :
    readIdentifier? (name.toList ++ rest) = some (name, rest) := by
  have chars := isNameChar_of_isIdentifier identifier
  have taken : rest.takeWhile isNameChar = [] ∧ rest.dropWhile isNameChar = rest := by
    cases rest with
    | nil => exact ⟨rfl, rfl⟩
    | cons c rest =>
      have stop := stop c rfl
      rw [List.takeWhile_cons, List.dropWhile_cons, stop]
      exact ⟨rfl, rfl⟩
  rw [readIdentifier?, List.takeWhile_append_of_pos chars, List.dropWhile_append_of_pos chars,
    taken.1, taken.2, List.append_nil, String.ofList_toList]
  exact if_pos identifier

@[simp] theorem readIdentifier?_self (identifier : isIdentifier name = true) :
    readIdentifier? name.toList = some (name, []) := by
  have read := readIdentifier?_append identifier stops_nil
  rwa [List.append_nil] at read

/-- What is read is the start of the text. -/
theorem append_of_readIdentifier? (read : readIdentifier? cs = some (name, rest)) :
    cs = name.toList ++ rest := by
  unfold readIdentifier? at read
  dsimp only at read
  split at read
  · cases read
    rw [String.toList_ofList, List.takeWhile_append_dropWhile]
  · cases read

/-! ## Quoted keys -/

def quotedChars (cs : List Char) : List Char := cs.flatMap fun c =>
    if c = '"' then ['\\', '"'] else [c]

@[simp] theorem quotedKey_eq (key : String) :
    (quotedKey key).toList = '"' :: (quotedChars key.toList ++ ['"']) := by
  have written : (Text.replace "\"" "\\\"" key).toList = quotedChars key.toList := by
    rw [Text.replace, String.toList_ofList]
    exact Text.replaceChars_single '"' ['\\', '"'] key.toList
  rw [quotedKey, String.toList_append, String.toList_append, written, List.append_assoc]
  rfl

@[simp] theorem quotedChars_cons (c : Char) (cs : List Char) :
    quotedChars (c :: cs) = (if c = '"' then ['\\', '"'] else [c]) ++ quotedChars cs :=
  List.flatMap_cons

/-- Quoting adds one character for each quote. -/
@[simp] theorem length_quotedChars (cs : List Char) :
    (quotedChars cs).length = cs.length + cs.count '"' := by
  induction cs with
  | nil => rfl
  | cons c rest ih =>
    rw [quotedChars_cons, List.length_append, ih, List.length_cons, List.count_cons]
    split <;> simp [*] <;> omega

/-- A quote inside a text is never the first character that is written for it. -/
theorem head?_quotedChars_ne (cs : List Char) : (quotedChars cs).head? ≠ some '"' := by
  cases cs with
  | nil => exact fun none => by cases none
  | cons c rest =>
    rw [quotedChars_cons]
    split
    · exact fun same => absurd (Option.some.inj same) (by decide)
    · next other => exact fun same => other (Option.some.inj same)

/-- Texts are told apart by how they are quoted. -/
theorem quotedChars_injective : Function.Injective quotedChars := fun cs cs' same => by
  induction cs generalizing cs' with
  | nil =>
    have empty := congrArg List.length same
    rw [length_quotedChars, length_quotedChars, List.length_nil, List.count_nil] at empty
    exact (List.eq_nil_of_length_eq_zero (by omega)).symm
  | cons c rest ih =>
    cases cs' with
    | nil =>
      have empty := congrArg List.length same
      rw [length_quotedChars, length_quotedChars, List.length_nil, List.count_nil,
        List.length_cons] at empty
      omega
    | cons c' rest' =>
      rw [quotedChars_cons, quotedChars_cons] at same
      -- a backslash before a quote is never that of the text, which would go on with a quote
      have apart : ∀ {xs ys}, ['\\', '"'] ++ quotedChars xs ≠ ['\\'] ++ quotedChars ys :=
        fun {xs ys} same => by
          have rest : '"' :: quotedChars xs = quotedChars ys := (List.cons.inj same).2
          exact head?_quotedChars_ne ys (rest ▸ rfl)
      split at same <;> split at same
      · next hit hit' => rw [hit, hit', ih _ (List.append_cancel_left same)]
      · next hit other =>
        obtain rfl : '\\' = c' := (List.cons.inj same).1
        exact absurd same apart
      · next other hit =>
        obtain rfl : c = '\\' := (List.cons.inj same).1
        exact absurd same.symm apart
      · obtain ⟨first, others⟩ := List.cons.inj same
        rw [first, ih _ others]

/-- A character that is neither a quote nor a backslash stands for itself. -/
@[simp]
theorem readQuoted?_cons {c : Char} (quote : c ≠ '"') (slash : c ≠ '\\') (rest : List Char) :
    readQuoted? (c :: rest) = (readQuoted? rest).map fun (cs, more) => (c :: cs, more) :=
  readQuoted?.eq_5 c rest quote (fun same _ => slash same) fun _ _ same _ => slash same

/-- A text without backslashes is read back. -/
@[simp] theorem readQuoted?_quotedChars (plain : '\\' ∉ cs) (rest : List Char) :
    readQuoted? (quotedChars cs ++ '"' :: rest) = some (cs, rest) := by
  induction cs with
  | nil => rfl
  | cons c cs ih =>
    have ih := ih fun mem => plain (List.mem_cons_of_mem c mem)
    rw [quotedChars_cons]
    split
    · next hit =>
      rw [hit, List.append_assoc, List.cons_append, List.cons_append, List.nil_append,
        readQuoted?, ih]
      rfl
    · next other =>
      have kept : c ≠ '\\' := fun same => plain (same ▸ List.mem_cons_self)
      rw [List.append_assoc, List.cons_append, List.nil_append, readQuoted?_cons other kept, ih]
      rfl

/-- What is read as a quote or a backslash is written with a backslash before it. -/
theorem length_of_readQuoted? (read : readQuoted? cs = some (more, rest)) :
    more.length + more.count '"' + more.count '\\' + 1 + rest.length ≤ cs.length := by
  fun_induction readQuoted? cs generalizing more with
  | case1 => cases read
  | case2 rest =>
    cases read
    simp only [List.length_nil, List.count_nil, List.length_cons]
    omega
  | case3 => cases read
  | case4 c cs ih =>
    obtain ⟨⟨more', rest'⟩, inner, same⟩ := Option.map_eq_some_iff.mp read
    cases same
    have := ih inner
    simp only [List.length_cons, List.count_cons]
    split <;> split <;> simp_all <;> omega
  | case5 c cs notQuote alone notSlash ih =>
    obtain ⟨⟨more', rest'⟩, inner, same⟩ := Option.map_eq_some_iff.mp read
    cases same
    have := ih inner
    have quote : c ≠ '"' := notQuote
    have slash : c ≠ '\\' := by
      rintro rfl
      cases cs with
      | nil => exact alone rfl rfl
      | cons c cs => exact notSlash c cs rfl rfl
    rw [List.count_cons_of_ne quote, List.count_cons_of_ne slash, List.length_cons,
      List.length_cons]
    omega

/-! ## Keys -/

/-- A key is read back where it stands exactly if it has no backslash. -/
theorem readKey?_keyText_iff (stop : Stops rest) :
    readKey? ((keyText key).toList ++ rest) = some (key, rest) ↔ '\\' ∉ key.toList := by
  unfold keyText
  split
  · next identifier =>
    have plain : '\\' ∉ key.toList := notMem_of_isIdentifier identifier (by decide)
    have read := readIdentifier?_append identifier stop
    refine ⟨fun _ => plain, fun _ => ?_⟩
    unfold readKey?
    split
    · next quoted =>
      have first : isNameChar '"' = true := by
        cases chars : key.toList with
        | nil =>
          rw [isIdentifier, chars] at identifier
          cases identifier
        | cons c cs =>
          rw [chars] at quoted
          have same : c = '"' := (List.cons.inj quoted).1
          exact same ▸ isNameChar_of_isIdentifier identifier c (chars ▸ List.mem_cons_self)
      cases first
    · exact read
  · rw [quotedKey_eq, List.cons_append, List.append_assoc, List.singleton_append, readKey?,
      Option.map_eq_some_iff]
    constructor
    · rintro ⟨⟨cs, more⟩, read, same⟩
      obtain ⟨chars, rfl⟩ := Prod.mk.inj same
      have bound := length_of_readQuoted? read
      rw [← chars, String.toList_ofList]
      rw [← chars, String.toList_ofList, List.length_append, length_quotedChars,
        List.length_cons] at bound
      exact List.count_eq_zero.mp (by omega)
    · intro plain
      exact ⟨(key.toList, rest), readQuoted?_quotedChars plain rest, by
        simp only [String.ofList_toList]⟩

theorem quotedKey_injective : Function.Injective quotedKey := fun key key' same => by
  have chars := congrArg String.toList same
  rw [quotedKey_eq, quotedKey_eq] at chars
  exact String.toList_inj.mp
    (quotedChars_injective (List.append_cancel_right (List.cons.inj chars).2))

theorem keyText_injective : Function.Injective keyText := fun key key' same => by
  -- a quote is no character of an identifier
  have apart : ∀ {key key'}, isIdentifier key = true → key ≠ quotedKey key' :=
    fun identifier same =>
    notMem_of_isIdentifier (c := '"') identifier (by decide)
      (by rw [same, quotedKey_eq]; exact List.mem_cons_self)
  unfold keyText at same
  split at same <;> split at same
  · exact same
  · next identifier _ => exact absurd same (apart identifier)
  · next identifier => exact absurd same.symm (apart identifier)
  · exact quotedKey_injective same

/-! ## Entries -/

theorem readParts?_eq_pair {first second : List Char → Option (String × List Char)} {a b : String}
    (other : a ≠ b) : readParts? first second text = some (a, b) ↔
      ∃ rest, first text.toList = some (a, ':' :: ' ' :: rest) ∧ second rest = some (b, []) := by
  constructor
  · intro read
    unfold readParts? at read
    split at read
    · cases read
      exact absurd rfl other
    · next a' rest here =>
      split at read
      · next there =>
        cases read
        exact ⟨rest, here, there⟩
      · cases read
    · cases read
  · rintro ⟨rest, here, there⟩
    simp only [readParts?, here, there]

/-- Two names that are equal stand once. -/
theorem readParts?_alone {first second : List Char → Option (String × List Char)}
    (read : first text.toList = some (name, [])) :
    readParts? first second text = some (name, name) := by
  simp only [readParts?, read]

@[simp] theorem selectionEntry_of_ne (other : name ≠ key) :
    (selectionEntry name key).toList = name.toList ++ ':' :: ' ' :: (keyText key).toList := by
  rw [selectionEntry, if_neg other, String.toList_append, String.toList_append, List.append_assoc]
  rfl

@[simp] theorem bodyEntry_of_ne (other : name ≠ key) :
    (bodyEntry key name).toList = (keyText key).toList ++ ':' :: ' ' :: name.toList := by
  rw [bodyEntry, if_neg other, String.toList_append, String.toList_append, List.append_assoc]
  rfl

@[simp] theorem readKey?_of_isIdentifier (identifier : isIdentifier key = true) :
    readKey? key.toList = some (key, []) := by
  have plain : '\\' ∉ key.toList := notMem_of_isIdentifier identifier (by decide)
  have read := (readKey?_keyText_iff stops_nil).mpr plain
  rwa [keyText, if_pos identifier, List.append_nil] at read

section Reading

variable (identifier : isIdentifier name = true)

include identifier

/-- **A selection entry is read back when its key has no backslash.** -/
@[simp] theorem readSelection?_selectionEntry_iff :
    readSelection? (selectionEntry name key) = some (name, key) ↔ '\\' ∉ key.toList := by
  by_cases other : name = key
  · subst other
    have plain : '\\' ∉ name.toList := notMem_of_isIdentifier identifier (by decide)
    rw [selectionEntry, if_pos rfl]
    exact ⟨fun _ => plain, fun _ => readParts?_alone (readIdentifier?_self identifier)⟩
  · have front : readIdentifier? (selectionEntry name key).toList =
        some (name, ':' :: ' ' :: (keyText key).toList) := by
      rw [selectionEntry_of_ne other]
      exact readIdentifier?_append identifier (stops_colon _)
    rw [readSelection?, readParts?_eq_pair other, ← readKey?_keyText_iff stops_nil, List.append_nil]
    constructor
    · rintro ⟨rest, here, there⟩
      rw [front] at here
      cases here
      exact there
    · exact fun there => ⟨_, front, there⟩

/-- **A body entry is read back when its key has no backslash.** -/
@[simp] theorem readBody?_bodyEntry_iff :
    readBody? (bodyEntry key name) = some (name, key) ↔ '\\' ∉ key.toList := by
  have swapped : readBody? (bodyEntry key name) = some (name, key) ↔
      readParts? readKey? readIdentifier? (bodyEntry key name) = some (key, name) := by
    rw [readBody?, Option.map_eq_some_iff]
    constructor
    · rintro ⟨⟨a, b⟩, read, same⟩
      cases same
      exact read
    · exact fun read => ⟨_, read, rfl⟩
  rw [swapped]
  by_cases other : name = key
  · subst other
    have plain : '\\' ∉ name.toList := notMem_of_isIdentifier identifier (by decide)
    rw [bodyEntry, if_pos rfl]
    exact ⟨fun _ => plain, fun _ => readParts?_alone (readKey?_of_isIdentifier identifier)⟩
  · rw [readParts?_eq_pair (Ne.symm other), bodyEntry_of_ne other,
      ← readKey?_keyText_iff (stops_colon _)]
    constructor
    · rintro ⟨rest, here, there⟩
      have all := append_of_readIdentifier? there
      rw [List.append_nil] at all
      rw [here, all]
    · exact fun here => ⟨_, here, readIdentifier?_self identifier⟩

end Reading

/-- The entries of keys differ if those of other keys do, and if these are longer than the name,
which stands alone for itself. -/
theorem injective_of_alone {entry : String → String} (alone : entry name = name)
    (longer : ∀ {key}, name ≠ key → name.toList.length < (entry key).toList.length)
    (others : ∀ {key key'}, name ≠ key → name ≠ key' → entry key = entry key' → key = key') :
    Function.Injective entry := fun key key' same => by
  have apart : ∀ {key}, name ≠ key → entry key ≠ name := fun other same => by
    have := longer other
    rw [same] at this
    exact Nat.lt_irrefl _ this
  by_cases here : name = key <;> by_cases there : name = key'
  · rw [← here, ← there]
  · rw [← here, alone] at same
    exact absurd same.symm (apart there)
  · rw [← there, alone] at same
    exact absurd same (apart here)
  · exact others here there same

theorem selectionEntry_injective (name : String) : Function.Injective (selectionEntry name) := by
  refine injective_of_alone (if_pos rfl) (fun other => ?_) fun other other' same => ?_
  · rw [selectionEntry_of_ne other, List.length_append, List.length_cons]
    omega
  · have chars := congrArg String.toList same
    rw [selectionEntry_of_ne other, selectionEntry_of_ne other'] at chars
    have keys := (List.cons.inj (List.cons.inj (List.append_cancel_left chars)).2).2
    exact keyText_injective (String.toList_inj.mp keys)

theorem bodyEntry_injective (name : String) : Function.Injective (bodyEntry · name) := by
  refine injective_of_alone (if_pos rfl) (fun other => ?_) fun other other' same => ?_
  · rw [bodyEntry_of_ne other, List.length_append, List.length_cons, List.length_cons]
    omega
  · have chars := congrArg String.toList same
    rw [bodyEntry_of_ne other, bodyEntry_of_ne other'] at chars
    exact keyText_injective (String.toList_inj.mp (List.append_cancel_right chars))

/-- An entry is read back exactly if its key has no backslash, and no two keys make one entry. -/
theorem entries_read_back_iff (name key : String) (identifier : isIdentifier name = true) :
    (readSelection? (selectionEntry name key) = some (name, key) ↔ '\\' ∉ key.toList) ∧
    (readBody? (bodyEntry key name) = some (name, key) ↔ '\\' ∉ key.toList) ∧
    (∀ key', selectionEntry name key = selectionEntry name key' → key = key') ∧
    ∀ key', bodyEntry key name = bodyEntry key' name → key = key' :=
  ⟨readSelection?_selectionEntry_iff identifier, readBody?_bodyEntry_iff identifier,
    fun _ same => selectionEntry_injective name same, fun _ same => bodyEntry_injective name same⟩

/-- A key with quotes, a colon, a space and an at sign is read back in both directions. -/
theorem quoted_read_back : isIdentifier "type" = true ∧
    readSelection? (selectionEntry "type" "@a: \"b\"") = some ("type", "@a: \"b\"") ∧
    readBody? (bodyEntry "@a: \"b\"" "type") = some ("type", "@a: \"b\"") := by
  have identifier : isIdentifier "type" = true := by decide
  have plain : '\\' ∉ "@a: \"b\"".toList := by decide
  obtain ⟨selection, body, -, -⟩ := entries_read_back_iff "type" "@a: \"b\"" identifier
  exact ⟨identifier, selection.mpr plain, body.mpr plain⟩

/-- A backslash inside a key is lost, and at the end of a key it takes the closing quote with it. -/
theorem backslash_misread : isIdentifier "ab" = true ∧
    readSelection? (selectionEntry "ab" "a\\b") = some ("ab", "ab") ∧
    readBody? (bodyEntry "a\\b" "ab") = some ("ab", "ab") ∧
    readSelection? (selectionEntry "ab" "a\\") = none ∧
      readBody? (bodyEntry "a\\" "ab") = none := by
  decide +kernel

end RestGraph.Naming
