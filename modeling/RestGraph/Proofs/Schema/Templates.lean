import RestGraph.Proofs.Naming.Entries
import RestGraph.Proofs.Schema.Signatures
import RestGraph.Proofs.Schema.Writing
import RestGraph.Schema.Print

/-!
# Texts with arguments

A path is read from the left: a brace that is closed again, with a name between the braces, is a
placeholder, and every other character stands for itself. The template of a path is written part by
part, whatever the parts are. No text that is written around the arguments of a request has a dollar
sign of its own.
-/

namespace RestGraph

open Naming (keyText)

/-! ## Literals -/

/-- What stands in a literal for a character. -/
def literalChar (c : Char) : List Char :=
  if c = '\\' then ['\\', '\\'] else if c = '"' then ['\\', '"'] else [c]

@[simp] theorem toList_escapeLiteral (s : String) :
    (escapeLiteral s).toList = s.toList.flatMap literalChar := by
  unfold escapeLiteral Text.replace
  simp only [String.toList_ofList]
  change Text.replaceChars ['"'] ['\\', '"'] (Text.replaceChars ['\\'] ['\\', '\\'] s.toList) = _
  rw [Text.replaceChars_single, Text.replaceChars_single, List.flatMap_assoc]
  refine List.flatMap_congr fun c _ => ?_
  unfold literalChar
  split
  · rfl
  · rw [List.flatMap_singleton]

@[simp] theorem escapeLiteral_append (s t : String) :
    escapeLiteral (s ++ t) = escapeLiteral s ++ escapeLiteral t := by
  refine String.toList_inj.mp ?_
  rw [String.toList_append, toList_escapeLiteral, toList_escapeLiteral, toList_escapeLiteral,
    String.toList_append, List.flatMap_append]

/-- What has neither backslash nor quote is not changed. -/
@[simp]
theorem escapeLiteral_eq_self {s : String} (slash : '\\' ∉ s.toList) (quote : '"' ∉ s.toList) :
    escapeLiteral s = s := by
  refine String.toList_inj.mp ?_
  rw [toList_escapeLiteral]
  have plain : ∀ c ∈ s.toList, literalChar c = [c] := fun c mem => by
    have kept : c ≠ '\\' ∧ c ≠ '"' :=
      ⟨fun same => slash (same ▸ mem), fun same => quote (same ▸ mem)⟩
    rw [literalChar, if_neg kept.1, if_neg kept.2]
  rw [List.flatMap_congr plain, List.flatMap_singleton']

theorem escapeLiteral_join (sep : String) (words : List String) :
    escapeLiteral (Text.join sep words) = Text.join (escapeLiteral sep)
      (words.map escapeLiteral) := by
  cases words with
  | nil => rfl
  | cons word rest =>
    rw [List.map_cons, Text.join_cons, Text.join_cons, escapeLiteral_append]
    refine congrArg (escapeLiteral word ++ ·) ?_
    induction rest with
    | nil => rfl
    | cons next rest ih =>
      rw [List.map_cons, String.join_cons, List.map_cons, List.map_cons, String.join_cons,
        escapeLiteral_append, escapeLiteral_append, ih]

/-- The reference to an argument stands in a literal as it is. -/
@[simp]
theorem escapeLiteral_argText {name : String} (identifier : Naming.isIdentifier name = true) :
    escapeLiteral (argText name) = argText name := by
  have absent : ∀ c, Naming.isNameChar c = false → c ∉ ("\x7b$args." : String).toList →
      c ∉ ("\x7d" : String).toList → c ∉ (argText name).toList := fun c other before after mem => by
    rw [argText, String.toList_append, String.toList_append, List.mem_append,
      List.mem_append] at mem
    rcases mem with (mem | mem) | mem
    · exact before mem
    · exact Naming.notMem_of_isIdentifier identifier other mem
    · exact after mem
  exact escapeLiteral_eq_self (absent '\\' (by decide) (by decide) (by decide))
    (absent '"' (by decide) (by decide) (by decide))

/-! ## Paths -/

inductive PathPart where
  | char (c : Char)
  | placeholder (name : String)

/-- How a path falls into parts. A name between braces is not empty and goes on to the first closing
brace; where no placeholder starts, a character stands for itself. -/
inductive PathParts : List Char → List PathPart → Prop
  | nil : PathParts [] []
  | placeholder {name rest : List Char} {parts : List PathPart} (some : name ≠ [])
    (first : '\x7d' ∉ name) (next : PathParts rest parts) :
    PathParts ('\x7b' :: (name ++ '\x7d' :: rest)) (.placeholder (String.ofList name) :: parts)
  | char {c : Char} {rest : List Char} {parts : List PathPart}
    (plain : ∀ name more, name ≠ [] → '\x7d' ∉ name →
      c :: rest ≠ '\x7b' :: (name ++ '\x7d' :: more))
    (next : PathParts rest parts) : PathParts (c :: rest) (.char c :: parts)

/-- Every path falls into parts. -/
theorem exists_pathParts (cs : List Char) : ∃ parts, PathParts cs parts := by
  induction h : cs.length using Nat.strongRecOn generalizing cs with
  | ind n ih =>
    subst h
    cases cs with
    | nil => exact ⟨[], .nil⟩
    | cons c rest =>
      by_cases starts : ∃ name more, name ≠ [] ∧ '\x7d' ∉ name ∧
          c :: rest = '\x7b' :: (name ++ '\x7d' :: more)
      · obtain ⟨name, more, some, first, whole⟩ := starts
        rw [whole] at ih ⊢
        obtain ⟨parts, next⟩ := ih more.length (by simp; omega) more rfl
        exact ⟨_, .placeholder some first next⟩
      · obtain ⟨parts, next⟩ := ih rest.length (Nat.lt_succ_self _) rest rfl
        exact ⟨_, .char (fun name more some first whole => starts ⟨name, more, some, first, whole⟩)
          next⟩

section Substitute

variable {f : String → String} {cs rest : List Char}

/-- Once a name is closed, what it stands for is written. -/
theorem substitute_closed {name : List Char} (first : '\x7d' ∉ cs)
    (some : name.reverse ++ cs ≠ []) : substitute f (.some name) (cs ++ '\x7d' :: rest) =
      (f (String.ofList (name.reverse ++ cs))).toList ++ substitute f none rest := by
  induction cs generalizing name with
  | nil =>
    cases name with
    | nil => exact absurd rfl some
    | cons n name => rw [List.nil_append, substitute, if_pos rfl, List.append_nil]
  | cons c cs ih =>
    have other : c ≠ '\x7d' := fun same => first (same ▸ List.mem_cons_self)
    have first : '\x7d' ∉ cs := fun mem => first (List.mem_cons_of_mem c mem)
    cases name with
    | nil =>
      have some : [c].reverse ++ cs ≠ [] := List.cons_ne_nil c cs
      rw [List.cons_append, substitute, if_neg other, ih first some]
      rfl
    | cons n name =>
      have whole : (c :: n :: name).reverse ++ cs = (n :: name).reverse ++ c :: cs := by
        rw [List.reverse_cons, List.append_assoc, List.singleton_append]
      rw [List.cons_append, substitute, if_neg other, ih first (whole ▸ some), whole]

/-- A name that is never closed stands for itself. -/
@[simp] theorem substitute_open {name : List Char} (never : '\x7d' ∉ cs) :
    substitute f (some name) cs = '\x7b' :: (name.reverse ++ cs) := by
  induction cs generalizing name with
  | nil => rw [substitute, List.append_nil]
  | cons c cs ih =>
    have other : c ≠ '\x7d' := fun same => never (same ▸ List.mem_cons_self)
    have never : '\x7d' ∉ cs := fun mem => never (List.mem_cons_of_mem c mem)
    cases name with
    | nil =>
      rw [substitute, if_neg other, ih never]
      rfl
    | cons n name =>
      rw [substitute, if_neg other, ih never, List.reverse_cons, List.append_assoc,
        List.singleton_append]

@[simp] theorem substitute_of_notMem (never : '\x7d' ∉ cs) : substitute f none cs = cs := by
  induction cs with
  | nil => rfl
  | cons c cs ih =>
    have never : '\x7d' ∉ cs := fun mem => never (List.mem_cons_of_mem c mem)
    rw [substitute]
    split
    · next brace =>
      rw [substitute_open never, brace]
      rfl
    · rw [ih never]

/-- What is written for a part, before it is escaped. -/
def PathPart.fill (f : String → String) : PathPart → List Char
  | char c => [c]
  | placeholder name => (f name).toList

/-- Part by part, names are replaced and all else is kept. -/
theorem substitute_eq_flatMap {parts : List PathPart} (falls : PathParts cs parts) :
    substitute f none cs = parts.flatMap (PathPart.fill f) := by
  induction falls with
  | nil => rfl
  | @placeholder name rest parts some first _ ih =>
    have named : substitute f (.some []) (name ++ '\x7d' :: rest) =
        (f (String.ofList name)).toList ++ substitute f none rest := substitute_closed first some
    rw [substitute, if_pos rfl, named, ih]
    rfl
  | @char c rest parts plain _ ih =>
    rw [List.flatMap_cons, ← ih, PathPart.fill, List.singleton_append, substitute]
    split
    · next brace =>
      subst brace
      -- no placeholder starts here: there is no closing brace, or it follows at once
      by_cases closed : '\x7d' ∈ rest
      · obtain ⟨name, more, whole, first⟩ := List.eq_append_cons_of_mem closed
        cases name with
        | nil =>
          have other : '\x7d' ≠ '\x7b' := by decide
          rw [whole, List.nil_append, substitute, substitute, if_pos rfl, if_neg other]
        | cons n name =>
          exact absurd (congrArg _ whole) (plain _ more (List.cons_ne_nil n name) first)
      · rw [substitute_open closed, substitute_of_notMem closed]
        rfl
    · rfl

end Substitute

/-- What stands in the template for a part: a character is copied, and a placeholder becomes a
reference to an argument. -/
def PathPart.text (argument : String → String) : PathPart → String
  | char c => escapeLiteral (String.singleton c)
  | placeholder name => argText (argument name)

/-- The required query parameters, each bound to its argument. -/
def queryText (sep : String) (args : List ArgDecl) : String :=
  let query := (args.filter fun a => a.location = some .query ∧ a.required).map fun a =>
    escapeLiteral a.wireName ++ "=" ++ argText a.name
  if query.isEmpty then "" else sep ++ Text.join "&" query

section Template

variable {path : String} {args : List ArgDecl}
  (identifiers : ∀ a ∈ args, Naming.isIdentifier a.name = true)

include identifiers

/-- The argument for a placeholder is an identifier. -/
@[simp] theorem isIdentifier_pathArgument (wireName : String) :
    Naming.isIdentifier (pathArgument args wireName) = true := by
  unfold pathArgument
  split
  · next found => exact identifiers _ (List.mem_of_find?_eq_some found)
  · exact (Naming.isStem_fieldName wireName).isIdentifier

theorem escapeLiteral_query : escapeLiteral (Text.join "&" (args.map fun a =>
      a.wireName ++ "=" ++ argText a.name)) =
    Text.join "&" (args.map fun a => escapeLiteral a.wireName ++ "=" ++ argText a.name) := by
  have same : ("&" : String) = escapeLiteral "&" ∧ ("=" : String) = escapeLiteral "=" := by
    decide +kernel
  rw [escapeLiteral_join, ← same.1, List.map_map]
  refine congrArg (Text.join "&") (List.map_congr_left fun a mem => ?_)
  rw [Function.comp_apply, escapeLiteral_append, escapeLiteral_append,
    escapeLiteral_argText (identifiers a mem), ← same.2]

/-- The template of a path is written part by part, with the query behind it. -/
theorem toList_pathTemplate {parts : List PathPart} (falls : PathParts path.toList parts) :
    ∃ sep ∈ ["?", "&"], (pathTemplate path args).toList =
      parts.flatMap (fun part => (part.text (pathArgument args)).toList) ++
        (queryText sep args).toList := by
  have filled :
      (escapeLiteral (String.ofList (substitute (fun name => argText (pathArgument args name))
      none path.toList))).toList = parts.flatMap fun part =>
      (part.text (pathArgument args)).toList := by
    rw [toList_escapeLiteral, String.toList_ofList, substitute_eq_flatMap falls, List.flatMap_assoc]
    refine List.flatMap_congr fun part _ => ?_
    cases part with
    | char c =>
      rw [PathPart.text, toList_escapeLiteral, String.toList_singleton]
      rfl
    | placeholder name =>
      rw [PathPart.text, PathPart.fill, ← toList_escapeLiteral,
        escapeLiteral_argText (isIdentifier_pathArgument identifiers name)]
  unfold pathTemplate queryText
  generalize String.ofList (substitute _ none path.toList) = text at filled ⊢
  have required : ∀ a ∈ args.filter fun a => a.location = some .query ∧ a.required,
      Naming.isIdentifier a.name = true := fun a mem => identifiers a (List.mem_filter.mp mem).1
  generalize (args.filter fun a => a.location = some .query ∧ a.required) = query at required ⊢
  dsimp only
  rw [List.isEmpty_map, List.isEmpty_map]
  split
  · exact ⟨"?", List.mem_cons_self, by rw [filled]; exact (List.append_nil _).symm⟩
  · have joined : ∀ sep ∈ ["?", "&"], (escapeLiteral (text ++ sep ++ Text.join "&"
        (query.map fun a => a.wireName ++ "=" ++ argText a.name))).toList =
      parts.flatMap (fun part => (part.text (pathArgument args)).toList) ++ (sep ++ Text.join "&"
        (query.map fun a => escapeLiteral a.wireName ++ "=" ++ argText a.name)).toList :=
      fun sep mark => by
        have separates : ∀ sep ∈ ["?", "&"], escapeLiteral sep = sep := by decide +kernel
        rw [escapeLiteral_append, escapeLiteral_append, String.toList_append, String.toList_append,
          filled, separates sep mark, escapeLiteral_query required, List.append_assoc,
          String.toList_append]
    split
    · exact ⟨"&", by decide, joined "&" (by decide)⟩
    · exact ⟨"?", by decide, joined "?" (by decide)⟩

end Template

/-! ## Mappings -/

/-- The text is put together from pieces without a dollar sign and from copies of a key. -/
inductive Copies (key : String) : String → Prop
  | plain {text : String} (none : '$' ∉ text.toList) : Copies key text
  | key : Copies key key
  | written : Copies key (keyText key)
  | append {text more : String} (front : Copies key text) (back : Copies key more) :
    Copies key (text ++ more)

section Mapping

variable {g : Graph} {selection : Option Collection} {n : Nat} {f : VisibleField} {e : Entry}
  {key line : String} {dir : Direction}

/-- The lines of entries are those of each of them. -/
@[simp] theorem mem_linesOf_iff {depth : Nat} {entries : List Entry} :
    line ∈ Entry.linesOf dir depth entries ↔ ∃ e ∈ entries, line ∈ e.lines dir depth := by
  induction entries with
  | nil => simp [Entry.linesOf]
  | cons e rest ih => rw [Entry.linesOf, List.mem_append, ih, List.exists_mem_cons_iff]

/-- An entry is a comment or a leaf, or a block for a container that comes later. -/
theorem entry_cases (mem : e ∈ entriesOf g selection n) : ∃ f ∈ visibleFields g n selection,
    e = .circular f.jsonName ∨ ∃ name, f.name = some name ∧ (e = .leaf name f.jsonName f.comment ∨
      ∃ target, n < target ∧ target < g.size ∧
        e = .block name f.jsonName (entriesOf g selection target)) := by
  rw [entriesOf] at mem
  obtain ⟨f, shown, made⟩ := List.mem_map.mp mem
  refine ⟨f, shown, ?_⟩
  split at made
  · exact .inl made.symm
  · next name named =>
    dsimp only at made
    split at made
    · exact .inl made.symm
    · refine .inr ⟨name, named, ?_⟩
      split at made
      · split at made
        · next later => exact .inr ⟨_, later.1, later.2, made.symm⟩
        · exact .inl made.symm
      · exact .inl made.symm

/-- A comment on a field quotes its key. -/
theorem comment_of_mem_nameFields {taken : List String} {props : List (String × Nat)}
    (shown : f ∈ nameFields g taken props) {text : String} (comment : f.comment = some text) :
    text = "\"" ++ f.jsonName ++ "\" is a reserved name" := by
  induction props generalizing taken with
  | nil => cases shown
  | cons entry rest ih =>
    rw [nameFields] at shown
    split at shown
    · rcases List.mem_cons.mp shown with rfl | shown
      · cases comment
      · exact ih shown
    · rcases List.mem_cons.mp shown with rfl | shown
      · dsimp only [Naming.guardReserved] at comment
        split at comment <;> cases comment
        rfl
      · exact ih shown

theorem copies_indentation (key : String) (depth : Nat) : Copies key (indentation depth) := by
  suffices blank : ∀ count, '$' ∉ ("".pushn ' ' count).toList from .plain (blank _)
  intro count
  induction count with
  | zero => decide
  | succ count ih =>
    change '$' ∉ (("".pushn ' ' count).push ' ').toList
    rw [String.toList_push, List.mem_append, not_or]
    exact ⟨ih, by decide⟩

theorem copies_bodyEntry {name : String} (key : String) (plain : '$' ∉ name.toList) :
    Copies key (Naming.bodyEntry key name) := by
  unfold Naming.bodyEntry
  split
  · exact .key
  · exact .append (.append .written (.plain (by decide))) (.plain plain)

/-- All that the lines of a body mapping copy is a JSON key each. -/
theorem copies_of_mem_linesOf {depth : Nat}
    (mem : line ∈ Entry.linesOf .body depth (entriesOf g selection n)) :
    ∃ key p m, (key, p) ∈ (g.node m).props ∧ Copies key line := by
  induction h : g.size - n using Nat.strongRecOn generalizing n depth with
  | ind k ih =>
    subst h
    obtain ⟨e, entry, mem⟩ := mem_linesOf_iff.mp mem
    obtain ⟨f, shown, kind⟩ := entry_cases entry
    have prop : (f.jsonName, f.prop) ∈ (g.node n).props :=
      (List.mem_filter.mp (Graph.mem_nameFields shown)).1
    rcases kind with rfl | ⟨name, named, kind⟩
    · rw [List.mem_singleton.mp mem]
      exact ⟨_, _, n, prop, .append (.append (.append (copies_indentation _ _) (.plain (by decide)))
        (.plain (by decide))) .key⟩
    · have plain : '$' ∉ name.toList := fun mem =>
        absurd (isNameChar_of_mem_nameFields shown named mem) (by decide)
      have head := Copies.append (copies_indentation f.jsonName depth)
        (copies_bodyEntry f.jsonName plain)
      rcases kind with rfl | ⟨target, later, inside, rfl⟩
      · refine ⟨_, _, n, prop, ?_⟩
        cases comment : f.comment with
        | none =>
          rw [comment, Entry.lines] at mem
          rw [List.mem_singleton.mp mem]
          exact head
        | some text =>
          rw [comment, Entry.lines, comment_of_mem_nameFields shown comment] at mem
          rw [List.mem_singleton.mp mem]
          exact .append (.append head (.plain (by decide)))
            (.append (.append (.plain (by decide)) .key) (.plain (by decide)))
      · rw [Entry.lines, List.mem_append, List.mem_append] at mem
        rcases mem with (mem | mem) | mem
        · rw [List.mem_singleton.mp mem]
          exact ⟨_, _, n, prop, .append head (.plain (by decide))⟩
        · exact ih (g.size - target) (by omega) mem rfl
        · rw [List.mem_singleton.mp mem]
          exact ⟨_, _, n, prop, .append (copies_indentation _ _) (.plain (by decide))⟩

/-- The mapping of a body starts from its argument and refers to no other. -/
theorem bodyLines_from (g : Graph) (b : Nat) (arg : String) :
    ∃ end_ ∈ ["", " \x7b"], ∃ more, bodyLines g b arg = ("$args." ++ arg ++ end_) :: more ∧
      ∀ line ∈ more, '$' ∉ line.toList ∨
        ∃ key p m, (key, p) ∈ (g.node m).props ∧ Copies key line := by
  have alone : ["$args." ++ arg] = ("$args." ++ arg ++ "") :: [] := by rw [String.append_empty]
  unfold bodyLines
  split
  · exact ⟨"", by decide, [], alone, fun line none => absurd none List.not_mem_nil⟩
  · dsimp only
    split
    · refine ⟨" \x7b", by decide, _, rfl, fun line mem => ?_⟩
      rcases List.mem_append.mp mem with mem | mem
      · exact .inr (copies_of_mem_linesOf mem)
      · exact .inl (by rw [List.mem_singleton.mp mem]; decide)
    · exact ⟨"", by decide, [], alone, fun line none => absurd none List.not_mem_nil⟩

end Mapping

end RestGraph
