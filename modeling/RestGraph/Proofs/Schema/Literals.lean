import RestGraph.Proofs.Schema.Templates
import RestGraph.Proofs.Text.Replace

/-!
# Literals

A value between quotes is read back as it was, and a description of several lines is read back line
by line. Neither a quote nor three quotes in them close the literal early, whatever stands before
the quotes and after them.
-/

namespace RestGraph

variable {cs more rest : List Char} {c : Char} {indent : String}

/-! ## Values between quotes -/

open Naming (readQuoted?)

@[simp] theorem readQuoted?_literalChar (c : Char) (rest : List Char) :
    readQuoted? (literalChar c ++ rest) = (readQuoted? rest).map fun (cs, more) =>
    (c :: cs, more) := by
  unfold literalChar
  split
  · next slash => rw [slash]; rfl
  · next slash =>
    split
    · next quote => rw [quote]; rfl
    · next quote => exact Naming.readQuoted?_cons quote slash rest

/-- A value that is escaped is read back, up to the quote that is put behind it. -/
@[simp] theorem readQuoted?_escapeLiteral (s : String) (rest : List Char) :
    readQuoted? ((escapeLiteral s).toList ++ '"' :: rest) = some (s.toList, rest) := by
  rw [toList_escapeLiteral]
  induction s.toList with
  | nil => rfl
  | cons c cs ih => rw [List.flatMap_cons, List.append_assoc, readQuoted?_literalChar, ih]; rfl

/-! ## Blocks -/

/-- The text up to the three quotes that close a block, and what follows them. Three quotes behind a
backslash stand for themselves. -/
def readBlock? : List Char → Option (List Char × List Char)
  | [] => none
  | '\\' :: '"' :: '"' :: '"' :: rest =>
    (readBlock? rest).map fun (cs, more) => ('"' :: '"' :: '"' :: cs, more)
  | '"' :: '"' :: '"' :: rest => some ([], rest)
  | c :: rest => (readBlock? rest).map fun (cs, more) => (c :: cs, more)

def blockChars (cs : List Char) : List Char :=
  Text.replaceChars ['"', '"', '"'] ['\\', '"', '"', '"'] cs

theorem blockChars_append (cs : List Char) :
    blockChars ('"' :: '"' :: '"' :: cs) = '\\' :: '"' :: '"' :: '"' :: blockChars cs :=
  Text.replaceChars_append (List.cons_ne_nil _ _)

theorem blockChars_cons (other : ¬['"', '"', '"'] <+: c :: cs) :
    blockChars (c :: cs) = c :: blockChars cs :=
  Text.replaceChars_cons other

/-- A character that begins neither closing quotes nor escaped ones stands for itself. -/
theorem readBlock?_cons (escaped : ¬['\\', '"', '"', '"'] <+: c :: rest)
    (closing : ¬['"', '"', '"'] <+: c :: rest) :
    readBlock? (c :: rest) = (readBlock? rest).map fun (cs, more) => (c :: cs, more) := by
  refine readBlock?.eq_4 c rest ?_ ?_
  · rintro tail rfl rfl
    exact escaped (List.prefix_append ['\\', '"', '"', '"'] tail)
  · rintro tail rfl rfl
    exact closing (List.prefix_append ['"', '"', '"'] tail)

/-- Characters that are no quotes and no backslashes stand for themselves. -/
theorem readBlock?_append (plain : ∀ c ∈ cs, c ≠ '"' ∧ c ≠ '\\') (rest : List Char) :
    readBlock? (cs ++ rest) = (readBlock? rest).map fun (ds, more) => (cs ++ ds, more) := by
  induction cs with
  | nil => simp
  | cons c cs ih =>
    obtain ⟨quote, slash⟩ := plain c List.mem_cons_self
    have escaped : ¬['\\', '"', '"', '"'] <+: c :: (cs ++ rest) := fun start =>
      slash (List.cons_prefix_cons.mp start).1.symm
    have closing : ¬['"', '"', '"'] <+: c :: (cs ++ rest) := fun start =>
      quote (List.cons_prefix_cons.mp start).1.symm
    rw [List.cons_append, readBlock?_cons escaped closing,
      ih fun c mem => plain c (List.mem_cons_of_mem _ mem), Option.map_map]
    rfl

@[simp] theorem readBlock?_newline (rest : List Char) :
    readBlock? ('\n' :: rest) = (readBlock? rest).map fun (cs, more) => ('\n' :: cs, more) :=
  readBlock?_cons (fun start => absurd (List.cons_prefix_cons.mp start).1 (by decide)) fun start =>
    absurd (List.cons_prefix_cons.mp start).1 (by decide)

section Blocks

variable (stop : rest.head? ≠ some '"')

include stop

/-- Quotes at the beginning of a text in a block are those of the text: where three stood together
there is a backslash now, and none follow the text. -/
theorem prefix_of_prefix_blockChars {quotes : List Char} (all : ∀ c ∈ quotes, c = '"')
    (front : quotes <+: blockChars cs ++ rest) : quotes <+: cs := by
  induction quotes generalizing cs with
  | nil => exact List.nil_prefix
  | cons q qs ih =>
    obtain rfl := all q List.mem_cons_self
    cases cs with
    | nil =>
      obtain ⟨tail, whole⟩ := front
      have whole : '"' :: (qs ++ tail) = rest := whole
      exact absurd (by rw [← whole, List.head?_cons]) stop
    | cons c cs =>
      by_cases start : ['"', '"', '"'] <+: c :: cs
      · obtain ⟨tail, whole⟩ := start
        rw [← whole] at front
        exact absurd (List.cons_prefix_cons.mp front).1 (by decide)
      · rw [blockChars_cons start, List.cons_append, List.cons_prefix_cons] at front
        exact List.cons_prefix_cons.mpr
          ⟨front.1, ih (fun c mem => all c (List.mem_cons_of_mem _ mem)) front.2⟩

/-- No text in a block begins with quotes that close it. -/
theorem not_closing_blockChars (cs : List Char) : ¬['"', '"', '"'] <+: blockChars cs ++ rest := by
  intro front
  obtain ⟨tail, rfl⟩ := prefix_of_prefix_blockChars stop (by simp) front
  exact absurd (List.cons_prefix_cons.mp front).1 (by decide)

/-- A text in a block is read back, and the reading goes on behind it. -/
@[simp] theorem readBlock?_blockChars (cs : List Char) :
    readBlock? (blockChars cs ++ rest) =
      (readBlock? rest).map fun (ds, more) => (cs ++ ds, more) := by
  induction cs using Text.replace_cases (List.cons_ne_nil '"' ['"', '"']) with
  | nil => simp [blockChars, Text.replaceChars, Text.replaceFrom]
  | hit tail ih =>
    change readBlock? (blockChars ('"' :: '"' :: '"' :: tail) ++ rest) = _
    rw [blockChars_append, List.cons_append, List.cons_append, List.cons_append, List.cons_append,
      readBlock?, ih, Option.map_map]
    rfl
  | keep c tail other ih =>
    have closing := not_closing_blockChars stop (c :: tail)
    rw [blockChars_cons other, List.cons_append] at closing ⊢
    have escaped : ¬['\\', '"', '"', '"'] <+: c :: (blockChars tail ++ rest) := fun start =>
      not_closing_blockChars stop tail (List.cons_prefix_cons.mp start).2
    rw [readBlock?_cons escaped closing, ih, Option.map_map]
    rfl

end Blocks

/-! ## Descriptions -/

@[simp] theorem Text.join_singleton (sep word : String) : Text.join sep [word] = word := by
  rw [Text.join_cons, List.map_nil, String.join_nil, String.append_empty]

/-- A line comes before the rest with a new line between. -/
theorem Text.toList_join_cons {words : List String} (some : words ≠ []) (word : String) :
    (Text.join "\n" (word :: words)).toList =
    word.toList ++ '\n' :: (Text.join "\n" words).toList := by
  obtain ⟨next, more, rfl⟩ := List.exists_cons_of_ne_nil some
  rw [Text.join_cons, Text.join_cons, List.map_cons, String.join_cons, String.toList_append,
    String.toList_append, String.toList_append, String.toList_append, List.append_assoc]
  rfl

section Descriptions

variable (blank : ∀ c ∈ indent.toList, Text.isBlank c = true)

include blank

theorem plain_of_blank : ∀ c ∈ indent.toList, c ≠ '"' ∧ c ≠ '\\' := fun c mem => by
  have blank := blank c mem
  constructor <;> rintro rfl <;> exact absurd blank (by decide)

/-- A line of a block is its text as it stands in one. -/
theorem toList_blockLine (line : String) :
    (Text.trimEnd (indent ++ Text.replace "\"\"\"" "\\\"\"\"" line)).toList =
      blockChars (Text.trimEnd (indent ++ line)).toList := by
  have quotes : '"' ∉ indent.toList := fun mem => (plain_of_blank blank _ mem).1 rfl
  rw [Text.trimEnd, Text.trimEnd, Text.replace, String.toList_ofList, String.toList_ofList,
    String.toList_append, String.toList_append, String.toList_ofList]
  change Text.dropEnd _ (indent.toList ++ blockChars line.toList) = _
  have whole : indent.toList ++ blockChars line.toList =
      blockChars (indent.toList ++ line.toList) :=
    (Text.replaceChars_append_of_absent quotes _).symm
  rw [whole, String.toList_ofList]
  refine Text.dropEnd_replaceChars ?_ ?_ ?_ ?_ _ <;> decide

/-- The lines of a block are read back one by one, up to the line that closes it. -/
theorem readBlock?_lines (lines : List String) (rest : List Char) :
    readBlock? ((Text.join "\n" (lines.map (fun line =>
        Text.trimEnd (indent ++ Text.replace "\"\"\"" "\\\"\"\"" line)) ++
        [indent ++ "\"\"\""])).toList ++ rest) =
      some ((Text.join "\n" (lines.map (fun line => Text.trimEnd (indent ++ line)) ++
        [indent])).toList, rest) := by
  induction lines with
  | nil =>
    rw [List.map_nil, List.map_nil, List.nil_append, List.nil_append, Text.join_singleton,
      Text.join_singleton, String.toList_append, List.append_assoc,
      readBlock?_append (plain_of_blank blank)]
    change (readBlock? ('"' :: '"' :: '"' :: rest)).map _ = _
    rw [readBlock?, Option.map_some]
    dsimp only
    rw [List.append_nil]
  | cons line lines ih =>
    rw [List.map_cons, List.map_cons, List.cons_append, List.cons_append,
      Text.toList_join_cons (by simp), Text.toList_join_cons (by simp), toList_blockLine blank,
      List.append_assoc, List.cons_append, readBlock?_blockChars (by simp), readBlock?_newline, ih]
    rfl

end Descriptions

/-- A value between quotes is read back, and so is a description: as one line between quotes, or in
a block, where each of its lines comes back behind the indentation, without the blanks at its end.
What is read ends at the last quote of the literal, whatever follows it. -/
theorem literals_read_back (value description indent : String)
    (blank : ∀ c ∈ indent.toList, Text.isBlank c = true) :
    (∀ rest, readQuoted? ((escapeLiteral value).toList ++ '"' :: rest) =
      some (value.toList, rest)) ∧
    ('\n' ∉ description.toList → ∃ content,
      descriptionLines description indent = [indent ++ "\"" ++ content ++ "\""] ∧
      ∀ rest, readQuoted? (content.toList ++ '"' :: rest) = some (description.toList, rest)) ∧
    ('\n' ∈ description.toList → ∃ lines,
      descriptionLines description indent = [indent ++ "\"\"\""] ++ lines ++ [indent ++ "\"\"\""] ∧
      ∀ rest, readBlock?
        ('\n' :: ((Text.join "\n" (lines ++ [indent ++ "\"\"\""])).toList ++ rest)) =
        some ('\n' :: (Text.join "\n" ((linesOf description).map (fun line =>
          Text.trimEnd (indent ++ line)) ++ [indent])).toList, rest)) := by
  refine ⟨readQuoted?_escapeLiteral value, fun single => ?_, fun several => ?_⟩
  · refine ⟨escapeLiteral description, ?_, readQuoted?_escapeLiteral description⟩
    rw [descriptionLines, if_neg (mt List.contains_iff_mem.mp single)]
  · refine ⟨(linesOf description).map fun line =>
      Text.trimEnd (indent ++ Text.replace "\"\"\"" "\\\"\"\"" line), ?_, fun rest => ?_⟩
    · rw [descriptionLines, if_pos (List.contains_iff_mem.mpr several)]
    · rw [readBlock?_newline, readBlock?_lines blank]
      rfl

/-- Quotes and backslashes at the borders of a value; in a description of two lines more than three
quotes in a row, and quotes behind a backslash. -/
theorem bordering_read_back :
    let value := "\"a\\"
    let description := "\"\"\"\"a\n\\\"\"\""
    let lines := ["  \\\"\"\"\"a", "  \\\\\"\"\""]
    (∀ c ∈ "  ".toList, Text.isBlank c = true) ∧ '\n' ∉ value.toList ∧ '\n' ∈ description.toList ∧
    readQuoted? ((escapeLiteral value).toList ++ ['"']) = some (value.toList, []) ∧
    (∃ content, descriptionLines value "  " = ["  \"" ++ content ++ "\""] ∧
      readQuoted? (content.toList ++ ['"']) = some (value.toList, [])) ∧
    descriptionLines description "  " = ["  \"\"\""] ++ lines ++ ["  \"\"\""] ∧
    readBlock? ('\n' :: ((Text.join "\n" (lines ++ ["  \"\"\""])).toList ++ ['"'])) =
      some ("\n  \"\"\"\"a\n  \\\"\"\"\n  ".toList, ['"']) := by
  intro value description lines
  have blank : ∀ c ∈ "  ".toList, Text.isBlank c = true := List.all_eq_true.mp (by decide)
  have single : '\n' ∉ value.toList := by decide
  have several : '\n' ∈ description.toList := by decide
  obtain ⟨quoted, line, -⟩ := literals_read_back value value "  " blank
  obtain ⟨content, own, read⟩ := line single
  obtain ⟨-, -, block⟩ := literals_read_back value description "  " blank
  obtain ⟨lines', own', read'⟩ := block several
  have written : descriptionLines description "  " = ["  \"\"\""] ++ lines ++ ["  \"\"\""] := by
    decide +kernel
  obtain rfl : lines = lines' :=
    (List.cons.inj (List.append_cancel_right (written.symm.trans own'))).2
  have content' : '\n' :: (Text.join "\n" ((linesOf description).map (fun line =>
      Text.trimEnd ("  " ++ line)) ++ ["  "])).toList =
        "\n  \"\"\"\"a\n  \\\"\"\"\n  ".toList := by decide +kernel
  exact ⟨blank, single, several, quoted [], ⟨content, own, read []⟩, written,
    content' ▸ read' ['"']⟩

end RestGraph
