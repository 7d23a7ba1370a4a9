import RestGraph.Naming.Pointer
import RestGraph.Text.Blank

/-!
# Steps of naming

A raw identifier becomes a GraphQL name in a few small steps, each a function on characters.
-/

namespace RestGraph.Naming

inductive Step where
  /-- Remove the section of a component pointer. -/
  | stripSection
  /-- Brackets become blanks. -/
  | openBrackets
  /-- Keep letters, digits and separators, all of ASCII. -/
  | dropInvalid
  /-- Every run of separators becomes one space. -/
  | splitWords
  /-- Join the words, each with a capital. -/
  | pascal
  /-- Join the words, each but the first with a capital. -/
  | camel
  /-- An underscore goes before a digit at the start. -/
  | guardDigit
deriving DecidableEq, Repr

def isSeparator (c : Char) : Bool :=
  c == '-' || c == '_' || c == '.' || c == ':' || c == '/' || Text.isBlank c

def isValid (c : Char) : Bool :=
  c.isAlphanum || c == '-' || c == '_' || c == '.' || c == ':' || c == '/' || c == ' '

/-- The pieces between the characters of a class, empty ones left out. -/
def wordsBy (p : Char → Bool) (cs : List Char) : List (List Char) :=
  (cs.splitOnP p).filter fun w => !w.isEmpty

def capitalise : List Char → List Char
  | [] => []
  | c :: cs => c.toUpper :: cs

/-- A word without small letters is lowered whole, any other word at its first character. -/
def uncapitalise (w : List Char) : List Char :=
  if w.all fun c => !c.isLower then w.map Char.toLower
  else match w with
    | [] => []
    | c :: cs => c.toLower :: cs

def withoutSection (cs : List Char) : List Char :=
  ((componentSections ++ [schemasAbbreviation]).findSome? fun s =>
    s.toList.isPrefixOf? cs).getD cs

def joinCamel : List (List Char) → List Char
  | [] => []
  | w :: ws => uncapitalise w ++ ws.flatMap capitalise

def guarded : List Char → List Char
  | [] => []
  | c :: cs => if c.isDigit then '_' :: c :: cs else c :: cs

def Step.apply : Step → List Char → List Char
  | .stripSection, cs => withoutSection cs
  | .openBrackets, cs => cs.map fun c => if c = '[' ∨ c = ']' then ' ' else c
  | .dropInvalid, cs => cs.filter isValid
  | .splitWords, cs => [' '].intercalate (wordsBy isSeparator cs)
  | .pascal, cs => (wordsBy (· == ' ') cs).flatMap capitalise
  | .camel, cs => joinCamel (wordsBy (· == ' ') cs)
  | .guardDigit, cs => guarded cs

def run (steps : List Step) (cs : List Char) : List Char :=
  steps.foldl (fun cs step => step.apply cs) cs

/-- What each beginning of a list of steps makes of a text, the empty one included. -/
def trace : List Step → List Char → List (List Char)
  | [], cs => [cs]
  | step :: steps, cs => cs :: trace steps (step.apply cs)

end RestGraph.Naming
