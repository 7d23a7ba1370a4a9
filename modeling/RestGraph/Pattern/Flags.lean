import RestGraph.Pattern.CharSet

/-!
# Flags of patterns

What letters in parentheses change: how characters are compared, where lines end, and whether
blanks and comments may stand between the parts of a pattern.
-/

namespace RestGraph.Pattern

structure Flags where
  anyCase : Bool
  /-- `^` and `$` hold at every line. -/
  eachLine : Bool
  /-- A point matches the ends of lines too. -/
  anyPoint : Bool
  /-- A return ends a line. -/
  returns : Bool
  /-- Cases, digits, blanks and words are those of all scripts. -/
  anyScript : Bool
  /-- Blanks and comments do not count. -/
  spaced : Bool
deriving DecidableEq, Repr

namespace Flags

def default : Flags := ⟨false, false, false, false, true, false⟩

/-- Set or clear the flag of a letter. Which matches are preferred is no matter here. -/
def set? (on : Bool) (f : Flags) (letter : Char) : Option Flags :=
  match letter with
  | 'i' => some { f with anyCase := on }
  | 'm' => some { f with eachLine := on }
  | 's' => some { f with anyPoint := on }
  | 'R' => some { f with returns := on }
  | 'u' => some { f with anyScript := on }
  | 'x' => some { f with spaced := on }
  | 'U' => some f
  | _ => none

/-- Letters to set and, after a dash, letters to clear. Each letter comes once, and some letter
follows the dash. -/
def change? (letters : List Char) (f : Flags) : Option Flags :=
  let (on, rest) := letters.span (· != '-')
  if letters.Nodup ∧ rest ≠ ['-'] then
    (on.foldlM (set? true) f).bind fun f => (rest.drop 1).foldlM (set? false) f
  else none

/-- A set of characters in the cases that count. -/
def inCases (f : Flags) (s : CharSet) : CharSet :=
  if f.anyCase then .anyCase f.anyScript s else s

/-! ## Blanks and comments -/

/-- What follows blanks and comments, of which the first may have begun. -/
def dropSpace : Bool → List Char → List Char
  | _, [] => []
  | true, c :: cs => dropSpace (c != '\n') cs
  | false, c :: cs =>
    if Text.isBlank c then dropSpace false cs
    else if c == '#' then dropSpace true cs
    else c :: cs

def skip (f : Flags) (cs : List Char) : List Char :=
  if f.spaced then dropSpace false cs else cs

/-- The character that comes next, perhaps after blanks and the start of a comment. -/
def next? (f : Flags) (cs : List Char) : Option Char :=
  if f.spaced then
    match cs.dropWhile Text.isBlank with
    | '#' :: cs => (cs.dropWhile Text.isBlank).head?
    | cs => cs.head?
  else cs.head?

/-- At most so many characters of a class, and the rest. -/
def span (f : Flags) (p : Char → Bool) : Nat → List Char → List Char × List Char
  | 0, cs => ([], cs)
  | n + 1, cs =>
    match f.skip cs with
    | [] => ([], [])
    | c :: rest =>
      if p c then
        let (taken, rest) := f.span p n rest
        (c :: taken, rest)
      else ([], c :: rest)

/-- What braces hold, after the opening one. -/
def braced? (f : Flags) (cs : List Char) : Option (List Char × List Char) :=
  match f.span (· != '\x7d') cs.length cs with
  | (inside, _ :: rest) => some (inside, rest)
  | _ => none

end Flags

end RestGraph.Pattern
