import RestGraph.Text.Blank
import RestGraph.Text.CaseFold
import RestGraph.Text.Category
import RestGraph.Text.Split

/-!
# Sets of characters

The classes of patterns: ranges, properties and what is made of them.
-/

namespace RestGraph

inductive CharSet where
  | empty
  | range (first last : Char)
  | digit
  | blank
  | word
  | category (k : Text.Category)
  | complement (s : CharSet)
  | union (s t : CharSet)
  | meet (s t : CharSet)
  /-- The characters of a set in all their cases; only letters of ASCII have cases unless the
  set is `full`. -/
  | anyCase (full : Bool) (s : CharSet)
deriving DecidableEq, Repr

namespace CharSet

def one (c : Char) : CharSet := range c c

def every : CharSet := complement empty

def difference (s t : CharSet) : CharSet := meet s (complement t)

def symmetricDifference (s t : CharSet) : CharSet := union (difference s t) (difference t s)

def unions (ss : List CharSet) : CharSet :=
  match ss with
  | [] => empty
  | s :: ss => ss.foldl union s

def has (c : Char) : CharSet → Bool
  | empty => false
  | range first last => first ≤ c && c ≤ last
  | digit => Text.isDecimal c
  | blank => Text.isBlank c
  | word => Text.isWordChar c
  | category k => k.has c
  | complement s => !s.has c
  | union s t => s.has c || t.has c
  | meet s t => s.has c && t.has c
  | anyCase full s =>
    if full then (Text.caseVariants c).any fun d => s.has d
    else s.has c || s.has (Text.otherCase c)

@[simp] theorem has_one (c d : Char) : (one d).has c = true ↔ c = d := by
  simp only [one, has, Bool.and_eq_true, decide_eq_true_eq]
  exact ⟨fun h => Char.le_antisymm h.2 h.1, fun h => h ▸ ⟨Char.le_refl _, Char.le_refl _⟩⟩

@[simp] theorem has_every (c : Char) : every.has c = true := rfl

/-! ## Sets of ASCII characters -/

def asciiDigit : CharSet := range '0' '9'

def asciiLetter : CharSet := union (range 'A' 'Z') (range 'a' 'z')

def asciiWord : CharSet := unions [asciiDigit, asciiLetter, one '_']

def asciiBlank : CharSet := union (range '\t' '\r') (one ' ')

/-- The sets with a name of their own inside of brackets. -/
def asciiNamed? (name : String) : Option CharSet :=
  match name with
  | "alnum" => some (union asciiDigit asciiLetter)
  | "alpha" => some asciiLetter
  | "ascii" => some (range '\x00' '\x7f')
  | "blank" => some (union (one '\t') (one ' '))
  | "cntrl" => some (union (range '\x00' '\x1f') (one '\x7f'))
  | "digit" => some asciiDigit
  | "graph" => some (range '!' '~')
  | "lower" => some (range 'a' 'z')
  | "print" => some (range ' ' '~')
  | "punct" => some (unions [range '!' '/', range ':' '@', range '[' '\x60', range '\x7b' '~'])
  | "space" => some asciiBlank
  | "upper" => some (range 'A' 'Z')
  | "word" => some asciiWord
  | "xdigit" => some (unions [asciiDigit, range 'A' 'F', range 'a' 'f'])
  | _ => none

/-! ## Properties -/

/-- The name of a property without what does not count: case, blanks and dashes. -/
def propertyKey (name : List Char) : String :=
  let letters := name.filter fun c => c.toNat < 0x80 && !" _-".toList.contains c
  Text.asciiLower (String.ofList letters)

def propertyNamed? (key : String) : Option CharSet :=
  match key with
  | "l" | "letter" => some (category .letter)
  | "m" | "mark" | "combiningmark" => some (category .mark)
  | "n" | "number" => some (category .number)
  | "p" | "punctuation" | "punct" => some (category .punctuation)
  | "s" | "symbol" => some (category .symbol)
  | "z" | "separator" => some (category .separator)
  | "c" | "other" => some (category .other)
  | "any" => some every
  | "ascii" => some (range '\x00' '\x7f')
  | _ => none

/-- A property by name, of which a first `is` may be left out. -/
def property? (name : List Char) : Option CharSet :=
  let key := propertyKey name
  propertyNamed? ((Text.after? "is" key).getD key)

/-! ## Size -/

/-- About how many octets a matcher takes for a set. -/
def size : CharSet → Nat
  | empty => 32
  | range _ last => 32 * last.utf8Size
  | digit => 8000
  | blank => 1500
  | word => 45000
  | category _ => 45000
  | complement s => s.size + 300
  | union s t => s.size + t.size
  | meet s _ => s.size
  | anyCase _ s => 2 * s.size

end CharSet

end RestGraph
