/-!
# Blank characters

The Unicode property `White_Space`, and trimming by it.
-/

namespace RestGraph.Text

def isBlank (c : Char) : Bool :=
  let n := c.toNat
  (9 ≤ n && n ≤ 13) || n == 0x20 || n == 0x85 || n == 0xA0 || n == 0x1680 ||
    (0x2000 ≤ n && n ≤ 0x200A) || n == 0x2028 || n == 0x2029 || n == 0x202F || n == 0x205F ||
    n == 0x3000

/-- The longest suffix that does not start with a character of the class. -/
def dropStart (p : Char → Bool) (cs : List Char) : List Char := cs.dropWhile p

/-- The longest beginning that does not end with a character of the class. -/
def dropEnd (p : Char → Bool) : List Char → List Char
  | [] => []
  | c :: cs => match dropEnd p cs with
    | [] => if p c then [] else [c]
    | d :: ds => c :: d :: ds

def trimChars (cs : List Char) : List Char := dropEnd isBlank (dropStart isBlank cs)

def trim (s : String) : String := String.ofList (trimChars s.toList)

def trimEnd (s : String) : String := String.ofList (dropEnd isBlank s.toList)

def isBlankText (s : String) : Bool := s.toList.all isBlank

end RestGraph.Text
