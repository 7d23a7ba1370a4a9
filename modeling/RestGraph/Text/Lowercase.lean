import RestGraph.Text.CaseData
import RestGraph.Text.Ranges

/-!
# Lower case

Full Unicode lower-casing. Only two rules look beyond the one-to-one table: a dotted capital `İ`
becomes two characters, and a capital sigma becomes the final form at the end of a word.
-/

namespace RestGraph.Text

def lowerChar (c : Char) : Char :=
  if c.toNat < 0x80 then c.toLower
  else match lowerRuns.findSome? (·.lower? c.toNat) with
    | some n => Char.ofNat n
    | none => c

def isCased (c : Char) : Bool := inRanges casedRanges c.toNat

def isCaseIgnorable (c : Char) : Bool := inRanges caseIgnorableRanges c.toNat

/-- Whether the nearest character that case does not ignore is cased. -/
def meetsCased (cs : List Char) : Bool :=
  match cs.dropWhile isCaseIgnorable with
  | [] => false
  | c :: _ => isCased c

/-- Lower-case `cs`, which follows the characters of `before`, nearest first. -/
def lowerFrom (before : List Char) : List Char → List Char
  | [] => []
  | c :: cs =>
    let image :=
      if c = 'Σ' then [if meetsCased before && !meetsCased cs then 'ς' else 'σ']
      else if c = 'İ' then ['i', '\u0307']
      else [lowerChar c]
    image ++ lowerFrom (c :: before) cs

def lowercase (s : String) : String := String.ofList (lowerFrom [] s.toList)

end RestGraph.Text
