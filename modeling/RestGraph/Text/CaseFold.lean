import RestGraph.Text.Lowercase

/-!
# Case folding

Unicode simple case folding: characters that differ only in case fold to the same one.
-/

namespace RestGraph.Text

def foldChar (c : Char) : Char :=
  match foldRuns.findSome? (·.lower? c.toNat) with
  | some n => Char.ofNat n
  | none => lowerChar c

/-- The characters that fold to the same one as `c`. -/
def caseVariants (c : Char) : List Char :=
  let folded := foldChar c
  let sources := (lowerRuns ++ foldRuns).filterMap (·.upper? folded.toNat)
  folded :: (sources.map Char.ofNat).filter fun d => d != folded && foldChar d == folded

/-- The other case of an ASCII letter, and any other character itself. -/
def otherCase (c : Char) : Char := if c.isUpper then c.toLower else c.toUpper

end RestGraph.Text
