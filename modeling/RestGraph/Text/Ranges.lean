/-!
# Ranges of code points

Sets of code points as lists of closed intervals.
-/

namespace RestGraph.Text

def inRanges (ranges : List (Nat × Nat)) (n : Nat) : Bool :=
  ranges.any fun (lo, hi) => lo ≤ n && n ≤ hi

end RestGraph.Text
