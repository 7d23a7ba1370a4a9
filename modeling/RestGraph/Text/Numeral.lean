/-!
# Numerals

Reading whole numbers in a given base. There is no digit grouping and no blank.
-/

namespace RestGraph.Text

def digitValue? (base : Nat) (c : Char) : Option Nat :=
  let n := c.toNat
  let value :=
    if '0'.toNat ≤ n ∧ n ≤ '9'.toNat then n - '0'.toNat
    else if 'a'.toNat ≤ n ∧ n ≤ 'z'.toNat then n - 'a'.toNat + 10
    else if 'A'.toNat ≤ n ∧ n ≤ 'Z'.toNat then n - 'A'.toNat + 10
    else base
  if value < base then some value else none

def readDigits? (base : Nat) : Nat → List Char → Option Nat
  | acc, [] => some acc
  | acc, c :: cs => (digitValue? base c).bind fun d => readDigits? base (acc * base + d) cs

/-- The number written by one or more digits. -/
def readNatural? (base : Nat) : List Char → Option Nat
  | [] => none
  | c :: cs => readDigits? base 0 (c :: cs)

/-- Whether a number has a minus sign, and what follows its sign. -/
def cutSign (cs : List Char) : Bool × List Char :=
  match cs with
  | '+' :: cs => (false, cs)
  | '-' :: cs => (true, cs)
  | cs => (false, cs)

/-- A decimal numeral, perhaps with a plus sign, for a number of 64 bits. -/
def readWord? (s : String) : Option Nat :=
  let digits := match s.toList with
    | '+' :: cs => cs
    | cs => cs
  (readNatural? 10 digits).filter (· < Nat.pow 2 64)

end RestGraph.Text
