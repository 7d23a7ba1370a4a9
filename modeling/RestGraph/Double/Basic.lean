/-!
# Double-precision numbers

A finite number of the binary64 format as a sign, a significand below `2 ^ 53` and a power of two.
The significand has 53 bits, or the exponent is the least one. Rounding is done on exact fractions,
to the nearest number, a tie to the even significand.
-/

namespace RestGraph

structure Double where
  negative : Bool
  significand : Nat
  exponent : Int
deriving DecidableEq, Repr

namespace Double

def leastExponent : Int := -1074

def greatestExponent : Int := 971

def zero : Double := ⟨false, 0, leastExponent⟩

def neg (x : Double) : Double := { x with negative := !x.negative }

def isZero (x : Double) : Bool := x.significand == 0

/-- The fraction `num / den` times two to the power `-e`. -/
def shifted (num den : Nat) (e : Int) : Nat × Nat :=
  match e with
  | .ofNat k => (num, den * Nat.pow 2 k)
  | .negSucc k => (num * Nat.pow 2 (k + 1), den)

/-- A quotient to the nearest whole number, a half to the even neighbour. -/
def roundDiv (num den : Nat) : Nat :=
  let q := num / den
  let r := num % den
  if 2 * r < den then q
  else if den < 2 * r then q + 1
  else if q % 2 = 0 then q else q + 1

/-- The exponent at which the whole part of a positive fraction has 53 bits. -/
def exponentOf (num den : Nat) : Int :=
  let guess : Int := (num.log2 : Int) - (den.log2 : Int) - 52
  let (n, d) := shifted num den guess
  if n / d < Nat.pow 2 52 then guess - 1 else guess

/-- The double nearest to `num / den`; there is none beyond the largest. -/
def nearest? (num den : Nat) : Option Double :=
  if num = 0 then some zero
  else
    let e := max (exponentOf num den) leastExponent
    let (n, d) := shifted num den e
    let m := roundDiv n d
    let (m, e) := if m = Nat.pow 2 53 then (Nat.pow 2 52, e + 1) else (m, e)
    if e ≤ greatestExponent then some ⟨false, m, e⟩ else none

/-- The magnitude as an exact fraction. -/
def fraction (x : Double) : Nat × Nat := shifted x.significand 1 (-x.exponent)

def mul? (x y : Double) : Option Double :=
  let (a, b) := x.fraction
  let (c, d) := y.fraction
  (nearest? (a * c) (b * d)).map fun z => { z with negative := x.negative != y.negative }

/-- The quotient by a number that is not zero. -/
def div? (x y : Double) : Option Double :=
  let (a, b) := x.fraction
  let (c, d) := y.fraction
  (nearest? (a * d) (b * c)).map fun z => { z with negative := x.negative != y.negative }

/-- The decimal `digits * 10 ^ e` to the nearest double. -/
def ofDecimal? (digits : Nat) (e : Int) : Option Double :=
  match e with
  | .ofNat k => nearest? (digits * Nat.pow 10 k) 1
  | .negSucc k => nearest? digits (Nat.pow 10 (k + 1))

end Double

end RestGraph
