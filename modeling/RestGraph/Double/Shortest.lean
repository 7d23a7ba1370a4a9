import RestGraph.Double.Decimal

/-!
# Shortest decimals

The decimal with the fewest digits among those that round to a given double, and of these the
nearest to it. Only the two neighbours of the number on each decimal grid need to be tried: when any
point of a grid rounds to the number, one of them does.
-/

namespace RestGraph.Double

/-- The numbers that round to a double, in units of `2 ^ (exponent - 2)`; the ends belong to it when
the significand is even. -/
structure Interval where
  low : Nat
  high : Nat
  closed : Bool

def interval (x : Double) : Interval :=
  let m := x.significand
  let low := if m = Nat.pow 2 52 ∧ leastExponent < x.exponent then 4 * m - 1 else 4 * m - 2
  ⟨low, 4 * m + 2, m % 2 = 0⟩

/-- Two whole numbers in the ratio of `2 ^ (e - 2)` to `10 ^ k`. -/
def units (e k : Int) : Nat × Nat :=
  (Nat.pow 2 (e - 2).toNat * Nat.pow 10 (-k).toNat,
    Nat.pow 10 k.toNat * Nat.pow 2 (2 - e).toNat)

/-- Whether `d * 10 ^ k` rounds to the magnitude of `x`. -/
def roundsTo (x : Double) (d : Nat) (k : Int) : Bool :=
  let (u, t) := units x.exponent k
  let i := x.interval
  let point := d * t
  if i.closed then i.low * u ≤ point && point ≤ i.high * u
  else i.low * u < point && point < i.high * u

/-- The better of the two neighbours of `x` on the grid of step `10 ^ k`, if one rounds to `x`. -/
def onGrid? (x : Double) (k : Int) : Option Nat :=
  let (u, t) := units x.exponent k
  let value := 4 * x.significand * u
  let d := value / t
  let below := roundsTo x d k
  let above := roundsTo x (d + 1) k
  if below && above then
    if value - d * t < (d + 1) * t - value then some d
    else if (d + 1) * t - value < value - d * t then some (d + 1)
    else if d % 2 = 0 then some d else some (d + 1)
  else if below then some d
  else if above then some (d + 1)
  else none

/-- The least `p`, counted upwards from `from`, with the magnitude below `10 ^ p`. -/
def magnitude (x : Double) : Nat → Int → Int
  | 0, p => p
  | fuel + 1, p =>
    let (u, t) := units x.exponent p
    if 4 * x.significand * u < t then p else magnitude x fuel (p + 1)

def strip : Nat → Decimal → Decimal
  | 0, d => d
  | fuel + 1, d =>
    if d.digits ≠ 0 ∧ d.digits % 10 = 0 then strip fuel ⟨d.digits / 10, d.exponent + 1⟩ else d

def shortestFrom (x : Double) (p : Int) : Nat → Nat → Decimal
  | 0, _ => ⟨0, 0⟩
  | fuel + 1, n =>
    match onGrid? x (p - n) with
    | some d => strip 20 ⟨d, p - n⟩
    | none => shortestFrom x p fuel (n + 1)

def shortest (x : Double) : Decimal :=
  if x.significand = 0 then ⟨0, 0⟩
  else
    let start : Int := ((x.significand.log2 : Int) + x.exponent) * 3 / 10 - 2
    shortestFrom x (magnitude x 8 start) 20 1

end RestGraph.Double
