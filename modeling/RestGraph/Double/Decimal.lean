import RestGraph.Double.Basic
import RestGraph.Text.Numeral

/-!
# Decimals

Decimal fractions as digits and a power of ten: reading them, writing them without an exponent, and
the double nearest to one.
-/

namespace RestGraph.Double

/-- A decimal `digits * 10 ^ exponent`. -/
structure Decimal where
  digits : Nat
  exponent : Int
deriving DecidableEq, Repr

namespace Decimal

/-- The exponent after the digits, if there is one; nothing may follow it. -/
def exponent? (cs : List Char) : Option Int :=
  match cs with
  | [] => some 0
  | c :: cs =>
    if c = 'e' ∨ c = 'E' then
      let (negative, digits) := Text.cutSign cs
      (Text.readNatural? 10 digits).map fun n => if negative then -(n : Int) else n
    else none

/-- A decimal without a sign: digits, perhaps with a point among or around them, and an exponent. -/
def ofChars? (cs : List Char) : Option Decimal :=
  let (digits, cs) := cs.span Char.isDigit
  let (fraction, cs) := match cs with
    | '.' :: cs => cs.span Char.isDigit
    | cs => ([], cs)
  (exponent? cs).bind fun e =>
    (Text.readNatural? 10 (digits ++ fraction)).map fun n => ⟨n, e - fraction.length⟩

/-- The double nearest to a decimal; there is none beyond the largest. The powers of ten that can
matter lie between -400 and 400. -/
def toDouble? (d : Decimal) : Option Double :=
  if d.digits = 0 ∨ d.digits.log2 + 1 + d.exponent < -400 then some .zero
  else if 400 < d.exponent then none
  else Double.ofDecimal? d.digits d.exponent

/-- The digits with a point where it belongs, and none after a whole number. -/
def positional (d : Decimal) : String :=
  let digits := toString d.digits
  let n : Int := digits.length
  let point := d.exponent + n
  if point ≤ 0 then "0." ++ "".pushn '0' (-point).toNat ++ digits
  else if n ≤ point then digits ++ "".pushn '0' (point - n).toNat
  else
    let (whole, fraction) := digits.toList.splitAt point.toNat
    String.ofList whole ++ "." ++ String.ofList fraction

end Decimal

end RestGraph.Double
