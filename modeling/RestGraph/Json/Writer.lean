import RestGraph.Json.Basic
import RestGraph.Double.Shortest

/-!
# Writing JSON

Compact text: no blanks, members in order, only quotes, backslashes and control characters escaped.
-/

namespace RestGraph.Json

def hexDigit (n : Nat) : Char := (Nat.digitChar n)

def escapeChar (c : Char) : List Char :=
  if c = '"' then ['\\', '"']
  else if c = '\\' then ['\\', '\\']
  else if c = '\n' then ['\\', 'n']
  else if c = '\r' then ['\\', 'r']
  else if c = '\t' then ['\\', 't']
  else if c.toNat = 8 then ['\\', 'b']
  else if c.toNat = 12 then ['\\', 'f']
  else if c.toNat < 0x20 then
    ['\\', 'u', '0', '0', hexDigit (c.toNat / 16), hexDigit (c.toNat % 16)]
  else [c]

def quoteChars (cs : List Char) : List Char := '"' :: cs.flatMap escapeChar ++ ['"']

def quote (s : String) : String := String.ofList (quoteChars s.toList)

/-- The layout of a number: positional from `10 ^ least` up to `10 ^ most`, else one digit, a
fraction and a signed exponent. -/
structure NumberStyle where
  least : Int
  most : Int

/-- Numbers from `0.00001` up to but not including `1e+16` are written without an exponent. -/
def numberStyle : NumberStyle := ⟨-5, 16⟩

def realText (x : Double) : String :=
  let d := x.shortest
  let digits := toString d.digits
  -- the value is `0.digits` times ten to the power `point`
  let point := d.exponent + digits.length
  let sign := if x.negative then "-" else ""
  let body :=
    if numberStyle.least < point ∧ point ≤ numberStyle.most then
      d.positional ++ if 0 ≤ d.exponent then ".0" else ""
    else
      let fraction := digits.toList.drop 1
      let mantissa := String.ofList (digits.toList.take 1) ++
        (if fraction.isEmpty then "" else "." ++ String.ofList fraction)
      let e := point - 1
      mantissa ++ "e" ++ (if e < 0 then "-" else "+") ++ toString e.natAbs
  sign ++ body

mutual

def compact : Json → String
  | .null => "null"
  | .bool b => if b then "true" else "false"
  | .int i => toString i
  | .real x => realText x
  | .text s => quote s
  | .list items => "[" ++ compactItems items ++ "]"
  | .object members => "\x7b" ++ compactMembers members ++ "\x7d"
termination_by structural j => j

def compactItems : List Json → String
  | [] => ""
  | [j] => j.compact
  | j :: rest => j.compact ++ "," ++ compactItems rest
termination_by structural items => items

def compactMembers : List (String × Json) → String
  | [] => ""
  | [(k, j)] => quote k ++ ":" ++ j.compact
  | (k, j) :: rest => quote k ++ ":" ++ j.compact ++ "," ++ compactMembers rest
termination_by structural members => members

end

end RestGraph.Json
