import RestGraph.Json.Basic
import RestGraph.Text.Numeral

/-!
# Reading JSON

A strict reader: one value and blanks around it, at most `maxDepth` lists and objects inside each
other. Where a key comes twice the last value counts, at the place of the first. All functions take
the text as a list of characters and answer with what is left of it; the first argument bounds the
number of steps, and the length of the text is always enough.
-/

namespace RestGraph.Json

def maxDepth : Nat := 127

def skipBlank : List Char → List Char
  | c :: cs => if c = ' ' ∨ c = '\n' ∨ c = '\t' ∨ c = '\r' then skipBlank cs else c :: cs
  | [] => []

/-! ## Strings -/

def hexUnit? : List Char → Option (Nat × List Char)
  | a :: b :: c :: d :: cs => (Text.readNatural? 16 [a, b, c, d]).map fun n => (n, cs)
  | _ => none

/-- The character after `\u`; two escapes make one character where the first is a high surrogate,
and a surrogate alone is refused. -/
def escapedChar? (cs : List Char) : Option (Char × List Char) :=
  match hexUnit? cs with
  | none => none
  | some (n, cs) =>
    if 0xD800 ≤ n ∧ n < 0xDC00 then
      match cs with
      | '\\' :: 'u' :: cs => match hexUnit? cs with
        | some (m, cs) =>
          if 0xDC00 ≤ m ∧ m < 0xE000 then
            some (Char.ofNat (0x10000 + (n - 0xD800) * 0x400 + (m - 0xDC00)), cs)
          else none
        | none => none
      | _ => none
    else if 0xDC00 ≤ n ∧ n < 0xE000 then none
    else some (Char.ofNat n, cs)

def simpleEscape? (c : Char) : Option Char :=
  match c with
  | '"' => some '"'
  | '\\' => some '\\'
  | '/' => some '/'
  | 'b' => some '\x08'
  | 'f' => some '\x0c'
  | 'n' => some '\n'
  | 'r' => some '\r'
  | 't' => some '\t'
  | _ => none

/-- What stands between the opening quote, already read, and the closing one. -/
def readString : Nat → List Char → Option (List Char × List Char)
  | 0, _ => none
  | _ + 1, [] => none
  | fuel + 1, c :: cs =>
    if c = '"' then some ([], cs)
    else if c = '\\' then
      match cs with
      | 'u' :: cs => (escapedChar? cs).bind fun (d, cs) =>
        (readString fuel cs).map fun (ds, cs) => (d :: ds, cs)
      | e :: cs => (simpleEscape? e).bind fun d =>
        (readString fuel cs).map fun (ds, cs) => (d :: ds, cs)
      | [] => none
    else if c.toNat < 0x20 then none
    else (readString fuel cs).map fun (ds, cs) => (c :: ds, cs)

/-! ## Numbers -/

/-- The largest significand that is kept; digits that would exceed it are dropped. -/
def maxSignificand : Nat := Nat.pow 2 64 - 1

/-- Append digits to a significand while it stays in bounds; also how many were left over. -/
def appendDigits : Nat → List Char → Nat × Nat
  | s, [] => (s, 0)
  | s, c :: cs =>
    let next := s * 10 + (c.toNat - '0'.toNat)
    if next ≤ maxSignificand then appendDigits next cs else (s, cs.length + 1)

/-- Scale by a power of ten, in steps of at most 308, each step rounded to a double. -/
def scale? : Nat → Double → Int → Option Double
  | 0, x, _ => some x
  | fuel + 1, x, e =>
    if x.isZero then some x
    else if e < -308 then
      (Double.ofDecimal? 1 308).bind fun t => (x.div? t).bind fun y => scale? fuel y (e + 308)
    else if e < 0 then (Double.ofDecimal? 1 (-e)).bind x.div?
    else if e ≤ 308 then (Double.ofDecimal? 1 e).bind x.mul?
    else none

/-- A significand times a power of ten: rounded to a double first, scaled afterwards. -/
def realOf? (negative : Bool) (significand : Nat) (e : Int) : Option Json :=
  ((Double.nearest? significand 1).bind fun x => scale? 8 x e).map fun x =>
    .real { x with negative }

/-- A literal from its parts: sign, whole digits, fraction digits and exponent. -/
def numberOf? (negative : Bool) (whole : List Char) (part : Option (List Char))
    (exponent : Option Int) : Option Json :=
  let (s, dropped) := appendDigits 0 whole
  match part, exponent with
  | none, none =>
    if 0 < dropped then realOf? negative s dropped
    else if !negative then some (.int s)
    else if 0 < s ∧ s ≤ Nat.pow 2 63 then some (.int (-s))
    else realOf? true s 0
  | part, exponent =>
    let part := part.getD []
    let (s, unused) := appendDigits s part
    let e : Int := (dropped : Int) - ((part.length - unused : Nat) : Int)
    match exponent with
    | none => realOf? negative s e
    | some x =>
      if x.natAbs ≤ Nat.pow 2 31 - 1 then realOf? negative s (e + x)
      else if s ≠ 0 ∧ 0 < x then none
      else some (.real { Double.zero with negative })

def readExponent? (cs : List Char) : Option (Option Int × List Char) :=
  match cs with
  | c :: rest =>
    if c = 'e' ∨ c = 'E' then
      let (negative, rest) := Text.cutSign rest
      let (digits, rest) := rest.span Char.isDigit
      (Text.readNatural? 10 digits).map fun n => (some (if negative then -(n : Int) else n), rest)
    else some (none, cs)
  | [] => some (none, [])

def readFraction? (cs : List Char) : Option (Option (List Char) × List Char) :=
  match cs with
  | '.' :: rest =>
    let (digits, rest) := rest.span Char.isDigit
    if digits.isEmpty then none else some (some digits, rest)
  | _ => some (none, cs)

def readNumber? (cs : List Char) : Option (Json × List Char) := do
  let (negative, cs) := match cs with
    | '-' :: r => (true, r)
    | r => (false, r)
  let (whole, cs) := match cs with
    | '0' :: r => (['0'], r)
    | r => r.span Char.isDigit
  if whole.isEmpty then none
  else
    let (part, cs) ← readFraction? cs
    let (exponent, cs) ← readExponent? cs
    let j ← numberOf? negative whole part exponent
    return (j, cs)

/-! ## Values -/

def readWordValue? (cs : List Char) : Option (Json × List Char) :=
  match cs with
  | 'n' :: 'u' :: 'l' :: 'l' :: r => some (.null, r)
  | 't' :: 'r' :: 'u' :: 'e' :: r => some (.bool true, r)
  | 'f' :: 'a' :: 'l' :: 's' :: 'e' :: r => some (.bool false, r)
  | _ => none

mutual

/-- A value; `room` is how many more containers may be opened around it. -/
def readValue : Nat → Nat → List Char → Option (Json × List Char)
  | 0, _, _ => none
  | fuel + 1, room, cs =>
    match skipBlank cs with
    | '"' :: cs => (readString (cs.length + 1) cs).map fun (s, cs) => (.text (String.ofList s), cs)
    | '[' :: cs =>
      if room = 0 then none
      else match skipBlank cs with
        | ']' :: cs => some (.list [], cs)
        | cs => (readItems fuel (room - 1) cs).map fun (items, cs) => (.list items, cs)
    | '\x7b' :: cs =>
      if room = 0 then none
      else match skipBlank cs with
        | '\x7d' :: cs => some (.object [], cs)
        | cs => (readMembers fuel (room - 1) [] cs).map fun (ms, cs) => (.object ms, cs)
    | c :: cs => if c = '-' ∨ c.isDigit then readNumber? (c :: cs) else readWordValue? (c :: cs)
    | [] => none
termination_by structural fuel => fuel

/-- The items of a list up to its bracket. -/
def readItems : Nat → Nat → List Char → Option (List Json × List Char)
  | 0, _, _ => none
  | fuel + 1, room, cs =>
    match readValue fuel room cs with
    | none => none
    | some (j, cs) =>
      match skipBlank cs with
      | ']' :: cs => some ([j], cs)
      | ',' :: cs => (readItems fuel room cs).map fun (items, cs) => (j :: items, cs)
      | _ => none
termination_by structural fuel => fuel

/-- The members of an object up to its brace, added to those already read. -/
def readMembers : Nat → Nat → List (String × Json) → List Char →
    Option (List (String × Json) × List Char)
  | 0, _, _, _ => none
  | fuel + 1, room, before, cs =>
    match skipBlank cs with
    | '"' :: cs =>
      match readString (cs.length + 1) cs with
      | none => none
      | some (key, cs) =>
        match skipBlank cs with
        | ':' :: cs =>
          match readValue fuel room cs with
          | none => none
          | some (j, cs) =>
            let members := insert (String.ofList key) j before
            match skipBlank cs with
            | '\x7d' :: cs => some (members, cs)
            | ',' :: cs => readMembers fuel room members cs
            | _ => none
        | _ => none
    | _ => none
termination_by structural fuel => fuel

end

def read? (text : String) : Option Json :=
  let cs := text.toList
  match readValue (cs.length + 1) maxDepth cs with
  | some (j, rest) => if (skipBlank rest).isEmpty then some j else none
  | none => none

end RestGraph.Json
