import RestGraph.Double.Decimal
import RestGraph.Json.Basic
import RestGraph.Text.Split
import RestGraph.Text.Numeral
import RestGraph.Yaml.Token

/-!
# Values of scalars

A plain scalar is null, a truth value, a number or else text. A tag of the core schema decides
instead of the form; other tags of the schema make text.
-/

namespace RestGraph.Yaml.Scalar

def nullWords : List String := ["~", "null", "Null", "NULL"]

def bool? (s : String) : Option Bool :=
  if ["true", "True", "TRUE"].contains s then some true
  else if ["false", "False", "FALSE"].contains s then some false
  else none

/-! ## Whole numbers -/

/-- Digits after a leading zero: such a text is no number. -/
def hasLeadingZero (cs : List Char) : Bool :=
  match (Text.cutSign cs).2 with
  | '0' :: c :: cs => (c :: cs).all Char.isDigit
  | _ => false

def magnitude? (cs : List Char) : Option Nat :=
  match cs with
  | '0' :: 'x' :: digits => Text.readNatural? 16 digits
  | '0' :: 'o' :: digits => Text.readNatural? 8 digits
  | '0' :: 'b' :: digits => Text.readNatural? 2 digits
  | digits => Text.readNatural? 10 digits

def whole? (cs : List Char) : Option Int :=
  if hasLeadingZero cs then none
  else
    let (negative, digits) := Text.cutSign cs
    (magnitude? digits).map fun n => if negative then -(n : Int) else n

inductive Whole where
  | fits (n : Int)
  /-- More than 64 bits, but not more than 128; there is no such value. -/
  | tooLarge
  /-- No whole number, or one that only a double can hold. -/
  | none

def wholeOf (cs : List Char) : Whole :=
  match whole? cs with
  | some n =>
    if -Int.pow 2 63 ≤ n ∧ n < Int.pow 2 64 then .fits n
    else if -Int.pow 2 127 ≤ n ∧ n < Int.pow 2 128 then .tooLarge
    else .none
  | none => .none

/-! ## Other numbers -/

def specialWords : List String :=
  [".inf", ".Inf", ".INF", "+.inf", "+.Inf", "+.INF", "-.inf", "-.Inf", "-.INF",
    ".nan", ".NaN", ".NAN"]

/-- A number with a sign. Infinities and what is no number become null. -/
def real? (s : String) : Option Json :=
  if specialWords.contains s then some .null
  else
    let (negative, cs) := Text.cutSign s.toList
    ((Double.Decimal.ofChars? cs).bind Double.Decimal.toDouble?).map fun x =>
      .real { x with negative }

/-! ## Resolution -/

/-- The value of a plain scalar without a tag. -/
def ofPlain? (s : String) : Option Json :=
  if s.isEmpty || nullWords.contains s then some .null
  else match bool? s with
    | some b => some (.bool b)
    | none => match wholeOf s.toList with
      | .fits n => some (.int n)
      | .tooLarge => none
      | .none =>
        if hasLeadingZero s.toList then some (.text s)
        else some ((real? s).getD (.text s))

def coreTag (name : String) : String := "tag:yaml.org,2002:" ++ name

/-- A tag of one's own, for which there are no values. -/
def isLocalTag (tag : TagText) : Bool := tag.isSound && Text.startsWith "!" tag.text

/-- The value of a scalar with a tag that is not one's own. -/
def ofCoreTag? (tag s : String) : Option Json :=
  if tag = coreTag "null" then if nullWords.contains s then some .null else none
  else if tag = coreTag "bool" then (bool? s).map .bool
  else if tag = coreTag "int" then
    match wholeOf s.toList with
    | .fits n => some (.int n)
    | _ => none
  else if tag = coreTag "float" then real? s
  else some (.text s)

/-- The value of a scalar. A tag of one's own that cannot be read is passed over. -/
def value? (text : String) (plain : Bool) (tag : Option TagText) : Option Json :=
  let untagged := if plain then ofPlain? text else some (.text text)
  match tag with
  | none => untagged
  | some tag =>
    if isLocalTag tag then none
    else if Text.startsWith "!" tag.text then untagged
    else ofCoreTag? tag.text text

end RestGraph.Yaml.Scalar
