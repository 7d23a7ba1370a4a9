import RestGraph.Double.Shortest
import RestGraph.Pattern.Reader
import RestGraph.Text.Blank
import RestGraph.Text.Category
import RestGraph.Text.Lowercase
import RestGraph.Text.Numeral
import RestGraph.Text.Split

/-!
# Logging

How much is logged, and how. A filter is a list of directives, each of which sets the level of a
target, of the spans with a name, or of the spans with a field. Of two directives for the same the
later one counts.
-/

namespace RestGraph.Logging

/-! ## Levels -/

inductive Level where
  | off
  | error
  | warn
  | info
  | debug
  | trace
deriving DecidableEq, Repr

namespace Level

def all : List Level := [off, error, warn, info, debug, trace]

def word : Level → String
  | off => "off"
  | error => "error"
  | warn => "warn"
  | info => "info"
  | debug => "debug"
  | trace => "trace"

/-- A level by its number or its word, in capitals or not. -/
def ofText? (s : String) : Option Level :=
  match Text.readWord? s with
  | some n => all[n]?
  | none => all.find? fun l => l.word == Text.asciiLower s

end Level

/-! ## Fields -/

/-- What the value of a field has to be. -/
inductive FieldValue where
  | bool (b : Bool)
  /-- A number of 64 bits without a sign. -/
  | natural (n : Nat)
  /-- A number of 64 bits with a sign, as which those below zero and `-0` are read. -/
  | integer (n : Int)
  | real (x : Double)
  | infinity (negative : Bool)
  /-- What is no number. -/
  | nan
  /-- Text that matches a pattern. -/
  | pattern (text : String)
deriving DecidableEq, Repr

namespace FieldValue

def bool? (s : String) : Option FieldValue :=
  if s == "true" then some (.bool true) else if s == "false" then some (.bool false) else none

def integer? (s : String) : Option FieldValue :=
  match Text.cutSign s.toList with
  | (true, digits) =>
    ((Text.readNatural? 10 digits).filter (· ≤ Nat.pow 2 63)).map fun n => .integer (-(n : Int))
  | (false, _) => none

/-- A decimal, an infinity or no number, perhaps with a sign. What is beyond all doubles is an
infinity too. -/
def real? (s : String) : Option FieldValue :=
  let (negative, cs) := Text.cutSign s.toList
  let word := Text.asciiLower (String.ofList cs)
  if word == "inf" || word == "infinity" then some (.infinity negative)
  else if word == "nan" then some .nan
  else (Double.Decimal.ofChars? cs).map fun d =>
    match d.toDouble? with
    | some x => .real { x with negative }
    | none => .infinity negative

/-- A value of the first kind that a text is read as. A pattern must not need to see the words of
any script. -/
def ofText? (s : String) : Option FieldValue :=
  bool? s <|> (Text.readWord? s).map natural <|> integer? s <|> real? s <|>
    if Pattern.isWordless s then some (.pattern s) else none

def realText (x : Double) : String := (if x.negative then "-" else "") ++ x.shortest.positional

def text : FieldValue → String
  | bool b => if b then "true" else "false"
  | natural n => toString n
  | integer n => toString n
  | real x => realText x
  | infinity negative => if negative then "-inf" else "inf"
  | nan => "NaN"
  | pattern text => text

/-- Whether two values are the same: numbers of one kind by their value, whatever the sign of
zero. -/
def same (v w : FieldValue) : Bool :=
  match v, w with
  | real x, real y => x == y || (x.isZero && y.isZero)
  | v, w => v == w

end FieldValue

/-- A field of a span, perhaps with the value that it has to have. -/
structure Field where
  name : String
  value : Option FieldValue
deriving DecidableEq, Repr

namespace Field

def text (f : Field) : String :=
  "\x7b" ++ f.name ++ (f.value.elim "" fun v => "=" ++ v.text) ++ "\x7d"

def same (f g : Field) : Bool :=
  f.name == g.name &&
    match f.value, g.value with
    | some v, some w => v.same w
    | v, w => v == w

def ofChars? (cs : List Char) : Option Field :=
  if cs.isEmpty then none
  else match Text.split '=' (String.ofList cs) with
    | name :: value :: _ => (FieldValue.ofText? value).map fun v => ⟨name, some v⟩
    | name :: [] => some ⟨name, none⟩
    | [] => none

end Field

/-! ## Directives -/

structure Directive where
  target : Option String
  span : Option String
  field : Option Field
  level : Level
deriving DecidableEq, Repr

namespace Directive

def ofLevel (level : Level) : Directive := ⟨none, none, none, level⟩

/-- Two directives about the same thing, whatever they say of it. -/
def isAbout (d e : Directive) : Bool :=
  d.target == e.target && d.span == e.span &&
    match d.field, e.field with
    | some f, some g => f.same g
    | f, g => f == g

def text (d : Directive) : String :=
  let inside := d.span.getD "" ++ d.field.elim "" Field.text
  let spans := if d.span.isSome || d.field.isSome then "[" ++ inside ++ "]" else ""
  let subject := d.target.getD "" ++ spans
  if d.target.isSome || d.span.isSome || d.field.isSome then subject ++ "=" ++ d.level.word
  else d.level.word

/-- The level after an equals sign; nothing there means all. -/
def levelOf? (cs : List Char) : Option Level :=
  if cs.isEmpty then some .trace else Level.ofText? (String.ofList cs)

/-- The level after the subject of a directive. -/
def ending? (cs : List Char) : Option Level :=
  match cs with
  | [] => some .trace
  | '=' :: cs => levelOf? cs
  | _ => none

/-- What follows an opening bracket: a span, perhaps with a field in braces. -/
def ofSpan? (target : Option String) (cs : List Char) : Option Directive :=
  let (name, rest) := cs.span fun c => c != ']' && c != '\x7b'
  match rest with
  | ']' :: rest => (ending? rest).map fun level =>
    ⟨target, some (String.ofList name), none, level⟩
  | '\x7b' :: rest =>
    let span := if name.isEmpty then none else some (String.ofList name)
    match Text.cutChars? '\x7d' rest with
    | some (field, ']' :: rest) => (Field.ofChars? field).bind fun field =>
      (ending? rest).map fun level => ⟨target, span, some field, level⟩
    | _ => none
  | _ => none

/-- A level alone, or a target of which everything is logged. -/
def ofWord (word : String) : Directive :=
  match Level.ofText? word with
  | some level => ofLevel level
  | none => ⟨some word, none, none, .trace⟩

def mayStart (c : Char) : Bool := c == '-' || c == ':' || c == '_' || Text.isAlphanumeric c

/-- Read one directive, which has no comma and no blanks around it. -/
def ofText? (s : String) : Option Directive :=
  match s.toList with
  | [] => none
  | '[' :: cs => ofSpan? none cs
  | c :: cs =>
    if !mayStart c then none
    else
      let (word, rest) := (c :: cs).span fun c => c != '=' && c != '['
      let target := String.ofList word
      match rest with
      | [] => some (ofWord target)
      | '[' :: rest => ofSpan? (some target) rest
      | _ :: rest => (levelOf? rest).map fun level => ⟨some target, none, none, level⟩

/-- Put a directive in the place of those about the same thing. -/
def add (ds : List Directive) (d : Directive) : List Directive :=
  ds.filter (!d.isAbout ·) ++ [d]

end Directive

/-! ## Configuration -/

inductive Format where
  | json
  | pretty
deriving DecidableEq, Repr

structure Config where
  /-- The level as it was given. -/
  levelText : String
  format : Format
  /-- More directives, with commas between them. -/
  targets : Option String
  /-- Whether to say which line of the program a message comes from. -/
  includesLocation : Bool
deriving DecidableEq, Repr

namespace Config

def default : Config := ⟨"warn", .pretty, none, false⟩

def formatOf (s : String) : Format := if Text.lowercase s == "json" then .json else .pretty

/-- A truth value in exactly its one spelling. -/
def switch? (s : String) : Option Bool :=
  if s == "true" then some true else if s == "false" then some false else none

/-- The configuration that environment variables make. -/
def ofEnvironment (lookup : String → Option String) : Config :=
  let get (name : String) := lookup ("CONNECTOR_GEN_LOG_" ++ name)
  { levelText := (get "LEVEL").getD default.levelText
    format := ((get "FORMAT").map formatOf).getD default.format
    targets := get "TARGET_FILTER"
    includesLocation := ((get "INCLUDE_LOCATION").bind switch?).getD default.includesLocation }

/-- The levels that a configuration may name; everything else is a warning. -/
def level (c : Config) : Level :=
  let named := [Level.error, .warn, .info, .debug, .trace]
  (named.find? fun l => l.word == Text.lowercase c.levelText).getD .warn

/-- The filter: the level, and then the directives that can be read. -/
def directives (c : Config) : List Directive :=
  let parts := ((Text.split ',' (c.targets.getD "")).map Text.trim).filter fun p => !p.isEmpty
  (parts.filterMap Directive.ofText?).foldl Directive.add [.ofLevel c.level]

/-- The texts of the directives, sorted. -/
def directiveTexts (c : Config) : List String :=
  (c.directives.map Directive.text).mergeSort fun a b => a ≤ b

end Config

end RestGraph.Logging
