import RestGraph.Settings

/-!
# Arguments

The words of a command line and the environment variables that stand in for them. A word that
starts with a dash is an option or a run of flags; every other word is the value of the option
before it, or else the source.
-/

namespace RestGraph.CommandLine

/-! ## Parameters -/

inductive Parameter where
  | source
  | skipValidation
  | skipSelection
  | listPaths
  | filter
  | pageSize
  | selections
  | printSelections
  | output
  | sourceName
  | baseUrl
  | header
  | verbose
  | help
  | version
deriving DecidableEq, Repr

namespace Parameter

def all : List Parameter :=
  [source, skipValidation, skipSelection, listPaths, filter, pageSize, selections, printSelections,
    output, sourceName, baseUrl, header, verbose, help, version]

/-- The name after two dashes; the source has none. -/
def long? : Parameter → Option String
  | source => none
  | skipValidation => some "skip-validation"
  | skipSelection => some "skip-selection"
  | listPaths => some "list-paths"
  | filter => some "filter"
  | pageSize => some "page-size"
  | selections => some "selections"
  | printSelections => some "print-selections"
  | output => some "output"
  | sourceName => some "source-name"
  | baseUrl => some "base-url"
  | header => some "header"
  | verbose => some "verbose"
  | help => some "help"
  | version => some "version"

def short? : Parameter → Option Char
  | output => some 'o'
  | verbose => some 'v'
  | help => some 'h'
  | version => some 'V'
  | _ => none

/-- The environment variable that is used where the parameter is not given. -/
def environment? : Parameter → Option String
  | source => some "CONNECTOR_GEN_SOURCE"
  | skipValidation => some "CONNECTOR_GEN_SKIP_VALIDATION"
  | filter => some "CONNECTOR_GEN_FILTER"
  | selections => some "CONNECTOR_GEN_SELECTIONS"
  | output => some "CONNECTOR_GEN_OUTPUT"
  | _ => none

/-- Flags are switched on; all other parameters have a value. -/
def isFlag : Parameter → Bool
  | skipValidation | skipSelection | listPaths | printSelections | verbose | help | version => true
  | _ => false

def isRepeatable (p : Parameter) : Bool := p == header

def ofLong? (name : String) : Option Parameter := all.find? fun p => p.long? == some name

def ofShort? (letter : Char) : Option Parameter := all.find? fun p => p.short? == some letter

end Parameter

/-! ## Values -/

/-- Why the arguments are not used; two of the reasons are no mistakes. -/
inductive UsageFault where
  | unknownArgument
  | invalidValue
  | valueValidation
  | argumentConflict
  | tooManyValues
  | missingRequiredArgument
  | displayHelp
  | displayVersion
deriving DecidableEq, Repr

def UsageFault.exitCode : UsageFault → Nat
  | displayHelp | displayVersion => 0
  | _ => 2

structure Arguments where
  source : String
  skipValidation : Bool
  skipSelection : Bool
  listPaths : Bool
  filter : Option String
  pageSize : Option Nat
  selections : Option String
  printSelections : Bool
  output : Option String
  sourceName : Option String
  baseUrl : Option String
  headers : List Header
  verbose : Bool

namespace Arguments

def empty : Arguments :=
  ⟨"", false, false, false, none, none, none, false, none, none, none, [], false⟩

def path (raw : String) : Except UsageFault String :=
  if raw.isEmpty then .error .invalidValue else .ok raw

def switch (raw : String) : Except UsageFault Bool :=
  if raw = "true" then .ok true
  else if raw = "false" then .ok false
  else .error .invalidValue

/-- A value that is read in a way of its own. -/
def checked {α : Type} (value : Option α) : Except UsageFault α :=
  match value with
  | some a => .ok a
  | none => .error .valueValidation

def assign (p : Parameter) (raw : String) (a : Arguments) : Except UsageFault Arguments := do
  match p with
  | .source => return { a with source := ← path raw }
  | .skipValidation => return { a with skipValidation := ← switch raw }
  | .skipSelection => return { a with skipSelection := ← switch raw }
  | .listPaths => return { a with listPaths := ← switch raw }
  | .filter => return { a with filter := some raw }
  | .pageSize => return { a with pageSize := some (← checked (Text.readWord? raw)) }
  | .selections => return { a with selections := some (← path raw) }
  | .printSelections => return { a with printSelections := ← switch raw }
  | .output => return { a with output := some (← path raw) }
  | .sourceName => return { a with sourceName := some raw }
  | .baseUrl => return { a with baseUrl := some raw }
  | .header => return { a with headers := a.headers ++ [← checked (Header.ofText? raw)] }
  | .verbose => return { a with verbose := ← switch raw }
  | .help => throw .displayHelp
  | .version => throw .displayVersion

end Arguments

/-! ## Words -/

structure Parsing where
  arguments : Arguments
  /-- The parameters that have their values. -/
  given : List Parameter
  /-- A parameter whose value is looked at when the next parameter comes, and the value, unless it
  is still to come. -/
  pending : Option (Parameter × Option String)
  /-- Whether there was a word for the source. -/
  hasSource : Bool

namespace Parsing

def start : Parsing := ⟨.empty, [], none, false⟩

/-- Take a parameter with its value. Except for headers this is done once. -/
def take (p : Parameter) (value : Option String) (s : Parsing) : Except UsageFault Parsing := do
  match value with
  | none => throw .invalidValue
  | some raw =>
    if !p.isRepeatable && s.given.contains p then throw .argumentConflict
    else return { s with arguments := ← s.arguments.assign p raw, given := p :: s.given }

/-- Take the pending parameter. -/
def settle (s : Parsing) : Except UsageFault Parsing :=
  match s.pending with
  | some (p, value) => { s with pending := none }.take p value
  | none => .ok s

def takeFlag (p : Parameter) (s : Parsing) : Except UsageFault Parsing := do
  (← s.settle).take p (some "true")

/-- An option and, if it is attached, its value. -/
def takeOption (p : Parameter) (attached : Option String) (s : Parsing) :
    Except UsageFault Parsing := do
  let s ← s.settle
  match attached with
  | some raw => s.take p (some raw)
  | none => return { s with pending := some (p, none) }

/-- A word after two dashes. A value is attached with an equals sign. -/
def longWord (word : String) (s : Parsing) : Except UsageFault Parsing :=
  let (name, attached) := match Text.cut? '=' word with
    | some (name, value) => (name, some value)
    | none => (word, none)
  match Parameter.ofLong? name with
  | none => .error .unknownArgument
  | some p =>
    if !p.isFlag then s.takeOption p attached
    else if attached.isSome then .error .tooManyValues
    else s.takeFlag p

/-- The letters after one dash: flags, and perhaps an option with what follows it. -/
def letters : List Char → Parsing → Except UsageFault Parsing
  | [], s => .ok s
  | c :: rest, s =>
    match Parameter.ofShort? c with
    | none => .error .unknownArgument
    | some p =>
      if p.isFlag then (s.takeFlag p).bind (letters rest)
      else match rest with
        | [] => s.takeOption p none
        | '=' :: value => s.takeOption p (some (String.ofList value))
        | value => s.takeOption p (some (String.ofList value))

/-- A word for the source; there is only one. -/
def sourceWord (word : String) (s : Parsing) : Except UsageFault Parsing := do
  if s.hasSource then throw .unknownArgument
  else return { ← s.settle with pending := some (.source, some word), hasSource := true }

def plainWord (word : String) (s : Parsing) : Except UsageFault Parsing :=
  match s.pending with
  | some (p, none) => .ok { s with pending := some (p, some word) }
  | _ => s.sourceWord word

def word (w : String) (s : Parsing) : Except UsageFault Parsing :=
  match w.toList with
  | '-' :: '-' :: name => s.longWord (String.ofList name)
  | ['-'] => s.plainWord w
  | '-' :: cs => s.letters cs
  | _ => s.plainWord w

/-- All words; after two dashes alone there are no more options. -/
def words : List String → Parsing → Except UsageFault Parsing
  | [], s => .ok s
  | w :: rest, s =>
    if w = "--" then rest.foldlM (fun s w => s.sourceWord w) s
    else (s.word w).bind (words rest)

/-- Let an environment variable stand in for a parameter that is not given. -/
def fallBack (lookup : String → Option String) (s : Parsing) (p : Parameter) :
    Except UsageFault Parsing :=
  if s.given.contains p then .ok s
  else match p.environment?.bind lookup with
    | some raw => s.take p (some raw)
    | none => .ok s

end Parsing

namespace Arguments

/-- Read the words of a command line, after the name of the program. -/
def ofWords (lookup : String → Option String) (words : List String) :
    Except UsageFault Arguments := do
  let s ← Parsing.words words .start
  let s ← Parameter.all.foldlM (Parsing.fallBack lookup) (← s.settle)
  if s.given.contains .source then return s.arguments else throw .missingRequiredArgument

/-- The settings from the environment, with those given as arguments over them. -/
def settings (lookup : String → Option String) (a : Arguments) : Settings :=
  let s := Settings.ofEnvironment lookup
  { s with
    sourceName := a.sourceName.getD s.sourceName
    baseUrl := a.baseUrl.or s.baseUrl
    headers := s.headers ++ a.headers
    pageSize := (a.pageSize.filter (0 < ·)).getD s.pageSize }

end Arguments

end RestGraph.CommandLine
