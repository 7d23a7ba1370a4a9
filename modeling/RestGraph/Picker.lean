import RestGraph.Text.Blank
import RestGraph.Text.Numeral
import RestGraph.Text.Split

/-!
# The picker

A choice among items, made line by line: a line marks items, turns the page or ends the choice.
-/

namespace RestGraph.Picker

/-! ## Commands -/

inductive Command where
  /-- Turn the marks of these items around, one after the other. -/
  | toggle (indices : List Nat)
  | all
  | next
  | previous
  | done
  | quit
deriving DecidableEq, Repr

/-- Why a line is no command. -/
inductive Rejection where
  | notANumber (raw : String)
  | outOfRange (number total : Nat)
  | emptyRange (part : String)
deriving DecidableEq, Repr

def Rejection.message : Rejection → String
  | .notANumber raw => "'" ++ raw ++ "' is not a number"
  | .outOfRange n total => toString n ++ " is out of range 1-" ++ toString total
  | .emptyRange part => "empty range '" ++ part ++ "'"

namespace Command

def ofWord? (word : String) : Option Command :=
  match word with
  | "" => some .done
  | "a" | "all" => some .all
  | "n" | "next" => some .next
  | "p" | "prev" => some .previous
  | "q" | "quit" => some .quit
  | _ => none

/-- The number of an item, counted from one. -/
def number (total : Nat) (raw : String) : Except Rejection Nat :=
  match Text.readWord? (Text.trim raw) with
  | none => .error (.notANumber raw)
  | some n => if n = 0 ∨ total < n then .error (.outOfRange n total) else .ok n

def indices (total : Nat) (part : String) : Except Rejection (List Nat) := do
  match Text.cut? '-' part with
  | none => return [(← number total part) - 1]
  | some (a, b) =>
    let first ← number total a
    let last ← number total b
    if last < first then .error (.emptyRange part)
    else return List.range' (first - 1) (last - first + 1)

/-- Numbers and ranges, with commas or spaces between them. -/
def parts (line : String) : List String :=
  ((Text.splitWhere (fun c => c == ',' || c == ' ') line).map Text.trim).filter
    fun p => !p.isEmpty

/-- Read a line; one bad part makes the whole line bad. -/
def ofLine (total : Nat) (line : String) : Except Rejection Command :=
  match ofWord? (Text.asciiLower (Text.trim line)) with
  | some c => .ok c
  | none => do return .toggle (← (parts line).mapM (indices total)).flatten

end Command

end Picker

/-! ## States -/

structure Picker where
  /-- The items, each with its mark. -/
  entries : List (String × Bool)
  pageSize : Nat
  page : Nat
  pageSize_pos : 0 < pageSize

namespace Picker

/-- Nothing marked, on the first page. A page has at least one item. -/
def start (items : List String) (pageSize : Nat) : Picker :=
  ⟨items.map fun s => (s, false), max 1 pageSize, 0, by omega⟩

def total (p : Picker) : Nat := p.entries.length

/-- The number of pages; without items there is one, an empty one. -/
def pages (p : Picker) : Nat := max 1 ((p.total + p.pageSize - 1) / p.pageSize)

/-- The indices of the marked items, in ascending order. -/
def chosen (p : Picker) : List Nat :=
  p.entries.zipIdx.filterMap fun ((_, marked), i) => if marked then some i else none

def markAll (mark : Bool) (p : Picker) : Picker :=
  { p with entries := p.entries.map fun (s, _) => (s, mark) }

def toggle (p : Picker) (i : Nat) : Picker :=
  { p with entries := p.entries.modify i fun (s, marked) => (s, !marked) }

/-- The effect of a command that does not end the choice. -/
def apply (p : Picker) : Command → Picker
  | .toggle indices => indices.foldl toggle p
  | .all => p.markAll (p.chosen.length != p.total)
  | .next => { p with page := min (p.page + 1) (p.pages - 1) }
  | .previous => { p with page := p.page - 1 }
  | .done | .quit => p

/-! ## What is shown -/

def padNumber (n : Nat) : String :=
  let digits := toString n
  String.ofList (List.replicate (3 - digits.length) ' ') ++ digits

def entryLine (entry : (String × Bool) × Nat) : String :=
  let ((item, marked), i) := entry
  "  [" ++ (if marked then "x" else " ") ++ "] " ++ padNumber (i + 1) ++ ". " ++ item ++ "\n"

/-- The entries of the page, with their indices. -/
def shownEntries (p : Picker) : List ((String × Bool) × Nat) :=
  (p.entries.zipIdx.drop (p.page * p.pageSize)).take p.pageSize

def statusLine (p : Picker) : String :=
  "Page " ++ toString (p.page + 1) ++ "/" ++ toString p.pages ++ " (" ++
    toString p.chosen.length ++
    " selected). Numbers or ranges toggle, a: all, n/p: page, enter: done, q: quit\n"

/-- The page, and the prompt for the next line. -/
def prompt (p : Picker) : String :=
  "\n" ++ String.join (p.shownEntries.map entryLine) ++ p.statusLine ++ "> "

/-! ## Runs -/

/-- The marked items at the end, and everything that was shown. -/
structure Outcome where
  chosen : List Nat
  shown : String

def Outcome.after (text : String) (o : Outcome) : Outcome := { o with shown := text ++ o.shown }

/-- Take commands until one ends the choice, or there are no more lines. -/
def run (p : Picker) : List String → Outcome
  | [] => ⟨p.chosen, p.prompt ++ "\n"⟩
  | line :: rest =>
    match Command.ofLine p.total line with
    | .ok .done => ⟨p.chosen, p.prompt ++ "\n"⟩
    | .ok .quit => ⟨[], p.prompt⟩
    | .ok command => (run (p.apply command) rest).after p.prompt
    | .error rejection => (run p rest).after (p.prompt ++ "  " ++ rejection.message ++ "\n")

/-- The lines of a text; the last one need not end with a line feed. -/
def lines (text : String) : List String :=
  match (Text.split '\n' text).reverse with
  | "" :: rest => rest.reverse
  | all => all.reverse

/-- Let a text choose among items. -/
def choose (items : List String) (pageSize : Nat) (input : String) : Outcome :=
  (start items pageSize).run (lines input)

end Picker

end RestGraph
