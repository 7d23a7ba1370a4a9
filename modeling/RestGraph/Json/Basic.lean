import RestGraph.Double.Basic

/-!
# JSON values

Values with their members in document order. A whole number that fits 64 bits, signed or unsigned,
is kept exactly; every other number is a double.
-/

namespace RestGraph

inductive Json where
  | null
  | bool (value : Bool)
  | int (value : Int)
  | real (value : Double)
  | text (value : String)
  | list (items : List Json)
  | object (members : List (String × Json))
deriving Inhabited, Repr

namespace Json

def text? : Json → Option String
  | .text s => some s
  | _ => none

def bool? : Json → Option Bool
  | .bool b => some b
  | _ => none

def list? : Json → Option (List Json)
  | .list items => some items
  | _ => none

def object? : Json → Option (List (String × Json))
  | .object members => some members
  | _ => none

def isNull : Json → Bool
  | .null => true
  | _ => false

def isObject : Json → Bool
  | .object _ => true
  | _ => false

/-- The value of a member; a value that is no object has no members. -/
def get? (j : Json) (key : String) : Option Json :=
  match j with
  | .object members => members.lookup key
  | _ => none

def has (j : Json) (key : String) : Bool := (j.get? key).isSome

def textAt? (j : Json) (key : String) : Option String := (j.get? key).bind text?

/-- The target of a reference object. -/
def ref? (j : Json) : Option String := j.textAt? "$ref"

/-- Set a member: a key that is present keeps its place, a new one goes last. -/
def insert (key : String) (value : Json) : List (String × Json) → List (String × Json)
  | [] => [(key, value)]
  | (k, v) :: rest => if k = key then (k, value) :: rest else (k, v) :: insert key value rest

mutual

/-- The number of values and members in a value. -/
def size : Json → Nat
  | .list items => 1 + sizeItems items
  | .object members => 1 + sizeMembers members
  | _ => 1
termination_by structural j => j

def sizeItems : List Json → Nat
  | [] => 0
  | j :: rest => j.size + sizeItems rest
termination_by structural items => items

def sizeMembers : List (String × Json) → Nat
  | [] => 0
  | (_, j) :: rest => 1 + j.size + sizeMembers rest
termination_by structural members => members

end

end Json

end RestGraph
