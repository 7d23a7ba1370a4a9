import RestGraph.Text.Split

/-!
# Request methods

The methods under which a path item declares operations.
-/

namespace RestGraph

inductive Method where
  | get
  | post
  | put
  | patch
  | delete
deriving DecidableEq, Repr

namespace Method

/-- All methods, in the order in which the operations of a path item are listed. -/
def all : List Method := [get, post, put, patch, delete]

def key : Method → String
  | get => "get"
  | post => "post"
  | put => "put"
  | patch => "patch"
  | delete => "delete"

/-- The method as it is sent. -/
def verb : Method → String
  | get => "GET"
  | post => "POST"
  | put => "PUT"
  | patch => "PATCH"
  | delete => "DELETE"

/-- The method with a key, capitals or not. -/
def ofKey? (key : String) : Option Method := all.find? fun m => m.key == Text.asciiLower key

/-- Whether a request may carry a body. -/
def isWrite : Method → Bool
  | post | put | patch => true
  | get | delete => false

/-- Whether the operation only reads. -/
def isQuery : Method → Bool
  | get => true
  | post | put | patch | delete => false

@[simp] theorem ofKey?_key (m : Method) : ofKey? m.key = some m := by cases m <;> decide +kernel

end Method

end RestGraph
