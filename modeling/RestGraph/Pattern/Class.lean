import RestGraph.Pattern.Escape

/-!
# Classes in patterns

Sets of characters in brackets: members, ranges, brackets inside of brackets, and the operations
between them, which all bind alike and to the left. Where only ASCII counts no member and no
complement may go beyond it.
-/

namespace RestGraph.Pattern

/-- A set as it is written, with the depth of its brackets and operations. -/
structure Class where
  set : CharSet
  depth : Nat
deriving DecidableEq, Repr

inductive SetOp where
  | meet
  | difference
  | symmetricDifference
deriving DecidableEq, Repr

def SetOp.apply : SetOp → CharSet → CharSet → CharSet
  | meet => .meet
  | difference => .difference
  | symmetricDifference => .symmetricDifference

namespace Class

def leaf (s : CharSet) : Class := ⟨s, 0⟩

/-- Members side by side. Two or more of them are one level deeper. -/
def union (ms : List Class) : Class :=
  match ms with
  | [] => leaf .empty
  | [m] => m
  | ms => ⟨.unions (ms.map Class.set), (ms.map Class.depth).foldl max 0 + 1⟩

def operate (f : Flags) (op : SetOp) (a b : Class) : Class :=
  ⟨op.apply (f.inCases a.set) (f.inCases b.set), max a.depth b.depth + 1⟩

end Class

structure Brackets where
  isComplement : Bool
  /-- What is left of the last operation. -/
  left : Option (Class × SetOp)
  /-- The members since then, the latest first. -/
  members : List Class

namespace Brackets

def add (m : Class) (b : Brackets) : Brackets := { b with members := m :: b.members }

/-- The set up to here. -/
def current (f : Flags) (b : Brackets) : Class :=
  let right := Class.union b.members.reverse
  match b.left with
  | none => right
  | some (left, op) => Class.operate f op left right

/-- Go on to the right side of an operation. -/
def operator (f : Flags) (op : SetOp) (b : Brackets) : Brackets :=
  { b with left := some (b.current f, op), members := [] }

def close? (f : Flags) (b : Brackets) : Option Class :=
  let ⟨set, depth⟩ := b.current f
  let set := f.inCases set
  (if b.isComplement then complement? f set else some set).map fun s => ⟨s, depth + 1⟩

/-- The dashes that come first; they are members. -/
def leadingDashes (f : Flags) : Nat → Brackets → List Char → Brackets × List Char
  | 0, b, cs => (b, cs)
  | n + 1, b, cs =>
    match f.skip cs with
    | '-' :: rest => leadingDashes f n (b.add (.leaf (.one '-'))) rest
    | rest => (b, rest)

/-- What follows an opening bracket: perhaps a complement, dashes, or a closing bracket, which is a
member when it comes first. -/
def start (f : Flags) (cs : List Char) : Brackets × List Char :=
  let (isComplement, cs) := match f.skip cs with
    | '^' :: rest => (true, rest)
    | rest => (false, rest)
  match leadingDashes f cs.length ⟨isComplement, none, []⟩ cs with
  | (⟨isComplement, left, []⟩, ']' :: rest) => (⟨isComplement, left, [.leaf (.one ']')]⟩, rest)
  | (b, rest) => (b, rest)

end Brackets

/-! ## Reading -/

/-- A named set after an opening bracket: its name between colons, and whether its complement is
meant. -/
def namedClass? (cs : List Char) : Option (Bool × CharSet × List Char) :=
  match cs with
  | ':' :: cs =>
    let (isComplement, cs) := match cs with
      | '^' :: rest => (true, rest)
      | rest => (false, rest)
    match cs.span (· != ':') with
    | (name, ':' :: ']' :: rest) =>
      (CharSet.asciiNamed? (String.ofList name)).map fun s => (isComplement, s, rest)
    | _ => none
  | _ => none

def member? (f : Flags) (cs : List Char) : Option (Escape × List Char) :=
  match cs with
  | [] => none
  | '\\' :: rest => escape? f rest
  | c :: rest => some (.char c, rest)

def isAllowed (f : Flags) (c : Char) : Bool := f.anyScript || c.toNat < 0x80

/-- A member, or a range between two characters. A dash before a closing bracket or another dash
makes no range. -/
def range? (f : Flags) (cs : List Char) : Option (CharSet × List Char) := do
  let (first, rest) ← member? f cs
  let alone : Option (CharSet × List Char) := match first with
    | .char c => if isAllowed f c then some (.one c, rest) else none
    | .set s => some (s, rest)
    | .anchor _ => none
  match f.skip rest with
  | '-' :: after =>
    if [some ']', some '-'].contains (f.next? after) then alone
    else
      match first, ← member? f (f.skip after) with
      | .char c, (.char d, rest) =>
        if c ≤ d && isAllowed f d then some (.range c d, rest) else none
      | _, _ => none
  | _ => alone

/-- Read on in some brackets, inside of others. The first argument bounds the number of steps. -/
def readClass? (f : Flags) : Nat → Brackets → List Brackets → List Char → Option (Class × List Char)
  | 0, _, _, _ => none
  | fuel + 1, b, outer, cs =>
    match f.skip cs with
    | [] => none
    | '[' :: cs =>
      match namedClass? cs with
      | some (isComplement, s, rest) =>
        let s := f.inCases s
        (if isComplement then complement? f s else some s).bind fun s =>
          readClass? f fuel (b.add (.leaf s)) outer rest
      | none =>
        let (inner, rest) := Brackets.start f cs
        readClass? f fuel inner (b :: outer) rest
    | ']' :: rest =>
      (b.close? f).bind fun m =>
        match outer with
        | [] => some (m, rest)
        | b :: outer => readClass? f fuel (b.add m) outer rest
    | '&' :: '&' :: rest => readClass? f fuel (b.operator f .meet) outer rest
    | '-' :: '-' :: rest => readClass? f fuel (b.operator f .difference) outer rest
    | '~' :: '~' :: rest => readClass? f fuel (b.operator f .symmetricDifference) outer rest
    | cs => (range? f cs).bind fun (s, rest) => readClass? f fuel (b.add (.leaf s)) outer rest

def class? (f : Flags) (cs : List Char) : Option (Class × List Char) :=
  let (b, rest) := Brackets.start f cs
  readClass? f (rest.length + 1) b [] rest

end RestGraph.Pattern
