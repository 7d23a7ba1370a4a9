import RestGraph.Pattern.CharSet

/-!
# Patterns

Regular expressions with anchors, and whether a text has a part that they match.
-/

namespace RestGraph

/-- A place at a word, by what is before it and after it. -/
inductive WordEdge where
  | either
  | neither
  | start
  | finish
  /-- No character of a word is before it. -/
  | unpreceded
  /-- No character of a word is after it. -/
  | unfollowed
deriving DecidableEq, Repr

/-- What holds between two characters. -/
inductive Anchor where
  | start
  | finish
  /-- The start of a line; a return ends a line too if there are `returns`. -/
  | lineStart (returns : Bool)
  | lineFinish (returns : Bool)
  /-- A place at a word, in any script or in ASCII. -/
  | word (anyScript : Bool) (edge : WordEdge)
deriving DecidableEq, Repr

inductive Pattern where
  | empty
  | char (set : CharSet)
  | anchor (a : Anchor)
  | seq (p q : Pattern)
  | either (p q : Pattern)
  | repeated (p : Pattern) (least : Nat) (most : Option Nat)
deriving DecidableEq, Repr

/-- A place in a text: the character before it and the rest. -/
structure Place where
  before : Option Char
  rest : List Char
deriving DecidableEq, Repr

def WordEdge.holds (before after : Bool) : WordEdge → Bool
  | either => before != after
  | neither => before == after
  | start => !before && after
  | finish => before && !after
  | unpreceded => !before
  | unfollowed => !after

namespace Anchor

/-- Whether a line starts between two characters. -/
def startsLine (returns : Bool) (before after : Option Char) : Bool :=
  before.all (· == '\n') || (returns && before == some '\r' && after != some '\n')

def endsLine (returns : Bool) (before after : Option Char) : Bool :=
  if returns then
    after.all (· == '\r') || (after == some '\n' && before != some '\r')
  else after.all (· == '\n')

def holds (p : Place) : Anchor → Bool
  | start => p.before.isNone
  | finish => p.rest.isEmpty
  | lineStart returns => startsLine returns p.before p.rest.head?
  | lineFinish returns => endsLine returns p.before p.rest.head?
  | word anyScript edge =>
    let isWord := (if anyScript then CharSet.word else CharSet.asciiWord).has
    edge.holds (p.before.any (isWord ·)) (p.rest.head?.any (isWord ·))

end Anchor

namespace Pattern

/-- The places that are reached in at most `n` steps. -/
def reach (step : Place → List Place) : Nat → List Place → List Place
  | 0, ps => ps
  | n + 1, ps => (ps ++ reach step n (ps.flatMap step).eraseDups).eraseDups

/-- The places that are reached in exactly `n` steps. -/
def stepTimes (step : Place → List Place) : Nat → List Place → List Place
  | 0, ps => ps
  | n + 1, ps => stepTimes step n (ps.flatMap step).eraseDups

/-- The places where a match that begins here can end. No repetition goes on for longer than the
text. -/
def ends : Pattern → Place → List Place
  | empty, at_ => [at_]
  | char set, at_ =>
    match at_.rest with
    | c :: rest => if set.has c then [⟨some c, rest⟩] else []
    | [] => []
  | anchor a, at_ => if a.holds at_ then [at_] else []
  | seq p q, at_ => (p.ends at_).flatMap q.ends
  | either p q, at_ => (p.ends at_ ++ q.ends at_).eraseDups
  | repeated p least most, at_ =>
    let room := at_.rest.length + 1
    let more := match most with
      | some m => min (m - least) room
      | none => room
    reach p.ends more (stepTimes p.ends least [at_])

/-- Whether a match begins at a place or after it. -/
def occursFrom (p : Pattern) : Option Char → List Char → Bool
  | before, [] => !(p.ends ⟨before, []⟩).isEmpty
  | before, c :: rest => !(p.ends ⟨before, c :: rest⟩).isEmpty || occursFrom p (some c) rest

/-- Whether some part of a text matches. -/
def occursIn (p : Pattern) (text : String) : Bool := p.occursFrom none text.toList

/-- Whether a pattern takes no characters. -/
def isEmpty : Pattern → Bool
  | empty => true
  | char _ => false
  | anchor _ => true
  | seq p q => p.isEmpty && q.isEmpty
  | either p q => p.isEmpty && q.isEmpty
  | repeated p _ most => p.isEmpty || most == some 0

/-- Whether a match can depend on the words of any script. -/
def seesWords : Pattern → Bool
  | empty => false
  | char _ => false
  | anchor (.word anyScript _) => anyScript
  | anchor _ => false
  | seq p q => p.seesWords || q.seesWords
  | either p q => p.seesWords || q.seesWords
  | repeated p _ most => p.seesWords && most != some 0

end Pattern

end RestGraph
