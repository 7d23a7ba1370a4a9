import RestGraph.Json.Basic
import RestGraph.Text.Numeral
import RestGraph.Text.Split

/-!
# JSON pointers

A pointer is empty or a sequence of tokens, each after a slash. In a token `~1` stands for a slash
and `~0` for a tilde. An index into a list is a numeral without sign or leading zero.
-/

namespace RestGraph.Json

/-- Write a key so that it can stand as a pointer token. -/
def escapeToken (key : String) : String :=
  Text.replace "/" "~1" (Text.replace "~" "~0" key)

/-- The key that a pointer token names. -/
def unescapeToken (token : String) : String :=
  Text.replace "~0" "~" (Text.replace "~1" "/" token)

def readIndex? (token : String) : Option Nat :=
  match token.toList with
  | ['0'] => some 0
  | '0' :: _ => none
  | '+' :: _ => none
  | _ => Text.readWord? token

def child? (j : Json) (token : String) : Option Json :=
  match j with
  | .object members => members.lookup token
  | .list items => (readIndex? token).bind fun i => items[i]?
  | _ => none

/-- Follow keys and indices inwards. -/
def follow? : Json → List String → Option Json
  | j, [] => some j
  | j, token :: rest => (j.child? token).bind fun c => follow? c rest

/-- The tokens of a pointer, unescaped. -/
def pointerTokens? (pointer : String) : Option (List String) :=
  if pointer.isEmpty then some []
  else match pointer.toList with
    | '/' :: rest => some ((Text.split '/' (String.ofList rest)).map unescapeToken)
    | _ => none

def pointer? (j : Json) (pointer : String) : Option Json :=
  (pointerTokens? pointer).bind j.follow?

end RestGraph.Json
