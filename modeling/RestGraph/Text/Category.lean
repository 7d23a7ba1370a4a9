import RestGraph.Text.CategoryData
import RestGraph.Text.Ranges

/-!
# Categories of characters

The major Unicode categories, and the classes that are made of them.
-/

namespace RestGraph.Text

inductive Category where
  | letter
  | mark
  | number
  | punctuation
  | symbol
  | separator
  /-- Controls, format characters and what is not assigned. -/
  | other
deriving DecidableEq, Repr

/-- The code points of a category that has a table. -/
def Category.ranges : Category → List (Nat × Nat)
  | letter => letterRanges
  | mark => markRanges
  | number => numberRanges
  | punctuation => punctuationRanges
  | symbol => symbolRanges
  | separator => separatorRanges
  | other => []

def Category.tabulated : List Category :=
  [letter, mark, number, punctuation, symbol, separator]

def Category.has (k : Category) (c : Char) : Bool :=
  match k with
  | other => !tabulated.any fun k => inRanges k.ranges c.toNat
  | k => inRanges k.ranges c.toNat

/-- The Unicode property `Alphabetic`. -/
def isAlphabetic (c : Char) : Bool :=
  if c.toNat < 0x80 then c.isAlpha
  else Category.letter.has c || inRanges otherAlphabeticRanges c.toNat

def isAlphanumeric (c : Char) : Bool :=
  if c.toNat < 0x80 then c.isAlphanum else isAlphabetic c || Category.number.has c

/-- A decimal digit of any script. -/
def isDecimal (c : Char) : Bool := zeroDigits.any fun n => n ≤ c.toNat && c.toNat < n + 10

/-- Punctuation that joins words: the underscore and its kin. -/
def isConnector (c : Char) : Bool :=
  ['_', '\u203F', '\u2040', '\u2054', '\uFE33', '\uFE34', '\uFE4D', '\uFE4E', '\uFE4F',
    '\uFF3F'].contains c

/-- The characters of words: alphabetic ones, marks, decimal digits, connectors and joiners. -/
def isWordChar (c : Char) : Bool :=
  isAlphabetic c || Category.mark.has c || isDecimal c || isConnector c ||
    c == '\u200C' || c == '\u200D'

end RestGraph.Text
