/-!
The two grammars of places in a configuration. A dotted key has segments of words
joined by single hyphens or underscores; a word starts with a letter and goes on with
letters and digits. Letters are those of ASCII and the two characters that fold to one
of them, the long s and the Kelvin sign.

A path expression is an identifier, then any number of further identifiers behind
points and of indices in brackets, with spaces and tabs allowed around an index.
Identifiers are made of ASCII letters, digits, hyphens and underscores. A negative
index counts from the end of a list.
-/

namespace ConfiguredPredicates

namespace ConfigKey

def isLetter (c : Char) : Bool := c.isAlpha || c = '\u017f' || c = '\u212a'

def isJoint (c : Char) : Bool := c = '-' || c = '_'

def isSegmentTail : List Char → Bool
  | [] => true
  | c :: cs =>
    if isLetter c || c.isDigit then isSegmentTail cs
    else match isJoint c, cs with
      | true, d :: ds => isLetter d && isSegmentTail ds
      | _, _ => false

def isSegment : List Char → Bool
  | [] => false
  | c :: cs => isLetter c && isSegmentTail cs

/-- The part before the first point, and the parts behind each point. -/
def split : List Char → List Char × List (List Char)
  | [] => ([], [])
  | c :: cs =>
    let (first, others) := split cs
    if c = '.' then ([], first :: others) else (c :: first, others)

def parts (key : List Char) : List (List Char) := (split key).1 :: (split key).2

def segments? (key : String) : Option (List String) :=
  let parts := parts key.toList
  if parts.all isSegment then some (parts.map String.ofList) else none

def join (segments : List String) : String := ".".intercalate segments

end ConfigKey

inductive PathStep where
  | key (name : String)
  | index (position : Int)
deriving DecidableEq, Repr

namespace PathExpression

def isIdentifierChar (c : Char) : Bool := c.isAlphanum || c = '-' || c = '_'

def isSpace (c : Char) : Bool := c = ' ' || c = '\t'

def identifier? (cs : List Char) : Option (PathStep × List Char) :=
  match cs.span isIdentifierChar with
  | ([], _) => none
  | (name, rest) => some (.key (String.ofList name), rest)

def integer? (cs : List Char) : Option (Int × List Char) :=
  let (negative, cs) := match cs with
    | '-' :: cs => (true, cs)
    | _ => (false, cs)
  match cs.span Char.isDigit with
  | ([], _) => none
  | (ds, rest) =>
    let size : Nat := ds.foldl (fun n d => n * 10 + (d.toNat - 48)) 0
    let value : Int := if negative then -(size : Int) else size
    -- Indices are those of a signed 64-bit number.
    if -0x8000000000000000 ≤ value ∧ value < 0x8000000000000000 then some (value, rest) else none

def index? (cs : List Char) : Option (PathStep × List Char) := do
  let (position, rest) ← integer? (cs.dropWhile isSpace)
  match rest.dropWhile isSpace with
  | ']' :: rest => some (.index position, rest)
  | _ => none

/-- The steps behind the first one; each takes at least one character. -/
def steps? : (fuel : Nat) → List Char → Option (List PathStep)
  | _, [] => some []
  | 0, _ => none
  | fuel + 1, c :: cs => do
    let (step, rest) ← if c = '.' then identifier? cs else if c = '[' then index? cs else none
    some (step :: (← steps? fuel rest))

def ofChars? (cs : List Char) : Option (List PathStep) := do
  let (first, rest) ← identifier? cs
  some (first :: (← steps? rest.length rest))

end PathExpression

def pathExpression? (text : String) : Option (List PathStep) :=
  PathExpression.ofChars? text.toList

end ConfiguredPredicates
