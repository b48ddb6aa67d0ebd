import ConfiguredPredicates.QuotedText
import ConfiguredPredicates.Predicate.Basic

/-!
Violations of the shape of a predicate: what is wrong, and where it is wrong as
seen from the value that was read. `reason` is the wording of a cause and
`message` adds the place.

A place inside a JSON tree is told by the keys and indices that lead there from its
root. In its text an index stands in brackets; a key stands by itself, behind a
point unless it comes first, except that a key which is empty or holds a point,
a bracket or a quotation mark is quoted in brackets.

Property expressions under construction are refused in the same terms: no operator
key can be inserted. A refused insertion leaves the expression as it was; an
accepted one replaces the condition that the key had.
-/

namespace ConfiguredPredicates

inductive Segment where
  | key (name : String)
  | index (position : Nat)
deriving DecidableEq, Repr

structure NodePath where
  segments : List Segment
deriving DecidableEq, Repr

namespace NodePath

def root : NodePath := ⟨[]⟩

def isRoot (path : NodePath) : Bool := path.segments.isEmpty

def atKey (path : NodePath) (name : String) : NodePath := ⟨path.segments ++ [.key name]⟩

def atIndex (path : NodePath) (position : Nat) : NodePath := ⟨path.segments ++ [.index position]⟩

def under (first : Segment) (path : NodePath) : NodePath := ⟨first :: path.segments⟩

/-- Whether a key could be misread inside the text of a path. -/
def needsQuotes (name : List Char) : Bool :=
  name.isEmpty || name.any fun c => c = '.' || c = '[' || c = ']' || c = '"'

/-- One step; `first` says whether no other stands before it. -/
def segmentChars (first : Bool) : Segment → List Char
  | .index position => '[' :: Decimal.natChars position ++ [']']
  | .key name =>
    let chars := name.toList
    if needsQuotes chars then '[' :: Text.quoted chars ++ [']']
    else if first then chars
    else '.' :: chars

def rootName : String := "<root>"

def renderChars : List Segment → List Char
  | [] => rootName.toList
  | first :: rest => segmentChars true first ++ rest.flatMap (segmentChars false)

def render (path : NodePath) : String := String.ofList (renderChars path.segments)

def locate (path : NodePath) (complaint : String) : String :=
  complaint ++ " at " ++ path.render

end NodePath

/-- What a position allows. -/
inductive Expectation where
  | predicate
  | condition
  | predicates
  | primitives
  | primitive
  | boolean
deriving DecidableEq, Repr

def Expectation.text : Expectation → String
  | .predicate => "a string, number, boolean or object"
  | .condition => "a string, number, boolean or operator"
  | .predicates => "an array of predicates"
  | .primitives => "an array of primitives"
  | .primitive => "a string, number or boolean"
  | .boolean => "a boolean"

inductive Cause where
  | tooDeep (limit : Nat)
  | unexpected (wanted : Expectation) (found : Json.Kind)
  | sharedOperator (keys : List String)
  | plainObject
  | unknownOperator (key : String)
  | conditionOperator (op : Operator)
  | combinator (op : Operator)
  | reservedKey
deriving DecidableEq, Repr

def Cause.reason : Cause → String
  | .tooDeep limit =>
    "predicate nesting exceeds the maximum depth of " ++ String.ofList (Decimal.natChars limit)
  | .unexpected wanted found => "expected " ++ wanted.text ++ ", got " ++ found.name
  | .sharedOperator keys =>
    "an operator must be the only key in its object, found [" ++ ", ".intercalate keys ++ "]"
  | .plainObject => "nested objects must use one of $exists, $in or $contains"
  | .unknownOperator key => "unknown operator '" ++ key ++ "'"
  | .conditionOperator op => "'" ++ op.key ++ "' is only allowed as a property value"
  | .combinator op =>
    "'" ++ op.key ++ "' is not allowed as a property value, wrap it in $contains"
  | .reservedKey => "property keys must not start with '$'"

structure Violation where
  path : NodePath
  cause : Cause
deriving DecidableEq, Repr

namespace Violation

def here (cause : Cause) : Violation := ⟨.root, cause⟩

def under (first : Segment) (v : Violation) : Violation := ⟨v.path.under first, v.cause⟩

def reason (v : Violation) : String := v.cause.reason

def message (v : Violation) : String := v.path.locate v.reason

end Violation

structure Expression where
  properties : List (String × Condition)

namespace Expression

def empty : Expression := ⟨[]⟩

def get? (e : Expression) (key : String) : Option Condition := e.properties.lookup key

/-- The condition that was replaced, if any, and the new expression. -/
def insert (e : Expression) (key : String) (condition : Condition) :
    Except Violation (Option Condition × Expression) :=
  if isOperatorKey key then .error ⟨NodePath.root.atKey key, .reservedKey⟩
  else .ok (e.get? key, ⟨Entries.insert key condition e.properties⟩)

def size (e : Expression) : Nat := e.properties.length

def isEmpty (e : Expression) : Bool := e.properties.isEmpty

def keys (e : Expression) : List String := Entries.keys e.properties

def toPredicate (e : Expression) : Predicate := .expression e.properties

def toJson (e : Expression) : Json := e.toPredicate.toJson

def render (e : Expression) : String := e.toPredicate.render

def equal (a b : Expression) : Bool := a.toPredicate == b.toPredicate

instance : BEq Expression := ⟨equal⟩

end Expression

end ConfiguredPredicates
