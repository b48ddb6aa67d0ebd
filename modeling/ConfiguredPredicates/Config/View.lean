import ConfiguredPredicates.Config.Key
import ConfiguredPredicates.Predicate.Violation

/-!
Views of a configuration: its own value and the values at dotted keys beneath
it, where null counts as no value. A JSON tree has such a view: a key walks down
its objects, ends without a value at a missing member or a null, and fails at any
other node that is not an object.
-/

namespace ConfiguredPredicates

inductive ConfigError where
  | malformedKey (key : String)
  | wrongType (parent : List String) (found : Json.Kind)
  /-- A well-formed key with a letter that a layered configuration cannot read. -/
  | foreignLetter (key : String)
  | numberOutOfRange (place : String)
deriving DecidableEq, Repr

namespace ConfigError

def isAscii (c : Char) : Bool := c.toNat < 128

/-- Points at the first letter beyond ASCII: at its start when a segment should
begin there, behind it when the segment goes on. -/
def caretReport (key : String) : String :=
  let before := key.toList.takeWhile isAscii
  let foreign := (key.toList.drop before.length).take 1
  let opens := before.getLast?.all (· = '.')
  let column := before.length + if opens then 0 else (String.ofList foreign).utf8ByteSize
  let explanation :=
    if opens then "invalid identifier\nexpected ASCII alphanumeric, `_`, `-`"
    else "invalid postfix\nexpected `[`, `.`"
  key ++ "\n" ++ String.ofList (List.replicate column ' ') ++ "^\n" ++ explanation

def placeName (segments : List String) : String :=
  if segments.isEmpty then NodePath.rootName else ConfigKey.join segments

def detail : ConfigError → String
  | .malformedKey key => "Invalid config key '" ++ key ++ "'"
  | .wrongType parent found =>
    "Invalid type in config for key '" ++ placeName parent ++ "', got " ++ found.name ++
      ", wanted object"
  | .foreignLetter key => caretReport key
  | .numberOutOfRange place => "JSON number out of range for key `" ++ place ++ "`"

def message (e : ConfigError) : String := "Config error: " ++ e.detail

end ConfigError

structure ConfigView where
  root : Except ConfigError (Option Json)
  lookup : String → Except ConfigError (Option Json)

namespace ConfigKey

def segments (key : String) : Except ConfigError (List String) :=
  match segments? key with
  | some segments => .ok segments
  | none => .error (.malformedKey key)

end ConfigKey

namespace Json

def walk (passed : List String) : List String → Json → Except ConfigError (Option Json)
  | [], node => .ok node.present?
  | segment :: rest, .object members =>
    match members.lookup segment with
    | some child => walk (passed ++ [segment]) rest child
    | none => .ok none
  | _ :: _, .null => .ok none
  | _ :: _, other => .error (.wrongType passed other.kind)

def lookupKey (tree : Json) (key : String) : Except ConfigError (Option Json) := do
  walk [] (← ConfigKey.segments key) tree

def view (tree : Json) : ConfigView := ⟨.ok tree.present?, tree.lookupKey⟩

end Json

end ConfiguredPredicates
