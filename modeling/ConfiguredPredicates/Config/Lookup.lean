import ConfiguredPredicates.Config.View
import ConfiguredPredicates.Predicate.OfJson

/-!
Predicates looked up in a configuration, at a key or at its root. `predicate?`
allows that nothing is there and `predicate` does not; what is there has to be a
predicate within the depth limit.
-/

namespace ConfiguredPredicates

structure Lookup where
  key : Option String := none
  limit : Nat := standardDepth
deriving DecidableEq, Repr

def Lookup.location (what : Lookup) : String :=
  what.key.getD NodePath.rootName

inductive ReadError where
  | missing (location : String)
  | invalid (location : String) (violation : Violation)
  | config (error : ConfigError)
deriving DecidableEq, Repr

def ReadError.message : ReadError → String
  | .missing location => "Missing required predicate in config at '" ++ location ++ "'"
  | .invalid location violation =>
    "Invalid predicate in config at '" ++ location ++ "': " ++ violation.reason ++
      " (at " ++ violation.path.render ++ ")"
  | .config error => error.message

namespace ConfigView

def rawValue (config : ConfigView) (what : Lookup) :
    Except ConfigError (Option Json) :=
  match what.key with
  | some key => config.lookup key
  | none => config.root

def predicate? (config : ConfigView) (what : Lookup) :
    Except ReadError (Option Predicate) := do
  match ← (config.rawValue what).mapError .config with
  | none => .ok none
  | some raw =>
    let p ← (Predicate.ofJsonWithin what.limit raw).mapError (.invalid what.location)
    .ok (some p)

def predicate (config : ConfigView) (what : Lookup) :
    Except ReadError Predicate := do
  match ← config.predicate? what with
  | some p => .ok p
  | none => .error (.missing what.location)

end ConfigView

/-- What a lookup reports about itself. Failures are returned and not reported. -/
inductive ReadEvent where
  | absent (location : String)
  | found (location : String) (kind : String)
deriving DecidableEq, Repr

namespace ReadEvent

def level : ReadEvent → String
  | .absent _ => "TRACE"
  | .found .. => "DEBUG"

def message : ReadEvent → String
  | .absent _ => "no predicate configured"
  | .found .. => "read predicate from config"

def fields : ReadEvent → List (String × String)
  | .absent location => [("key", location)]
  | .found location kind => [("key", location), ("kind", kind)]

end ReadEvent

def Lookup.events (what : Lookup) :
    Except ReadError (Option Predicate) → List ReadEvent
  | .ok none => [.absent what.location]
  | .ok (some p) => [.found what.location p.kind]
  | .error _ => []

end ConfiguredPredicates
