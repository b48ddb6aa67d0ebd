import ConfiguredPredicates.Json.Printer
import ConfiguredPredicates.QuotedText

/-!
Catalog entities and their labels. Both records are read from an object, whose
unknown members are ignored, or from an array of their fields in order, where
the fields at the end that may be absent need not stand. An absent field and an
explicit null are the same for those fields. Written out, absent fields are left
away and labels stand in key order.
-/

namespace ConfiguredPredicates

structure Entity.Metadata where
  name : String
  space : Option String := none
  labels : Option (List (String × String)) := none
deriving DecidableEq, Repr

structure Entity where
  apiVersion : String
  kind : String
  metadata : Option Entity.Metadata := none
deriving DecidableEq, Repr

namespace Entity

def isLabelled (e : Entity) : Bool :=
  match e.metadata with
  | some ⟨_, _, some (_ :: _)⟩ => true
  | _ => false

def optionalMember (key : String) (value : Option Json) : List (String × Json) :=
  match value with
  | some v => [(key, v)]
  | none => []

def labelsToJson (labels : List (String × String)) : Json :=
  .object (labels.map fun label => (label.1, .string label.2))

def Metadata.toJson (m : Metadata) : Json :=
  .object (("name", .string m.name) ::
    optionalMember "namespace" (m.space.map .string) ++
    optionalMember "labels" (m.labels.map labelsToJson))

def toJson (e : Entity) : Json :=
  .object ([("apiVersion", .string e.apiVersion), ("kind", .string e.kind)] ++
    optionalMember "metadata" (e.metadata.map Metadata.toJson))

def render (e : Entity) : String := e.toJson.compact

inductive Wanted where
  | string
  | map
  | entity
  | metadata
deriving DecidableEq, Repr

def Wanted.name : Wanted → String
  | .string => "a string"
  | .map => "a map"
  | .entity => "struct Entity"
  | .metadata => "struct EntityMetadata"

/-- What stands where something else is wanted. Containers are not looked into. -/
inductive Found where
  | null
  | bool (b : Bool)
  | number (n : Number)
  | string (s : String)
  | sequence
  | map

def Found.ofJson : Json → Found
  | .null => .null
  | .bool b => .bool b
  | .number n => .number n
  | .string s => .string s
  | .array _ => .sequence
  | .object _ => .map

def Found.text : Found → String
  | .null => "null"
  | .bool b => "boolean `" ++ (if b then "true" else "false") ++ "`"
  | .number (.whole n) => "integer `" ++ String.ofList (Number.whole n).chars ++ "`"
  | .number (.float x) => "floating point `" ++ String.ofList (Number.float x).chars ++ "`"
  | .string s => "string " ++ String.ofList (Text.quoted s.toList)
  | .sequence => "sequence"
  | .map => "map"

inductive Mismatch where
  | wrongType (found : Found) (wanted : Wanted)
  | missingField (name : String)
  | duplicateField (name : String)
  /-- An array that ends before the fields that must be present. -/
  | tooFew (present : Nat) (record : Wanted)
  /-- An array that goes on behind the last field. -/
  | tooMany (present : Nat)

def countText (n : Nat) : String := String.ofList (Decimal.natChars n)

def Mismatch.message : Mismatch → String
  | .wrongType found wanted => "invalid type: " ++ found.text ++ ", expected " ++ wanted.name
  | .missingField name => "missing field `" ++ name ++ "`"
  | .duplicateField name => "duplicate field `" ++ name ++ "`"
  | .tooFew present record =>
    "invalid length " ++ countText present ++ ", expected " ++ record.name ++ " with 3 elements"
  | .tooMany present =>
    "invalid length " ++ countText present ++ ", expected fewer elements in array"

def required (name : String) : Option α → Except Mismatch α
  | some value => .ok value
  | none => .error (.missingField name)

structure Metadata.Draft where
  name : Option String := none
  space : Option (Option String) := none
  labels : Option (Option (List (String × String))) := none

def Metadata.Draft.complete (d : Metadata.Draft) : Except Mismatch Metadata := do
  let name ← required "name" d.name
  .ok ⟨name, d.space.join, d.labels.join⟩

structure Draft where
  apiVersion : Option String := none
  kind : Option String := none
  metadata : Option (Option Metadata) := none

/-- Missing fields are reported in the order of the record. -/
def Draft.complete (d : Draft) : Except Mismatch Entity := do
  let apiVersion ← required "apiVersion" d.apiVersion
  let kind ← required "kind" d.kind
  .ok ⟨apiVersion, kind, d.metadata.join⟩

namespace OfJson

def string : Json → Except Mismatch String
  | .string s => .ok s
  | other => .error (.wrongType (.ofJson other) .string)

def optional (read : Json → Except Mismatch α) : Json → Except Mismatch (Option α)
  | .null => .ok none
  | v => some <$> read v

def labelMembers : List (String × Json) → Except Mismatch (List (String × String))
  | [] => .ok []
  | (key, value) :: rest => do
    let first ← string value
    let others ← labelMembers rest
    .ok ((key, first) :: others)

def labels : Json → Except Mismatch (List (String × String))
  | .object members => labelMembers members
  | other => .error (.wrongType (.ofJson other) .map)

def field? (read : Json → Except Mismatch α) (members : List (String × Json)) (name : String) :
    Except Mismatch (Option α) :=
  match members.lookup name with
  | some v => some <$> read v
  | none => .ok none

def next? (read : Json → Except Mismatch α) : List Json →
    Except Mismatch (Option α × List Json)
  | [] => .ok (none, [])
  | v :: rest => do
    let first ← read v
    .ok (some first, rest)

def metadata : Json → Except Mismatch Metadata
  | .object members => do
    let labels ← field? (optional labels) members "labels"
    let name ← field? string members "name"
    let space ← field? (optional string) members "namespace"
    Metadata.Draft.complete ⟨name, space, labels⟩
  | .array items => do
    let (some name, rest) ← next? string items | .error (.tooFew 0 .metadata)
    let (space, rest) ← next? (optional string) rest
    let (labels, rest) ← next? (optional labels) rest
    if rest.isEmpty then .ok ⟨name, space.join, labels.join⟩
    else .error (.tooMany items.length)
  | other => .error (.wrongType (.ofJson other) .metadata)

end OfJson

def ofJson : Json → Except Mismatch Entity
  | .object members => do
    let apiVersion ← OfJson.field? OfJson.string members "apiVersion"
    let kind ← OfJson.field? OfJson.string members "kind"
    let metadata ← OfJson.field? (OfJson.optional OfJson.metadata) members "metadata"
    Draft.complete ⟨apiVersion, kind, metadata⟩
  | .array items => do
    let (some apiVersion, rest) ← OfJson.next? OfJson.string items
      | .error (.tooFew 0 .entity)
    let (some kind, rest) ← OfJson.next? OfJson.string rest | .error (.tooFew 1 .entity)
    let (metadata, rest) ← OfJson.next? (OfJson.optional OfJson.metadata) rest
    if rest.isEmpty then .ok ⟨apiVersion, kind, metadata.join⟩
    else .error (.tooMany items.length)
  | other => .error (.wrongType (.ofJson other) .entity)

end Entity

end ConfiguredPredicates
