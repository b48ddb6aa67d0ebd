import ConfiguredPredicates.Config.Key
import ConfiguredPredicates.Config.View
import ConfiguredPredicates.Json.Text.Value

/-!
Layered configurations. Layers are merged in turn into a tree of settings, and
single settings are put over them. A top-level key of a layer that is a path
expression leads to its place step by step; any other key, and every key further
down, is taken literally. Tables are merged key by key, everything else replaces
what was there. Settings may hold numbers that JSON has no place for: a whole
number out of range is an error once it is read, infinities and NaN read as null.
-/

namespace ConfiguredPredicates

inductive Setting where
  | null
  | bool (b : Bool)
  | whole (n : Int)
  | float (x : Float)
  | string (s : String)
  | array (items : List Setting)
  | table (members : List (String × Setting))

instance : Inhabited Setting := ⟨.null⟩

namespace Setting

mutual
def ofJson : Json → Setting
  | .null => .null
  | .bool b => .bool b
  | .number (.whole n) => .whole n.value
  | .number (.float x) => .float x.value
  | .string s => .string s
  | .array items => .array (ofItems items)
  | .object members => .table (ofMembers members)

def ofItems : List Json → List Setting
  | [] => []
  | item :: rest => ofJson item :: ofItems rest

def ofMembers : List (String × Json) → List (String × Setting)
  | [] => []
  | (key, value) :: rest => (key, ofJson value) :: ofMembers rest
end

/-- Whole numbers out of range are reported with the steps that lead to them. -/
def wholeNumber (n : Int) : Except (List Segment) Json :=
  match Number.ofInt? n with
  | some n => .ok (.number n)
  | none => .error []

def floatNumber (x : Float) : Json :=
  match Number.ofFloat? x with
  | some n => .number n
  -- No JSON number is infinite or NaN.
  | none => .null

mutual
def toJson : Setting → Except (List Segment) Json
  | .null => .ok .null
  | .bool b => .ok (.bool b)
  | .whole n => wholeNumber n
  | .float x => .ok (floatNumber x)
  | .string s => .ok (.string s)
  | .array items => Json.array <$> itemsToJson 0 items
  | .table members => Json.object <$> membersToJson members

def itemsToJson (position : Nat) : List Setting → Except (List Segment) (List Json)
  | [] => .ok []
  | item :: rest => do
    let first ← (toJson item).mapError (.index position :: ·)
    let others ← itemsToJson (position + 1) rest
    .ok (first :: others)

def membersToJson : List (String × Setting) → Except (List Segment) (List (String × Json))
  | [] => .ok []
  | (key, value) :: rest => do
    let first ← (toJson value).mapError (.key key :: ·)
    let others ← membersToJson rest
    .ok ((key, first) :: others)
end

def members : Setting → List (String × Setting)
  | .table members => members
  | _ => []

def items : Setting → List Setting
  | .array items => items
  | _ => []

mutual
def mergeOver : (incoming existing : Setting) → Setting
  | .table incoming, existing => .table (mergeMembers incoming existing.members)
  | other, _ => other

def mergeMembers : (incoming existing : List (String × Setting)) → List (String × Setting)
  | [], existing => existing
  | (key, value) :: rest, existing =>
    mergeMembers rest
      (Entries.insert key (mergeOver value ((existing.lookup key).getD .null)) existing)
end

/-- A list made long enough for an index, and the position that the index means. -/
def reach (position : Int) (items : List Setting) : List Setting × Nat :=
  let missing := (-position - items.length).toNat
  let items := List.replicate missing .null ++ items
  let index := (if position < 0 then position + items.length else position).toNat
  (items ++ List.replicate (index + 1 - items.length) .null, index)

/-- Changes the setting at the end of a path and makes what is missing on the way. -/
def change (f : Setting → Setting) : List PathStep → Setting → Setting
  | [], setting => f setting
  | .key name :: rest, setting =>
    let child := (setting.members.lookup name).getD .null
    .table (Entries.insert name (change f rest child) setting.members)
  | .index position :: rest, setting =>
    let (items, index) := reach position setting.items
    .array (items.modify index (change f rest))

def put (tree : Setting) (path : List PathStep) (value : Setting) : Setting :=
  change (mergeOver value) path tree

def find? : List PathStep → Setting → Option Setting
  | [], setting => some setting
  | .key name :: rest, .table members => do find? rest (← members.lookup name)
  | .index position :: rest, .array items =>
    let index := if position < 0 then position + items.length else position
    if index < 0 then none else do find? rest (← items[index.toNat]?)
  | _, _ => none

def topLevelPath (key : String) : List PathStep :=
  (pathExpression? key).getD [.key key]

def addLayer (tree : Setting) (layer : List (String × Json)) : Setting :=
  layer.foldl (fun tree member => tree.put (topLevelPath member.1) (ofJson member.2)) tree

/-- The steps to a place, keys as they stand. A point stands between two keys only, so a
key after an index follows its bracket directly. -/
def place : List Segment → String
  | [] => ""
  | .key name :: .key next :: rest => name ++ "." ++ place (.key next :: rest)
  | .key name :: rest => name ++ place rest
  | .index position :: rest =>
    "[" ++ String.ofList (Decimal.natChars position) ++ "]" ++ place rest

end Setting

structure LayeredConfig where
  root : Setting

namespace LayeredConfig

def empty : LayeredConfig := ⟨.table []⟩

def addText? (config : LayeredConfig) (text : String) : Option LayeredConfig :=
  match Json.ofText text with
  | .ok (.object layer) => some ⟨config.root.addLayer layer⟩
  | _ => none

def override? (config : LayeredConfig) (path : String) (value : Setting) :
    Option LayeredConfig := do
  some ⟨config.root.put (← pathExpression? path) value⟩

def rootValue (config : LayeredConfig) : Except ConfigError (Option Json) := do
  let v ← config.root.toJson.mapError fun steps => .numberOutOfRange (Setting.place steps)
  .ok v.present?

def lookupKey (config : LayeredConfig) (key : String) : Except ConfigError (Option Json) := do
  let _ ← ConfigKey.segments key
  match pathExpression? key with
  | none => .error (.foreignLetter key)
  | some path =>
    match config.root.find? path with
    | none => .ok none
    | some setting => do
      let v ← setting.toJson.mapError fun _ => .numberOutOfRange key
      .ok v.present?

def view (config : LayeredConfig) : ConfigView := ⟨config.rootValue, config.lookupKey⟩

end LayeredConfig

end ConfiguredPredicates
