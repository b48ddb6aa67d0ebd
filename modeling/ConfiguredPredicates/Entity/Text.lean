import ConfiguredPredicates.Entity.Basic
import ConfiguredPredicates.Json.Text.Value

/-!
Entities from JSON text. The text is read only as far as the records
need it: the first fault or mismatch in the order of the text is reported, a
value of the wrong type is read to its end unless it is an array or an object,
and members that no record knows are skipped.
-/

namespace ConfiguredPredicates.Entity

open Json.Text (Fault Reader)

inductive TextError where
  | fault (f : Fault)
  | mismatch (m : Mismatch)

namespace OfText

abbrev FieldReader (α : Type) := List Char → Except TextError (α × List Char)

def fault (f : Fault) : Except TextError α := .error (.fault f)

def mismatch (m : Mismatch) : Except TextError α := .error (.mismatch m)

def lift (result : Except Fault α) : Except TextError α := result.mapError .fault

def complete (result : Except Mismatch α) : Except TextError α := result.mapError .mismatch

/-- The complaint about a value that is not wanted; it is read first if it is a
scalar, and a fault in it comes before the complaint. -/
def unwanted (wanted : Wanted) : FieldReader α := fun cs =>
  match cs with
  | '[' :: _ => mismatch (.wrongType .sequence wanted)
  | '\x7b' :: _ => mismatch (.wrongType .map wanted)
  | _ => do
    let (v, _) ← lift (Json.Text.nested 0 cs)
    mismatch (.wrongType (.ofJson v) wanted)

def string : FieldReader String := fun cs =>
  match Json.Text.skipBlanks cs with
  | [] => fault .unfinished
  | '"' :: rest => lift (Json.Text.StringLiteral.read rest)
  | cs => unwanted .string cs

def optional (read : FieldReader α) : FieldReader (Option α) := fun cs =>
  match Json.Text.skipBlanks cs with
  -- Null stands for an absent value.
  | 'n' :: rest => lift (Json.Text.literal none ['u', 'l', 'l'] rest)
  | cs => do
    let (v, rest) ← read cs
    .ok (some v, rest)

/-- The members of an object up to its closing brace. Each is taken up by `step`,
which is given the state, the key and the text behind the key. -/
def membersFrom (step : σ → String → FieldReader σ) : (fuel : Nat) → (first : Bool) → σ →
    FieldReader σ
  | 0, _, _, _ => fault .unfinished
  | fuel + 1, first, state, cs =>
    match Json.Text.skipBlanks cs with
    | [] => fault .unfinished
    | '\x7d' :: rest => .ok (state, rest)
    | c :: rest => do
      let start ← if first then .ok (c :: rest) else if c = ',' then .ok rest
        else fault .malformed
      let rest ← lift (Json.Text.separator '"' start)
      let (key, rest) ← lift (Json.Text.StringLiteral.read rest)
      let (state, rest) ← step state key rest
      membersFrom step fuel false state rest

def members (step : σ → String → FieldReader σ) (state : σ) : FieldReader σ := fun cs =>
  membersFrom step (cs.length + 1) true state cs

def memberValue (read : FieldReader α) : FieldReader α := fun cs => do
  read (← lift (Json.Text.separator ':' cs))

def newField (name : String) (known : Option α) (read : FieldReader α) : FieldReader (Option α) :=
  fun cs =>
    if known.isSome then mismatch (.duplicateField name)
    else do
      let (v, rest) ← memberValue read cs
      .ok (some v, rest)

def skipped (state : σ) : FieldReader σ := memberValue fun cs => do
  let (_, rest) ← lift (Json.Text.skip cs)
  .ok (state, rest)

def next? (first : Bool) (read : FieldReader α) : FieldReader (Option α) := fun cs =>
  match Json.Text.skipBlanks cs with
  | [] => fault .unfinished
  | ']' :: rest => .ok (none, ']' :: rest)
  | c :: rest => do
    let start ← if first then .ok (c :: rest) else if c = ',' then .ok rest else fault .malformed
    match Json.Text.skipBlanks start with
    | [] => fault .unfinished
    | ']' :: _ => fault .malformed
    | start => do
      let (v, rest) ← read start
      .ok (some v, rest)

/-- The end of an array: further elements are a fault of the text. -/
def arrayEnd (cs : List Char) : Except TextError (List Char) :=
  lift (Json.Text.separator ']' cs)

def label (labels : List (String × String)) (key : String) : FieldReader (List (String × String)) :=
  memberValue fun cs => do
    let (v, rest) ← string cs
    .ok (Entries.insert key v labels, rest)

def labels : FieldReader (List (String × String)) := fun cs =>
  match Json.Text.skipBlanks cs with
  | [] => fault .unfinished
  | '\x7b' :: rest => members label [] rest
  | cs => unwanted .map cs

def metadataMember (d : Metadata.Draft) (key : String) : FieldReader Metadata.Draft :=
  fun cs =>
    if key = "name" then do
      let (v, rest) ← newField key d.name string cs
      .ok ({ d with name := v }, rest)
    else if key = "namespace" then do
      let (v, rest) ← newField key d.space (optional string) cs
      .ok ({ d with space := v }, rest)
    else if key = "labels" then do
      let (v, rest) ← newField key d.labels (optional labels) cs
      .ok ({ d with labels := v }, rest)
    else skipped d cs

def metadata : FieldReader Metadata := fun cs =>
  match Json.Text.skipBlanks cs with
  | [] => fault .unfinished
  | '\x7b' :: rest => do
    let (d, rest) ← members metadataMember {} rest
    .ok (← complete d.complete, rest)
  | '[' :: rest => do
    let (some name, rest) ← next? true string rest | mismatch (.tooFew 0 .metadata)
    let (space, rest) ← next? false (optional string) rest
    let (labels, rest) ← next? false (optional labels) rest
    .ok (⟨name, space.join, labels.join⟩, ← arrayEnd rest)
  | cs => unwanted .metadata cs

def entityMember (d : Draft) (key : String) : FieldReader Draft := fun cs =>
  if key = "apiVersion" then do
    let (v, rest) ← newField key d.apiVersion string cs
    .ok ({ d with apiVersion := v }, rest)
  else if key = "kind" then do
    let (v, rest) ← newField key d.kind string cs
    .ok ({ d with kind := v }, rest)
  else if key = "metadata" then do
    let (v, rest) ← newField key d.metadata (optional metadata) cs
    .ok ({ d with metadata := v }, rest)
  else skipped d cs

def entity : FieldReader Entity := fun cs =>
  match Json.Text.skipBlanks cs with
  | [] => fault .unfinished
  | '\x7b' :: rest => do
    let (d, rest) ← members entityMember {} rest
    .ok (← complete d.complete, rest)
  | '[' :: rest => do
    let (some apiVersion, rest) ← next? true string rest | mismatch (.tooFew 0 .entity)
    let (some kind, rest) ← next? false string rest | mismatch (.tooFew 1 .entity)
    let (metadata, rest) ← next? false (optional metadata) rest
    .ok (⟨apiVersion, kind, metadata.join⟩, ← arrayEnd rest)
  | cs => unwanted .entity cs

end OfText

def ofText (text : String) : Except TextError Entity := do
  let (e, rest) ← OfText.entity text.toList
  OfText.lift (Json.Text.endOfText rest)
  .ok e

end ConfiguredPredicates.Entity
