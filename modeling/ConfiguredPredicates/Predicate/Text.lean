import ConfiguredPredicates.Json.Text.Value
import ConfiguredPredicates.Predicate.OfJson

/-!
Predicates and conditions from JSON text. The text is read up to the end of its
first value, that value has to have the shape within the standard depth, and only
then must the text be at its end: a violation comes before a fault behind the
value, and a fault inside the value before any violation. A value that is there
already is copied first and then has to have the shape.

A message that ends with ` at line L column C`, for two numbers below `2^64`, is
taken to name a place in a text, and the place is not part of what it says.
-/

namespace ConfiguredPredicates

namespace Json.Text

structure Position where
  line : Nat
  column : Nat

def behind? : (expected : List Char) → List Char → Option (List Char)
  | [], cs => some cs
  | _ :: _, [] => none
  | e :: expected, c :: cs => if c = e then behind? expected cs else none

theorem eq_append_of_behind? {expected cs rest : List Char} (h : behind? expected cs = some rest) :
    cs = expected ++ rest := by
  fun_induction behind? expected cs with
  | case1 cs => exact Option.some.inj h
  | case2 => cases h
  | case3 _ _ _ ih => rw [List.cons_append, ← ih h]
  | case4 => cases h

def positionNumber? (cs : List Char) : Option (Nat × List Char) :=
  let ds := cs.takeWhile Char.isDigit
  let size := ds.foldl (fun n d => n * 10 + (d.toNat - 48)) 0
  if ds.isEmpty || 0x10000000000000000 ≤ size then none else some (size, cs.dropWhile Char.isDigit)

namespace Position

/-- The position that a whole text names. Leading zeros do not count. -/
def ofChars? (cs : List Char) : Option Position := do
  let cs ← behind? " at line ".toList cs
  let (line, cs) ← positionNumber? cs
  let cs ← behind? " column ".toList cs
  let (column, cs) ← positionNumber? cs
  if cs.isEmpty then some ⟨line, column⟩ else none

/-- A message that ends with a position, as what stands before it and the position. -/
def split? : List Char → Option (List Char × Position)
  | [] => none
  | c :: cs =>
    match ofChars? (c :: cs) with
    | some position => some ([], position)
    | none => (split? cs).map fun (message, position) => (c :: message, position)

end Position

def withoutPosition (message : String) : String :=
  match Position.split? message.toList with
  | some (kept, _) => String.ofList kept
  | none => message

end Json.Text

inductive TextError where
  | fault (f : Json.Text.Fault)
  | rejected (v : Violation)

/-- What is said about a value that was read but has the wrong shape. -/
def Violation.summary (v : Violation) : String := Json.Text.withoutPosition v.message

section
variable {α : Type}

def readDocument (read : Json → Except Violation α) (text : String) : Except TextError α := do
  let (v, rest) ← (Json.Text.read text.toList).mapError .fault
  let result ← (read v).mapError .rejected
  -- Only now, so that a violation in front of more text is what is told.
  (Json.Text.endOfText rest).mapError .fault
  .ok result

def readCopy (read : Json → Except Violation α) (v : Json) : Except TextError α :=
  (read v.canonical).mapError .rejected

end

namespace Predicate

def ofText (text : String) : Except TextError Predicate := readDocument ofJson text

def ofCopy (v : Json) : Except TextError Predicate := readCopy ofJson v

end Predicate

namespace Condition

def ofText (text : String) : Except TextError Condition := readDocument ofJson text

def ofCopy (v : Json) : Except TextError Condition := readCopy ofJson v

end Condition

section
variable {α ε : Type} {x : Except Violation α} {wrap : Violation → ε}

theorem mapError_eq_ok_iff {a : α} : x.mapError wrap = .ok a ↔ x = .ok a := by
  cases x with
  | ok b => exact ⟨fun h => by cases h; rfl, fun h => by cases h; rfl⟩
  | error violation => exact ⟨nofun, nofun⟩

theorem mapError_eq_error_iff {e : ε} :
    x.mapError wrap = .error e ↔ ∃ violation, x = .error violation ∧ e = wrap violation := by
  cases x with
  | ok a => exact ⟨nofun, nofun⟩
  | error violation =>
    constructor
    · rintro ⟨⟩
      exact ⟨violation, rfl, rfl⟩
    · rintro ⟨_, ⟨⟩, rfl⟩
      rfl

end

end ConfiguredPredicates
