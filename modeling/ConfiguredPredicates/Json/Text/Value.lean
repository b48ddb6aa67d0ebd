import ConfiguredPredicates.Json.Basic
import ConfiguredPredicates.Json.Text.NumberLiteral
import ConfiguredPredicates.Json.Text.StringLiteral

/-!
JSON values from text. `readWritten` gives the members of objects as they are
written, `read` brings them into key order. At most 127 arrays and objects may
enclose each other; the bracket that would open one more is malformed. `skip`
walks over a value that nobody wants, however deep it nests.
-/

namespace ConfiguredPredicates.Json

namespace Text

def member (value : Reader α) : Reader (String × α) := fun cs => do
  let rest ← separator '"' cs
  let (key, rest) ← StringLiteral.read rest
  let rest ← separator ':' rest
  let (v, rest) ← value rest
  .ok ((key, v), rest)

/-- One value, given how to go on behind an opening bracket. -/
def value (array : Reader (List Json)) (object : Reader (List (String × Json))) :
    Reader Json := fun cs =>
  match skipBlanks cs with
  | [] => .error .unfinished
  | 'n' :: rest => literal .null ['u', 'l', 'l'] rest
  | 't' :: rest => literal (.bool true) ['r', 'u', 'e'] rest
  | 'f' :: rest => literal (.bool false) ['a', 'l', 's', 'e'] rest
  | '"' :: rest => do
    let (s, rest) ← StringLiteral.read rest
    .ok (.string s, rest)
  | '[' :: rest => do
    let (members, rest) ← array rest
    .ok (.array members, rest)
  | '\x7b' :: rest => do
    let (members, rest) ← object rest
    .ok (.object members, rest)
  | c :: rest =>
    if c = '-' ∨ c.isDigit then do
      let (n, rest) ← NumberLiteral.read (c :: rest)
      .ok (.number n, rest)
    else .error .malformed

def nested : (levels : Nat) → Reader Json
  | 0 => value (fun _ => .error .malformed) (fun _ => .error .malformed)
  | levels + 1 => value (items ']' (nested levels)) (items '\x7d' (member (nested levels)))

def maxNesting : Nat := 127

def readWritten : Reader Json := nested maxNesting

def read : Reader Json := fun cs => do
  let (v, rest) ← readWritten cs
  .ok (v.canonical, rest)

theorem ordered_of_read {cs rest : List Char} {v : Json} (h : read cs = .ok (v, rest)) :
    v.Ordered := by
  obtain ⟨result, -, hcanonical⟩ := bind_eq_ok.1 h
  cases hcanonical
  exact ordered_canonical result.1

def skippedMember (value : Reader Unit) : Reader Unit := fun cs => do
  let rest ← separator '"' cs
  let (_, rest) ← StringLiteral.skip rest
  let rest ← separator ':' rest
  value rest

/-- Every level takes a bracket, so there are no more levels than characters. -/
def skipNested : (levels : Nat) → Reader Unit
  | 0, _ => .error .unfinished
  | levels + 1, cs =>
    match skipBlanks cs with
    | [] => .error .unfinished
    | 'n' :: rest => literal () ['u', 'l', 'l'] rest
    | 't' :: rest => literal () ['r', 'u', 'e'] rest
    | 'f' :: rest => literal () ['a', 'l', 's', 'e'] rest
    | '"' :: rest => StringLiteral.skip rest
    | '[' :: rest => do
      let (_, rest) ← items ']' (skipNested levels) rest
      .ok ((), rest)
    | '\x7b' :: rest => do
      let (_, rest) ← items '\x7d' (skippedMember (skipNested levels)) rest
      .ok ((), rest)
    | c :: rest =>
      if c = '-' ∨ c.isDigit then NumberLiteral.skip (c :: rest) else .error .malformed

def skip : Reader Unit := fun cs => skipNested (cs.length + 1) cs

end Text

def ofText (text : String) : Except Text.Fault Json := do
  let (v, rest) ← Text.read text.toList
  Text.endOfText rest
  .ok v

theorem ordered_of_ofText {text : String} {v : Json} (h : ofText text = .ok v) : v.Ordered := by
  obtain ⟨_, hread, h⟩ := Text.bind_eq_ok.1 h
  obtain ⟨_, -, hvalue⟩ := Text.bind_eq_ok.1 h
  cases hvalue
  exact Text.ordered_of_read hread

end ConfiguredPredicates.Json
