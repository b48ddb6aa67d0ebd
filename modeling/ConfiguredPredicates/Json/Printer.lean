import ConfiguredPredicates.Decimal
import ConfiguredPredicates.Json.Basic

/-!
Printed JSON. `compact` has no blanks; `pretty` puts every item and member on a
line of its own, two blanks further in than what encloses it. Strings escape the
quotation mark, the backslash and the characters below U+0020, and nothing else.
A float has the fewest digits that read back to it, positional from `10^-5` up
to below `10^16`, and always shows that it is no whole number.
-/

namespace ConfiguredPredicates

namespace Number

def floatLayout : Decimal.Layout := ⟨-5, 15⟩

def floatChars (x : Float) : List Char :=
  let bits := x.toBits.toNat
  let magnitude := bits % 0x8000000000000000
  let unsigned :=
    if magnitude = 0 then ['0', '.', '0']
    else floatLayout.write (Decimal.Binary.ofBits magnitude).shortest
  if bits = magnitude then unsigned else '-' :: unsigned

def chars : Number → List Char
  | .whole n => Decimal.intChars n.value
  | .float x => floatChars x.value

end Number

namespace Json

def hexDigit (n : Nat) : Char :=
  if n < 10 then Char.ofNat (48 + n) else Char.ofNat (87 + n)

def escape (c : Char) : List Char :=
  if c = '"' then ['\\', '"']
  else if c = '\\' then ['\\', '\\']
  else if c = '\x08' then ['\\', 'b']
  else if c = '\x0c' then ['\\', 'f']
  else if c = '\n' then ['\\', 'n']
  else if c = '\r' then ['\\', 'r']
  else if c = '\t' then ['\\', 't']
  else if c.toNat < 32 then
    ['\\', 'u', '0', '0', hexDigit (c.toNat / 16), hexDigit (c.toNat % 16)]
  else [c]

def quote (s : String) : List Char :=
  '"' :: s.toList.flatMap escape ++ ['"']

def commaSeparated : List (List Char) → List Char
  | [] => []
  | first :: rest => first ++ rest.flatMap (',' :: ·)

mutual
def compactChars : Json → List Char
  | .null => ['n', 'u', 'l', 'l']
  | .bool true => ['t', 'r', 'u', 'e']
  | .bool false => ['f', 'a', 'l', 's', 'e']
  | .number n => n.chars
  | .string s => quote s
  | .array items => '[' :: commaSeparated (compactItems items) ++ [']']
  | .object members => '\x7b' :: commaSeparated (compactMembers members) ++ ['\x7d']

def compactItems : List Json → List (List Char)
  | [] => []
  | item :: rest => compactChars item :: compactItems rest

def compactMembers : List (String × Json) → List (List Char)
  | [] => []
  | (key, value) :: rest => (quote key ++ ':' :: compactChars value) :: compactMembers rest
end

def compact (v : Json) : String := String.ofList (compactChars v)

/-- Brackets around lines that stand one level further in; nothing between the
brackets when there are no lines. -/
def block (opening closing : Char) (depth : Nat) : List (List Char) → List Char
  | [] => [opening, closing]
  | lines =>
    let indent := fun n => '\n' :: List.replicate (2 * n) ' '
    opening :: commaSeparated (lines.map (indent (depth + 1) ++ ·)) ++ indent depth ++ [closing]

mutual
def prettyChars (depth : Nat) : Json → List Char
  | .array items => block '[' ']' depth (prettyItems (depth + 1) items)
  | .object members => block '\x7b' '\x7d' depth (prettyMembers (depth + 1) members)
  | scalar => compactChars scalar

def prettyItems (depth : Nat) : List Json → List (List Char)
  | [] => []
  | item :: rest => prettyChars depth item :: prettyItems depth rest

def prettyMembers (depth : Nat) : List (String × Json) → List (List Char)
  | [] => []
  | (key, value) :: rest =>
    (quote key ++ ':' :: ' ' :: prettyChars depth value) :: prettyMembers depth rest
end

def pretty (v : Json) : String := String.ofList (prettyChars 0 v)

end Json

end ConfiguredPredicates
