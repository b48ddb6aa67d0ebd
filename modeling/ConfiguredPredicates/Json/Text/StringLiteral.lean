import ConfiguredPredicates.Json.Text.Basic

/-!
String literals. A character below U+0020 has to be escaped. A `\u` escape takes
four hexadecimal digits, and less than four more bytes of text leave it
unfinished, whatever they are. Two such escapes in a row may name a character
above U+FFFF by its high and low half; a half without the other is a fault.
`skip` walks over a literal whose value nobody wants and checks no halves.
-/

namespace ConfiguredPredicates.Json.Text.StringLiteral

def hexValue? (c : Char) : Option Nat :=
  if '0' ≤ c ∧ c ≤ '9' then some (c.toNat - 48)
  else if 'a' ≤ c ∧ c ≤ 'f' then some (c.toNat - 87)
  else if 'A' ≤ c ∧ c ≤ 'F' then some (c.toNat - 55)
  else none

def fourHex? : List Char → Option (Nat × List Char)
  | a :: b :: c :: d :: rest => do
    let a ← hexValue? a
    let b ← hexValue? b
    let c ← hexValue? c
    let d ← hexValue? d
    some (((a * 16 + b) * 16 + c) * 16 + d, rest)
  | _ => none

/-- The number of a `\u` escape, read behind the `u`. -/
def codeUnit : Reader Nat := fun cs =>
  if (String.ofList (cs.take 4)).utf8ByteSize < 4 then .error .unfinished
  else match fourHex? cs with
    | some (unit, rest) => .ok (unit, rest)
    | none => .error .malformed

def isHighHalf (unit : Nat) : Bool := 0xD800 ≤ unit && unit ≤ 0xDBFF

def isLowHalf (unit : Nat) : Bool := 0xDC00 ≤ unit && unit ≤ 0xDFFF

def lowHalf : Reader Nat
  | [] => .error .unfinished
  | '\\' :: [] => .error .unfinished
  | '\\' :: 'u' :: rest => do
    let (unit, rest) ← codeUnit rest
    if isLowHalf unit then .ok (unit, rest) else .error .malformed
  | _ => .error .malformed

def escapedUnit : Reader Char := fun cs => do
  let (unit, rest) ← codeUnit cs
  if isLowHalf unit then .error .malformed
  else if isHighHalf unit then
    let (low, rest) ← lowHalf rest
    .ok (Char.ofNat (0x10000 + (unit - 0xD800) * 0x400 + (low - 0xDC00)), rest)
  else .ok (Char.ofNat unit, rest)

def escapedLetter? : Char → Option Char
  | '"' => some '"'
  | '\\' => some '\\'
  | '/' => some '/'
  | 'b' => some '\x08'
  | 'f' => some '\x0c'
  | 'n' => some '\n'
  | 'r' => some '\r'
  | 't' => some '\t'
  | _ => none

def escaped : Reader Char
  | [] => .error .unfinished
  | 'u' :: rest => escapedUnit rest
  | c :: rest =>
    match escapedLetter? c with
    | some meaning => .ok (meaning, rest)
    | none => .error .malformed

/-- An escape whose meaning is not wanted. -/
def skippedEscape : Reader Char
  | [] => .error .unfinished
  | 'u' :: rest => do
    let (_, rest) ← codeUnit rest
    .ok ('u', rest)
  | c :: rest =>
    match escapedLetter? c with
    | some meaning => .ok (meaning, rest)
    | none => .error .malformed

def body (escape : Reader Char) : (fuel : Nat) → Reader (List Char)
  | 0, _ => .error .unfinished
  | _ + 1, [] => .error .unfinished
  | fuel + 1, c :: cs =>
    if c = '"' then .ok ([], cs)
    else if c = '\\' then do
      let (first, rest) ← escape cs
      let (others, rest) ← body escape fuel rest
      .ok (first :: others, rest)
    else if c.toNat < 32 then .error .malformed
    else do
      let (others, rest) ← body escape fuel cs
      .ok (c :: others, rest)

def read : Reader String := fun cs => do
  let (chars, rest) ← body escaped (cs.length + 1) cs
  .ok (String.ofList chars, rest)

def skip : Reader Unit := fun cs => do
  let (_, rest) ← body skippedEscape (cs.length + 1) cs
  .ok ((), rest)

end ConfiguredPredicates.Json.Text.StringLiteral
