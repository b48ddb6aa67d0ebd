import ConfiguredPredicates.Json.Basic
import ConfiguredPredicates.Json.Text.Basic

/-!
Number literals. Without a point and an exponent the value stays whole as long
as a whole number can hold it, except `-0`, which is the float zero below zero.
Every other value is a float, made from a significand below `2^64` and a power
of ten: digits are gathered until the significand would not fit; further digits
before the point only raise the power, further ones behind it are dropped. The
significand is multiplied or divided by the power as floats, each rounded once,
so the result may differ from the nearest float in its last bits. A value too
large for a float is a fault, one too small is zero.
-/

namespace ConfiguredPredicates.Json.Text.NumberLiteral

def digitValue (c : Char) : Nat := c.toNat - 48

/-- Adds digits to a significand and stops before it reaches `2^64`. -/
def gather : (significand : Nat) → List Char → Nat × List Char
  | significand, [] => (significand, [])
  | significand, d :: ds =>
    let next := significand * 10 + digitValue d
    if next < 0x10000000000000000 then gather next ds else (significand, d :: ds)

def takeDigits (cs : List Char) : List Char × List Char := cs.span Char.isDigit

def someDigits : Reader (List Char) := fun cs =>
  match takeDigits cs with
  | ([], []) => .error .unfinished
  | ([], _) => .error .malformed
  | (ds, rest) => .ok (ds, rest)

def wholeDigits : Reader (List Char) := fun cs => do
  let (ds, rest) ← someDigits cs
  match ds with
  | '0' :: _ :: _ => .error .malformed
  | _ => .ok (ds, rest)

def fractionDigits : Reader (Option (List Char))
  | '.' :: rest => do
    let (ds, rest) ← someDigits rest
    .ok (some ds, rest)
  | cs => .ok (none, cs)

def exponentPart : Reader (Option Int)
  | c :: rest =>
    if c = 'e' ∨ c = 'E' then
      let (negative, rest) := match rest with
        | '+' :: rest => (false, rest)
        | '-' :: rest => (true, rest)
        | _ => (false, rest)
      do
        let (ds, rest) ← someDigits rest
        let size := ds.foldl (fun n d => n * 10 + digitValue d) 0
        .ok (some (if negative then -(size : Int) else size), rest)
    else .ok (none, c :: rest)
  | [] => .ok (none, [])

def tenTo (n : Nat) : Float := Float.ofScientific 1 false n

def divideByTenTo (x : Float) (n : Nat) : Float :=
  -- No power of ten above the 308th is a float, so larger ones are divided by in turn.
  if n ≤ 308 then x / tenTo n
  else if x == 0 then x
  else divideByTenTo (x / tenTo 308) (n - 308)
termination_by n
decreasing_by omega

/-- The significand times a power of ten. It is infinite where no float is so
large, and zero where none is so small. -/
def scaled (significand : Nat) (exponent : Int) : Float :=
  let x := (UInt64.ofNat significand).toFloat
  if exponent < 0 then divideByTenTo x exponent.natAbs
  else if significand = 0 then 0
  else if exponent ≤ 308 then x * tenTo exponent.natAbs
  else 1 / 0

def floatNumber? (negative : Bool) (significand : Nat) (exponent : Int) : Option Number :=
  let x := scaled significand exponent
  Number.ofFloat? (if negative then -x else x)

def wholeNumber? (negative : Bool) (ds : List Char) : Option Number :=
  let (significand, unused) := gather 0 ds
  -- A negative zero is a float, and digits that do not fit only scale.
  if unused.isEmpty && !(negative && significand == 0) then
    let size : Int := significand
    match Number.ofInt? (if negative then -size else size) with
    | some n => some n
    | none => floatNumber? negative significand 0
  else floatNumber? negative significand unused.length

def fractionalNumber? (negative : Bool) (ds fraction : List Char) (exponent : Int) :
    Option Number :=
  let (significand, unused) := gather 0 ds
  let (significand, dropped) := gather significand fraction
  let places := fraction.length - dropped.length
  floatNumber? negative significand (unused.length - (places : Int) + exponent)

def number? (negative : Bool) (ds : List Char) (fraction : Option (List Char))
    (exponent : Option Int) : Option Number :=
  if fraction.isNone && exponent.isNone then wholeNumber? negative ds
  else fractionalNumber? negative ds (fraction.getD []) (exponent.getD 0)

def readUnsigned (negative : Bool) : Reader Number := fun cs => do
  let (ds, rest) ← wholeDigits cs
  let (fraction, rest) ← fractionDigits rest
  let (exponent, rest) ← exponentPart rest
  match number? negative ds fraction exponent with
  | some n => .ok (n, rest)
  | none => .error .malformed

def read : Reader Number
  | '-' :: rest => readUnsigned true rest
  | cs => readUnsigned false cs

/-- Walks over a literal whose value nobody wants: it may be too large, and one
that ends too early counts as malformed. -/
def skip : Reader Unit := fun cs =>
  let unsigned := match cs with
    | '-' :: rest => rest
    | _ => cs
  let parts : Except Fault (Unit × List Char) := do
    let (_, rest) ← wholeDigits unsigned
    let (_, rest) ← fractionDigits rest
    let (_, rest) ← exponentPart rest
    .ok ((), rest)
  parts.mapError fun _ => .malformed

end ConfiguredPredicates.Json.Text.NumberLiteral
