/-!
Shortest decimals of binary floating-point values, and the layout of their digits.
A positive finite value `m * 2^q` is read back from every decimal in an interval
around it that reaches half way to its neighbours and holds its end points exactly
when `m` is even. `shortest` takes the coarsest decimal grid that has a point in
this interval, and on it the point nearest to the value; of two equally near ones,
the even. All comparisons are between natural numbers; signs and zero are left to
the caller.

The leading digit of a decimal has exponent `e` when the value lies from `10^e` up
to `10^(e+1)`. Within the positional range of a layout the text has a point with at
least one digit on either side of it; outside, one digit stands before the point,
the point is left out when nothing follows it, and the exponent is written with its
sign.
-/

namespace ConfiguredPredicates.Decimal

structure Scaled where
  digits : Nat
  exponent : Int
deriving DecidableEq, Repr

/-- A positive binary value `significand * 2^exponent`. `closeBelow` marks the
values whose lower neighbour is only half as far away as the upper one. -/
structure Binary where
  significand : Nat
  exponent : Int
  closeBelow : Bool

/-- A power with a whole exponent; below zero it is one. -/
def power (base : Nat) (exponent : Int) : Nat := Nat.pow base exponent.toNat

def Binary.ofBits (bits : Nat) : Binary :=
  let fraction := bits % 0x10000000000000
  let biased := bits / 0x10000000000000 % 0x800
  if biased = 0 then ⟨fraction, -1074, false⟩
  else ⟨0x10000000000000 + fraction, (biased : Int) - 1075, fraction = 0 && 1 < biased⟩

structure Interval where
  low : Nat
  value : Nat
  high : Nat
  denominator : Nat
  closed : Bool

def Binary.interval (x : Binary) : Interval :=
  let scale := power 2 (x.exponent - 2)
  { low := (4 * x.significand - if x.closeBelow then 1 else 2) * scale
    value := 4 * x.significand * scale
    high := (4 * x.significand + 2) * scale
    denominator := power 2 (2 - x.exponent)
    closed := x.significand % 2 = 0 }

def Interval.holds (i : Interval) (k : Nat) (e : Int) : Bool :=
  let point := k * power 10 e * i.denominator
  let scale := power 10 (-e)
  if i.closed then i.low * scale ≤ point && point ≤ i.high * scale
  else i.low * scale < point && point < i.high * scale

def Interval.nearest? (i : Interval) (e : Int) : Option Nat :=
  let numerator := i.value * power 10 (-e)
  let step := i.denominator * power 10 e
  let below := numerator / step
  let twice := 2 * (numerator % step)
  let belowFirst := twice < step || (twice = step && below % 2 = 0)
  let candidates := if belowFirst then [below, below + 1] else [below + 1, below]
  candidates.find? fun k => k != 0 && i.holds k e

def Interval.magnitudeFrom (i : Interval) : (steps : Nat) → (start : Int) → Int
  | 0, start => start
  | steps + 1, start =>
    if i.value * power 10 (-start) < i.denominator * power 10 start then start
    else i.magnitudeFrom steps (start + 1)

def Interval.coarsest? (i : Interval) : (grids : Nat) → (e : Int) → Option Scaled
  | 0, _ => none
  | grids + 1, e =>
    match i.nearest? e with
    | some k => some ⟨k, e⟩
    | none => i.coarsest? grids (e - 1)

def Scaled.trim : (fuel : Nat) → Scaled → Scaled
  | 0, x => x
  | fuel + 1, x =>
    if x.digits % 10 = 0 && x.digits != 0 then trim fuel ⟨x.digits / 10, x.exponent + 1⟩ else x

/-- No value below `2^1024` has more than 309 digits before its point, none is
below `10^-324`, and 17 significant digits always suffice. -/
def Binary.shortest (x : Binary) : Scaled :=
  let i := x.interval
  let magnitude := i.magnitudeFrom 640 (-324)
  ((i.coarsest? 18 magnitude).getD ⟨x.significand, 0⟩).trim 20

structure Layout where
  least : Int
  greatest : Int

private def zeros (n : Nat) : List Char := List.replicate n '0'

def natChars (n : Nat) : List Char := Nat.toDigits 10 n

def intChars (n : Int) : List Char :=
  if n < 0 then '-' :: natChars n.natAbs else natChars n.natAbs

private def positional (ds : List Char) (whole : Int) : List Char :=
  if whole ≤ 0 then '0' :: '.' :: zeros (-whole).toNat ++ ds
  else if ds.length ≤ whole.toNat then ds ++ zeros (whole.toNat - ds.length) ++ ['.', '0']
  else ds.take whole.toNat ++ '.' :: ds.drop whole.toNat

private def scientific (ds : List Char) (e : Int) : List Char :=
  let fraction := ds.drop 1
  ds.take 1 ++ (if fraction.isEmpty then [] else '.' :: fraction) ++
    'e' :: (if e < 0 then '-' else '+') :: natChars e.natAbs

def Layout.write (layout : Layout) (x : Scaled) : List Char :=
  let ds := natChars x.digits
  let e := x.exponent + ds.length - 1
  if layout.least ≤ e ∧ e ≤ layout.greatest then positional ds (e + 1) else scientific ds e

end ConfiguredPredicates.Decimal
