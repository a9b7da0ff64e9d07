import Lifecycle.Number.Binary64

/-!
# The shortest decimal that reads back

A binary64 number is written with the fewest significant digits whose decimal reads back as the same
number, and of those decimals with the nearest one. On a grid of decimals with a given number of
digits only the two neighbours of the value matter: if any point of the grid reads back, one of the
two does.
-/

namespace Lifecycle.Shortest

/-! ### The decimals that read back -/

/-- The reals that round to one number, as multiples of `num / den`: the value, and the two ends of
the interval. The ends belong to it when the significand is even. -/
structure Interval where
  value : Nat
  low : Nat
  high : Nat
  closed : Bool
  num : Nat
  den : Nat

/-- The interval of the number `m · 2 ^ e`. -/
def interval (m : Nat) (e : Int) : Interval :=
  let bits : Int := m.log2 + 1
  let unit := max (e + bits - 53) Binary64.leastExponent
  let full := m * Nat.pow 2 (e - unit).toNat
  let gap := if full == Nat.pow 2 52 && unit > Binary64.leastExponent then 1 else 2
  let quarter := unit - 2
  { value := 4 * full, low := 4 * full - gap, high := 4 * full + 2, closed := full % 2 == 0,
    num := if quarter ≥ 0 then Nat.pow 2 quarter.toNat else 1,
    den := if quarter ≥ 0 then 1 else Nat.pow 2 (-quarter).toNat }

/-- The numbers `a · 10 ^ k` and `b · num / den` brought to one unit. -/
def Interval.common (i : Interval) (a : Nat) (k : Int) (b : Nat) : Nat × Nat :=
  if k ≥ 0 then (a * Nat.pow 10 k.toNat * i.den, b * i.num)
  else (a * i.den, b * i.num * Nat.pow 10 (-k).toNat)

/-- Whether the decimal `a · 10 ^ k` lies in the interval. -/
def Interval.holds (i : Interval) (a : Nat) (k : Int) : Bool :=
  let (a₁, low) := i.common a k i.low
  let (a₂, high) := i.common a k i.high
  if i.closed then low ≤ a₁ && a₂ ≤ high else low < a₁ && a₂ < high

/-- The greatest decimal of the form `a · 10 ^ k` that is not above the value. -/
def Interval.floor (i : Interval) (k : Int) : Nat :=
  let (unit, value) := i.common 1 k i.value
  value / unit

/-- Whether the decimal `10 ^ k` is at most the value. -/
def Interval.reaches (i : Interval) (k : Int) : Bool :=
  let (unit, value) := i.common 1 k i.value
  unit ≤ value

/-- The number of digits before the point of the value; zero or negative for a value below one. -/
def Interval.pointPosition (i : Interval) (m : Nat) (e : Int) : Int :=
  let guess := ((m.log2 : Int) + e) * 30103 / 100000 + 1
  if i.reaches guess then guess + 1
  else if i.reaches (guess - 1) then guess else guess - 1

/-- The decimal on the grid of step `10 ^ k` that reads back: the nearer neighbour of the value, of
two equally near ones the even one. -/
def Interval.onGrid? (i : Interval) (k : Int) : Option Nat :=
  let below := i.floor k
  match i.holds below k, i.holds (below + 1) k with
  | false, false => none
  | true, false => some below
  | false, true => some (below + 1)
  | true, true =>
    let (half, value) := i.common (2 * below + 1) k (2 * i.value)
    if value < half then some below
    else if value > half then some (below + 1)
    else some (if below % 2 == 0 then below else below + 1)

/-- The first grid with a decimal that reads back, trying `fuel` grids of more and more digits. -/
def Interval.search (i : Interval) (point : Int) : Nat → Nat → Nat × Int
  | 0, digits => (i.floor (point - digits), point - digits)
  | fuel + 1, digits =>
    match i.onGrid? (point - digits) with
    | some a => (a, point - digits)
    | none => i.search point fuel (digits + 1)

/-- The digits of a decimal without the zeros at its end. -/
def significantDigits (a : Nat) : List Char :=
  match ((Nat.toDigits 10 a).reverse.dropWhile (· == '0')).reverse with
  | [] => ['0']
  | digits => digits

/-- The shortest decimal of `m · 2 ^ e`: its significant digits, and the position of the point
counted from before the first digit. -/
def decimal (m : Nat) (e : Int) : List Char × Int :=
  if m == 0 then (['0'], 1)
  else
    let i := interval m e
    let (a, k) := i.search (i.pointPosition m e) 17 1
    (significantDigits a, k + Binary64.decimalLength a)

/-! ### Layout -/

structure Layout where
  /-- Positional notation is used while the point position is above this bound … -/
  above : Int
  /-- … and not above this one. -/
  upTo : Int
  /-- The least number of digits of an exponent. -/
  exponentDigits : Nat

/-- Numbers from a ten-thousandth up to below 10 ^ 16 are positional, exponents have two digits. -/
def standard : Layout := ⟨-4, 16, 2⟩

def padLeft (width : Nat) (digits : List Char) : List Char :=
  List.replicate (width - digits.length) '0' ++ digits

/-- Positional notation: at least one digit on each side of the point. -/
def positional (digits : List Char) (point : Int) : List Char :=
  if point ≤ 0 then '0' :: '.' :: (List.replicate (-point).toNat '0' ++ digits)
  else
    let whole := point.toNat
    if digits.length ≤ whole then
      digits ++ List.replicate (whole - digits.length) '0' ++ ['.', '0']
    else digits.take whole ++ '.' :: digits.drop whole

/-- Notation with an exponent: one digit before the point, no point when there are no more. -/
def scientific (layout : Layout) (digits : List Char) (point : Int) : List Char :=
  let exponent := point - 1
  let mark := if exponent < 0 then '-' else '+'
  let fraction := if digits.length ≤ 1 then [] else '.' :: digits.drop 1
  digits.take 1 ++ fraction ++
    'e' :: mark :: padLeft layout.exponentDigits (Nat.toDigits 10 exponent.natAbs)

def Layout.write (layout : Layout) : Binary64 → List Char
  | .undefined => ['n', 'a', 'n']
  | .infinite negative => (if negative then ['-'] else []) ++ ['i', 'n', 'f']
  | .finite negative m e =>
    let (digits, point) := decimal m e
    (if negative then ['-'] else []) ++
      if layout.above < point && point ≤ layout.upTo then positional digits point
      else scientific layout digits point

end Lifecycle.Shortest
