/-!
# Numbers of binary floating point with 64 bits

A finite number is a sign, a significand and an exponent of two. The significand is odd, or zero
with exponent zero, so every number has one representation; the two zeros differ in their sign.
`ofDecimal` takes the number nearest to a decimal, a tie going to the number with the even
significand of 53 bits.
-/

namespace Lifecycle

inductive Binary64 where
  /-- The number `± significand · 2 ^ exponent`. -/
  | finite (negative : Bool) (significand : Nat) (exponent : Int)
  /-- One of the two infinities. -/
  | infinite (negative : Bool)
  /-- Not a number. -/
  | undefined
  deriving DecidableEq, Repr, Inhabited

namespace Binary64

/-! ### The representation -/

/-- The significand made odd, for at most `fuel` factors of two. -/
def stripTwos : Nat → Nat → Int → Nat × Int
  | 0, m, e => (m, e)
  | fuel + 1, m, e => if m % 2 == 0 then stripTwos fuel (m / 2) (e + 1) else (m, e)

/-- The number `± m · 2 ^ e` in its one representation. -/
def normal (negative : Bool) (m : Nat) (e : Int) : Binary64 :=
  if m == 0 then .finite negative 0 0
  else
    let (m, e) := stripTwos (m.log2 + 1) m e
    .finite negative m e

/-- The least exponent of a number with all 53 bits of significand, lowest bit first. -/
def leastExponent : Int := -1074

/-! ### Rounding a quotient -/

/-- The quotient rounded to the nearest whole number, a tie to the even one. -/
def roundedQuotient (num den : Nat) : Nat :=
  let quotient := num / den
  let twice := 2 * (num % den)
  if twice < den then quotient
  else if twice > den then quotient + 1
  else if quotient % 2 == 0 then quotient else quotient + 1

/-- The numerator and the denominator of a quotient divided by `2 ^ e`. -/
def scaled (num den : Nat) (e : Int) : Nat × Nat :=
  if e ≥ 0 then (num, den * Nat.pow 2 e.toNat) else (num * Nat.pow 2 (-e).toNat, den)

/-- The number of the format nearest to a quotient. -/
def ofQuotient (negative : Bool) (num den : Nat) : Binary64 :=
  if num == 0 then .finite negative 0 0
  else
    let guess := max ((num.log2 : Int) - (den.log2 : Int) - 52) leastExponent
    let (n, d) := scaled num den guess
    let e := if n / d < Nat.pow 2 52 then max (guess - 1) leastExponent else guess
    let (n, d) := scaled num den e
    let m := roundedQuotient n d
    if m != 0 && (m.log2 : Int) + e ≥ 1024 then .infinite negative else normal negative m e

/-- The number of decimal digits of a natural number. -/
def decimalLength (n : Nat) : Nat := (Nat.toDigits 10 n).length

/-- The number of the format nearest to `± digits · 10 ^ exponent`. -/
def ofDecimal (negative : Bool) (digits : Nat) (exponent : Int) : Binary64 :=
  let size := (decimalLength digits : Int) + exponent
  if digits == 0 || size < -330 then .finite negative 0 0
  else if size > 310 then .infinite negative
  else if exponent ≥ 0 then ofQuotient negative (digits * Nat.pow 10 exponent.toNat) 1
  else ofQuotient negative digits (Nat.pow 10 (-exponent).toNat)

/-- The number of the format nearest to a whole number. -/
def ofInt (n : Int) : Binary64 := ofQuotient (n < 0) n.natAbs 1

/-! ### Questions -/

/-- Whether the number is one of the two zeros. -/
def isZero : Binary64 → Bool
  | .finite _ m _ => m == 0
  | _ => false

/-- Equality of values: the two zeros are equal and what is not a number equals nothing. -/
def same : Binary64 → Binary64 → Bool
  | .finite s m e, .finite s' m' e' => m == m' && e == e' && (s == s' || m == 0)
  | .infinite s, .infinite s' => s == s'
  | _, _ => false

/-- The whole number a number is, if it is one. -/
def toInt? : Binary64 → Option Int
  | .finite s m e =>
    if e < 0 then none
    else
      let magnitude := (m * Nat.pow 2 e.toNat : Nat)
      some (if s then -(magnitude : Int) else magnitude)
  | _ => none

/-- The whole number left when the digits behind the point are dropped. -/
def truncate? : Binary64 → Option Int
  | .finite s m e =>
    let magnitude := if e ≥ 0 then m * Nat.pow 2 e.toNat else m / Nat.pow 2 (-e).toNat
    some (if s then -(magnitude : Int) else magnitude)
  | _ => none

/-- Whether a number is at most a natural number. -/
def atMost (x : Binary64) (n : Nat) : Bool :=
  match x with
  | .finite negative m e =>
    negative || (if e ≥ 0 then m * Nat.pow 2 e.toNat ≤ n else m ≤ n * Nat.pow 2 (-e).toNat)
  | .infinite negative => negative
  | .undefined => false

end Binary64

end Lifecycle
