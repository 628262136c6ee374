import DocumentStore.Double.Basic

/-!
Rounding of exact rationals to doubles, to the nearest with ties to even. Integers, single precision
numbers, products and quotients all become doubles through `Double.ofRatio`.
-/

namespace DocumentStore

/-- The quotient rounded to the nearest integer, a half going to the even neighbour. -/
def roundedQuotient (num den : Nat) : Nat :=
  let q := num / den
  let twice := 2 * (num % den)
  if twice < den || (twice == den && q % 2 == 0) then q else q + 1

/-- The exponent `e` with `2 ^ e ≤ num / den < 2 ^ (e + 1)`, for positive `num` and `den`. -/
def floorLog2Ratio (num den : Nat) : Int :=
  let e : Int := (num.log2 : Int) - (den.log2 : Int)
  if den * Nat.pow 2 e.toNat ≤ num * Nat.pow 2 (-e).toNat then e else e - 1

namespace Double

/-- The double nearest to `num / den`, of the given sign. A quotient beyond the largest finite
double becomes infinite, and so does a zero denominator.

The 53 leading bits of the quotient, rounded, are added to the shifted exponent. A significand that
rounds up to `2 ^ 53` carries into the exponent, and the subnormal range needs no case of its own,
since there the exponent stays at its minimum. -/
def ofRatio (negative : Bool) (num den : Nat) : Double :=
  if den = 0 then ofMagnitude negative infiniteMagnitude
  else if num = 0 then ofMagnitude negative 0
  else
    let scale : Int := max (floorLog2Ratio num den - 52) (-1074)
    let m := roundedQuotient (num * Nat.pow 2 (-scale).toNat) (den * Nat.pow 2 scale.toNat)
    ofMagnitude negative (min ((scale + 1074).toNat * hiddenBit + m) infiniteMagnitude)

def ofInt (n : Int) : Double := ofRatio (n < 0) n.natAbs 1

/-- The double with the value of a single precision number, given by its bits. Widening is exact. -/
def ofSingle (bits : UInt32) : Double :=
  let leadingBit := 0x800000
  let negative : Bool := 0x80000000 ≤ bits.toNat
  let exponent := bits.toNat / leadingBit % 0x100
  let fraction := bits.toNat % leadingBit
  if exponent = 255 then
    ofMagnitude negative (infiniteMagnitude + fraction * 0x20000000)
  else
    let m := fraction + if exponent = 0 then 0 else leadingBit
    ofRatio negative (m * Nat.pow 2 (max exponent 1)) (Nat.pow 2 150)

def mul (x y : Double) : Double :=
  ofRatio (x.isNegative != y.isNegative) (x.ratio.1 * y.ratio.1) (x.ratio.2 * y.ratio.2)

def div (x y : Double) : Double :=
  ofRatio (x.isNegative != y.isNegative) (x.ratio.1 * y.ratio.2) (x.ratio.2 * y.ratio.1)

end Double

end DocumentStore
