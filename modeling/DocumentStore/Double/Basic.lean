/-!
Double precision numbers, held as their 64 bits.

The order of doubles is read off the bits: without the sign bit they increase with the magnitude, so
`Double.rank` places every double on one integer line, NaN above all others and the two zeros on one
point. Comparison and equality of doubles are comparison and equality of ranks.
-/

namespace DocumentStore

/-- An IEEE 754 double, given by its bits. -/
structure Double where
  bits : UInt64
deriving DecidableEq, Inhabited

namespace Double

def signBit : Nat := 0x8000000000000000

/-- The weight of the leading bit of a normal significand, which is not stored. -/
def hiddenBit : Nat := 0x10000000000000

/-- The bits of the infinite magnitude. Every larger magnitude is NaN. -/
def infiniteMagnitude : Nat := 0x7ff0000000000000

def magnitude (x : Double) : Nat := x.bits.toNat % signBit

def isNegative (x : Double) : Bool := signBit ≤ x.bits.toNat

def isNaN (x : Double) : Bool := infiniteMagnitude < x.magnitude

def isFinite (x : Double) : Bool := x.magnitude < infiniteMagnitude

def isZero (x : Double) : Bool := x.magnitude == 0

def ofMagnitude (negative : Bool) (magnitude : Nat) : Double :=
  ⟨UInt64.ofNat (magnitude + if negative then signBit else 0)⟩

def zero : Double := ⟨0⟩

def nan : Double := ⟨0x7ff8000000000000⟩

/-- One bit pattern per number: the quiet NaN for every NaN, positive zero for both zeros. -/
def canonical (x : Double) : Double :=
  if x.isNaN then nan else if x.isZero then zero else x

/-- The place of a double on the integer line: order preserving, NaN on top, one place for both
zeros. -/
def rank (x : Double) : Int :=
  if x.isNaN then signBit else if x.isNegative then -(x.magnitude : Int) else x.magnitude

/-- Numeric comparison, with every NaN equal to every NaN and above all other numbers. -/
def cmp (x y : Double) : Ordering := compare x.rank y.rank

/-- Numeric equality, with every NaN equal to every NaN. -/
def same (x y : Double) : Bool := x.rank == y.rank

/-! ## The exact value of a finite double -/

def exponentField (x : Double) : Nat := x.magnitude / hiddenBit

/-- The integer `m` of the value `m · 2 ^ scale`. -/
def significand (x : Double) : Nat :=
  x.magnitude % hiddenBit + if x.exponentField = 0 then 0 else hiddenBit

def scale (x : Double) : Int := (max x.exponentField 1 : Nat) - 1075

def ratio (x : Double) : Nat × Nat :=
  (x.significand * Nat.pow 2 x.scale.toNat, Nat.pow 2 (-x.scale).toNat)

end Double

end DocumentStore
