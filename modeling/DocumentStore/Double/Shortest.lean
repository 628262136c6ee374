import DocumentStore.Double.Basic

/-!
The shortest decimal that reads back as a given double.

The reals that round to a double form an interval around it. For one digit, two digits, and so on up
to seventeen, the two neighbours of the value on the grid of decimals of that many digits are tested
against the interval: the first grid with a hit wins, and of two hits the nearer one.
-/

namespace DocumentStore

/-- The number `digits · 10 ^ exponent`. -/
structure Decimal where
  digits : Nat
  exponent : Int
deriving DecidableEq, Inhabited

inductive Tie where
  | up
  | toEven
deriving DecidableEq

namespace Decimal

/-- The same number without trailing zero digits; `fuel` bounds the digits looked at. -/
def trim : Nat → Decimal → Decimal
  | 0, d => d
  | fuel + 1, d =>
    if d.digits ≠ 0 ∧ d.digits % 10 = 0 then trim fuel ⟨d.digits / 10, d.exponent + 1⟩ else d

/-- The count `e` of digits before the point: `10 ^ (e - 1) ≤ num / den < 10 ^ e`. The binary
logarithm gives an estimate that is off by one at most. -/
def pointPosition (num den : Nat) : Int :=
  let reaches (e : Int) : Bool := den * Nat.pow 10 e.toNat ≤ num * Nat.pow 10 (-e).toNat
  let estimate := ((num.log2 : Int) - (den.log2 : Int)) * 30103 / 100000
  if reaches (estimate + 1) then estimate + 2
  else if reaches estimate then estimate + 1
  else if reaches (estimate - 1) then estimate
  else estimate - 1

/-- The rounding interval of a value: the numbers from `low / den` to `high / den`, ends included
only if `closed`. -/
structure Interval where
  low : Nat
  value : Nat
  high : Nat
  den : Nat
  closed : Bool

/-- The reals that round to the positive finite double `significand · 2 ^ scale`. The gap below a
power of two is half the gap above it; the ends round to the even significand. -/
def Interval.ofDouble (significand : Nat) (scale : Int) : Interval :=
  let unit := Nat.pow 2 (scale - 2).toNat
  let below := if significand = Double.hiddenBit ∧ -1074 < scale then 1 else 2
  { low := (4 * significand - below) * unit
    value := 4 * significand * unit
    high := (4 * significand + 2) * unit
    den := Nat.pow 2 (2 - scale).toNat
    closed := significand % 2 == 0 }

/-- The neighbour of the value on the grid of multiples of `10 ^ exponent` that lies in the
interval, the nearer one if both do. -/
def Interval.onGrid (i : Interval) (exponent : Int) (tie : Tie) : Option Decimal :=
  let up := Nat.pow 10 (-exponent).toNat
  let den := i.den * Nat.pow 10 exponent.toNat
  let below := i.value * up / den
  let rest := i.value * up % den
  let lowHit := if i.closed then i.low * up ≤ below * den else i.low * up < below * den
  let above := (below + 1) * den
  let highHit := if i.closed then above ≤ i.high * up else above < i.high * up
  let nearLow : Bool :=
    if 2 * rest = den then tie == .toEven && below % 2 == 0 else 2 * rest < den
  if rest = 0 then some ⟨below, exponent⟩
  else if lowHit ∧ highHit then some ⟨if nearLow then below else below + 1, exponent⟩
  else if lowHit then some ⟨below, exponent⟩
  else if highHit then some ⟨below + 1, exponent⟩
  else none

def shortest (tie : Tie) (significand : Nat) (scale : Int) : Decimal :=
  let i := Interval.ofDouble significand scale
  let point := pointPosition i.value i.den
  let hit := (List.range 17).findSome? fun n => i.onGrid (point - (n + 1 : Nat)) tie
  trim 17 (hit.getD ⟨0, 0⟩)

end Decimal

end DocumentStore
