import DocumentStore.Double.Shortest

/-!
The written form of doubles. All layouts print the shortest digits that read back; they differ in
where the exponent form begins, in whether an integral number keeps a fraction and in the sign of a
positive exponent.
-/

namespace DocumentStore

/-- The decisions of one written form of numbers. -/
structure NumberLayout where
  /-- The decimal exponents written positionally; without bounds, all of them. -/
  positional : Option (Int × Int)
  /-- Whether an integral number in positional form ends in `.0`. -/
  fraction : Bool
  /-- Whether a positive exponent carries a plus sign. -/
  plus : Bool
  tie : Tie

namespace NumberLayout

/-- Never an exponent, and no fraction on integral numbers. -/
def plain : NumberLayout := ⟨none, false, false, .up⟩

/-- A fraction on integral numbers, and an exponent below `1e-4` and from `1e16` on. -/
def explicit : NumberLayout := ⟨some (-4, 15), true, false, .up⟩

/-- A fraction on integral numbers, and an exponent below `1e-5` and from `1e+16` on, with its sign.
-/
def interchange : NumberLayout := ⟨some (-5, 15), true, true, .toEven⟩

def isPositional (l : NumberLayout) (exponent : Int) : Bool :=
  match l.positional with
  | none => true
  | some (least, greatest) => least ≤ exponent && exponent ≤ greatest

def zeros (n : Nat) : String := String.ofList (List.replicate n '0')

def positionalText (l : NumberLayout) (d : Decimal) : String :=
  let digits := toString d.digits
  let point : Int := digits.length + d.exponent
  if 0 ≤ d.exponent then
    digits ++ zeros d.exponent.toNat ++ if l.fraction then ".0" else ""
  else if 0 < point then
    (digits.take point.toNat).toString ++ "." ++ (digits.drop point.toNat).toString
  else
    "0." ++ zeros (-point).toNat ++ digits

def exponentText (l : NumberLayout) (d : Decimal) : String :=
  let digits := toString d.digits
  let rest := (digits.drop 1).toString
  let exponent := (digits.length : Int) - 1 + d.exponent
  (digits.take 1).toString ++ (if rest.isEmpty then "" else "." ++ rest) ++ "e"
    ++ (if l.plus && 0 < exponent then "+" else "") ++ toString exponent

def magnitudeText (l : NumberLayout) (x : Double) : String :=
  if x.isZero then if l.fraction then "0.0" else "0"
  else if x.isFinite then
    let d := Decimal.shortest l.tie x.significand x.scale
    if l.isPositional ((toString d.digits).length - 1 + d.exponent) then l.positionalText d
    else l.exponentText d
  else "inf"

def text (l : NumberLayout) (x : Double) : String :=
  if x.isNaN then "NaN"
  else (if x.isNegative then "-" else "") ++ l.magnitudeText x

end NumberLayout

end DocumentStore
