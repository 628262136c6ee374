import DocumentStore.Double.Layout
import DocumentStore.Double.Rounding
import DocumentStore.Serial.Json
import DocumentStore.Text.Quoted

/-!
The format of JSON texts without blanks, and the reader that goes with it.

Numbers without a fraction or an exponent that fit 64 bits stay integers; all others are doubles. A
text is nested at most 127 deep.
-/

namespace DocumentStore

namespace Json

/-! ## Writing -/

def escapeChar (c : Char) : String :=
  match c with
  | '"' => "\\\""
  | '\\' => "\\\\"
  | '\n' => "\\n"
  | '\r' => "\\r"
  | '\t' => "\\t"
  | '\x08' => "\\b"
  | '\x0c' => "\\f"
  | c => if c.toNat < 0x20 then "\\u00" ++ Text.hexByte (UInt8.ofNat c.toNat) else c.toString

def quoted (s : String) : String := "\"" ++ String.join (s.toList.map escapeChar) ++ "\""

mutual

/-- The text without blanks. A number that is not finite is written as null. -/
def text : Json → String
  | null => "null"
  | bool b => toString b
  | integer n => toString n
  | double x => if x.isFinite then NumberLayout.interchange.text x else "null"
  | string s => quoted s
  | array items => "[" ++ ",".intercalate (itemTexts items) ++ "]"
  | object fields => "\x7b" ++ ",".intercalate (fieldTexts fields) ++ "\x7d"

def itemTexts : List Json → List String
  | [] => []
  | j :: rest => j.text :: itemTexts rest

def fieldTexts : List (String × Json) → List String
  | [] => []
  | (name, j) :: rest => (quoted name ++ ":" ++ j.text) :: fieldTexts rest

end

/-! ## Reading numbers -/

structure Scaled where
  significand : Nat
  exponent : Int

/-- Takes in the digits of a number as long as they fit 64 bits. The digits behind the first that
does not fit are dropped, and the scale is set right for them if they stand before the point. -/
def Scaled.addDigits (s : Scaled) (fraction : Bool) : List Char → Scaled
  | [] => s
  | c :: rest =>
    let next := 10 * s.significand + (c.toNat - '0'.toNat)
    if UInt64.size ≤ next then
      if fraction then s else { s with exponent := s.exponent + (rest.length + 1 : Nat) }
    else
      { significand := next, exponent := if fraction then s.exponent - 1 else s.exponent : Scaled
        }.addDigits fraction rest

/-- The greatest power of ten by which a significand is scaled in one step. -/
def maxStep : Nat := 308

def tenTo (n : Nat) : Double := .ofRatio false (Nat.pow 10 n) 1

/-- The double nearest to a significand, scaled down by steps, each of them rounded. The third step
reaches zero. -/
def scaleDown : (steps : Nat) → Double → Nat → Double
  | 0, _, _ => .zero
  | steps + 1, x, exponent =>
    if exponent ≤ maxStep then x.div (tenTo exponent)
    else scaleDown steps (x.div (tenTo maxStep)) (exponent - maxStep)

/-- The absolute value of a decimal number; none if it is beyond the largest double. -/
def Scaled.toDouble? (s : Scaled) : Option Double :=
  let x := Double.ofInt s.significand
  if 0 ≤ s.exponent then
    if s.exponent ≤ maxStep then
      let y := x.mul (tenTo s.exponent.toNat)
      if y.isFinite then some y else none
    else if x.isZero then some x else none
  else some (scaleDown 4 x (-s.exponent).toNat)

def spanDigits (cs : List Char) : List Char × List Char :=
  (cs.takeWhile Char.isDigit, cs.dropWhile Char.isDigit)

/-- The exponent of a number, if there is one; its digits must not be missing. -/
def readExponent (cs : List Char) : Option (Option Int × List Char) :=
  match cs with
  | 'e' :: rest | 'E' :: rest =>
    let (negative, rest) := match rest with
      | '+' :: rest => (false, rest)
      | '-' :: rest => (true, rest)
      | rest => (false, rest)
    let (digits, rest) := spanDigits rest
    let n : Int := Nat.ofDigitChars 10 digits 0
    if digits.isEmpty then none else some (some (if negative then -n else n), rest)
  | _ => some (none, cs)

def readFraction (cs : List Char) : Option (Option (List Char) × List Char) :=
  match cs with
  | '.' :: rest =>
    let (digits, rest) := spanDigits rest
    if digits.isEmpty then none else some (some digits, rest)
  | _ => some (none, cs)

def negate (x : Double) : Double := .ofMagnitude true x.magnitude

/-- A number without its sign. Its integer part has no leading zero. -/
def readNumber (negative : Bool) (cs : List Char) : Option (Json × List Char) := do
  let (digits, rest) := spanDigits cs
  if digits.isEmpty || (digits.head? = some '0' && digits.length ≠ 1) then none
  let (fraction, rest) ← readFraction rest
  let (exponent, rest) ← readExponent rest
  let n : Nat := Nat.ofDigitChars 10 digits 0
  let scaled := ((Scaled.mk 0 0).addDigits false digits).addDigits true (fraction.getD [])
  let isInteger := fraction.isNone && exponent.isNone &&
    if negative then n ≠ 0 && Int64.minValue.toInt ≤ -(n : Int) else n < UInt64.size
  if isInteger then return (.integer (if negative then -n else n), rest)
  else
    let x ← { scaled with exponent := scaled.exponent + exponent.getD 0 }.toDouble?
    return (.double (if negative then negate x else x), rest)

/-! ## Reading strings -/

def unescape : Char → Option Char
  | '"' => some '"'
  | '\\' => some '\\'
  | '/' => some '/'
  | 'b' => some '\x08'
  | 'f' => some '\x0c'
  | 'n' => some '\n'
  | 'r' => some '\r'
  | 't' => some '\t'
  | _ => none

/-- The characters of a string behind its opening quote, and the rest behind the closing one. Codes
above `ffff` are written as two surrogates, and a surrogate never stands alone. -/
def readString : List Char → Option (List Char × List Char)
  | '"' :: rest => some ([], rest)
  | '\\' :: 'u' :: a :: b :: c :: d :: rest => do
    let code ← Text.ofHex? [a, b, c, d]
    if 0xd800 ≤ code && code < 0xdc00 then
      match rest with
      | '\\' :: 'u' :: a :: b :: c :: d :: rest =>
        let low ← Text.ofHex? [a, b, c, d]
        if 0xdc00 ≤ low && low < 0xe000 then
          let (chars, rest) ← readString rest
          return (Char.ofNat (0x10000 + (code - 0xd800) * 1024 + (low - 0xdc00)) :: chars, rest)
        else none
      | _ => none
    else if 0xdc00 ≤ code && code < 0xe000 then none
    else
      let (chars, rest) ← readString rest
      return (Char.ofNat code :: chars, rest)
  | '\\' :: c :: rest => do
    let c ← unescape c
    let (chars, rest) ← readString rest
    return (c :: chars, rest)
  | c :: rest => do
    if c.toNat < 0x20 || c = '\\' then none
    let (chars, rest) ← readString rest
    return (c :: chars, rest)
  | [] => none

/-! ## Reading values -/

def isBlank (c : Char) : Bool := c == ' ' || c == '\n' || c == '\r' || c == '\t'

def skipBlanks (cs : List Char) : List Char := cs.dropWhile isBlank

mutual

/-- A value at the start of a text. `depth` bounds the nesting. -/
def readValue : (fuel depth : Nat) → List Char → Option (Json × List Char)
  | 0, _, _ => none
  | fuel + 1, depth, cs =>
    match skipBlanks cs with
    | 'n' :: 'u' :: 'l' :: 'l' :: rest => some (.null, rest)
    | 't' :: 'r' :: 'u' :: 'e' :: rest => some (.bool true, rest)
    | 'f' :: 'a' :: 'l' :: 's' :: 'e' :: rest => some (.bool false, rest)
    | '"' :: rest => do
      let (chars, rest) ← readString rest
      return (.string (String.ofList chars), rest)
    | '[' :: rest =>
      if depth ≤ 1 then none
      else
        match skipBlanks rest with
        | ']' :: rest => some (.array [], rest)
        | rest => do
          let (items, rest) ← readItems fuel (depth - 1) rest
          return (.array items, rest)
    | '\x7b' :: rest =>
      if depth ≤ 1 then none
      else
        match skipBlanks rest with
        | '\x7d' :: rest => some (.object [], rest)
        | rest => do
          let (fields, rest) ← readFields fuel (depth - 1) rest
          return (.object fields, rest)
    | '-' :: rest => readNumber true rest
    | cs => readNumber false cs

/-- The items of an array, of which there is one at least, and its closing bracket. -/
def readItems : (fuel depth : Nat) → List Char → Option (List Json × List Char)
  | 0, _, _ => none
  | fuel + 1, depth, cs => do
    let (item, rest) ← readValue fuel depth cs
    match skipBlanks rest with
    | ']' :: rest => return ([item], rest)
    | ',' :: rest =>
      let (items, rest) ← readItems fuel depth rest
      return (item :: items, rest)
    | _ => none

def readFields : (fuel depth : Nat) → List Char → Option (List (String × Json) × List Char)
  | 0, _, _ => none
  | fuel + 1, depth, cs =>
    match skipBlanks cs with
    | '"' :: rest => do
      let (name, rest) ← readString rest
      match skipBlanks rest with
      | ':' :: rest =>
        let (value, rest) ← readValue fuel depth rest
        let field := (String.ofList name, value)
        match skipBlanks rest with
        | '\x7d' :: rest => return ([field], rest)
        | ',' :: rest =>
          let (fields, rest) ← readFields fuel depth rest
          return (field :: fields, rest)
        | _ => none
      | _ => none
    | _ => none

end

/-- The value that a text spells, with nothing behind it but blanks. -/
def parse? (s : String) : Option Json := do
  let (j, rest) ← readValue (s.length + 1) 128 s.toList
  if (skipBlanks rest).isEmpty then some j else none

end Json

def JsonFormat.compact : JsonFormat := ⟨Json.text, Json.parse?⟩

end DocumentStore
