import DocumentStore.Pattern.Node

/-!
Search for patterns.

Where a pattern can begin, given the goals where it may end, is computed from its last part to its
first. What is repeated is first described by its spans: for each place of the text, the lengths of
the matches that begin there. Each node is looked at once, however deep repetitions are nested.
-/

namespace DocumentStore

/-- A set of lengths for each place of a text, from the first place to the last. Bit `k` of a set
says whether length `k` is in it. -/
abbrev Spans := List Nat

namespace Spans

/-- A match of length zero everywhere. -/
def unit (s : Spans) : Spans := s.map fun _ => 1

def orElse (s t : Spans) : Spans := List.zipWith (· ||| ·) s t

/-- The lengths of a match of one of the given lengths and another one behind it. The first row has
the lengths at the place itself, the next row those one character on. -/
def onward (lengths : Nat) : Spans → Nat
  | [] => 0
  | row :: rows =>
    if lengths = 0 then 0
    else (if lengths % 2 = 1 then row else 0) ||| 2 * onward (lengths / 2) rows

def andThen : Spans → Spans → Spans
  | lengths :: s, row :: rows => onward lengths (row :: rows) :: andThen s rows
  | _, _ => []

/-- Any number of matches, one after another. A match of length zero leads nowhere new. -/
def many : Spans → Spans
  | [] => []
  | lengths :: s =>
    let rows := many s
    (1 ||| 2 * onward (lengths / 2) rows) :: rows

/-- A number of matches, one after another, by halving the number. -/
def power (s : Spans) (n : Nat) : Spans :=
  if n = 0 then s.unit
  else
    let half := s.power (n / 2)
    if n % 2 = 0 then half.andThen half else s.andThen (half.andThen half)
termination_by n

/-! ## Goals -/

/-- Whether one of the lengths leads to a goal, where the first goal is the place itself. -/
def leads (lengths : Nat) : List Bool → Bool
  | [] => false
  | goal :: goals =>
    if lengths = 0 then false else lengths % 2 = 1 && goal || leads (lengths / 2) goals

def origins : Spans → List Bool → List Bool
  | lengths :: s, goal :: goals => leads lengths (goal :: goals) :: origins s goals
  | _, _ => []

def manyOrigins : Spans → List Bool → List Bool
  | lengths :: s, goal :: goals =>
    let rest := manyOrigins s goals
    (goal || leads (lengths / 2) rest) :: rest
  | _, _ => []

/-- The places from which a number of steps lead to a goal. A step that changes nothing is the last.
-/
def back (step : List Bool → List Bool) : Nat → List Bool → List Bool
  | 0, goals => goals
  | n + 1, goals =>
    let before := step goals
    if before = goals then goals else back step n before

end Spans

namespace PatternNode

def spans (places : List Place) : PatternNode → Spans
  | empty => places.map fun _ => 1
  | set s => places.map fun p => if p.after.any s.contains then 2 else 0
  | anchor a => places.map fun p => if a.holds p then 1 else 0
  | seq a b => (a.spans places).andThen (b.spans places)
  | either a b => (a.spans places).orElse (b.spans places)
  | repeated a least most =>
    let s := a.spans places
    let optional := match most with
      | some most => (s.orElse s.unit).power (most - least)
      | none => s.many
    (s.power least).andThen optional
  | group a => a.spans places

def starts (places : List Place) : PatternNode → List Bool → List Bool
  | seq a b, goals => a.starts places (b.starts places goals)
  | either a b, goals => List.zipWith or (a.starts places goals) (b.starts places goals)
  | repeated a least most, goals =>
    let s := a.spans places
    let goals := match most with
      | some most => Spans.back (s.orElse s.unit).origins (most - least) goals
      | none => s.manyOrigins goals
    Spans.back s.origins least goals
  | group a, goals => a.starts places goals
  | node, goals => (node.spans places).origins goals

def occursIn (node : PatternNode) (text : String) : Bool :=
  let places := Place.all none text.toList
  (node.starts places (places.map fun _ => true)).any id

end PatternNode

end DocumentStore
