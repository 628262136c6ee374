/-!
Sets of characters, given by ranges of code points.

The ranges ascend and do not touch, so a set is written in one way. A range may hold surrogates; no
character is one, so they are never found.
-/

namespace DocumentStore

/-- Ascending ranges of code points, both ends included. -/
structure CharSet where
  ranges : List (Nat × Nat)
deriving DecidableEq, Inhabited

namespace CharSet

def contains (s : CharSet) (c : Char) : Bool :=
  s.ranges.any fun (low, high) => low ≤ c.toNat && c.toNat ≤ high

def empty : CharSet := ⟨[]⟩

def single (c : Char) : CharSet := ⟨[(c.toNat, c.toNat)]⟩

def span (low high : Char) : CharSet := ⟨[(low.toNat, high.toNat)]⟩

/-- Puts a range between others, joined with those that it overlaps or touches. -/
def insertRange (low high : Nat) : List (Nat × Nat) → List (Nat × Nat)
  | [] => [(low, high)]
  | (first, last) :: rest =>
    if high + 1 < first then (low, high) :: (first, last) :: rest
    else if last + 1 < low then (first, last) :: insertRange low high rest
    else insertRange (min low first) (max high last) rest

def insertRanges (ranges : List (Nat × Nat)) (s : CharSet) : CharSet :=
  ⟨ranges.foldr (fun (low, high) rest => insertRange low high rest) s.ranges⟩

def union (s t : CharSet) : CharSet := insertRanges s.ranges t

def gaps (least : Nat) : List (Nat × Nat) → List (Nat × Nat)
  | [] => if least ≤ 0x10ffff then [(least, 0x10ffff)] else []
  | (low, high) :: rest =>
    if least < low then (least, low - 1) :: gaps (high + 1) rest else gaps (high + 1) rest

def complement (s : CharSet) : CharSet := ⟨gaps 0 s.ranges⟩

def inter (s t : CharSet) : CharSet := (s.complement.union t.complement).complement

def difference (s t : CharSet) : CharSet := s.inter t.complement

def symmetricDifference (s t : CharSet) : CharSet := (s.difference t).union (t.difference s)

def only? (s : CharSet) : Option Char :=
  match s.ranges with
  | [(low, high)] => if low = high then some (Char.ofNat low) else none
  | _ => none

def isAscii (s : CharSet) : Bool := s.ranges.all fun (_, high) => high < 0x80

end CharSet

end DocumentStore
