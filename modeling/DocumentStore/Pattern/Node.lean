import DocumentStore.Pattern.Anchor
import DocumentStore.Text.CharSet

/-!
Patterns as trees.

They are built by `sequence`, `oneOf` and `times`, which leave out what has no effect: empty parts,
sequences in sequences, choices in choices, choices between characters, and counts that say nothing.
What is matched stays the same, but `Pattern.Size` measures what is left.
-/

namespace DocumentStore

inductive PatternNode where
  | empty
  | set (s : CharSet)
  | anchor (a : Anchor)
  | seq (a b : PatternNode)
  | either (a b : PatternNode)
  /-- At least `least` times, and at most `most` times if there is a bound. -/
  | repeated (a : PatternNode) (least : Nat) (most : Option Nat)
  /-- A part whose place is remembered. -/
  | group (a : PatternNode)
deriving DecidableEq, Inhabited

namespace PatternNode

/-! ## Parts -/

def factors : PatternNode → List PatternNode
  | empty => []
  | seq a b => a.factors ++ b.factors
  | node => [node]

def branches : PatternNode → List PatternNode
  | either a b => a.branches ++ b.branches
  | node => [node]

def set? : PatternNode → Option CharSet
  | set s => some s
  | _ => none

def isCharacter : PatternNode → Bool
  | set s => s.only?.isSome
  | _ => false

def hasGroup : PatternNode → Bool
  | seq a b | either a b => a.hasGroup || b.hasGroup
  | repeated a _ _ => a.hasGroup
  | group _ => true
  | _ => false

/-- Whether no match has a character. -/
def isWidthless : PatternNode → Bool
  | empty | anchor _ => true
  | set _ => false
  | seq a b | either a b => a.isWidthless && b.isWidthless
  | repeated a _ _ | group a => a.isWidthless

/-- Whether every match has a character. -/
def hasWidth : PatternNode → Bool
  | empty | anchor _ => false
  | set _ => true
  | seq a b => a.hasWidth || b.hasWidth
  | either a b => a.hasWidth && b.hasWidth
  | repeated a least _ => least != 0 && a.hasWidth
  | group a => a.hasWidth

/-! ## Building -/

def sequence (nodes : List PatternNode) : PatternNode := chain (nodes.flatMap factors)
where
  chain : List PatternNode → PatternNode
    | [] => empty
    | [node] => node
    | node :: rest => seq node (chain rest)

/-- The set that the branches make up if all of them are characters, or all of them are sets of
several. -/
def setOfBranches? (nodes : List PatternNode) : Option CharSet :=
  if nodes.all isCharacter || nodes.all (!·.isCharacter) then
    (nodes.mapM set?).map fun sets => sets.foldr CharSet.union CharSet.empty
  else none

/-- A choice without a look at what the branches begin with. -/
def choice (nodes : List PatternNode) : PatternNode :=
  let nodes := nodes.flatMap branches
  match setOfBranches? nodes with
  | some s => set s
  | none => chain nodes
where
  chain : List PatternNode → PatternNode
    | [] => set .empty
    | [node] => node
    | node :: rest => either node (chain rest)

/-- The factors of a part, with neighbouring characters taken together. -/
def words (node : PatternNode) : List (List PatternNode) :=
  node.factors.splitBy fun a b => a.isCharacter && b.isCharacter

/-- What both lists begin with, as far as it holds no group. -/
def sharedStart : List (List PatternNode) → List (List PatternNode) → List (List PatternNode)
  | a :: as, b :: bs => if a = b && !a.any hasGroup then a :: sharedStart as bs else []
  | _, _ => []

/-- What all branches begin with. A branch of a single word shares nothing. -/
def sharedWords : List (List (List PatternNode)) → List (List PatternNode)
  | [] => []
  | first :: rest =>
    if (first :: rest).any (·.length < 2) then [] else rest.foldl sharedStart first

/-- A choice. What all branches begin with is said once. -/
def oneOf (nodes : List PatternNode) : PatternNode :=
  let nodes := nodes.flatMap branches
  let shared := sharedWords (nodes.map words)
  if (setOfBranches? nodes).isSome || shared.isEmpty then choice nodes
  else
    let rests := nodes.map fun node => sequence ((node.words.drop shared.length).flatten)
    sequence (shared.flatten ++ [choice rests])

/-- A part over and over. What has no width is there or not, and once is the part itself. -/
def times (a : PatternNode) (least : Nat) (most : Option Nat) : PatternNode :=
  let (least, most) :=
    if a.isWidthless then (min least 1, some (min (most.getD 1) 1)) else (least, most)
  if most = some 0 then empty
  else if least = 1 && most = some 1 then a
  else repeated a least most

end PatternNode

end DocumentStore
