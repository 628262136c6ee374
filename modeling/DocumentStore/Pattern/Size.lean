import DocumentStore.Pattern.Node
import DocumentStore.Text.Utf8

/-!
How large patterns are.

A pattern stands for two automata that read bytes, one for each direction, in which every count is
written out. Their sizes are computed from the counts without writing anything out, so the size of a
pattern is known however large it is.
-/

namespace DocumentStore

namespace Pattern

inductive Direction where
  | forward
  | backward
deriving DecidableEq

def stateBytes : Nat := 32

/-- What a table of byte ranges takes for each range. -/
def rangeBytes : Nat := 8

/-- What a state takes for each state it goes on at without reading a byte. -/
def branchBytes : Nat := 4

def largest : Nat := 10 * 1024 * 1024

def total (sizes : List Nat) : Nat := sizes.foldl (· + ·) 0

/-! ## Sets -/

def sameStart (forms : List Utf8.Form) : List (List Utf8.Form) :=
  forms.splitBy fun a b => a.head? == b.head?

/-- The forms to tell apart at each state of a tree that reads them, for forms of at most `depth`
ranges. -/
def treeStates : Nat → List Utf8.Form → List (List Utf8.Form)
  | 0, _ => []
  | depth + 1, forms =>
    if forms.all (·.isEmpty) then []
    else forms :: (sameStart forms).flatMap fun same => treeStates depth (same.map List.tail)

/-- The size of a set. A single character is a state for each byte, and ASCII characters are one
table. Other sets are trees of their forms. Forward, states from which the same forms remain are
one; backward, what the forms begin with is shared, and each form is a branch of its own. -/
def setSize (direction : Direction) (s : CharSet) : Nat :=
  match s.only? with
  | some c => stateBytes * c.utf8Size
  | none =>
    if s.isAscii then 2 * stateBytes + rangeBytes * s.ranges.length
    else
      let states := treeStates 4 s.utf8
      match direction with
      | .forward =>
        let sizes := states.eraseDups.map fun forms =>
          stateBytes + rangeBytes * (sameStart forms).length
        stateBytes + total sizes
      | .backward =>
        let ranges := states.map fun forms => (sameStart forms).length
        stateBytes * (2 + total ranges) + branchBytes * s.utf8.length

/-! ## Choices between words -/

/-- The characters of a part that is nothing but characters, one at least. -/
def word? (node : PatternNode) : Option (List Char) :=
  if node = .empty then none else node.factors.mapM fun factor => factor.set?.bind CharSet.only?

/-- The words that go on, in runs between those that end here. Ends before all other words are one.
-/
def runsOfLonger (words : List (List UInt8)) : List (List (List UInt8)) :=
  let runs := (words.dropWhile (·.isEmpty)).foldr
    (fun word runs =>
      match word, runs with
      | [], runs => [] :: runs
      | word, run :: runs => (word :: run) :: runs
      | word, [] => [[word]])
    [[]]
  if words.head? = some [] then [] :: runs else runs

/-- The size of a tree that reads words of less than `depth` bytes. Where some word goes on, a state
chooses between the runs of longer words and the ends between them. A run needs a table if its words
start in several ways. -/
def treeSize : Nat → List (List UInt8) → Nat
  | 0, _ => 0
  | depth + 1, words =>
    if words.all (·.isEmpty) then 0
    else
      let runs := runsOfLonger words
      let sizes := runs.map fun run =>
        let starts := (run.filterMap List.head?).eraseDups
        let rests := starts.map fun start =>
          treeSize depth ((run.filter (·.head? == some start)).map List.tail)
        let ranges := if starts.length ≤ 1 then 0 else rangeBytes * starts.length
        (if run.isEmpty then 0 else branchBytes + stateBytes + ranges) + total rests
      stateBytes + branchBytes * (runs.length - 1) + total sizes

def wordsSize (direction : Direction) (words : List (List Char)) : Nat :=
  let bytes := words.map fun word => word.flatMap String.utf8EncodeChar
  let bytes := match direction with
    | .forward => bytes
    | .backward => bytes.map List.reverse
  stateBytes + treeSize ((bytes.map List.length).foldl max 0 + 1) bytes

/-! ## Patterns -/

/-- The size of a part. What lies in a choice, as `inChoice` says, adds its branch to the choice. -/
def nodeSize (direction : Direction) (inChoice : Bool) : PatternNode → Nat
  | .either a b =>
    let both := nodeSize direction true a + nodeSize direction true b
    if inChoice then both
    else
      match (a.branches ++ b.branches).mapM word? with
      | some words => wordsSize direction words
      | none => 2 * stateBytes + both
  | .empty | .anchor _ => branch + stateBytes
  | .set s => branch + setSize direction s
  | .seq a b => branch + nodeSize direction false a + nodeSize direction false b
  | .repeated a least most =>
    let size := nodeSize direction false a
    let choice := stateBytes + 2 * branchBytes
    branch + match least, most with
      | 0, none => if a.hasWidth then size + choice else size + 2 * choice + stateBytes
      | least, none => least * size + choice
      | 0, some 1 => size + choice + stateBytes
      | least, some most =>
        let required := if least = 0 then stateBytes else least * size
        if least = most then required
        else required + stateBytes + (most - least) * (choice + size)
  | .group a =>
    let marks := if direction = .forward then 2 * stateBytes else 0
    branch + marks + nodeSize direction false a
where
  branch : Nat := if inChoice then branchBytes else 0

/-- Whether a match is bound to the end of the text where the automaton starts. -/
def isBound (direction : Direction) : PatternNode → Bool
  | .anchor a =>
    match direction with
    | .forward => a = .textStart
    | .backward => a = .textEnd
  | .seq a b =>
    match direction with
    | .forward => isBound direction a || (a.isWidthless && isBound direction b)
    | .backward => isBound direction b || (b.isWidthless && isBound direction a)
  | .either a b => isBound direction a && isBound direction b
  | .repeated a least _ => least != 0 && isBound direction a
  | .group a => isBound direction a
  | .empty | .set _ => false

/-- The size of the automaton for one direction: a loop over the bytes before the match, unless the
match is bound, then the pattern as a group, and the end. -/
def automatonSize (direction : Direction) (root : PatternNode) : Nat :=
  let start :=
    if isBound direction root then stateBytes
    else 3 * stateBytes + rangeBytes + 2 * branchBytes
  start + nodeSize direction false (.group root) + stateBytes

def fits (root : PatternNode) : Bool :=
  automatonSize .forward root ≤ largest && automatonSize .backward root ≤ largest

end Pattern

end DocumentStore
