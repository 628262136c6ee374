import DocumentStore.Text.Word

/-!
Places in texts, and what patterns can ask of them.
-/

namespace DocumentStore

/-- A place in a text: the characters around it, if any. -/
structure Place where
  before : Option Char
  after : Option Char

def Place.all (before : Option Char) : List Char → List Place
  | [] => [⟨before, none⟩]
  | c :: rest => ⟨before, some c⟩ :: all (some c) rest

inductive Anchor where
  | textStart
  | textEnd
  | lineStart
  | lineEnd
  /-- As `lineStart`, where a carriage return, alone or before a line feed, ends a line too. -/
  | returnStart
  /-- As `lineEnd`, where a carriage return, alone or before a line feed, ends a line too. -/
  | returnEnd
  | wordEdge
  | noWordEdge
  | wordStart
  | wordEnd
  /-- Behind no word, whatever follows. -/
  | behindNoWord
  /-- Before no word, whatever is behind. -/
  | beforeNoWord
deriving DecidableEq, Inhabited

def Anchor.holds (a : Anchor) (p : Place) : Bool :=
  let before := p.before.any Text.isWord
  let after := p.after.any Text.isWord
  match a with
  | textStart => p.before.isNone
  | textEnd => p.after.isNone
  | lineStart => p.before.all (· == '\n')
  | lineEnd => p.after.all (· == '\n')
  | returnStart =>
    p.before.all (· == '\n') || p.before == some '\r' && p.after != some '\n'
  | returnEnd => p.after.all (· == '\r') || p.after == some '\n' && p.before != some '\r'
  | wordEdge => before != after
  | noWordEdge => before == after
  | wordStart => !before && after
  | wordEnd => before && !after
  | behindNoWord => !before
  | beforeNoWord => !after

end DocumentStore
