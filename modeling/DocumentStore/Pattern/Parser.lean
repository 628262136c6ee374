import DocumentStore.Pattern.NamedClass
import DocumentStore.Pattern.Size
import DocumentStore.Pattern.Spans
import DocumentStore.Text.Blank
import DocumentStore.Text.Folding
import DocumentStore.Text.Hex

/-!
A reader of patterns.

Literals, `.`, `^`, `$`, classes between brackets, the classes `\d`, `\w`, `\s` and their
complements, the edges of words, escapes, groups, alternatives, repetitions and the flags `i`, `m`,
`s`, `x`, `R`, `U` and `u`. There is no looking around and no reference back. Groups are kept on a
stack, so a pattern is read in one pass. A pattern that is nested too deeply or too large is none.

Left out are the classes of characters by their properties, `\p` and `\P`, and the patterns of bytes
that are written behind the flag `u` switched off: a text with one of these is refused.
-/

namespace DocumentStore

namespace Pattern

structure Flags where
  ignoreCase : Bool := false
  /-- `^` and `$` also stand at the ends of lines. -/
  lines : Bool := false
  /-- `.` also stands for a line break. -/
  dotAll : Bool := false
  /-- Blanks and comments are skipped. -/
  verbose : Bool := false
  /-- A carriage return ends a line too. -/
  returns : Bool := false

def Flags.skip (flags : Flags) : List Char → List Char
  | [] => []
  | c :: rest =>
    if !flags.verbose then c :: rest
    else if Text.isBlank c then flags.skip rest
    else if c = '#' then comment rest
    else c :: rest
where
  comment : List Char → List Char
    | [] => []
    | c :: rest => if c = '\n' then flags.skip rest else comment rest

def literal (flags : Flags) (c : Char) : CharSet :=
  if flags.ignoreCase then (CharSet.single c).folded else .single c

/-! ## Counts and escapes -/

/-- A decimal number below `2 ^ 32`, with the blanks around it. -/
def readCount (cs : List Char) : Option (Nat × List Char) :=
  let cs := cs.dropWhile Text.isBlank
  let digits := cs.takeWhile Char.isDigit
  let n := Nat.ofDigitChars 10 digits 0
  if digits.isEmpty || UInt32.size ≤ n then none
  else some (n, (cs.dropWhile Char.isDigit).dropWhile Text.isBlank)

def readBounds (cs : List Char) : Option ((Nat × Option Nat) × List Char) := do
  let (least, cs) ← readCount cs
  match cs with
  | '\x7d' :: rest => return ((least, some least), rest)
  | ',' :: rest =>
    match rest.dropWhile Text.isBlank with
    | '\x7d' :: rest => return ((least, none), rest)
    | _ =>
      let (most, rest) ← readCount rest
      match rest with
      | '\x7d' :: rest => if least ≤ most then return ((least, some most), rest) else none
      | _ => none
  | _ => none

def charOfHex (digits : List Char) : Option Char := do
  let code ← Text.ofHex? digits
  if !digits.isEmpty && (code < 0xd800 || (0xdfff < code && code < 0x110000)) then
    some (Char.ofNat code)
  else none

/-- A code in hexadecimal: of a fixed number of digits, or of any number between braces. -/
def readHex (digits : Nat) : List Char → Option (Char × List Char)
  | '\x7b' :: rest => do
    let inner := rest.takeWhile (· != '\x7d')
    match rest.drop inner.length with
    | _ :: rest => return (← charOfHex inner, rest)
    | [] => none
  | cs =>
    if cs.length < digits then none else do return (← charOfHex (cs.take digits), cs.drop digits)

inductive Escape where
  | char (c : Char)
  | set (s : CharSet)
  | anchor (a : Anchor)

/-- ASCII characters other than letters and digits may be escaped to mean themselves. -/
def isEscapable (c : Char) : Bool := c.toNat < 0x80 && !c.isAlphanum

def namedEdge? : String → Option Anchor
  | "start" => some .wordStart
  | "end" => some .wordEnd
  | "start-half" => some .behindNoWord
  | "end-half" => some .beforeNoWord
  | _ => none

def isEdgeNameChar (c : Char) : Bool := c.isAlpha || c == '-'

def readEdgeName (flags : Flags) : Nat → List Char → List Char × List Char
  | 0, cs => ([], cs)
  | fuel + 1, cs =>
    match flags.skip cs with
    | c :: rest =>
      if isEdgeNameChar c then
        let (name, rest) := readEdgeName flags fuel rest
        (c :: name, rest)
      else ([], c :: rest)
    | [] => ([], [])

/-- The edge of a word, behind `\b`. Braces around a name say which edge; others are a count. -/
def readWordEdge (flags : Flags) : List Char → Option (Escape × List Char)
  | '\x7b' :: rest =>
    match flags.skip rest, readEdgeName flags rest.length rest with
    | [], _ => none
    | _, ([], _) => some (.anchor .wordEdge, '\x7b' :: rest)
    | _, (name, '\x7d' :: rest) => (namedEdge? (String.ofList name)).map (.anchor ·, rest)
    | _, _ => none
  | rest => some (.anchor .wordEdge, rest)

def readEscape (flags : Flags) : List Char → Option (Escape × List Char)
  | [] => none
  | c :: rest =>
    match c with
    | 'd' => some (.set Text.digitChars, rest)
    | 'D' => some (.set Text.digitChars.complement, rest)
    | 'w' => some (.set Text.wordChars, rest)
    | 'W' => some (.set Text.wordChars.complement, rest)
    | 's' => some (.set Text.blankChars, rest)
    | 'S' => some (.set Text.blankChars.complement, rest)
    | 'b' => readWordEdge flags rest
    | 'B' => some (.anchor .noWordEdge, rest)
    | '<' => some (.anchor .wordStart, rest)
    | '>' => some (.anchor .wordEnd, rest)
    | 'A' => some (.anchor .textStart, rest)
    | 'z' => some (.anchor .textEnd, rest)
    | 'a' => some (.char '\x07', rest)
    | 'f' => some (.char '\x0c', rest)
    | 'n' => some (.char '\n', rest)
    | 'r' => some (.char '\r', rest)
    | 't' => some (.char '\t', rest)
    | 'v' => some (.char '\x0b', rest)
    | 'x' => (readHex 2 rest).map fun (c, rest) => (.char c, rest)
    | 'u' => (readHex 4 rest).map fun (c, rest) => (.char c, rest)
    | 'U' => (readHex 8 rest).map fun (c, rest) => (.char c, rest)
    | c => if isEscapable c then some (.char c, rest) else none

/-! ## Classes -/

/-- What is written between brackets: the characters, how many items it has, and how deep the
deepest of them is nested. -/
structure ClassBody where
  set : CharSet := .empty
  items : Nat := 0
  nesting : Nat := 0

namespace ClassBody

def add (body : ClassBody) (s : CharSet) (nesting : Nat) : ClassBody :=
  ⟨s.union body.set, body.items + 1, max body.nesting nesting⟩

/-- Several items are one level. -/
def depth (body : ClassBody) : Nat := if body.items ≤ 1 then body.nesting else body.nesting + 1

def fold (flags : Flags) (body : ClassBody) : CharSet :=
  if flags.ignoreCase then body.set.folded else body.set

end ClassBody

def readItem (flags : Flags) : List Char → Option ((Char ⊕ CharSet) × List Char)
  | [] => none
  | '\\' :: rest => do
    match ← readEscape flags rest with
    | (.char c, rest) => return (.inl c, rest)
    | (.set s, rest) => return (.inr s, rest)
    | (.anchor _, _) => none
  | c :: rest => some (.inl c, rest)

def itemSet : Char ⊕ CharSet → CharSet
  | .inl c => .single c
  | .inr s => s

/-- An item or a range of a class. A hyphen before a closing bracket or another hyphen is no range.
-/
def readRange (flags : Flags) (cs : List Char) : Option (CharSet × List Char) := do
  let (first, rest) ← readItem flags cs
  match flags.skip rest with
  | [] => none
  | '-' :: behind =>
    match flags.skip behind with
    | [] => none
    | ']' :: _ | '-' :: _ => return (itemSet first, '-' :: behind)
    | behind =>
      let (last, rest) ← readItem flags behind
      match first, last with
      | .inl low, .inl high => if low ≤ high then return (.span low high, rest) else none
      | _, _ => none
  | rest => return (itemSet first, rest)

def readNamedClass : List Char → Option (CharSet × List Char)
  | ':' :: rest => do
    let (inverted, rest) := match rest with
      | '^' :: rest => (true, rest)
      | rest => (false, rest)
    let name := rest.takeWhile (· != ':')
    match rest.drop name.length with
    | ':' :: ']' :: rest =>
      let s ← CharSet.named? (String.ofList name)
      return (if inverted then s.complement else s, rest)
    | _ => none
  | _ => none

inductive ClassOperator where
  | inter
  | difference
  | symmetricDifference

def ClassOperator.apply : ClassOperator → CharSet → CharSet → CharSet
  | inter => .inter
  | difference => .difference
  | symmetricDifference => .symmetricDifference

/-- The body so far, joined with what stood before the last operator: one item, a level deeper. -/
def joinPending (flags : Flags) (pending : Option (ClassOperator × ClassBody)) (body : ClassBody) :
    ClassBody :=
  match pending with
  | none => body
  | some (op, before) =>
    ⟨op.apply (before.fold flags) (body.fold flags), 1, max before.depth body.depth + 1⟩

def readHyphens (flags : Flags) : Nat → ClassBody → List Char → ClassBody × List Char
  | fuel + 1, body, '-' :: rest =>
    readHyphens flags fuel (body.add (.single '-') 0) (flags.skip rest)
  | _, body, cs => (body, cs)

mutual

/-- A class behind its opening bracket, and its depth. Hyphens and a closing bracket that come first
are literal. -/
def readClass (flags : Flags) : Nat → List Char → Option ((CharSet × Nat) × List Char)
  | 0, _ => none
  | fuel + 1, cs =>
    let (inverted, cs) := match flags.skip cs with
      | '^' :: rest => (true, flags.skip rest)
      | cs => (false, cs)
    let (first, rest) := match readHyphens flags cs.length {} cs with
      | (⟨_, 0, _⟩, ']' :: rest) => (ClassBody.add {} (.single ']') 0, rest)
      | read => read
    do
      let (body, rest) ← readItems flags fuel none first rest
      let s := body.fold flags
      return ((if inverted then s.complement else s, body.depth + 1), rest)

def readItems (flags : Flags) :
    Nat → Option (ClassOperator × ClassBody) → ClassBody → List Char →
      Option (ClassBody × List Char)
  | 0, _, _, _ => none
  | fuel + 1, pending, body, cs =>
    match flags.skip cs with
    | [] => none
    | ']' :: rest => some (joinPending flags pending body, rest)
    | '[' :: rest =>
      match readNamedClass rest with
      | some (named, rest) => readItems flags fuel pending (body.add named 0) rest
      | none => do
        let ((inner, depth), rest) ← readClass flags fuel rest
        readItems flags fuel pending (body.add inner depth) rest
    | '&' :: '&' :: rest =>
      readItems flags fuel (some (.inter, joinPending flags pending body)) {} rest
    | '-' :: '-' :: rest =>
      readItems flags fuel (some (.difference, joinPending flags pending body)) {} rest
    | '~' :: '~' :: rest =>
      readItems flags fuel (some (.symmetricDifference, joinPending flags pending body)) {} rest
    | cs => do
      let (item, rest) ← readRange flags cs
      readItems flags fuel pending (body.add item 0) rest

end

/-! ## Groups -/

inductive GroupHead where
  | named (name : String)
  | scoped (flags : Flags)
  /-- Flags for the rest of the group around. -/
  | setFlags (flags : Flags)

def Flags.set (flags : Flags) (value : Bool) : Char → Option Flags
  | 'i' => some { flags with ignoreCase := value }
  | 'm' => some { flags with lines := value }
  | 's' => some { flags with dotAll := value }
  | 'x' => some { flags with verbose := value }
  | 'R' => some { flags with returns := value }
  -- what a repetition prefers does not change whether there is a match
  | 'U' => some flags
  | 'u' => if value then some flags else none
  | _ => none

def Flags.lineStart (flags : Flags) : Anchor :=
  if !flags.lines then .textStart else if flags.returns then .returnStart else .lineStart

def Flags.lineEnd (flags : Flags) : Anchor :=
  if !flags.lines then .textEnd else if flags.returns then .returnEnd else .lineEnd

/-- What `.` does not stand for. -/
def Flags.lineBreaks (flags : Flags) : CharSet :=
  if flags.dotAll then .empty
  else if flags.returns then (CharSet.single '\n').union (.single '\r')
  else .single '\n'

/-- Flags up to the colon or the parenthesis. No flag comes twice, and a minus sign, of which there
is one at most, has a flag behind it. -/
def readFlags (seen : List Char) (negative : Bool) (flags : Flags) :
    List Char → Option (GroupHead × List Char)
  | [] => none
  | ':' :: rest => if seen.head? = some '-' then none else some (.scoped flags, rest)
  | ')' :: rest =>
    if seen.isEmpty || seen.head? = some '-' then none else some (.setFlags flags, rest)
  | '-' :: rest => if negative then none else readFlags ('-' :: seen) true flags rest
  | c :: rest =>
    if seen.contains c then none
    else
      match flags.set (!negative) c with
      | some flags => readFlags (c :: seen) negative flags rest
      | none => none

def isGroupName : List Char → Bool
  | [] => false
  | c :: rest =>
    let isLetter (c : Char) : Bool := c == '_' || (Text.isWord c && !Text.isDecimalDigit c)
    isLetter c && rest.all fun c => Text.isWord c || c == '.' || c == '[' || c == ']'

def readGroupName (cs : List Char) : Option (GroupHead × List Char) :=
  let name := cs.takeWhile (· != '>')
  match cs.drop name.length with
  | _ :: rest => if isGroupName name then some (.named (String.ofList name), rest) else none
  | [] => none

def readGroupHead (flags : Flags) : List Char → Option (GroupHead × List Char)
  | '=' :: _ | '!' :: _ | '<' :: '=' :: _ | '<' :: '!' :: _ => none
  | 'P' :: '<' :: rest | '<' :: rest => readGroupName rest
  | cs => readFlags [] false flags cs

/-! ## The whole pattern -/

/-- The deepest nesting of groups, repetitions, sequences, choices and classes. -/
def deepest : Nat := 250

structure Piece where
  node : PatternNode := .empty
  depth : Nat := 0

/-- Several parts are one level; one part is itself. -/
def Piece.join (build : List PatternNode → PatternNode) : List Piece → Piece
  | [] => {}
  | [piece] => piece
  | pieces => ⟨build (pieces.map Piece.node), (pieces.map Piece.depth).foldl max 0 + 1⟩

/-- A group that is being read: whether its place is remembered, its finished alternatives and the
pieces of the current one, both last first. -/
structure OpenGroup where
  flags : Flags
  remembered : Bool := false
  branches : List Piece := []
  pieces : List Piece := []

namespace OpenGroup

def push (g : OpenGroup) (piece : Piece) : OpenGroup := { g with pieces := piece :: g.pieces }

def currentBranch (g : OpenGroup) : Piece := .join PatternNode.sequence g.pieces.reverse

def nextBranch (g : OpenGroup) : OpenGroup :=
  { g with branches := g.currentBranch :: g.branches, pieces := [] }

def body (g : OpenGroup) : Piece := .join PatternNode.oneOf g.nextBranch.branches.reverse

def close (g : OpenGroup) : Piece :=
  let body := g.body
  ⟨if g.remembered then .group body.node else body.node, body.depth + 1⟩

end OpenGroup

/-- The state of the reader: the group it is in, the groups around that one, the names in use, and
whether the last piece can be repeated. -/
structure Reader where
  group : OpenGroup
  around : List OpenGroup := []
  names : List String := []
  repeatable : Bool := false

namespace Reader

def push (r : Reader) (node : PatternNode) (depth : Nat) : Reader :=
  { r with group := r.group.push ⟨node, depth⟩, repeatable := true }

def openGroup (r : Reader) (flags : Flags) (remembered : Bool) : Reader :=
  { r with
    group := { flags := flags, remembered := remembered }
    around := r.group :: r.around
    repeatable := false }

/-- The reader behind the head of a group. Flags for the rest of a group are a piece that matches
nothing and cannot be repeated. -/
def enter (r : Reader) : GroupHead → Option Reader
  | .named name =>
    if r.names.contains name then none
    else some { r.openGroup r.group.flags true with names := name :: r.names }
  | .scoped flags => some (r.openGroup flags false)
  | .setFlags flags =>
    some { r with group := { r.group.push {} with flags := flags }, repeatable := false }

def closeGroup (r : Reader) : Option Reader :=
  match r.around with
  | [] => none
  | outer :: around =>
    some { r with group := outer.push r.group.close, around := around, repeatable := true }

def nextBranch (r : Reader) : Reader := { r with group := r.group.nextBranch, repeatable := false }

def repeatLast (r : Reader) (least : Nat) (most : Option Nat) : Option Reader :=
  match r.repeatable, r.group.pieces with
  | true, piece :: pieces =>
    let piece := ⟨piece.node.times least most, piece.depth + 1⟩
    some { r with group := { r.group with pieces := piece :: pieces } }
  | _, _ => none

/-- A repetition may be followed by a question mark, which does not change what is matched. -/
def skipLazy (flags : Flags) (cs : List Char) : List Char :=
  match flags.skip cs with
  | '?' :: rest => rest
  | cs => cs

def step (r : Reader) (c : Char) (rest : List Char) : Option (Reader × List Char) :=
  let flags := r.group.flags
  match c with
  | '(' =>
    match flags.skip rest with
    | '?' :: rest => do
      let (head, rest) ← readGroupHead flags rest
      return (← r.enter head, rest)
    | rest => some (r.openGroup flags true, rest)
  | ')' => r.closeGroup.map (·, rest)
  | '|' => some (r.nextBranch, rest)
  | '*' => (r.repeatLast 0 none).map (·, skipLazy flags rest)
  | '+' => (r.repeatLast 1 none).map (·, skipLazy flags rest)
  | '?' => (r.repeatLast 0 (some 1)).map (·, skipLazy flags rest)
  | '\x7b' => do
    let ((least, most), rest) ← readBounds rest
    return (← r.repeatLast least most, skipLazy flags rest)
  | '[' => do
    let ((s, depth), rest) ← readClass flags (2 * rest.length + 2) rest
    return (r.push (.set s) depth, rest)
  | '.' => some (r.push (.set flags.lineBreaks.complement) 0, rest)
  | '^' => some (r.push (.anchor flags.lineStart) 0, rest)
  | '$' => some (r.push (.anchor flags.lineEnd) 0, rest)
  | '\\' => do
    match ← readEscape flags rest with
    | (.char c, rest) => return (r.push (.set (literal flags c)) 0, rest)
    | (.set s, rest) => return (r.push (.set s) 0, rest)
    | (.anchor a, rest) => return (r.push (.anchor a) 0, rest)
  | c => some (r.push (.set (literal flags c)) 0, rest)

/-- Reads to the end of the pattern, where no group may be open. Each step consumes a character. -/
def run : Nat → Reader → List Char → Option Piece
  | 0, _, _ => none
  | fuel + 1, r, cs =>
    match r.group.flags.skip cs with
    | [] => if r.around.isEmpty then some r.group.body else none
    | c :: rest => do
      let (r, rest) ← r.step c rest
      run fuel r rest

end Reader

def read? (source : String) : Option (String → Bool) :=
  match Reader.run (source.length + 1) { group := { flags := {} } } source.toList with
  | some ⟨root, depth⟩ => if depth ≤ deepest && fits root then some root.occursIn else none
  | none => none

end Pattern

end DocumentStore
