import DocumentStore.Program

/-!
Paged scans: the entries under a key, asked of the store page by page as they are used up.
-/

namespace DocumentStore

/-- A scan in progress: the entries of the current page that are left, and the last key handed out.
-/
structure Scan where
  base : Key
  pageSize : Nat
  page : List Entry
  last : Option Key
  exhausted : Bool
deriving Inhabited

namespace Scan

def start (base : Key) (pageSize : Nat) : Scan := ⟨base, pageSize, [], none, false⟩

def begin (base : Key) (pageSize : Nat) : Action Scan := do
  if pageSize = 0 then throw .zeroPage
  if ← Action.isClosed then throw .listOnClosedStore
  return start base pageSize

def pop (s : Scan) : Option Entry × Scan :=
  match s.page with
  | [] => (none, s)
  | e :: rest => (some e, { s with page := rest, last := some e.key })

/-- The scan with a page that was asked for. A page that is not full is the last. -/
def refill (s : Scan) (page : List Entry) : Scan :=
  { s with page := page, exhausted := page.length < s.pageSize }

/-- The next entry, after one request if the page is used up. An error ends the scan. -/
def next (s : Scan) : Program (Option (Except Error Entry) × Scan) :=
  if s.page.isEmpty && !s.exhausted then do
    match ← (Action.scan s.base s.last s.pageSize).run with
    | .ok page =>
      let (e, s) := (s.refill page).pop
      return (e.map .ok, s)
    | .error e => return (some (.error e), { s with exhausted := true })
  else
    let (e, s) := s.pop
    return (e.map .ok, s)

/-- All entries that are left, or at most so many. Nothing is asked for beyond these. -/
def collect : (fuel : Nat) → (limit : Option Nat) → Scan →
    Program (List (Except Error Entry) × Scan)
  | _, some 0, s => return ([], s)
  | 0, _, _ => .unfinished
  | fuel + 1, limit, s => do
    match ← s.next with
    | (none, s) => return ([], s)
    | (some item, s) =>
      let (items, s) ← s.collect fuel (limit.map (· - 1))
      return (item :: items, s)

end Scan

end DocumentStore
