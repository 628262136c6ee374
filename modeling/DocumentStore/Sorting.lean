import DocumentStore.Document.Path
import DocumentStore.Text.Quoted
import DocumentStore.Value.Order

/-!
Sorting of documents by the values at several paths, each ascending or descending. Documents without
a value at a path stand before those with one. Sorting is stable.
-/

namespace DocumentStore

inductive Direction where
  | ascending
  | descending
deriving DecidableEq, Inhabited

def Direction.text : Direction → String
  | .ascending => "Ascending"
  | .descending => "Descending"

def Direction.orient : Direction → Ordering → Ordering
  | .ascending, o => o
  | .descending, o => o.swap

/-- The paths to sort by, the most significant first. -/
structure SortSpec where
  keys : List (String × Direction)
deriving Inhabited

/-- Optional values in order, absence first. -/
def cmpOptional : Option Value → Option Value → Ordering
  | none, none => .eq
  | none, some _ => .lt
  | some _, none => .gt
  | some a, some b => a.cmp b

namespace SortSpec

def cmp (s : SortSpec) (a b : Document) : Ordering :=
  s.keys.foldr (fun (path, direction) rest =>
    (direction.orient (cmpOptional (a.getPath? path) (b.getPath? path))).then rest) .eq

def andThen (s t : SortSpec) : SortSpec := ⟨s.keys ++ t.keys⟩

def isSingle (s : SortSpec) : Bool := s.keys.length == 1

def sort (s : SortSpec) (ds : List Document) : List Document :=
  ds.mergeSort fun a b => (s.cmp a b).isLE

def text (s : SortSpec) : String :=
  Text.record "SortSpec" [("fields", Text.bracketed (s.keys.map fun (path, direction) =>
    "(" ++ Text.quoted path ++ ", " ++ direction.text ++ ")"))]

end SortSpec

end DocumentStore
