import DocumentStore.Text.CharSet

/-!
The UTF-8 forms of sets of characters.

A form is a list of byte ranges, one for each byte; it stands for all texts that take each byte from
its range. The forms of a set cover its characters, each one once, and are as few as possible.
-/

namespace DocumentStore

namespace Utf8

/-- A byte range for each byte of a character. -/
abbrev Form := List (Nat × Nat)

/-- The forms of the numbers from `low` to `high` that are written with `tail` bytes of six bits
behind the first one, to which the mark is added. -/
def forms (mark : Nat) : Nat → Nat → Nat → List Form
  | 0, low, high => [[(mark + low, mark + high)]]
  | tail + 1, low, high =>
    let unit := Nat.pow 64 (tail + 1)
    let below (first low high : Nat) : List Form :=
      (forms 0x80 tail low high).map ((mark + first, mark + first) :: ·)
    let (first, last) := (low / unit, high / unit)
    if first = last then below first (low % unit) (high % unit)
    else
      let (start, before) :=
        if low % unit = 0 then (first, []) else (first + 1, below first (low % unit) (unit - 1))
      let (stop, behind) :=
        if high % unit = unit - 1 then (last + 1, []) else (last, below last 0 (high % unit))
      let whole := (mark + start, mark + stop - 1) :: List.replicate (tail + 1) (0x80, 0xbf)
      before ++ (if start < stop then [whole] else []) ++ behind

/-- How the characters from `least` to `greatest` are written: with a mark in the first byte, and
with `tail` bytes behind it. -/
structure Layout where
  tail : Nat
  mark : Nat
  least : Nat
  greatest : Nat

def layouts : List Layout :=
  [⟨0, 0x00, 0x0, 0x7f⟩, ⟨1, 0xc0, 0x80, 0x7ff⟩, ⟨2, 0xe0, 0x800, 0xd7ff⟩,
    ⟨2, 0xe0, 0xe000, 0xffff⟩, ⟨3, 0xf0, 0x10000, 0x10ffff⟩]

end Utf8

/-- The UTF-8 forms of the characters of a set, in ascending order. -/
def CharSet.utf8 (s : CharSet) : List Utf8.Form :=
  s.ranges.flatMap fun (low, high) =>
    Utf8.layouts.flatMap fun l =>
      let (low, high) := (max low l.least, min high l.greatest)
      if low ≤ high then Utf8.forms l.mark l.tail low high else []

end DocumentStore
