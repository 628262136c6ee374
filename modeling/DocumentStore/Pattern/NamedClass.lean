import DocumentStore.Text.CharSet

/-!
The ASCII classes, by the names that patterns give them between colons.
-/

namespace DocumentStore

def CharSet.ofSpans (spans : List (Char × Char)) : CharSet :=
  insertRanges (spans.map fun (low, high) => (low.toNat, high.toNat)) empty

def CharSet.named? : String → Option CharSet
  | "alnum" => some (ofSpans [('0', '9'), ('A', 'Z'), ('a', 'z')])
  | "alpha" => some (ofSpans [('A', 'Z'), ('a', 'z')])
  | "ascii" => some (span '\x00' '\x7f')
  | "blank" => some (ofSpans [('\t', '\t'), (' ', ' ')])
  | "cntrl" => some (ofSpans [('\x00', '\x1f'), ('\x7f', '\x7f')])
  | "digit" => some (span '0' '9')
  | "graph" => some (span '!' '~')
  | "lower" => some (span 'a' 'z')
  | "print" => some (span ' ' '~')
  | "punct" => some (ofSpans [('!', '/'), (':', '@'), ('[', '\x60'), ('\x7b', '~')])
  | "space" => some (ofSpans [('\t', '\r'), (' ', ' ')])
  | "upper" => some (span 'A' 'Z')
  | "word" => some (ofSpans [('0', '9'), ('A', 'Z'), ('_', '_'), ('a', 'z')])
  | "xdigit" => some (ofSpans [('0', '9'), ('A', 'F'), ('a', 'f')])
  | _ => none

end DocumentStore
