import DocumentStore.Text.CharSet

/-!
White space: the ASCII blanks and line breaks, the next-line character, and the Unicode separators.
-/

namespace DocumentStore.Text

def blankChars : CharSet := ⟨[
  (0x9, 0xd), (0x20, 0x20), (0x85, 0x85), (0xa0, 0xa0), (0x1680, 0x1680), (0x2000, 0x200a),
  (0x2028, 0x2029), (0x202f, 0x202f), (0x205f, 0x205f), (0x3000, 0x3000)]⟩

def isBlank (c : Char) : Bool := blankChars.contains c

def isAllBlank (s : String) : Bool := s.toList.all isBlank

end DocumentStore.Text
