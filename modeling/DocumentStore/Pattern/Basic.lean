import DocumentStore.Error

/-!
Patterns of texts, as queries hold them: the text that a pattern was written as, and a test on texts.

How patterns are written and what they find is the matter of a reader, which gives a test for a text or
refuses it. Nothing here depends on which reader that is; `Pattern.read?` is one.
-/

namespace DocumentStore

structure Pattern where
  source : String
  occursIn : String → Bool

def Pattern.compile (read? : String → Option (String → Bool)) (source : String) :
    Except Error Pattern :=
  match read? source with
  | some occursIn => .ok ⟨source, occursIn⟩
  | none => .error .invalidPattern

end DocumentStore
