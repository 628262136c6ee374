import DocumentStore.Ids.Snowflake

/-!
Sources of identities for documents that come without one.
-/

namespace DocumentStore

/-- A sequence of identities, and how many of them have been handed out. -/
structure IdSource where
  ids : Nat → String
  drawn : Nat

namespace IdSource

def next (s : IdSource) : String × IdSource := (s.ids s.drawn, { s with drawn := s.drawn + 1 })

/-- A stem followed by 1, 2, 3, … -/
def counter (stem : String) : IdSource := ⟨fun n => stem ++ toString (n + 1), 0⟩

/-- The given identities in turn, over and over. -/
def cycle (ids : List String) : IdSource := ⟨fun n => ids.getD (n % ids.length) "", 0⟩

def snowflake (s : Snowflake) (clock : Nat → UInt64) : IdSource :=
  ⟨fun n => toString (s.after clock (n + 1)).pack, 0⟩

instance : Inhabited IdSource := ⟨counter ""⟩

end IdSource

end DocumentStore
