/-!
Increasing 64-bit identities made of a time, a node and a sequence number.

A tick is a millisecond. Identities drawn within one tick count up a twelve-bit sequence, and when
the sequence runs out the next tick is borrowed, so the order of identities is the order of drawing
even when the clock stands still or goes back.
-/

namespace DocumentStore

structure Snowflake where
  node : UInt64
  lastTick : UInt64
  sequence : UInt64
deriving Inhabited

namespace Snowflake

def epoch : UInt64 := 1288834974657

def nodeBits : UInt64 := 10

def sequenceBits : UInt64 := 12

def maxNode : UInt64 := 1023

def sequenceMask : UInt64 := 4095

def ofNode (node : UInt64) : Snowflake := ⟨node &&& maxNode, 0, 0⟩

/-- The tick and the sequence number of the next identity at a clock reading. -/
def advance (s : Snowflake) (now : UInt64) : Snowflake :=
  let tick := max now epoch
  if tick ≤ s.lastTick then
    let sequence := (s.sequence + 1) &&& sequenceMask
    { s with lastTick := if sequence = 0 then s.lastTick + 1 else s.lastTick, sequence := sequence }
  else { s with lastTick := tick, sequence := 0 }

def pack (s : Snowflake) : UInt64 :=
  ((s.lastTick - epoch) <<< (nodeBits + sequenceBits)) ||| (s.node <<< sequenceBits) ||| s.sequence

def next (s : Snowflake) (now : UInt64) : UInt64 × Snowflake :=
  let s := s.advance now
  (s.pack, s)

def draw (s : Snowflake) : List UInt64 → List UInt64
  | [] => []
  | now :: clock =>
    let (id, s) := s.next now
    id :: s.draw clock

def after (s : Snowflake) (clock : Nat → UInt64) : Nat → Snowflake
  | 0 => s
  | n + 1 => (s.after clock n).advance (clock n)

end Snowflake

end DocumentStore
