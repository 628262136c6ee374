import DocumentStore.Ids.Snowflake

/-!
# Identities that increase

The tick and the sequence number of a snowflake grow with every drawing, the tick first: a sequence that
runs out borrows the next tick, and the clock decides only when it is ahead.  An identity has the tick
in its upper bits, so identities increase for as long as these have room for it
(`Snowflake.identities_increase`).
-/

namespace DocumentStore

namespace Snowflake

variable {s s' : Snowflake} {node now : UInt64} {clock : Nat → UInt64} {m n : Nat}

/-- How many ticks the upper bits of an identity have room for. -/
def room : Nat := 1 <<< 42

def InRoom (s : Snowflake) : Prop := s.lastTick.toNat < epoch.toNat + room

instance (s : Snowflake) : Decidable s.InRoom :=
  inferInstanceAs (Decidable (s.lastTick.toNat < epoch.toNat + room))

/-- The tick decides which of two states is the earlier one, and within a tick the sequence number. -/
def Before (s s' : Snowflake) : Prop :=
  s.lastTick < s'.lastTick ∨ s.lastTick = s'.lastTick ∧ s.sequence < s'.sequence

/-! ## One drawing -/

/-- The numbers of a tick are counted through and start over. -/
theorem toNat_next_sequence (sequence : UInt64) :
    ((sequence + 1) &&& sequenceMask).toNat = (sequence.toNat + 1) % 4096 := by
  have hmask : sequenceMask.toNat = 2 ^ 12 - 1 := rfl
  rw [UInt64.toNat_and, hmask, Nat.and_two_pow_sub_one_eq_mod, UInt64.toNat_add]
  show (sequence.toNat + 1) % 2 ^ 64 % 2 ^ 12 = (sequence.toNat + 1) % 2 ^ 12
  exact Nat.mod_mod_of_dvd _ (Nat.pow_dvd_pow 2 (by decide))

theorem epoch_le_max (now : UInt64) : epoch ≤ max now epoch := by
  show epoch ≤ if now ≤ epoch then epoch else now
  split
  · exact UInt64.le_refl _
  · exact UInt64.le_of_lt (UInt64.not_le.1 ‹_›)

structure Follows (node : UInt64) (s : Snowflake) (now : UInt64) (s' : Snowflake) : Prop where
  node : s'.node = node
  sequence : s'.sequence ≤ sequenceMask
  /-- The tick is that of the clock, or one ahead of it. -/
  tick : max now epoch ≤ s'.lastTick
  before : s.Before s'

/-- A tick is borrowed when the sequence of the last one has run out. -/
theorem advance_follows (now : UInt64) (hnode : s.node = node) (hroom : s.InRoom)
    (hsequence : s.sequence ≤ sequenceMask) : Follows node s now (s.advance now) := by
  have hlast : s.lastTick.toNat < epoch.toNat + room := hroom
  have hmask : s.sequence.toNat ≤ 4095 := UInt64.le_iff_toNat_le.1 hsequence
  have hnext := toNat_next_sequence s.sequence
  unfold advance
  by_cases htick : max now epoch ≤ s.lastTick
  · simp only [if_pos htick]
    by_cases hzero : (s.sequence + 1) &&& sequenceMask = 0
    · -- there is a next tick
      have hborrowed : (s.lastTick + 1).toNat = s.lastTick.toNat + 1 := by
        have hbound : epoch.toNat + room < UInt64.size := by decide
        have hone : (1 : UInt64).toNat = 1 := rfl
        rw [UInt64.toNat_add, hone]
        exact Nat.mod_eq_of_lt (Nat.lt_of_le_of_lt (Nat.succ_le_of_lt hlast) hbound)
      have hlt : s.lastTick < s.lastTick + 1 := UInt64.lt_iff_toNat_lt.2 (by omega)
      simp only [hzero, if_true]
      exact ⟨hnode, UInt64.zero_le, UInt64.le_trans htick (UInt64.le_of_lt hlt), .inl hlt⟩
    · -- the number was not the last one of its tick
      have hpos : ((s.sequence + 1) &&& sequenceMask).toNat ≠ 0 := fun h =>
        hzero (UInt64.toNat_inj.1 h)
      simp only [if_neg hzero]
      refine ⟨hnode, UInt64.le_iff_toNat_le.2 ?_, htick, .inr ⟨rfl, UInt64.lt_iff_toNat_lt.2 ?_⟩⟩
      · show ((s.sequence + 1) &&& sequenceMask).toNat ≤ 4095
        omega
      · show s.sequence.toNat < ((s.sequence + 1) &&& sequenceMask).toNat
        omega
  · simp only [if_neg htick]
    exact ⟨hnode, UInt64.zero_le, UInt64.le_refl _, .inl (UInt64.not_le.1 htick)⟩

/-! ## What an identity is made of -/

structure Fits (s : Snowflake) : Prop where
  inRoom : s.InRoom
  epoch : epoch ≤ s.lastTick
  node : s.node ≤ maxNode
  sequence : s.sequence ≤ sequenceMask

/-- Numbers of ten and of twelve bits beside a third one. -/
theorem or_or_eq_add {tick number sequence : Nat} (hnumber : number < 1024)
    (hsequence : sequence < 4096) :
    tick <<< 22 ||| number <<< 12 ||| sequence = tick * 4194304 + number * 4096 + sequence := by
  have hupper : number <<< 12 < 2 ^ 22 := by
    rw [Nat.shiftLeft_eq]
    omega
  have hlower : sequence < 2 ^ 12 := hsequence
  have hjoined : tick <<< 22 + number <<< 12 = (tick * 1024 + number) <<< 12 := by
    rw [Nat.shiftLeft_eq, Nat.shiftLeft_eq, Nat.shiftLeft_eq]
    omega
  rw [← Nat.shiftLeft_add_eq_or_of_lt hupper, hjoined, ← Nat.shiftLeft_add_eq_or_of_lt hlower,
    Nat.shiftLeft_eq]
  omega

/-- The parts of an identity stand side by side. -/
theorem Fits.toNat_pack (h : s.Fits) :
    s.pack.toNat = (s.lastTick.toNat - Snowflake.epoch.toNat) * 4194304 + s.node.toNat * 4096 +
      s.sequence.toNat := by
  have hroom : s.lastTick.toNat < Snowflake.epoch.toNat + room := h.inRoom
  have hsize : room = 4398046511104 := rfl
  have hnode : s.node.toNat ≤ 1023 := UInt64.le_iff_toNat_le.1 h.node
  have hsequence : s.sequence.toNat ≤ 4095 := UInt64.le_iff_toNat_le.1 h.sequence
  have hepoch := UInt64.le_iff_toNat_le.1 h.epoch
  have hbits : sequenceBits.toNat % 64 = 12 := rfl
  have hbits' : (nodeBits + sequenceBits).toNat % 64 = 22 := rfl
  -- neither part loses a bit
  have htick : (s.lastTick.toNat - Snowflake.epoch.toNat) <<< 22 < 2 ^ 64 := by
    rw [Nat.shiftLeft_eq]
    omega
  have hnumber : s.node.toNat <<< 12 < 2 ^ 64 := by
    rw [Nat.shiftLeft_eq]
    omega
  rw [pack, UInt64.toNat_or, UInt64.toNat_or, UInt64.toNat_shiftLeft, UInt64.toNat_shiftLeft, hbits,
    hbits', UInt64.toNat_sub_of_le _ _ h.epoch, Nat.mod_eq_of_lt htick, Nat.mod_eq_of_lt hnumber]
  exact or_or_eq_add (by omega) (by omega)

/-- The later of two states has the greater identity. -/
theorem Fits.pack_lt_pack (h : s.Fits) (h' : s'.Fits) (hnode : s'.node = s.node)
    (hbefore : s.Before s') : s.pack < s'.pack := by
  have hsequence : s.sequence.toNat ≤ 4095 := UInt64.le_iff_toNat_le.1 h.sequence
  have hepoch := UInt64.le_iff_toNat_le.1 h.epoch
  rw [UInt64.lt_iff_toNat_lt, h.toNat_pack, h'.toNat_pack, hnode]
  rcases hbefore with hlt | ⟨heq, hlt⟩
  · have htick := UInt64.lt_iff_toNat_lt.1 hlt
    omega
  · have hnumber := UInt64.lt_iff_toNat_lt.1 hlt
    rw [heq]
    omega

theorem Fits.node_of_pack (h : s.Fits) : (s.pack >>> sequenceBits) &&& maxNode = s.node := by
  have hnode : s.node.toNat ≤ 1023 := UInt64.le_iff_toNat_le.1 h.node
  have hsequence : s.sequence.toNat ≤ 4095 := UInt64.le_iff_toNat_le.1 h.sequence
  have hmask : maxNode.toNat = 2 ^ 10 - 1 := rfl
  have hbits : sequenceBits.toNat % 64 = 12 := rfl
  rw [← UInt64.toNat_inj, UInt64.toNat_and, hmask, Nat.and_two_pow_sub_one_eq_mod,
    UInt64.toNat_shiftRight, hbits, Nat.shiftRight_eq_div_pow, h.toNat_pack]
  omega

theorem Fits.tick_of_pack (h : s.Fits) :
    s.pack >>> (nodeBits + sequenceBits) = s.lastTick - Snowflake.epoch := by
  have hnode : s.node.toNat ≤ 1023 := UInt64.le_iff_toNat_le.1 h.node
  have hsequence : s.sequence.toNat ≤ 4095 := UInt64.le_iff_toNat_le.1 h.sequence
  have hbits : (nodeBits + sequenceBits).toNat % 64 = 22 := rfl
  rw [← UInt64.toNat_inj, UInt64.toNat_shiftRight, hbits, Nat.shiftRight_eq_div_pow, h.toNat_pack,
    UInt64.toNat_sub_of_le _ _ h.epoch]
  omega

/-! ## Drawing by a clock -/

/-- The identities that are drawn are those of the states that the clock leads to. -/
theorem draw_range (s : Snowflake) (clock : Nat → UInt64) (n : Nat) :
    s.draw ((List.range n).map clock) = (List.range n).map fun i => (s.after clock (i + 1)).pack := by
  have hdraw : ∀ m k, (s.after clock m).draw ((List.range' m k).map clock) =
      (List.range' m k).map fun i => (s.after clock (i + 1)).pack := by
    intro m k
    induction k generalizing m with
    | zero => rfl
    | succ k ih =>
      rw [List.range'_succ, List.map_cons, List.map_cons, ← ih (m + 1)]
      rfl
  rw [List.range_eq_range']
  exact hdraw 0 n

/-- A clock that does not go beyond a tick leads at most one tick further with every drawing. -/
theorem lastTick_after_le {tick : Nat} (hstart : s.lastTick.toNat ≤ tick)
    (hclock : ∀ i < n, (max (clock i) epoch).toNat ≤ tick) :
    (s.after clock n).lastTick.toNat ≤ tick + n := by
  induction n with
  | zero => exact hstart
  | succ n ih =>
    have hlast := ih fun i hi => hclock i (Nat.lt_succ_of_lt hi)
    have hnow := hclock n (Nat.lt_succ_self n)
    show ((s.after clock n).advance (clock n)).lastTick.toNat ≤ tick + (n + 1)
    unfold advance
    by_cases htick : max (clock n) epoch ≤ (s.after clock n).lastTick
    · have hborrowed : ((s.after clock n).lastTick + 1).toNat ≤
          (s.after clock n).lastTick.toNat + 1 := by
        rw [UInt64.toNat_add]
        exact Nat.mod_le _ _
      simp only [if_pos htick]
      split <;> omega
    · simp only [if_neg htick]
      omega

section Run

variable (hnode : node ≤ maxNode)
  (hroom : ∀ i < n, ((ofNode node).after clock (i + 1)).InRoom)

include hnode hroom

/-- Each drawing is one step ahead, also the first. -/
theorem follows_after (hm : m < n) : Follows node ((ofNode node).after clock m) (clock m)
    ((ofNode node).after clock (m + 1)) := by
  induction m with
  | zero =>
    have hown : (ofNode node).node = node := by
      have hmask : maxNode.toNat = 2 ^ 10 - 1 := rfl
      have hle : node.toNat ≤ 1023 := UInt64.le_iff_toNat_le.1 hnode
      rw [← UInt64.toNat_inj, ofNode, UInt64.toNat_and, hmask, Nat.and_two_pow_sub_one_eq_mod]
      exact Nat.mod_eq_of_lt (by omega)
    have hstart : ((ofNode node).after clock 0).InRoom := show 0 < epoch.toNat + room by decide
    exact advance_follows _ hown hstart UInt64.zero_le
  | succ m ih =>
    have hlast := ih (Nat.lt_of_succ_lt hm)
    exact advance_follows _ hlast.node (hroom m (Nat.lt_of_succ_lt hm)) hlast.sequence

theorem fits_after (hm : m < n) : ((ofNode node).after clock (m + 1)).Fits := by
  have hlast := follows_after hnode hroom hm
  have hown : ((ofNode node).after clock (m + 1)).node ≤ maxNode := by
    rw [hlast.node]
    exact hnode
  exact ⟨hroom m hm, UInt64.le_trans (epoch_le_max _) hlast.tick, hown, hlast.sequence⟩

theorem pack_after_lt {k : Nat} (hmk : m < k) (hk : k < n) :
    ((ofNode node).after clock (m + 1)).pack < ((ofNode node).after clock (k + 1)).pack := by
  induction k with
  | zero => exact absurd hmk (Nat.not_lt_zero m)
  | succ k ih =>
    have hk' := Nat.lt_of_succ_lt hk
    have hlast := follows_after hnode hroom hk'
    have hnext := follows_after hnode hroom hk
    have hlt := (fits_after hnode hroom hk').pack_lt_pack (fits_after hnode hroom hk)
      (hnext.node.trans hlast.node.symm) hnext.before
    rcases Nat.lt_succ_iff_lt_or_eq.1 hmk with hmk | rfl
    · exact UInt64.lt_trans (ih hmk hk') hlt
    · exact hlt

end Run

/-- The identities that a node draws by any clock increase, as long as they have room for the ticks.
Each one holds its node, and a tick that is not behind the clock nor the epoch. -/
theorem identities_increase (hnode : node ≤ maxNode) (clock : Nat → UInt64) (n : Nat)
    (hroom : ∀ i < n, ((ofNode node).after clock (i + 1)).InRoom) :
    ((ofNode node).draw ((List.range n).map clock)).Pairwise (· < ·) ∧
    ∀ i < n, epoch ≤ ((ofNode node).after clock (i + 1)).lastTick ∧
      ∃ id, ((ofNode node).draw ((List.range n).map clock))[i]? = some id ∧
        (id >>> sequenceBits) &&& maxNode = node ∧
        max (clock i) epoch - epoch ≤ id >>> (nodeBits + sequenceBits) := by
  rw [draw_range]
  constructor
  · refine List.pairwise_map.2 (List.pairwise_lt_range.imp_of_mem fun _ hk hmk => ?_)
    exact pack_after_lt hnode hroom hmk (List.mem_range.1 hk)
  · intro i hi
    have hlast := follows_after hnode hroom hi
    have hfits := fits_after hnode hroom hi
    refine ⟨hfits.epoch, ((ofNode node).after clock (i + 1)).pack, by simp [hi], ?_, ?_⟩
    · rw [hfits.node_of_pack, hlast.node]
    · have hepoch := UInt64.le_iff_toNat_le.1 (epoch_le_max (clock i))
      have htick := UInt64.le_iff_toNat_le.1 hlast.tick
      rw [hfits.tick_of_pack, UInt64.le_iff_toNat_le, UInt64.toNat_sub_of_le _ _ hfits.epoch,
        UInt64.toNat_sub_of_le _ _ (epoch_le_max _)]
      omega

end Snowflake

namespace Sample

/-- A clock that stands still for longer than a sequence lasts, goes back behind the epoch, and goes on
at a later tick. -/
def stallingClock (i : Nat) : UInt64 :=
  if i < 4097 then Snowflake.epoch + 5 else if i = 4097 then 3 else Snowflake.epoch + 9

theorem stallingClock_le (i : Nat) :
    (max (stallingClock i) Snowflake.epoch).toNat ≤ (Snowflake.epoch + 9).toNat := by
  unfold stallingClock
  split
  · decide
  · split <;> decide

end Sample

namespace Snowflake

open Sample in
/-- The identities of a node increase where a tick is borrowed, where the clock goes back, and where it
catches up. -/
theorem identities_increase_by_stallingClock : 5 ≤ maxNode ∧
    (∀ i < 4099, ((ofNode 5).after stallingClock (i + 1)).InRoom) ∧
    ((ofNode 5).draw ((List.range 4099).map stallingClock)).Pairwise (· < ·) ∧
    ∀ i < 4099, ∃ id, ((ofNode 5).draw ((List.range 4099).map stallingClock))[i]? = some id ∧
      (id >>> sequenceBits) &&& maxNode = 5 ∧
      max (stallingClock i) epoch - epoch ≤ id >>> (nodeBits + sequenceBits) := by
  have hnode : 5 ≤ maxNode := by decide
  have hroom : ∀ i < 4099, ((ofNode 5).after stallingClock (i + 1)).InRoom := by
    intro i hi
    have hlast := lastTick_after_le (s := ofNode 5) (n := i + 1) (Nat.zero_le _)
      fun k _ => stallingClock_le k
    have hahead : (epoch + 9).toNat + 4099 < epoch.toNat + room := by decide
    show ((ofNode 5).after stallingClock (i + 1)).lastTick.toNat < epoch.toNat + room
    omega
  obtain ⟨hincrease, hparts⟩ := identities_increase hnode stallingClock 4099 hroom
  exact ⟨hnode, hroom, hincrease, fun i hi => (hparts i hi).2⟩

end Snowflake

end DocumentStore
