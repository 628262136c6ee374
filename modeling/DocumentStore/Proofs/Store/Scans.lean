import DocumentStore.Proofs.Store.TableContents
import DocumentStore.Store.Memory

/-!
# Pages of a store

A page holds the first entries under a base that lie behind the start of the scan, unless other entries
stand in front of them: a scan ends at the first entry that is not under its base, also if it has not come
to the base yet.  Nothing stands in front of the entries behind a key that is under the base itself, such
as the last key of a page.
-/

namespace DocumentStore

namespace Table

variable {t : Table} {base : Key} {after : Option Key}

def underBehind (t : Table) (base : Key) (after : Option Key) : List Entry :=
  (t.under base).filter fun e => after.all fun start => compare start e.key == .lt

/-- An entry lies behind the start of a scan, but not behind the base. -/
def Obstructed (t : Table) (base : Key) (after : Option Key) : Prop :=
  ∃ start, after = some start ∧ ∃ e ∈ t.entries,
    compare start e.key = .lt ∧ (compare e.key base).isLE = true

theorem mem_underBehind {e : Entry} : e ∈ t.underBehind base after ↔
    e ∈ t.entries ∧ e.key.isUnder base = true ∧
      ∀ start, after = some start → compare start e.key = .lt := by
  rw [underBehind, List.mem_filter, mem_under, and_assoc]
  cases after <;> simp

theorem underBehind_ordered (t : Table) (base : Key) (after : Option Key) :
    (t.underBehind base after).Pairwise fun a b => compare a.key b.key = .lt :=
  (t.under_ordered base).filter _

/-- All entries under a base lie behind the base, so a scan from there needs no start. -/
theorem underBehind_eq_filter (t : Table) (base : Key) (after : Option Key) :
    t.underBehind base after =
      (t.under base).filter fun e => compare (after.getD base) e.key == .lt := by
  cases after with
  | some start => rfl
  | none =>
    refine List.filter_congr fun e he => ?_
    have hlt : compare base e.key = .lt := Key.lt_of_isUnder (mem_under.1 he).2
    show true = (compare base e.key == .lt)
    rw [hlt]
    rfl

theorem not_obstructed_of_isLE (h : (compare base (after.getD base)).isLE = true) :
    ¬ t.Obstructed base after := by
  rintro ⟨start, rfl, e, _, hlt, hle⟩
  have hbase : compare base e.key = .lt := Std.TransCmp.lt_of_isLE_of_lt h hlt
  rw [Std.OrientedCmp.gt_of_lt hbase] at hle
  cases hle

/-- The first entry behind the start ends the scan. -/
theorem scan_of_obstructed (h : t.Obstructed base after) (limit : Nat) :
    t.scan base after limit = [] := by
  obtain ⟨start, rfl, e, he, hlt, hle⟩ := h
  have hmem : e ∈ t.behind start := List.mem_filter.2 ⟨he, beq_iff_eq.2 hlt⟩
  have hordered : (t.behind start).Pairwise fun a b => compare a.key b.key = .lt :=
    t.ordered.filter _
  obtain ⟨first, rest, hbehind⟩ := List.exists_cons_of_ne_nil (List.ne_nil_of_mem hmem)
  rw [hbehind] at hmem hordered
  have hfirst : (compare first.key base).isLE = true := by
    rcases List.mem_cons.1 hmem with rfl | hrest
    · exact hle
    · have hfirste : compare first.key e.key = .lt := (List.pairwise_cons.1 hordered).1 e hrest
      exact Std.TransCmp.isLE_trans (by rw [hfirste]; rfl) hle
  rw [scan, Option.getD_some, hbehind, List.takeWhile_cons, if_neg (Key.not_isUnder_of_isLE hfirst),
    List.take_nil]

theorem scan_of_not_obstructed (h : ¬ t.Obstructed base after) (limit : Nat) :
    t.scan base after limit = (t.underBehind base after).take limit := by
  rw [underBehind_eq_filter]
  refine scan_eq_take_of_behind limit fun e he => ?_
  obtain ⟨hmem, hlt⟩ := List.mem_filter.1 he
  cases after with
  | none => exact eq_of_beq hlt
  | some start =>
    cases hcmp : compare base e.key with
    | lt => rfl
    -- an entry that is not behind the base would stand in front
    | eq => exact absurd ⟨start, rfl, e, hmem, eq_of_beq hlt,
        by rw [Std.OrientedCmp.eq_symm hcmp]; rfl⟩ h
    | gt => exact absurd ⟨start, rfl, e, hmem, eq_of_beq hlt,
        by rw [Std.OrientedCmp.lt_of_gt hcmp]; rfl⟩ h

end Table

/-- An open store hands out the first entries under a base that lie behind the start, in ascending order
and each of them counted, if no entry lies between the start and the base, and nothing at all otherwise.
From the base on no entry lies in between. -/
theorem Memory.scan_fills_unless_obstructed (m : Memory) (base : Key) (after : Option Key)
    (limit : Nat) :
    (∀ e, e ∈ m.table.underBehind base after ↔ e ∈ m.table.entries ∧ e.key.isUnder base = true ∧
      ∀ start, after = some start → compare start e.key = .lt) ∧
    ((m.table.underBehind base after).Pairwise fun a b => compare a.key b.key = .lt) ∧
    (m.closed = true → m.scan base after limit = (.error .closedStore, m)) ∧
    (m.closed = false → ∃ page, m.scan base after limit =
        (.ok page, { m with entriesRead := m.entriesRead + page.length }) ∧
      (¬ m.table.Obstructed base after → page = (m.table.underBehind base after).take limit) ∧
      (m.table.Obstructed base after → page = [])) ∧
    ((compare base (after.getD base)).isLE = true → ¬ m.table.Obstructed base after) := by
  refine ⟨fun e => Table.mem_underBehind, m.table.underBehind_ordered base after, fun hclosed => ?_,
    fun hopen => ?_, Table.not_obstructed_of_isLE⟩
  · rw [scan, if_pos hclosed]
  · refine ⟨m.table.scan base after limit, ?_, fun h => Table.scan_of_not_obstructed h limit,
      fun h => Table.scan_of_obstructed h limit⟩
    rw [scan, if_neg (by simp [hopen])]

namespace Sample

def book : Entry := ⟨⟨[.string "c", .string "x"]⟩, .integer 2, 1⟩

def shelf : Memory where
  table := (Table.empty.insert book).insert ⟨⟨[.string "b"]⟩, .integer 1, 1⟩
  version := 1
  closed := false
  entriesRead := 0
  commits := 1
  conflicts := 0

end Sample

open Sample in
/-- A scan from the entry that stands in front finds the one under the base.  A scan from further off
misses it, although it lies behind the start. -/
theorem Memory.scan_fills_unless_obstructed_on_shelf :
    (shelf.scan ⟨[.string "c"]⟩ (some ⟨[.string "b"]⟩) 10).1 = .ok [book] ∧
    shelf.table.Obstructed ⟨[.string "c"]⟩ (some ⟨[.string "a"]⟩) ∧
    book ∈ shelf.table.underBehind ⟨[.string "c"]⟩ (some ⟨[.string "a"]⟩) ∧
    (shelf.scan ⟨[.string "c"]⟩ (some ⟨[.string "a"]⟩) 10).1 = .ok [] ∧
    (shelf.scan ⟨[.string "c"]⟩ none 10).1 = .ok [book] ∧
    (shelf.close.scan ⟨[.string "c"]⟩ none 10).1 = .error .closedStore := by
  have hobstructed : shelf.table.Obstructed ⟨[.string "c"]⟩ (some ⟨[.string "a"]⟩) :=
    ⟨_, rfl, ⟨⟨[.string "b"]⟩, .integer 1, 1⟩, .head _, by decide, by decide⟩
  have hfree : ¬ shelf.table.Obstructed ⟨[.string "c"]⟩ (some ⟨[.string "b"]⟩) := by
    rintro ⟨start, hstart, e, he, hlt, hle⟩
    cases hstart
    rcases List.mem_cons.1 he with rfl | he
    · cases hlt
    · rw [List.mem_singleton.1 he] at hle
      cases hle
  obtain ⟨_, _, _, hfront, _⟩ :=
    Memory.scan_fills_unless_obstructed shelf ⟨[.string "c"]⟩ (some ⟨[.string "b"]⟩) 10
  obtain ⟨hmem, _, _, hfar, _⟩ :=
    Memory.scan_fills_unless_obstructed shelf ⟨[.string "c"]⟩ (some ⟨[.string "a"]⟩) 10
  obtain ⟨_, _, _, hstart, hbase⟩ :=
    Memory.scan_fills_unless_obstructed shelf ⟨[.string "c"]⟩ none 10
  obtain ⟨_, _, hclosed, _, _⟩ :=
    Memory.scan_fills_unless_obstructed shelf.close ⟨[.string "c"]⟩ none 10
  obtain ⟨page, hpage, hfull, _⟩ := hfront rfl
  obtain ⟨missed, hmissed, _, hempty⟩ := hfar rfl
  obtain ⟨first, hfirst, hall, _⟩ := hstart rfl
  refine ⟨?_, hobstructed, ?_, ?_, ?_, ?_⟩
  · rw [hpage, hfull hfree]
    rfl
  · refine (hmem book).2 ⟨.tail _ (.head _), by decide, fun start hstart => ?_⟩
    cases hstart
    decide
  · rw [hmissed, hempty hobstructed]
  · rw [hfirst, hall (hbase (by decide))]
    rfl
  · rw [hclosed rfl]

end DocumentStore
