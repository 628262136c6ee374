import DocumentStore.Store.Batch

/-!
Tables of entries in ascending order of keys, with one entry for each key.
-/

namespace DocumentStore

structure Table where
  entries : List Entry
  ordered : entries.Pairwise fun a b => compare a.key b.key = .lt

namespace Table

def empty : Table := ⟨[], .nil⟩

instance : Inhabited Table := ⟨empty⟩

def size (t : Table) : Nat := t.entries.length

def find? (t : Table) (key : Key) : Option Entry := t.entries.find? (·.key.same key)

def version? (t : Table) (key : Key) : Option Version := (t.find? key).map (·.version)

def before (t : Table) (key : Key) : List Entry := t.entries.filter (compare ·.key key == .lt)

def behind (t : Table) (key : Key) : List Entry := t.entries.filter (compare key ·.key == .lt)

def insert (t : Table) (e : Entry) : Table where
  entries := t.before e.key ++ e :: t.behind e.key
  ordered := by
    have below : ∀ a ∈ t.before e.key, compare a.key e.key = .lt := fun a ha =>
      eq_of_beq (List.mem_filter.1 ha).2
    have above : ∀ b ∈ t.behind e.key, compare e.key b.key = .lt := fun b hb =>
      eq_of_beq (List.mem_filter.1 hb).2
    refine List.pairwise_append.2 ⟨t.ordered.filter _, ?_, ?_⟩
    · exact List.pairwise_cons.2 ⟨above, t.ordered.filter _⟩
    · intro a ha b hb
      rcases List.mem_cons.1 hb with rfl | hb
      · exact below a ha
      · exact Std.TransCmp.lt_trans (below a ha) (above b hb)

def erase (t : Table) (key : Key) : Table where
  entries := t.entries.filter (!·.key.same key)
  ordered := t.ordered.filter _

def apply (t : Table) (version : Version) : Mutation → Table
  | .set key value => t.insert ⟨key, value, version⟩
  | .delete key => t.erase key

def applyAll (t : Table) (version : Version) (mutations : List Mutation) : Table :=
  mutations.foldl (fun t m => t.apply version m) t

/-- The first entries behind a key that lie under `base` without a gap. -/
def scan (t : Table) (base : Key) (after : Option Key) (limit : Nat) : List Entry :=
  ((t.behind (after.getD base)).takeWhile (·.key.isUnder base)).take limit

end Table

end DocumentStore
