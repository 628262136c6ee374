import DocumentStore.Database.Basic

/-!
# Commits that take effect

Of all answers to requests only those to commits change what a store holds, and only if the commit
takes effect.  `Database.effect?` picks these out.
-/

namespace DocumentStore

/-- A database on a store in memory whose commits can be made to conflict.  As long as none are, the
store is a store in memory. -/
abbrev MemoryDatabase := Database (Contended Memory)

/-- A commit that took effect: its batch, and the memory before and after it. -/
structure Commit where
  batch : Batch
  before : Memory
  after : Memory

namespace Commit

def version (w : Commit) : Version := w.after.version

/-- What a commit does to the memory, if all its checks hold there. -/
structure Effective (w : Commit) : Prop where
  holds : ∀ check ∈ w.batch.checks, w.before.holds check = true
  table : w.after.table = w.before.table.applyAll w.version w.batch.mutations
  version_eq : w.version = w.before.version + 1

theorem Effective.version_lt {w : Commit} (h : w.Effective) : w.before.version < w.version :=
  h.version_eq ▸ Nat.lt_succ_self _

end Commit

namespace Database

def memory (db : MemoryDatabase) : Memory := db.settings.store.store

/-- The commit that the answer to a request lets take effect, if there is one. -/
def effect? (r : Request) (db : MemoryDatabase) : Option Commit :=
  match r with
  | .commit batch =>
    match (KeyValueStore.commit db.settings.store batch).1 with
    | .ok (.committed _) =>
      some ⟨batch, db.memory, (KeyValueStore.commit db.settings.store batch).2.store⟩
    | _ => none
  | _ => none

theorem commit_of_contended {s : Contended Memory} {b : Batch}
    (h : (!b.checks.isEmpty && s.remaining != 0) = true) :
    KeyValueStore.commit s b = (.ok .conflict,
      if s.remaining = 0xffffffff then s else { s with remaining := s.remaining - 1 }) := by
  show Contended.commit s b = _
  rw [Contended.commit, if_pos h]

theorem commit_of_quiet {s : Contended Memory} {b : Batch}
    (h : ¬ (!b.checks.isEmpty && s.remaining != 0) = true) :
    KeyValueStore.commit s b =
      ((s.store.commit b).1, { s with store := (s.store.commit b).2 }) := by
  show Contended.commit s b = _
  rw [Contended.commit, if_neg h]
  rfl

/-- A commit either takes effect, or is answered with a conflict or an error and leaves the entries
and the version as they are. -/
theorem commit_cases (s : Contended Memory) (b : Batch) :
    (∃ version, (KeyValueStore.commit s b).1 = .ok (.committed version) ∧
      Commit.Effective ⟨b, s.store, (KeyValueStore.commit s b).2.store⟩) ∨
    ((∀ version, (KeyValueStore.commit s b).1 ≠ .ok (.committed version)) ∧
      (KeyValueStore.commit s b).2.store.table = s.store.table ∧
      (KeyValueStore.commit s b).2.store.version = s.store.version) := by
  by_cases h : (!b.checks.isEmpty && s.remaining != 0) = true
  -- a conflict that was asked for, and the memory is not touched
  · rw [commit_of_contended h]
    refine .inr ⟨fun version he => (by cases he), ?_⟩
    dsimp only
    split <;> exact ⟨rfl, rfl⟩
  -- the memory decides
  · rw [commit_of_quiet h]
    unfold Memory.commit
    by_cases hclosed : s.store.closed = true
    · rw [if_pos hclosed]
      exact .inr ⟨fun version he => (by cases he), rfl, rfl⟩
    · rw [if_neg hclosed]
      by_cases hchecks : b.checks.all s.store.holds = true
      · rw [if_pos hchecks]
        exact .inl ⟨_, rfl, List.all_eq_true.1 hchecks, rfl, rfl⟩
      · rw [if_neg hchecks]
        exact .inr ⟨fun version he => (by cases he), rfl, rfl⟩

theorem effective_of_effect? {r : Request} {db : MemoryDatabase} {w : Commit}
    (h : db.effect? r = some w) :
    r = .commit w.batch ∧ w.before = db.memory ∧ w.after = (answer r db).2.memory ∧
      w.Effective := by
  cases r with
  | commit b =>
    unfold effect? at h
    dsimp only at h
    rcases commit_cases db.settings.store b with ⟨version, hv, heff⟩ | ⟨hne, _, _⟩
    · rw [hv] at h
      cases h
      exact ⟨rfl, rfl, rfl, heff⟩
    · split at h
      · rename_i version hv
        exact absurd hv (hne version)
      · cases h
  | _ => cases h

/-- Without an effect the answer to a request changes no entry. -/
theorem memory_of_no_effect {r : Request} {db : MemoryDatabase} (h : db.effect? r = none) :
    (answer r db).2.memory.table = db.memory.table ∧
      (answer r db).2.memory.version = db.memory.version := by
  cases r with
  | commit b =>
    rcases commit_cases db.settings.store b with ⟨version, hv, _⟩ | ⟨_, hsame⟩
    · unfold effect? at h
      dsimp only at h
      rw [hv] at h
      cases h
    · exact hsame
  | get key =>
    show (db.memory.get key).2.table = _ ∧ (db.memory.get key).2.version = _
    unfold Memory.get
    split
    · exact ⟨rfl, rfl⟩
    · split <;> exact ⟨rfl, rfl⟩
  | scan base after limit =>
    show (db.memory.scan base after limit).2.table = _ ∧
      (db.memory.scan base after limit).2.version = _
    unfold Memory.scan
    split <;> exact ⟨rfl, rfl⟩
  | register name options =>
    unfold answer
    dsimp only
    split <;> exact ⟨rfl, rfl⟩
  | _ => exact ⟨rfl, rfl⟩

/-- Whether a commit takes effect shows in its answer. -/
theorem effect?_commit_eq_none_iff {b : Batch} {db : MemoryDatabase} :
    db.effect? (.commit b) = none ↔
      ∀ version, (answer (.commit b) db).1 ≠ (.ok (.committed version) : Except Error _) := by
  show _ ↔ ∀ version, (KeyValueStore.commit db.settings.store b).1 ≠ .ok (.committed version)
  unfold effect?
  dsimp only
  split
  · rename_i version hv
    simp [hv]
  · rename_i hne
    exact ⟨fun _ version hv => hne version hv, fun _ => rfl⟩

end Database

end DocumentStore
