import DocumentStore.Database.Basic
import DocumentStore.Proofs.Program.Checks

/-!
# Settings of a database

The setters let through only settings that collections can work with: pages that are not empty and
retry policies with at least one attempt.  So every database that was opened has such settings.
-/

namespace DocumentStore

theorem RetryPolicy.check_eq_ok_iff {p : RetryPolicy} : p.check = .ok () ↔ p ≠ .untilSuccess 0 := by
  unfold check
  split
  · rename_i h
    exact ⟨nofun, fun hne => absurd h hne⟩
  · rename_i h
    exact ⟨fun _ => h, fun _ => rfl⟩

structure CollectionDefaults.Valid (defaults : CollectionDefaults) : Prop where
  scanBatch_pos : 0 < defaults.scanBatch
  updateRetry : defaults.updateRetry.check = .ok ()
  deleteRetry : defaults.deleteRetry.check = .ok ()

inductive Setter (σ : Type) where
  | store (store : σ)
  | ids (ids : IdSource)
  | updateRetry (p : RetryPolicy)
  | deleteRetry (p : RetryPolicy)
  | scanBatch (n : Nat)

variable {σ : Type}

def Setter.apply (s : Settings σ) : Setter σ → Except Error (Settings σ)
  | .store st => s.setStore st
  | .ids source => s.setIds source
  | .updateRetry p => s.setUpdateRetry p
  | .deleteRetry p => s.setDeleteRetry p
  | .scanBatch n => s.setScanBatch n

def Setter.setting : Setter σ → Setting
  | .store _ => .store
  | .ids _ => .idSource
  | .updateRetry _ => .updateRetry
  | .deleteRetry _ => .deleteRetry
  | .scanBatch _ => .scanBatch

namespace Settings

/-- Every setter looks first whether the settings are frozen. -/
theorem apply_eq_frozen {s : Settings σ} (h : s.frozen = true) (setter : Setter σ) :
    setter.apply s = .error (.frozen setter.setting) := by
  have hguard : ∀ setting, s.guard setting = .error (.frozen setting) := fun setting => by
    unfold guard
    rw [if_pos h]
  cases setter with
  | store st => rw [Setter.apply, setStore, hguard]; rfl
  | ids source => rw [Setter.apply, setIds, hguard]; rfl
  | updateRetry p => rw [Setter.apply, setUpdateRetry, hguard]; rfl
  | deleteRetry p => rw [Setter.apply, setDeleteRetry, hguard]; rfl
  | scanBatch n => rw [Setter.apply, setScanBatch, hguard]; rfl

theorem initial_valid (store : σ) (ids : IdSource) :
    (initial store ids).collectionDefaults.Valid :=
  ⟨Nat.zero_lt_succ _, rfl, rfl⟩

/-- A setter that succeeds keeps the settings valid. -/
theorem apply_valid {s s' : Settings σ} {setter : Setter σ} (hs : s.collectionDefaults.Valid)
    (h : setter.apply s = .ok s') : s'.collectionDefaults.Valid := by
  obtain ⟨hscan, hupdate, hdelete⟩ := hs
  cases setter with
  | store st =>
    cases (Except.check_bind_eq_ok_iff.1 h).2
    exact ⟨hscan, hupdate, hdelete⟩
  | ids source =>
    cases (Except.check_bind_eq_ok_iff.1 h).2
    exact ⟨hscan, hupdate, hdelete⟩
  | updateRetry p =>
    obtain ⟨hp, h⟩ := Except.check_bind_eq_ok_iff.1 (Except.check_bind_eq_ok_iff.1 h).2
    cases h
    exact ⟨hscan, hp, hdelete⟩
  | deleteRetry p =>
    obtain ⟨hp, h⟩ := Except.check_bind_eq_ok_iff.1 (Except.check_bind_eq_ok_iff.1 h).2
    cases h
    exact ⟨hscan, hupdate, hp⟩
  | scanBatch n =>
    have hset := (Except.check_bind_eq_ok_iff.1 h).2
    by_cases hn : n = 0
    · rw [if_pos hn] at hset
      cases hset
    · rw [if_neg hn] at hset
      cases hset
      exact ⟨Nat.pos_of_ne_zero hn, hupdate, hdelete⟩

end Settings

namespace Builder

def applyAll (b : Builder σ) (setters : List (Setter σ)) : Builder σ :=
  setters.foldl (fun b setter => b.apply setter.apply) b

theorem apply_valid {b : Builder σ} (hb : b.settings.collectionDefaults.Valid)
    (setter : Setter σ) : (b.apply setter.apply).settings.collectionDefaults.Valid := by
  unfold apply
  split
  · exact hb
  · split
    · rename_i hset
      exact Settings.apply_valid hb hset
    · exact hb

theorem applyAll_valid {b : Builder σ} (hb : b.settings.collectionDefaults.Valid)
    (setters : List (Setter σ)) : (b.applyAll setters).settings.collectionDefaults.Valid := by
  induction setters generalizing b with
  | nil => exact hb
  | cons setter setters ih => exact ih (apply_valid hb setter)

/-- Whatever setters are called, an opened database has valid settings. -/
theorem build_valid {store : σ} {ids : IdSource} {setters : List (Setter σ)}
    {isClosed : σ → Bool} {s : Settings σ}
    (h : ((start store ids).applyAll setters).build isClosed = .ok s) :
    s.collectionDefaults.Valid := by
  have hvalid := applyAll_valid (b := start store ids) (Settings.initial_valid store ids) setters
  unfold build at h
  split at h
  · cases h
  · unfold Settings.freeze at h
    split at h
    · cases h
    · cases h
      exact ⟨hvalid.scanBatch_pos, hvalid.updateRetry, hvalid.deleteRetry⟩

end Builder

/-- No request changes the settings that collections use, and none thaws or freezes them. -/
theorem Database.answer_settings {σ : Type} [KeyValueStore σ] (r : Request) (db : Database σ) :
    (answer r db).2.settings.frozen = db.settings.frozen ∧
      (answer r db).2.settings.collectionDefaults = db.settings.collectionDefaults := by
  cases r with
  | register name options =>
    unfold answer
    dsimp only
    split <;> exact ⟨rfl, rfl⟩
  | _ => exact ⟨rfl, rfl⟩

end DocumentStore
