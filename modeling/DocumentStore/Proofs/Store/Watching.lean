import DocumentStore.Database.Basic
import DocumentStore.Store.Watched

/-!
# Stores under watch

A call of a watched store fails as planned and leaves the store in it alone, or it does there what it does
without a watch (`Watched.perform_cases`).  As long as no call is planned to fail, a program cannot tell the
watched store from the one in it: it gets the same answers, and leads the store in it to the same state
(`Database.run_unwatched`).
-/

namespace DocumentStore

variable {σ : Type}

namespace Watched

variable {α : Type} {call : σ → Except Error α × σ} {describe : α → Call}

def Faultless (s : Watched σ) : Prop := ∀ kind, s.faults kind = none

theorem ofStore_faultless (store : σ) : (ofStore store).Faultless := fun _ => rfl

/-- A call of the watched store went through to the store in it. -/
structure Passes (s : Watched σ) (call : σ → Except Error α × σ)
    (outcome : Except Error α × Watched σ) : Prop where
  result : outcome.1 = (call s.store).1
  store : outcome.2.store = (call s.store).2

theorem through_passes (s : Watched σ) : s.Passes call (s.through call describe) := by
  unfold through
  dsimp only
  split <;> exact ⟨rfl, rfl⟩

theorem through_faultless {s : Watched σ} (h : s.Faultless) :
    (s.through call describe).2.Faultless := by
  unfold through
  dsimp only
  split <;> exact h

theorem countDown_store (s : Watched σ) (kind : CallKind) :
    (s.countDown kind).2.store = s.store := by
  unfold countDown
  split <;> rfl

theorem kind_of_countDown {s : Watched σ} {kind : CallKind} {e : Error}
    (h : (s.countDown kind).1 = some e) : e.kind = .backend := by
  unfold countDown at h
  split at h
  · cases h
  · cases h
    rfl
  · cases h

theorem perform_cases (s : Watched σ) (kind : CallKind) :
    s.Passes call (s.perform kind call describe) ∨
      ∃ e, e.kind = .backend ∧ (s.perform kind call describe).1 = .error e ∧
        (s.perform kind call describe).2.store = s.store := by
  have hstore := s.countDown_store kind
  have hkind : ∀ e, (s.countDown kind).1 = some e → e.kind = .backend := fun _ => kind_of_countDown
  unfold perform
  generalize s.countDown kind = counted at hstore hkind ⊢
  obtain ⟨failure, s'⟩ := counted
  cases failure with
  | some e => exact .inr ⟨e, hkind e rfl, rfl, hstore⟩
  | none =>
    have hpasses : s'.Passes call (s'.through call describe) := s'.through_passes
    exact .inl ⟨hstore ▸ hpasses.result, hstore ▸ hpasses.store⟩

theorem perform_of_faultless {s : Watched σ} (h : s.Faultless) (kind : CallKind) :
    s.perform kind call describe = s.through call describe := by
  unfold perform countDown
  rw [h kind]

end Watched

/-! ## Databases with a watched store -/

namespace Database

variable {α : Type} {db : Database (Watched σ)}

def unwatched (db : Database (Watched σ)) : Database σ := db.withStore db.settings.store.store

/-- The same answer with and without the watch, and the same database behind it. -/
structure Agrees (outcome : α × Database (Watched σ)) (plain : α × Database σ) : Prop where
  result : outcome.1 = plain.1
  database : outcome.2.unwatched = plain.2
  faultless : outcome.2.settings.store.Faultless

/-- A call that goes through is the call without the watch. -/
theorem agrees_of_call {call : σ → Except Error α × σ} {describe : α → Call}
    (h : db.settings.store.Faultless) (kind : CallKind) :
    Agrees
      ((db.settings.store.perform kind call describe).1,
        db.withStore (db.settings.store.perform kind call describe).2)
      ((call db.settings.store.store).1, db.unwatched.withStore (call db.settings.store.store).2) := by
  rw [Watched.perform_of_faultless h]
  have hpasses : db.settings.store.Passes call (db.settings.store.through call describe) :=
    db.settings.store.through_passes
  exact ⟨hpasses.result, congrArg (db.unwatched.withStore ·) hpasses.store,
    Watched.through_faultless h⟩

variable [KeyValueStore σ]

theorem answer_unwatched (h : db.settings.store.Faultless) (r : Request) :
    Agrees (answer r db) (answer r db.unwatched) := by
  cases r with
  | get key => exact agrees_of_call h .get
  | scan base after limit => exact agrees_of_call h .scan
  | commit batch => exact agrees_of_call h .commit
  | isClosed => exact ⟨rfl, rfl, h⟩
  | freshId => exact ⟨rfl, rfl, h⟩
  | register name options =>
    unfold answer
    dsimp only
    rw [show db.unwatched.registry.register name options db.unwatched.settings.collectionDefaults =
      db.registry.register name options db.settings.collectionDefaults from rfl]
    split <;> exact ⟨rfl, rfl, h⟩
  | unregister name => exact ⟨rfl, rfl, h⟩

/-- A program gets the same result, and leads to the same entries, whether the store is watched or not. -/
theorem run_unwatched (h : db.settings.store.Faultless) (p : Program α) :
    Agrees (db.run p) (db.unwatched.run p) := by
  unfold run
  induction p generalizing db with
  | done a => exact ⟨rfl, rfl, h⟩
  | unfinished => exact ⟨rfl, rfl, h⟩
  | ask r next ih =>
    have hanswer := answer_unwatched h r
    unfold Program.run
    rw [← hanswer.result, ← hanswer.database]
    exact ih _ hanswer.faultless

end Database

end DocumentStore
