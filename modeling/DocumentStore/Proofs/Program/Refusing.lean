import DocumentStore.Proofs.Program.Interference
import DocumentStore.Proofs.Program.Regimes

/-!
# Programs on a closed store

A closed store answers reads with an error, and commits with an error or a conflict.  A program under the
regime of such answers (`Regime.barred`) comes to an end, with a result that is known.  So it does however
it is interleaved with others, since a store that is closed stays so and keeps its entries.
-/

namespace DocumentStore

/-- The answers that a request can have from a closed store. -/
def Request.Refused : (r : Request) → r.Answer → Prop
  | get _, a => (a : Except Error (Option Entry)) = .error .closedStore
  | scan .., a => (a : Except Error (List Entry)) = .error .closedStore
  | commit _, a => (a : Except Error CommitResult) = .error .closedStore ∨ a = .ok .conflict
  | isClosed, a => (a : Bool) = true
  | freshId, _ | register .., _ | unregister _, _ => True

/-! ## Closed databases -/

namespace Database

variable {db : MemoryDatabase}

theorem answer_refused (h : db.memory.closed = true) (r : Request) :
    r.Refused (answer r db).1 ∧ (answer r db).2.memory.table = db.memory.table ∧
      (answer r db).2.memory.closed = true := by
  cases r with
  | get key =>
    have hget : db.memory.get key = (.error .closedStore, db.memory) := by
      unfold Memory.get
      rw [if_pos h]
    exact ⟨congrArg Prod.fst hget, congrArg (·.2.table) hget,
      (congrArg (·.2.closed) hget).trans h⟩
  | scan base after limit =>
    have hscan : db.memory.scan base after limit = (.error .closedStore, db.memory) := by
      unfold Memory.scan
      rw [if_pos h]
    exact ⟨congrArg Prod.fst hscan, congrArg (·.2.table) hscan,
      (congrArg (·.2.closed) hscan).trans h⟩
  | commit b =>
    show ((KeyValueStore.commit db.settings.store b).1 = _ ∨
        (KeyValueStore.commit db.settings.store b).1 = _) ∧
      (KeyValueStore.commit db.settings.store b).2.store.table = _ ∧
      (KeyValueStore.commit db.settings.store b).2.store.closed = true
    by_cases hcontended : (!b.checks.isEmpty && db.settings.store.remaining != 0) = true
    · rw [commit_of_contended hcontended]
      refine ⟨.inr rfl, ?_⟩
      dsimp only
      split <;> exact ⟨rfl, h⟩
    · have hcommit : db.settings.store.store.commit b =
          (.error .closedStore, db.settings.store.store) := by
        unfold Memory.commit
        rw [if_pos (show db.settings.store.store.closed = true from h)]
      rw [commit_of_quiet hcontended, hcommit]
      exact ⟨.inl rfl, rfl, h⟩
  | isClosed => exact ⟨h, rfl, h⟩
  | register name options =>
    refine ⟨trivial, ?_⟩
    unfold answer
    dsimp only
    split <;> exact ⟨rfl, h⟩
  | freshId => exact ⟨trivial, rfl, h⟩
  | unregister name => exact ⟨trivial, rfl, h⟩

/-- Whatever others do to a closed database, no entry changes. -/
theorem deeds_of_closed (h : db.memory.closed = true) (deeds : List Deed) :
    (deeds.foldl Deed.on db).memory.table = db.memory.table ∧
      (deeds.foldl Deed.on db).memory.closed = true := by
  induction deeds generalizing db with
  | nil => exact ⟨rfl, h⟩
  | cons d deeds ih =>
    have hd : (d.on db).memory.table = db.memory.table ∧ (d.on db).memory.closed = true := by
      cases d with
      | request r => exact (answer_refused h r).2
      | contend n => exact ⟨rfl, h⟩
      | close => exact ⟨rfl, rfl⟩
    obtain ⟨htable, hclosed⟩ := ih hd.2
    exact ⟨htable.trans hd.1, hclosed⟩

end Database

/-! ## Programs -/

/-- On a closed store a program ends, and an action may end with any error. -/
def Regime.barred : Regime := ⟨Request.Refused, fun _ => True, False⟩

variable {α : Type}

theorem Regime.Allows.barred {post : α → Prop} {r : Except Error α} (h : ∀ a, r = .ok a → post a) :
    Regime.barred.Allows post r := by
  cases r with
  | ok a => exact h a rfl
  | error e => trivial

/-- A barred program comes to its end beside others, and no entry changes. -/
theorem Program.Under.settles {post : α → Prop} {p : Program α} (h : p.Under .barred post)
    {s : Shared} (hclosed : s.database.memory.closed = true) :
    p.Settles (fun a s' => post a ∧ s'.database.memory.table = s.database.memory.table) s := by
  induction p generalizing s with
  | done a => exact ⟨a, s, rfl, h, rfl⟩
  | unfinished => exact False.elim h
  | ask r next ih =>
    obtain ⟨htable, hcurrent⟩ := Database.deeds_of_closed hclosed (s.deeds.headD [])
    obtain ⟨hrefused, htable', hclosed'⟩ := Database.answer_refused hcurrent r
    obtain ⟨a, s', hrun, hpost, hsame⟩ := ih _ (h _ hrefused) (s := (s.answer r).2) hclosed'
    exact ⟨a, s', hrun, hpost, hsame.trans (htable'.trans htable)⟩

namespace Action

theorem isClosed_barred : Action.isClosed.Under .barred (· = true) := fun _ h => h

theorem freshId_barred : Action.freshId.Under .barred fun _ => True := fun _ h => h

theorem get_barred (key : Key) : (Action.get key).Under .barred fun _ => False :=
  fun _ h => .barred fun _ ha => nomatch h.symm.trans ha

theorem commit_barred (b : Batch) : (Action.commit b).Under .barred (· = .conflict) := by
  intro a h
  refine .barred fun result ha => ?_
  rcases h with h | h
  · exact nomatch h.symm.trans ha
  · exact Except.ok.inj (ha.symm.trans h)

end Action

end DocumentStore
