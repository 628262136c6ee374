import DocumentStore.Proofs.Store.Commits

/-!
# Programs that run alone

`Program.Finishes` says of a program that it comes to an end on a database that nobody else uses, and
what holds then.  On an open store reads leave everything but counters as it is, and they count the
entries that they hand out; a commit whose checks hold takes effect unless the store is made to
conflict.
-/

namespace DocumentStore

namespace Database

/-- Databases that differ at most in counters, identities and registered collections. -/
structure Alike (db db' : MemoryDatabase) : Prop where
  table : db'.memory.table = db.memory.table
  version : db'.memory.version = db.memory.version
  closed : db'.memory.closed = db.memory.closed
  remaining : db'.settings.store.remaining = db.settings.store.remaining

theorem Alike.refl (db : MemoryDatabase) : db.Alike db := ⟨rfl, rfl, rfl, rfl⟩

theorem Alike.trans {db db' db'' : MemoryDatabase} (h : db.Alike db') (h' : db'.Alike db'') :
    db.Alike db'' :=
  ⟨h'.table.trans h.table, h'.version.trans h.version, h'.closed.trans h.closed,
    h'.remaining.trans h.remaining⟩

/-- A batch that conflicts changes no entry, and has a check that does not hold or a store that is
made to conflict as the reason. -/
structure Refuses (db : MemoryDatabase) (b : Batch) (db' : MemoryDatabase) : Prop where
  table : db'.memory.table = db.memory.table
  reason : (∃ check ∈ b.checks, db.memory.holds check = false) ∨
    db.settings.store.remaining ≠ 0

end Database

namespace Memory

variable (m : Memory)

theorem get_of_open (key : Key) (h : m.closed = false) : m.get key =
    (.ok (m.table.find? key),
      { m with entriesRead := m.entriesRead + (m.table.find? key).toList.length }) := by
  unfold get
  rw [if_neg (by simp [h])]
  split
  · rename_i e hfind
    rw [hfind]
    rfl
  · rename_i hfind
    rw [hfind]
    rfl

theorem scan_of_open (base : Key) (after : Option Key) (limit : Nat) (h : m.closed = false) :
    m.scan base after limit = (.ok (m.table.scan base after limit),
      { m with entriesRead := m.entriesRead + (m.table.scan base after limit).length }) := by
  unfold scan
  rw [if_neg (by simp [h])]

theorem commit_of_holds {b : Batch} (h : m.closed = false)
    (hholds : ∀ check ∈ b.checks, m.holds check = true) : m.commit b =
    (.ok (.committed (m.version + 1)),
      { m with
        table := m.table.applyAll (m.version + 1) b.mutations
        version := m.version + 1
        commits := m.commits + 1 }) := by
  unfold commit
  rw [if_neg (by simp [h]), if_pos (List.all_eq_true.2 hholds)]

end Memory

variable {α β : Type} {db : MemoryDatabase}

namespace Program

/-- What every answer to a request keeps true, every program keeps true. -/
theorem run_invariant {S : Type} {answer : (r : Request) → S → r.Answer × S} (inv : S → Prop)
    (hanswer : ∀ r s, inv s → inv (answer r s).2) (p : Program α) {s : S} (hs : inv s) :
    inv (p.run answer s).2 := by
  induction p generalizing s with
  | done a => exact hs
  | ask r next ih => exact ih _ (hanswer r s hs)
  | unfinished => exact hs

/-- Run alone, the program comes to an end, and its result and the database satisfy `post`. -/
def Finishes (post : α → MemoryDatabase → Prop) (p : Program α) (db : MemoryDatabase) : Prop :=
  ∃ a db', db.run p = (some a, db') ∧ post a db'

namespace Finishes

variable {post post' : α → MemoryDatabase → Prop}

theorem imp (himp : ∀ a db, post a db → post' a db) {p : Program α} (h : p.Finishes post db) :
    p.Finishes post' db := by
  obtain ⟨a, db', hrun, hpost⟩ := h
  exact ⟨a, db', hrun, himp a db' hpost⟩

theorem pure {a : α} (h : post a db) : (Pure.pure a : Program α).Finishes post db :=
  ⟨a, db, rfl, h⟩

theorem bind {post : β → MemoryDatabase → Prop} {p : Program α} {f : α → Program β}
    (h : p.Finishes (fun a db => (f a).Finishes post db) db) : (p >>= f).Finishes post db := by
  obtain ⟨a, db', hrun, b, db'', hrun', hpost⟩ := h
  refine ⟨b, db'', ?_, hpost⟩
  unfold Database.run at hrun hrun' ⊢
  rw [run_bind, hrun]
  exact hrun'

/-- What is known of the database that a run leads to. -/
theorem also {Q : MemoryDatabase → Prop} {p : Program α} (h : p.Finishes post db)
    (hQ : Q (db.run p).2) : p.Finishes (fun a db' => post a db' ∧ Q db') db := by
  obtain ⟨a, db', hrun, hpost⟩ := h
  rw [hrun] at hQ
  exact ⟨a, db', hrun, hpost, hQ⟩

theorem isClosed :
    Action.isClosed.Finishes (fun closed db' => closed = db.memory.closed ∧ db' = db) db :=
  ⟨_, _, rfl, rfl, rfl⟩

theorem freshId :
    Action.freshId.Finishes (fun id db' => id = db.settings.ids.next.1 ∧ db.Alike db' ∧
      db'.settings.ids = db.settings.ids.next.2) db :=
  ⟨_, _, rfl, rfl, ⟨rfl, rfl, rfl, rfl⟩, rfl⟩

end Finishes

end Program

namespace Action

/-- Run alone, the action comes to an end without an error. -/
def Finishes (post : α → MemoryDatabase → Prop) (p : Action α) (db : MemoryDatabase) : Prop :=
  Program.Finishes (fun r db' => ∃ a, r = .ok a ∧ post a db') p db

namespace Finishes

variable {post post' : α → MemoryDatabase → Prop}

theorem imp (himp : ∀ a db, post a db → post' a db) {p : Action α} (h : p.Finishes post db) :
    p.Finishes post' db :=
  Program.Finishes.imp (fun _ _ ⟨a, ha, hpost⟩ => ⟨a, ha, himp a _ hpost⟩) h

theorem ofExcept {r : Except Error α} {a : α} (hr : r = .ok a) (h : post a db) :
    (Action.ofExcept r).Finishes post db :=
  ⟨_, db, rfl, a, hr, h⟩

theorem pure {a : α} (h : post a db) : (Pure.pure a : Action α).Finishes post db :=
  ofExcept rfl h

theorem bind {post : β → MemoryDatabase → Prop} {p : Action α} {f : α → Action β}
    (h : p.Finishes (fun a db => (f a).Finishes post db) db) : (p >>= f).Finishes post db := by
  refine Program.Finishes.bind (Program.Finishes.imp ?_ h)
  rintro r db' ⟨a, rfl, ha⟩
  exact ha

/-- What follows may fail. -/
theorem andThen {post : Except Error β → MemoryDatabase → Prop} {p : Action α} {f : α → Action β}
    (h : p.Finishes (fun a db => Program.Finishes post (f a) db) db) :
    Program.Finishes post (p >>= f : Action β) db := by
  refine Program.Finishes.bind (Program.Finishes.imp ?_ h)
  rintro r db' ⟨a, rfl, ha⟩
  exact ha

theorem lift {p : Program α} (h : p.Finishes post db) :
    (liftM p : Action α).Finishes post db :=
  Program.Finishes.bind (Program.Finishes.imp (fun _ _ ha => ofExcept rfl ha) h)

/-- What an action that finishes without an error gives back. -/
theorem run_eq {p : Action α} (h : p.Finishes post db) :
    ∃ a db', db.run p = (some (.ok a), db') ∧ post a db' := by
  obtain ⟨r, db', hrun, a, rfl, hpost⟩ := h
  exact ⟨a, db', hrun, hpost⟩

/-! ## Requests on an open store -/

theorem get {key : Key} (hopen : db.memory.closed = false) :
    (Action.get key).Finishes (fun e db' => e = db.memory.table.find? key ∧ db.Alike db' ∧
      db'.memory.entriesRead = db.memory.entriesRead + e.toList.length) db := by
  -- only the count of entries that were read changes
  have hget := db.memory.get_of_open key hopen
  have hmemory : (Database.answer (.get key) db).2.memory = (db.memory.get key).2 := rfl
  rw [hget] at hmemory
  refine ⟨_, (Database.answer (.get key) db).2, rfl, _, congrArg Prod.fst hget, rfl, ?_, ?_⟩
  · exact ⟨by rw [hmemory], by rw [hmemory], by rw [hmemory], rfl⟩
  · rw [hmemory]

theorem scan {base : Key} {after : Option Key} {limit : Nat} (hopen : db.memory.closed = false) :
    (Action.scan base after limit).Finishes
      (fun page db' => page = db.memory.table.scan base after limit ∧ db.Alike db' ∧
        db'.memory.entriesRead = db.memory.entriesRead + page.length) db := by
  have hscan := db.memory.scan_of_open base after limit hopen
  have hmemory : (Database.answer (.scan base after limit) db).2.memory =
    (db.memory.scan base after limit).2 := rfl
  rw [hscan] at hmemory
  refine ⟨_, (Database.answer (.scan base after limit) db).2, rfl, _, congrArg Prod.fst hscan, rfl,
    ?_, ?_⟩
  · exact ⟨by rw [hmemory], by rw [hmemory], by rw [hmemory], rfl⟩
  · rw [hmemory]

/-- On an open store that does not conflict a commit takes effect if all its checks hold. -/
theorem commit {b : Batch} (hopen : db.memory.closed = false)
    (hquiet : db.settings.store.remaining = 0)
    (hholds : ∀ check ∈ b.checks, db.memory.holds check = true) :
    (Action.commit b).Finishes (fun result db' => result.isCommitted = true ∧
      Commit.Effective ⟨b, db.memory, db'.memory⟩ ∧ db'.memory.closed = false ∧
      db'.settings.store.remaining = 0) db := by
  -- the store passes the batch on to the memory, where all checks hold
  have hcontended : ¬ (!b.checks.isEmpty && db.settings.store.remaining != 0) = true := by
    simp [hquiet]
  have hcommit := Database.commit_of_quiet hcontended
  have heffect := db.memory.commit_of_holds hopen hholds
  have hmemory : (Database.answer (.commit b) db).2.memory = (db.memory.commit b).2 :=
    congrArg (fun r => r.2.store) hcommit
  rw [heffect] at hmemory
  refine ⟨_, (Database.answer (.commit b) db).2, rfl, .committed (db.memory.version + 1), ?_, rfl,
    ⟨hholds, ?_, ?_⟩, ?_, ?_⟩
  · refine (congrArg Prod.fst hcommit).trans ?_
    exact congrArg Prod.fst heffect
  · show (Database.answer (.commit b) db).2.memory.table = db.memory.table.applyAll
      (Database.answer (.commit b) db).2.memory.version b.mutations
    rw [hmemory]
  · show (Database.answer (.commit b) db).2.memory.version = db.memory.version + 1
    rw [hmemory]
  · rw [hmemory]
    exact hopen
  · have hremaining : (Database.answer (.commit b) db).2.settings.store.remaining =
        db.settings.store.remaining := congrArg (fun r => r.2.remaining) hcommit
    rw [hremaining, hquiet]

end Finishes

/-! ## Actions that may fail -/

/-- Run alone, the action comes to an end, with a result that satisfies `post` or with an error that
satisfies `fail`. -/
def Ends (post : α → MemoryDatabase → Prop) (fail : Error → MemoryDatabase → Prop) (p : Action α)
    (db : MemoryDatabase) : Prop :=
  Program.Finishes (fun r db' =>
    match r with
    | .ok a => post a db'
    | .error e => fail e db') p db

namespace Ends

variable {post post' : α → MemoryDatabase → Prop} {fail fail' : Error → MemoryDatabase → Prop}

theorem imp (hpost : ∀ a db, post a db → post' a db) (hfail : ∀ e db, fail e db → fail' e db)
    {p : Action α} (h : p.Ends post fail db) : p.Ends post' fail' db := by
  refine Program.Finishes.imp ?_ h
  intro r db' hr
  cases r with
  | ok a => exact hpost a db' hr
  | error e => exact hfail e db' hr

theorem of_finishes {p : Action α} (h : p.Finishes post db) : p.Ends post fail db :=
  Program.Finishes.imp (fun _ _ ⟨_, hr, hpost⟩ => hr ▸ hpost) h

theorem also {Q : MemoryDatabase → Prop} {p : Action α} (h : p.Ends post fail db)
    (hQ : Q (db.run p).2) :
    p.Ends (fun a db' => post a db' ∧ Q db') (fun e db' => fail e db' ∧ Q db') db := by
  refine Program.Finishes.imp ?_ (Program.Finishes.also h hQ)
  rintro r db' ⟨hr, hdb'⟩
  cases r with
  | ok a => exact ⟨hr, hdb'⟩
  | error e => exact ⟨hr, hdb'⟩

/-- What is known of an error that a run ends with. -/
theorem fail_of_run {e : Error} {db' : MemoryDatabase} {p : Action α} (h : p.Ends post fail db)
    (hrun : db.run p = (some (.error e), db')) : fail e db' := by
  obtain ⟨r, db'', hrun', hr⟩ := h
  cases hrun.symm.trans hrun'
  exact hr

theorem ofExcept {r : Except Error α} (hpost : ∀ a, r = .ok a → post a db)
    (hfail : ∀ e, r = .error e → fail e db) : (Action.ofExcept r).Ends post fail db := by
  refine ⟨r, db, rfl, ?_⟩
  cases r with
  | ok a => exact hpost a rfl
  | error e => exact hfail e rfl

theorem pure {a : α} (h : post a db) : (Pure.pure a : Action α).Ends post fail db :=
  Program.Finishes.pure h

theorem throw {e : Error} (h : fail e db) :
    (MonadExcept.throw e : Action α).Ends post fail db :=
  Program.Finishes.pure h

theorem bind {post : β → MemoryDatabase → Prop} {p : Action α} {f : α → Action β}
    (h : p.Ends (fun a db => (f a).Ends post fail db) fail db) :
    (p >>= f).Ends post fail db := by
  refine Program.Finishes.bind (Program.Finishes.imp ?_ h)
  intro r db' hr
  cases r with
  | ok a => exact hr
  | error e => exact Program.Finishes.pure hr

theorem lift {p : Program α} (h : p.Finishes post db) :
    (liftM p : Action α).Ends post fail db :=
  Program.Finishes.bind (Program.Finishes.imp (fun _ db' ha => ⟨_, db', rfl, ha⟩) h)

/-- A commit takes effect, conflicts, or fails because the store is closed. -/
theorem commit {b : Batch} :
    (Action.commit b).Ends
      (fun result db' => match result with
        | .committed _ => Commit.Effective ⟨b, db.memory, db'.memory⟩
        | .conflict => db.Refuses b db')
      (fun e db' => e = .closedStore ∧ db.memory.closed = true ∧
        db'.memory.table = db.memory.table) db := by
  have hrun : db.run (Action.commit b) = (some (KeyValueStore.commit db.settings.store b).1,
      db.withStore (KeyValueStore.commit db.settings.store b).2) := rfl
  by_cases hcontended : (!b.checks.isEmpty && db.settings.store.remaining != 0) = true
  -- a conflict that was asked for
  · have hremaining : db.settings.store.remaining ≠ 0 := by
      simpa using (Bool.and_eq_true_iff.1 hcontended).2
    rw [Database.commit_of_contended hcontended] at hrun
    refine ⟨_, _, hrun, ?_, .inr hremaining⟩
    show (ite _ _ _ : Contended Memory).store.table = db.settings.store.store.table
    split <;> rfl
  -- the memory decides
  · rw [Database.commit_of_quiet hcontended] at hrun
    unfold Memory.commit at hrun
    by_cases hclosed : db.memory.closed = true
    · rw [if_pos (show db.settings.store.store.closed = true from hclosed)] at hrun
      exact ⟨_, _, hrun, rfl, hclosed, rfl⟩
    · rw [if_neg (show ¬ db.settings.store.store.closed = true from hclosed)] at hrun
      by_cases hholds : b.checks.all db.settings.store.store.holds = true
      · rw [if_pos hholds] at hrun
        exact ⟨_, _, hrun, List.all_eq_true.1 hholds, rfl, rfl⟩
      · rw [if_neg hholds] at hrun
        have hfails : ∃ check ∈ b.checks, db.settings.store.store.holds check = false := by
          simpa using hholds
        exact ⟨_, _, hrun, rfl, .inl hfails⟩

end Ends

/-! ## One action after another -/

variable {db' : MemoryDatabase} {p : Action α} {f : α → Action β}

theorem run_bind_of_ok {a : α} (h : db.run p = (some (.ok a), db')) :
    db.run (p >>= f : Action β) = db'.run (f a) := by
  unfold Database.run at h ⊢
  refine (Program.run_bind Database.answer p _ db).trans ?_
  rw [h]
  rfl

/-- What follows an action that has no result is left out. -/
theorem run_bind_of_not_ok (h : ¬ ∃ a, (db.run p).1 = some (.ok a)) :
    (¬ ∃ b, (db.run (p >>= f : Action β)).1 = some (.ok b)) ∧
      (db.run (p >>= f : Action β)).2 = (db.run p).2 := by
  have hbind : db.run (p >>= f : Action β) = _ := Program.run_bind Database.answer p _ db
  rw [hbind]
  change ¬ ∃ a, (Program.run Database.answer p db).1 = _ at h
  show _ ∧ _ = (Program.run Database.answer p db).2
  generalize Program.run Database.answer p db = result at h ⊢
  obtain ⟨_ | _ | a, db'⟩ := result
  · exact ⟨nofun, rfl⟩
  · exact ⟨nofun, rfl⟩
  · exact absurd ⟨a, rfl⟩ h

end Action

end DocumentStore
