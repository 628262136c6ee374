import DocumentStore.Proofs.Program.Finishing

/-!
# What a store hands out

`Program.handed` are the entries that the store hands out while a program runs alone, in their order and
with repetitions.  The store counts each of them, whatever the program is (`Program.entriesRead_run`),
so that an exact account of the entries is an exact account of the count.  `Program.Hands` makes such
accounts, one part of a program after another.
-/

namespace DocumentStore

def Request.handed : (r : Request) → r.Answer → List Entry
  | .get _, (answer : Except Error (Option Entry)) => answer.toOption.join.toList
  | .scan .., (answer : Except Error (List Entry)) => answer.toOption.getD []
  | _, _ => []

variable {α β : Type} {db : MemoryDatabase}

/-! ## The count of a store -/

namespace Memory

theorem entriesRead_get (m : Memory) (key : Key) :
    (m.get key).2.entriesRead =
      m.entriesRead + (Request.handed (.get key) (m.get key).1).length := by
  by_cases hclosed : m.closed = true
  · rw [get, if_pos hclosed]
    rfl
  · rw [m.get_of_open key (Bool.eq_false_iff.2 hclosed)]
    rfl

theorem entriesRead_scan (m : Memory) (base : Key) (after : Option Key) (limit : Nat) :
    (m.scan base after limit).2.entriesRead =
      m.entriesRead + (Request.handed (.scan base after limit) (m.scan base after limit).1).length := by
  by_cases hclosed : m.closed = true
  · rw [scan, if_pos hclosed]
    rfl
  · rw [m.scan_of_open base after limit (Bool.eq_false_iff.2 hclosed)]
    rfl

theorem entriesRead_commit (m : Memory) (b : Batch) :
    (m.commit b).2.entriesRead = m.entriesRead := by
  unfold commit
  split
  · rfl
  · split <;> rfl

end Memory

theorem Database.entriesRead_commit (db : MemoryDatabase) (b : Batch) :
    (answer (.commit b) db).2.memory.entriesRead = db.memory.entriesRead := by
  have hanswer : (answer (.commit b) db).2 =
      db.withStore (KeyValueStore.commit db.settings.store b).2 := rfl
  rw [hanswer]
  by_cases hcontended : (!b.checks.isEmpty && db.settings.store.remaining != 0) = true
  · rw [commit_of_contended hcontended]
    split <;> rfl
  · rw [commit_of_quiet hcontended]
    exact db.memory.entriesRead_commit b

/-- An answer counts the entries in it. -/
theorem Database.entriesRead_answer (db : MemoryDatabase) (r : Request) :
    (answer r db).2.memory.entriesRead =
      db.memory.entriesRead + (r.handed (answer r db).1).length := by
  cases r with
  | get key => exact db.memory.entriesRead_get key
  | scan base after limit => exact db.memory.entriesRead_scan base after limit
  | commit b => exact db.entriesRead_commit b
  | isClosed => rfl
  | freshId => rfl
  | register name options =>
    show (answer (.register name options) db).2.memory.entriesRead = db.memory.entriesRead
    simp only [answer]
    split <;> rfl
  | unregister name => rfl

/-! ## Runs -/

namespace Program

/-- The entries that the store hands out in a run of the program alone. -/
def handed : Program α → MemoryDatabase → List Entry
  | done _, _ => []
  | ask r next, db =>
    r.handed (Database.answer r db).1 ++
      (next (Database.answer r db).1).handed (Database.answer r db).2
  | unfinished, _ => []

theorem handed_bind (p : Program α) (f : α → Program β) (db : MemoryDatabase) :
    (p >>= f).handed db = p.handed db ++
      ((db.run p).1.map fun a => (f a).handed (db.run p).2).getD [] := by
  show (p.bind f).handed db = _
  induction p generalizing db with
  | done a => rfl
  | ask r next ih =>
    have hrun : db.run (ask r next) = (Database.answer r db).2.run (next (Database.answer r db).1) :=
      rfl
    rw [hrun]
    show _ ++ ((next _).bind f).handed _ = (_ ++ (next _).handed _) ++ _
    rw [ih, List.append_assoc]
  | unfinished => rfl

/-- The store counts what it hands out. -/
theorem entriesRead_run (p : Program α) (db : MemoryDatabase) :
    (db.run p).2.memory.entriesRead = db.memory.entriesRead + (p.handed db).length := by
  induction p generalizing db with
  | done a => rfl
  | ask r next ih =>
    have hrun : db.run (ask r next) = (Database.answer r db).2.run (next (Database.answer r db).1) :=
      rfl
    rw [hrun, ih, db.entriesRead_answer r]
    show _ = _ + (_ ++ (next _).handed _).length
    rw [List.length_append, Nat.add_assoc]
  | unfinished => rfl

/-- Run alone, the program comes to an end, and the entries that it is handed, its result and the
database satisfy `post`. -/
def Hands (post : List Entry → α → MemoryDatabase → Prop) (p : Program α) (db : MemoryDatabase) :
    Prop :=
  p.Finishes (post (p.handed db)) db

namespace Hands

variable {post post' : List Entry → α → MemoryDatabase → Prop} {p : Program α}

theorem imp (himp : ∀ es a db, post es a db → post' es a db) (h : p.Hands post db) :
    p.Hands post' db :=
  Finishes.imp (himp (p.handed db)) h

theorem pure {a : α} (h : post [] a db) : (Pure.pure a : Program α).Hands post db := Finishes.pure h

theorem bind {post : List Entry → β → MemoryDatabase → Prop} {f : α → Program β}
    (h : p.Hands (fun es a db => (f a).Hands (fun es' => post (es ++ es')) db) db) :
    (p >>= f).Hands post db := by
  obtain ⟨a, db', hrun, hf⟩ := h
  unfold Hands
  rw [handed_bind, hrun]
  apply Finishes.bind
  exact ⟨a, db', hrun, hf⟩

theorem isClosed :
    Action.isClosed.Hands (fun es closed db' => es = [] ∧ closed = db.memory.closed ∧ db' = db) db :=
  ⟨_, _, rfl, rfl, rfl, rfl⟩

/-- What is known of the run besides. -/
theorem also {Q : α → MemoryDatabase → Prop} (h : p.Hands post db) (hQ : p.Finishes Q db) :
    p.Hands (fun es a db' => post es a db' ∧ Q a db') db := by
  obtain ⟨a, db', hrun, hpost⟩ := h
  obtain ⟨a', db'', hrun', hQ⟩ := hQ
  cases hrun.symm.trans hrun'
  exact ⟨a, db', hrun, hpost, hQ⟩

end Hands

end Program

namespace Action

def Hands (post : List Entry → α → MemoryDatabase → Prop) (p : Action α) (db : MemoryDatabase) :
    Prop :=
  Program.Hands (fun es r db' => ∃ a, r = .ok a ∧ post es a db') p db

namespace Hands

variable {post post' : List Entry → α → MemoryDatabase → Prop} {p : Action α}

theorem imp (himp : ∀ es a db, post es a db → post' es a db) (h : p.Hands post db) :
    p.Hands post' db := by
  apply Program.Hands.imp _ h
  intro es r db' hr
  obtain ⟨a, hok, ha⟩ := hr
  exact ⟨a, hok, himp es a db' ha⟩

theorem pure {a : α} (h : post [] a db) : (Pure.pure a : Action α).Hands post db := Finishes.pure h

theorem bind {post : List Entry → β → MemoryDatabase → Prop} {f : α → Action β}
    (h : p.Hands (fun es a db => (f a).Hands (fun es' => post (es ++ es')) db) db) :
    (p >>= f).Hands post db := by
  refine Program.Hands.bind (Program.Hands.imp ?_ h)
  intro es r db' hr
  obtain ⟨a, rfl, ha⟩ := hr
  exact ha

theorem lift {p : Program α} (h : p.Hands post db) : (liftM p : Action α).Hands post db := by
  refine Program.Hands.bind (Program.Hands.imp ?_ h)
  intro es a db' ha
  rw [← List.append_nil es] at ha
  exact ⟨_, db', rfl, a, rfl, ha⟩

theorem also {Q : α → MemoryDatabase → Prop} (h : p.Hands post db) (hQ : p.Finishes Q db) :
    p.Hands (fun es a db' => post es a db' ∧ Q a db') db := by
  obtain ⟨r, db', hrun, a, rfl, hpost⟩ := h
  obtain ⟨r', db'', hrun', a', rfl, hQ⟩ := hQ
  cases hrun.symm.trans hrun'
  exact ⟨_, db', hrun, a, rfl, hpost, hQ⟩

theorem get {key : Key} (hopen : db.memory.closed = false) :
    (Action.get key).Hands (fun es e _ => es = e.toList) db := by
  have hget : (db.memory.get key).1 = .ok (db.memory.table.find? key) :=
    congrArg Prod.fst (db.memory.get_of_open key hopen)
  refine ⟨_, _, rfl, _, hget, ?_⟩
  show (Except.toOption (db.memory.get key).1).join.toList ++ [] = _
  rw [hget, List.append_nil]
  rfl

theorem scan {base : Key} {after : Option Key} {limit : Nat} (hopen : db.memory.closed = false) :
    (Action.scan base after limit).Hands (fun es page _ => es = page) db := by
  have hscan : (db.memory.scan base after limit).1 = .ok (db.memory.table.scan base after limit) :=
    congrArg Prod.fst (db.memory.scan_of_open base after limit hopen)
  refine ⟨_, _, rfl, _, hscan, ?_⟩
  show (Except.toOption (db.memory.scan base after limit).1).getD [] ++ [] = _
  rw [hscan, List.append_nil]
  rfl

end Hands

end Action

end DocumentStore
