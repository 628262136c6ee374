import DocumentStore.Proofs.Program.Counting

/-!
# Programs that run beside others

Before each request of a program, others may make requests of their own to the same database, commits
among them, make its next commits conflict, or close it.  What they do while the program has no request
is met by its next one.  `Program.Settles` says that a program comes to an end whatever they do, and
what holds then.
-/

namespace DocumentStore

inductive Deed where
  | request (r : Request)
  | contend (n : UInt32)
  | close

namespace Deed

def on (db : MemoryDatabase) : Deed → MemoryDatabase
  | request r => (Database.answer r db).2
  | contend n => db.withStore (db.settings.store.failNext n)
  | close => db.close

def Harmless (d : Deed) : Prop :=
  ∀ db : MemoryDatabase,
    (on db d).memory.table = db.memory.table ∧ (on db d).memory.closed = db.memory.closed

end Deed

/-- A database that a program shares with others: what these will do before each of its next requests,
and the memories that answered its requests so far. -/
structure Shared where
  database : MemoryDatabase
  deeds : List (List Deed)
  met : List Memory

namespace Shared

def start (db : MemoryDatabase) (deeds : List (List Deed)) : Shared := ⟨db, deeds, []⟩

def current (s : Shared) : MemoryDatabase := (s.deeds.headD []).foldl Deed.on s.database

def answer (r : Request) (s : Shared) : r.Answer × Shared :=
  ((Database.answer r s.current).1,
    ⟨(Database.answer r s.current).2, s.deeds.tail, s.met ++ [s.current.memory]⟩)

end Shared

variable {α β : Type} {s : Shared}

namespace Program

/-- Run beside others, the program comes to an end, and its result and the database satisfy `post`. -/
def Settles (post : α → Shared → Prop) (p : Program α) (s : Shared) : Prop :=
  ∃ a s', p.run Shared.answer s = (some a, s') ∧ post a s'

namespace Settles

variable {post post' : α → Shared → Prop}

theorem imp (himp : ∀ a s, post a s → post' a s) {p : Program α} (h : p.Settles post s) :
    p.Settles post' s := by
  obtain ⟨a, s', hrun, hpost⟩ := h
  exact ⟨a, s', hrun, himp a s' hpost⟩

theorem pure {a : α} (h : post a s) : (Pure.pure a : Program α).Settles post s :=
  ⟨a, s, rfl, h⟩

theorem bind {post : β → Shared → Prop} {p : Program α} {f : α → Program β}
    (h : p.Settles (fun a s => (f a).Settles post s) s) : (p >>= f).Settles post s := by
  obtain ⟨a, s', hrun, b, s'', hrun', hpost⟩ := h
  refine ⟨b, s'', ?_, hpost⟩
  rw [run_bind, hrun]
  exact hrun'

theorem and {p : Program α} (h : p.Settles post s) (h' : p.Settles post' s) :
    p.Settles (fun a s => post a s ∧ post' a s) s := by
  obtain ⟨a, s', hrun, hpost⟩ := h
  obtain ⟨a', s'', hrun', hpost'⟩ := h'
  cases hrun.symm.trans hrun'
  exact ⟨a, s', hrun, hpost, hpost'⟩

/-- What is known of the database that a run leads to. -/
theorem also {post : α → Shared → Prop} {Q : Shared → Prop} {p : Program α}
    (h : p.Settles post s) (hQ : Q (p.run Shared.answer s).2) :
    p.Settles (fun a s' => post a s' ∧ Q s') s := by
  obtain ⟨a, s', hrun, hpost⟩ := h
  rw [hrun] at hQ
  exact ⟨a, s', hrun, hpost, hQ⟩

theorem isClosed :
    Action.isClosed.Settles (fun closed s' => closed = s.current.memory.closed ∧
      s'.met = s.met ++ [s.current.memory]) s :=
  ⟨_, _, rfl, rfl, rfl⟩

/-- A scan finds the entries as others have left them, and leaves them so. -/
theorem scan {base : Key} {after : Option Key} {limit : Nat} :
    Program.Settles (fun r s' => s'.met = s.met ++ [s.current.memory] ∧ s'.deeds = s.deeds.tail ∧
        s'.database.memory.table = s.current.memory.table ∧
        (s.current.memory.closed = true ∧ r = .error .closedStore ∨
          s.current.memory.closed = false ∧ r = .ok (s.current.memory.table.scan base after limit)))
      (Action.scan base after limit) s := by
  have hmemory : (Database.answer (.scan base after limit) s.current).2.memory =
    (s.current.memory.scan base after limit).2 := rfl
  have hresult : (Database.answer (.scan base after limit) s.current).1 =
    (s.current.memory.scan base after limit).1 := rfl
  refine ⟨_, (Shared.answer (.scan base after limit) s).2, rfl, rfl, rfl, ?_, ?_⟩
  · show (Database.answer (.scan base after limit) s.current).2.memory.table = _
    rw [hmemory]
    unfold Memory.scan
    split <;> rfl
  · show s.current.memory.closed = true ∧
        (Database.answer (.scan base after limit) s.current).1 = .error .closedStore ∨
      s.current.memory.closed = false ∧
        (Database.answer (.scan base after limit) s.current).1 = .ok _
    cases hclosed : s.current.memory.closed with
    | true =>
      refine .inl ⟨rfl, ?_⟩
      rw [hresult, Memory.scan, if_pos hclosed]
    | false =>
      refine .inr ⟨rfl, ?_⟩
      rw [hresult, Memory.scan_of_open _ _ _ _ hclosed]

end Settles

end Program

/-! ## Others that change nothing -/

namespace Shared

/-- A shared database with a table that nobody changes, in a store that nobody closes. -/
structure Still (t : Table) (s : Shared) : Prop where
  table : s.database.memory.table = t
  opened : s.database.memory.closed = false
  harmless : ∀ deeds ∈ s.deeds, ∀ d ∈ deeds, d.Harmless
  met : ∀ m ∈ s.met, m.table = t ∧ m.closed = false

variable {t : Table}

theorem Still.current (h : s.Still t) :
    s.current.memory.table = t ∧ s.current.memory.closed = false := by
  have hfold : ∀ (deeds : List Deed), (∀ d ∈ deeds, d.Harmless) → ∀ db : MemoryDatabase,
      (deeds.foldl Deed.on db).memory.table = db.memory.table ∧
        (deeds.foldl Deed.on db).memory.closed = db.memory.closed := by
    intro deeds
    induction deeds with
    | nil => exact fun _ db => ⟨rfl, rfl⟩
    | cons d deeds ih =>
      intro hall db
      obtain ⟨hd, hrest⟩ := List.forall_mem_cons.1 hall
      obtain ⟨htable, hclosed⟩ := ih hrest (d.on db)
      exact ⟨htable.trans (hd db).1, hclosed.trans (hd db).2⟩
  have hharmless : ∀ d ∈ s.deeds.headD [], d.Harmless := by
    cases hdeeds : s.deeds with
    | nil => exact nofun
    | cons deeds rest => exact h.harmless deeds (by simp [hdeeds])
  obtain ⟨htable, hclosed⟩ := hfold _ hharmless s.database
  exact ⟨htable.trans h.table, hclosed.trans h.opened⟩

theorem Still.answer (h : s.Still t) {r : Request} (hr : r.isCommit = false) :
    (s.answer r).2.Still t := by
  obtain ⟨htable, hopen⟩ := h.current
  have hspends := Database.answer_spends hr s.current
  refine ⟨hspends.alike.table.trans htable, hspends.alike.closed.trans hopen,
    fun deeds hdeeds => h.harmless deeds (List.mem_of_mem_tail hdeeds), fun m hm => ?_⟩
  rcases List.mem_append.1 hm with hm | hm
  · exact h.met m hm
  · rw [List.mem_singleton.1 hm]
    exact ⟨htable, hopen⟩

theorem Still.run (h : s.Still t) {p : Program α} (hp : p.CommitsAtMost 0) :
    (p.run Shared.answer s).2.Still t := by
  generalize hn : 0 = n at hp
  induction hp generalizing s with
  | done _ a => exact h
  | unfinished _ => exact h
  | commit _ _ => cases hn
  | other hr _ ih => exact ih _ (h.answer hr) hn

end Shared

end DocumentStore
