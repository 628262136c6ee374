import DocumentStore.Proofs.Collection.Failures
import DocumentStore.Proofs.Database.Settings

/-!
# Runs of clients on one database

Clients run operations of one collection on a shared database.  A schedule says which client makes
its next request, so the operations interleave in any order; in between, commits can be made to
conflict and the database can be closed.  The log of a run tells which client made which commit.

`Run.invariant` carries what single clients uphold over to whole runs.
-/

namespace DocumentStore

structure Client where
  operation : Operation
  program : Program (Except Error Reply)

structure System where
  database : MemoryDatabase
  clients : List Client

/-- The commits of a run, each with the number of the client that made it. -/
abbrev Log := List (Nat × Commit)

namespace Log

def commits (log : Log) : List Commit := log.map Prod.snd

def ofClient (log : Log) (i : Nat) : List Commit := (log.filter (·.1 == i)).map Prod.snd

end Log

namespace Database

def failNext (db : MemoryDatabase) (n : UInt32) : MemoryDatabase :=
  db.withStore (db.settings.store.failNext n)

end Database

/-- What can happen next: a new client starts an operation, a client makes its next request, the
next commits are made to conflict, or the database is closed. -/
inductive Move where
  | start (op : Operation) (fuel : Nat)
  | request (client : Nat)
  | contend (n : UInt32)
  | close

namespace System

def step (c : Collection) (s : System) : Move → Option (Nat × Commit) × System
  | .start op fuel => (none, ⟨s.database, s.clients ++ [⟨op, op.program c fuel⟩]⟩)
  | .request i =>
    match s.clients[i]? with
    | some ⟨op, .ask r next⟩ =>
      ((s.database.effect? r).map (i, ·),
        ⟨(Database.answer r s.database).2,
          s.clients.set i ⟨op, next (Database.answer r s.database).1⟩⟩)
    | _ => (none, s)
  | .contend n => (none, ⟨s.database.failNext n, s.clients⟩)
  | .close => (none, ⟨s.database.close, s.clients⟩)

def play (c : Collection) (s : System) : List Move → Log × System
  | [] => ([], s)
  | move :: moves =>
    let (e, s') := s.step c move
    let (log, s'') := s'.play c moves
    (e.toList ++ log, s'')

/-- A schedule leads from one system to another, with this log. -/
def Run (c : Collection) (s : System) (log : Log) (s' : System) : Prop :=
  ∃ moves, s.play c moves = (log, s')

/-- A system without clients in whose store nothing lies under the name of the collection. -/
structure Initial (c : Collection) (s : System) : Prop where
  clients : s.clients = []
  unused : ∀ e ∈ s.database.memory.table.entries, e.key.parts.head? ≠ some (.string c.name)

end System

/-! ## Commits that follow each other -/

/-- The commits lead from one memory to another, and nothing else changes an entry in between. -/
inductive Linked : Memory → List Commit → Memory → Prop where
  | nil {m m' : Memory} (htable : m'.table = m.table) (hversion : m'.version = m.version) :
    Linked m [] m'
  | cons {m m' : Memory} {w : Commit} {ws : List Commit} (htable : w.before.table = m.table)
      (hversion : w.before.version = m.version) (heffective : w.Effective)
      (hrest : Linked w.after ws m') : Linked m (w :: ws) m'

namespace Linked

variable {m m' m'' : Memory} {ws ws' : List Commit} {w : Commit}

theorem of_eq (htable : m'.table = m.table) (hversion : m'.version = m.version)
    (h : Linked m' ws m'') : Linked m ws m'' := by
  cases h with
  | nil htable' hversion' => exact .nil (htable'.trans htable) (hversion'.trans hversion)
  | cons htable' hversion' heffective hrest =>
    exact .cons (htable'.trans htable) (hversion'.trans hversion) heffective hrest

theorem append (h : Linked m ws m') (h' : Linked m' ws' m'') : Linked m (ws ++ ws') m'' := by
  induction h with
  | nil htable hversion => exact h'.of_eq htable hversion
  | cons htable hversion heffective _ ih => exact .cons htable hversion heffective (ih h')

theorem of_append (h : Linked m (ws ++ ws') m'') : ∃ m', Linked m ws m' ∧ Linked m' ws' m'' := by
  induction ws generalizing m with
  | nil => exact ⟨m, .nil rfl rfl, h⟩
  | cons w ws ih =>
    cases h with
    | cons htable hversion heffective hrest =>
      obtain ⟨m', hws, hws'⟩ := ih hrest
      exact ⟨m', .cons htable hversion heffective hws, hws'⟩

theorem unique (h : Linked m ws m') (h' : Linked m ws m'') :
    m'.table = m''.table ∧ m'.version = m''.version := by
  induction h with
  | nil htable hversion =>
    cases h' with
    | nil htable' hversion' => exact ⟨htable.trans htable'.symm, hversion.trans hversion'.symm⟩
  | cons _ _ _ _ ih =>
    cases h' with
    | cons _ _ _ hrest => exact ih hrest

/-- A request leads to a memory by the commit that it makes, and to progress if the commit does. -/
theorem of_request {c : Collection} {db : MemoryDatabase} {r : Request} (hdb : c.Sound db.memory)
    (h : ∀ w, db.effect? r = some w → c.Sound w.before → w.Effective →
      c.Progress w.before w.after) :
    c.Progress db.memory (Database.answer r db).2.memory ∧
      Linked db.memory (db.effect? r).toList (Database.answer r db).2.memory := by
  cases he : db.effect? r with
  | none =>
    obtain ⟨htable, hversion⟩ := Database.memory_of_no_effect he
    exact ⟨.of_eq hdb htable hversion, .nil htable hversion⟩
  | some w =>
    obtain ⟨_, hbefore, hafter, heffective⟩ := Database.effective_of_effect? he
    have hprogress := h w he (hbefore ▸ hdb) heffective
    rw [hbefore, hafter] at hprogress
    refine ⟨hprogress, .cons ?_ ?_ heffective (.nil ?_ ?_)⟩
    · rw [hbefore]
    · rw [hbefore]
    · rw [hafter]
    · rw [hafter]

/-- What each commit keeps, all of them keep. -/
theorem progress {c : Collection} (hm : c.Sound m) (h : Linked m ws m')
    (hall : ∀ w ∈ ws, c.Sound w.before → w.Effective → c.Progress w.before w.after) :
    c.Progress m m' := by
  induction h with
  | nil htable hversion => exact .of_eq hm htable hversion
  | cons htable hversion heffective _ ih =>
    obtain ⟨hw, hrest⟩ := List.forall_mem_cons.1 hall
    have hbefore : c.Progress _ _ := .of_eq hm htable hversion
    have hafter := hbefore.trans (hw hbefore.sound heffective)
    exact hafter.trans (ih hafter.sound hrest)

end Linked

/-! ## What clients uphold -/

/-- What is left of a client's program commits only what the operation allows, and a reply will
stand for all commits of the client. -/
def Client.Upholds (c : Collection) (client : Client) (v : Standpoint) : Prop :=
  Action.Upholds (c.sharing (client.operation.purpose.Allows c))
    (fun reply v => reply.Explains c client.operation.purpose v.commits) client.program v

theorem Client.Upholds.precedes {c : Collection} {client : Client} {v v' : Standpoint}
    (h : client.Upholds c v) (hv : v.Precedes c v') : client.Upholds c v' := by
  refine Program.Upholds.drift (fun h h' => Standpoint.Precedes.trans h h') ?_ h hv
  intro r v v' hv hr reply hreply
  rw [hv.commits_eq]
  exact hr reply hreply

/-- What is left of a client's program does what its operation is for, and fails only as the
operation can. -/
structure Client.Behaves (c : Collection) (client : Client) (v : Standpoint) : Prop where
  upholds : client.Upholds c v
  fails : Action.FailsWith c (client.operation.Fault c) client.program v

theorem Client.Behaves.precedes {c : Collection} {client : Client} {v v' : Standpoint}
    (h : client.Behaves c v) (hv : v.Precedes c v') : client.Behaves c v' := by
  refine ⟨h.upholds.precedes hv, ?_⟩
  exact Program.Upholds.drift (fun h h' => Standpoint.Precedes.trans h h') (fun _ _ _ _ hr => hr)
    h.fails hv

/-- A client that makes a request may make the commit that it leads to, and behaves afterwards. -/
theorem Client.Behaves.request {c : Collection} {op : Operation} {r : Request}
    {next : r.Answer → Action Reply} {v : Standpoint} (hv : c.Sound v.memory)
    (h : Client.Behaves c ⟨op, .ask r next⟩ v) :
    (∀ w, v.database.effect? r = some w → op.purpose.Allows c w) ∧
      Client.Behaves c ⟨op, next (v.answer r).1⟩ (v.answer r).2 := by
  obtain ⟨hallows, hupholds⟩ := h.upholds v (.refl hv)
  exact ⟨hallows, hupholds, (h.fails v (.refl hv)).2⟩

namespace System

variable {c : Collection} {s s₀ : System} {log : Log}

structure Invariant (c : Collection) (m₀ : Memory) (log : Log) (s : System) : Prop where
  sound : c.Sound s.database.memory
  linked : Linked m₀ log.commits s.database.memory
  logged : ∀ i w, (i, w) ∈ log → c.Sound w.before ∧ w.Effective ∧
    ∃ client, s.clients[i]? = some client ∧ client.operation.purpose.Allows c w
  behaviour : ∀ (i : Nat) (client : Client), s.clients[i]? = some client →
    client.Behaves c ⟨s.database, log.ofClient i⟩

theorem Invariant.clients {m₀ : Memory} (h : Invariant c m₀ log s) (i : Nat) (client : Client)
    (hi : s.clients[i]? = some client) : client.Upholds c ⟨s.database, log.ofClient i⟩ :=
  (h.behaviour i client hi).upholds

theorem ofClient_append_self (log : Log) (i : Nat) (w : Option Commit) :
    Log.ofClient (log ++ (w.map (i, ·)).toList) i = log.ofClient i ++ w.toList := by
  cases w <;> simp [Log.ofClient]

theorem ofClient_append_of_ne {i j : Nat} (hij : i ≠ j) (log : Log) (w : Option Commit) :
    Log.ofClient (log ++ (w.map (i, ·)).toList) j = log.ofClient j := by
  cases w <;> simp [Log.ofClient, hij]

/-- A step that leaves clients and entries as they are. -/
theorem Invariant.of_eq {m₀ : Memory} (h : Invariant c m₀ log s) (db : MemoryDatabase)
    (htable : db.memory.table = s.database.memory.table)
    (hversion : db.memory.version = s.database.memory.version) :
    Invariant c m₀ log ⟨db, s.clients⟩ := by
  refine ⟨h.sound.of_eq htable hversion, ?_, h.logged, fun i client hi => ?_⟩
  · simpa using h.linked.append (.nil htable hversion)
  -- a client that waits takes it as progress without commits
  · exact (h.behaviour i client hi).precedes ⟨.of_eq h.sound htable hversion, rfl⟩

theorem Invariant.start {m₀ : Memory} (hc : c.WellIndexed) (h : Invariant c m₀ log s)
    (op : Operation) (fuel : Nat) :
    Invariant c m₀ log ⟨s.database, s.clients ++ [⟨op, op.program c fuel⟩]⟩ := by
  have hold : ∀ {i client}, s.clients[i]? = some client →
      (s.clients ++ [⟨op, op.program c fuel⟩])[i]? = some client := fun hi =>
    (List.getElem?_append_left (List.getElem?_eq_some_iff.1 hi).1).trans hi
  refine ⟨h.sound, h.linked, fun i w hw => ?_, fun i client hi => ?_⟩
  · obtain ⟨hsound, heffective, client, hi, hallows⟩ := h.logged i w hw
    exact ⟨hsound, heffective, client, hold hi, hallows⟩
  · rcases Nat.lt_or_ge i s.clients.length with hlt | hge
    · rw [List.getElem?_append_left hlt] at hi
      exact h.behaviour i client hi
    · -- the new client, which has made no commits yet
      have hnone : log.ofClient i = [] := by
        refine List.map_eq_nil_iff.2 (List.filter_eq_nil_iff.2 fun p hp hpi => ?_)
        obtain ⟨_, _, old, hold, _⟩ := h.logged p.1 p.2 hp
        rw [eq_of_beq hpi] at hold
        exact absurd (List.getElem?_eq_some_iff.1 hold).1 (Nat.not_lt_of_ge hge)
      rw [List.getElem?_append_right hge] at hi
      obtain ⟨hlt, rfl⟩ := List.getElem?_eq_some_iff.1 hi
      have hzero : i - s.clients.length = 0 := by simpa using hlt
      simp only [hzero, List.getElem_cons_zero]
      rw [hnone]
      exact ⟨op.upholds hc fuel h.sound rfl, op.fails hc fuel h.sound⟩

theorem Invariant.request {m₀ : Memory} (hc : c.WellIndexed) (h : Invariant c m₀ log s) {i : Nat}
    {op : Operation} {r : Request} {next : r.Answer → Action Reply}
    (hi : s.clients[i]? = some ⟨op, .ask r next⟩) :
    Invariant c m₀ (log ++ ((s.database.effect? r).map (i, ·)).toList)
      ⟨(Database.answer r s.database).2,
        s.clients.set i ⟨op, next (Database.answer r s.database).1⟩⟩ := by
  have hlt : i < s.clients.length := (List.getElem?_eq_some_iff.1 hi).1
  obtain ⟨hallows, hnext⟩ := (h.behaviour i _ hi).request h.sound
  -- the memory makes progress, by the commit of the client if there is one
  obtain ⟨hprogress, hlinked⟩ := Linked.of_request (r := r) h.sound fun w hw hsound heffective =>
    (hallows w hw).progress hc _ hsound heffective
  refine ⟨hprogress.sound, ?_, fun j w hw => ?_, fun j client hj => ?_⟩
  -- the log grows by the commit
  · have hcommits : Log.commits (log ++ ((s.database.effect? r).map (i, ·)).toList) =
        log.commits ++ (s.database.effect? r).toList := by
      cases s.database.effect? r <;> simp [Log.commits]
    rw [hcommits]
    exact h.linked.append hlinked
  · rcases List.mem_append.1 hw with hw | hw
    · obtain ⟨hsound, heffective, client, hj, hclient⟩ := h.logged j w hw
      refine ⟨hsound, heffective, ?_⟩
      by_cases hij : i = j
      · subst hij
        rw [hi] at hj
        cases hj
        exact ⟨_, List.getElem?_set_self hlt, hclient⟩
      · exact ⟨client, (List.getElem?_set_ne hij).trans hj, hclient⟩
    · obtain ⟨w', he, heq⟩ := Option.map_eq_some_iff.1 (Option.mem_toList.1 hw)
      cases heq
      obtain ⟨_, hbefore, _, heffective⟩ := Database.effective_of_effect? he
      exact ⟨hbefore ▸ h.sound, heffective, _, List.getElem?_set_self hlt, hallows w he⟩
  · by_cases hij : i = j
    · subst hij
      rw [List.getElem?_set_self hlt] at hj
      cases hj
      rw [ofClient_append_self]
      exact hnext
    · rw [List.getElem?_set_ne hij] at hj
      -- the clients that wait see a later memory and no commits of their own
      rw [ofClient_append_of_ne hij]
      exact (h.behaviour j client hj).precedes ⟨hprogress, rfl⟩

theorem Invariant.step {m₀ : Memory} (hc : c.WellIndexed) (h : Invariant c m₀ log s)
    (move : Move) :
    Invariant c m₀ (log ++ (s.step c move).1.toList) (s.step c move).2 := by
  cases move with
  | start op fuel => simpa [System.step] using h.start hc op fuel
  | request i =>
    unfold System.step
    dsimp only
    split
    · rename_i op r next hi
      exact h.request hc hi
    · simpa using h
  | contend n => simpa [System.step] using h.of_eq (s.database.failNext n) rfl rfl
  | close => simpa [System.step] using h.of_eq s.database.close rfl rfl

theorem Invariant.play {m₀ : Memory} (hc : c.WellIndexed) (h : Invariant c m₀ log s)
    (moves : List Move) :
    Invariant c m₀ (log ++ (s.play c moves).1) (s.play c moves).2 := by
  -- the log of the first step is a part of the log so far for the others
  induction moves generalizing log s with
  | nil => simpa [System.play] using h
  | cons move moves ih =>
    have hrest := ih (h.step hc move)
    rw [List.append_assoc] at hrest
    exact hrest

theorem Initial.invariant (h : Initial c s₀) : Invariant c s₀.database.memory [] s₀ := by
  refine ⟨⟨.of_unused h.unused, fun hs => ?_⟩, .nil rfl rfl, fun i w hw => (by cases hw), ?_⟩
  · rw [Collection.stored?_of_unused h.unused] at hs
    cases hs
  · intro i client hi
    rw [h.clients] at hi
    cases hi

/-- Whatever the clients do in whatever order, the invariant holds after a run. -/
theorem Invariant.run {m₀ : Memory} (hc : c.WellIndexed) {s' : System} {log' : Log}
    (h : Invariant c m₀ log s) (hrun : Run c s log' s') : Invariant c m₀ (log ++ log') s' := by
  obtain ⟨moves, hplay⟩ := hrun
  have hinv := h.play hc moves
  rw [hplay] at hinv
  exact hinv

theorem Run.invariant (hc : c.WellIndexed) (h₀ : Initial c s₀) (h : Run c s₀ log s) :
    Invariant c s₀.database.memory log s :=
  h₀.invariant.run hc h

theorem Invariant.linked_run {m₀ : Memory} (hc : c.WellIndexed) {s' : System} {log' : Log}
    (h : Invariant c m₀ log s) (hrun : Run c s log' s') :
    Linked s.database.memory log'.commits s'.database.memory := by
  have hall : Linked m₀ (log.commits ++ log'.commits) s'.database.memory := by
    have hinv := (h.run hc hrun).linked
    rw [Log.commits, List.map_append] at hinv
    exact hinv
  obtain ⟨m', hfirst, hrest⟩ := hall.of_append
  obtain ⟨htable, hversion⟩ := hfirst.unique h.linked
  exact hrest.of_eq htable hversion

theorem Invariant.progress {m₀ : Memory} (hc : c.WellIndexed) {s' : System} {log' : Log}
    (h : Invariant c m₀ log s) (hrun : Run c s log' s') :
    c.Progress s.database.memory s'.database.memory := by
  refine (h.linked_run hc hrun).progress h.sound fun w hw hsound heffective => ?_
  obtain ⟨⟨i, w⟩, hmem, rfl⟩ := List.mem_map.1 hw
  obtain ⟨_, _, client, _, hallows⟩ := (h.run hc hrun).logged i w (List.mem_append_right _ hmem)
  exact hallows.progress hc _ hsound heffective

/-- The databases that the operations of a collection lead to, conflicts and errors included. -/
def Reachable (c : Collection) (db : MemoryDatabase) : Prop :=
  ∃ s₀ log s, Initial c s₀ ∧ Run c s₀ log s ∧ s.database = db

theorem Reachable.sound {db : MemoryDatabase} (hc : c.WellIndexed) (h : Reachable c db) :
    c.Sound db.memory := by
  obtain ⟨s₀, log, s, h₀, hrun, rfl⟩ := h
  exact (hrun.invariant hc h₀).sound

/-- A collection of an open database that its operations led to, with defaults such as every opened
database has (`Builder.build_valid`), and enough fuel to look at every entry. -/
structure Served (c : Collection) (db : MemoryDatabase) (fuel : Nat) : Prop where
  defined : ∃ name options defaults, Collection.define name options defaults = .ok c
  defaults : c.defaults.Valid
  reachable : Reachable c db
  opened : db.memory.closed = false
  size_lt : db.memory.table.size < fuel

theorem Served.wellIndexed {db : MemoryDatabase} {fuel : Nat} (h : Served c db fuel) :
    c.WellIndexed := by
  obtain ⟨_, _, _, hdefine⟩ := h.defined
  exact Collection.wellIndexed_of_define hdefine

theorem Served.sound {db : MemoryDatabase} {fuel : Nat} (h : Served c db fuel) :
    c.Sound db.memory :=
  h.reachable.sound h.wellIndexed

end System

/-! ## A collection of articles -/

namespace Sample

def articles : Collection :=
  ⟨"articles", ⟨["stock"]⟩, { indexFields := ["stock"] }, ⟨1, .forUpdates, .forDeletes⟩⟩

theorem define_articles : Collection.define "articles" { indexFields := ["stock"] }
    ⟨1, .forUpdates, .forDeletes⟩ = .ok articles := rfl

def article (id : String) (stock : Int64) : Document :=
  .ofList [("_id", .string id), ("stock", .integer stock)]

def inStock (n : Int64) : Query := .byField "stock" (.integer n)

def restock (n : Int64) : Update := .document fun d => d.put "stock" (.integer n)

def sell : Update := .document fun d =>
  match d.get? "stock" with
  | some (.integer n) => d.put "stock" (.integer (n - 1))
  | _ => .ok d

def start : System := ⟨⟨.initial ⟨.empty, 0⟩ (.counter "article"), .empty⟩, []⟩

theorem initial_start : System.Initial articles start := ⟨rfl, fun e he => by cases he⟩

def stocking : List Move := [.start (.insertMany [article "b" 7, article "a" 7]) 9, .request 0]

def stocked : MemoryDatabase := (start.play articles stocking).2.database

theorem served_stocked : System.Served articles stocked 9 where
  defined := ⟨_, _, _, define_articles⟩
  defaults := ⟨by decide, rfl, rfl⟩
  reachable := ⟨start, _, _, initial_start, ⟨stocking, rfl⟩, rfl⟩
  opened := rfl
  size_lt := by decide

end Sample

end DocumentStore
