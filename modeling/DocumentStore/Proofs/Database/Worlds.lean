import DocumentStore.Proofs.Database.Opening
import DocumentStore.Proofs.Database.Runs

/-!
# Databases that share a store

Several databases can be opened over one store, each with settings and a registry of its own.  The
collections that they open are handles, which stay in use when their name is destroyed or opened anew;
operations through handles run request by request, in any order.

Whatever happens, all entries stay documents under their identities, and every handle is a collection
that could be defined (`World.Reachable.sound`).  That is all that is certain of the entries under a
name, as their writers need not agree on the index fields of the name.
-/

namespace DocumentStore

structure Handle where
  database : Nat
  collection : Collection

structure World where
  store : Contended Memory
  /-- The databases, the store apart. -/
  databases : List (Database Unit)
  handles : List Handle
  /-- The operations that were started, each with its handle. -/
  clients : List (Handle × Client)

namespace World

def table (w : World) : Table := w.store.store.table

def database? (w : World) (i : Nat) : Option MemoryDatabase :=
  w.databases[i]?.map (·.withStore w.store)

def put (w : World) (i : Nat) (db : MemoryDatabase) : World :=
  { w with store := db.settings.store, databases := w.databases.set i (db.withStore ()) }

/-- What can happen next: a database is opened over the store, or one of them opens or destroys a
collection; an operation is started through a handle, or one that was started makes its next request;
the next commits are made to conflict, or the store is closed. -/
inductive Move where
  | found (ids : IdSource) (setters : List (Setter Unit))
  | openCollection (database : Nat) (name : String) (options : Option CollectionOptions)
  | destroyCollection (database : Nat) (name : String)
  | start (handle : Nat) (op : Operation) (fuel : Nat)
  | request (client : Nat)
  | contend (n : UInt32)
  | close

/-- One step.  A collection is destroyed with enough fuel to look at all entries. -/
def step (w : World) : Move → World
  | .found ids setters =>
    match ((Builder.start () ids).applyAll setters).build fun _ => KeyValueStore.isClosed w.store with
    | .ok settings => { w with databases := w.databases ++ [⟨settings, .empty⟩] }
    | .error _ => w
  | .openCollection i name options =>
    match w.database? i with
    | none => w
    | some db =>
      match db.run (Database.openCollection name options) with
      | (some (.ok c), db') => { w.put i db' with handles := w.handles ++ [⟨i, c⟩] }
      | (_, db') => w.put i db'
  | .destroyCollection i name =>
    match w.database? i with
    | none => w
    | some db => w.put i (db.run (Database.destroyCollection name (w.table.size + 1))).2
  | .start k op fuel =>
    match w.handles[k]? with
    | none => w
    | some h => { w with clients := w.clients ++ [(h, ⟨op, op.program h.collection fuel⟩)] }
  | .request k =>
    match w.clients[k]? with
    | some (h, ⟨op, .ask r next⟩) =>
      match w.database? h.database with
      | none => w
      | some db =>
        { w.put h.database (Database.answer r db).2 with
          clients := w.clients.set k (h, ⟨op, next (Database.answer r db).1⟩) }
    | _ => w
  | .contend n => { w with store := w.store.failNext n }
  | .close => { w with store := KeyValueStore.close w.store }

def run (w : World) (moves : List Move) : World := moves.foldl step w

def fresh : World := ⟨⟨.empty, 0⟩, [], [], []⟩

def Reachable (w : World) : Prop := ∃ moves, fresh.run moves = w

theorem reachable_fresh : fresh.Reachable := ⟨[], rfl⟩

theorem Reachable.run {w : World} (h : w.Reachable) (moves : List Move) : (w.run moves).Reachable := by
  obtain ⟨before, rfl⟩ := h
  exact ⟨before ++ moves, List.foldl_append⟩

theorem Reachable.step {w : World} (h : w.Reachable) (move : Move) : (w.step move).Reachable :=
  h.run [move]

end World

/-- What is left of an operation keeps to the name of its collection, and writes documents under their
identities. -/
def Client.KeepsHouse (c : Collection) (client : Client) : Prop :=
  Action.Mirrors (.own c.name Houses) (c.Sends (.own c.name Houses) client.operation.purpose) Eq
    client.program client.program

theorem Operation.keepsHouse (op : Operation) (c : Collection) (fuel : Nat) :
    Client.KeepsHouse c ⟨op, op.program c fuel⟩ :=
  op.mirrors rfl fuel (.inr trivial)

namespace World

structure Sound (w : World) : Prop where
  housed : w.table.Housed
  databases : ∀ db ∈ w.databases, db.settings.collectionDefaults.Valid ∧ db.registry.Sound
  handles : ∀ h ∈ w.handles, h.collection.Opened
  clients : ∀ p ∈ w.clients, p.1.collection.Opened ∧ p.2.KeepsHouse p.1.collection

variable {w : World} {db : MemoryDatabase} {i : Nat}

theorem sound_fresh : fresh.Sound where
  housed := Table.housed_empty
  databases db hdb := by cases hdb
  handles h hh := by cases hh
  clients p hp := by cases hp

theorem Sound.database (h : w.Sound) (hdb : w.database? i = some db) : db.Sound := by
  obtain ⟨d, hd, rfl⟩ := Option.map_eq_some_iff.1 hdb
  obtain ⟨hdefaults, hregistry⟩ := h.databases d (List.mem_of_getElem? hd)
  exact ⟨h.housed, hdefaults, hregistry⟩

theorem table_of_database (hdb : w.database? i = some db) : db.memory.table = w.table := by
  obtain ⟨d, _, rfl⟩ := Option.map_eq_some_iff.1 hdb
  rfl

/-- The use of a database that is in order afterwards. -/
theorem Sound.put (h : w.Sound) (hdb : db.Sound) : (w.put i db).Sound where
  housed := hdb.housed
  databases d hd := by
    rcases List.mem_or_eq_of_mem_set hd with hd | rfl
    · exact h.databases d hd
    · exact ⟨hdb.defaults, hdb.registry⟩
  handles := h.handles
  clients := h.clients

/-! ### What a step does -/

theorem step_found (w : World) (ids : IdSource) (setters : List (Setter Unit)) :
    w.step (.found ids setters) = w ∨ ∃ settings : Settings Unit,
      settings.collectionDefaults.Valid ∧
      w.step (.found ids setters) = { w with databases := w.databases ++ [⟨settings, .empty⟩] } := by
  unfold World.step
  dsimp only
  split
  · rename_i settings hbuild
    exact .inr ⟨settings, Builder.build_valid hbuild, rfl⟩
  · exact .inl rfl

theorem step_openCollection (h : w.Sound) (i : Nat) (name : String)
    (options : Option CollectionOptions) :
    w.step (.openCollection i name options) = w ∨
      ∃ db, w.database? i = some db ∧ (w.step (.openCollection i name options) = w.put i db ∨
        ∃ c r', db.registry.Opens name c r' ∧ w.step (.openCollection i name options) =
          { w.put i { db with registry := r' } with handles := w.handles ++ [⟨i, c⟩] }) := by
  unfold World.step
  dsimp only
  split
  · exact .inl rfl
  · rename_i db hdb
    obtain ⟨r, db', hrun, hr⟩ := Database.openCollection_settles (h.database hdb) name options
    refine .inr ⟨db, hdb, ?_⟩
    rw [hrun]
    cases r with
    | error e =>
      obtain rfl : db' = db := hr
      exact .inl rfl
    | ok c =>
      obtain ⟨r', hopens, rfl⟩ := hr
      exact .inr ⟨c, r', hopens, rfl⟩

theorem step_destroyCollection (w : World) (i : Nat) (name : String) :
    w.step (.destroyCollection i name) = w ∨
      ∃ db, w.database? i = some db ∧ db.memory.table.size < w.table.size + 1 ∧
        w.step (.destroyCollection i name) =
          w.put i (db.run (Database.destroyCollection name (w.table.size + 1))).2 := by
  unfold World.step
  dsimp only
  split
  · exact .inl rfl
  · rename_i db hdb
    refine .inr ⟨db, hdb, ?_, rfl⟩
    rw [table_of_database hdb]
    exact Nat.lt_succ_self _

theorem step_start (w : World) (k : Nat) (op : Operation) (fuel : Nat) :
    w.step (.start k op fuel) = w ∨ ∃ h ∈ w.handles, w.step (.start k op fuel) =
      { w with clients := w.clients ++ [(h, ⟨op, op.program h.collection fuel⟩)] } := by
  unfold World.step
  dsimp only
  split
  · exact .inl rfl
  · rename_i h hh
    exact .inr ⟨h, List.mem_of_getElem? hh, rfl⟩

theorem step_request (w : World) (k : Nat) :
    w.step (.request k) = w ∨
      ∃ h op r next db, w.clients[k]? = some (h, ⟨op, .ask r next⟩) ∧
        w.database? h.database = some db ∧
        w.step (.request k) = { w.put h.database (Database.answer r db).2 with
          clients := w.clients.set k (h, ⟨op, next (Database.answer r db).1⟩) } := by
  unfold World.step
  dsimp only
  split
  · rename_i h op r next hclient
    split
    · exact .inl rfl
    · rename_i db hdb
      exact .inr ⟨h, op, r, next, db, hclient, hdb, rfl⟩
  · exact .inl rfl

/-! ### What all steps keep -/

theorem Sound.found (h : w.Sound) (ids : IdSource) (setters : List (Setter Unit)) :
    (w.step (.found ids setters)).Sound := by
  obtain hstep | ⟨settings, hvalid, hstep⟩ := w.step_found ids setters
  · rw [hstep]
    exact h
  · rw [hstep]
    refine { h with databases := fun db hdb => ?_ }
    rcases List.mem_append.1 hdb with hdb | hdb
    · exact h.databases db hdb
    · cases List.mem_singleton.1 hdb
      exact ⟨hvalid, Registry.sound_empty⟩

theorem Sound.opens (h : w.Sound) (hdb : w.database? i = some db) {name : String} {c : Collection}
    {r' : Registry} (hopens : db.registry.Opens name c r') :
    Database.Sound { db with registry := r' } :=
  ⟨(h.database hdb).housed, (h.database hdb).defaults, hopens.sound⟩

theorem Sound.openCollection (h : w.Sound) (i : Nat) (name : String)
    (options : Option CollectionOptions) : (w.step (.openCollection i name options)).Sound := by
  obtain hstep | ⟨db, hdb, hstep | ⟨c, r', hopens, hstep⟩⟩ := step_openCollection h i name options
  · rw [hstep]
    exact h
  · rw [hstep]
    exact h.put (h.database hdb)
  · rw [hstep]
    refine { h.put (i := i) (h.opens hdb hopens) with handles := fun h' hh' => ?_ }
    rcases List.mem_append.1 hh' with hh' | hh'
    · exact h.handles h' hh'
    · cases List.mem_singleton.1 hh'
      exact hopens.opened

theorem Sound.destroyCollection (h : w.Sound) (i : Nat) (name : String) :
    (w.step (.destroyCollection i name)).Sound := by
  obtain hstep | ⟨db, hdb, hfuel, hstep⟩ := w.step_destroyCollection i name
  · rw [hstep]
    exact h
  · rw [hstep]
    exact h.put (Database.destroyCollection_shrinks (h.database hdb) name hfuel).1

theorem Sound.start (h : w.Sound) (k : Nat) (op : Operation) (fuel : Nat) :
    (w.step (.start k op fuel)).Sound := by
  obtain hstep | ⟨handle, hhandle, hstep⟩ := w.step_start k op fuel
  · rw [hstep]
    exact h
  · rw [hstep]
    refine { h with clients := fun p hp => ?_ }
    rcases List.mem_append.1 hp with hp | hp
    · exact h.clients p hp
    · cases List.mem_singleton.1 hp
      exact ⟨h.handles handle hhandle, op.keepsHouse _ fuel⟩

/-- The answer to a request of a client leaves the database in order, and the client as it was. -/
theorem Sound.answer (h : w.Sound) {handle : Handle} {op : Operation} {r : Request}
    {next : r.Answer → Action Reply} {k : Nat}
    (hclient : w.clients[k]? = some (handle, ⟨op, .ask r next⟩))
    (hdb : w.database? handle.database = some db) :
    (Database.answer r db).2.Sound ∧
      Client.KeepsHouse handle.collection ⟨op, next (Database.answer r db).1⟩ := by
  have hsound := h.database hdb
  obtain ⟨hopened, hkeeps⟩ := h.clients _ (List.mem_of_getElem? hclient)
  obtain ⟨hnext, hhoused⟩ := Program.Mirrors.housed_step hopened.wellIndexed hkeeps hsound.housed
  exact ⟨⟨hhoused, (Database.answer_settings r db).2 ▸ hsound.defaults,
    hkeeps.answer_registry db ▸ hsound.registry⟩, hnext⟩

theorem Sound.request (h : w.Sound) (k : Nat) : (w.step (.request k)).Sound := by
  obtain hstep | ⟨handle, op, r, next, db, hclient, hdb, hstep⟩ := w.step_request k
  · rw [hstep]
    exact h
  · rw [hstep]
    obtain ⟨hsound, hnext⟩ := h.answer hclient hdb
    refine { h.put (i := handle.database) hsound with clients := fun p hp => ?_ }
    rcases List.mem_or_eq_of_mem_set hp with hp | rfl
    · exact h.clients p hp
    · exact ⟨(h.clients _ (List.mem_of_getElem? hclient)).1, hnext⟩

theorem Sound.step (h : w.Sound) (move : Move) : (w.step move).Sound := by
  cases move with
  | found ids setters => exact h.found ids setters
  | openCollection i name options => exact h.openCollection i name options
  | destroyCollection i name => exact h.destroyCollection i name
  | start k op fuel => exact h.start k op fuel
  | request k => exact h.request k
  | contend n => exact { h with }
  | close => exact { h with }

theorem Sound.run (h : w.Sound) (moves : List Move) : (w.run moves).Sound := by
  induction moves generalizing w with
  | nil => exact h
  | cons move moves ih => exact ih (h.step move)

theorem Reachable.sound (h : w.Reachable) : w.Sound := by
  obtain ⟨moves, rfl⟩ := h
  exact sound_fresh.run moves

end World

end DocumentStore
