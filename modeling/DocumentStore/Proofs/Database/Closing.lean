import DocumentStore.Proofs.Collection.Refusals
import DocumentStore.Proofs.Database.Destruction

/-!
# Closed databases

Closing a database closes the store, and there is no way back: the settings of an opened database are
frozen, and no request changes an entry of a closed store.  What is started afterwards, through handles
old or new, fails or gives nothing.
-/

namespace DocumentStore

/-! ## Frozen settings -/

namespace Settings

variable {σ : Type}

theorem apply_of_frozen {s : Settings σ} (h : s.frozen = true) (setter : Setter σ) :
    ∃ setting, setter.apply s = .error (.frozen setting) :=
  ⟨setter.setting, apply_eq_frozen h setter⟩

end Settings

theorem Builder.build_frozen {σ : Type} {b : Builder σ} {isClosed : σ → Bool} {s : Settings σ}
    (h : b.build isClosed = .ok s) : isClosed b.settings.store = false ∧ s.frozen = true := by
  unfold build at h
  split at h
  · cases h
  · unfold Settings.freeze at h
    split at h
    · cases h
    · rename_i hopen
      cases h
      exact ⟨Bool.eq_false_iff.2 hopen, rfl⟩

namespace Database

variable {db : MemoryDatabase}

theorem run_frozen {α : Type} (p : Program α) (db : MemoryDatabase) :
    (db.run p).2.settings.frozen = db.settings.frozen :=
  p.run_invariant (fun d : MemoryDatabase => d.settings.frozen = db.settings.frozen)
    (fun r d hd => (answer_settings r d).1.trans hd) rfl

/-! ## What a closed database gives -/

/-- Beside whatever others do, the action changes no entry and fails, or it gives `nothing` for a
reason. -/
def Hides {α : Type} (db : MemoryDatabase) (p : Action α) (nothing : α) (reason : Prop) : Prop :=
  ∀ deeds, Program.Settles (fun r sh =>
    ((∃ e, r = .error e) ∨ r = .ok nothing ∧ reason) ∧
      sh.database.memory.table = db.memory.table) p (.start db deeds)

/-- A database of which nothing can be changed and nothing is shown. -/
structure Frozen (db : MemoryDatabase) : Prop where
  settings : ∀ setter : Setter (Contended Memory),
    ∃ setting, setter.apply db.settings = .error (.frozen setting)
  opening : ∀ name options,
    db.run (openCollection name options) = (some (.error .closedDatabase), db)
  destroying : ∀ name fuel,
    db.run (destroyCollection name fuel) = (some (.error .closedDatabase), db)
  operations : ∀ (c : Collection) (op : Operation) (fuel : Nat), 0 < fuel →
    db.Hides (op.program c fuel) (.documents []) (op.Vain c)
  many : ∀ (cursor : Cursor) (fuel : Nat), 0 < fuel → db.Hides (cursor.getMany fuel) [] cursor.Vain
  one : ∀ (cursor : Cursor) (fuel : Nat), 0 < fuel →
    db.Hides (cursor.getOne fuel) none (cursor.withOp (.limit 1)).Vain
  count : ∀ (cursor : Cursor) (fuel : Nat), 0 < fuel → db.Hides (cursor.count fuel) 0 cursor.Vain
  iteration : ∀ (cursor : Cursor) (fuel : Nat), 0 < fuel →
    db.Hides (cursor.iterate fuel) [] cursor.Vain

theorem hides_of_barred {α : Type} (hclosed : db.memory.closed = true) {p : Action α} {nothing : α}
    {reason : Prop} (h : p.Under .barred fun a => a = nothing ∧ reason) : db.Hides p nothing reason := by
  intro deeds
  refine (Program.Under.settles h hclosed).imp ?_
  rintro r sh ⟨hr, htable⟩
  refine ⟨?_, htable⟩
  cases r with
  | error e => exact .inl ⟨e, rfl⟩
  | ok a =>
    obtain ⟨rfl, hreason⟩ := hr
    exact .inr ⟨rfl, hreason⟩

theorem run_requireOpen_of_closed {α : Type} (hclosed : db.memory.closed = true)
    (f : Unit → Action α) :
    db.run (requireOpen >>= f : Action α) = (some (.error .closedDatabase), db) := by
  have hends : (requireOpen >>= f : Action α).Ends (fun _ _ => False)
      (fun e db' => e = .closedDatabase ∧ db' = db) db := by
    refine .bind (requireOpen_ends.imp ?_ ?_)
    · rintro _ db' ⟨rfl, hopen⟩
      rw [hclosed] at hopen
      cases hopen
    · rintro e db' ⟨rfl, rfl, _⟩
      exact ⟨rfl, rfl⟩
  obtain ⟨r, db', hrun, hr⟩ := hends
  cases r with
  | ok a => exact hr.elim
  | error e =>
    obtain ⟨rfl, rfl⟩ := hr
    exact hrun

theorem frozen_of_closed (hclosed : db.memory.closed = true) (hfrozen : db.settings.frozen = true) :
    db.Frozen where
  settings := Settings.apply_of_frozen hfrozen
  opening _ _ := run_requireOpen_of_closed hclosed _
  destroying _ _ := run_requireOpen_of_closed hclosed _
  operations c op _ hfuel := hides_of_barred hclosed (op.program_barred c hfuel)
  many cursor _ hfuel := hides_of_barred hclosed (cursor.getMany_barred hfuel)
  one cursor _ hfuel := hides_of_barred hclosed (cursor.getOne_barred hfuel)
  count cursor _ hfuel := hides_of_barred hclosed (cursor.count_barred hfuel)
  iteration cursor _ hfuel := hides_of_barred hclosed (cursor.iterate_barred hfuel)

end Database

structure Client.Hides (c : Collection) (client : Client) : Prop where
  ends : client.program ≠ .unfinished
  result : ∀ r, client.program = .done r →
    (∃ e, r = .error e) ∨ r = .ok (.documents []) ∧ client.operation.Vain c

namespace World

variable {w : World} {i : Nat} {db : MemoryDatabase}

/-! ## Worlds -/

def Settled (w : World) : Prop := ∀ db ∈ w.databases, db.settings.frozen = true

theorem Settled.database (h : w.Settled) (hdb : w.database? i = some db) :
    db.settings.frozen = true := by
  obtain ⟨d, hd, rfl⟩ := Option.map_eq_some_iff.1 hdb
  exact h d (List.mem_of_getElem? hd)

theorem Settled.put (h : w.Settled) (hdb : db.settings.frozen = true) : (w.put i db).Settled := by
  intro d hd
  rcases List.mem_or_eq_of_mem_set hd with hd | rfl
  · exact h d hd
  · exact hdb

theorem Settled.step (h : w.Settled) (hw : w.Sound) (move : Move) : (w.step move).Settled := by
  cases move with
  | found ids setters =>
    unfold World.step
    dsimp only
    split
    · rename_i settings hbuild
      intro d hd
      rcases List.mem_append.1 hd with hd | hd
      · exact h d hd
      · cases List.mem_singleton.1 hd
        exact (Builder.build_frozen hbuild).2
    · exact h
  | openCollection i name options =>
    obtain hstep | ⟨db, hdb, hstep | ⟨c, r', _, hstep⟩⟩ := step_openCollection hw i name options
    · rwa [hstep]
    · rw [hstep]
      exact h.put (h.database hdb)
    · rw [hstep]
      have hfrozen := h.database hdb
      exact h.put hfrozen
  | destroyCollection i name =>
    obtain hstep | ⟨db, hdb, _, hstep⟩ := w.step_destroyCollection i name
    · rwa [hstep]
    · rw [hstep]
      exact h.put ((Database.run_frozen _ db).trans (h.database hdb))
  | start k op fuel =>
    obtain hstep | ⟨_, _, hstep⟩ := w.step_start k op fuel
    · rwa [hstep]
    · rw [hstep]
      exact h
  | request k =>
    obtain hstep | ⟨handle, op, r, next, db, _, hdb, hstep⟩ := w.step_request k
    · rwa [hstep]
    · rw [hstep]
      exact h.put ((Database.answer_settings r db).1.trans (h.database hdb))
  | contend n => exact h
  | close => exact h

theorem Reachable.settled (h : w.Reachable) : w.Settled := by
  obtain ⟨moves, rfl⟩ := h
  have hall : ∀ w : World, w.Sound → w.Settled → (w.run moves).Settled := by
    induction moves with
    | nil => exact fun _ _ h => h
    | cons move moves ih => exact fun w hw h => ih _ (hw.step move) (h.step hw move)
  exact hall fresh sound_fresh nofun

def Closed (w : World) : Prop := w.store.store.closed = true

theorem Closed.database (h : w.Closed) (hdb : w.database? i = some db) : db.memory.closed = true := by
  obtain ⟨d, _, rfl⟩ := Option.map_eq_some_iff.1 hdb
  exact h

theorem put_database (hdb : w.database? i = some db) : w.put i db = w := by
  obtain ⟨d, hd, rfl⟩ := Option.map_eq_some_iff.1 hdb
  obtain ⟨hi, rfl⟩ := List.getElem?_eq_some_iff.1 hd
  show { w with databases := w.databases.set i w.databases[i] } = w
  rw [List.set_getElem_self]

/-- A closed world with the entries, the handles and as many databases as another one. -/
structure Rests (w w' : World) : Prop where
  closed : w'.Closed
  table : w'.table = w.table
  handles : w'.handles = w.handles
  databases : w'.databases.length = w.databases.length

theorem Rests.refl (h : w.Closed) : w.Rests w := ⟨h, rfl, rfl, rfl⟩

theorem Rests.trans {w' w'' : World} (h : w.Rests w') (h' : w'.Rests w'') : w.Rests w'' :=
  ⟨h'.closed, h'.table.trans h.table, h'.handles.trans h.handles, h'.databases.trans h.databases⟩

theorem Closed.step (h : w.Closed) (move : Move) : w.Rests (w.step move) := by
  cases move with
  | found ids setters =>
    unfold World.step
    dsimp only
    split
    · rename_i settings hbuild
      -- a database is only built on an open store
      have hopen := (Builder.build_frozen hbuild).1
      cases h.symm.trans hopen
    · exact .refl h
  | openCollection i name options =>
    unfold World.step
    dsimp only
    split
    · exact .refl h
    · rename_i db hdb
      rw [Database.openCollection, Database.run_requireOpen_of_closed (h.database hdb)]
      dsimp only
      rw [put_database hdb]
      exact .refl h
  | destroyCollection i name =>
    unfold World.step
    dsimp only
    split
    · exact .refl h
    · rename_i db hdb
      rw [Database.destroyCollection, Database.run_requireOpen_of_closed (h.database hdb),
        put_database hdb]
      exact .refl h
  | start k op fuel =>
    obtain hstep | ⟨_, _, hstep⟩ := w.step_start k op fuel
    · rw [hstep]
      exact .refl h
    · rw [hstep]
      exact ⟨h, rfl, rfl, rfl⟩
  | request k =>
    obtain hstep | ⟨handle, op, r, next, db, _, hdb, hstep⟩ := w.step_request k
    · rw [hstep]
      exact .refl h
    · rw [hstep]
      -- a client that started earlier may go on asking, and is refused
      obtain ⟨_, htable, hclosed⟩ := Database.answer_refused (h.database hdb) r
      exact ⟨hclosed, htable.trans (table_of_database hdb), rfl, List.length_set⟩
  | contend n => exact ⟨h, rfl, rfl, rfl⟩
  | close => exact ⟨rfl, rfl, rfl, rfl⟩

theorem Closed.run (h : w.Closed) (moves : List Move) : w.Rests (w.run moves) := by
  induction moves generalizing w with
  | nil => exact .refl h
  | cons move moves ih => exact (h.step move).trans (ih (h.step move).closed)

/-- A client that is barred stays so. -/
theorem Closed.client_step (h : w.Closed) {n : Nat} {handle : Handle} {op : Operation}
    {p : Program (Except Error Reply)} {post : Except Error Reply → Prop}
    (hn : w.clients[n]? = some (handle, ⟨op, p⟩)) (hp : p.Under .barred post) (move : Move) :
    ∃ p', (w.step move).clients[n]? = some (handle, ⟨op, p'⟩) ∧ p'.Under .barred post := by
  have hlt : n < w.clients.length := (List.getElem?_eq_some_iff.1 hn).1
  cases move with
  | found ids setters =>
    obtain hstep | ⟨_, _, hstep⟩ := w.step_found ids setters
    · exact ⟨p, by rwa [hstep], hp⟩
    · exact ⟨p, by rwa [hstep], hp⟩
  | openCollection i name options =>
    unfold World.step
    dsimp only
    split
    · exact ⟨p, hn, hp⟩
    · rename_i db hdb
      rw [Database.openCollection, Database.run_requireOpen_of_closed (h.database hdb)]
      exact ⟨p, hn, hp⟩
  | destroyCollection i name =>
    obtain hstep | ⟨_, _, _, hstep⟩ := w.step_destroyCollection i name
    · exact ⟨p, by rwa [hstep], hp⟩
    · exact ⟨p, by rwa [hstep], hp⟩
  | start k op' fuel =>
    obtain hstep | ⟨_, _, hstep⟩ := w.step_start k op' fuel
    · exact ⟨p, by rwa [hstep], hp⟩
    · refine ⟨p, ?_, hp⟩
      rw [hstep]
      exact (List.getElem?_append_left hlt).trans hn
  | request k =>
    obtain hstep | ⟨handle', op', r, next, db, hk, hdb, hstep⟩ := w.step_request k
    · exact ⟨p, by rwa [hstep], hp⟩
    · rw [hstep]
      show ∃ p', (w.clients.set k _)[n]? = _ ∧ _
      by_cases hkn : k = n
      -- the client itself gets an answer
      · subst hkn
        cases hk.symm.trans hn
        refine ⟨_, List.getElem?_set_self hlt, hp _ ?_⟩
        exact (Database.answer_refused (h.database hdb) r).1
      · exact ⟨p, (List.getElem?_set_ne hkn).trans hn, hp⟩
  | contend n => exact ⟨p, hn, hp⟩
  | close => exact ⟨p, hn, hp⟩

theorem Closed.client_run (h : w.Closed) {n : Nat} {handle : Handle} {op : Operation}
    {p : Program (Except Error Reply)} {post : Except Error Reply → Prop}
    (hn : w.clients[n]? = some (handle, ⟨op, p⟩)) (hp : p.Under .barred post) (moves : List Move) :
    ∃ p', (w.run moves).clients[n]? = some (handle, ⟨op, p'⟩) ∧ p'.Under .barred post := by
  induction moves generalizing w p with
  | nil => exact ⟨p, hn, hp⟩
  | cons move moves ih =>
    obtain ⟨p', hn', hp'⟩ := h.client_step hn hp move
    exact ih (h.step move).closed hn' hp'

/-- A closed database stays as it is: no later step changes an entry, nothing can be opened, destroyed
or set, and what is started afterwards fails or gives nothing. -/
theorem closed_database_frozen (hw : w.Reachable) (moves : List Move) :
    w.Rests ((w.step .close).run moves) ∧
    (∀ i db, ((w.step .close).run moves).database? i = some db → db.Frozen) ∧
    ∀ k handle op fuel later, ((w.step .close).run moves).handles[k]? = some handle → 0 < fuel →
      ∃ program, (((w.step .close).run moves).run (.start k op fuel :: later)).clients[
          ((w.step .close).run moves).clients.length]? = some (handle, ⟨op, program⟩) ∧
        Client.Hides handle.collection ⟨op, program⟩ := by
  have hclose : w.Rests (w.step .close) := ⟨rfl, rfl, rfl, rfl⟩
  have hrests := hclose.trans (hclose.closed.run moves)
  have hsettled := ((hw.step .close).run moves).settled
  -- from here on any world will do whose store is closed and whose settings are frozen
  generalize (w.step .close).run moves = w' at hrests hsettled ⊢
  refine ⟨hrests, fun i db hdb => ?_, fun k handle op fuel later hk hfuel => ?_⟩
  · exact Database.frozen_of_closed (hrests.closed.database hdb) (hsettled.database hdb)
  · have hstart : w'.step (.start k op fuel) = { w' with
        clients := w'.clients ++ [(handle, ⟨op, op.program handle.collection fuel⟩)] } := by
      unfold World.step
      dsimp only
      rw [hk]
    have hn : (w'.step (.start k op fuel)).clients[w'.clients.length]? =
        some (handle, ⟨op, op.program handle.collection fuel⟩) := by
      rw [hstart]
      exact List.getElem?_concat_length
    obtain ⟨p, hp, hbarred⟩ := (hrests.closed.step (.start k op fuel)).closed.client_run hn
      (op.program_barred handle.collection hfuel) later
    refine ⟨p, hp, ?_, ?_⟩
    · rintro rfl
      exact hbarred
    · rintro r rfl
      cases r with
      | error e => exact .inl ⟨e, rfl⟩
      | ok reply =>
        obtain ⟨rfl, hvain⟩ := hbarred
        exact .inr ⟨rfl, hvain⟩

open Sample in
/-- The database with two articles is closed while a conflict is to come.  A restock through the old
handle fails, and the articles stay. -/
theorem closed_database_frozen_of_articles :
    ∃ w handle program, contended.Reachable ∧ contended.table.size = 4 ∧
      w = (contended.step .close).run
        [.found (.counter "id") [], .openCollection 1 "articles" none, .contend 2] ∧
      contended.Rests w ∧ (member w 0).Frozen ∧ w.handles[0]? = some handle ∧
      (w.run [.start 0 (.updateMany (inStock 7) (restock 8)) 9, .request 1]).clients[1]? =
        some (handle, ⟨.updateMany (inStock 7) (restock 8), program⟩) ∧
      Client.Hides handle.collection ⟨.updateMany (inStock 7) (restock 8), program⟩ := by
  let moves : List Move :=
    [.found (.counter "id") [], .openCollection 1 "articles" none, .contend 2]
  obtain ⟨hrests, hfrozen, hclients⟩ := closed_database_frozen reachable_contended moves
  have hhandle : ((contended.step .close).run moves).handles[0]? = some _ := rfl
  obtain ⟨program, hprogram, hhides⟩ := hclients 0 _ (.updateMany (inStock 7) (restock 8)) 9
    [.request 1] hhandle (by decide)
  exact ⟨_, _, program, reachable_contended, rfl, rfl, hrests,
    hfrozen 0 _ (database?_member (by decide)), hhandle, hprogram, hhides⟩

end World

end DocumentStore
