import DocumentStore.Proofs.Database.Admission
import DocumentStore.Proofs.Database.Opening

/-!
# Names and their collections

Calls on one open database that open and destroy collections bind names and free them.  A name that was
opened keeps its collection until it is destroyed, whatever else is called: opening it again gives that
collection, or fails if other indexes are asked for.  The registered names are those that a call bound and
no later call freed, and none can be registered but valid names with valid indexes.

Destroying a collection opens it first.  So a call that fails to destroy one can leave a name bound that
was free (`RegistryCall.Binds`), though it does not on a store in order that has no conflicts.
-/

namespace DocumentStore

/-! ## What can be registered -/

structure Collection.Registrable (c : Collection) : Prop where
  validName : Registry.ValidName c.name
  declarable : IndexSet.Declarable c.indexes.fields

namespace Registry

variable {r r' : Registry} {name : String} {options : Option CollectionOptions}
  {defaults : CollectionDefaults} {c : Collection}

/-- Every name is bound to a collection of that name that can be registered. -/
def Lawful (r : Registry) : Prop :=
  ∀ name c, r.find? name = some c → c.name = name ∧ c.Registrable

theorem lawful_empty : Lawful empty := fun _ _ h => by cases h

theorem Lawful.register (hr : r.Lawful) (h : r.register name options defaults = .ok (c, r')) :
    r'.Lawful := by
  obtain ⟨hname, ⟨_, rfl⟩ | ⟨_, hdefine, _⟩⟩ := register_cases h
  · exact hr
  · intro name' c' hc'
    rw [find?_register h] at hc'
    split at hc'
    · rename_i hsame
      cases hc'
      subst hsame
      obtain ⟨hdefinable, rfl⟩ := Collection.define_eq_ok_iff.1 hdefine
      exact ⟨rfl, checkName_eq_ok_iff.1 hname, hdefinable.indexes⟩
    · exact hr name' c' hc'

theorem Lawful.unregister (hr : r.Lawful) (name : String) : (r.unregister name).Lawful := by
  intro name' c hc
  rw [find?_unregister] at hc
  split at hc
  · cases hc
  · exact hr name' c hc

end Registry

/-! ## Bound names -/

namespace Database

variable {db : MemoryDatabase} {name : String} {c : Collection}

structure Serves (db : MemoryDatabase) (name : String) (c : Collection) : Prop where
  listed : name ∈ db.registry.names
  reopens : ∀ options : Option CollectionOptions, (∀ o ∈ options, o.indexFields = c.indexes.fields) →
    db.run (openCollection name options) = (some (.ok c), db)
  refuses : ∀ o : CollectionOptions, o.indexFields ≠ c.indexes.fields →
    db.run (openCollection name (some o)) = (some (.error (.redefined name c.indexes.fields)), db)

theorem serves_of_find? (hopen : db.memory.closed = false) (h : db.registry.Lawful)
    (hfind : db.registry.find? name = some c) : db.Serves name c := by
  obtain ⟨rfl, hc⟩ := h name c hfind
  have hname := Registry.checkName_eq_ok_iff.2 hc.validName
  exact ⟨Registry.mem_names_iff.2 ⟨c, hfind⟩,
    fun _ hsame => run_openCollection_of_ok hopen (Registry.register_of_bound hname hfind hsame),
    fun _ hother => run_openCollection_of_error hopen (Registry.register_of_other hname hfind hother)⟩

theorem register_of_opened (hopen : db.memory.closed = false)
    {options : Option CollectionOptions} {opened : MemoryDatabase}
    (hrun : db.run (openCollection name options) = (some (.ok c), opened)) :
    ∃ r, db.registry.register name options db.settings.collectionDefaults = .ok (c, r) ∧
      opened = { db with registry := r } := by
  cases hregister : db.registry.register name options db.settings.collectionDefaults with
  | error e =>
    rw [run_openCollection_of_error hopen hregister] at hrun
    cases hrun
  | ok result =>
    rw [run_openCollection_of_ok hopen hregister] at hrun
    cases hrun
    exact ⟨_, rfl, rfl⟩

/-- All that destroying a collection does to the registry: the name is opened, and freed after that if the
call succeeds. -/
theorem registry_destroyCollection (hopen : db.memory.closed = false)
    (hname : Registry.checkName name = .ok ()) (fuel : Nat) :
    ∃ c r, db.registry.register name none db.settings.collectionDefaults = .ok (c, r) ∧
      ((∃ n, (db.run (destroyCollection name fuel)).1 = some (.ok n)) ∧
          (db.run (destroyCollection name fuel)).2.registry = r.unregister name ∨
        (¬ ∃ n, (db.run (destroyCollection name fuel)).1 = some (.ok n)) ∧
          (db.run (destroyCollection name fuel)).2.registry = r) := by
  obtain ⟨r, hregister⟩ := db.register_none hname
  refine ⟨_, r, hregister, ?_⟩
  rw [destroyCollection, Action.run_bind_of_ok (run_requireOpen_of_open hopen),
    Action.run_bind_of_ok (run_register_of_ok hregister)]
  obtain ⟨hdrop, _⟩ := dropAll_keeps (db.collectionOf name) fuel { db with registry := r }
  -- the registry is touched again only if all documents could be deleted
  by_cases hok : ∃ n, (run { db with registry := r } ((db.collectionOf name).dropAll fuel)).1 =
      some (.ok n)
  · obtain ⟨n, hn⟩ := hok
    rw [Action.run_bind_of_ok (Prod.ext hn rfl)]
    exact .inl ⟨⟨n, rfl⟩, congrArg (·.unregister name) hdrop⟩
  · obtain ⟨hfails, hsame⟩ := Action.run_bind_of_not_ok (f := fun removed => do
      Action.unregister name
      return removed) hok
    exact .inr ⟨hfails, (congrArg _ hsame).trans hdrop⟩

end Database

/-! ## Calls -/

inductive RegistryCall where
  | opening (name : String) (options : Option CollectionOptions)
  | destroying (name : String) (fuel : Nat)

namespace RegistryCall

open Database

def name : RegistryCall → String
  | opening name _ | destroying name _ => name

def on (db : MemoryDatabase) : RegistryCall → MemoryDatabase
  | opening name options => (db.run (openCollection name options)).2
  | destroying name fuel => (db.run (destroyCollection name fuel)).2

def Frees (db : MemoryDatabase) : RegistryCall → Prop
  | opening .. => False
  | destroying name fuel => ∃ n, (db.run (destroyCollection name fuel)).1 = some (.ok n)

/-- The call opens its collection, or opens it to destroy it and fails at that. -/
def Binds (db : MemoryDatabase) : RegistryCall → Prop
  | opening name options => ∃ c, (db.run (openCollection name options)).1 = some (.ok c)
  | destroying name fuel => Registry.checkName name = .ok () ∧
    ¬ ∃ n, (db.run (destroyCollection name fuel)).1 = some (.ok n)

variable {db : MemoryDatabase} {call : RegistryCall} {name : String}

theorem Frees.not_binds (h : call.Frees db) : ¬ call.Binds db := by
  cases call with
  | opening name options => exact h.elim
  | destroying name fuel => exact fun hbinds => hbinds.2 h

theorem closed_on (call : RegistryCall) (db : MemoryDatabase) :
    (call.on db).memory.closed = db.memory.closed := by
  cases call <;> exact run_closed _ db

inductive Acts (db : MemoryDatabase) (call : RegistryCall) : Registry → Prop where
  | binds {options : Option CollectionOptions} {c : Collection} {r : Registry}
    (hbinds : call.Binds db)
    (hregister : db.registry.register call.name options db.settings.collectionDefaults =
      .ok (c, r)) : Acts db call r
  | frees {c : Collection} {r : Registry} (hfrees : call.Frees db)
    (hregister : db.registry.register call.name none db.settings.collectionDefaults = .ok (c, r)) :
    Acts db call (r.unregister call.name)
  | idle (hbinds : ¬ call.Binds db) (hfrees : ¬ call.Frees db) : Acts db call db.registry

theorem acts (hopen : db.memory.closed = false) (call : RegistryCall) :
    call.Acts db (call.on db).registry := by
  cases call with
  | opening name options =>
    rw [on]
    cases hregister : db.registry.register name options db.settings.collectionDefaults with
    | ok opened =>
      have hrun := run_openCollection_of_ok hopen hregister
      rw [hrun]
      exact .binds ⟨_, congrArg Prod.fst hrun⟩ hregister
    | error e =>
      have hrun := run_openCollection_of_error hopen hregister
      rw [hrun]
      refine .idle (fun ⟨c, hc⟩ => ?_) id
      rw [hrun] at hc
      cases hc
  | destroying name fuel =>
    rw [on]
    cases hname : Registry.checkName name with
    -- an invalid name is refused before anything is opened
    | error e =>
      obtain ⟨result, db', hrun, hresult⟩ : (destroyCollection name fuel).Ends _ _ db :=
        destroyCollection_of_invalid hname fuel
      cases result with
      | ok n => exact hresult.elim
      | error e' =>
        obtain rfl : db' = db := hresult
        rw [hrun]
        refine .idle (fun ⟨hok, _⟩ => ?_) (fun ⟨n, hn⟩ => ?_)
        · cases hname.symm.trans hok
        · rw [hrun] at hn
          cases hn
    | ok _ =>
      obtain ⟨c, r, hregister, ⟨hok, hr⟩ | ⟨hok, hr⟩⟩ := registry_destroyCollection hopen hname fuel
      · rw [hr]
        exact .frees hok hregister
      · rw [hr]
        exact .binds ⟨hname, hok⟩ hregister

/-- A name that is not freed keeps its collection. -/
theorem find?_on_of_some (hopen : db.memory.closed = false) {c : Collection}
    (h : db.registry.find? name = some c) (hretains : ¬ (call.name = name ∧ call.Frees db)) :
    (call.on db).registry.find? name = some c := by
  have hacts := call.acts hopen
  generalize (call.on db).registry = r at hacts ⊢
  cases hacts with
  | binds _ hregister => exact Registry.register_keeps hregister h
  | frees hfrees hregister =>
    rw [Registry.find?_unregister, if_neg fun hname => hretains ⟨hname.symm, hfrees⟩]
    exact Registry.register_keeps hregister h
  | idle => exact h

/-- The names that are registered after a call. -/
theorem mem_names_on (hopen : db.memory.closed = false) :
    name ∈ (call.on db).registry.names ↔ call.name = name ∧ call.Binds db ∨
      name ∈ db.registry.names ∧ ¬ (call.name = name ∧ call.Frees db) := by
  have hacts := call.acts hopen
  generalize (call.on db).registry = r at hacts ⊢
  cases hacts with
  | binds hbinds hregister =>
    rw [Registry.mem_names_register hregister, and_iff_left hbinds, eq_comm,
      and_iff_left fun h => h.2.not_binds hbinds]
  | frees hfrees hregister =>
    rw [Registry.mem_names_unregister, Registry.mem_names_register hregister]
    have hbinds := hfrees.not_binds
    by_cases hname : name = call.name
    · simp [hname, hfrees, hbinds]
    · simp [hname, hbinds, Ne.symm hname]
  | idle hbinds hfrees => simp [hbinds, hfrees]

theorem lawful_on (hopen : db.memory.closed = false) (h : db.registry.Lawful) :
    (call.on db).registry.Lawful := by
  have hacts := call.acts hopen
  generalize (call.on db).registry = r at hacts ⊢
  cases hacts with
  | binds _ hregister => exact h.register hregister
  | frees _ hregister => exact (h.register hregister).unregister _
  | idle => exact h

/-! ## Stores without conflicts -/

/-- A database in order, with no conflicts to come and at most `n` entries. -/
structure Calm (db : MemoryDatabase) (n : Nat) : Prop where
  sound : db.Sound
  quiet : db.settings.store.remaining = 0
  size_le : db.memory.table.size ≤ n

def Fueled (n : Nat) : RegistryCall → Prop
  | opening .. => True
  | destroying _ fuel => n < fuel

variable {n : Nat}

theorem Calm.on (h : Calm db n) (hfuel : call.Fueled n) : Calm (call.on db) n := by
  cases call with
  | opening name options =>
    obtain ⟨result, db', hrun, hresult⟩ := openCollection_settles h.sound name options
    have hon : (opening name options).on db = db' := congrArg Prod.snd hrun
    rw [hon]
    cases result with
    | error e =>
      obtain rfl : db' = db := hresult
      exact h
    | ok c =>
      obtain ⟨r, hopens, rfl⟩ := hresult
      exact ⟨⟨h.sound.housed, h.sound.defaults, hopens.sound⟩, h.quiet, h.size_le⟩
  | destroying name fuel =>
    obtain ⟨hsound, hsubset⟩ :=
      destroyCollection_shrinks h.sound name (Nat.lt_of_le_of_lt h.size_le hfuel)
    exact ⟨hsound, quiet_run h.quiet _, (Table.size_le_of_subset hsubset).trans h.size_le⟩

/-- Where there are no conflicts, a collection with a valid name can be destroyed. -/
theorem Calm.not_binds_destroying (h : Calm db n) (hopen : db.memory.closed = false) {fuel : Nat}
    (hfuel : n < fuel) : ¬ (destroying name fuel).Binds db := by
  rintro ⟨hname, hfails⟩
  obtain ⟨result, db', hrun, hresult⟩ :=
    destroyCollection_settles h.sound hname (Nat.lt_of_le_of_lt h.size_le hfuel)
  cases result with
  | ok n => exact hfails ⟨n, congrArg Prod.fst hrun⟩
  | error e =>
    rcases hresult.1.reason with hclosed | ⟨attempts, hpolicy, hle⟩
    · rw [hopen] at hclosed
      cases hclosed
    -- the policy of a collection that was opened allows an attempt
    · rw [h.quiet] at hle
      obtain rfl : attempts = 0 := UInt32.toNat_inj.1 (Nat.le_zero.1 hle)
      obtain ⟨r', hregister⟩ := db.register_none hname
      have hcheck :=
        (h.sound.registry.register h.sound.defaults hregister).opened.check_deletePolicy
      rw [hpolicy] at hcheck
      cases hcheck

/-! ## Histories -/

def run (db : MemoryDatabase) (calls : List RegistryCall) : MemoryDatabase := calls.foldl on db

/-- None of the calls destroys the collection of the name. -/
def Retain (name : String) : MemoryDatabase → List RegistryCall → Prop
  | _, [] => True
  | db, call :: calls => ¬ (call.name = name ∧ call.Frees db) ∧ Retain name (call.on db) calls

/-- One of the calls binds the name, and none after it destroys its collection. -/
def LeaveBound (name : String) : MemoryDatabase → List RegistryCall → Prop
  | _, [] => False
  | db, call :: calls => (call.name = name ∧ call.Binds db) ∧ Retain name (call.on db) calls ∨
    LeaveBound name (call.on db) calls

variable {calls : List RegistryCall}

theorem closed_run (hopen : db.memory.closed = false) : (run db calls).memory.closed = false := by
  induction calls generalizing db with
  | nil => exact hopen
  | cons call calls ih => exact ih ((call.closed_on db).trans hopen)

theorem lawful_run (hopen : db.memory.closed = false) (h : db.registry.Lawful) :
    (run db calls).registry.Lawful := by
  induction calls generalizing db with
  | nil => exact h
  | cons call calls ih => exact ih ((call.closed_on db).trans hopen) (lawful_on hopen h)

theorem Calm.run {n : Nat} (h : Calm db n) (hfuel : ∀ call ∈ calls, call.Fueled n) :
    Calm (RegistryCall.run db calls) n := by
  induction calls generalizing db with
  | nil => exact h
  | cons call calls ih =>
    obtain ⟨hcall, hcalls⟩ := List.forall_mem_cons.1 hfuel
    exact ih (h.on hcall) hcalls

theorem find?_run_of_some (hopen : db.memory.closed = false) {c : Collection}
    (h : db.registry.find? name = some c) (hretain : Retain name db calls) :
    (run db calls).registry.find? name = some c := by
  induction calls generalizing db with
  | nil => exact h
  | cons call calls ih =>
    exact ih ((call.closed_on db).trans hopen) (find?_on_of_some hopen h hretain.1) hretain.2

theorem mem_names_run (hopen : db.memory.closed = false) :
    name ∈ (run db calls).registry.names ↔
      LeaveBound name db calls ∨ name ∈ db.registry.names ∧ Retain name db calls := by
  induction calls generalizing db with
  | nil => simp [run, LeaveBound, Retain]
  | cons call calls ih =>
    refine (ih ((call.closed_on db).trans hopen)).trans ?_
    -- bound by the first call, by a later one, or before all of them
    rw [mem_names_on hopen, LeaveBound, Retain]
    tauto

end RegistryCall

namespace Database

/-- After any calls on an open database that starts without collections, a name that is opened stays bound
to its collection until it is destroyed; any open that the registry admits succeeds, and one that fails
changes nothing; the registered names and their indexes are valid; and these names are, in ascending
order, those that the calls leave bound.  On a store in order without conflicts a name is bound by opening
it alone. -/
theorem registry_binds {db : MemoryDatabase} (hopen : db.memory.closed = false)
    (hempty : db.registry = .empty) (before : List RegistryCall) :
    let now := RegistryCall.run db before
    (∀ name options c opened, now.run (openCollection name options) = (some (.ok c), opened) →
      (name ∉ now.registry.names → c.indexes.fields = (options.getD {}).indexFields) ∧
      ∀ later, RegistryCall.Retain name opened later →
        (RegistryCall.run opened later).Serves name c) ∧
    (∀ name indexes, (Error.redefined name indexes).kind = .configuration) ∧
    (∀ name options, ∃ result opened,
      now.run (openCollection name options) = (some result, opened) ∧
      ((∃ c, result = .ok c) ↔ now.registry.Admits name options) ∧
      ∀ e, result = .error e → opened = now ∧ e.kind = .configuration) ∧
    (∀ name ∈ now.registry.names, ∃ c, now.Serves name c ∧ c.name = name ∧ c.Registrable) ∧
    now.registry.names.Pairwise (· < ·) ∧
    (∀ name, name ∈ now.registry.names ↔ RegistryCall.LeaveBound name db before) ∧
    (∀ n, RegistryCall.Calm db n → (∀ call ∈ before, call.Fueled n) →
      ∀ name fuel, n < fuel → ¬ (RegistryCall.destroying name fuel).Binds now) := by
  intro now
  have hnow : now.memory.closed = false := RegistryCall.closed_run hopen
  have hlawful : now.registry.Lawful :=
    RegistryCall.lawful_run hopen (hempty ▸ Registry.lawful_empty)
  refine ⟨fun name options c opened hrun => ?_, fun _ _ => rfl, fun name options => ?_,
    fun name hname => ?_, now.registry.pairwise_names, fun name => ?_,
    fun n hcalm hfuel name fuel => (hcalm.run hfuel).not_binds_destroying hnow⟩
  -- an open that succeeds binds the name, and no call but a destroy takes the binding away
  · obtain ⟨r, hregister, rfl⟩ := register_of_opened hnow hrun
    have hopened : (memory { now with registry := r }).closed = false := hnow
    have hfind := Registry.find?_register hregister name
    rw [if_pos rfl] at hfind
    refine ⟨fun hname => ?_, fun later hretain => ?_⟩
    · obtain ⟨_, ⟨hbound, _⟩ | ⟨_, hdefine, _⟩⟩ := Registry.register_cases hregister
      · exact absurd (Registry.mem_names_iff.2 ⟨_, hbound⟩) hname
      · rw [(Collection.define_eq_ok hdefine).2.2.2]
    · exact serves_of_find? (RegistryCall.closed_run hopened)
        (RegistryCall.lawful_run hopened (hlawful.register hregister))
        (RegistryCall.find?_run_of_some hopened hfind hretain)
  · have hadmits : (∃ c r, now.registry.register name options now.settings.collectionDefaults =
        .ok (c, r)) ↔ now.registry.Admits name options := Registry.exists_register_iff
    cases hregister : now.registry.register name options now.settings.collectionDefaults with
    | ok result =>
      refine ⟨_, _, run_openCollection_of_ok hnow hregister, iff_of_true ⟨_, rfl⟩ ?_, nofun⟩
      exact hadmits.1 ⟨_, _, hregister⟩
    | error e =>
      refine ⟨_, _, run_openCollection_of_error hnow hregister, iff_of_false nofun fun h => ?_,
        fun e' he' => ⟨rfl, ?_⟩⟩
      · obtain ⟨c, r, hok⟩ := hadmits.2 h
        cases hregister.symm.trans hok
      obtain rfl : e = e' := Except.error.inj he'
      exact Registry.kind_of_register hregister
  · obtain ⟨c, hc⟩ := Registry.mem_names_iff.1 hname
    exact ⟨c, serves_of_find? hnow hlawful hc, hlawful name c hc⟩
  -- there were no names at the start, so all that are left were bound by a call
  · have hfree : name ∉ db.registry.names := by
      rw [hempty, Registry.mem_names_iff]
      rintro ⟨c, hc⟩
      cases hc
    rw [RegistryCall.mem_names_run hopen, or_iff_left fun h => hfree h.1]

/-- After articles were opened by stock, authors that are opened by name stay bound to it, also when an open
by age has failed and the articles are destroyed.  Destroying drafts over and over binds nothing. -/
theorem registry_binds_of_authors :
    let db : MemoryDatabase := ⟨.initial ⟨.empty, 0⟩ (.counter "author"), .empty⟩
    let before := [.opening "articles" (some { indexFields := ["stock"] })]
    let authors : Collection :=
      ⟨"authors", ⟨["name"]⟩, { indexFields := ["name"] }, db.settings.collectionDefaults⟩
    let drafts := RegistryCall.destroying "drafts" 9
    ∃ opened, (RegistryCall.run db before).run
        (openCollection "authors" (some { indexFields := ["name"] })) =
          (some (.ok authors), opened) ∧
      (RegistryCall.run opened [.opening "authors" (some { indexFields := ["age"] }),
        .destroying "articles" 9]).Serves "authors" authors ∧
      RegistryCall.LeaveBound "articles" db before ∧
      ¬ drafts.Binds (RegistryCall.run db [drafts]) := by
  intro db before authors drafts
  obtain ⟨hbinds, _, _, _, _, hleave, _⟩ :=
    registry_binds (show db.memory.closed = false from rfl) rfl before
  obtain ⟨_, _, _, _, _, _, hcalm⟩ :=
    registry_binds (show db.memory.closed = false from rfl) rfl [drafts]
  have hrun : (RegistryCall.run db before).run
      (openCollection "authors" (some { indexFields := ["name"] })) = (some (.ok authors), _) :=
    Prod.ext rfl rfl
  have hsound : db.Sound :=
    ⟨Table.housed_empty, Settings.initial_valid _ _, Registry.sound_empty⟩
  have hfuel : ∀ call ∈ [drafts], call.Fueled 0 := List.forall_mem_singleton.2 (show 0 < 9 by decide)
  refine ⟨_, hrun, (hbinds _ _ _ _ hrun).2 _ ⟨fun h => h.2, fun h => ?_, trivial⟩,
    (hleave "articles").1 (by decide +kernel),
    hcalm 0 ⟨hsound, rfl, Nat.le_refl 0⟩ hfuel "drafts" 9 (by decide)⟩
  exact absurd h.1 (by decide)

end Database

end DocumentStore
