import DocumentStore.Proofs.Program.Counting
import DocumentStore.Proofs.Store.Ownership

/-!
# Programs that cannot tell two stores apart

Two programs mirror each other if they ask for the same under one name, one request after another, as
long as they get answers that differ in versions only (`Program.Mirrors`).  Which version stands for
which is a `Pairing`; it keeps different versions apart, so that the same checks hold on both sides.
Run on databases that agree under the name, such programs give the same results and lead to databases
that agree again, and neither touches an entry of another name (`Program.Mirrors.run`).

A program that mirrors itself keeps to its name (`Pairing.own`).
-/

namespace DocumentStore

variable {α β γ δ : Type}

/-- What two databases have in common as far as the collection of a name goes. -/
structure Pairing where
  name : String
  /-- The versions that stand for each other. -/
  versions : Version → Version → Prop
  unique : ∀ {v v' w w'}, versions v w → versions v' w' → (v = v' ↔ w = w')
  /-- What is known of the keys and the values of entries. -/
  known : Key → Value → Prop
  /-- Whether the same identities are drawn. -/
  sharesIds : Prop

/-- Both results are errors and the same one, or none is. -/
inductive SameOutcome (post : α → β → Prop) : Except Error α → Except Error β → Prop where
  | ok {a : α} {b : β} (h : post a b) : SameOutcome post (.ok a) (.ok b)
  | error (e : Error) : SameOutcome post (.error e) (.error e)

theorem SameOutcome.imp {post post' : α → β → Prop} (himp : ∀ a b, post a b → post' a b)
    {r : Except Error α} {r' : Except Error β} (h : SameOutcome post r r') :
    SameOutcome post' r r' := by
  cases h with
  | ok h => exact .ok (himp _ _ h)
  | error e => exact .error e

theorem SameOutcome.refl (r : Except Error α) : SameOutcome Eq r r := by
  cases r with
  | ok a => exact .ok rfl
  | error e => exact .error e

namespace Pairing

variable (R : Pairing)

/-! ## Answers -/

structure Like (e e' : Entry) : Prop where
  key : e'.key = e.key
  value : e'.value = e.value
  versions : R.versions e.version e'.version
  owned : e.key.belongsTo R.name = true
  known : R.known e.key e.value

def Found (key : Key) : Option Entry → Option Entry → Prop :=
  Option.Rel fun e e' => R.Like e e' ∧ e.key.same key = true

def Page (base : Key) : List Entry → List Entry → Prop :=
  List.Forall₂ fun e e' => R.Like e e' ∧ e.key.isUnder base = true

inductive Commits : CommitResult → CommitResult → Prop where
  | committed {v v' : Version} (h : R.versions v v') : Commits (.committed v) (.committed v')
  | conflict : Commits .conflict .conflict

/-- Batches under the name that check the same and write the same. -/
structure Fits (b b' : Batch) : Prop where
  checks : List.Forall₂ (fun check check' => check'.key = check.key ∧
    check.key.belongsTo R.name = true ∧ Option.Rel R.versions check.version check'.version)
    b.checks b'.checks
  mutations : b'.mutations = b.mutations
  owned : ∀ m ∈ b.mutations, m.key.belongsTo R.name = true
  known : ∀ key value, .set key value ∈ b.mutations → R.known key value

end Pairing

/-! ## Programs -/

/-- The programs make the same requests and end in the same way, if they get answers that stand for
each other.  The batches that they commit are those of `sends`. -/
inductive Program.Mirrors (R : Pairing) (sends : Batch → Batch → Prop) (post : α → β → Prop) :
    Program α → Program β → Prop where
  | done {a : α} {b : β} (h : post a b) : Mirrors R sends post (.done a) (.done b)
  | unfinished : Mirrors R sends post .unfinished .unfinished
  | get {key : Key} {next : (Request.get key).Answer → Program α}
    {next' : (Request.get key).Answer → Program β} (hkey : key.belongsTo R.name = true)
    (h : ∀ r r', SameOutcome (R.Found key) r r' → Mirrors R sends post (next r) (next' r')) :
    Mirrors R sends post (.ask (.get key) next) (.ask (.get key) next')
  | scan {base : Key} {after : Option Key} {limit : Nat}
    {next : (Request.scan base after limit).Answer → Program α}
    {next' : (Request.scan base after limit).Answer → Program β}
    (hbase : base.belongsTo R.name = true) (hafter : ∀ key ∈ after, key.isUnder base = true)
    (h : ∀ r r', SameOutcome (R.Page base) r r' → Mirrors R sends post (next r) (next' r')) :
    Mirrors R sends post (.ask (.scan base after limit) next)
      (.ask (.scan base after limit) next')
  | commit {b b' : Batch} {next : (Request.commit b).Answer → Program α}
    {next' : (Request.commit b').Answer → Program β} (hsends : sends b b')
    (h : ∀ r r', SameOutcome R.Commits r r' → Mirrors R sends post (next r) (next' r')) :
    Mirrors R sends post (.ask (.commit b) next) (.ask (.commit b') next')
  | isClosed {next : Bool → Program α} {next' : Bool → Program β}
    (h : ∀ closed, Mirrors R sends post (next closed) (next' closed)) :
    Mirrors R sends post (.ask .isClosed next) (.ask .isClosed next')
  | freshId {next : String → Program α} {next' : String → Program β} (hids : R.sharesIds)
    (h : ∀ id, Mirrors R sends post (next id) (next' id)) :
    Mirrors R sends post (.ask .freshId next) (.ask .freshId next')

abbrev Action.Mirrors (R : Pairing) (sends : Batch → Batch → Prop) (post : α → β → Prop)
    (p : Action α) (p' : Action β) : Prop :=
  Program.Mirrors R sends (SameOutcome post) p p'

variable {R : Pairing} {sends : Batch → Batch → Prop} {post : α → β → Prop}

namespace Program.Mirrors

theorem pure {a : α} {b : β} (h : post a b) :
    (Pure.pure a : Program α).Mirrors R sends post (Pure.pure b) :=
  .done h

theorem bind {post : γ → δ → Prop} {p : Program α} {p' : Program β} {f : α → Program γ}
    {f' : β → Program δ} {M : α → β → Prop} (h : p.Mirrors R sends M p')
    (hf : ∀ a b, M a b → (f a).Mirrors R sends post (f' b)) :
    (p >>= f).Mirrors R sends post (p' >>= f') := by
  induction h with
  | done h => exact hf _ _ h
  | unfinished => exact .unfinished
  | get hkey _ ih => exact .get hkey ih
  | scan hbase hafter _ ih => exact .scan hbase hafter ih
  | commit hsends _ ih => exact .commit hsends ih
  | isClosed _ ih => exact .isClosed ih
  | freshId hids _ ih => exact .freshId hids ih

theorem askIsClosed : Action.isClosed.Mirrors R sends Eq Action.isClosed :=
  .isClosed fun _ => .done rfl

theorem askFreshId (hids : R.sharesIds) : Action.freshId.Mirrors R sends Eq Action.freshId :=
  .freshId hids fun _ => .done rfl

end Program.Mirrors

namespace Action.Mirrors

theorem ofExcept {r : Except Error α} {r' : Except Error β} (h : SameOutcome post r r') :
    Action.Mirrors R sends post (Action.ofExcept r) (Action.ofExcept r') :=
  .done h

theorem pure {a : α} {b : β} (h : post a b) :
    Action.Mirrors R sends post (Pure.pure a) (Pure.pure b) :=
  ofExcept (.ok h)

theorem throw (e : Error) :
    Action.Mirrors R sends post (MonadExcept.throw e) (MonadExcept.throw e) :=
  ofExcept (.error e)

theorem bind {post : γ → δ → Prop} {p : Action α} {p' : Action β} {f : α → Action γ}
    {f' : β → Action δ} {M : α → β → Prop} (h : Action.Mirrors R sends M p p')
    (hf : ∀ a b, M a b → Action.Mirrors R sends post (f a) (f' b)) :
    Action.Mirrors R sends post (p >>= f) (p' >>= f') := by
  refine Program.Mirrors.bind h fun r r' hr => ?_
  cases hr with
  | ok h => exact hf _ _ h
  | error e => exact throw e

theorem lift {p : Program α} {p' : Program β} (h : p.Mirrors R sends post p') :
    Action.Mirrors R sends post (liftM p) (liftM p') :=
  Program.Mirrors.bind h fun _ _ hab => pure hab

theorem get {key : Key} (hkey : key.belongsTo R.name = true) :
    Action.Mirrors R sends (R.Found key) (Action.get key) (Action.get key) :=
  Program.Mirrors.get hkey fun _ _ hr => .done hr

theorem scan {base : Key} {after : Option Key} (limit : Nat)
    (hbase : base.belongsTo R.name = true) (hafter : ∀ key ∈ after, key.isUnder base = true) :
    Action.Mirrors R sends (R.Page base) (Action.scan base after limit)
      (Action.scan base after limit) :=
  Program.Mirrors.scan hbase hafter fun _ _ hr => .done hr

theorem commit {b b' : Batch} (hsends : sends b b') :
    Action.Mirrors R sends R.Commits (Action.commit b) (Action.commit b') :=
  Program.Mirrors.commit hsends fun _ _ hr => .done hr

end Action.Mirrors

/-! ## Runs -/

namespace Pairing

/-- Databases that agree under the name, and will give versions that stand for each other. -/
structure Mirrored (R : Pairing) (db db' : MemoryDatabase) : Prop where
  entries : List.Forall₂ R.Like (db.memory.table.owned R.name) (db'.memory.table.owned R.name)
  fresh : ∀ i, R.versions (db.memory.version + 1 + i) (db'.memory.version + 1 + i)
  closed : db'.memory.closed = db.memory.closed
  remaining : db'.settings.store.remaining = db.settings.store.remaining
  ids : R.sharesIds → db'.settings.ids = db.settings.ids

variable {db db' : MemoryDatabase} {b b' : Batch}

/-- Reading leaves databases in agreement. -/
theorem Mirrored.spends (h : R.Mirrored db db') {d d' : MemoryDatabase} (hd : db.Spends 0 d)
    (hd' : db'.Spends 0 d') (hids : R.sharesIds → d'.settings.ids = d.settings.ids) :
    R.Mirrored d d' := by
  have halike := hd.alike
  have halike' := hd'.alike
  refine ⟨?_, ?_, ?_, ?_, hids⟩
  · rw [halike.table, halike'.table]
    exact h.entries
  · rw [halike.version, halike'.version]
    exact h.fresh
  · rw [halike.closed, halike'.closed, h.closed]
  · rw [halike.remaining, halike'.remaining, h.remaining]

theorem Mirrored.get (h : R.Mirrored db db') {key : Key} (hkey : key.belongsTo R.name = true) :
    SameOutcome (R.Found key) (db.memory.get key).1 (db'.memory.get key).1 := by
  have hfind := Table.find?_rel (fun he => he.key) hkey h.entries
  unfold Memory.get
  rw [h.closed]
  by_cases hclosed : db.memory.closed = true
  · rw [if_pos hclosed, if_pos hclosed]
    exact .error _
  · rw [if_neg hclosed, if_neg hclosed]
    cases he : db.memory.table.find? key with
    | none =>
      rw [he] at hfind
      cases he' : db'.memory.table.find? key with
      | none => exact .ok .none
      | some e' =>
        rw [he'] at hfind
        cases hfind
    | some e =>
      rw [he] at hfind
      cases he' : db'.memory.table.find? key with
      | none =>
        rw [he'] at hfind
        cases hfind
      | some e' =>
        rw [he'] at hfind
        cases hfind with
        | some hlike => exact .ok (.some ⟨hlike, (Table.find?_eq_some_iff.1 he).2⟩)

theorem Mirrored.scan (h : R.Mirrored db db') {base : Key} {after : Option Key} (limit : Nat)
    (hbase : base.belongsTo R.name = true) (hafter : ∀ key ∈ after, key.isUnder base = true) :
    SameOutcome (R.Page base) (db.memory.scan base after limit).1
      (db'.memory.scan base after limit).1 := by
  have hpage := Table.forall₂_scan (fun he => he.key) limit hbase hafter h.entries
  unfold Memory.scan
  rw [h.closed]
  by_cases hclosed : db.memory.closed = true
  · rw [if_pos hclosed, if_pos hclosed]
    exact .error _
  · rw [if_neg hclosed, if_neg hclosed]
    refine .ok ?_
    refine List.forall₂_iff_get.2 ⟨hpage.length_eq, fun i hi hi' => ⟨hpage.get hi hi', ?_⟩⟩
    exact (Table.mem_of_mem_scan (List.get_mem _ _)).2

theorem eq_iff_of_rel {v v' w w' : Option Version} (hv : Option.Rel R.versions v v')
    (hw : Option.Rel R.versions w w') : v = w ↔ v' = w' := by
  cases hv with
  | none => cases hw <;> simp
  | some hv =>
    cases hw with
    | none => simp
    | some hw => simpa using R.unique hv hw

/-- The same checks hold. -/
theorem Mirrored.holds (h : R.Mirrored db db') {check check' : Check}
    (hkey : check'.key = check.key) (howned : check.key.belongsTo R.name = true)
    (hversion : Option.Rel R.versions check.version check'.version) :
    db'.memory.holds check' = db.memory.holds check := by
  have hfind : Option.Rel R.versions (db.memory.table.version? check.key)
      (db'.memory.table.version? check.key) := by
    have hrel := Table.find?_rel (fun he => he.key) howned h.entries
    unfold Table.version?
    generalize db.memory.table.find? check.key = e at hrel ⊢
    generalize db'.memory.table.find? check.key = e' at hrel ⊢
    cases hrel with
    | none => exact .none
    | some hlike => exact .some hlike.versions
  rw [Memory.holds, Memory.holds, hkey, Bool.eq_iff_iff, beq_iff_eq, beq_iff_eq]
  exact (eq_iff_of_rel hfind hversion).symm

theorem Mirrored.all_holds (h : R.Mirrored db db') (hb : R.Fits b b') :
    b'.checks.all db'.memory.holds = b.checks.all db.memory.holds := by
  have hchecks := hb.checks
  generalize b.checks = checks at hchecks ⊢
  generalize b'.checks = checks' at hchecks ⊢
  induction hchecks with
  | nil => rfl
  | cons hcheck _ ih =>
    rw [List.all_cons, List.all_cons, h.holds hcheck.1 hcheck.2.1 hcheck.2.2, ih]

/-- A commit of batches that fit ends in the same way, and leaves databases in agreement. -/
theorem Mirrored.commit (h : R.Mirrored db db') (hb : R.Fits b b') :
    SameOutcome R.Commits (KeyValueStore.commit db.settings.store b).1
      (KeyValueStore.commit db'.settings.store b').1 ∧
    R.Mirrored (db.withStore (KeyValueStore.commit db.settings.store b).2)
      (db'.withStore (KeyValueStore.commit db'.settings.store b').2) := by
  have hempty : b'.checks.isEmpty = b.checks.isEmpty := by
    rw [Bool.eq_iff_iff, List.isEmpty_iff_length_eq_zero, List.isEmpty_iff_length_eq_zero,
      hb.checks.length_eq]
  by_cases hcontended : (!b.checks.isEmpty && db.settings.store.remaining != 0) = true
  -- both conflict because they are made to
  · have hcontended' : (!b'.checks.isEmpty && db'.settings.store.remaining != 0) = true := by
      rw [hempty, h.remaining]
      exact hcontended
    rw [Database.commit_of_contended hcontended, Database.commit_of_contended hcontended',
      h.remaining]
    refine ⟨.ok .conflict, ?_⟩
    dsimp only
    split
    · exact ⟨h.entries, h.fresh, h.closed, h.remaining, h.ids⟩
    · exact ⟨h.entries, h.fresh, h.closed, rfl, h.ids⟩
  -- the memories decide, and the same checks hold
  · have hcontended' : ¬ (!b'.checks.isEmpty && db'.settings.store.remaining != 0) = true := by
      rw [hempty, h.remaining]
      exact hcontended
    rw [Database.commit_of_quiet hcontended, Database.commit_of_quiet hcontended']
    show SameOutcome R.Commits (db.memory.commit b).1 (db'.memory.commit b').1 ∧
      R.Mirrored (db.withStore { db.settings.store with store := (db.memory.commit b).2 })
        (db'.withStore { db'.settings.store with store := (db'.memory.commit b').2 })
    unfold Memory.commit
    by_cases hclosed : db.memory.closed = true
    · rw [if_pos hclosed, if_pos (h.closed.trans hclosed)]
      exact ⟨.error _, h.entries, h.fresh, h.closed, h.remaining, h.ids⟩
    · have hclosed' : ¬ db'.memory.closed = true := h.closed ▸ hclosed
      rw [if_neg hclosed, if_neg hclosed']
      by_cases hholds : b.checks.all db.memory.holds = true
      · rw [if_pos hholds, if_pos ((h.all_holds hb).trans hholds)]
        refine ⟨.ok (.committed (h.fresh 0)), ?_, fun i => ?_, h.closed, h.remaining, h.ids⟩
        · show List.Forall₂ R.Like
            ((db.memory.table.applyAll (db.memory.version + 1) b.mutations).owned R.name)
            ((db'.memory.table.applyAll (db'.memory.version + 1) b'.mutations).owned R.name)
          rw [hb.mutations]
          refine Table.forall₂_applyAll (fun he => he.key) hb.owned ?_ h.entries
          intro key value hset
          exact ⟨rfl, rfl, h.fresh 0, hb.owned _ hset, hb.known key value hset⟩
        · have hnext := h.fresh (1 + i)
          rw [← Nat.add_assoc, ← Nat.add_assoc] at hnext
          exact hnext
      · have hholds' : ¬ b'.checks.all db'.memory.holds = true := h.all_holds hb ▸ hholds
        rw [if_neg hholds, if_neg hholds']
        exact ⟨.ok .conflict, h.entries, h.fresh, h.closed, h.remaining, h.ids⟩

end Pairing

/-- The entries of all other names are as they were. -/
def Table.SameElsewhere (name : String) (t t' : Table) : Prop :=
  ∀ e : Entry, e.key.belongsTo name = false → (e ∈ t'.entries ↔ e ∈ t.entries)

/-- A commit of a batch under a name. -/
theorem Database.sameElsewhere_commit {name : String} {b : Batch} (db : MemoryDatabase)
    (hb : ∀ m ∈ b.mutations, m.key.belongsTo name = true) :
    db.memory.table.SameElsewhere name (answer (.commit b) db).2.memory.table := by
  intro e he
  cases hw : db.effect? (.commit b) with
  | none => rw [(memory_of_no_effect hw).1]
  | some w =>
    obtain ⟨hbatch, hbefore, hafter, heffective⟩ := effective_of_effect? hw
    cases hbatch
    rw [← hafter, heffective.table, hbefore]
    exact Table.mem_applyAll_of_not_belongsTo hb he

/-- What a request that reads leads away from is what it leads to. -/
theorem Database.sameElsewhere_of_reads {name : String} {r : Request} (hr : r.isCommit = false)
    (db : MemoryDatabase) : db.memory.table.SameElsewhere name (answer r db).2.memory.table := by
  rw [(answer_spends hr db).alike.table]
  exact fun e _ => Iff.rfl

variable {db db' : MemoryDatabase}

/-- The answers to one request keep programs that mirror each other together, and databases in
agreement; entries of other names are left alone. -/
theorem Program.Mirrors.step {r r' : Request} {next : r.Answer → Program α}
    {next' : r'.Answer → Program β} (h : (ask r next).Mirrors R sends post (ask r' next'))
    (hsends : ∀ b b', sends b b' → R.Fits b b') (hdb : R.Mirrored db db') :
    (next (Database.answer r db).1).Mirrors R sends post (next' (Database.answer r' db').1) ∧
      R.Mirrored (Database.answer r db).2 (Database.answer r' db').2 ∧
      db.memory.table.SameElsewhere R.name (Database.answer r db).2.memory.table := by
  cases h with
  | get hkey h =>
    exact ⟨h _ _ (hdb.get hkey),
      hdb.spends (Database.answer_spends rfl db) (Database.answer_spends rfl db') hdb.ids,
      Database.sameElsewhere_of_reads rfl db⟩
  | scan hbase hafter h =>
    exact ⟨h _ _ (hdb.scan _ hbase hafter),
      hdb.spends (Database.answer_spends rfl db) (Database.answer_spends rfl db') hdb.ids,
      Database.sameElsewhere_of_reads rfl db⟩
  | commit hb h =>
    have hfits := hsends _ _ hb
    obtain ⟨houtcome, hnext⟩ := hdb.commit hfits
    exact ⟨h _ _ houtcome, hnext, db.sameElsewhere_commit hfits.owned⟩
  | isClosed h =>
    have hclosed : (Database.answer .isClosed db').1 = (Database.answer .isClosed db).1 := hdb.closed
    rw [hclosed]
    exact ⟨h _, hdb, fun e _ => Iff.rfl⟩
  | freshId hids h =>
    have hsame := hdb.ids hids
    have hid : (Database.answer .freshId db').1 = (Database.answer .freshId db).1 :=
      congrArg (fun ids : IdSource => ids.next.1) hsame
    rw [hid]
    exact ⟨h _, ⟨hdb.entries, hdb.fresh, hdb.closed, hdb.remaining, fun _ =>
      congrArg (fun ids : IdSource => ids.next.2) hsame⟩, fun e _ => Iff.rfl⟩

theorem Program.Mirrors.ask_inv {r : Request} {next : r.Answer → Program α} {p' : Program β}
    (h : (ask r next).Mirrors R sends post p') : ∃ r' next', p' = ask r' next' := by
  cases h <;> exact ⟨_, _, rfl⟩

/-- Programs that mirror each other give the same results on databases that agree under the name, and
leave these in agreement and other entries alone. -/
theorem Program.Mirrors.run {p : Program α} {p' : Program β} (h : p.Mirrors R sends post p')
    (hsends : ∀ b b', sends b b' → R.Fits b b') (hdb : R.Mirrored db db') :
    Option.Rel post (db.run p).1 (db'.run p').1 ∧ R.Mirrored (db.run p).2 (db'.run p').2 ∧
      db.memory.table.SameElsewhere R.name (db.run p).2.memory.table := by
  induction p generalizing p' db db' with
  | done a =>
    cases h with
    | done h => exact ⟨.some h, hdb, fun e _ => Iff.rfl⟩
  | unfinished =>
    cases h
    exact ⟨.none, hdb, fun e _ => Iff.rfl⟩
  | ask r next ih =>
    obtain ⟨r', next', rfl⟩ := h.ask_inv
    obtain ⟨hnext, hdb', hother⟩ := h.step hsends hdb
    obtain ⟨hresult, hafter, hother'⟩ := ih _ hnext hdb'
    exact ⟨hresult, hafter, fun e he => (hother' e he).trans (hother e he)⟩

theorem Program.Mirrors.answer_registry {r : Request} {next : r.Answer → Program α} {p' : Program β}
    (h : (ask r next).Mirrors R sends post p') (db : MemoryDatabase) :
    (Database.answer r db).2.registry = db.registry := by
  cases h <;> rfl

/-- Such programs open no collections and forget none. -/
theorem Program.Mirrors.registry_eq {p : Program α} {p' : Program β}
    (h : p.Mirrors R sends post p') (hsends : ∀ b b', sends b b' → R.Fits b b')
    (hdb : R.Mirrored db db') : (db.run p).2.registry = db.registry := by
  induction p generalizing p' db db' with
  | done a => rfl
  | unfinished => rfl
  | ask r next ih =>
    obtain ⟨r', next', rfl⟩ := h.ask_inv
    obtain ⟨hnext, hdb', _⟩ := h.step hsends hdb
    exact (ih _ hnext hdb').trans (h.answer_registry db)

/-! ## A name on its own -/

namespace Pairing

/-- A name on its own: every version stands for itself. -/
def own (name : String) (known : Key → Value → Prop) : Pairing where
  name := name
  versions := Eq
  unique hv hw := by rw [hv, hw]
  known := known
  sharesIds := True

/-- A database agrees with itself. -/
theorem mirrored_self {name : String} {known : Key → Value → Prop} (db : MemoryDatabase)
    (h : ∀ e ∈ db.memory.table.owned name, known e.key e.value) :
    (own name known).Mirrored db db where
  entries := List.forall₂_same.2 fun e he => ⟨rfl, rfl, rfl, (Table.mem_owned.1 he).2, h e he⟩
  fresh _ := rfl
  closed := rfl
  remaining := rfl
  ids _ := rfl

end Pairing

end DocumentStore
