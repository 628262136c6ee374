import DocumentStore.Proofs.Program.Finishing

/-!
# How many commits programs ask for

`Program.CommitsAtMost` bounds the commits of a program whatever the answers are, so it holds of every
run, alone or among others.  `Program.commitsIn` counts the commits of one run.  On an open store each
of them shows: in the count of conflicts still to come, of commits, or of conflicts that the memory
found (`Database.account_run`).  A program without commits leaves a store as it is
(`Program.CommitsAtMost.spends`).
-/

namespace DocumentStore

def Request.isCommit : Request → Bool
  | commit _ => true
  | _ => false

variable {α β S : Type} {m n : Nat}

/-! ## Bounds for all answers -/

namespace Program

/-- Whatever the answers, the program asks for at most so many commits. -/
inductive CommitsAtMost : Nat → Program α → Prop where
  | done (n : Nat) (a : α) : CommitsAtMost n (.done a)
  | unfinished (n : Nat) : CommitsAtMost n .unfinished
  | commit {n : Nat} {b : Batch} {next : (Request.commit b).Answer → Program α}
    (h : ∀ answer, CommitsAtMost n (next answer)) : CommitsAtMost (n + 1) (.ask (.commit b) next)
  | other {n : Nat} {r : Request} {next : r.Answer → Program α} (hr : r.isCommit = false)
    (h : ∀ answer, CommitsAtMost n (next answer)) : CommitsAtMost n (.ask r next)

namespace CommitsAtMost

variable {p : Program α}

theorem mono (h : p.CommitsAtMost m) (hle : m ≤ n) : p.CommitsAtMost n := by
  induction h generalizing n with
  | done _ a => exact .done n a
  | unfinished _ => exact .unfinished n
  | commit _ ih =>
    obtain ⟨k, rfl⟩ : ∃ k, n = k + 1 := ⟨n - 1, by omega⟩
    exact .commit fun answer => ih answer (by omega)
  | other hr _ ih => exact .other hr fun answer => ih answer hle

theorem bind {f : α → Program β} (h : p.CommitsAtMost m) (hf : ∀ a, (f a).CommitsAtMost n) :
    (p >>= f).CommitsAtMost (m + n) := by
  induction h with
  | done m a => exact (hf a).mono (Nat.le_add_left n m)
  | unfinished m => exact .unfinished _
  | @commit m b next _ ih =>
    rw [Nat.add_right_comm]
    exact .commit ih
  | other hr _ ih => exact .other hr ih

/-- Reading before something else. -/
theorem after {f : α → Program β} (h : p.CommitsAtMost 0) (hf : ∀ a, (f a).CommitsAtMost n) :
    (p >>= f).CommitsAtMost n := by
  rw [← Nat.zero_add n]
  exact h.bind hf

theorem pure (n : Nat) (a : α) : (Pure.pure a : Program α).CommitsAtMost n := .done n a

theorem isClosed : Action.isClosed.CommitsAtMost 0 := .other rfl fun closed => .done 0 closed

end CommitsAtMost

end Program

namespace Action

abbrev CommitsAtMost (n : Nat) (p : Action α) : Prop := Program.CommitsAtMost n p

namespace CommitsAtMost

theorem ofExcept (n : Nat) (r : Except Error α) : CommitsAtMost n (Action.ofExcept r) := .done n r

theorem pure (n : Nat) (a : α) : CommitsAtMost n (Pure.pure a : Action α) := ofExcept n (.ok a)

theorem throw (n : Nat) (e : Error) : CommitsAtMost n (MonadExcept.throw e : Action α) :=
  ofExcept n (.error e)

theorem bind {p : Action α} {f : α → Action β} (h : CommitsAtMost m p)
    (hf : ∀ a, CommitsAtMost n (f a)) : CommitsAtMost (m + n) (p >>= f) := by
  refine Program.CommitsAtMost.bind h fun r => ?_
  cases r with
  | ok a => exact hf a
  | error e => exact throw n e

theorem after {p : Action α} {f : α → Action β} (h : CommitsAtMost 0 p)
    (hf : ∀ a, CommitsAtMost n (f a)) : CommitsAtMost n (p >>= f) := by
  rw [← Nat.zero_add n]
  exact bind h hf

theorem lift {p : Program α} (h : p.CommitsAtMost n) : CommitsAtMost n (liftM p : Action α) := by
  rw [← Nat.add_zero n]
  exact Program.CommitsAtMost.bind h fun a => pure 0 a

theorem get (key : Key) : CommitsAtMost 0 (Action.get key) := .other rfl fun r => .done 0 r

theorem scan (base : Key) (after : Option Key) (limit : Nat) :
    CommitsAtMost 0 (Action.scan base after limit) :=
  .other rfl fun r => .done 0 r

theorem commit (b : Batch) : CommitsAtMost 1 (Action.commit b) :=
  Program.CommitsAtMost.commit fun r => .done 0 r

end CommitsAtMost

end Action

/-! ## Commits of a run -/

namespace Program

def commitsIn (answer : (r : Request) → S → r.Answer × S) : Program α → S → Nat
  | .done _, _ => 0
  | .ask r next, s =>
    r.isCommit.toNat + (next (answer r s).1).commitsIn answer (answer r s).2
  | .unfinished, _ => 0

theorem CommitsAtMost.commitsIn_le {p : Program α} (h : p.CommitsAtMost n)
    (answer : (r : Request) → S → r.Answer × S) (s : S) : p.commitsIn answer s ≤ n := by
  induction h generalizing s with
  | done n a => exact Nat.zero_le _
  | unfinished n => exact Nat.zero_le _
  | @commit n b next _ ih =>
    have hrest := ih (answer (.commit b) s).1 (answer (.commit b) s).2
    show (true.toNat + _ : Nat) ≤ n + 1
    rw [Bool.toNat_true]
    omega
  | @other n r next hr _ ih =>
    show (r.isCommit.toNat + _ : Nat) ≤ n
    rw [hr, Bool.toNat_false, Nat.zero_add]
    exact ih _ _

end Program

namespace Database

def commitsIn (db : MemoryDatabase) (p : Program α) : Nat := p.commitsIn answer db

/-- The same database after so many conflicts that it was made to answer with.  Nothing else is
different but identities, registered collections and the count of entries that were read. -/
structure Spends (db : MemoryDatabase) (n : Nat) (db' : MemoryDatabase) : Prop where
  memory : db'.memory = { db.memory with entriesRead := db'.memory.entriesRead }
  remaining : db'.settings.store.remaining.toNat + n = db.settings.store.remaining.toNat

theorem Spends.refl (db : MemoryDatabase) : db.Spends 0 db := ⟨rfl, rfl⟩

theorem Spends.trans {db db' db'' : MemoryDatabase} (h : db.Spends m db')
    (h' : db'.Spends n db'') : db.Spends (m + n) db'' := by
  have hremaining := h.remaining
  have hremaining' := h'.remaining
  exact ⟨by rw [h'.memory, h.memory], by omega⟩

theorem Spends.alike {db db' : MemoryDatabase} (h : db.Spends 0 db') : db.Alike db' :=
  ⟨by rw [h.memory], by rw [h.memory], by rw [h.memory], UInt32.toNat_inj.1 h.remaining⟩

theorem answer_spends {r : Request} (hr : r.isCommit = false) (db : MemoryDatabase) :
    db.Spends 0 (answer r db).2 := by
  cases r with
  | commit b => cases hr
  | get key =>
    refine ⟨?_, rfl⟩
    show (db.memory.get key).2 = { db.memory with entriesRead := (db.memory.get key).2.entriesRead }
    unfold Memory.get
    split
    · rfl
    · split <;> rfl
  | scan base after limit =>
    refine ⟨?_, rfl⟩
    show (db.memory.scan base after limit).2 =
      { db.memory with entriesRead := (db.memory.scan base after limit).2.entriesRead }
    unfold Memory.scan
    split <;> rfl
  | register name options =>
    unfold answer
    dsimp only
    split <;> exact ⟨rfl, rfl⟩
  | _ => exact ⟨rfl, rfl⟩

end Database

/-- A program without commits leaves the store as it is. -/
theorem Program.CommitsAtMost.spends {p : Program α} (h : p.CommitsAtMost 0)
    (db : MemoryDatabase) : db.Spends 0 (db.run p).2 := by
  -- on the program, with the bound as an index of its own
  have hall : ∀ {n : Nat} {p : Program α}, p.CommitsAtMost n → n = 0 → ∀ db : MemoryDatabase,
      db.Spends 0 (db.run p).2 := by
    intro n p h
    induction h with
    | done _ a => exact fun _ db => .refl db
    | unfinished _ => exact fun _ db => .refl db
    | commit _ _ => exact fun hzero => (by cases hzero)
    | other hr _ ih => exact fun hzero db => (Database.answer_spends hr db).trans (ih _ hzero _)
  exact hall h rfl db

theorem Program.Finishes.spends {p : Program α} {db : MemoryDatabase}
    {post : α → MemoryDatabase → Prop} (h : p.Finishes post db) (hp : p.CommitsAtMost 0) :
    p.Finishes (fun a db' => post a db' ∧ db.Spends 0 db') db := by
  obtain ⟨a, db', hrun, hpost⟩ := h
  have hspends := hp.spends db
  rw [hrun] at hspends
  exact ⟨a, db', hrun, hpost, hspends⟩

theorem Action.Finishes.spends {p : Action α} {db : MemoryDatabase}
    {post : α → MemoryDatabase → Prop} (h : p.Finishes post db) (hp : p.CommitsAtMost 0) :
    p.Finishes (fun a db' => post a db' ∧ db.Spends 0 db') db :=
  (Program.Finishes.spends h hp).imp fun _ _ ⟨⟨a, ha, hpost⟩, hspends⟩ =>
    ⟨a, ha, hpost, hspends⟩

/-! ## Accounts -/

namespace Memory

def tried (m : Memory) : Nat := m.commits + m.conflicts

theorem tried_commit (m : Memory) (b : Batch) (hopen : m.closed = false) :
    (m.commit b).2.tried = m.tried + 1 ∧ (m.commit b).2.closed = false := by
  unfold commit tried
  rw [if_neg (by simp [hopen])]
  split
  · exact ⟨Nat.add_right_comm _ _ _, hopen⟩
  · exact ⟨rfl, hopen⟩

end Memory

namespace Database

structure Counted (db : MemoryDatabase) : Prop where
  opened : db.memory.closed = false
  finite : db.settings.store.remaining ≠ 0xffffffff

theorem Counted.spends {db db' : MemoryDatabase} (h : db.Counted) (hdb' : db.Spends n db') :
    db'.Counted := by
  refine ⟨by rw [hdb'.memory]; exact h.opened, fun he => h.finite ?_⟩
  have hremaining := hdb'.remaining
  have hlt := db.settings.store.remaining.toNat_lt
  rw [he] at hremaining
  refine UInt32.toNat_inj.1 ?_
  have hmax : (0xffffffff : UInt32).toNat = 0xffffffff := rfl
  omega

structure Blocked (db : MemoryDatabase) (k : Nat) : Prop extends Counted db where
  remaining : db.settings.store.remaining.toNat = k

theorem Blocked.spends {k : Nat} {db db' : MemoryDatabase} (h : db.Blocked k)
    (hdb' : db.Spends n db') : db'.Blocked (k - n) := by
  have hspent := hdb'.remaining
  have hremaining := h.remaining
  exact ⟨h.toCounted.spends hdb', by omega⟩

/-- A conflict that the store was made to answer with: one less is to come, unless they never end. -/
structure Spent (db db' : MemoryDatabase) : Prop where
  memory : db'.memory = db.memory
  remaining : db'.settings.store.remaining =
    if db.settings.store.remaining = 0xffffffff then db.settings.store.remaining
    else db.settings.store.remaining - 1

theorem Blocked.quiet {db : MemoryDatabase} (h : db.Blocked 0) :
    db.settings.store.remaining = 0 :=
  UInt32.toNat_inj.1 h.remaining

theorem Blocked.of_quiet {db : MemoryDatabase} (hopen : db.memory.closed = false)
    (hquiet : db.settings.store.remaining = 0) : db.Blocked 0 := by
  refine ⟨⟨hopen, ?_⟩, ?_⟩
  · rw [hquiet]
    decide
  · rw [hquiet]
    rfl

theorem toNat_sub_one {n : UInt32} (h : n ≠ 0) : (n - 1).toNat + 1 = n.toNat := by
  have hne : n.toNat ≠ 0 := fun he => h (UInt32.toNat_inj.1 he)
  have hle : (1 : UInt32) ≤ n := UInt32.le_iff_toNat_le.2 (Nat.one_le_iff_ne_zero.2 hne)
  rw [UInt32.toNat_sub_of_le _ _ hle]
  exact Nat.sub_add_cancel (UInt32.le_iff_toNat_le.1 hle)

theorem Blocked.pos {k : Nat} {db : MemoryDatabase} (h : db.Blocked (k + 1)) :
    db.settings.store.remaining ≠ 0 := by
  intro hzero
  have hremaining := h.remaining
  rw [hzero] at hremaining
  cases hremaining

theorem Blocked.spent {k : Nat} {db db' : MemoryDatabase} (h : db.Blocked (k + 1))
    (hspent : db.Spent db') : db.Spends 1 db' := by
  refine ⟨by rw [hspent.memory], ?_⟩
  rw [hspent.remaining, if_neg h.finite]
  exact toNat_sub_one h.pos

/-- A commit is counted by the store that is made to conflict or by the memory. -/
theorem account_commit {db : MemoryDatabase} (h : db.Counted) (b : Batch) :
    (answer (.commit b) db).2.Counted ∧
      (answer (.commit b) db).2.memory.tried + db.settings.store.remaining.toNat =
        db.memory.tried + (answer (.commit b) db).2.settings.store.remaining.toNat + 1 := by
  have hanswer : (answer (.commit b) db).2 =
      db.withStore (KeyValueStore.commit db.settings.store b).2 := rfl
  rw [hanswer]
  by_cases hcontended : (!b.checks.isEmpty && db.settings.store.remaining != 0) = true
  · have hpos : db.settings.store.remaining ≠ 0 := by
      simpa using (Bool.and_eq_true_iff.1 hcontended).2
    have hfinite := h.finite
    rw [commit_of_contended hcontended, if_neg hfinite]
    have hnext := toNat_sub_one hpos
    refine ⟨⟨h.opened, fun he => ?_⟩, ?_⟩
    · have hmax : (db.settings.store.remaining - 1).toNat = 0xffffffff :=
        congrArg UInt32.toNat he
      have hlt := db.settings.store.remaining.toNat_lt
      omega
    · show db.memory.tried + db.settings.store.remaining.toNat =
        db.memory.tried + (db.settings.store.remaining - 1).toNat + 1
      omega
  · rw [commit_of_quiet hcontended]
    obtain ⟨htried, hopened⟩ := db.memory.tried_commit b h.opened
    refine ⟨⟨hopened, h.finite⟩, ?_⟩
    show (db.memory.commit b).2.tried + db.settings.store.remaining.toNat =
      db.memory.tried + db.settings.store.remaining.toNat + 1
    omega

/-- Every commit of a run shows in a count: of conflicts that were still to come, or of commits that
the memory was asked for. -/
theorem account_run {db : MemoryDatabase} (h : db.Counted) (p : Program α) :
    (db.run p).2.Counted ∧
      (db.run p).2.memory.tried + db.settings.store.remaining.toNat =
        db.memory.tried + (db.run p).2.settings.store.remaining.toNat + db.commitsIn p := by
  induction p generalizing db with
  | done a => exact ⟨h, rfl⟩
  | unfinished => exact ⟨h, rfl⟩
  | ask r next ih =>
    have hstep : (answer r db).2.Counted ∧
        (answer r db).2.memory.tried + db.settings.store.remaining.toNat =
          db.memory.tried + (answer r db).2.settings.store.remaining.toNat +
            r.isCommit.toNat := by
      -- only a commit counts: the memory tries it, or one of the conflicts to come is used up
      cases hr : r.isCommit with
      | false =>
        have hspends := answer_spends hr db
        refine ⟨h.spends hspends, ?_⟩
        rw [hspends.alike.remaining, hspends.memory]
        rfl
      | true =>
        cases r with
        | commit b => exact account_commit h b
        | _ => cases hr
    obtain ⟨hcounted, hcount⟩ := hstep
    obtain ⟨hcounted', hcount'⟩ := ih (answer r db).1 hcounted
    refine ⟨hcounted', ?_⟩
    have hcommits : db.commitsIn (.ask r next) =
        r.isCommit.toNat + (answer r db).2.commitsIn (next (answer r db).1) := rfl
    have hrun : db.run (.ask r next) = (answer r db).2.run (next (answer r db).1) := rfl
    rw [hrun, hcommits]
    omega

end Database

end DocumentStore
