import DocumentStore.Proofs.Collection.Progress
import DocumentStore.Proofs.Program.Sharing

/-!
# Clients of a shared database

A client of a collection sees the database and its own commits.  While it waits for an answer the
other clients may make progress (`Standpoint.Precedes`); in return each of its own commits is of a
kind that it may make.  There is one rule for each request, and `Action.Reads` puts together what is
said of programs that commit nothing.
-/

namespace DocumentStore

/-- A shared database as one of its clients sees it, with the commits of this client that took
effect. -/
structure Standpoint where
  database : MemoryDatabase
  commits : List Commit

namespace Standpoint

variable {c : Collection} {v v' v'' : Standpoint}

def memory (v : Standpoint) : Memory := v.database.memory

def answer (r : Request) (v : Standpoint) : r.Answer × Standpoint :=
  ((Database.answer r v.database).1,
    ⟨(Database.answer r v.database).2, v.commits ++ (v.database.effect? r).toList⟩)

/-- A standpoint and a later one, with no commit of the client in between. -/
structure Precedes (c : Collection) (v v' : Standpoint) : Prop where
  progress : c.Progress v.memory v'.memory
  commits_eq : v'.commits = v.commits

theorem Precedes.refl (h : c.Sound v.memory) : v.Precedes c v := ⟨.refl h, rfl⟩

theorem Precedes.trans (h : v.Precedes c v') (h' : v'.Precedes c v'') : v.Precedes c v'' :=
  ⟨h.progress.trans h'.progress, h'.commits_eq.trans h.commits_eq⟩

theorem Precedes.sound (h : v.Precedes c v') : c.Sound v'.memory := h.progress.sound

/-- A request without effect leads to a later standpoint with the same entries. -/
theorem answer_of_no_effect {r : Request} (hv : c.Sound v.memory)
    (h : v.database.effect? r = none) :
    v.Precedes c (v.answer r).2 ∧ (v.answer r).2.memory.table = v.memory.table := by
  obtain ⟨htable, hversion⟩ := Database.memory_of_no_effect h
  refine ⟨⟨.of_eq hv htable hversion, ?_⟩, htable⟩
  show v.commits ++ (v.database.effect? r).toList = v.commits
  rw [h, Option.toList_none, List.append_nil]

structure Lands (c : Collection) (v : Standpoint) (b : Batch) (w : Commit) : Prop where
  batch : w.batch = b
  effective : w.Effective
  progress : c.Progress v.memory w.before

theorem Lands.sound {b : Batch} {w : Commit} (h : v.Lands c b w) : c.Sound w.before :=
  h.progress.sound

end Standpoint

/-- How a client of a collection shares its database with others, if it may make the commits that
satisfy `P`. -/
def Collection.sharing (c : Collection) (P : Commit → Prop) : Sharing Standpoint where
  answer := Standpoint.answer
  drifts := Standpoint.Precedes c
  admits r v := ∀ w, v.database.effect? r = some w → P w

/-! ## Programs that only read -/

section Reads

variable {α β : Type} {c : Collection} {P : Commit → Prop} {v : Standpoint}

/-- The program commits nothing, and its result satisfies `Q` in the memory that it is given in. -/
def Program.Reads (c : Collection) (P : Commit → Prop) (Q : α → Memory → Prop) (p : Program α)
    (v : Standpoint) : Prop :=
  p.Upholds (c.sharing P) (fun a v' => v.Precedes c v' ∧ Q a v'.memory) v

def Action.Reads (c : Collection) (P : Commit → Prop) (Q : α → Memory → Prop) (p : Action α)
    (v : Standpoint) : Prop :=
  Program.Reads c P (fun r m => ∀ a, r = .ok a → Q a m) p v

variable {Q : α → Memory → Prop} {R : β → Memory → Prop}

theorem Program.Reads.pure {a : α} (hv : c.Sound v.memory) (h : Q a v.memory) :
    Program.Reads c P Q (Pure.pure a) v :=
  ⟨.refl hv, h⟩

theorem Program.Reads.bindUpholds {p : Program α} {f : α → Program β} {post : β → Standpoint → Prop}
    (h : p.Reads c P Q v)
    (hf : ∀ a v', v.Precedes c v' → Q a v'.memory → (f a).Upholds (c.sharing P) post v') :
    (p >>= f).Upholds (c.sharing P) post v :=
  Program.Upholds.bind (h.imp fun a v' ha => hf a v' ha.1 ha.2)

theorem Program.Reads.bind {p : Program α} {f : α → Program β} (h : p.Reads c P Q v)
    (hf : ∀ a v', v.Precedes c v' → Q a v'.memory → (f a).Reads c P R v') :
    (p >>= f).Reads c P R v :=
  h.bindUpholds fun a v' hv' ha =>
    (hf a v' hv' ha).imp fun _ _ hb => ⟨hv'.trans hb.1, hb.2⟩

/-- A request without effect. -/
theorem Program.Reads.ask {r : Request} {Q : r.Answer → Memory → Prop}
    (hr : ∀ db : MemoryDatabase, db.effect? r = none)
    (h : ∀ v', v.Precedes c v' → v'.Precedes c (v'.answer r).2 →
      Q (v'.answer r).1 (v'.answer r).2.memory) : (Program.ask r .done).Reads c P Q v := by
  intro v' hv'
  have hquiet := Standpoint.answer_of_no_effect hv'.sound (hr v'.database)
  refine ⟨fun w hw => ?_, hv'.trans hquiet.1, h v' hv' hquiet.1⟩
  rw [hr v'.database] at hw
  cases hw

theorem Program.Reads.isClosed : Action.isClosed.Reads c P (fun _ _ => True) v :=
  Program.Reads.ask (r := .isClosed) (fun _ => rfl) fun _ _ _ => trivial

theorem Program.Reads.freshId : Action.freshId.Reads c P (fun _ _ => True) v :=
  Program.Reads.ask (r := .freshId) (fun _ => rfl) fun _ _ _ => trivial

theorem Action.Reads.ofExcept {r : Except Error α} (hv : c.Sound v.memory)
    (h : ∀ a, r = .ok a → Q a v.memory) : Action.Reads c P Q (Action.ofExcept r) v :=
  ⟨.refl hv, h⟩

theorem Action.Reads.pure {a : α} (hv : c.Sound v.memory) (h : Q a v.memory) :
    Action.Reads c P Q (Pure.pure a) v :=
  .ofExcept (r := .ok a) hv fun _ ha => by cases ha; exact h

theorem Action.Reads.throw (hv : c.Sound v.memory) (e : Error) :
    Action.Reads c P Q (MonadExcept.throw e) v :=
  .ofExcept (r := .error e) hv fun _ ha => by cases ha

theorem Action.Reads.bindUpholds {p : Action α} {f : α → Action β} {post : β → Standpoint → Prop}
    (h : p.Reads c P Q v)
    (hf : ∀ a v', v.Precedes c v' → Q a v'.memory → Action.Upholds (c.sharing P) post (f a) v') :
    Action.Upholds (c.sharing P) post (p >>= f) v :=
  Action.Upholds.bind (Program.Upholds.imp (fun _ v' hr a ha => hf a v' hr.1 (hr.2 a ha)) h)

theorem Action.Reads.bind {p : Action α} {f : α → Action β} (h : p.Reads c P Q v)
    (hf : ∀ a v', v.Precedes c v' → Q a v'.memory → (f a).Reads c P R v') :
    (p >>= f).Reads c P R v := by
  refine Program.Reads.bind h fun r v' hv' hr => ?_
  cases r with
  | ok a => exact hf a v' hv' (hr a rfl)
  | error e => exact Action.Reads.throw hv'.sound e

theorem Action.Reads.lift {p : Program α} (h : p.Reads c P Q v) :
    Action.Reads c P Q (liftM p : Action α) v :=
  Program.Reads.bind h fun _ _ hv' ha => Action.Reads.pure hv'.sound ha

theorem Action.Reads.get {key : Key} {Q : Option Entry → Memory → Prop}
    (h : ∀ v', v.Precedes c v' → Q (v'.memory.table.find? key) v'.memory) :
    Action.Reads c P Q (Action.get key) v := by
  refine Program.Reads.ask (r := .get key) (fun _ => rfl) ?_
  intro v' hv' hquiet e he
  -- an answer that is no error is what the table holds
  have hfind : e = v'.memory.table.find? key := by
    change (v'.memory.get key).1 = .ok e at he
    unfold Memory.get at he
    split at he
    · cases he
    · split at he <;> cases he <;> simp [*]
  have htable := (Standpoint.answer_of_no_effect (r := .get key) hv'.sound rfl).2
  rw [hfind, ← htable]
  exact h _ (hv'.trans hquiet)

theorem Action.Reads.scan {base : Key} {after : Option Key} {limit : Nat}
    {Q : List Entry → Memory → Prop}
    (h : ∀ v', v.Precedes c v' → Q (v'.memory.table.scan base after limit) v'.memory) :
    Action.Reads c P Q (Action.scan base after limit) v := by
  refine Program.Reads.ask (r := .scan base after limit) (fun _ => rfl) ?_
  intro v' hv' hquiet es hes
  have hscan : es = v'.memory.table.scan base after limit := by
    change (v'.memory.scan base after limit).1 = .ok es at hes
    unfold Memory.scan at hes
    split at hes <;> cases hes
    rfl
  have htable := (Standpoint.answer_of_no_effect (r := .scan base after limit) hv'.sound rfl).2
  rw [hscan, ← htable]
  exact h _ (hv'.trans hquiet)

end Reads

/-! ## Commits -/

/-- A client may send a batch if it may make every commit that the batch can take effect as. -/
theorem Action.Upholds.commit {c : Collection} {P : Commit → Prop} {v : Standpoint} {b : Batch}
    {post : CommitResult → Standpoint → Prop}
    (hP : ∀ w, c.Sound w.before → w.Effective → P w → c.Progress w.before w.after)
    (hadmits : ∀ w, v.Lands c b w → P w)
    (hcommitted : ∀ version v' w, v.Lands c b w → c.Progress v.memory v'.memory →
      v'.commits = v.commits ++ [w] → post (.committed version) v')
    (hconflict : ∀ v', v.Precedes c v' → post .conflict v') :
    Action.Upholds (c.sharing P) post (Action.commit b) v := by
  intro v' hv'
  -- whatever was committed in the meantime, the batch lands on a later memory
  have hlands : ∀ w, v'.database.effect? (.commit b) = some w → v.Lands c b w := by
    intro w hw
    obtain ⟨hbatch, hbefore, _, heffective⟩ := Database.effective_of_effect? hw
    cases hbatch
    exact ⟨rfl, heffective, hbefore ▸ hv'.progress⟩
  refine ⟨fun w hw => hadmits w (hlands w hw), fun result hresult => ?_⟩
  cases result with
  | conflict =>
    have hnone : v'.database.effect? (.commit b) = none := by
      refine Database.effect?_commit_eq_none_iff.2 fun version hversion => ?_
      cases hversion.symm.trans hresult
    exact hconflict _ (hv'.trans (Standpoint.answer_of_no_effect hv'.sound hnone).1)
  | committed version =>
    -- an answer that tells of a commit comes with one
    obtain ⟨w, hw⟩ : ∃ w, v'.database.effect? (.commit b) = some w := by
      refine Option.ne_none_iff_exists'.1 fun hnone => ?_
      exact Database.effect?_commit_eq_none_iff.1 hnone version hresult
    have hlanded := hlands w hw
    obtain ⟨_, _, hafter, heffective⟩ := Database.effective_of_effect? hw
    have hprogress := hlanded.progress.trans
      (hP w hlanded.sound heffective (hadmits w hlanded))
    rw [hafter] at hprogress
    refine hcommitted version _ w hlanded hprogress ?_
    show v'.commits ++ (v'.database.effect? (.commit b)).toList = _
    rw [hw, hv'.commits_eq, Option.toList_some]

end DocumentStore
