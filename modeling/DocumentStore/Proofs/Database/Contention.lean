import DocumentStore.Proofs.Collection.Contending
import DocumentStore.Proofs.Collection.Cursors
import DocumentStore.Proofs.Database.MapRefinement

/-!
# Contention

A store that is made to conflict a number of times settles together with the retry policy how a change
ends.  A policy that retries either gets past all conflicts on the first document that matches, and
then does what it does on a store without conflicts, or fails there and changes nothing.  A policy of a
single attempt skips one document for each conflict.
-/

namespace DocumentStore

variable {c : Collection} {change : Change} {f : Document → Document} {t t' : Table}

namespace Collection

/-- The documents of a list are changed, and all others are as they were, with their versions. -/
structure Processes (c : Collection) (change : Change) (f : Document → Document)
    (ds : List Document) (t t' : Table) : Prop where
  changed : ∀ {id d}, c.contents t id = some d → d ∈ ds →
    c.contents t' id = change.outcome (f d)
  kept : ∀ id, (∀ d ∈ ds, c.contents t id ≠ some d) → c.stored? t' id = c.stored? t id

theorem Alters.processes {cs : List Candidate} (ht : c.Consistent t)
    (hstored : ∀ s ∈ cs, ∃ id, c.stored? t id = some s) (h : c.Alters change f cs t t') :
    c.Processes change f (cs.map (·.document)) t t' := by
  constructor
  · intro id d hd hmem
    obtain ⟨v, hid⟩ := contents_eq_some_iff.1 hd
    obtain ⟨s, hs, rfl⟩ := List.mem_map.1 hmem
    -- a document with this identity is stored nowhere else
    obtain ⟨id', hid'⟩ := hstored s hs
    have hsame : id' = id := by
      have hidentity := ht.identity hid
      cases (ht.identity hid').symm.trans hidentity
      rfl
    subst hsame
    exact h.changed hs hid'
  · intro id hnone
    refine h.kept id fun s hs hid => ?_
    exact hnone s.document (List.mem_map_of_mem hs)
      (contents_eq_some_iff.2 ⟨s.version, hid⟩)

/-- What bounds the attempts on one document, whoever answers their requests: they ask for no more
commits than the policy allows, and their count never overflows. -/
structure Bounded (c : Collection) (change : Change) (q : CompiledQuery) (policy : RetryPolicy) :
    Prop where
  commits : ∀ {S : Type} (answer : (r : Request) → S → r.Answer × S) (state : S) (s : Candidate),
    (c.changeCandidate change q policy s).commitsIn answer state ≤ policy.attempts
  counted : ∀ (id : String) (overflow : Action (Option Document)) (s : Candidate),
    c.changeCounted change q policy id overflow 0 s =
      c.changeOne change q policy id policy.retries s

end Collection

namespace System

variable {db : MemoryDatabase} {fuel : Nat} {q : Query} {o : WriteOptions}

/-- How a change ends on a store that is made to conflict, if `ds` are the documents that match before
the call, in the order of their identities. -/
structure Contends (c : Collection) (db : MemoryDatabase) (fuel : Nat) (change : Change)
    (f : Document → Document) (q : Query) (o : WriteOptions) (ds : List Document) : Prop where
  /-- As many conflicts as attempts: the change fails on the first document, and nothing changes but
  the count of conflicts. -/
  exhausted : ∀ m, c.retryPolicy change o = .untilSuccess m → ds ≠ [] →
    m.toNat ≤ db.settings.store.remaining.toNat →
    ∃ id db', ds.head?.bind Document.id? = some id ∧
      db.run (c.change change q o fuel) =
        (some (.error (.retriesExhausted change.kind id m.toNat)), db') ∧
      db.commitsIn (c.change change q o fuel) = m.toNat ∧
      db'.memory = { db.memory with entriesRead := db'.memory.entriesRead } ∧
      db'.settings.store.remaining.toNat = db.settings.store.remaining.toNat - m.toNat
  /-- Fewer conflicts than attempts: the change does what it does without conflicts. -/
  retried : ∀ m, c.retryPolicy change o = .untilSuccess m →
    db.settings.store.remaining.toNat < m.toNat →
    ∃ db' calm, db.run (c.change change q o fuel) = (some (.ok ((o.picks ds).map f)), db') ∧
      (db.failNext 0).run (c.change change q o fuel) = (some (.ok ((o.picks ds).map f)), calm) ∧
      db'.memory.table = calm.memory.table ∧ db'.memory.version = calm.memory.version ∧
      c.Processes change f (o.picks ds) db.memory.table db'.memory.table ∧
      (ds ≠ [] → db'.settings.store.remaining = 0)
  /-- One attempt for each document: the first are skipped, one for each conflict. -/
  skipped : c.retryPolicy change o = .single →
    ∃ db', let k := db.settings.store.remaining.toNat
      let changed := o.picks (ds.drop (min k ds.length))
      db.run (c.change change q o fuel) = (some (.ok (changed.map f)), db') ∧
      c.Processes change f changed db.memory.table db'.memory.table ∧
      db'.settings.store.remaining.toNat = k - min k ds.length

section Cases

variable (h : Served c db fuel) (hfinite : db.settings.store.remaining ≠ 0xffffffff)
  (hpolicy : (c.retryPolicy change o).check = .ok ())
  (hpending : c.Pending change q.compile f db.memory.table (c.selected db.memory.table q.compile))

include h in
/-- What is rewritten is processed, as it is a part of what is selected. -/
theorem Served.processes {cs : List Candidate} {v : Version}
    (hsub : cs.Sublist (c.selected db.memory.table q.compile))
    (hrewrites : c.Rewrites change f cs db.memory.table db.memory.version t' v) :
    c.Processes change f (cs.map (·.document)) db.memory.table t' := by
  have hconsistent := h.sound.consistent
  have hselects := Collection.selects_selected h.wellIndexed hconsistent q.compile
  have halters := hrewrites.alters h.wellIndexed hconsistent (hselects.ascending.sublist hsub)
  exact halters.processes hconsistent fun s hs => ((hselects.mem_iff s).1 (hsub.subset hs)).1

theorem map_picks_document (cs : List Candidate) :
    (o.picks cs).map (fun s => f s.document) = (o.picks (cs.map (·.document))).map f := by
  rw [← WriteOptions.map_picks, List.map_map]
  rfl

include h hfinite hpolicy hpending

/-- With as many conflicts as attempts, the attempts on the first document are all that is done. -/
theorem Served.change_exhausts {m : UInt32} (huntil : c.retryPolicy change o = .untilSuccess m)
    (hne : c.matching db.memory.table q.compile ≠ [])
    (hle : m.toNat ≤ db.settings.store.remaining.toNat) :
    ∃ id db', (c.matching db.memory.table q.compile).head?.bind Document.id? = some id ∧
      db.run (c.change change q o fuel) =
        (some (.error (.retriesExhausted change.kind id m.toNat)), db') ∧
      db.commitsIn (c.change change q o fuel) = m.toNat ∧
      db'.memory = { db.memory with entriesRead := db'.memory.entriesRead } ∧
      db'.settings.store.remaining.toNat = db.settings.store.remaining.toNat - m.toNat := by
  have hblocked : db.Blocked db.settings.store.remaining.toNat := ⟨⟨h.opened, hfinite⟩, rfl⟩
  obtain ⟨s, rest, hfound⟩ : ∃ s rest, c.selected db.memory.table q.compile = s :: rest :=
    List.exists_cons_of_ne_nil fun hnil => hne (List.map_eq_nil_iff.2 hnil)
  obtain ⟨r, db', hrun, hr⟩ := Collection.change_exhausts h.wellIndexed hblocked
    (h.sound.consistent.readable _) h.defaults.scanBatch_pos h.size_lt hpolicy hpending huntil hle
    hfound
  cases r with
  | ok results => exact hr.elim
  | error e =>
    obtain ⟨⟨id, hid, rfl⟩, hspends⟩ := hr
    have hremaining := hspends.remaining
    refine ⟨id, db', ?_, hrun, ?_, hspends.memory, by omega⟩
    · rw [Collection.matching, hfound]
      show s.document.id? = some id
      rw [Document.id?, hid]
      rfl
    -- the commits show in the count of conflicts, and in no other
    · have haccount := (Database.account_run hblocked.toCounted (c.change change q o fuel)).2
      rw [hrun] at haccount
      change db'.memory.tried + _ = _ + db'.settings.store.remaining.toNat + _ at haccount
      have htried : db'.memory.tried = db.memory.tried := by
        rw [hspends.memory]
        rfl
      omega

/-- With fewer conflicts than attempts, all is done that is done without conflicts. -/
theorem Served.change_lands {m : UInt32} (huntil : c.retryPolicy change o = .untilSuccess m)
    (hlt : db.settings.store.remaining.toNat < m.toNat) :
    let changed := o.picks (c.matching db.memory.table q.compile)
    ∃ db' calm, db.run (c.change change q o fuel) = (some (.ok (changed.map f)), db') ∧
      (db.failNext 0).run (c.change change q o fuel) = (some (.ok (changed.map f)), calm) ∧
      db'.memory.table = calm.memory.table ∧ db'.memory.version = calm.memory.version ∧
      c.Processes change f changed db.memory.table db'.memory.table ∧
      (c.matching db.memory.table q.compile ≠ [] → db'.settings.store.remaining = 0) := by
  have hblocked : db.Blocked db.settings.store.remaining.toNat := ⟨⟨h.opened, hfinite⟩, rfl⟩
  -- the same change without conflicts to come, to compare with
  have hcalm : (db.failNext 0).Blocked 0 :=
    ⟨⟨h.opened, show (0 : UInt32) ≠ 0xffffffff by decide⟩, rfl⟩
  have hretries : db.settings.store.remaining.toNat ≤ (c.retryPolicy change o).retries := by
    have hattempts := RetryPolicy.attempts_eq hpolicy
    rw [huntil] at hattempts ⊢
    change m.toNat = _ at hattempts
    omega
  have hdocs := h.sound.consistent.readable (c.plan q.compile).strategy
  have hbatch := h.defaults.scanBatch_pos
  obtain ⟨_, db', hrun, rfl, hblocked', hrewrites⟩ := (Collection.change_lands h.wellIndexed
    hblocked hdocs hbatch h.size_lt hpolicy hpending hretries).run_eq
  obtain ⟨_, calm, hrunCalm, rfl, _, hrewritesCalm⟩ := (Collection.change_lands h.wellIndexed
    hcalm hdocs hbatch h.size_lt hpolicy hpending (Nat.zero_le _)).run_eq
  obtain ⟨htable, hversion⟩ := hrewritesCalm.unique hrewrites
  have hprocesses := h.processes (o.picks_sublist _) hrewrites
  rw [WriteOptions.map_picks] at hprocesses
  rw [map_picks_document] at hrun hrunCalm
  refine ⟨db', calm, hrun, hrunCalm, htable, hversion, hprocesses, fun hne => ?_⟩
  have hfound : ¬ (c.selected db.memory.table q.compile).isEmpty = true := fun hempty =>
    hne (List.map_eq_nil_iff.2 (List.isEmpty_iff.1 hempty))
  rw [if_neg hfound] at hblocked'
  exact hblocked'.quiet

/-- With one attempt for each document, one document is skipped for each conflict. -/
theorem Served.change_skips (hsingle : c.retryPolicy change o = .single) :
    let found := c.matching db.memory.table q.compile
    let k := db.settings.store.remaining.toNat
    let changed := o.picks (found.drop (min k found.length))
    ∃ db', db.run (c.change change q o fuel) = (some (.ok (changed.map f)), db') ∧
      c.Processes change f changed db.memory.table db'.memory.table ∧
      db'.settings.store.remaining.toNat = k - min k found.length := by
  have hblocked : db.Blocked db.settings.store.remaining.toNat := ⟨⟨h.opened, hfinite⟩, rfl⟩
  obtain ⟨_, db', hrun, rfl, hblocked', hrewrites⟩ := (Collection.change_skips h.wellIndexed
    hblocked (h.sound.consistent.readable _) h.defaults.scanBatch_pos h.size_lt hpolicy hpending
    hsingle).run_eq
  have hprocesses := h.processes ((o.picks_sublist _).trans (List.drop_sublist _ _)) hrewrites
  rw [WriteOptions.map_picks, List.map_drop] at hprocesses
  rw [map_picks_document, List.map_drop] at hrun
  dsimp only
  rw [← List.drop_eq_drop_min]
  refine ⟨db', hrun, hprocesses, ?_⟩
  rw [hblocked'.remaining, Collection.matching, List.length_map]
  omega

end Cases

/-- Whatever the number of conflicts, of documents and of attempts that are allowed, it is settled how
a change ends that succeeds on all documents that match; and no document is committed more often than
is allowed. -/
theorem contention_settled (hpolicy : (c.retryPolicy change o).check = .ok ()) :
    c.Bounded change q.compile (c.retryPolicy change o) ∧
    ∀ {db fuel}, Served c db fuel → db.settings.store.remaining ≠ 0xffffffff →
      (∀ id d, c.contents db.memory.table id = some d → q.compile.accepts d = true →
        c.Succeeds change d (f d)) →
      ∃ ds, c.Lists db.memory.table q.compile ds ∧ Contends c db fuel change f q o ds := by
  refine ⟨⟨fun answer state s => ?_, fun id overflow s => ?_⟩, ?_⟩
  · exact (Collection.changeCandidate_commitsAtMost hpolicy s).commitsIn_le answer state
  · exact Collection.changeCounted_eq hpolicy id overflow s
  intro db fuel h hfinite hdocuments
  have hconsistent := h.sound.consistent
  have hselects := Collection.selects_selected h.wellIndexed hconsistent q.compile
  have hpending : c.Pending change q.compile f db.memory.table
      (c.selected db.memory.table q.compile) := by
    refine hselects.pending hconsistent fun s hs => ?_
    obtain ⟨⟨id, hid⟩, haccepts⟩ := (hselects.mem_iff s).1 hs
    exact hdocuments id _ (Collection.contents_eq_some_iff.2 ⟨s.version, hid⟩) haccepts
  exact ⟨_, hselects.lists,
    fun _ huntil hne hle => h.change_exhausts hfinite hpolicy hpending huntil hne hle,
    fun _ huntil hlt => h.change_lands hfinite hpolicy hpending huntil hlt,
    fun hsingle => h.change_skips hfinite hpolicy hpending hsingle⟩

open Sample in
/-- Both articles are to get a new stock, and one conflict is to come.  With one attempt for each the
first is skipped; with a second attempt it is not; and with one attempt that must succeed the update
fails. -/
theorem contention_settled_of_restock :
    ∃ db : MemoryDatabase, Served articles db 9 ∧ db.settings.store.remaining = 1 ∧
      ∃ ds, ds = [article "a" 7, article "b" 7] ∧
      ∀ policy ∈ [.single, .untilSuccess 2, .untilSuccess 1],
        articles.Bounded (.update (restock 8)) (inStock 7).compile policy ∧
        Contends articles db 9 (.update (restock 8)) (·.insert "stock" (.integer 8)) (inStock 7)
          { retry := some policy } ds := by
  let db := (start.play articles (stocking ++ [.contend 1])).2.database
  have hserved : Served articles db 9 :=
    ⟨⟨_, _, _, define_articles⟩, ⟨by decide, rfl, rfl⟩,
      ⟨start, _, _, initial_start, ⟨stocking ++ [.contend 1], rfl⟩, rfl⟩, rfl, by decide⟩
  refine ⟨db, hserved, rfl, _, rfl, fun policy hpolicy => ?_⟩
  have hcheck : (articles.retryPolicy (.update (restock 8)) { retry := some policy }).check =
      .ok () := by
    simp only [List.mem_cons, List.not_mem_nil, or_false] at hpolicy
    rcases hpolicy with rfl | rfl | rfl <;> rfl
  obtain ⟨hbounded, hcontends⟩ := contention_settled (q := inStock 7)
    (f := (·.insert "stock" (.integer 8))) hcheck
  have hselects := Collection.selects_selected hserved.wellIndexed hserved.sound.consistent
    (inStock 7).compile
  obtain ⟨ds, hlists, hds⟩ := hcontends hserved (show (1 : UInt32) ≠ 0xffffffff by decide) <| by
    intro id d hd haccepts
    have hmem := (hselects.lists.mem_iff d).2 ⟨⟨id, hd⟩, haccepts⟩
    rcases List.mem_pair.1 hmem with rfl | rfl <;>
      exact ⟨rfl, fun new hnew => by cases hnew; rfl⟩
  obtain rfl : ds = [article "a" 7, article "b" 7] := hselects.lists.unique hlists rfl
  exact ⟨hbounded, hds⟩

end System

end DocumentStore
