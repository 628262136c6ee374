import DocumentStore.Proofs.Collection.Attempts
import DocumentStore.Proofs.Collection.Changing

/-!
# Changes under contention

A store that is made to conflict answers a number of commits with conflicts before one takes effect.
The attempts on one document use these up one by one (`Collection.changeOne_lands`,
`Collection.changeOne_exhausts`), so that which documents are changed is settled by the number of
conflicts, the number of documents and the retry policy.
-/

namespace DocumentStore

namespace Collection

variable {c : Collection} {change : Change} {q : CompiledQuery} {id : String}

variable {f : Document → Document} {s : Candidate} {rest cs : List Candidate} {t t' : Table}
  {v v' : Version} {batch : Batch}

/-! ## Attempts that conflict and attempts that land -/

variable {db : MemoryDatabase} {k : Nat} {policy : RetryPolicy}

theorem find?_of_stored (hs : c.stored? t id = some s) :
    t.find? (c.primaryKey id) = some ⟨c.primaryKey id, .map s.document, s.version⟩ :=
  Table.find?_eq_some_iff.2 ⟨stored?_eq_some_iff.1 hs, Key.same_refl _⟩

theorem holds_of_stored {m : Memory} (hs : c.stored? m.table id = some s) :
    m.holds ⟨c.primaryKey id, some s.version⟩ = true := by
  unfold Memory.holds Table.version?
  rw [find?_of_stored hs, Option.map_some, beq_self_eq_true]

/-- A commit with a check on a store that is made to conflict. -/
theorem commit_conflicts {b : Batch} (hpos : db.settings.store.remaining ≠ 0)
    (hchecks : b.checks ≠ []) :
    (Action.commit b).Finishes (fun result db' => result = .conflict ∧ db.Spent db') db := by
  have hcontended : (!b.checks.isEmpty && db.settings.store.remaining != 0) = true := by
    simp [hchecks, hpos]
  have hcommit := Database.commit_of_contended hcontended
  refine ⟨_, _, rfl, .conflict, congrArg Prod.fst hcommit, rfl, ?_, ?_⟩
  · have hmemory : (Database.answer (.commit b) db).2.memory =
        (KeyValueStore.commit db.settings.store b).2.store := rfl
    rw [hmemory, hcommit]
    split <;> rfl
  · have hremaining : (Database.answer (.commit b) db).2.settings.store.remaining =
        (KeyValueStore.commit db.settings.store b).2.remaining := rfl
    rw [hremaining, hcommit]
    split <;> rfl

theorem attempt_conflicts (hc : c.WellIndexed) (hpos : db.settings.store.remaining ≠ 0)
    {result : Document} (hmade : c.changeBatch change s id = .ok (result, batch)) :
    (c.attempt change s id).Finishes (fun o db' => o = none ∧ db.Spent db') db := by
  refine .bind (.ofExcept hmade ?_)
  have hchecks : batch.checks ≠ [] := by
    rw [(changeBatch_spec hc hmade).2.1]
    exact List.cons_ne_nil _ _
  refine .bind ((commit_conflicts hpos hchecks).imp ?_)
  rintro r db' ⟨rfl, hdb'⟩
  exact .pure ⟨rfl, hdb'⟩

theorem attempt_lands (hc : c.WellIndexed) (h : db.Blocked 0) {result : Document}
    (hs : c.stored? db.memory.table id = some s)
    (hmade : c.changeBatch change s id = .ok (result, batch)) :
    (c.attempt change s id).Finishes (fun o db' => o = some result ∧ db'.Blocked 0 ∧
      db'.memory.table = db.memory.table.applyAll (db.memory.version + 1) batch.mutations ∧
      db'.memory.version = db.memory.version + 1) db := by
  refine .bind (.ofExcept hmade ?_)
  have hholds : ∀ check ∈ batch.checks, db.memory.holds check = true := by
    rw [(changeBatch_spec hc hmade).2.1]
    intro check hcheck
    rw [List.mem_singleton.1 hcheck]
    exact holds_of_stored hs
  refine .bind ((Action.Finishes.commit h.opened h.quiet hholds).imp ?_)
  rintro r db' ⟨hcommitted, heffective, hopened, hquiet⟩
  rw [if_pos hcommitted]
  have hversion : db'.memory.version = db.memory.version + 1 := heffective.version_eq
  refine .pure ⟨rfl, ⟨⟨hopened, ?_⟩, ?_⟩, ?_, hversion⟩
  · rw [hquiet]
    decide
  · rw [hquiet]
    rfl
  · rw [← hversion]
    exact heffective.table

/-- A stored document is found again. -/
theorem refetch_finishes (hopen : db.memory.closed = false)
    (hs : c.stored? db.memory.table id = some s) (haccepts : q.accepts s.document = true) :
    (c.refetch id q).Finishes (fun found db' => found = some s ∧ db.Spends 0 db') db := by
  refine .bind (((Action.Finishes.get hopen).spends (.get _)).imp ?_)
  rintro found db' ⟨⟨rfl, _, _⟩, hdb'⟩
  rw [find?_of_stored hs]
  refine .bind (.ofExcept (a := s) rfl ?_)
  rw [if_pos haccepts]
  exact .pure ⟨rfl, hdb'⟩

/-- As many conflicts as there are retries are used up, and then the change takes effect. -/
theorem changeOne_lands (hc : c.WellIndexed) (policy : RetryPolicy) {retries : Nat}
    {result : Document} (h : db.Blocked k) (hk : k ≤ retries)
    (hs : c.stored? db.memory.table id = some s) (haccepts : q.accepts s.document = true)
    (hmade : c.changeBatch change s id = .ok (result, batch)) :
    (c.changeOne change q policy id retries s).Finishes (fun o db' => o = some result ∧
      db'.Blocked 0 ∧
      db'.memory.table = db.memory.table.applyAll (db.memory.version + 1) batch.mutations ∧
      db'.memory.version = db.memory.version + 1) db := by
  -- on the conflicts, each of which takes one retry
  induction k generalizing retries db with
  | zero =>
    unfold changeOne
    refine .bind ((attempt_lands hc h hs hmade).imp ?_)
    rintro o db' ⟨rfl, hdb'⟩
    exact .pure ⟨rfl, hdb'⟩
  | succ k ih =>
    obtain ⟨retries, rfl⟩ : ∃ r, retries = r + 1 := ⟨retries - 1, by omega⟩
    unfold changeOne
    refine .bind ((attempt_conflicts hc h.pos hmade).imp ?_)
    rintro o db' ⟨rfl, hspent⟩
    have hspends := h.spent hspent
    rw [← hspent.memory] at hs ⊢
    have hopen := (h.spends hspends).opened
    refine .bind ((refetch_finishes hopen hs haccepts).imp ?_)
    rintro found db'' ⟨rfl, hspends'⟩
    have hblocked := (h.spends hspends).spends hspends'
    rw [← hspends'.alike.table] at hs ⊢
    rw [← hspends'.alike.version]
    exact ih hblocked (by omega) hs

/-- More conflicts than there are retries exhaust these. -/
theorem changeOne_exhausts (hc : c.WellIndexed) (maxAttempts : UInt32) {retries : Nat}
    {result : Document} (h : db.Blocked k) (hk : retries < k)
    (hs : c.stored? db.memory.table id = some s) (haccepts : q.accepts s.document = true)
    (hmade : c.changeBatch change s id = .ok (result, batch)) :
    (c.changeOne change q (.untilSuccess maxAttempts) id retries s).Ends (fun _ _ => False)
      (fun e db' => e = .retriesExhausted change.kind id maxAttempts.toNat ∧
        db.Spends (retries + 1) db') db := by
  induction retries generalizing k db with
  | zero =>
    obtain ⟨k, rfl⟩ : ∃ k', k = k' + 1 := ⟨k - 1, by omega⟩
    unfold changeOne
    refine .bind (.of_finishes ((attempt_conflicts hc h.pos hmade).imp ?_))
    rintro o db' ⟨rfl, hspent⟩
    exact .throw ⟨rfl, h.spent hspent⟩
  | succ retries ih =>
    obtain ⟨k, rfl⟩ : ∃ k', k = k' + 1 := ⟨k - 1, by omega⟩
    -- a conflict costs one attempt; the document read anew is the one before, as nothing was written
    unfold changeOne
    refine .bind (.of_finishes ((attempt_conflicts hc h.pos hmade).imp ?_))
    rintro o db' ⟨rfl, hspent⟩
    have hspends := h.spent hspent
    rw [← hspent.memory] at hs
    have hopen := (h.spends hspends).opened
    refine .bind (.of_finishes ((refetch_finishes hopen hs haccepts).imp ?_))
    rintro found db'' ⟨rfl, hspends'⟩
    have hblocked := (h.spends hspends).spends hspends'
    rw [← hspends'.alike.table] at hs
    refine (ih hblocked (by omega) hs).imp (fun _ _ hfalse => hfalse) ?_
    rintro e db₃ ⟨rfl, hspends''⟩
    refine ⟨rfl, ?_⟩
    have hall := (hspends.trans hspends').trans hspends''
    rw [show 1 + 0 + (retries + 1) = retries + 1 + 1 by omega] at hall
    exact hall

/-! ## Documents one after another -/

/-- The first pending document, its batch, and what is pending afterwards. -/
theorem Pending.first (h : c.Pending change q f t (s :: rest)) :
    ∃ id batch, s.document.identity? = some (.string id) ∧ c.stored? t id = some s ∧
      q.accepts s.document = true ∧ c.changeBatch change s id = .ok (f s.document, batch) := by
  obtain ⟨id, hid, hs⟩ := h.stored s List.mem_cons_self
  obtain ⟨batch, hmade⟩ := (h.succeeds s List.mem_cons_self).changeBatch id
  exact ⟨id, batch, hid, hs, h.accepted s List.mem_cons_self, hmade⟩

/-- A pending document is changed if there are no more conflicts than retries. -/
theorem changeCandidate_lands (hc : c.WellIndexed) (h : db.Blocked k) (hk : k ≤ policy.retries)
    (hpending : c.Pending change q f db.memory.table (s :: rest)) :
    (c.changeCandidate change q policy s).Finishes (fun o db' => o = some (f s.document) ∧
      db'.Blocked 0 ∧ c.Pending change q f db'.memory.table rest ∧
      ∀ {rest' t' v'}, c.Rewrites change f rest' db'.memory.table db'.memory.version t' v' →
        c.Rewrites change f (s :: rest') db.memory.table db.memory.version t' v') db := by
  obtain ⟨id, batch, hid, hs, haccepts, hmade⟩ := hpending.first
  refine .bind (.ofExcept (requireId_of_identity hid) ?_)
  refine (changeOne_lands hc policy h hk hs haccepts hmade).imp ?_
  rintro o db' ⟨rfl, hblocked, htable, hversion⟩
  refine ⟨rfl, hblocked, ?_, fun hrest => ?_⟩
  · rw [htable]
    exact hpending.step hc hid hs hmade _
  · rw [htable, hversion] at hrest
    exact .cons hid hs hmade hrest

/-- Under a policy of a single attempt a conflict skips a pending document. -/
theorem changeCandidate_skips (hc : c.WellIndexed) (hpos : db.settings.store.remaining ≠ 0)
    (hpending : c.Pending change q f db.memory.table (s :: rest)) :
    (c.changeCandidate change q .single s).Finishes (fun o db' => o = none ∧ db.Spent db') db := by
  obtain ⟨id, batch, hid, hs, haccepts, hmade⟩ := hpending.first
  refine .bind (.ofExcept (requireId_of_identity hid) ?_)
  show (c.changeOne change q .single id 0 s).Finishes _ db
  unfold changeOne
  refine .bind ((attempt_conflicts hc hpos hmade).imp ?_)
  rintro o db' ⟨rfl, hdb'⟩
  exact .pure ⟨rfl, hdb'⟩

/-- How a change of pending documents fails that exhausts its retries: on the first of them, with
nothing changed. -/
structure Exhausts (change : Change) (maxAttempts : UInt32) (s : Candidate) (db : MemoryDatabase)
    (e : Error) (db' : MemoryDatabase) : Prop where
  error : ∃ id, s.document.identity? = some (.string id) ∧
    e = .retriesExhausted change.kind id maxAttempts.toNat
  spends : db.Spends maxAttempts.toNat db'

theorem changeCandidate_exhausts (hc : c.WellIndexed) {maxAttempts : UInt32}
    (hpolicy : (RetryPolicy.untilSuccess maxAttempts).check = .ok ()) (h : db.Blocked k)
    (hk : maxAttempts.toNat ≤ k) (hpending : c.Pending change q f db.memory.table (s :: rest)) :
    (c.changeCandidate change q (.untilSuccess maxAttempts) s).Ends (fun _ _ => False)
      (Exhausts change maxAttempts s db) db := by
  obtain ⟨id, batch, hid, hs, haccepts, hmade⟩ := hpending.first
  have hattempts : maxAttempts.toNat = (RetryPolicy.untilSuccess maxAttempts).retries + 1 :=
    RetryPolicy.attempts_eq hpolicy
  refine .bind (.ofExcept (fun id' hid' => ?_) fun e he => ?_)
  · cases hid'.symm.trans (requireId_of_identity hid)
    refine (changeOne_exhausts hc maxAttempts h ?_ hs haccepts hmade).imp
      (fun _ _ hfalse => hfalse) ?_
    · show (RetryPolicy.untilSuccess maxAttempts).retries + 1 ≤ k
      omega
    · rintro e db' ⟨rfl, hspends⟩
      refine ⟨⟨id, hid, rfl⟩, ?_⟩
      rw [hattempts]
      exact hspends
  · cases he.symm.trans (requireId_of_identity hid)

/-- All pending documents are changed, each in its order, if there are no more conflicts than
retries. -/
theorem changeEach_lands (hc : c.WellIndexed) (h : db.Blocked k) (hk : k ≤ policy.retries)
    (hpending : c.Pending change q f db.memory.table cs) :
    (c.changeEach change q policy cs).Finishes (fun results db' =>
      results = cs.map (fun s => f s.document) ∧
        db'.Blocked (if cs.isEmpty then k else 0) ∧
        c.Rewrites change f cs db.memory.table db.memory.version db'.memory.table
          db'.memory.version) db := by
  induction cs generalizing k db with
  | nil => exact .pure ⟨rfl, h, .nil _ _⟩
  | cons s rest ih =>
    refine .bind ((changeCandidate_lands hc h hk hpending).imp ?_)
    rintro o db' ⟨rfl, hblocked, hrest, hrewrites⟩
    -- all conflicts are used up by the first document
    refine .bind ((ih hblocked (Nat.zero_le _) hrest).imp ?_)
    rintro results db'' ⟨rfl, hblocked', hrewrites'⟩
    rw [ite_self] at hblocked'
    exact .pure ⟨rfl, hblocked', hrewrites hrewrites'⟩

/-- Under a policy of a single attempt as many documents are skipped as there are conflicts. -/
theorem changeEach_skips (hc : c.WellIndexed) (h : db.Blocked k)
    (hpending : c.Pending change q f db.memory.table cs) :
    (c.changeEach change q .single cs).Finishes (fun results db' =>
      results = (cs.drop k).map (fun s => f s.document) ∧ db'.Blocked (k - cs.length) ∧
        c.Rewrites change f (cs.drop k) db.memory.table db.memory.version db'.memory.table
          db'.memory.version) db := by
  induction cs generalizing k db with
  | nil =>
    rw [List.drop_nil]
    exact .pure ⟨rfl, h, .nil _ _⟩
  | cons s rest ih =>
    rcases k with _ | k
    · refine (changeEach_lands hc h (Nat.zero_le _) hpending).imp ?_
      rintro results db' ⟨rfl, hblocked, hrewrites⟩
      exact ⟨rfl, by rw [Nat.zero_sub]; exact hblocked, hrewrites⟩
    · refine .bind ((changeCandidate_skips hc h.pos hpending).imp ?_)
      rintro o db' ⟨rfl, hspent⟩
      have hblocked : db'.Blocked k := h.spends (h.spent hspent)
      rw [← hspent.memory] at hpending ⊢
      refine .bind ((ih hblocked hpending.tail).imp ?_)
      rintro results db'' ⟨rfl, hblocked', hrewrites⟩
      refine .pure ⟨rfl, ?_, hrewrites⟩
      rw [List.length_cons, Nat.add_sub_add_right]
      exact hblocked'

theorem changeEach_exhausts (hc : c.WellIndexed) {maxAttempts : UInt32}
    (hpolicy : (RetryPolicy.untilSuccess maxAttempts).check = .ok ()) (h : db.Blocked k)
    (hk : maxAttempts.toNat ≤ k) (hpending : c.Pending change q f db.memory.table (s :: rest)) :
    (c.changeEach change q (.untilSuccess maxAttempts) (s :: rest)).Ends (fun _ _ => False)
      (Exhausts change maxAttempts s db) db :=
  .bind ((changeCandidate_exhausts hc hpolicy h hk hpending).imp
    (fun _ _ hfalse => hfalse.elim) fun _ _ he => he)

/-! ## Documents up to the first that is changed -/

variable {candidates : Candidates} {reads : Nat → Nat} {seen entries : List Entry} {fuel : Nat}

/-- What is left to be handed out does not depend on conflicts to come. -/
theorem holds_of_memory {db' : MemoryDatabase} (hmemory : db'.memory = db.memory)
    (h : candidates.Holds db reads q seen entries) :
    candidates.Holds db' reads q seen entries := by
  obtain ⟨source, query⟩ := candidates
  refine ⟨h.query, ?_, h.documents⟩
  have hsource := h.source
  cases source with
  | nothing => exact ⟨hsource.1, hmemory ▸ hsource.2⟩
  | single e => exact ⟨hsource.1, hmemory ▸ hsource.2⟩
  | scan s =>
    obtain ⟨hpos, hunder, hlast, hpage, hfetched, hcounts, hread⟩ := hsource
    exact ⟨hpos, hmemory ▸ hunder, hlast, hpage, hfetched, hcounts, hmemory ▸ hread⟩

/-- A change of the first document that is not skipped: it has nothing to do, or starts with the first
of the documents that are left. -/
theorem changeFirst_next {post : Except Error (List Document) → MemoryDatabase → Prop}
    (hopen : db.memory.closed = false) (hcandidates : candidates.Holds db reads q seen entries)
    (hentries : q.candidates entries = cs) (hfuel : entries.length < fuel)
    (hnil : cs = [] → ∀ db', db.Spends 0 db' → post (.ok []) db')
    (hcons : ∀ s rest, cs = s :: rest → ∀ db' fuel' (candidates' : Candidates) seen' later,
      db.Spends 0 db' → candidates'.Holds db' reads q seen' later → q.candidates later = rest →
      later.length < fuel' → fuel = fuel' + 1 → Program.Finishes post (do
        match ← c.changeCandidate change q policy s with
        | some result => return [result]
        | none => c.changeFirst change q policy fuel' candidates' : Action (List Document)) db') :
    Program.Finishes post (c.changeFirst change q policy fuel candidates) db := by
  rcases fuel with _ | fuel
  · exact absurd hfuel (Nat.not_lt_zero _)
  refine Action.Finishes.andThen (.lift (((Candidates.next_finishes hopen hcandidates hfuel).spends
    (candidates.next_commitsAtMost _)).imp ?_))
  rintro ⟨item, candidates'⟩ db' ⟨⟨_, hitem, later, hsplit, hlater, hholds⟩, hspends⟩
  have hitem : item = (q.candidates entries).head?.map .ok := hitem
  rw [hentries] at hitem hlater
  subst hitem
  rcases cs with _ | ⟨s, rest⟩
  · exact Program.Finishes.pure (hnil rfl db' hspends)
  · have hshorter := Candidates.length_later_lt hcandidates.documents hentries hsplit
    exact hcons s rest rfl db' fuel candidates' _ later hspends hholds hlater (by omega) rfl

theorem changeFirst_lands (hc : c.WellIndexed) (h : db.Blocked k) (hk : k ≤ policy.retries)
    (hcandidates : candidates.Holds db reads q seen entries)
    (hentries : q.candidates entries = cs) (hfuel : entries.length < fuel)
    (hpending : c.Pending change q f db.memory.table cs) :
    (c.changeFirst change q policy fuel candidates).Finishes (fun results db' =>
      results = cs.head?.toList.map (fun s => f s.document) ∧
        db'.Blocked (if cs.isEmpty then k else 0) ∧
        c.Rewrites change f cs.head?.toList db.memory.table db.memory.version db'.memory.table
          db'.memory.version) db := by
  refine changeFirst_next h.opened hcandidates hentries hfuel ?_ ?_
  · rintro rfl db' hspends
    rw [← hspends.alike.table, ← hspends.alike.version]
    exact ⟨_, rfl, rfl, h.spends hspends, .nil _ _⟩
  · rintro s rest rfl db' _ _ _ _ hspends _ _ _ _
    rw [← hspends.alike.table] at hpending
    rw [← hspends.alike.table, ← hspends.alike.version]
    refine Action.Finishes.bind ((changeCandidate_lands hc (h.spends hspends) hk hpending).imp ?_)
    rintro o db'' ⟨rfl, hblocked', _, hrewrites⟩
    exact .pure ⟨rfl, hblocked', hrewrites (.nil _ _)⟩

theorem changeFirst_skips (hc : c.WellIndexed) (h : db.Blocked k)
    (hcandidates : candidates.Holds db reads q seen entries)
    (hentries : q.candidates entries = cs) (hfuel : entries.length < fuel)
    (hpending : c.Pending change q f db.memory.table cs) :
    (c.changeFirst change q .single fuel candidates).Finishes (fun results db' =>
      results = (cs.drop k).head?.toList.map (fun s => f s.document) ∧
        db'.Blocked (k - cs.length) ∧
        c.Rewrites change f (cs.drop k).head?.toList db.memory.table db.memory.version
          db'.memory.table db'.memory.version) db := by
  -- on the conflicts, each of which takes one document
  induction k generalizing db cs candidates seen entries fuel with
  | zero =>
    refine (changeFirst_lands hc h (Nat.zero_le _) hcandidates hentries hfuel hpending).imp ?_
    rintro results db' ⟨rfl, hblocked, hrewrites⟩
    rw [ite_self] at hblocked
    exact ⟨rfl, by rw [Nat.zero_sub]; exact hblocked, hrewrites⟩
  | succ k ih =>
    refine changeFirst_next h.opened hcandidates hentries hfuel ?_ ?_
    · rintro rfl db' hspends
      rw [← hspends.alike.table, ← hspends.alike.version]
      exact ⟨_, rfl, rfl, h.spends hspends, .nil _ _⟩
    · rintro s rest rfl db' fuel' candidates' _ later hspends hholds hlater hfuel' _
      have hblocked : db'.Blocked (k + 1) := h.spends hspends
      rw [← hspends.alike.table] at hpending
      rw [← hspends.alike.table, ← hspends.alike.version]
      refine Action.Finishes.bind ((changeCandidate_skips hc hblocked.pos hpending).imp ?_)
      rintro o db'' ⟨rfl, hspent⟩
      have hblocked' : db''.Blocked k := hblocked.spends (hblocked.spent hspent)
      rw [← hspent.memory] at hpending ⊢
      refine (ih hblocked' (holds_of_memory hspent.memory hholds) hlater hfuel' hpending.tail).imp ?_
      rintro results db₃ ⟨rfl, hblocked₃, hrewrites⟩
      refine ⟨rfl, ?_, hrewrites⟩
      rw [List.length_cons, Nat.add_sub_add_right]
      exact hblocked₃

theorem changeFirst_exhausts (hc : c.WellIndexed) {maxAttempts : UInt32}
    (hpolicy : (RetryPolicy.untilSuccess maxAttempts).check = .ok ()) (h : db.Blocked k)
    (hk : maxAttempts.toNat ≤ k) (hcandidates : candidates.Holds db reads q seen entries)
    (hentries : q.candidates entries = s :: rest) (hfuel : entries.length < fuel)
    (hpending : c.Pending change q f db.memory.table (s :: rest)) :
    (c.changeFirst change q (.untilSuccess maxAttempts) fuel candidates).Ends (fun _ _ => False)
      (Exhausts change maxAttempts s db) db := by
  refine changeFirst_next h.opened hcandidates hentries hfuel nofun ?_
  rintro _ _ ⟨⟩ db' _ _ _ _ hspends _ _ _ _
  rw [← hspends.alike.table] at hpending
  refine Action.Ends.bind ((changeCandidate_exhausts hc hpolicy (h.spends hspends) hk
    hpending).imp (fun _ _ hfalse => hfalse.elim) ?_)
  rintro e db'' ⟨herror, hspends'⟩
  have hall := hspends.trans hspends'
  rw [Nat.zero_add] at hall
  exact ⟨herror, hall⟩

/-! ## Changes -/

end Collection

namespace WriteOptions

variable {α β : Type}

/-- The items of a list that a write goes for: all of them, or the first. -/
def picks (o : WriteOptions) (l : List α) : List α := if o.justOnce then l.head?.toList else l

theorem map_picks (o : WriteOptions) (g : α → β) (l : List α) :
    (o.picks l).map g = o.picks (l.map g) := by
  unfold picks
  split
  · cases l <;> rfl
  · rfl

theorem picks_sublist (o : WriteOptions) (l : List α) : (o.picks l).Sublist l := by
  unfold picks
  split
  · cases l with
    | nil => exact .slnil
    | cons a l => exact (List.nil_sublist l).cons_cons a
  · exact .refl l

end WriteOptions

namespace Collection

variable {c : Collection} {change : Change} {f : Document → Document} {s : Candidate}
  {rest : List Candidate} {db : MemoryDatabase} {k fuel : Nat}

/-- What a change does once it has read what it needs, in each of its two modes. -/
theorem change_gathers {q : Query}
    (hdocs : ∀ e ∈ (c.plan q.compile).strategy.entries c db.memory.table,
      ∃ s, Candidate.ofEntry e = .ok s)
    (hopen : db.memory.closed = false) (hbatch : 0 < c.defaults.scanBatch)
    (hfuel : db.memory.table.size < fuel) {o : WriteOptions}
    (hpolicy : (c.retryPolicy change o).check = .ok ())
    {post : Except Error (List Document) → MemoryDatabase → Prop}
    (hfirst : ∀ db' candidates reads entries, o.justOnce = true → db.Spends 0 db' →
      candidates.Holds db' reads q.compile [] entries → entries.length < fuel →
      q.compile.candidates entries = c.selected db.memory.table q.compile →
      Program.Finishes post
        (c.changeFirst change q.compile (c.retryPolicy change o) fuel candidates) db')
    (heach : ∀ db', o.justOnce = false → db.Spends 0 db' →
      Program.Finishes post (c.changeEach change q.compile (c.retryPolicy change o)
        (c.selected db.memory.table q.compile)) db') :
    Program.Finishes post (c.change change q o fuel) db := by
  have hlength : ((c.plan q.compile).strategy.entries c db.memory.table).length < fuel :=
    Nat.lt_of_le_of_lt (Strategy.length_entries_le c _ _) hfuel
  refine Action.Finishes.andThen (.ofExcept hpolicy ?_)
  refine Action.Finishes.andThen (((Candidates.ofPlan_finishes hopen hbatch hdocs).spends
    (Candidates.ofPlan_commitsAtMost _ _)).imp ?_)
  rintro candidates db' ⟨⟨_, hcandidates⟩, hspends⟩
  by_cases honce : o.justOnce = true
  · rw [if_pos honce]
    exact hfirst db' candidates _ _ honce hspends hcandidates hlength rfl
  · rw [if_neg honce]
    have hopen' := hspends.alike.closed.trans hopen
    refine Action.Finishes.andThen (((Candidates.collect_finishes hopen' hcandidates
      hlength).spends (Candidates.collect_commitsAtMost _ _ _)).imp ?_)
    rintro found db'' ⟨⟨_, rfl, _⟩, hspends'⟩
    -- gathering the candidates commits nothing, so all conflicts are still to come
    exact heach db'' (Bool.eq_false_iff.2 honce) (hspends.trans hspends')

section Outcomes

variable (hc : c.WellIndexed) (h : db.Blocked k) {q : Query}
  (hdocs : ∀ e ∈ (c.plan q.compile).strategy.entries c db.memory.table,
    ∃ s, Candidate.ofEntry e = .ok s)
  (hbatch : 0 < c.defaults.scanBatch) (hfuel : db.memory.table.size < fuel) {o : WriteOptions}
  (hpolicy : (c.retryPolicy change o).check = .ok ())
  (hpending : c.Pending change q.compile f db.memory.table (c.selected db.memory.table q.compile))

include hc h hdocs hbatch hfuel hpolicy hpending

/-- With no more conflicts than retries the documents are changed that would be changed without. -/
theorem change_lands (hk : k ≤ (c.retryPolicy change o).retries) :
    (c.change change q o fuel).Finishes (fun results db' =>
      let found := c.selected db.memory.table q.compile
      results = (o.picks found).map (fun s => f s.document) ∧
        db'.Blocked (if found.isEmpty then k else 0) ∧
        c.Rewrites change f (o.picks found) db.memory.table db.memory.version db'.memory.table
          db'.memory.version) db := by
  refine change_gathers hdocs h.opened hbatch hfuel hpolicy ?_ ?_
  · intro db' candidates reads entries honce hspends hcandidates hlength hentries
    rw [← hspends.alike.table] at hpending
    simp only [WriteOptions.picks, honce, if_true, ← hspends.alike.table, ← hspends.alike.version]
    exact changeFirst_lands hc (h.spends hspends) hk hcandidates
      (hspends.alike.table ▸ hentries) hlength hpending
  · intro db' honce hspends
    rw [← hspends.alike.table] at hpending
    simp only [WriteOptions.picks, honce, Bool.false_eq_true, if_false,
      ← hspends.alike.table, ← hspends.alike.version]
    exact changeEach_lands hc (h.spends hspends) hk hpending

/-- Under a policy of a single attempt the first documents are skipped, one for each conflict. -/
theorem change_skips (hsingle : c.retryPolicy change o = .single) :
    (c.change change q o fuel).Finishes (fun results db' =>
      let left := (c.selected db.memory.table q.compile).drop k
      results = (o.picks left).map (fun s => f s.document) ∧
        db'.Blocked (k - (c.selected db.memory.table q.compile).length) ∧
        c.Rewrites change f (o.picks left) db.memory.table db.memory.version db'.memory.table
          db'.memory.version) db := by
  refine change_gathers hdocs h.opened hbatch hfuel hpolicy ?_ ?_
  · intro db' candidates reads entries honce hspends hcandidates hlength hentries
    rw [← hspends.alike.table] at hpending
    simp only [WriteOptions.picks, hsingle, honce, if_true, ← hspends.alike.table,
      ← hspends.alike.version]
    exact changeFirst_skips hc (h.spends hspends) hcandidates (hspends.alike.table ▸ hentries)
      hlength hpending
  · intro db' honce hspends
    rw [← hspends.alike.table] at hpending
    simp only [WriteOptions.picks, hsingle, honce, Bool.false_eq_true, if_false,
      ← hspends.alike.table, ← hspends.alike.version]
    exact changeEach_skips hc (h.spends hspends) hpending

/-- With more conflicts than retries the change fails on the first document. -/
theorem change_exhausts {maxAttempts : UInt32}
    (huntil : c.retryPolicy change o = .untilSuccess maxAttempts) (hk : maxAttempts.toNat ≤ k)
    (hfound : c.selected db.memory.table q.compile = s :: rest) :
    (c.change change q o fuel).Ends (fun _ _ => False) (Exhausts change maxAttempts s db) db := by
  rw [hfound] at hpending
  rw [huntil] at hpolicy
  -- what was read before uses up no conflicts
  have hbefore : ∀ {db' e db''}, db.Spends 0 db' → Exhausts change maxAttempts s db' e db'' →
      Exhausts change maxAttempts s db e db'' := by
    intro db' e db'' hspends hexhausts
    have hall := hspends.trans hexhausts.spends
    rw [Nat.zero_add] at hall
    exact ⟨hexhausts.error, hall⟩
  refine change_gathers hdocs h.opened hbatch hfuel (huntil ▸ hpolicy) ?_ ?_
  · intro db' candidates reads entries _ hspends hcandidates hlength hentries
    rw [← hspends.alike.table] at hpending
    rw [huntil]
    exact (changeFirst_exhausts hc hpolicy (h.spends hspends) hk hcandidates
      (hentries.trans hfound) hlength hpending).imp (fun _ _ hfalse => hfalse)
      fun _ _ he => hbefore hspends he
  · intro db' _ hspends
    rw [← hspends.alike.table] at hpending
    rw [huntil, hfound]
    exact (changeEach_exhausts hc hpolicy (h.spends hspends) hk hpending).imp
      (fun _ _ hfalse => hfalse) fun _ _ he => hbefore hspends he

end Outcomes

/-- Without conflicts a change changes the documents that the query selects at the start, or the first
of them, and gives back its results in the order of identities. -/
theorem change_finishes (hc : c.WellIndexed) (ht : c.Consistent db.memory.table) (h : db.Blocked 0)
    (hbatch : 0 < c.defaults.scanBatch) (hfuel : db.memory.table.size < fuel) {q : Query}
    {o : WriteOptions} (hpolicy : (c.retryPolicy change o).check = .ok ())
    (hsucceeds : ∀ s ∈ c.selected db.memory.table q.compile,
      c.Succeeds change s.document (f s.document)) :
    (c.change change q o fuel).Finishes (fun results db' =>
      let changed := o.picks (c.selected db.memory.table q.compile)
      results = changed.map (fun s => f s.document) ∧ c.Consistent db'.memory.table ∧
        c.Alters change f changed db.memory.table db'.memory.table) db := by
  have hselects := selects_selected hc ht q.compile
  refine (change_lands hc h (ht.readable _) hbatch hfuel hpolicy (hselects.pending ht hsucceeds)
    (Nat.zero_le _)).imp ?_
  rintro results db' ⟨rfl, _, hrewrites⟩
  exact ⟨rfl, hrewrites.consistent hc ht,
    hrewrites.alters hc ht (hselects.ascending.sublist (o.picks_sublist _))⟩

end Collection

end DocumentStore
