import DocumentStore.Proofs.Collection.Dropping

/-!
# Changes that fail on the way

A change goes through its documents one after another and ends at the first that it fails on
(`Collection.changeEach_stops`).  Each document before that one was changed in a commit of its own, or
was skipped after a conflict under a policy of a single attempt.  The document itself and those behind
it are as they were, whichever attempt it is that fails.  A change that does not fail has changed all of
them, if there are no conflicts (`Collection.change_changes`).
-/

namespace DocumentStore

def Change.made (change : Change) (d : Document) : Document := (change.apply d).toOption.getD d

theorem Change.made_eq {change : Change} {d result : Document} (h : change.apply d = .ok result) :
    change.made d = result := by
  unfold made
  rw [h]
  rfl

theorem Database.Spent.remaining_le {db db' : MemoryDatabase} (h : db.Spent db')
    (hpos : db.settings.store.remaining ≠ 0) :
    db'.settings.store.remaining.toNat ≤ db.settings.store.remaining.toNat := by
  rw [h.remaining]
  split
  · exact Nat.le_refl _
  · have hnext := Database.toNat_sub_one hpos
    omega

/-- A conflict skips one document. -/
theorem Database.Spent.skipped {db db' : MemoryDatabase} (h : db.Spent db')
    (hpos : db.settings.store.remaining ≠ 0) (n : Nat) :
    db.skipped .single (n + 1) = db'.skipped .single n + 1 := by
  unfold Database.skipped
  have hremaining := h.remaining
  by_cases hendless : db.settings.store.remaining = 0xffffffff
  · rw [if_pos hendless] at hremaining
    simp only [hremaining, hendless, if_true]
  · have hnext := Database.toNat_sub_one hpos
    have hlt := db.settings.store.remaining.toNat_lt
    rw [if_neg hendless] at hremaining
    have hfinite : db.settings.store.remaining - 1 ≠ 0xffffffff := by
      intro he
      rw [he] at hnext
      have hmax : (0xffffffff : UInt32).toNat = 0xffffffff := rfl
      omega
    rw [hremaining, if_neg hendless, if_neg hfinite, ← hnext, Nat.succ_min_succ]

namespace Collection

variable {c : Collection} {change : Change} {q : CompiledQuery} {policy : RetryPolicy}
  {s : Candidate} {cs rest skipped changed : List Candidate} {t t' : Table} {v v' : Version}
  {db db' db'' : MemoryDatabase} {e : Error} {o : Option Document} {m n : Nat}

/-! ## Errors -/

inductive Raises (c : Collection) (change : Change) (policy : RetryPolicy) (conflicts : Nat)
    (d : Document) : Error → Prop where
  /-- The change itself fails, or changes the identity. -/
  | rejected {e : Error} (h : change.apply d = .error e) : Raises c change policy conflicts d e
  /-- The sanitizer, an index or the validator refuses the new document. -/
  | refused {result new : Document} {e : Error} (happly : change.apply d = .ok result)
    (hnew : new ∈ change.outcome result) (h : c.checkDocument new = .error e) :
    Raises c change policy conflicts d e
  /-- All attempts are used up by conflicts. -/
  | exhausted {id : String} {maxAttempts : UInt32} (hid : d.identity? = some (.string id))
    (hsucceeds : c.Succeeds change d (change.made d)) (hpolicy : policy = .untilSuccess maxAttempts)
    (hle : maxAttempts.toNat ≤ conflicts) :
    Raises c change policy conflicts d (.retriesExhausted change.kind id maxAttempts.toNat)

theorem Raises.mono {d : Document} (h : c.Raises change policy m d e) (hle : m ≤ n) :
    c.Raises change policy n d e := by
  cases h with
  | rejected h => exact .rejected h
  | refused happly hnew h => exact .refused happly hnew h
  | exhausted hid hsucceeds hpolicy hle' =>
    exact .exhausted hid hsucceeds hpolicy (Nat.le_trans hle' hle)

/-- Where a change succeeds nothing but conflicts makes it fail. -/
theorem Raises.of_succeeds {d result : Document} (h : c.Raises change policy n d e)
    (hsucceeds : c.Succeeds change d result) : ∃ maxAttempts, policy = .untilSuccess maxAttempts := by
  cases h with
  | rejected h => cases h.symm.trans hsucceeds.applied
  | refused happly hnew h =>
    cases happly.symm.trans hsucceeds.applied
    cases h.symm.trans (hsucceeds.checked _ hnew)
  | exhausted _ _ hpolicy _ => exact ⟨_, hpolicy⟩

/-- A change succeeds on a document, or there is no batch for it and the error is the reason. -/
theorem changeBatch_cases (c : Collection) (change : Change) (s : Candidate) (id : String) :
    c.Succeeds change s.document (change.made s.document) ∨
      ∃ e, c.changeBatch change s id = .error e ∧
        ∀ policy conflicts, c.Raises change policy conflicts s.document e := by
  cases change with
  | delete => exact .inl ⟨rfl, fun new hnew => by cases hnew⟩
  | update u =>
    cases happly : u.apply s.document with
    | error e =>
      refine .inr ⟨e, ?_, fun _ _ => .rejected happly⟩
      simp only [changeBatch, happly, bind, Except.bind]
    | ok result =>
      have hmade : (Change.update u).made s.document = result := Change.made_eq happly
      cases hcheck : c.checkDocument result with
      | error e =>
        refine .inr ⟨e, ?_, fun _ _ => .refused happly rfl hcheck⟩
        simp only [changeBatch, happly, bind, Except.bind, hcheck]
      | ok _ =>
        rw [hmade]
        exact .inl ⟨happly, fun new hnew => by cases hnew; exact hcheck⟩

/-! ## One document -/

/-- What becomes of a document that a change does not fail on: it is skipped or changed. -/
inductive Handles (c : Collection) (change : Change) (policy : RetryPolicy) (s : Candidate)
    (db : MemoryDatabase) : Option Document → MemoryDatabase → Prop where
  | skips {db' : MemoryDatabase} (hsingle : policy = .single)
    (hpos : db.settings.store.remaining ≠ 0) (hspent : db.Spent db') :
    Handles c change policy s db none db'
  | lands {db' : MemoryDatabase} (hskipped : ∀ n, db.skipped policy n = 0)
    (hquiet : db'.settings.store.remaining = 0)
    (hrewrites : c.Rewrites change change.made [s] db.memory.table db.memory.version
      db'.memory.table db'.memory.version) :
    Handles c change policy s db (some (change.made s.document)) db'

structure Fails (c : Collection) (change : Change) (policy : RetryPolicy) (s : Candidate)
    (db : MemoryDatabase) (e : Error) (db' : MemoryDatabase) : Prop where
  raises : c.Raises change policy db.settings.store.remaining.toNat s.document e
  table : db'.memory.table = db.memory.table
  version : db'.memory.version = db.memory.version

/-- With no more conflicts than retries a document that a change succeeds on is changed. -/
theorem changeCandidate_handles_of_blocked (hc : c.WellIndexed) (hblocked : db.Blocked n)
    (hn : n ≤ policy.retries) (hskipped : ∀ k, db.skipped policy k = 0)
    (hpending : c.Pending change q change.made db.memory.table [s]) :
    (c.changeCandidate change q policy s).Ends
      (fun o db' => db'.memory.closed = false ∧ c.Handles change policy s db o db')
      (c.Fails change policy s db) db := by
  refine .of_finishes ((changeCandidate_lands hc hblocked hn hpending).imp ?_)
  rintro o db' ⟨rfl, hblocked', _, hrewrites⟩
  exact ⟨hblocked'.opened, .lands hskipped hblocked'.quiet (hrewrites (.nil _ _))⟩

/-- If a change succeeds on a document, conflicts decide what becomes of it. -/
theorem changeCandidate_handles_of_succeeds (hc : c.WellIndexed)
    (hopen : db.memory.closed = false) (hpolicy : policy.check = .ok ())
    (hpending : c.Pending change q change.made db.memory.table [s]) :
    (c.changeCandidate change q policy s).Ends
      (fun o db' => db'.memory.closed = false ∧ c.Handles change policy s db o db')
      (c.Fails change policy s db) db := by
  have hsucceeds := hpending.succeeds s List.mem_cons_self
  cases policy with
  | single =>
    -- one attempt: any conflict skips the candidate
    by_cases hquiet : db.settings.store.remaining = 0
    · exact changeCandidate_handles_of_blocked hc (.of_quiet hopen hquiet) (Nat.zero_le _)
        (Database.skipped_of_quiet hquiet _) hpending
    · refine .of_finishes ((changeCandidate_skips hc hquiet hpending).imp ?_)
      rintro o db' ⟨rfl, hspent⟩
      refine ⟨?_, .skips rfl hquiet hspent⟩
      rw [hspent.memory]
      exact hopen
  | untilSuccess maxAttempts =>
    have hattempts : maxAttempts.toNat = (RetryPolicy.untilSuccess maxAttempts).retries + 1 :=
      RetryPolicy.attempts_eq hpolicy
    -- many attempts: they run out if the conflicts are endless, or at least as many as they are
    by_cases hendless : db.settings.store.remaining = 0xffffffff
    · refine (changeCandidate_stuck hc maxAttempts ⟨hopen, hendless⟩ hpending).imp
        (fun _ _ hfalse => hfalse.elim) ?_
      rintro e db' ⟨⟨id, hid, rfl⟩, htable, hversion⟩
      refine ⟨.exhausted hid hsucceeds rfl ?_, htable, hversion⟩
      have hlt := maxAttempts.toNat_lt
      rw [hendless]
      show maxAttempts.toNat ≤ 0xffffffff
      omega
    · have hblocked : db.Blocked db.settings.store.remaining.toNat := ⟨⟨hopen, hendless⟩, rfl⟩
      by_cases hle : maxAttempts.toNat ≤ db.settings.store.remaining.toNat
      · refine (changeCandidate_exhausts hc hpolicy hblocked hle hpending).imp
          (fun _ _ hfalse => hfalse.elim) ?_
        rintro e db' ⟨⟨id, hid, rfl⟩, hspends⟩
        refine ⟨.exhausted hid hsucceeds rfl hle, ?_, ?_⟩
        · rw [hspends.memory]
        · rw [hspends.memory]
      · exact changeCandidate_handles_of_blocked hc hblocked (by omega) (fun _ => rfl) hpending

/-- A change without a batch fails at the first attempt. -/
theorem changeOne_refuses {id : String} (retries : Nat)
    (hmade : c.changeBatch change s id = .error e) :
    (c.changeOne change q policy id retries s).Ends (fun _ _ => False)
      (fun e' db' => e' = e ∧ db' = db) db := by
  unfold changeOne
  refine .bind (.bind (.ofExcept (fun r hr => ?_) fun e' he' => ?_))
  · cases hmade.symm.trans hr
  · cases hmade.symm.trans he'
    exact ⟨rfl, rfl⟩

/-- What a change does to one document, whatever the number of conflicts. -/
theorem changeCandidate_handles (hc : c.WellIndexed) (hopen : db.memory.closed = false)
    (hpolicy : policy.check = .ok ()) (h : c.Waits q db.memory.table [s]) :
    (c.changeCandidate change q policy s).Ends
      (fun o db' => db'.memory.closed = false ∧ c.Handles change policy s db o db')
      (c.Fails change policy s db) db := by
  obtain ⟨id, hid, _⟩ := h.stored s List.mem_cons_self
  rcases changeBatch_cases c change s id with hsucceeds | ⟨e, hmade, hraises⟩
  · refine changeCandidate_handles_of_succeeds hc hopen hpolicy (h.pending fun s' hs' => ?_)
    rw [List.mem_singleton.1 hs']
    exact hsucceeds
  · refine .bind (.of_finishes (.ofExcept (requireId_of_identity hid) ?_))
    refine (changeOne_refuses _ hmade).imp (fun _ _ hfalse => hfalse.elim) ?_
    rintro e' db' ⟨rfl, rfl⟩
    exact ⟨hraises _ _, rfl, rfl⟩

/-- The documents that are left wait for their turn whatever becomes of the first. -/
theorem Handles.waits (hc : c.WellIndexed) (h : c.Handles change policy s db o db')
    (hwaits : c.Waits q db.memory.table (s :: rest)) : c.Waits q db'.memory.table rest := by
  cases h with
  | skips _ _ hspent =>
    rw [hspent.memory]
    exact hwaits.tail
  | lands _ _ hrewrites =>
    obtain ⟨id, batch, hid, hs, hmade, hrest⟩ := rewrites_cons_iff.1 hrewrites
    rw [hrest.table_eq]
    exact hwaits.step hc hid hs hmade _

/-! ## Documents one after another -/

/-- How a change ends that fails on a document, behind documents that it skipped and documents that it
changed. -/
structure StopsAt (c : Collection) (change : Change) (policy : RetryPolicy) (db : MemoryDatabase)
    (skipped changed : List Candidate) (s : Candidate) (e : Error) (db' : MemoryDatabase) :
    Prop where
  skips : skipped.length = db.skipped policy (skipped.length + changed.length)
  rewrites : c.Rewrites change change.made changed db.memory.table db.memory.version
    db'.memory.table db'.memory.version
  raises : c.Raises change policy db.settings.store.remaining.toNat s.document e

theorem Fails.stopsAt (h : c.Fails change policy s db e db') :
    c.StopsAt change policy db [] [] s e db' := by
  refine ⟨(Nat.le_zero.1 (db.skipped_le policy 0)).symm, ?_, h.raises⟩
  rw [h.table, h.version]
  exact .nil _ _

/-- A document that is handled before the others: skipped before other documents are skipped, or
changed before other documents are changed. -/
theorem StopsAt.cons {s' : Candidate} (hs : c.Handles change policy s db o db')
    (h : c.StopsAt change policy db' skipped changed s' e db'') :
    ∃ skipped' changed', s :: (skipped ++ changed) = skipped' ++ changed' ∧
      c.StopsAt change policy db skipped' changed' s' e db'' ∧ (o = none → changed' = changed) := by
  obtain ⟨hskips, hrewrites, hraises⟩ := h
  cases hs with
  | skips hsingle hpos hspent =>
    refine ⟨s :: skipped, changed, rfl, ⟨?_, ?_, hraises.mono (hspent.remaining_le hpos)⟩,
      fun _ => rfl⟩
    · rw [hsingle] at hskips ⊢
      rw [List.length_cons, Nat.add_right_comm, hspent.skipped hpos, ← hskips]
    · rw [← hspent.memory]
      exact hrewrites
  | lands hskipped hquiet hfirst =>
    -- no conflict is left, so that nothing is skipped afterwards
    obtain rfl : skipped = [] := by
      rw [Database.skipped_of_quiet hquiet] at hskips
      exact List.eq_nil_of_length_eq_zero hskips
    refine ⟨[], s :: changed, rfl, ⟨(hskipped _).symm, hfirst.append hrewrites, ?_⟩,
      fun hnone => (by cases hnone)⟩
    refine hraises.mono ?_
    rw [hquiet]
    exact Nat.zero_le _

def Stops (c : Collection) (change : Change) (policy : RetryPolicy) (db : MemoryDatabase)
    (cs : List Candidate) (once : Bool) (e : Error) (db' : MemoryDatabase) : Prop :=
  ∃ skipped changed s rest, cs = (skipped ++ changed) ++ s :: rest ∧
    c.StopsAt change policy db skipped changed s e db' ∧ (once = true → changed = [])

theorem Stops.of_fails {once : Bool} (h : c.Fails change policy s db e db') :
    c.Stops change policy db (s :: rest) once e db' :=
  ⟨[], [], s, rest, rfl, h.stopsAt, fun _ => rfl⟩

theorem Stops.cons {once : Bool} (hs : c.Handles change policy s db o db')
    (honce : once = true → o = none) (h : c.Stops change policy db' rest once e db'') :
    c.Stops change policy db (s :: rest) once e db'' := by
  obtain ⟨skipped, changed, s', later, rfl, hstops, hchanged⟩ := h
  obtain ⟨skipped', changed', hsplit, hstops', hsame⟩ := hstops.cons hs
  refine ⟨skipped', changed', s', later, ?_, hstops', fun h => ?_⟩
  · rw [← hsplit, List.cons_append]
  · rw [hsame (honce h), hchanged h]

/-- What was read before uses up no conflicts. -/
theorem Stops.of_alike {once : Bool} (hdb' : db.Alike db')
    (h : c.Stops change policy db' cs once e db'') : c.Stops change policy db cs once e db'' := by
  obtain ⟨skipped, changed, s, rest, hsplit, ⟨hskips, hrewrites, hraises⟩, honce⟩ := h
  rw [hdb'.skipped] at hskips
  rw [hdb'.table, hdb'.version] at hrewrites
  rw [hdb'.remaining] at hraises
  exact ⟨skipped, changed, s, rest, hsplit, ⟨hskips, hrewrites, hraises⟩, honce⟩

/-- A change of documents one after another ends at the first that it fails on. -/
theorem changeEach_stops (hc : c.WellIndexed) (hpolicy : policy.check = .ok ())
    (hopen : db.memory.closed = false) (h : c.Waits q db.memory.table cs) :
    (c.changeEach change q policy cs).Ends (fun _ _ => True) (c.Stops change policy db cs false)
      db := by
  induction cs generalizing db with
  | nil => exact .pure trivial
  | cons s rest ih =>
    refine .bind ((changeCandidate_handles hc hopen hpolicy h.first).imp ?_
      fun _ _ hfails => .of_fails hfails)
    rintro o db' ⟨hopen', hhandles⟩
    refine .bind ((ih hopen' (hhandles.waits hc h)).imp (fun _ _ _ => .pure trivial) ?_)
    exact fun e db'' hstops => hstops.cons hhandles fun hfalse => by cases hfalse

/-- Without conflicts a change of documents one after another that does not fail has changed all of
them. -/
theorem changeEach_changes (hc : c.WellIndexed) (hpolicy : policy.check = .ok ())
    (hopen : db.memory.closed = false) (hquiet : db.settings.store.remaining = 0)
    (h : c.Waits q db.memory.table cs) :
    (c.changeEach change q policy cs).Ends (fun results db' =>
      results = cs.map (fun s => change.made s.document) ∧ db'.memory.closed = false ∧
        c.Rewrites change change.made cs db.memory.table db.memory.version db'.memory.table
          db'.memory.version) (fun _ _ => True) db := by
  induction cs generalizing db with
  | nil => exact .pure ⟨rfl, hopen, .nil _ _⟩
  | cons s rest ih =>
    refine .bind ((changeCandidate_handles hc hopen hpolicy h.first).imp ?_
      fun _ _ _ => trivial)
    rintro o db' ⟨hopen', hhandles⟩
    have hrest := hhandles.waits hc h
    cases hhandles with
    | skips _ hpos _ => exact absurd hquiet hpos
    | lands _ hquiet' hfirst =>
      refine .bind ((ih hopen' hquiet' hrest).imp ?_ fun _ _ _ => trivial)
      rintro results db'' ⟨rfl, hopen'', hrewrites⟩
      exact .pure ⟨rfl, hopen'', hfirst.append hrewrites⟩

variable {candidates : Candidates} {reads : Nat → Nat} {seen entries : List Entry} {fuel : Nat}

/-- A change of the first document that is not skipped ends at one that it fails on, and then nothing
is changed. -/
theorem changeFirst_stops (hc : c.WellIndexed) (hpolicy : policy.check = .ok ())
    (hopen : db.memory.closed = false) (hcandidates : candidates.Holds db reads q seen entries)
    (hentries : q.candidates entries = cs) (hfuel : entries.length < fuel)
    (h : c.Waits q db.memory.table cs) :
    (c.changeFirst change q policy fuel candidates).Ends (fun _ _ => True)
      (c.Stops change policy db cs true) db := by
  induction fuel generalizing db cs candidates seen entries with
  | zero => exact absurd hfuel (Nat.not_lt_zero _)
  | succ fuel ih =>
    refine changeFirst_next hopen hcandidates hentries hfuel (fun _ _ _ => trivial) ?_
    rintro s rest rfl db' _ candidates' _ later hspends hholds hlater hfuel' ⟨⟩
    have halike := hspends.alike
    rw [← halike.table] at h
    refine Action.Ends.bind ((changeCandidate_handles hc (halike.closed.trans hopen) hpolicy
      h.first).imp ?_ fun _ _ hfails => (Stops.of_fails hfails).of_alike halike)
    rintro o db'' ⟨hopen', hhandles⟩
    have hwaits := hhandles.waits hc h
    cases hhandles with
    | lands _ _ _ => exact .pure trivial
    | skips hsingle hpos hspent =>
      refine (ih hopen' (holds_of_memory hspent.memory hholds) hlater hfuel' hwaits).imp
        (fun _ _ _ => trivial) fun e db₃ hstops => ?_
      exact (hstops.cons (.skips hsingle hpos hspent) fun _ => rfl).of_alike halike

/-- A change of the documents that match comes to an end, and if it fails it does so on one of them.
-/
theorem change_stops (hc : c.WellIndexed) (ht : c.Consistent db.memory.table)
    (hopen : db.memory.closed = false) (hbatch : 0 < c.defaults.scanBatch)
    (hfuel : db.memory.table.size < fuel) {q : Query} {o : WriteOptions}
    (hpolicy : (c.retryPolicy change o).check = .ok ()) :
    (c.change change q o fuel).Ends (fun _ _ => True)
      (c.Stops change (c.retryPolicy change o) db (c.selected db.memory.table q.compile)
        o.justOnce) db := by
  have hwaits := (selects_selected hc ht q.compile).waits ht
  refine change_gathers (ht.readable _) hopen hbatch hfuel hpolicy ?_ ?_
  · intro db' candidates reads entries honce hspends hcandidates hlength hentries
    have halike := hspends.alike
    rw [← halike.table] at hwaits
    rw [honce]
    exact (changeFirst_stops hc hpolicy (halike.closed.trans hopen) hcandidates
      (halike.table ▸ hentries) hlength hwaits).imp (fun _ _ _ => trivial)
      fun _ _ hstops => halike.table ▸ hstops.of_alike halike
  · intro db' honce hspends
    have halike := hspends.alike
    rw [← halike.table] at hwaits
    rw [honce, ← halike.table]
    exact (changeEach_stops hc hpolicy (halike.closed.trans hopen) hwaits).imp
      (fun _ _ _ => trivial) fun _ _ hstops => hstops.of_alike halike

/-- Without conflicts a change that does not fail has changed all documents that match. -/
theorem change_changes (hc : c.WellIndexed) (ht : c.Consistent db.memory.table)
    (hopen : db.memory.closed = false) (hquiet : db.settings.store.remaining = 0)
    (hbatch : 0 < c.defaults.scanBatch) (hfuel : db.memory.table.size < fuel) {q : Query}
    {o : WriteOptions} (hpolicy : (c.retryPolicy change o).check = .ok ())
    (hmany : o.justOnce = false) :
    (c.change change q o fuel).Ends (fun results db' =>
      results = (c.selected db.memory.table q.compile).map (fun s => change.made s.document) ∧
        db'.memory.closed = false ∧
        c.Rewrites change change.made (c.selected db.memory.table q.compile) db.memory.table
          db.memory.version db'.memory.table db'.memory.version) (fun _ _ => True) db := by
  have hwaits := (selects_selected hc ht q.compile).waits ht
  refine change_gathers (ht.readable _) hopen hbatch hfuel hpolicy ?_ ?_
  · intro _ _ _ _ honce
    cases hmany.symm.trans honce
  · intro db' _ hspends
    have halike := hspends.alike
    rw [← halike.table] at hwaits
    rw [← halike.table, ← halike.version]
    exact changeEach_changes hc hpolicy (halike.closed.trans hopen)
      (halike.remaining.trans hquiet) hwaits

end Collection

end DocumentStore
